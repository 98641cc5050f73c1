import JavaEdit.Machine.Program

/-!
# Classes and their supertypes

Look-ups along superclasses, interfaces and enclosing classes. They end also where declarations
run in a circle: no class is visited twice.
-/

namespace JavaEdit

def builtinClasses : List (String × String) :=
  [("Throwable", "Object"), ("Exception", "Throwable"), ("Error", "Throwable"),
   ("StackOverflowError", "Error"), ("RuntimeException", "Exception"),
   ("ArithmeticException", "RuntimeException"),
   ("IllegalArgumentException", "RuntimeException"),
   ("NumberFormatException", "IllegalArgumentException"),
   ("IllegalStateException", "RuntimeException"), ("NullPointerException", "RuntimeException"),
   ("UnsupportedOperationException", "RuntimeException"),
   ("ClassCastException", "RuntimeException"), ("NegativeArraySizeException", "RuntimeException"),
   ("IndexOutOfBoundsException", "RuntimeException"),
   ("ArrayIndexOutOfBoundsException", "IndexOutOfBoundsException"),
   ("StringIndexOutOfBoundsException", "IndexOutOfBoundsException")]

def builtinParent? (name : String) : Option String := builtinClasses.lookup name

/-- Whether a class is a built-in one that can be thrown; all built-in classes can. -/
def isBuiltinThrowable (name : String) : Bool := (builtinParent? name).isSome

/-- Classes with static members that the machine provides. -/
def nativeClasses : List String :=
  ["Math", "Integer", "Long", "Double", "Float", "Boolean", "Character", "String", "System",
   "Object"]

/-- Names of types that values without class can have. -/
def valueTypes : List String :=
  ["Object", "String", "CharSequence", "Comparable", "Number", "Integer", "Long", "Short", "Byte",
   "Double", "Float", "Boolean", "Character"]

namespace Program

/-- A class and the superclasses that the program declares, nearest first, without those seen. -/
def chainFrom (p : Program) : Nat → List String → Option ClassInfo → List ClassInfo
  | 0, _, _ => []
  | _ + 1, _, none => []
  | fuel + 1, seen, some c =>
    if seen.contains c.name then []
    else c :: p.chainFrom fuel (c.name :: seen) (c.superclass.bind p.class?)

/-- A class and the superclasses that the program declares, nearest first. -/
def chain (p : Program) (name : String) : List ClassInfo :=
  p.chainFrom (p.classes.length + 1) [] (p.class? name)

/-- Names right above a class. A class without superclass is below `Object`. -/
def supertypes (p : Program) (name : String) : List String :=
  match p.class? name with
  | some c =>
    let up := match c.superclass with
      | some s => [s]
      | none => if c.isInterface then [] else ["Object"]
    up ++ c.interfaces.reverse
  | none => (builtinParent? name).toList

def reaches (p : Program) (target : String) : Nat → List String → List String → Bool
  | 0, _, _ => false
  | _ + 1, _, [] => false
  | fuel + 1, seen, name :: rest =>
    if name == target then true
    else if seen.contains name then p.reaches target fuel seen rest
    else p.reaches target fuel (name :: seen) (p.supertypes name ++ rest)

/-- How many names a search upwards can meet. -/
def edgeCount (p : Program) : Nat :=
  p.classes.foldl (fun n c => n + c.interfaces.length + 1) (builtinClasses.length + 2)

/-- Whether a class is another one or below it. Everything is below `Object`. -/
def isSubtype (p : Program) (name target : String) : Bool :=
  target == "Object" || p.reaches target p.edgeCount [] [name]

def isKnownType (p : Program) (name : String) : Bool :=
  (Primitive.ofName? name).isSome || (p.class? name).isSome || (builtinParent? name).isSome
    || valueTypes.contains name

/-- Whether a value belongs to a reference type; `classOf` gives the class of an object. -/
def isInstance (p : Program) (classOf : Nat → String) (value : Value) (name : String) : Bool :=
  match value with
  | .null | .void => false
  | .string _ => ["String", "Object", "CharSequence", "Comparable"].contains name
  | .boolean _ => ["Boolean", "Object"].contains name
  | .char _ => ["Character", "Object"].contains name
  | .int _ => ["Integer", "Short", "Byte", "Number", "Object"].contains name
  | .long _ => ["Long", "Number", "Object"].contains name
  | .float _ => ["Float", "Number", "Object"].contains name
  | .double _ => ["Double", "Number", "Object"].contains name
  | .object ref => p.isSubtype (classOf ref) name
  | .array _ => name == "Object"

/-- Whether a value may stand where a reference type is declared. Types that are not known take
everything. -/
def fits (p : Program) (classOf : Nat → String) (type : TypeUse) (value : Value) : Bool :=
  if 0 < type.dimensions then value.isArrayOrNull
  else value.isNull || p.isInstance classOf value type.name || !p.isKnownType type.name

/-- Whether a value of a primitive type is taken by another primitive type. -/
def widens (target : Primitive) (value : Value) : Bool :=
  match target, value with
  | .boolean, .boolean _ => true
  | .char, .char _ => true
  | .byte, .int _ | .byte, .char _ | .short, .int _ | .short, .char _ | .int, .int _
  | .int, .char _ => true
  | .long, .int _ | .long, .char _ | .long, .long _ => true
  | .float, .int _ | .float, .char _ | .float, .long _ | .float, .float _ => true
  | .double, v => v.numeric?.isSome
  | _, _ => false

/-- Whether a value can be passed where a type is declared. -/
def accepts (p : Program) (classOf : Nat → String) (type : TypeUse) (value : Value) : Bool :=
  match type.primitive? with
  | some primitive => widens primitive value
  | none => p.fits classOf type value

def acceptsAll (p : Program) (classOf : Nat → String) (parameters : List ParameterInfo)
    (args : List Value) : Bool :=
  parameters.length == args.length
    && (parameters.zip args).all fun (q, arg) => p.accepts classOf q.type arg

/-- Whether parameters end with dots and there are enough arguments for the others. -/
def takesRest (parameters : List ParameterInfo) (args : List Value) : Bool :=
  (parameters.getLast?.any fun q => q.varargs) && parameters.length ≤ args.length + 1

/-- The declaration that arguments select: the first that takes them one to one, else the first
with dots, else the first with as many parameters. -/
def select? {α : Type} (p : Program) (classOf : Nat → String) (parameters : α → List ParameterInfo)
    (candidates : List α) (args : List Value) : Option α :=
  match candidates.find? fun c => p.acceptsAll classOf (parameters c) args with
  | some c => some c
  | none =>
    match candidates.find? fun c => takesRest (parameters c) args with
    | some c => some c
    | none => candidates.find? fun c => (parameters c).length == args.length

/-- The first class of a list with a method that arguments select. -/
def findInClasses? (p : Program) (classOf : Nat → String) (name : String) (args : List Value) :
    List ClassInfo → Option (String × MethodInfo)
  | [] => none
  | c :: rest =>
    match p.select? classOf MethodInfo.parameters (c.methods.filter fun m => m.name == name)
        args with
    | some m => some (c.name, m)
    | none => p.findInClasses? classOf name args rest

/-- A default method of interfaces, the last ones first. -/
def findInInterfaces? (p : Program) (classOf : Nat → String) (name : String)
    (args : List Value) : Nat → List String → List String → Option (String × MethodInfo)
  | 0, _, _ => none
  | _ + 1, _, [] => none
  | fuel + 1, seen, i :: rest =>
    if seen.contains i then p.findInInterfaces? classOf name args fuel seen rest
    else
      match p.class? i with
      | none => p.findInInterfaces? classOf name args fuel (i :: seen) rest
      | some c =>
        let candidates := c.methods.filter fun m => m.name == name && m.body.isSome
        match p.select? classOf MethodInfo.parameters candidates args with
        | some m => some (c.name, m)
        | none =>
          p.findInInterfaces? classOf name args fuel (i :: seen) (c.interfaces.reverse ++ rest)

/-- The method that a call on an object of a class runs, with the class that declares it:
superclasses come before default methods of interfaces. -/
def findMethod? (p : Program) (classOf : Nat → String) (className name : String)
    (args : List Value) : Option (String × MethodInfo) :=
  let chain := p.chain className
  match p.findInClasses? classOf name args chain with
  | some found => some found
  | none =>
    let interfaces := (chain.flatMap ClassInfo.interfaces).reverse
    p.findInInterfaces? classOf name args (interfaces.length + p.edgeCount) [] interfaces

/-- The classes around a class, itself first. -/
def enclosingFrom (p : Program) : Nat → Option ClassInfo → List ClassInfo
  | 0, _ => []
  | _ + 1, none => []
  | fuel + 1, some c => c :: p.enclosingFrom fuel (c.outer.bind p.class?)

/-- The classes around a class, itself first. -/
def enclosing (p : Program) (name : String) : List ClassInfo :=
  p.enclosingFrom (p.classes.length + 1) (p.class? name)

end Program

end JavaEdit
