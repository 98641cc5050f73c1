import JavaEdit.Machine.Call

/-!
# Expressions
-/

namespace JavaEdit.Run

def condition (c : Calls) (t : Tree Unit) : Run Bool := do
  match ← c.eval t with
  | .boolean b => return b
  | other => fault (.incompatible (← typeName other) "boolean")

def joinBooleans? (operator : BinaryOperator) (a b : Bool) : Option Bool :=
  match operator with
  | .and | .bitAnd => some (a && b)
  | .or | .bitOr => some (a || b)
  | .bitXor => some (a != b)
  | _ => none

def isString : Value → Bool
  | .string _ => true
  | _ => false

def combine (w : World) (operator : BinaryOperator) (a b : Value) : Except Upset Value :=
  match operator with
  | .eq => .ok (.boolean (a.same b))
  | .ne => .ok (.boolean (!a.same b))
  | _ =>
    let joined := match a, b with
      | .boolean x, .boolean y => joinBooleans? operator x y
      | _, _ => none
    match joined, a.numeric?, b.numeric? with
    | some r, _, _ => .ok (.boolean r)
    | none, some x, some y => Numeric.operate operator x y
    | none, _, _ => .error (.fault (.badOperands operator (w.typeName a) (w.typeName b)))

def binary (p : Program) (c : Calls) (operator : BinaryOperator) (a b : Value) : Run Value := do
  if operator == .plus && (isString a || isString b) then
    let left ← stringify p c a
    let right ← stringify p c b
    return .string (left ++ right)
  else ofExcept (combine (← get) operator a b)

def unary (operator : UnaryOperator) (value : Value) : Run Value := do
  match operator, value with
  | .not, .boolean b => return .boolean (!b)
  | _, _ =>
    match value.numeric?.bind (Numeric.unary? operator) with
    | some n => return Value.ofNumeric n
    | none => fault (.badOperand operator (← typeName value))

def cast (p : Program) (type : TypeUse) (value : Value) : Run Value := do
  match type.primitive? with
  | some .boolean =>
    match value with
    | .boolean _ => return value
    | _ => fault (.incompatible (← typeName value) type.name)
  | some primitive =>
    if value.numeric?.isSome then return value.convert (some primitive)
    else fault (.incompatible (← typeName value) type.name)
  | none =>
    let w ← get
    if p.fits w.classOf type value then return value
    else trap (.badCast (w.typeName value) type.name)

def place (p : Program) (c : Calls) (t : Tree Unit) : Run Place := do
  match t.kind with
  | .name name => placeOfName p name
  | .fieldAccess target name =>
    let w ← get
    match w.namedClass? p target with
    | some className =>
      match w.staticOwner? p className name with
      | some owner => return .static owner name
      | none => fault (.unassignable className name)
    | none =>
      match ← c.eval target with
      | .object ref =>
        let w ← get
        if (w.field? ref name).isSome then return .field ref name
        else fault (.unknownMember name (w.classOf ref))
      | .null => trap (.nullMember name)
      | other => fault (.unknownMember name (← typeName other))
  | .arrayAccess target index =>
    let array ← c.eval target
    let (ref, i) ← element array (← c.eval index)
    return .element ref i
  | kind => fault (.badTarget kind.variant)

def fieldAccess (p : Program) (c : Calls) (target : Tree Unit) (name : String) : Run Value := do
  let w ← get
  match w.namedClass? p target with
  | some className => readStatic ((w.staticOwner? p className name).getD className) name
  | none =>
    match ← c.eval target with
    | .object ref =>
      match (← get).field? ref name with
      | some value => return value
      | none => fault (.unknownVariable name)
    | .null => trap (.nullMember name)
    | .array ref =>
      if name == "length" then return .int (Int32.ofNat ((← get).items ref).size)
      else fault (.unknownMember name "array")
    | other => fault (.unknownMember name (← typeName other))

/-- The stream that an expression names: whether what is printed to it is kept. -/
def printStream? (w : World) (p : Program) (t : Tree Unit) : Option Bool :=
  match t.kind with
  | .fieldAccess target name =>
    if w.namedClass? p target == some "System" then
      if name == "out" then some true else if name == "err" then some false else none
    else none
  | _ => none

def printTo (p : Program) (c : Calls) (kept : Bool) (name : String) (args : List Value) :
    Run Value := do
  let put (text : String) : Run Value := do
    if kept then modify fun w => { w with output := w.output ++ text }
    return .void
  match name, args with
  | "println", [] => put "\n"
  | "println", [value] => put ((← stringify p c value) ++ "\n")
  | "print", [value] => put (← stringify p c value)
  | "flush", [] => return .void
  | _, _ => fault (.unknownStaticMethod "PrintStream" name)

def superCall (p : Program) (c : Calls) (name : String) (arguments : List (Tree Unit)) :
    Run Value := do
  let frame := (← get).frame
  match frame.this with
  | none => fault (.staticContext "variable super")
  | some ref =>
    let args ← evalAll c arguments
    let parent := ((p.class? frame.className).bind ClassInfo.superclass).getD "Object"
    match ← findMethod p parent name args with
    | some (owner, method) => c.method (some ref) owner method args
    | none => objectMethod p ref name args

def invocation (p : Program) (c : Calls) (target : Option (Tree Unit)) (name : String)
    (arguments : List (Tree Unit)) : Run Value := do
  match target with
  | none =>
    if name == "this" || name == "super" then fault (.lateConstructorCall name)
    else callByName p c name (← evalAll c arguments)
  | some target =>
    let w ← get
    match printStream? w p target, target.kind, w.namedClass? p target with
    | some kept, _, _ => printTo p c kept name (← evalAll c arguments)
    | none, .super, _ => superCall p c name arguments
    | none, _, some className => callStatic p c className name (← evalAll c arguments)
    | none, _, none =>
      let receiver ← c.eval target
      callOn p c receiver name (← evalAll c arguments)

def arrayLength (value : Value) : Run Nat := do
  let length ← match value with
    | .int v => pure v
    | .char ch => pure ch.toNat.toUInt32.toInt32
    | other => fault (.incompatible (← typeName other) "int")
  if length < 0 then trap (.negativeSize length) else return length.toInt.toNat

def makeArray (leaf : Value) : List Nat → Run Value
  | [] => return leaf
  | length :: rest => do
    let items ← (List.replicate length ()).mapM fun _ => makeArray leaf rest
    return .array (← modifyGet fun w => w.allocArray items.toArray)

def update (p : Program) (c : Calls) (operator : UnaryOperator) (operand : Tree Unit) :
    Run Value := do
  let target ← place p c operand
  let old ← readPlace p target
  let step : BinaryOperator :=
    if operator == .preInc || operator == .postInc then .plus else .minus
  let new ← binary p c step old (.int 1)
  let stored ← writePlace target new
  return if operator.isPostfix then old else stored

def assign (p : Program) (c : Calls) (operator : Option BinaryOperator) (target value : Tree Unit) :
    Run Value := do
  let target ← place p c target
  match operator with
  | none => writePlace target (← c.eval value)
  | some operator =>
    let old ← readPlace p target
    let right ← c.eval value
    writePlace target (← binary p c operator old right)

def binaryExpression (p : Program) (c : Calls) (operator : BinaryOperator)
    (left right : Tree Unit) : Run Value := do
  match operator with
  | .and => if ← condition c left then .boolean <$> condition c right else return .boolean false
  | .or => if ← condition c left then return .boolean true else .boolean <$> condition c right
  | .instanceOf =>
    let value ← c.eval left
    let type := TypeUse.ofTree right
    let w ← get
    if 0 < type.dimensions then
      match value with
      | .array _ => return .boolean true
      | _ => return .boolean false
    else return .boolean (p.isInstance w.classOf value type.name)
  | _ =>
    let a ← c.eval left
    let b ← c.eval right
    binary p c operator a b

def evalRule (p : Program) (c : Calls) (t : Tree Unit) : Run Value := do
  match t.kind with
  | .literal value => return Value.ofLiteral value
  | .name name => readName p name
  | .this =>
    match (← get).frame.this with
    | some ref => return .object ref
    | none => fault (.staticContext "variable this")
  | .fieldAccess target name => fieldAccess p c target name
  | .invocation target name arguments => invocation p c target name arguments
  | .new type arguments =>
    let args ← evalAll c arguments
    instantiate p c (TypeUse.ofTree type).name args
  | .newArray type dimensions extra =>
    let lengths ← (← evalAll c dimensions).mapM arrayLength
    let leaf := if 0 < extra then .null else Value.default (TypeUse.ofTree type).primitive?
    makeArray leaf lengths
  | .arrayAccess target index =>
    let array ← c.eval target
    let (ref, i) ← element array (← c.eval index)
    return ((← get).items ref).getD i .null
  | .binary operator left right => binaryExpression p c operator left right
  | .unary operator operand =>
    if operator.isUpdate then update p c operator operand
    else unary operator (← c.eval operand)
  | .assignment operator target value => assign p c operator target value
  | .conditional test thenValue elseValue =>
    if ← condition c test then c.eval thenValue else c.eval elseValue
  | .cast type value =>
    let value ← c.eval value
    cast p (TypeUse.ofTree type) value
  | kind => fault (.notAnExpression kind.variant)

end JavaEdit.Run
