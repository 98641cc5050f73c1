import JavaEdit.Text.Split

/-!
# Command line arguments

Arguments are options, long ones behind two dashes and short ones behind one, and operands. A
value stands behind an option, after an equals sign or as the next argument; short options may
share one dash. Behind two dashes alone everything is an operand.
-/

namespace JavaEdit.Console

inductive OptionKind where
  /-- Nothing, and it is given once at most. -/
  | flag
  | counter
  | text
  | path
  | paths
  deriving DecidableEq, Repr

structure OptionSpec where
  long : String
  short : Option Char
  kind : OptionKind
  deriving DecidableEq, Repr

namespace OptionSpec

def takesValue (o : OptionSpec) : Bool := !(o.kind == .flag || o.kind == .counter)

def isRepeatable (o : OptionSpec) : Bool := o.kind == .counter || o.kind == .paths

def accepts (o : OptionSpec) (value : String) : Bool := o.kind == .text || !value.isEmpty

end OptionSpec

/-- Arguments taken apart: values of options by their long names, and operands. -/
structure Arguments where
  options : List (String × String) := []
  operands : List String := []
  deriving DecidableEq, Repr

namespace Arguments

def has (a : Arguments) (long : String) : Bool := a.options.any fun o => o.1 == long

def values (a : Arguments) (long : String) : List String :=
  (a.options.filter fun o => o.1 == long).map fun o => o.2

def value? (a : Arguments) (long : String) : Option String := (a.values long).head?

/-- Take an option with its value, unless it was given before. -/
def take? (a : Arguments) (o : OptionSpec) (value : String) : Option Arguments :=
  if a.has o.long && !o.isRepeatable then none
  else if o.takesValue && !o.accepts value then none
  else some { a with options := a.options ++ [(o.long, value)] }

def operand (a : Arguments) (value : String) : Arguments :=
  { a with operands := a.operands ++ [value] }

end Arguments

def isOption (arg : String) : Bool :=
  match arg.toList with
  | '-' :: _ :: _ => true
  | _ => false

/-- A long option and the value behind its equals sign. -/
def splitLong (cs : List Char) : String × Option String :=
  let value := match cs.dropWhile (· != '=') with
    | _ :: value => some (String.ofList value)
    | [] => none
  (String.ofList (cs.takeWhile (· != '=')), value)

/-- What a cluster of short options leads to. -/
inductive ClusterEnd where
  | done (a : Arguments)
  | waiting (a : Arguments) (o : OptionSpec)

def takeCluster (specs : List OptionSpec) (a : Arguments) : List Char → Option ClusterEnd
  | [] => some (.done a)
  | c :: cs => do
    let o ← specs.find? fun o => o.short == some c
    if o.takesValue then
      match cs with
      | [] => return .waiting a o
      | '=' :: value => return .done (← a.take? o (String.ofList value))
      | value => return .done (← a.take? o (String.ofList value))
    else takeCluster specs (← a.take? o "") cs

def takeArguments (specs : List OptionSpec) (a : Arguments) : List String → Option Arguments
  | [] => some a
  | arg :: rest =>
    match arg.toList with
    | ['-', '-'] => some { a with operands := a.operands ++ rest }
    | '-' :: '-' :: cs => do
      let (long, value) := splitLong cs
      let o ← specs.find? fun o => o.long == long
      if o.takesValue then
        match value, rest with
        | some value, rest => takeArguments specs (← a.take? o value) rest
        | none, value :: rest =>
          if isOption value then none else takeArguments specs (← a.take? o value) rest
        | none, [] => none
      else if value.isSome then none
      else takeArguments specs (← a.take? o "") rest
    | '-' :: c :: cs => do
      match ← takeCluster specs a (c :: cs), rest with
      | .done a, rest => takeArguments specs a rest
      | .waiting a o, value :: rest =>
        if isOption value then none else takeArguments specs (← a.take? o value) rest
      | .waiting _ _, [] => none
    | _ => takeArguments specs (a.operand arg) rest

end JavaEdit.Console
