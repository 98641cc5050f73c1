import JavaEdit.Machine.Run
import JavaEdit.Project.Basic
import JavaEdit.Script.Basic
import JavaEdit.Text.Visible

/-!
# Checking the expectations of a script

The class an expectation names is printed on its own, run, and compared with what is expected of
its result, its exception and its output.
-/

namespace JavaEdit

/-- Text of an expected floating point number: positional, with no more digits than needed. -/
def ExpectedValue.floatText (bits : Nat) : String :=
  let f := Number.Format.double
  if f.isNaN bits then "NaN"
  else
    String.ofList (f.signText bits ++
      (if f.isInfinite bits then ['i', 'n', 'f'] else (f.shortest bits).positional))

def ExpectedValue.message : ExpectedValue → String
  | boolean b => if b then "true" else "false"
  | integer n => String.ofList (Number.Decimal.signedText n.toInt)
  | float bits => floatText bits
  | text s => Text.visible s

/-- Whether a result is the expected one. A text stands for a string of that content, or for any
other value that is printed so. -/
def ExpectedValue.accepts (w : World) : ExpectedValue → Value → Bool
  | boolean b, .boolean v => v == b
  | integer n, .int v => v.toInt64 == n
  | integer n, .long v => v == n
  | float bits, .double v => v == Float.ofBits (UInt64.ofNat bits)
  | float bits, .float v => v.toFloat == Float.ofBits (UInt64.ofNat bits)
  | text s, .string v => v == s
  | text s, v => w.text v == s
  | _, _ => false

/-- Why an expectation does not hold. Values are given by what is shown of them. -/
inductive ExpectationFailure where
  | query (error : QueryError)
  | run (error : RunError)
  | notThrown (expected value : String)
  | wrongValue (expected : ExpectedValue) (value : String)
  | wrongOutput (expected output : String)
  deriving DecidableEq, Repr

def ExpectationFailure.message : ExpectationFailure → String
  | query error => error.message
  | run error => error.message
  | notThrown expected value =>
    "expected " ++ expected ++ " to be thrown, but returned " ++ value
  | wrongValue expected value => "expected " ++ expected.message ++ ", got " ++ value
  | wrongOutput expected output =>
    "expected output " ++ Text.visible expected ++ ", got " ++ Text.visible output

def Text.endsWith (s ending : String) : Bool := ending.toList.isSuffixOf s.toList

/-- Whether the name of an exception is the expected one, with or without its package. -/
def isExpectedException (expected exception : String) : Bool :=
  exception == expected || Text.endsWith exception ("." ++ expected)

namespace Expectation

/-- Compare the end of a call with what is expected of it. -/
def checkResult (e : Expectation) (w : World) (result : Except RunError Value) :
    Except ExpectationFailure Unit :=
  match result, e.throws with
  | .ok value, some expected => .error (.notThrown expected (w.text value))
  | .ok value, none =>
    match e.returns with
    | some expected =>
      if expected.accepts w value then .ok () else .error (.wrongValue expected (w.text value))
    | none => .ok ()
  | .error (.escaped exception detail), some expected =>
    if isExpectedException expected exception then .ok ()
    else .error (.run (.escaped exception detail))
  | .error error, _ => .error (.run error)

def checkOutput (e : Expectation) (output : String) : Except ExpectationFailure Unit :=
  match e.output with
  | some expected => if output == expected then .ok () else .error (.wrongOutput expected output)
  | none => .ok ()

/-- Run the class of an expectation on its own and compare. -/
def check (e : Expectation) (p : Project) : Except ExpectationFailure Unit := do
  let type ← (p.getType e.className).mapError .query
  let qualified := (p.arena.qualifiedName? type).getD e.className
  let compiled ← (compile qualified (p.standaloneSource type)).mapError .run
  let start ← compiled.instantiate.mapError .run
  let (result, last) := start.invoke e.method []
  e.checkResult last.world result
  e.checkOutput last.world.output

end Expectation

structure ExpectationOutcome where
  className : String
  method : String
  failure : Option ExpectationFailure
  deriving DecidableEq, Repr

def Script.check (s : Script) (p : Project) : List ExpectationOutcome :=
  s.expectations.map fun e =>
    ⟨e.className, e.method,
      match e.check p with
      | .ok () => none
      | .error failure => some failure⟩

end JavaEdit
