import JavaEdit.Machine.Run
import JavaEdit.Proofs.Accepted.Equality
import JavaEdit.Proofs.Parser.Wording

/-!
# Programs are their structure

What a program does depends on its payloads alone, and units that were read and are structurally equal
have the same payloads (`Arena.structurallyEqual_iff_bare`). They load as the same program, which then
answers the same to every step of a session.
-/

namespace JavaEdit

/-! ## Programs -/

/-- Texts of units that are structurally equal load as the same program. The files that the units
were read from may have any names. -/
theorem Program.load_eq {text text' file file' : String} {a b : Arena} {u v : NodeId}
    (left : Arena.empty.readUnit file text = (.ok u, a))
    (right : Arena.empty.readUnit file' text' = (.ok v, b)) (same : a.structurallyEqual u b v)
    (name : String) : load name text = load name text' := by
  have regular : ∀ {a : Arena} {u : NodeId}, a.TreeAt (IsUnit Made) u → a.TreeAt (·.Every (Regular Made)) u :=
    fun isUnit => isUnit.mono fun _ => IsUnit.every_regular
  have trees := (Arena.structurallyEqual_iff_bare (regular (Arena.isUnit_of_readUnit left))
    (regular (Arena.isUnit_of_readUnit right))).mp same
  -- loading reads the text once more, from a file that is named after the class
  have again : ∀ {text file : String} {a : Arena} {u : NodeId},
      Arena.empty.readUnit file text = (.ok u, a) → load name text = ofTree name (a.bare u) := by
    intro text file a u read
    obtain ⟨a', read', alike⟩ := Parser.readWith_of_file (fun _ _ => inferInstance) read (simpleName name ++ ".java")
    unfold load Arena.readUnit
    rw [read']
    exact congrArg (ofTree name) (alike.bare u)
  rw [again left, again right, trees]

/-! ## Sessions -/

/-- What can be asked of an object. -/
inductive Request where
  | invoke (method : String) (args : List Value)
  | field (name : String)
  | takeOutput
  /-- An array to be used as an argument. -/
  | makeArray (items : List Value)

/-- A step of a session: an object is made, or one of those that were made is asked. -/
inductive Step where
  | instantiate
  | ask (object : Nat) (request : Request)

/-- What is answered to a step. -/
inductive Answer where
  | made (result : Except RunError Nat)
  | value (result : Except RunError Value)
  | field (value : Option Value)
  | output (text : String)
  | noSuchObject

/-- The answer of an object, and the object behind it. -/
def Instance.answer (i : Instance) : Request → Answer × Instance
  | .invoke method args =>
    let (result, i) := i.invoke method args
    (.value result, i)
  | .field name => (.field (i.field? name), i)
  | .takeOutput =>
    let (text, i) := i.takeOutput
    (.output text, i)
  | .makeArray items =>
    let (array, i) := i.makeArray items
    (.value (.ok array), i)

namespace Compiled

def step (k : Compiled) (objects : List Instance) : Step → Answer × List Instance
  | .instantiate =>
    match k.instantiate with
    | .error e => (.made (.error e), objects)
    | .ok i => (.made (.ok objects.length), objects ++ [i])
  | .ask object request =>
    match objects[object]? with
    | none => (.noSuchObject, objects)
    | some i =>
      let (answer, i) := i.answer request
      (answer, objects.set object i)

/-- The answers to some steps, each with the objects behind it. -/
def session (k : Compiled) : List Instance → List Step → List (Answer × List Instance)
  | _, [] => []
  | objects, first :: rest =>
    let (answer, objects) := k.step objects first
    (answer, objects) :: k.session objects rest

end Compiled

/-- Compile a class and take some steps with it. -/
def runSession (name source : String) (steps : List Step) :
    Except RunError (List (Answer × List Instance)) :=
  (compile name source).map fun k => k.session [] steps

/-- Two fields of one declaration. -/
def twoFields : String := "class A \x7b int a, b = 3; int f() \x7b return b; \x7d \x7d"

/-- The same fields in two declarations, with a comment and other parentheses. -/
def twoFieldsApart : String := "/* A */ class A\x7bint a;\n int b = (3); // b\n int f() \x7b return (b); \x7d\x7d"

end JavaEdit
