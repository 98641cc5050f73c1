import JavaEdit.Parser.Declarations

/-!
# The grammar

The rules are tied together here: `grammar` answers every goal, calling itself with one step less.
The entry points read a whole text as a unit, an expression or a block, into an arena that may
hold nodes already. Between two characters that are read the rules call each other fewer than
eight times, so eight steps a character are enough for every text.
-/

namespace JavaEdit

namespace Parser

def rule (r : Rules) : Goal → Parser NodeId
  | .expression => assignment r
  | .conditional => conditional r
  | .operation least => operation r least
  | .unary => nested (unary r)
  | .type => nested (typeReference r false true)
  | .annotationUse => annotationUse r
  | .block => block r
  | .statement => nested (statement r)
  | .typeDeclaration start comments ms annotations =>
    typeDeclaration r start comments ms annotations

/-- Answer a goal in a number of steps. -/
def grammar : Nat → Goal → Parser NodeId
  | 0, _ => fail .outOfSteps
  | steps + 1, goal => rule ⟨steps, grammar steps⟩ goal

def weight (ts : List Token) : Nat := ts.foldl (fun n t => n + t.text.length) 0

def stepsFor (ts : List Token) : Nat := 8 * (weight ts + ts.length + 2)

def finish : Parser Unit := do
  if ← atEnd then return () else unexpected .endOfInput

/-- Run a rule on a text: the outcome, and the arena behind it. -/
def readWith {α : Type} (rule : Rules → Parser α) (a : Arena) (file text : String) :
    Except ParseError α × Arena :=
  match tokenize file text with
  | .error e => (.error e, a)
  | .ok tokens =>
    let steps := stepsFor tokens
    let (result, s) := (rule ⟨steps, grammar steps⟩).run.run ⟨file, tokens, 0, 0, [], a⟩
    (result, s.arena)

end Parser

namespace Arena

def readUnit (a : Arena) (file text : String) : Except ParseError NodeId × Arena :=
  Parser.readWith Parser.compilationUnit a file text

def readExpression (a : Arena) (text : String) : Except ParseError NodeId × Arena :=
  Parser.readWith (fun r => do
    let id ← Parser.expression r
    Parser.finish
    return id) a "<expression>" text

def readBlock (a : Arena) (text : String) : Except ParseError NodeId × Arena :=
  Parser.readWith (fun r => do
    let id ← Parser.block r
    Parser.finish
    return id) a "<block>" text

end Arena

end JavaEdit
