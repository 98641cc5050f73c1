import JavaEdit.Layout.Expressions

/-!
# Layout of statements

A branch that is a block stays on the line of its head, any other branch goes to the next line,
one level deeper. Where an `else` would be read as part of a statement above it, that statement is
put in braces.
-/

namespace JavaEdit.Layout

def braces (lines : String) (depth : Nat) : String :=
  "\x7b\n" ++ lines ++ margin depth ++ "\x7d"

def blockText (statements : List Piece) (depth : Nat) : String :=
  braces (String.join (statements.map fun p => p.line (depth + 1))) depth

def branch (p : Piece) (depth : Nat) : String :=
  if p.variant == .block then
    " " ++ String.join (p.comments.map inlineText) ++ p.text depth
  else
    "\n" ++ commentLines (depth + 1) p.comments ++ margin (depth + 1) ++ p.text (depth + 1)

/-- What stands between a branch and the keyword behind it: a blank behind a closing brace, else
a new line. -/
def behindBranch (braced : Bool) (depth : Nat) : String :=
  if braced then " " else "\n" ++ margin depth

/-- The branch of an `if` that an `else` follows, up to the `else`. -/
def thenText (p : Piece) (depth : Nat) : String :=
  if endsWithOpenIf p.tree then
    " " ++ braces (p.line (depth + 1)) depth ++ behindBranch true depth
  else branch p depth ++ behindBranch (p.variant == .block) depth

/-- The branch behind an `else`; an `if` stays on its line. -/
def elseText (p : Piece) (depth : Nat) : String :=
  if p.variant == .ifElse then " " ++ p.text depth else branch p depth

def declaratorText (name : String) (initializer : Option Piece) (depth : Nat) : String :=
  name ++ match initializer with
    | some value => " = " ++ value.text depth
    | none => ""

def localText (name : String) (ms : Modifiers) (type : Piece) (initializer : Option Piece)
    (depth : Nat) : String :=
  modifierText ms ++ type.text depth ++ " " ++ declaratorText name initializer depth

def initText (depth : Nat) : List Piece → String
  | [] => ""
  | first :: rest => first.opening depth ++ String.join (rest.map fun p => p.following depth)

/-- A blank and some pieces, or nothing. -/
def spacedList (ps : List Piece) (depth : Nat) : String :=
  if ps.isEmpty then "" else " " ++ Piece.list ps depth

def jumpText (keyword : String) : Option String → String
  | some label => keyword ++ " " ++ label ++ ";"
  | none => keyword ++ ";"

def statementPart (depth : Nat) : Kind Piece → String
  | .block statements => blockText statements depth
  | .localVariable name ms type initializer => localText name ms type initializer depth ++ ";"
  | .expressionStatement value => value.text depth ++ ";"
  | .ifElse condition thenBranch none =>
    "if (" ++ condition.text depth ++ ")" ++ branch thenBranch depth
  | .ifElse condition thenBranch (some elseBranch) =>
    "if (" ++ condition.text depth ++ ")" ++ thenText thenBranch depth ++ "else"
      ++ elseText elseBranch depth
  | .whileLoop condition body => "while (" ++ condition.text depth ++ ")" ++ branch body depth
  | .doWhile body condition =>
    "do" ++ branch body depth ++ behindBranch (body.variant == .block) depth ++ "while ("
      ++ condition.text depth ++ ");"
  | .forLoop init condition update body =>
    "for (" ++ initText depth init ++ ";" ++ spacedList condition.toList depth ++ ";"
      ++ spacedList update depth ++ ")" ++ branch body depth
  | .forEach element iterable body =>
    "for (" ++ element.binding depth ++ " : " ++ iterable.text depth ++ ")" ++ branch body depth
  | .returnStmt none => "return;"
  | .returnStmt (some value) => "return " ++ value.text depth ++ ";"
  | .throwStmt value => "throw " ++ value.text depth ++ ";"
  | .breakStmt label => jumpText "break" label
  | .continueStmt label => jumpText "continue" label
  | .tryStmt body catchers finalizer =>
    "try " ++ body.text depth
      ++ String.join (catchers.map fun p => " " ++ p.only .catchClause depth)
      ++ match finalizer with
        | some last => " finally " ++ last.text depth
        | none => ""
  | .catchClause name ms types body =>
    "catch (" ++ modifierText ms ++ " | ".intercalate (types.map fun p => p.text depth) ++ " "
      ++ name ++ ") " ++ body.text depth
  | .empty => ";"
  | _ => ""

end JavaEdit.Layout
