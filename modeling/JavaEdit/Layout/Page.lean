import JavaEdit.Layout.Declarations

/-!
# The page

The text of any tree with comments, and the three special texts: of a unit, of a unit's head, and
of a method's head. Layout depends on the tree alone: modifiers are in canonical order, lines are
indented by four blanks for each level, and parentheses stand where precedence asks for them.
-/

namespace JavaEdit

namespace Layout

def nodeText (comments : List Comment) (kind : Kind Piece) (depth : Nat) : String :=
  match kind with
  | .compilationUnit package imports types =>
    commentLines depth comments ++ headerText package imports ++ Piece.membersText types depth
  | .classDecl .. | .interfaceDecl .. | .method .. | .constructor .. | .field .. =>
    declarationPart comments depth kind
  | .block .. | .localVariable .. | .expressionStatement .. | .ifElse .. | .whileLoop ..
  | .doWhile .. | .forLoop .. | .forEach .. | .returnStmt .. | .throwStmt .. | .breakStmt ..
  | .continueStmt .. | .tryStmt .. | .catchClause .. | .empty => statementPart depth kind
  | _ => inlinePart depth kind

/-- The node as the first thing in the head of a `for`. -/
def openingText (comments : List Comment) (kind : Kind Piece) (depth : Nat) : String :=
  match kind with
  | .localVariable name ms type initializer => localText name ms type initializer depth
  | .expressionStatement value => value.text depth
  | _ => nodeText comments kind depth

/-- The node behind other things in the head of a `for`. -/
def followingText (comments : List Comment) (kind : Kind Piece) (depth : Nat) : String :=
  match kind with
  | .localVariable name _ _ initializer => ", " ++ declaratorText name initializer depth
  | .expressionStatement value => ", " ++ value.text depth
  | _ => nodeText comments kind depth

/-- The node as the variable of an enhanced `for`. -/
def bindingText (kind : Kind Piece) (depth : Nat) : String :=
  match kind with
  | .localVariable name ms type _ => localText name ms type none depth
  | _ => ""

/-- The piece of a node from those of its children. -/
def assemble (comments : List Comment) (kind : Kind Piece) : Piece where
  tree := .node comments (kind.map fun p => p.tree)
  text := nodeText comments kind
  opening := openingText comments kind
  following := followingText comments kind
  binding := bindingText kind

def piece (t : Tree (List Comment)) : Piece := t.fold assemble

end Layout

namespace Tree

def text (t : Tree (List Comment)) : String := (Layout.piece t).text 0

/-- Package and imports of a unit; nothing for any other tree. -/
def headerText (t : Tree (List Comment)) : String :=
  match t.kind with
  | .compilationUnit package imports _ => Layout.headerText package imports
  | _ => ""

def unitText (t : Tree (List Comment)) : String :=
  match t.kind with
  | .compilationUnit .. => t.text
  | _ => Layout.commentLines 0 t.label

/-- The head of a method or constructor; nothing for any other tree. -/
def signatureText (t : Tree (List Comment)) : String :=
  Layout.signatureText 0 (t.kind.map Layout.piece)

end Tree

namespace Arena

def text (a : Arena) (id : NodeId) : String := (a.commented id).text

def unitText (a : Arena) (id : NodeId) : String := (a.commented id).unitText

end Arena

end JavaEdit
