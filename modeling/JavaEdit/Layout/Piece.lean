import JavaEdit.Arena.Basic

/-!
# Pieces of a page

The text of a node is put together from the pieces its children give. A piece is the node and its
text at every depth of indentation, in the forms its surroundings may ask for. A node asks for the
forms of its children and never looks further down than that.
-/

namespace JavaEdit.Layout

/-- A node with its texts; the number is the depth of indentation of the line it stands on. -/
structure Piece where
  tree : Tree (List Comment)
  /-- The node without the comments and the line around it. -/
  text : Nat → String
  /-- The node as the first thing in the head of a `for`. -/
  opening : Nat → String
  /-- The node behind other things in the head of a `for`. -/
  following : Nat → String
  /-- Modifiers, type and name of a variable, without its value. -/
  binding : Nat → String

/-- The blank start of a line. -/
def margin (depth : Nat) : String := String.join (List.replicate depth "    ")

def commentText (c : Comment) : String :=
  match c.kind with
  | .line => "//" ++ c.text
  | .block => "/*" ++ c.text ++ "*/"
  | .javadoc => "/**" ++ c.text ++ "*/"

def commentLines (depth : Nat) (cs : List Comment) : String :=
  String.join (cs.map fun c => margin depth ++ commentText c ++ "\n")

/-- A comment that fits inside a line, so that it has to be closed. -/
def inlineText (c : Comment) : String :=
  match c.kind with
  | .javadoc => "/**" ++ c.text ++ "*/ "
  | _ => "/*" ++ c.text ++ "*/ "

def modifierText (ms : Modifiers) : String :=
  String.join (ms.map fun m => m.keyword ++ " ")

/-- How tightly an expression binds; what is no expression stands alone like a name. -/
def precedence {α : Type} : Kind α → Nat
  | .assignment .. => 1
  | .conditional .. => 2
  | .binary operator _ _ => operator.precedence
  | .unary operator _ => if operator.isPostfix then 14 else 13
  | .cast .. => 13
  | .newArray .. => 14
  | _ => 15

/-- Whether an `else` behind this statement would belong to an `if` inside it. -/
def endsWithOpenIf (t : Tree (List Comment)) : Bool :=
  t.fold fun _ kind =>
    match kind with
    | .ifElse _ _ none => true
    | .ifElse _ _ (some last) => last
    | .whileLoop _ body | .forLoop _ _ _ body | .forEach _ _ body => body
    | _ => false

namespace Piece

def variant (p : Piece) : Variant := p.tree.variant

def comments (p : Piece) : List Comment := p.tree.label

/-- The node where only this variant is written; other nodes leave nothing. -/
def only (variant : Variant) (p : Piece) (depth : Nat) : String :=
  if p.variant == variant then p.text depth else ""

/-- An operand of something that binds this tightly, in parentheses if it binds less. -/
def operand (p : Piece) (least depth : Nat) : String :=
  if precedence p.tree.kind < least then "(" ++ p.text depth ++ ")" else p.text depth

/-- Pieces with commas between them. -/
def list (ps : List Piece) (depth : Nat) : String :=
  ", ".intercalate (ps.map fun p => p.text depth)

/-- A statement on lines of its own, below its comments. -/
def line (p : Piece) (depth : Nat) : String :=
  commentLines depth p.comments ++ margin depth ++ p.text depth ++ "\n"

/-- Whether a node is laid out as a declaration, with its comments and annotations above it. -/
def isDeclaration (p : Piece) : Bool :=
  [Variant.classDecl, .interfaceDecl, .method, .constructor, .field].contains p.variant

def member (p : Piece) (depth : Nat) : String :=
  if p.isDeclaration then p.text depth ++ "\n" else p.line depth

/-- Members with a blank line between them. -/
def membersText (ps : List Piece) (depth : Nat) : String :=
  "\n".intercalate (ps.map fun p => p.member depth)

end Piece

end JavaEdit.Layout
