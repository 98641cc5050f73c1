/-!
# Places in a text

Locations count bytes of the UTF-8 text from zero, and lines and characters within a line from
one. A position says where a node was read from; nodes made in memory have none.
-/

namespace JavaEdit

/-- A place between two characters of a text. -/
structure Location where
  /-- Bytes before this place. -/
  offset : Nat
  line : Nat
  column : Nat
  deriving DecidableEq, Repr

namespace Location

def start : Location := ⟨0, 1, 1⟩

def next (l : Location) (c : Char) : Location :=
  if c == '\n' then ⟨l.offset + c.utf8Size, l.line + 1, 1⟩
  else ⟨l.offset + c.utf8Size, l.line, l.column + 1⟩

def after (l : Location) (cs : List Char) : Location := cs.foldl next l

end Location

/-- Where a node came from. -/
inductive Position where
  /-- Read from a file, from `start` to the byte offset `stop`. -/
  | real (file : String) (start : Location) (stop : Nat)
  /-- Made or copied in memory. -/
  | synthetic
  deriving DecidableEq, Repr

namespace Position

/-- Whether the node was read from a text. -/
def isReal : Position → Bool
  | real .. => true
  | synthetic => false

/-- Position as messages and listings give it. -/
def text : Position → String
  | real file start _ => file ++ ":" ++ toString start.line ++ ":" ++ toString start.column
  | synthetic => "<synthetic>"

end Position

/-- The three ways to write a comment. -/
inductive CommentKind where
  /-- Two slashes, up to the end of the line. -/
  | line
  | block
  /-- A block comment that opens with two stars. -/
  | javadoc
  deriving DecidableEq, Repr

/-- A comment; the text between its delimiters is kept as it is. -/
structure Comment where
  kind : CommentKind
  text : String
  deriving DecidableEq, Repr

end JavaEdit
