/-!
# Characters of a TOML document

Readers take characters from the front of what is left and answer what they read together with
the rest, or nothing when it is not there.
-/

namespace JavaEdit.Toml

/-- Values nest at most this deep, and keys have at most so many parts. -/
def nestingLimit : Nat := 80

def isSpace (c : Char) : Bool := c == ' ' || c == '\t'

/-- Characters that may stand in a comment or, between quotes, in a line of text. -/
def isPlain (c : Char) : Bool := c == '\t' || (32 ≤ c.toNat && c.toNat != 127)

/-- Characters of a key without quotes. -/
def isBare (c : Char) : Bool := c.isAlphanum || c == '_' || c == '-'

def skipSpaces (cs : List Char) : List Char := cs.dropWhile isSpace

def newline? : List Char → Option (List Char)
  | '\n' :: cs | '\r' :: '\n' :: cs => some cs
  | _ => none

def skipComment (cs : List Char) : List Char :=
  match skipSpaces cs with
  | '#' :: cs => cs.dropWhile isPlain
  | cs => cs

/-- Behind the rest of a line that says nothing more. -/
def endLine? (cs : List Char) : Option (List Char) :=
  match skipComment cs with
  | [] => some []
  | cs => newline? cs

/-- Behind spaces, comments and ends of lines; at most `fuel` lines. -/
def skipLines : Nat → List Char → List Char
  | 0, cs => cs
  | fuel + 1, cs =>
    let cs := skipComment cs
    match newline? cs with
    | some cs => skipLines fuel cs
    | none => cs

/-- Behind everything that says nothing. -/
def skipBlank (cs : List Char) : List Char := skipLines (cs.length + 1) cs

end JavaEdit.Toml
