/-!
# Texts cut at a character
-/

namespace JavaEdit.Text

/-- The parts of a text between the places of a character; there is always at least one. -/
def splitChars (separator : Char) : List Char → List (List Char)
  | [] => [[]]
  | c :: cs =>
    if c == separator then [] :: splitChars separator cs
    else
      match splitChars separator cs with
      | part :: parts => (c :: part) :: parts
      | [] => [[c]]

/-- The parts of a text between the places of a character. -/
def split (separator : Char) (s : String) : List String :=
  (splitChars separator s.toList).map String.ofList

end JavaEdit.Text
