import JavaEdit.Text.Ranges

/-!
# White space

A blank is a character with the Unicode property White_Space. Texts are trimmed of blanks at both
ends; a text that holds nothing else is called blank too.
-/

namespace JavaEdit.Text

/-- White_Space above the ASCII range. -/
def wideBlanks : Ranges :=
  [(133, 133), (160, 160), (5760, 5760), (8192, 8202), (8232, 8233), (8239, 8239), (8287, 8287), (12288, 12288)]

/-- The blanks of ASCII are the space and the five controls from tab to carriage return. -/
def isBlank (c : Char) : Bool :=
  if c.toNat < 128 then c == ' ' || (9 ≤ c.toNat && c.toNat ≤ 13) else wideBlanks.holds c

/-- A text without the characters at its two ends that satisfy `p`. -/
def trimBy (p : Char → Bool) (cs : List Char) : List Char :=
  ((cs.dropWhile p).reverse.dropWhile p).reverse

def trimEnd (cs : List Char) : List Char := (cs.reverse.dropWhile isBlank).reverse

/-- A text without the blanks at its two ends. -/
def trim (s : String) : String :=
  String.ofList (trimBy isBlank s.toList)

def isBlankText (s : String) : Bool :=
  s.toList.all isBlank

end JavaEdit.Text
