/-!
# Sixteen bit units of a text

Characters above the first plane count as two units. Texts are compared and hashed by units.
-/

namespace JavaEdit.Text

def charUnits (c : Char) : List Nat :=
  let code := c.toNat
  if code < 0x10000 then [code]
  else [0xD800 + (code - 0x10000) / 0x400, 0xDC00 + (code - 0x10000) % 0x400]

def units (s : String) : List Nat := s.toList.flatMap charUnits

/-- The difference of the first units that differ, else of the lengths. -/
def compareUnits : List Nat → List Nat → Int
  | x :: xs, y :: ys => if x == y then compareUnits xs ys else (x : Int) - y
  | xs, ys => (xs.length : Int) - ys.length

def compareTexts (a b : String) : Int := compareUnits (units a) (units b)

/-- Hash of a text: its units as digits to the base 31, wrapping around. -/
def hashText (s : String) : Int32 :=
  (units s).foldl (fun hash unit => hash * 31 + Int32.ofNat unit) 0

/-- The place of a text inside another one. -/
def placeOf? (part : List Char) : List Char → Option Nat
  | [] => if part.isEmpty then some 0 else none
  | c :: cs =>
    if part.isPrefixOf (c :: cs) then some 0 else (placeOf? part cs).map (· + 1)

end JavaEdit.Text
