/-!
# Similar names

How alike two words are, from 0 to 1: the share of characters that both have at about the same
place, with a bonus for a common beginning. `closest` picks the word that was probably meant.
-/

namespace JavaEdit.Text

/-- Mark the first free `c` between the places `low` and `high` of a word whose first character
has place `place`. -/
def markFirst (c : Char) (low high : Nat) : Nat → List (Char × Bool) → Option (List (Char × Bool))
  | _, [] => none
  | place, (d, taken) :: rest =>
    if high ≤ place then none
    else if low ≤ place && c == d && !taken then some ((d, true) :: rest)
    else (markFirst c low high (place + 1) rest).map fun marked => (d, taken) :: marked

/-- The characters of one word that are found in another, no further than `range` places off, and
the other word with the characters found. -/
def common (range : Nat) : Nat → List Char → List (Char × Bool) → List Char × List (Char × Bool)
  | _, [], marked => ([], marked)
  | place, c :: rest, marked =>
    match markFirst c (place - range) (place + range + 1) 0 marked with
    | some marked =>
      let (found, marked) := common range (place + 1) rest marked
      (c :: found, marked)
    | none => common range (place + 1) rest marked

def jaro (a b : List Char) : Float :=
  if a.isEmpty && b.isEmpty then 1
  else
    let range := max a.length b.length / 2 - 1
    let (found, marked) := common range 0 a (b.map fun c => (c, false))
    let others := (marked.filter fun m => m.2).map fun m => m.1
    let crossed := ((found.zip others).countP fun (c, d) => c != d) / 2
    let hits := found.length
    if hits == 0 then 0
    else
      (hits.toFloat / a.length.toFloat + hits.toFloat / b.length.toFloat
        + (hits - crossed).toFloat / hits.toFloat) / 3

/-- Length of the common beginning of two lists. -/
def commonStart {α : Type} [BEq α] : List α → List α → Nat
  | c :: a, d :: b => if c == d then commonStart a b + 1 else 0
  | _, _ => 0

/-- Jaro similarity, raised by a common beginning of up to four characters where it is above
0.7. -/
def similarity (a b : String) : Float :=
  let base := jaro a.toList b.toList
  if 0.7 < base then base + 0.1 * (commonStart (a.toList.take 4) b.toList).toFloat * (1 - base)
  else base

/-- The most similar candidate, if one reaches 0.8; the last of several. -/
def closest (word : String) (candidates : List String) : Option String :=
  let scored := (candidates.map fun c => (similarity word c, c)).filter fun s => 0.8 ≤ s.1
  let best : Option (Float × String) := scored.foldl (fun best s =>
    match best with
    | none => some s
    | some top => if top.1 ≤ s.1 then some s else some top) none
  best.map fun s => s.2

end JavaEdit.Text
