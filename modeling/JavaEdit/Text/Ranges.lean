/-!
# Classes of characters as ranges of code points

A class of the Unicode standard is a list of closed ranges. Membership is decided by looking at
every range: the tables are short, and characters below 128 are answered before a table is asked.
-/

namespace JavaEdit.Text

/-- A set of code points, as closed ranges. -/
abbrev Ranges := List (Nat × Nat)

/-- Ranges by distances: one starts `gap` code points behind the last of those before it, and has `more` behind its
first. -/
def Ranges.ofGaps (last : Nat) : List Nat → Ranges
  | gap :: more :: rest => (last + gap, last + gap + more) :: ofGaps (last + gap + more) rest
  | _ => []

/-- Numbers in the digits of a hexadecimal one, from the last digit on. A digit holds three bits of a number, the lowest
ones first, and its fourth bit says that more of them follow. In front of all stands a one. -/
def unpack : Nat → Nat → List Nat
  | 0, _ => []
  | digits + 1, packed =>
    if packed ≤ 1 then []
    else
      let numbers := unpack digits (packed / 16)
      if packed % 16 < 8 then packed % 16 :: numbers
      else
        match numbers with
        | high :: rest => (packed % 8 + 8 * high) :: rest
        | [] => []

def Ranges.ofPacked (rows : List Nat) : Ranges := ofGaps 0 (rows.flatMap fun row => unpack row.log2 row)

def Ranges.holds (ranges : Ranges) (c : Char) : Bool :=
  ranges.any fun range => range.1 ≤ c.toNat && c.toNat ≤ range.2

end JavaEdit.Text
