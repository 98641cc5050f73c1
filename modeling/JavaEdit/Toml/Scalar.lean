import JavaEdit.Data.Basic
import JavaEdit.Number.Reading
import JavaEdit.Toml.Scan

/-!
# Numbers and dates of a TOML document

A value without quotes or brackets is one word. It is a truth value, an integer of 64 bits, a
floating point number, or a date or time; underscores may stand between digits.
-/

namespace JavaEdit.Toml

/-- Digits with single underscores between them, without the underscores. -/
def digits? (isDigit : Char → Bool) : List Char → Option (List Char)
  | [] => none
  | [c] => if isDigit c then some [c] else none
  | c :: '_' :: cs => if isDigit c then (digits? isDigit cs).map (c :: ·) else none
  | c :: cs => if isDigit c then (digits? isDigit cs).map (c :: ·) else none

def fitted? (n : Int) : Option Int :=
  let limit : Int := Number.twoPow 63
  if -limit ≤ n ∧ n < limit then some n else none

/-- Digits of the whole part of a number: no zero in front of another digit. -/
def wholeDigits? (cs : List Char) : Option (List Char) :=
  match digits? Char.isDigit cs with
  | some ('0' :: _ :: _) => none
  | ds => ds

def decimal? (cs : List Char) : Option Nat := (wholeDigits? cs).bind (digitsValue? 10)

def based? (base : Nat) (cs : List Char) : Option Int :=
  ((digits? (fun c => (digitValue? base c).isSome) cs).bind (digitsValue? base)).bind
    fun n => fitted? n

def integer? : List Char → Option Int
  | '0' :: 'x' :: cs => based? 16 cs
  | '0' :: 'o' :: cs => based? 8 cs
  | '0' :: 'b' :: cs => based? 2 cs
  | '-' :: cs => (decimal? cs).bind fun n => fitted? (-(n : Int))
  | '+' :: cs => (decimal? cs).bind fun n => fitted? n
  | cs => (decimal? cs).bind fun n => fitted? n

def splitSign : List Char → List Char × List Char
  | '-' :: cs => (['-'], cs)
  | '+' :: cs => ([], cs)
  | cs => ([], cs)

def exponent? : List Char → Option (List Char)
  | [] => some []
  | _ :: '-' :: cs => (digits? Char.isDigit cs).map fun ds => 'e' :: '-' :: ds
  | _ :: '+' :: cs => (digits? Char.isDigit cs).map ('e' :: ·)
  | _ :: cs => (digits? Char.isDigit cs).map ('e' :: ·)

/-- The decimal text of a floating point number, without underscores. -/
def floatText? (cs : List Char) : Option (List Char) := do
  let isMark c := c == 'e' || c == 'E'
  let whole ← wholeDigits? (cs.takeWhile fun c => c != '.' && !isMark c)
  match cs.dropWhile fun c => c != '.' && !isMark c with
  | '.' :: cs =>
    let fraction ← digits? Char.isDigit (cs.takeWhile fun c => !isMark c)
    let exponent ← exponent? (cs.dropWhile fun c => !isMark c)
    return whole ++ '.' :: fraction ++ exponent
  | [] => none
  | cs => return whole ++ (← exponent? cs)

/-- The bit pattern of a floating point number. One beyond the greatest finite number has to be
written as infinity. -/
def float? (cs : List Char) : Option Nat :=
  let (sign, cs) := splitSign cs
  let format := Number.Format.double
  if cs == ['i', 'n', 'f'] || cs == ['n', 'a', 'n'] then format.read? (sign ++ cs)
  else do
    let bits ← format.readMagnitude? (← floatText? cs)
    if bits == format.infinity then none
    else return if sign.isEmpty then bits else format.signBit + bits

/-- A number of exactly so many digits between two bounds. -/
def counted? (count low high : Nat) (cs : List Char) : Option (Nat × List Char) :=
  let digits := cs.take count
  if digits.length == count && digits.all Char.isDigit then
    match digitsValue? 10 digits with
    | some n => if low ≤ n && n ≤ high then some (n, cs.drop count) else none
    | none => none
  else none

def expect? (isExpected : Char → Bool) : List Char → Option (List Char)
  | c :: cs => if isExpected c then some cs else none
  | [] => none

def daysIn (year month : Nat) : Nat :=
  if month == 2 then
    if year % 4 == 0 && (year % 100 != 0 || year % 400 == 0) then 29 else 28
  else if month == 4 || month == 6 || month == 9 || month == 11 then 30
  else 31

def date? (cs : List Char) : Option (List Char) := do
  let (year, cs) ← counted? 4 0 9999 cs
  let cs ← expect? (· == '-') cs
  let (month, cs) ← counted? 2 1 12 cs
  let cs ← expect? (· == '-') cs
  let (_, cs) ← counted? 2 1 (daysIn year month) cs
  return cs

def fraction? : List Char → Option (List Char)
  | '.' :: cs =>
    if (cs.takeWhile Char.isDigit).isEmpty then none else some (cs.dropWhile Char.isDigit)
  | cs => some cs

/-- Behind a time of day; seconds may be left out. -/
def time? (cs : List Char) : Option (List Char) := do
  let (_, cs) ← counted? 2 0 23 cs
  let cs ← expect? (· == ':') cs
  let (_, cs) ← counted? 2 0 59 cs
  match cs with
  | ':' :: cs =>
    let (_, cs) ← counted? 2 0 60 cs
    fraction? cs
  | cs => return cs

/-- Whether a text is an offset from universal time, or nothing. -/
def isOffset : List Char → Bool
  | [] | ['Z'] | ['z'] => true
  | sign :: cs =>
    (sign == '+' || sign == '-') &&
      (do
        let (_, cs) ← counted? 2 0 23 cs
        let cs ← expect? (· == ':') cs
        let (_, cs) ← counted? 2 0 59 cs
        return cs.isEmpty).getD false

/-- Whether a word is a date, a time or both. -/
def isMoment (cs : List Char) : Bool :=
  match date? cs with
  | none => (time? cs).any List.isEmpty
  | some [] => true
  | some (mark :: cs) =>
    (mark == 'T' || mark == 't' || mark == ' ') && (time? cs).any isOffset

def isWordChar (c : Char) : Bool :=
  c.isAlphanum || c == '_' || c == '-' || c == '+' || c == '.' || c == ':'

def continuesWithTime : List Char → Bool
  | ' ' :: a :: b :: ':' :: _ => a.isDigit && b.isDigit
  | _ => false

/-- The word at the front, with the time behind a date if there is one. -/
def word (cs : List Char) : List Char × List Char :=
  let first := cs.takeWhile isWordChar
  let rest := cs.dropWhile isWordChar
  if (date? first).any List.isEmpty && continuesWithTime rest then
    let rest := rest.drop 1
    (first ++ ' ' :: rest.takeWhile isWordChar, rest.dropWhile isWordChar)
  else (first, rest)

def scalar? (cs : List Char) : Option (Data × List Char) :=
  let (w, rest) := word cs
  let value : Option Data :=
    if w == "true".toList then some (.boolean true)
    else if w == "false".toList then some (.boolean false)
    else if isMoment w then some .moment
    else ((integer? w).map .integer).orElse fun _ => (float? w).map .float
  value.map (·, rest)

end JavaEdit.Toml
