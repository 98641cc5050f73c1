import JavaEdit.Node.Literal
import JavaEdit.Number.Reading
import JavaEdit.Source.Token
import JavaEdit.Source.Fault

/-!
# Values of literal tokens

Decimal integers must fit the signed range; hexadecimal, octal and binary ones may use the full
width. Floating point literals must be finite after rounding.
-/

namespace JavaEdit.Parser

def withoutUnderscores (text : List Char) : List Char := text.filter (· != '_')

/-- Base, digits and whether an integer is decimal. -/
def splitRadix : List Char → Nat × List Char × Bool
  | '0' :: 'x' :: cs | '0' :: 'X' :: cs => (16, cs, false)
  | '0' :: 'b' :: cs | '0' :: 'B' :: cs => (2, cs, false)
  | '0' :: c :: cs => (8, c :: cs, false)
  | cs => (10, cs, true)

def integerValue (text : String) (bits : Nat) : Except Cause Nat :=
  let (base, digits, decimal) := splitRadix (withoutUnderscores text.toList)
  match (unsignedValue? base digits).filter (· < Number.twoPow 64) with
  | none => .error (.malformedInteger text)
  | some value =>
    let limit := if decimal then Number.twoPow (bits - 1) else Number.twoPow bits
    if value < limit then .ok value else .error (.integerOutOfRange text)

/-- A text without the characters `p` at its end. -/
def dropRight (p : Char → Bool) (cs : List Char) : List Char := (cs.reverse.dropWhile p).reverse

/-- Value of a floating point literal with these suffixes. -/
def floatingValue? (f : Number.Format) (isSuffix : Char → Bool) (text : String) : Option Nat :=
  (f.read? (withoutUnderscores (dropRight isSuffix text.toList))).filter f.isFinite

/-- A text without its first and last character. -/
def unquoted (text : String) : List Char := text.toList.tail.dropLast

def quotedValue (text : String) : Except Cause (List Char) :=
  match unescape (unquoted text) with
  | .ok cs => .ok cs
  | .error e => .error (.badEscape e)

def literalValue? (token : Token) : Option (Except Cause Literal) :=
  match token.kind with
  | .intLiteral => some do
    return .int (← integerValue token.text 32).toUInt32.toInt32
  | .longLiteral => some do
    let digits := String.ofList token.text.toList.dropLast
    return .long (← integerValue digits 64).toUInt64.toInt64
  | .floatLiteral => some <|
    match floatingValue? .single (fun c => c == 'f' || c == 'F') token.text with
    | some bits => .ok (.float bits.toUInt32)
    | none => .error (.invalidFloat token.text)
  | .doubleLiteral => some <|
    match floatingValue? .double (fun c => c == 'd' || c == 'D') token.text with
    | some bits => .ok (.double bits.toUInt64)
    | none => .error (.invalidDouble token.text)
  | .charLiteral => some do
    match ← quotedValue token.text with
    | [c] => return .char c
    | _ => throw (.notOneCharacter token.text)
  | .stringLiteral => some do
    return .string (String.ofList (← quotedValue token.text))
  | .keyword =>
    if token.text == "true" then some (.ok (.boolean true))
    else if token.text == "false" then some (.ok (.boolean false))
    else if token.text == "null" then some (.ok .null)
    else none
  | _ => none

/-- The smallest values, whose digits are read only behind a minus sign. -/
def leastValue? (token : Token) : Option Literal :=
  let digits := String.ofList (withoutUnderscores token.text.toList)
  match token.kind with
  | .intLiteral => if digits == "2147483648" then some (.int Int32.minValue) else none
  | .longLiteral =>
    if digits == "9223372036854775808L" || digits == "9223372036854775808l" then
      some (.long Int64.minValue)
    else none
  | _ => none

end JavaEdit.Parser
