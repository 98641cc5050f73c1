/-!
# Escapes in character and string literals

`escape` writes a text so that it can stand between quotes; `unescape` reads the body of a
literal. Reading knows short escapes, octal escapes of up to three digits with a value of at most
255, and a backslash with one or more `u` and four hexadecimal digits.
-/

namespace JavaEdit

/-- Why the body of a literal cannot be read. -/
inductive EscapeError where
  /-- A backslash at the very end. -/
  | dangling
  /-- `u` without four hexadecimal digits; the text found instead. -/
  | badUnicode (digits : List Char)
  /-- A code point that is no character. -/
  | notScalar
  /-- A backslash before a character that starts no escape. -/
  | unknown (c : Char)
  deriving DecidableEq, Repr

def EscapeError.message : EscapeError → String
  | dangling => "dangling escape"
  | badUnicode digits => "invalid unicode escape '\\u" ++ String.ofList digits ++ "'"
  | notScalar => "unicode escape is not a scalar value"
  | unknown c => "invalid escape sequence '\\" ++ String.ofList [c] ++ "'"

def digitValue? (base : Nat) (c : Char) : Option Nat :=
  let n := c.toNat
  let value :=
    if 48 ≤ n && n ≤ 57 then some (n - 48)
    else if 97 ≤ n && n ≤ 102 then some (n - 87)
    else if 65 ≤ n && n ≤ 70 then some (n - 55)
    else none
  value.filter (· < base)

def digitsValue? (base : Nat) : List Char → Option Nat
  | [] => none
  | cs => cs.foldl (fun acc c => do return base * (← acc) + (← digitValue? base c)) (some 0)

/-- Value of digits that may follow a plus sign. -/
def unsignedValue? (base : Nat) : List Char → Option Nat
  | '+' :: cs => digitsValue? base cs
  | cs => digitsValue? base cs

def charOfCode? (code : Nat) : Option Char :=
  if code < 0xD800 || (0xDFFF < code && code < 0x110000) then some (Char.ofNat code) else none

/-- The character that a one-letter escape denotes. -/
def shortEscape? : Char → Option Char
  | 'b' => some (Char.ofNat 8)
  | 't' => some '\t'
  | 'n' => some '\n'
  | 'f' => some (Char.ofNat 12)
  | 'r' => some '\r'
  | 's' => some ' '
  | '"' => some '"'
  | '\'' => some '\''
  | '\\' => some '\\'
  | _ => none

/-- Octal digits at the front of `cs`, at most `limit` of them: their value on top of `value`,
and the rest. -/
def takeOctal (value : Nat) : Nat → List Char → Nat × List Char
  | limit + 1, c :: cs =>
    match digitValue? 8 c with
    | some d => takeOctal (8 * value + d) limit cs
    | none => (value, c :: cs)
  | _, cs => (value, cs)

/-- What follows a backslash: the character it denotes and the rest of the body. -/
def unescapeOne : List Char → Except EscapeError (Char × List Char)
  | [] => .error .dangling
  | c :: cs =>
    match shortEscape? c with
    | some d => .ok (d, cs)
    | none =>
      if c == 'u' then
        let afterMarks := cs.dropWhile (· == 'u')
        let digits := afterMarks.take 4
        match unsignedValue? 16 digits with
        | none => .error (.badUnicode digits)
        | some code =>
          match charOfCode? code with
          | none => .error .notScalar
          | some d => .ok (d, afterMarks.drop 4)
      else
        match digitValue? 8 c with
        | none => .error (.unknown c)
        | some d =>
          let (value, rest) := takeOctal d (if d ≤ 3 then 2 else 1) cs
          .ok (Char.ofNat value, rest)

/-- The body of a literal, read with at most `fuel` characters or escapes. -/
def unescapeWith : Nat → List Char → Except EscapeError (List Char)
  | 0, _ => .ok []
  | _ + 1, [] => .ok []
  | fuel + 1, '\\' :: cs => do
    let (c, rest) ← unescapeOne cs
    return c :: (← unescapeWith fuel rest)
  | fuel + 1, c :: cs => do
    return c :: (← unescapeWith fuel cs)

/-- The text that the body of a literal denotes. Every step uses up a character, so the length
of the body is fuel enough. -/
def unescape (body : List Char) : Except EscapeError (List Char) :=
  unescapeWith body.length body

/-- The letter of a one-letter escape that is always written for a character. -/
def escapeLetter? (c : Char) : Option Char :=
  if c.toNat == 8 then some 'b'
  else if c == '\t' then some 't'
  else if c == '\n' then some 'n'
  else if c.toNat == 12 then some 'f'
  else if c == '\r' then some 'r'
  else if c == '\\' then some '\\'
  else none

/-- Control characters: the code points below 32 and from 127 to 159. -/
def isControl (c : Char) : Bool :=
  c.toNat < 32 || (127 ≤ c.toNat && c.toNat < 160)

/-- Four hexadecimal digits of a code point below `2 ^ 16`. -/
def fourDigits (code : Nat) : List Char :=
  [code / 4096 % 16, code / 256 % 16, code / 16 % 16, code % 16].map Nat.digitChar

/-- One character of a literal between `quote` signs. -/
def escapeChar (quote c : Char) : List Char :=
  match escapeLetter? c with
  | some letter => ['\\', letter]
  | none =>
    if c == quote then ['\\', c]
    else if isControl c then '\\' :: 'u' :: fourDigits c.toNat
    else [c]

/-- The body of a literal between `quote` signs that denotes a text. -/
def escape (quote : Char) (cs : List Char) : List Char :=
  cs.flatMap (escapeChar quote)

end JavaEdit
