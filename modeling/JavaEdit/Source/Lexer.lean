import JavaEdit.Source.Fault
import JavaEdit.Source.Token
import JavaEdit.Text.Letter

/-!
# Splitting a text into tokens

`tokenize` reads a text from front to back. At every place stands a blank, a comment or a token;
each is a non-empty piece of the text and the next one starts behind it, so the pieces tile the
text. The scanners below find one piece at the front of a list of characters; they know nothing
about lines, which `Location.after` counts.
-/

namespace JavaEdit.Lexer

/-- A scan that failed behind the characters `read`. -/
structure Failure where
  read : List Char
  cause : Cause

/-- A piece found at the front of a text, and what follows it. -/
structure Piece where
  kind : TokenKind
  text : List Char
  rest : List Char

def isNameStart (c : Char) : Bool := Text.isLetter c || c == '_' || c == '$'

def isNamePart (c : Char) : Bool := Text.isLetterOrNumber c || c == '_' || c == '$'

/-- A name; reserved words are keywords. -/
def scanName (cs : List Char) : Piece :=
  let text := cs.takeWhile isNamePart
  let kind := if Token.keywords.contains (String.ofList text) then .keyword else .identifier
  ⟨kind, text, cs.dropWhile isNamePart⟩

def isHexDigit (c : Char) : Bool := (digitValue? 16 c).isSome

/-- An integer's digits have been read: a suffix makes it long. -/
def integerSuffix (text rest : List Char) : Piece :=
  match rest with
  | c :: rest' =>
    if c == 'l' || c == 'L' then ⟨.longLiteral, text ++ [c], rest'⟩ else ⟨.intLiteral, text, rest⟩
  | [] => ⟨.intLiteral, text, rest⟩

/-- An integer with the marker `0x` or `0b` in front, whose digits satisfy `accept`. -/
def scanRadix (marker : List Char) (accept : Char → Bool) (cs : List Char) :
    Except Failure Piece :=
  let accept' c := accept c || c == '_'
  let text := marker ++ cs.takeWhile accept'
  let rest := cs.dropWhile accept'
  if (cs.takeWhile accept').all (· == '_') then .error ⟨text, .digitsMissing⟩
  else if rest.head?.any (fun c => c == '.' || c == 'p' || c == 'P') then
    .error ⟨text, .unsupported .hexFloats⟩
  else .ok (integerSuffix text rest)

/-- Decimal digits with underscores between them. -/
def isSpacedDigit (c : Char) : Bool := c.isDigit || c == '_'

/-- Whether a point in front of `cs` belongs to the number: a second point or the name of a
member must not follow. -/
def startsFraction (cs : List Char) : Bool :=
  match cs with
  | c :: _ =>
    !(c == '.' || (Text.isLetter c && !(['e', 'E', 'f', 'F', 'd', 'D'].contains c)))
  | [] => true

/-- The fraction at the front of a text, possibly empty, and the rest. -/
def splitFraction : List Char → List Char × List Char
  | '.' :: cs =>
    if startsFraction cs then ('.' :: cs.takeWhile isSpacedDigit, cs.dropWhile isSpacedDigit)
    else ([], '.' :: cs)
  | cs => ([], cs)

/-- The mark and sign of an exponent, possibly empty, and the rest. -/
def splitExponentMark : List Char → List Char × List Char
  | e :: s :: cs =>
    if e == 'e' || e == 'E' then
      if s == '+' || s == '-' then ([e, s], cs) else ([e], s :: cs)
    else ([], e :: s :: cs)
  | [e] => if e == 'e' || e == 'E' then ([e], []) else ([], [e])
  | [] => ([], [])

def scanDecimal (cs : List Char) : Except Failure Piece :=
  let whole := cs.takeWhile isSpacedDigit
  let (fraction, cs) := splitFraction (cs.dropWhile isSpacedDigit)
  let (mark, cs) := splitExponentMark cs
  let digits := if mark.isEmpty then [] else cs.takeWhile Char.isDigit
  let cs := if mark.isEmpty then cs else cs.dropWhile Char.isDigit
  let text := whole ++ fraction ++ mark ++ digits
  if !mark.isEmpty && digits.isEmpty then .error ⟨text, .exponentMissing⟩
  else
    let plain :=
      if fraction.isEmpty && mark.isEmpty then integerSuffix text cs else ⟨.doubleLiteral, text, cs⟩
    match cs with
    | c :: rest =>
      if c == 'f' || c == 'F' then .ok ⟨.floatLiteral, text ++ [c], rest⟩
      else if c == 'd' || c == 'D' then .ok ⟨.doubleLiteral, text ++ [c], rest⟩
      else .ok plain
    | [] => .ok plain

def scanNumber : List Char → Except Failure Piece
  | '0' :: c :: cs =>
    if c == 'x' || c == 'X' then scanRadix ['0', c] isHexDigit cs
    else if c == 'b' || c == 'B' then scanRadix ['0', c] (fun d => d == '0' || d == '1') cs
    else scanDecimal ('0' :: c :: cs)
  | cs => scanDecimal cs

/-- The rest of a quoted literal up to its closing quote, and what follows it. A backslash takes
the next character with it; a line end closes nothing. -/
def splitQuoted (quote : Char) : List Char → Option (List Char × List Char)
  | [] => none
  | '\\' :: c :: cs => do
    let (body, rest) ← splitQuoted quote cs
    return ('\\' :: c :: body, rest)
  | c :: cs =>
    if c == '\n' || c == '\\' then none
    else if c == quote then some ([c], cs)
    else do
      let (body, rest) ← splitQuoted quote cs
      return (c :: body, rest)

def scanQuoted (kind : TokenKind) (quote : Char) (unterminated : Cause) (cs : List Char) :
    Except Failure Piece :=
  match splitQuoted quote cs with
  | some (body, rest) => .ok ⟨kind, quote :: body, rest⟩
  | none => .error ⟨[], unterminated⟩

/-- The text behind a beginning that it starts with. -/
def afterPrefix? : List Char → List Char → Option (List Char)
  | [], cs => some cs
  | p :: ps, c :: cs => if p == c then afterPrefix? ps cs else none
  | _ :: _, [] => none

def scanOperator (cs : List Char) : Except Failure Piece :=
  match Token.operators.findSome? fun op => (afterPrefix? op.toList cs).map (op.toList, ·) with
  | some (text, rest) => .ok ⟨.operator, text, rest⟩
  | none =>
    match cs with
    | c :: _ => .error ⟨[], .unexpectedCharacter c⟩
    | [] => .ok ⟨.eof, [], []⟩

def scanToken : List Char → Except Failure Piece
  | [] => .ok ⟨.eof, [], []⟩
  | c :: cs =>
    if isNameStart c then .ok (scanName (c :: cs))
    else if c.isDigit || (c == '.' && cs.head?.any Char.isDigit) then scanNumber (c :: cs)
    else if c == '"' then
      if (afterPrefix? ['"', '"'] cs).isSome then .error ⟨[], .unsupported .textBlocks⟩
      else scanQuoted .stringLiteral '"' .unterminatedString cs
    else if c == '\'' then scanQuoted .charLiteral '\'' .unterminatedCharacter cs
    else scanOperator (c :: cs)

/-- The text up to the first `*/`, and what follows that. -/
def splitBlock : List Char → Option (List Char × List Char)
  | [] => none
  | '*' :: '/' :: cs => some ([], cs)
  | c :: cs => do
    let (body, rest) ← splitBlock cs
    return (c :: body, rest)

/-- A piece of the text between tokens. -/
structure Gap where
  text : List Char
  comment : Option Comment
  rest : List Char

/-- The end of a line comment's text without carriage returns. -/
def dropReturns (cs : List Char) : List Char :=
  (cs.reverse.dropWhile (· == '\r')).reverse

def scanBlockComment (cs : List Char) : Except Failure Gap :=
  let javadoc := match cs with
    | '*' :: '/' :: _ => false
    | '*' :: _ => true
    | _ => false
  let opening := if javadoc then ['/', '*', '*'] else ['/', '*']
  match splitBlock (if javadoc then cs.drop 1 else cs) with
  | none => .error ⟨[], .unterminatedComment⟩
  | some (body, rest) =>
    let kind := if javadoc then .javadoc else .block
    .ok ⟨opening ++ body ++ ['*', '/'], some ⟨kind, String.ofList body⟩, rest⟩

/-- A blank or a comment at the front of a text. -/
def scanGap? : List Char → Option (Except Failure Gap)
  | '/' :: '/' :: cs =>
    let body := cs.takeWhile (· != '\n')
    some (.ok ⟨'/' :: '/' :: body, some ⟨.line, String.ofList (dropReturns body)⟩,
      cs.dropWhile (· != '\n')⟩)
  | '/' :: '*' :: cs => some (scanBlockComment cs)
  | c :: cs => if Text.isBlank c then some (.ok ⟨[c], none, cs⟩) else none
  | [] => none

/-- Tokens of a text from a place on. Found tokens and pending comments are kept in reverse. -/
def run (file : String) : Nat → Location → List Comment → List Token → List Char →
    Except ParseError (List Token)
  | 0, here, _, _, _ => .error ⟨file, here, .outOfSteps⟩
  | fuel + 1, here, pending, found, cs =>
    match scanGap? cs with
    | some (.error failure) => .error ⟨file, here.after failure.read, failure.cause⟩
    | some (.ok gap) =>
      run file fuel (here.after gap.text) (gap.comment.toList ++ pending) found gap.rest
    | none =>
      match scanToken cs with
      | .error failure => .error ⟨file, here.after failure.read, failure.cause⟩
      | .ok piece =>
        let stop := here.after piece.text
        let token : Token :=
          ⟨piece.kind, String.ofList piece.text, here, stop.offset, pending.reverse⟩
        if piece.kind == .eof then .ok (token :: found).reverse
        else run file fuel stop [] (token :: found) piece.rest

end JavaEdit.Lexer

namespace JavaEdit

/-- Tokens of a text; the last one is the end of the text and carries the comments behind all
others. Every step reads a character, so one step more than there are characters is enough. -/
def tokenize (file text : String) : Except ParseError (List Token) :=
  let cs := text.toList
  Lexer.run file (cs.length + 1) .start [] [] cs

end JavaEdit
