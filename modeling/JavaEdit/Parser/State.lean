import JavaEdit.Arena.Copy
import JavaEdit.Source.Lexer

/-!
# Reading tokens

The state of a parser is the tokens it has not read and the arena it puts nodes into. A parser
that fails leaves the nodes it has made behind. The end of the text is never read past: it stays
the first token once it is reached.
-/

namespace JavaEdit

/-- What a parser knows and changes. -/
structure ParserState where
  file : String
  /-- Tokens ahead, ending with the end of the text. -/
  rest : List Token
  /-- Byte offset behind the last token that was read. -/
  lastStop : Nat
  /-- Nesting of statements, unary expressions and types around this place. -/
  depth : Nat
  /-- Names of the types around this place, innermost first. -/
  typeNames : List String
  arena : Arena

abbrev Parser (α : Type) := ExceptT ParseError (StateM ParserState) α

namespace Parser

/-- The end of a text that holds nothing. -/
def endToken : Token := ⟨.eof, "", .start, 0, []⟩

/-- The token `n` places ahead in a list; behind its end stands its last one. -/
def tokenAt (ts : List Token) (n : Nat) : Token :=
  (ts[n]?).getD (ts.getLastD endToken)

def ahead : Parser (List Token) := return (← get).rest

def peekAt (n : Nat) : Parser Token := return tokenAt (← get).rest n

def peek : Parser Token := peekAt 0

def failAt {α : Type} (token : Token) (cause : Cause) : Parser α := do
  throw ⟨(← get).file, token.start, cause⟩

def fail {α : Type} (cause : Cause) : Parser α := do
  failAt (← peek) cause

/-- Fail because the next token is not what is expected. -/
def unexpected {α : Type} (what : Expected) : Parser α := do
  let token ← peek
  fail (.expected what (if token.kind == .eof then none else some token.text))

def refuse {α : Type} (what : Unsupported) : Parser α := fail (.unsupported what)

/-- Whether the next token is this keyword or operator. -/
def atToken (text : String) : Parser Bool := return (← peek).is text

/-- Whether the next token is one of these keywords or operators. -/
def atAny (texts : List String) : Parser Bool := do
  let token ← peek
  return texts.any token.is

/-- Whether the token `n` places ahead is this keyword or operator. -/
def aheadIs (n : Nat) (text : String) : Parser Bool := return (← peekAt n).is text

def atEnd : Parser Bool := return (← peek).kind == .eof

def atIdentifier : Parser Bool := return (← peek).kind == .identifier

/-- Whether the next token is this word, used as an identifier. -/
def atWord (word : String) : Parser Bool := do
  let token ← peek
  return token.kind == .identifier && token.text == word

def advance : Parser Token := do
  let s ← get
  match s.rest with
  | token :: t :: ts =>
    set { s with rest := t :: ts, lastStop := token.stop }
    return token
  | [token] => return token
  | [] => return endToken

/-- Read the next token if it is this keyword or operator. -/
def eat (text : String) : Parser Bool := do
  if ← atToken text then
    let _ ← advance
    return true
  else return false

def expect (text : String) : Parser Unit := do
  if ← atToken text then
    let _ ← advance
  else unexpected (.token text)

def identifier : Parser String := do
  if ← atIdentifier then return (← advance).text else unexpected .identifier

def dottedRest : Nat → Parser (List String)
  | 0 => fail .outOfSteps
  | steps + 1 => do
    if (← atToken ".") && (← peekAt 1).kind == .identifier then
      let _ ← advance
      let part := (← advance).text
      return part :: (← dottedRest steps)
    else return []

def qualifiedName (steps : Nat) : Parser String := do
  let first ← identifier
  return ".".intercalate (first :: (← dottedRest steps))

def takeComments : Parser (List Comment) := do
  let s ← get
  match s.rest with
  | token :: ts =>
    set { s with rest := { token with comments := [] } :: ts }
    return token.comments
  | [] => return []

def makeCommented (start : Token) (kind : Kind NodeId) (comments : List Comment) :
    Parser NodeId := do
  let s ← get
  let (id, arena) := s.arena.alloc kind (.real s.file start.start s.lastStop) comments
  set { s with arena }
  return id

def make (start : Token) (kind : Kind NodeId) : Parser NodeId := makeCommented start kind []

def copy (id : NodeId) : Parser NodeId := do
  let s ← get
  let (id, arena) := s.arena.copy id
  set { s with arena }
  return id

def kindOf (id : NodeId) : Parser (Kind NodeId) := return (← get).arena.kind id

/-- One level deeper, up to the limit. -/
def nested {α : Type} (p : Parser α) : Parser α := do
  if nestingLimit ≤ (← get).depth then fail .nestingTooDeep
  else
    modify fun s => { s with depth := s.depth + 1 }
    let x ← p
    modify fun s => { s with depth := s.depth - 1 }
    return x

/-- The two tokens that an operator starting with `>` is split into. -/
def splitAngle (token : Token) : Token × Token :=
  let head : Token := { token with text := ">", stop := token.start.offset + 1 }
  let start : Location :=
    { token.start with offset := token.start.offset + 1, column := token.start.column + 1 }
  (head, { token with text := String.ofList (token.text.toList.drop 1), start, comments := [] })

/-- Read one `>`, leaving the rest of a longer operator that starts with it. -/
def closeAngle : Parser Unit := do
  let s ← get
  match s.rest with
  | token :: ts =>
    if token.kind == .operator && 1 < token.text.length && token.text.toList.head? == some '>' then
      let (head, tail) := splitAngle token
      set { s with rest := head :: tail :: ts }
  | [] => pure ()
  expect ">"

/-- One or more items with a separator between them. -/
def separated {α : Type} (separator : String) (item : Parser α) : Nat → Parser (List α)
  | 0 => fail .outOfSteps
  | steps + 1 => do
    let x ← item
    if ← eat separator then return x :: (← separated separator item steps) else return [x]

/-- What the grammar's rules call each other for. -/
inductive Goal where
  | expression
  | conditional
  /-- Operands joined by operators that bind at least this tightly. -/
  | operation (least : Nat)
  | unary
  | type
  | annotationUse
  | block
  | statement
  | typeDeclaration (start : Token) (comments : List Comment) (modifiers : Modifiers)
      (annotations : List NodeId)

/-- How a rule gets at other rules: a parser for each goal, and a bound on the length of lists. -/
structure Rules where
  steps : Nat
  parse : Goal → Parser NodeId

end Parser

end JavaEdit
