import JavaEdit.Parser.State

/-!
# Looking ahead

Declarations, casts and lambda expressions are told from other expressions by scanning the tokens
ahead without reading them.
-/

namespace JavaEdit.Parser

/-- Number of tokens of the dotted names behind a name. -/
def scanDotted : List Token → Nat
  | dot :: name :: ts =>
    if dot.is "." && name.kind == .identifier then scanDotted ts + 2 else 0
  | _ => 0

/-- Number of tokens of the pairs of brackets at the front. -/
def scanDimensions : List Token → Nat
  | opening :: closing :: ts =>
    if opening.is "[" && closing.is "]" then scanDimensions ts + 2 else 0
  | _ => 0

/-- How a token changes the depth of angle brackets, if it can stand in type arguments. -/
def angleDepth? (token : Token) (depth : Int) : Option Int :=
  match token.kind with
  | .identifier => some depth
  | .keyword =>
    if token.isPrimitive || token.text == "extends" || token.text == "super" then some depth
    else none
  | .operator =>
    if token.text == "<" then some (depth + 1)
    else if token.text == ">" then some (depth - 1)
    else if token.text == ">>" then some (depth - 2)
    else if token.text == ">>>" then some (depth - 3)
    else if [",", ".", "?", "[", "]", "&"].contains token.text then some depth
    else none
  | _ => none

/-- Number of tokens up to the one that closes the angle brackets. -/
def scanArguments : Int → List Token → Option Nat
  | _, [] => none
  | depth, token :: ts => do
    let depth ← angleDepth? token depth
    if depth == 0 then return 1
    else if depth < 0 then none
    else return (← scanArguments depth ts) + 1

def scanType (ts : List Token) : Option Nat := do
  let token := tokenAt ts 0
  let named ←
    if token.isPrimitive then some 1
    else if token.kind == .identifier then
      let n := 1 + scanDotted (ts.drop 1)
      if (tokenAt ts n).is "<" then (scanArguments 0 (ts.drop n)).map (n + ·) else some n
    else none
  return named + scanDimensions (ts.drop named)

def atLocalDeclaration : Parser Bool := do
  if ← atAny ["final", "@"] then return true
  else
    let ts ← ahead
    match scanType ts with
    | some n =>
      return (tokenAt ts n).kind == .identifier
        && ["=", ";", ",", "["].any (tokenAt ts (n + 1)).is
    | none => return false

/-- Whether the head of an enhanced `for` is ahead, behind its parenthesis. -/
def atForEach : Parser Bool := do
  let ts := (← ahead).dropWhile fun t => t.is "final"
  match scanType ts with
  | some n => return (tokenAt ts n).kind == .identifier && (tokenAt ts (n + 1)).is ":"
  | none => return false

/-- Whether the parenthesis at the front, inside `depth` others, closes before an arrow. -/
def closesBeforeArrow : Nat → List Token → Bool
  | _, [] => false
  | depth, token :: ts =>
    if token.kind == .eof then false
    else if token.is "(" then closesBeforeArrow (depth + 1) ts
    else if token.is ")" then
      if depth ≤ 1 then (tokenAt ts 0).is "->" else closesBeforeArrow (depth - 1) ts
    else closesBeforeArrow depth ts

/-- Whether the parenthesis ahead opens the parameters of a lambda expression. -/
def atLambda : Parser Bool := return closesBeforeArrow 0 (← ahead)

/-- Whether a token can follow the parenthesis of a cast to a reference type. -/
def startsCastOperand (token : Token) : Bool :=
  match token.kind with
  | .identifier | .intLiteral | .longLiteral | .floatLiteral | .doubleLiteral | .charLiteral
  | .stringLiteral => true
  | .keyword => ["this", "super", "new", "true", "false", "null"].contains token.text
  | .operator => ["(", "!", "~"].contains token.text
  | .eof => false

/-- Whether the parenthesis ahead opens a cast. A cast to a primitive type may have any operand. -/
def atCast : Parser Bool := do
  let ts := (← ahead).drop 1
  match scanType ts with
  | none => return false
  | some n =>
    if !(tokenAt ts n).is ")" then return false
    else
      let primitive := (tokenAt ts 0).isPrimitive && n == 1
      if primitive || startsCastOperand (tokenAt ts (n + 1)) then return !(← atLambda)
      else return false

end JavaEdit.Parser
