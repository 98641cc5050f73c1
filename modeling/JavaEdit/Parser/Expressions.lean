import JavaEdit.Parser.Literals
import JavaEdit.Parser.Types

/-!
# Expressions

Assignment, the conditional operator, binary operators by precedence climbing, unary operators,
casts, and primary expressions with what may follow them.
-/

namespace JavaEdit.Parser

def expression (r : Rules) : Parser NodeId := r.parse .expression

def isAssignable : Kind NodeId → Bool
  | .name _ | .fieldAccess _ _ | .arrayAccess _ _ => true
  | _ => false

/-- The operator of an assignment, if the token is one; the inner `none` is the plain `=`. -/
def assignmentOperator? (token : Token) : Option (Option BinaryOperator) :=
  if token.kind != .operator then none
  else if token.text == "=" then some none
  else (BinaryOperator.ofCompound? token.text).map some

def assignment (r : Rules) : Parser NodeId := do
  let start ← peek
  let target ← r.parse .conditional
  match assignmentOperator? (← peek) with
  | none => return target
  | some operator =>
    if !isAssignable (← kindOf target) then failAt start .invalidTarget
    else
      let _ ← advance
      let value ← expression r
      make start (.assignment operator target value)

def conditional (r : Rules) : Parser NodeId := do
  let start ← peek
  let condition ← r.parse (.operation BinaryOperator.or.precedence)
  if ← eat "?" then
    let thenValue ← expression r
    expect ":"
    let elseValue ← r.parse .conditional
    make start (.conditional condition thenValue elseValue)
  else return condition

def binaryOperator? (token : Token) : Option BinaryOperator :=
  match token.kind with
  | .operator => BinaryOperator.ofSymbol? token.text
  | .keyword => if token.text == "instanceof" then some .instanceOf else none
  | _ => none

/-- The right side of a binary operator; that of `instanceof` is a type. -/
def rightOperand (r : Rules) (operator : BinaryOperator) : Parser NodeId := do
  if operator == .instanceOf then
    if ← atToken "final" then refuse .instanceofPatterns
    else
      let target ← type r
      if ← atIdentifier then refuse .instanceofPatterns else return target
  else r.parse (.operation (operator.precedence + 1))

/-- Operators behind a left side that bind at least as tightly as `least`. -/
def operators (r : Rules) (start : Token) (least : Nat) : Nat → NodeId → Parser NodeId
  | 0, _ => fail .outOfSteps
  | steps + 1, left => do
    match binaryOperator? (← peek) with
    | none => return left
    | some operator =>
      if operator.precedence < least then return left
      else
        let _ ← advance
        let right ← rightOperand r operator
        operators r start least steps (← make start (.binary operator left right))

def operation (r : Rules) (least : Nat) : Parser NodeId := do
  let start ← peek
  let left ← r.parse .unary
  operators r start least r.steps left

def arguments (r : Rules) : Parser (List NodeId) := do
  expect "("
  let values ← if ← atToken ")" then pure [] else separated "," (expression r) r.steps
  expect ")"
  return values

def parenthesized (r : Rules) : Parser NodeId := do
  expect "("
  let value ← expression r
  expect ")"
  return value

/-- Sizes of an array creation, and the number of pairs of brackets without one. -/
def sizes (r : Rules) : Nat → UInt8 → Parser (List NodeId × UInt8)
  | 0, _ => fail .outOfSteps
  | steps + 1, extra => do
    if ← eat "[" then
      if ← eat "]" then sizes r steps (if extra == 255 then 255 else extra + 1)
      else if 0 < extra then fail .sizedAfterUnsized
      else
        let size ← expression r
        expect "]"
        let (more, extra) ← sizes r steps extra
        return (size :: more, extra)
    else return ([], extra)

def creation (r : Rules) : Parser NodeId := do
  let start ← peek
  expect "new"
  if ← atToken "<" then refuse .explicitGenerics
  else
    let created ← nested (typeReference r true false)
    if ← atToken "[" then
      let (dims, extra) ← sizes r r.steps 0
      if ← atToken "\x7b" then refuse .arrayInitializers
      else if dims.isEmpty then fail .noSizedDimension
      else make start (.newArray created dims extra)
    else
      let values ← arguments r
      if ← atToken "\x7b" then refuse .anonymousClasses
      else make start (.new created values)

def nameOrCall (r : Rules) : Parser NodeId := do
  let start ← peek
  if ← aheadIs 1 "->" then refuse .lambdas
  else
    let name := (← advance).text
    if ← atToken "(" then
      let values ← arguments r
      make start (.invocation none name values)
    else make start (.name name)

/-- `this` or `super`, or a constructor call with one of them. -/
def selfReference (r : Rules) : Parser NodeId := do
  let start ← advance
  if ← atToken "(" then
    let values ← arguments r
    make start (.invocation none start.text values)
  else if start.text == "this" then make start .this
  else if ← atToken "." then make start .super
  else unexpected .dotAfterSuper

def keywordExpression (r : Rules) (token : Token) : Parser NodeId := do
  if token.text == "this" || token.text == "super" then selfReference r
  else if token.text == "new" then creation r
  else if token.text == "switch" then refuse .switchExpressions
  else if token.isPrimitive then refuse .classLiterals
  else unexpected .expression

def primary (r : Rules) : Parser NodeId := do
  let token ← peek
  match literalValue? token with
  | some (.error cause) => failAt token cause
  | some (.ok value) =>
    let _ ← advance
    make token (.literal value)
  | none =>
    match token.kind with
    | .identifier => nameOrCall r
    | .keyword => keywordExpression r token
    | .operator =>
      if token.text == "(" then
        if ← atLambda then refuse .lambdas else parenthesized r
      else unexpected .expression
    | _ => unexpected .expression

def memberAccess (r : Rules) (start : Token) (target : NodeId) : Parser NodeId := do
  if ← atToken "<" then refuse .explicitGenerics
  else if ← atAny ["new", "this", "class", "super"] then refuse .qualifiedKeywords
  else
    let name ← identifier
    if ← atToken "(" then
      let values ← arguments r
      make start (.invocation (some target) name values)
    else make start (.fieldAccess target name)

/-- What follows a primary expression: members, indices and updates. -/
def suffixes (r : Rules) (start : Token) : Nat → NodeId → Parser NodeId
  | 0, _ => fail .outOfSteps
  | steps + 1, target => do
    if ← eat "." then
      suffixes r start steps (← memberAccess r start target)
    else if ← eat "[" then
      let index ← expression r
      expect "]"
      suffixes r start steps (← make start (.arrayAccess target index))
    else if ← atAny ["++", "--"] then
      let operator : UnaryOperator := if (← advance).text == "++" then .postInc else .postDec
      if !isAssignable (← kindOf target) then failAt start (.invalidOperand operator)
      else suffixes r start steps (← make start (.unary operator target))
    else if ← atToken "::" then refuse .methodReferences
    else return target

/-- A cast, behind which a unary expression follows. -/
def cast (r : Rules) : Parser NodeId := do
  let start ← advance
  let target ← type r
  expect ")"
  let value ← r.parse .unary
  make start (.cast target value)

def leadingOperator (r : Rules) (operator : UnaryOperator) : Parser NodeId := do
  let start ← advance
  let token ← peek
  match if operator == .neg then leastValue? token else none with
  | some value =>
    let _ ← advance
    make start (.literal value)
  | none =>
    let operand ← r.parse .unary
    if operator.isUpdate && !isAssignable (← kindOf operand) then
      failAt start (.invalidOperand operator)
    else make start (.unary operator operand)

def unary (r : Rules) : Parser NodeId := do
  let start ← peek
  match if start.kind == .operator then UnaryOperator.ofLeading? start.text else none with
  | some operator => leadingOperator r operator
  | none =>
    if (← atToken "(") && (← atCast) then cast r
    else
      let value ← primary r
      suffixes r start r.steps value

end JavaEdit.Parser
