import JavaEdit.Parser.Expressions

/-!
# Statements

Modifiers and annotations, local declarations, blocks and the statements with a keyword.
-/

namespace JavaEdit.Parser

def modifiersFrom (r : Rules) : Nat → Modifiers → List NodeId → Parser (Modifiers × List NodeId)
  | 0, _, _ => fail .outOfSteps
  | steps + 1, found, annotations => do
    let token ← peek
    if token.is "@" then
      if ← aheadIs 1 "interface" then refuse .annotationTypes
      else
        let added ← r.parse .annotationUse
        modifiersFrom r steps found (annotations ++ [added])
    else
      match if token.kind == .keyword then Modifier.ofKeyword? token.text else none with
      | none => return (found, annotations)
      | some modifier =>
        if found.contains modifier then fail (.repeatedModifier modifier.keyword)
        else
          let _ ← advance
          modifiersFrom r steps (found.insert modifier) annotations

def modifiers (r : Rules) : Parser (Modifiers × List NodeId) := modifiersFrom r r.steps [] []

def elementValue (r : Rules) : Parser NodeId := do
  if ← atToken "@" then r.parse .annotationUse
  else if ← atToken "\x7b" then refuse .annotationArrays
  else expression r

def annotationArgument (r : Rules) : Parser NodeId := do
  let start ← peek
  if start.kind == .identifier && (← aheadIs 1 "=") then
    let key ← identifier
    let target ← make start (.name key)
    expect "="
    let value ← elementValue r
    make start (.assignment none target value)
  else elementValue r

def annotationUse (r : Rules) : Parser NodeId := do
  let start ← peek
  expect "@"
  let name ← qualifiedName r.steps
  if ← eat "(" then
    let values ←
      if ← atToken ")" then pure [] else separated "," (annotationArgument r) r.steps
    expect ")"
    make start (.annotationUse name values)
  else make start (.annotationUse name [])

/-- The rest of a declaration behind its first name: names with their initializers. -/
def declarators (r : Rules) : Nat → String → Parser (List (String × Option NodeId))
  | 0, _ => fail .outOfSteps
  | steps + 1, name => do
    if ← atToken "[" then refuse .dimensionsAfterVariable
    else
      let initializer ←
        if ← eat "=" then
          if ← atToken "\x7b" then refuse .arrayInitializers else some <$> expression r
        else pure none
      if ← eat "," then
        let next ← identifier
        return (name, initializer) :: (← declarators r steps next)
      else return [(name, initializer)]

/-- Local variables of one declaration. The first one keeps the type that was read, the others
get copies of it. -/
def makeLocals (start : Token) (ms : Modifiers) (declared : NodeId) :
    List Comment → Bool → List (String × Option NodeId) → Parser (List NodeId)
  | _, _, [] => return []
  | comments, isFirst, (name, initializer) :: rest => do
    let type ← if isFirst then pure declared else copy declared
    let id ← makeCommented start (.localVariable name ms type initializer) comments
    return id :: (← makeLocals start ms declared [] false rest)

def localVariables (r : Rules) (start : Token) (comments : List Comment) :
    Parser (List NodeId) := do
  let (ms, annotations) ← modifiers r
  if !annotations.isEmpty then refuse .annotatedLocals
  else if ms.any (· != .final) then fail .localModifier
  else
    let declared ← type r
    let name ← identifier
    let names ← declarators r r.steps name
    makeLocals start ms declared comments true names

/-- A statement of a block; a declaration of several variables is several statements. -/
def blockStatement (r : Rules) : Parser (List NodeId) := do
  if (← atAny ["class", "interface", "enum", "abstract", "static"])
      || ((← atToken "final") && (← aheadIs 1 "class")) then
    refuse .localTypes
  else if ← atLocalDeclaration then
    let comments ← takeComments
    let start ← peek
    let locals ← localVariables r start comments
    expect ";"
    return locals
  else return [← r.parse .statement]

def blockStatements (r : Rules) : Nat → Parser (List NodeId)
  | 0 => fail .outOfSteps
  | steps + 1 => do
    if ← atToken "\x7d" then return []
    else if ← atEnd then unexpected (.token "\x7d")
    else
      let first ← blockStatement r
      return first ++ (← blockStatements r steps)

def block (r : Rules) : Parser NodeId := do
  let start ← peek
  expect "\x7b"
  let statements ← blockStatements r r.steps
  let _ ← advance
  make start (.block statements)

/-- The head and body of an enhanced `for`. Annotations of its variable are dropped. -/
def forEach (r : Rules) : Parser (Kind NodeId) := do
  let start ← peek
  let (ms, _) ← modifiers r
  let declared ← type r
  let name ← identifier
  let element ← make start (.localVariable name ms declared none)
  expect ":"
  let iterable ← expression r
  expect ")"
  let body ← r.parse .statement
  return .forEach element iterable body

/-- An expression as a statement without semicolon. -/
def expressionItem (r : Rules) : Parser NodeId := do
  let start ← peek
  let value ← expression r
  make start (.expressionStatement value)

/-- What a `for` starts with: nothing, a declaration or expressions. -/
def forInit (r : Rules) : Parser (List NodeId) := do
  if ← atToken ";" then return []
  else if ← atLocalDeclaration then
    let start ← peek
    localVariables r start []
  else separated "," (expressionItem r) r.steps

def forStatement (r : Rules) : Parser (Kind NodeId) := do
  expect "("
  if ← atForEach then forEach r
  else
    let init ← forInit r
    expect ";"
    let condition ← if ← atToken ";" then pure none else some <$> expression r
    expect ";"
    let update ← if ← atToken ")" then pure [] else separated "," (expression r) r.steps
    expect ")"
    let body ← r.parse .statement
    return .forLoop init condition update body

def catchClause (r : Rules) : Parser NodeId := do
  let start ← peek
  expect "catch"
  expect "("
  let (ms, annotations) ← modifiers r
  if !annotations.isEmpty then refuse .annotatedCatchParameters
  else
    let types ← separated "|" (type r) r.steps
    let name ← identifier
    expect ")"
    let body ← r.parse .block
    make start (.catchClause name ms types body)

def catchClauses (r : Rules) : Nat → Parser (List NodeId)
  | 0 => fail .outOfSteps
  | steps + 1 => do
    if ← atToken "catch" then
      let first ← catchClause r
      return first :: (← catchClauses r steps)
    else return []

def tryStatement (r : Rules) : Parser (Kind NodeId) := do
  if ← atToken "(" then refuse .tryResources
  else
    let body ← r.parse .block
    let catchers ← catchClauses r r.steps
    let finalizer ← if ← eat "finally" then some <$> r.parse .block else pure none
    if catchers.isEmpty && finalizer.isNone then unexpected .handler
    else return .tryStmt body catchers finalizer

def isStatementExpression : Kind NodeId → Bool
  | .unary operator _ => operator.isUpdate
  | .assignment _ _ _ | .invocation _ _ _ | .new _ _ => true
  | _ => false

def expressionStatement (r : Rules) (start : Token) : Parser (Kind NodeId) := do
  let value ← expression r
  let kind ← kindOf value
  if !isStatementExpression kind then failAt start (.notAStatement kind.variant)
  else
    expect ";"
    return .expressionStatement value

def jumpLabel : Parser (Option String) := do
  let label ← if ← atIdentifier then pure (some (← advance).text) else pure none
  expect ";"
  return label

/-- A statement that is no block, without its position. -/
def statementKind (r : Rules) (start : Token) : Parser (Kind NodeId) := do
  if ← eat ";" then return .empty
  else if ← eat "if" then
    let condition ← parenthesized r
    let thenBranch ← r.parse .statement
    let elseBranch ← if ← eat "else" then some <$> r.parse .statement else pure none
    return .ifElse condition thenBranch elseBranch
  else if ← eat "while" then
    let condition ← parenthesized r
    let body ← r.parse .statement
    return .whileLoop condition body
  else if ← eat "do" then
    let body ← r.parse .statement
    expect "while"
    let condition ← parenthesized r
    expect ";"
    return .doWhile body condition
  else if ← eat "for" then forStatement r
  else if ← eat "return" then
    let value ← if ← atToken ";" then pure none else some <$> expression r
    expect ";"
    return .returnStmt value
  else if ← eat "throw" then
    let value ← expression r
    expect ";"
    return .throwStmt value
  else if ← eat "break" then return .breakStmt (← jumpLabel)
  else if ← eat "continue" then return .continueStmt (← jumpLabel)
  else if ← eat "try" then tryStatement r
  else expressionStatement r start

def attachComments (id : NodeId) (comments : List Comment) : Parser Unit :=
  modify fun s => { s with arena := comments.foldl (fun a c => a.addComment id c) s.arena }

def statement (r : Rules) : Parser NodeId := do
  let comments ← takeComments
  let start ← peek
  if ← atToken "\x7b" then
    let body ← r.parse .block
    attachComments body comments
    return body
  else if ← atToken "switch" then refuse .switchStatements
  else if ← atToken "synchronized" then refuse .synchronizedBlocks
  else if ← atToken "assert" then refuse .assertStatements
  else if (← atIdentifier) && (← aheadIs 1 ":") then refuse .labeledStatements
  else
    let kind ← statementKind r start
    makeCommented start kind comments

end JavaEdit.Parser
