import JavaEdit.Parser.Statements

/-!
# Declarations

Compilation units, classes and interfaces, and their members.
-/

namespace JavaEdit.Parser

/-- One parameter; one with dots must be the last. -/
def parameter (r : Rules) : Parser NodeId := do
  let start ← peek
  let (ms, annotations) ← modifiers r
  let declared ← type r
  let varargs ← eat "..."
  let name ← identifier
  if ← atToken "[" then refuse .dimensionsAfterParameter
  else
    let id ← make start (.parameter name ms annotations declared varargs)
    if varargs && !(← atToken ")") then fail .varargsNotLast else return id

def parameters (r : Rules) : Parser (List NodeId) := do
  expect "("
  let ps ← if ← atToken ")" then pure [] else separated "," (parameter r) r.steps
  expect ")"
  return ps

def throwsClause (r : Rules) : Parser (List NodeId) := do
  if ← eat "throws" then typeList r else return []

/-- Fields of one declaration. The first one keeps type and annotations that were read, the others
get copies, the type first. -/
def makeFields (start : Token) (ms : Modifiers) (declared : NodeId) (annotations : List NodeId) :
    List Comment → Bool → List (String × Option NodeId) → Parser (List NodeId)
  | _, _, [] => return []
  | comments, isFirst, (name, initializer) :: rest => do
    let type ← if isFirst then pure declared else copy declared
    let own ← if isFirst then pure annotations else annotations.mapM copy
    let id ← makeCommented start (.field name ms own type initializer) comments
    return id :: (← makeFields start ms declared annotations [] false rest)

def constructor (r : Rules) (start : Token) (comments : List Comment) (ms : Modifiers)
    (annotations typeParams : List NodeId) : Parser NodeId := do
  let name := (← peek).text
  if (← get).typeNames.head? != some name then fail (.missingReturnType name)
  else if !typeParams.isEmpty then refuse .genericConstructors
  else
    let _ ← advance
    let ps ← parameters r
    let thrown ← throwsClause r
    let body ← r.parse .block
    makeCommented start (.constructor name ms annotations ps thrown body) comments

def method (r : Rules) (start : Token) (comments : List Comment) (ms : Modifiers)
    (annotations typeParams : List NodeId) (returned : NodeId) (name : String) :
    Parser NodeId := do
  let ps ← parameters r
  if ← atToken "[" then refuse .dimensionsAfterSignature
  else
    let thrown ← throwsClause r
    let body ← if ← eat ";" then pure none else some <$> r.parse .block
    makeCommented start (.method name ms annotations typeParams returned ps thrown body) comments

def atRecord : Parser Bool := do
  return (← atWord "record") && (← peekAt 1).kind == .identifier

/-- A member; a declaration of several fields is several members. -/
def member (r : Rules) : Parser (List NodeId) := do
  let comments ← takeComments
  let start ← peek
  if (← atToken "\x7b") || ((← atToken "static") && (← aheadIs 1 "\x7b")) then
    refuse .initializerBlocks
  else
    let (ms, annotations) ← modifiers r
    if (← atAny ["class", "interface", "enum"]) || (← atRecord) then
      return [← r.parse (.typeDeclaration start comments ms annotations)]
    else
      let typeParams ← typeParameters r
      if (← atIdentifier) && (← aheadIs 1 "(") then
        return [← constructor r start comments ms annotations typeParams]
      else
        let declared ← type r
        let name ← identifier
        if ← atToken "(" then
          return [← method r start comments ms annotations typeParams declared name]
        else if !typeParams.isEmpty then unexpected (.token "(")
        else
          let names ← declarators r r.steps name
          expect ";"
          makeFields start ms declared annotations comments true names

def members (r : Rules) : Nat → Parser (List NodeId)
  | 0 => fail .outOfSteps
  | steps + 1 => do
    if ← atToken "\x7d" then return []
    else if ← atEnd then unexpected (.token "\x7d")
    else if ← eat ";" then members r steps
    else
      let first ← member r
      return first ++ (← members r steps)

def typeBody (r : Rules) (name : String) : Parser (List NodeId) := do
  modify fun s => { s with typeNames := name :: s.typeNames }
  expect "\x7b"
  let ms ← members r r.steps
  let _ ← advance
  modify fun s => { s with typeNames := s.typeNames.tail }
  return ms

def refusePermits : Parser Unit := do
  if ← atWord "permits" then refuse .sealedTypes

def classDeclaration (r : Rules) (start : Token) (comments : List Comment) (ms : Modifiers)
    (annotations : List NodeId) : Parser NodeId := do
  let name ← identifier
  let typeParams ← typeParameters r
  let superclass ← if ← eat "extends" then some <$> type r else pure none
  let interfaces ← if ← eat "implements" then typeList r else pure []
  refusePermits
  let body ← typeBody r name
  makeCommented start
    (.classDecl name ms annotations typeParams superclass interfaces body) comments

def interfaceDeclaration (r : Rules) (start : Token) (comments : List Comment) (ms : Modifiers)
    (annotations : List NodeId) : Parser NodeId := do
  let name ← identifier
  let typeParams ← typeParameters r
  let supertypes ← if ← eat "extends" then typeList r else pure []
  refusePermits
  let body ← typeBody r name
  makeCommented start (.interfaceDecl name ms annotations typeParams supertypes body) comments

def typeDeclaration (r : Rules) (start : Token) (comments : List Comment) (ms : Modifiers)
    (annotations : List NodeId) : Parser NodeId := do
  if ← atToken "enum" then refuse .enums
  else if ← atRecord then refuse .records
  else if ← eat "class" then classDeclaration r start comments ms annotations
  else if ← eat "interface" then interfaceDeclaration r start comments ms annotations
  else unexpected .typeDeclaration

/-- The rest of an import's path behind its first name, and whether it ends with a star. -/
def importRest : Nat → Parser (List String × Bool)
  | 0 => fail .outOfSteps
  | steps + 1 => do
    if ← eat "." then
      if ← eat "*" then return ([], true)
      else
        let part ← identifier
        let (parts, wildcard) ← importRest steps
        return (part :: parts, wildcard)
    else return ([], false)

def importLine (steps : Nat) : Parser Import := do
  let isStatic ← eat "static"
  let first ← identifier
  let (parts, wildcard) ← importRest steps
  expect ";"
  return ⟨".".intercalate (first :: parts), isStatic, wildcard⟩

def importLines (steps : Nat) : Nat → Parser (List Import)
  | 0 => fail .outOfSteps
  | more + 1 => do
    if ← eat "import" then
      let first ← importLine steps
      return first :: (← importLines steps more)
    else return []

def topLevelTypes (r : Rules) : Nat → Parser (List NodeId)
  | 0 => fail .outOfSteps
  | steps + 1 => do
    if ← atEnd then return []
    else if ← eat ";" then topLevelTypes r steps
    else
      let comments ← takeComments
      let start ← peek
      let (ms, annotations) ← modifiers r
      let first ← typeDeclaration r start comments ms annotations
      return first :: (← topLevelTypes r steps)

def packageLine (steps : Nat) : Parser (Option String) := do
  if ← eat "package" then
    let name ← qualifiedName steps
    expect ";"
    return some name
  else return none

/-- A compilation unit. Its position is the whole text up to the end token. -/
def compilationUnit (r : Rules) : Parser NodeId := do
  let comments ← if ← atToken "package" then takeComments else pure []
  if ← atToken "@" then refuse .packageAnnotations
  else
    let package ← packageLine r.steps
    let imports ← importLines r.steps r.steps
    let types ← topLevelTypes r r.steps
    let stop := (← peek).start.offset
    let s ← get
    let (id, arena) :=
      s.arena.alloc (.compilationUnit package imports types) (.real s.file .start stop) comments
    set { s with arena }
    return id

end JavaEdit.Parser
