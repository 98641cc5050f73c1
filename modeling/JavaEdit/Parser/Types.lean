import JavaEdit.Parser.Lookahead

/-!
# Types

Type references with their arguments and dimensions, wildcards, and type parameters.
-/

namespace JavaEdit.Parser

def type (r : Rules) : Parser NodeId := r.parse .type

/-- One or more types with commas between them. -/
def typeList (r : Rules) : Parser (List NodeId) := separated "," (type r) r.steps

def typeArgument (r : Rules) : Parser NodeId := do
  if ← atToken "?" then
    let start ← advance
    if ← eat "extends" then
      let bound ← type r
      make start (.wildcardType (some bound) true)
    else if ← eat "super" then
      let bound ← type r
      make start (.wildcardType (some bound) false)
    else make start (.wildcardType none true)
  else type r

/-- Type arguments behind a name: the arguments, and whether they are an empty pair of brackets. -/
def typeArguments (r : Rules) (allowDiamond : Bool) : Parser (List NodeId × Bool) := do
  if ← eat "<" then
    if allowDiamond && (← atToken ">") then
      let _ ← advance
      return ([], true)
    else
      let arguments ← separated "," (typeArgument r) r.steps
      closeAngle
      return (arguments, false)
  else return ([], false)

/-- Pairs of brackets; at most 255 are counted. -/
def dimensions : Nat → UInt8 → Parser UInt8
  | 0, _ => fail .outOfSteps
  | steps + 1, count => do
    if (← atToken "[") && (← aheadIs 1 "]") then
      let _ ← advance
      let _ ← advance
      if count == 255 then fail .tooManyDimensions else dimensions steps (count + 1)
    else return count

def typeReference (r : Rules) (allowDiamond withDimensions : Bool) : Parser NodeId := do
  let start ← peek
  if ← atToken "@" then refuse .typeAnnotations
  else
    let primitive := start.isPrimitive
    let name ←
      if primitive then pure (← advance).text
      else if start.kind == .identifier then qualifiedName r.steps
      else unexpected .type
    let (arguments, diamond) ←
      if primitive then pure ([], false) else typeArguments r allowDiamond
    let dims ← if withDimensions then dimensions r.steps 0 else pure 0
    make start (.typeReference name arguments diamond dims)

def typeParameter (r : Rules) : Parser NodeId := do
  let start ← peek
  if ← atToken "@" then refuse .annotatedTypeParameters
  else
    let name ← identifier
    let bounds ← if ← eat "extends" then separated "&" (type r) r.steps else pure []
    make start (.typeParameter name bounds)

/-- Type parameters in angle brackets, or none. -/
def typeParameters (r : Rules) : Parser (List NodeId) := do
  if ← eat "<" then
    let parameters ← separated "," (typeParameter r) r.steps
    closeAngle
    return parameters
  else return []

end JavaEdit.Parser
