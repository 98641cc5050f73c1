import JavaEdit.Node.Variant
import JavaEdit.Source.Escape
import JavaEdit.Source.Location

/-!
# What can be wrong with a source text

Every way in which reading a source can fail, and the one place that words them. A parse error is
a cause with the file and the place it is located at.
-/

namespace JavaEdit

/-- Language features that are recognised and refused. -/
inductive Unsupported where
  | textBlocks | hexFloats | packageAnnotations | annotationTypes | annotationArrays | enums
  | records | sealedTypes | annotatedTypeParameters | initializerBlocks | genericConstructors
  | dimensionsAfterSignature | dimensionsAfterVariable | dimensionsAfterParameter
  | arrayInitializers | typeAnnotations | localTypes | annotatedLocals | switchStatements
  | synchronizedBlocks | assertStatements | labeledStatements | tryResources
  | annotatedCatchParameters | instanceofPatterns | explicitGenerics | qualifiedKeywords
  | methodReferences | lambdas | switchExpressions | classLiterals | anonymousClasses
  deriving DecidableEq, Repr

def Unsupported.text : Unsupported → String
  | textBlocks => "text blocks"
  | hexFloats => "hexadecimal floating-point literals"
  | packageAnnotations => "package annotations"
  | annotationTypes => "annotation type declarations"
  | annotationArrays => "array-valued annotation arguments"
  | enums => "enums"
  | records => "records"
  | sealedTypes => "sealed type hierarchies"
  | annotatedTypeParameters => "annotations on type parameters"
  | initializerBlocks => "initializer blocks"
  | genericConstructors => "generic constructors"
  | dimensionsAfterSignature => "array dimensions after a method signature"
  | dimensionsAfterVariable => "array dimensions after a variable name"
  | dimensionsAfterParameter => "array dimensions after a parameter name"
  | arrayInitializers => "array initializers"
  | typeAnnotations => "type annotations"
  | localTypes => "local type declarations"
  | annotatedLocals => "annotations on local variables"
  | switchStatements => "switch statements"
  | synchronizedBlocks => "synchronized blocks"
  | assertStatements => "assert statements"
  | labeledStatements => "labeled statements"
  | tryResources => "try-with-resources statements"
  | annotatedCatchParameters => "annotations on catch parameters"
  | instanceofPatterns => "instanceof patterns"
  | explicitGenerics => "explicit generic invocations"
  | qualifiedKeywords => "qualified this, super, new and class literals"
  | methodReferences => "method references"
  | lambdas => "lambda expressions"
  | switchExpressions => "switch expressions"
  | classLiterals => "class literals"
  | anonymousClasses => "anonymous classes"

/-- What was expected where something else was found. -/
inductive Expected where
  | token (text : String)
  | identifier | type | expression | typeDeclaration | endOfInput | handler | dotAfterSuper
  deriving DecidableEq, Repr

def Expected.text : Expected → String
  | token text => "'" ++ text ++ "'"
  | identifier => "identifier"
  | type => "type"
  | expression => "expression"
  | typeDeclaration => "class or interface declaration"
  | endOfInput => "end of input"
  | handler => "'catch' or 'finally'"
  | dotAfterSuper => "'.' after 'super'"

/-- Nesting of statements, unary expressions and types up to this depth is accepted. -/
def nestingLimit : Nat := 256

inductive Cause where
  | unterminatedComment | unterminatedString | unterminatedCharacter
  | unexpectedCharacter (c : Char)
  | digitsMissing | exponentMissing
  /-- Found is `none` at the end of the text. -/
  | expected (what : Expected) (found : Option String)
  | unsupported (what : Unsupported)
  | repeatedModifier (keyword : String)
  | missingReturnType (method : String)
  | varargsNotLast | tooManyDimensions | localModifier
  | notAStatement (variant : Variant)
  | invalidTarget
  | invalidOperand (operator : UnaryOperator)
  | sizedAfterUnsized | noSizedDimension
  | nestingTooDeep
  | malformedInteger (text : String)
  | integerOutOfRange (text : String)
  | invalidFloat (text : String)
  | invalidDouble (text : String)
  | badEscape (error : EscapeError)
  | notOneCharacter (text : String)
  /-- The parser's own bound on steps; no text reaches it. -/
  | outOfSteps
  deriving DecidableEq, Repr

def Cause.message : Cause → String
  | unterminatedComment => "unterminated comment"
  | unterminatedString => "unterminated string literal"
  | unterminatedCharacter => "unterminated character literal"
  | unexpectedCharacter c => "unexpected character '" ++ String.ofList [c] ++ "'"
  | digitsMissing => "malformed integer literal"
  | exponentMissing => "malformed exponent"
  | expected what found =>
    let seen := match found with
      | some text => "'" ++ text ++ "'"
      | none => "end of input"
    "expected " ++ what.text ++ ", found " ++ seen
  | unsupported what => what.text ++ " are not supported"
  | repeatedModifier keyword => "repeated modifier '" ++ keyword ++ "'"
  | missingReturnType method => "method '" ++ method ++ "' is missing a return type"
  | varargsNotLast => "a varargs parameter must be the last parameter"
  | tooManyDimensions => "too many array dimensions"
  | localModifier => "only 'final' may modify a local variable"
  | notAStatement variant => variant.text ++ " is not a statement"
  | invalidTarget => "invalid assignment target"
  | invalidOperand operator => "invalid operand for " ++ operator.name
  | sizedAfterUnsized => "sized dimension after an unsized one"
  | noSizedDimension => "array creation needs at least one sized dimension"
  | nestingTooDeep => "nesting deeper than " ++ toString nestingLimit ++ " levels"
  | malformedInteger text => "malformed integer literal '" ++ text ++ "'"
  | integerOutOfRange text => "integer literal '" ++ text ++ "' is out of range"
  | invalidFloat text => "invalid float literal '" ++ text ++ "'"
  | invalidDouble text => "invalid double literal '" ++ text ++ "'"
  | badEscape error => error.message
  | notOneCharacter text => "character literal " ++ text ++ " must hold exactly one character"
  | outOfSteps => "text too long to be read"

/-- A cause, located. -/
structure ParseError where
  file : String
  location : Location
  cause : Cause
  deriving DecidableEq, Repr

def ParseError.message (e : ParseError) : String :=
  e.file ++ ":" ++ toString e.location.line ++ ":" ++ toString e.location.column ++ ": "
    ++ e.cause.message

end JavaEdit
