import JavaEdit.Layout.Page
import JavaEdit.Proofs.Node.Slots
import JavaEdit.Proofs.Source.Lexing
import JavaEdit.Proofs.Tree.Induction
import JavaEdit.Text.Split

/-!
# The words of a page

The tokens that the text of a tree is made of, each with the comments in front of it and without
its place, put together from the leaves up in the way the text is. Angle brackets that close type
arguments run together with those that follow, as in `Map<K, List<V>>`; a phrase therefore keeps
the number of angle brackets it ends with apart from the words before them.
-/

namespace JavaEdit.Layout

open Lexer (nameKind)

def sign (op : String) : Token := word .operator op

/-- A keyword or an identifier. -/
def nameWord (n : String) : Token := word (nameKind n) n

/-- The identifiers of a dotted name, with the points between them. -/
def dotted (n : String) : List Token := ((Text.split '.' n).map nameWord).intersperse (sign ".")

/-- Closing angle brackets, run together as far as operators go. -/
def angles : Nat → List Token
  | 0 => []
  | 1 => [sign ">"]
  | 2 => [sign ">>"]
  | n + 3 => sign ">>>" :: angles n

/-- Empty pairs of brackets. -/
def bracketWords (n : UInt8) : List Token := (List.replicate n.toNat [sign "[", sign "]"]).flatten

def literalWord (value : Literal) : Token :=
  match value with
  | .int _ => word .intLiteral value.text
  | .long _ => word .longLiteral value.text
  | .float _ => word .floatLiteral value.text
  | .double _ => word .doubleLiteral value.text
  | .char _ => word .charLiteral value.text
  | .string _ => word .stringLiteral value.text
  | .boolean _ | .null => word .keyword value.text

def modifierWords (ms : Modifiers) : List Token := ms.map fun m => nameWord m.keyword

/-- A node with its words, in the forms its surroundings may ask for. -/
structure Phrase where
  tree : Tree (List Comment)
  /-- The words of the node, without its comments and the angle brackets it ends with. -/
  before : List Token
  /-- Number of angle brackets the node ends with. -/
  closing : Nat
  /-- The node as the first thing in the head of a `for`. -/
  opening : List Token
  /-- The node behind other things in the head of a `for`. -/
  following : List Token
  /-- Modifiers, type and name of a variable, without its value. -/
  binding : List Token

namespace Phrase

def words (p : Phrase) : List Token := p.before ++ angles p.closing

/-- The words of the node behind its comments. -/
def line (p : Phrase) : List Token := leading p.tree.label p.words

/-- An operand of something that binds this tightly, in parentheses if it binds less. -/
def operand (p : Phrase) (least : Nat) : List Token :=
  if precedence p.tree.kind < least then sign "(" :: p.words ++ [sign ")"] else p.words

/-- Several phrases with a separator between them, up to the angle brackets they end with, and the
number of those. -/
def joined (separator : Token) : List Phrase → List Token × Nat
  | [] => ([], 0)
  | [p] => (p.before, p.closing)
  | p :: ps => (p.words ++ separator :: (joined separator ps).1, (joined separator ps).2)

/-- All words of several phrases with a separator between them. -/
def listed (separator : Token) (ps : List Phrase) : List Token :=
  (joined separator ps).1 ++ angles (joined separator ps).2

/-- Several phrases between angle brackets, up to those at the end, and their number. -/
def angled (ps : List Phrase) : List Token × Nat := (sign "<" :: (joined (sign ",") ps).1, (joined (sign ",") ps).2 + 1)

end Phrase

/-- Whether the first of some words starts with a sign. -/
def signedWords (ws : List Token) : Bool := ws.head?.any fun w => isSigned w.text

/-- Words, in parentheses if that is asked for. -/
def enclosedIf (condition : Bool) (ws : List Token) : List Token :=
  if condition then sign "(" :: ws ++ [sign ")"] else ws

/-- Words and angle brackets of a type. -/
def typePhrase (name : String) (arguments : List Phrase) (diamond : Bool) (dimensions : UInt8) :
    List Token × Nat :=
  let list :=
    if diamond then ([sign "<"], 1)
    else if arguments.isEmpty then ([], 0)
    else Phrase.angled arguments
  if dimensions == 0 then (dotted name ++ list.1, list.2)
  else (dotted name ++ list.1 ++ angles list.2 ++ bracketWords dimensions, 0)

def argumentWords (arguments : List Phrase) : List Token := sign "(" :: Phrase.listed (sign ",") arguments ++ [sign ")"]

def unaryWords (operator : UnaryOperator) (operand : Phrase) : List Token :=
  if operator.isPostfix then operand.operand 14 ++ [sign operator.symbol]
  else
    let ws := operand.operand 13
    sign operator.symbol :: enclosedIf (signedWords ws && isSigned operator.symbol) ws

def castWords (type value : Phrase) : List Token :=
  let ws := value.operand 13
  sign "(" :: type.words ++ sign ")" :: enclosedIf (!isPrimitiveType type.tree.kind && signedWords ws) ws

def operatorWord (operator : BinaryOperator) : Token :=
  if operator == .instanceOf then nameWord operator.symbol else sign operator.symbol

def rightWords (operator : BinaryOperator) (right : Phrase) : List Token :=
  if right.tree.variant == .typeReference || right.tree.variant == .wildcardType then right.words
  else right.operand (operator.precedence + 1)

def assignmentWord : Option BinaryOperator → Token
  | some operator => sign (operator.symbol ++ "=")
  | none => sign "="

/-- Types, expressions and the parts of declarations that stand in one line: the words before the
angle brackets at the end, and the number of those. -/
def inlinePhrase : Kind Phrase → List Token × Nat
  | .parameter name ms annotations type varargs =>
    (annotations.flatMap Phrase.words ++ modifierWords ms ++ type.words
      ++ (if varargs then [sign "..."] else []) ++ [nameWord name], 0)
  | .annotationUse name arguments =>
    (sign "@" :: dotted name ++ (if arguments.isEmpty then [] else argumentWords arguments), 0)
  | .typeParameter name bounds =>
    if bounds.isEmpty then ([nameWord name], 0)
    else
      let list := Phrase.joined (sign "&") bounds
      (nameWord name :: nameWord "extends" :: list.1, list.2)
  | .typeReference name arguments diamond dimensions =>
    typePhrase name arguments diamond dimensions
  | .wildcardType none _ => ([sign "?"], 0)
  | .wildcardType (some bound) upper =>
    (sign "?" :: nameWord (if upper then "extends" else "super") :: bound.before, bound.closing)
  | .literal value => ([literalWord value], 0)
  | .name name => ([nameWord name], 0)
  | .this => ([nameWord "this"], 0)
  | .super => ([nameWord "super"], 0)
  | .fieldAccess target name => (target.operand 15 ++ [sign ".", nameWord name], 0)
  | .invocation none name arguments => (nameWord name :: argumentWords arguments, 0)
  | .invocation (some target) name arguments =>
    (target.operand 15 ++ sign "." :: nameWord name :: argumentWords arguments, 0)
  | .new type arguments => (nameWord "new" :: type.words ++ argumentWords arguments, 0)
  | .newArray element dimensions extra =>
    (nameWord "new" :: element.words
      ++ (dimensions.flatMap fun p => sign "[" :: p.words ++ [sign "]"]) ++ bracketWords extra, 0)
  | .arrayAccess target index => (target.operand 15 ++ sign "[" :: index.words ++ [sign "]"], 0)
  | .binary operator left right =>
    (left.operand operator.precedence ++ operatorWord operator :: rightWords operator right, 0)
  | .unary operator operand => (unaryWords operator operand, 0)
  | .assignment operator target value =>
    (target.operand 14 ++ assignmentWord operator :: value.operand 1, 0)
  | .conditional condition thenValue elseValue =>
    (condition.operand 3 ++ sign "?" :: thenValue.operand 1 ++ sign ":" :: elseValue.operand 2, 0)
  | .cast type value => (castWords type value, 0)
  | _ => ([], 0)

/-! ## Statements -/

def braced (ws : List Token) : List Token := sign "\x7b" :: ws ++ [sign "\x7d"]

/-- A name with the value it starts with. -/
def declaratorWords (name : String) : Option Phrase → List Token
  | some value => nameWord name :: sign "=" :: value.words
  | none => [nameWord name]

/-- A variable without semicolon. -/
def localWords (name : String) (ms : Modifiers) (type : Phrase) (initializer : Option Phrase) :
    List Token :=
  modifierWords ms ++ type.words ++ declaratorWords name initializer

def initWords : List Phrase → List Token
  | [] => []
  | first :: rest => first.opening ++ rest.flatMap Phrase.following

/-- `break` or `continue`. -/
def jumpWords (keyword : String) (label : Option String) : List Token :=
  nameWord keyword :: (label.toList.map nameWord ++ [sign ";"])

/-- A condition in parentheses behind a keyword. -/
def headWords (keyword : String) (condition : Phrase) : List Token :=
  nameWord keyword :: sign "(" :: condition.words ++ [sign ")"]

def statementWords : Kind Phrase → List Token
  | .block statements => braced (statements.flatMap Phrase.line)
  | .localVariable name ms type initializer => localWords name ms type initializer ++ [sign ";"]
  | .expressionStatement value => value.words ++ [sign ";"]
  | .ifElse condition thenBranch none => headWords "if" condition ++ thenBranch.line
  | .ifElse condition thenBranch (some elseBranch) =>
    headWords "if" condition ++ thenBranch.line ++ nameWord "else" :: elseBranch.line
  | .whileLoop condition body => headWords "while" condition ++ body.line
  | .doWhile body condition =>
    nameWord "do" :: body.line ++ headWords "while" condition ++ [sign ";"]
  | .forLoop init condition update body =>
    nameWord "for" :: sign "(" :: initWords init ++ sign ";" :: condition.toList.flatMap Phrase.words
      ++ sign ";" :: Phrase.listed (sign ",") update ++ sign ")" :: body.line
  | .forEach element iterable body =>
    nameWord "for" :: sign "(" :: element.binding ++ sign ":" :: iterable.words
      ++ sign ")" :: body.line
  | .returnStmt value => nameWord "return" :: value.toList.flatMap Phrase.words ++ [sign ";"]
  | .throwStmt value => nameWord "throw" :: value.words ++ [sign ";"]
  | .breakStmt label => jumpWords "break" label
  | .continueStmt label => jumpWords "continue" label
  | .tryStmt body catchers finalizer =>
    nameWord "try" :: body.words ++ catchers.flatMap Phrase.words
      ++ finalizer.toList.flatMap fun last => nameWord "finally" :: last.words
  | .catchClause name ms types body =>
    nameWord "catch" :: sign "(" :: modifierWords ms ++ Phrase.listed (sign "|") types
      ++ nameWord name :: sign ")" :: body.words
  | .empty => [sign ";"]
  | _ => []

/-! ## Declarations -/

def importWords (i : Import) : List Token :=
  nameWord "import" :: (if i.isStatic then [nameWord "static"] else []) ++ dotted i.path
    ++ (if i.wildcard then [sign ".", sign "*"] else []) ++ [sign ";"]

def headerWords (package : Option String) (imports : List Import) : List Token :=
  (package.toList.flatMap fun name => nameWord "package" :: dotted name ++ [sign ";"])
    ++ imports.flatMap importWords

/-- Annotations and modifiers of a declaration. -/
def prefaceWords (annotations : List Phrase) (ms : Modifiers) : List Token :=
  annotations.flatMap Phrase.words ++ modifierWords ms

/-- Type parameters in angle brackets. -/
def typeParameterWords (ps : List Phrase) : List Token :=
  if ps.isEmpty then [] else (Phrase.angled ps).1 ++ angles (Phrase.angled ps).2

/-- A keyword and some types behind it, or nothing. -/
def clauseWords (keyword : String) (types : List Phrase) : List Token :=
  if types.isEmpty then [] else nameWord keyword :: Phrase.listed (sign ",") types

/-- Classes, interfaces and their members, without their comments. -/
def declarationWords : Kind Phrase → List Token
  | .classDecl name ms annotations typeParameters superclass interfaces members =>
    prefaceWords annotations ms ++ nameWord "class" :: nameWord name
      :: typeParameterWords typeParameters ++ clauseWords "extends" superclass.toList
      ++ clauseWords "implements" interfaces ++ braced (members.flatMap Phrase.words)
  | .interfaceDecl name ms annotations typeParameters supertypes members =>
    prefaceWords annotations ms ++ nameWord "interface" :: nameWord name
      :: typeParameterWords typeParameters ++ clauseWords "extends" supertypes
      ++ braced (members.flatMap Phrase.words)
  | .method name ms annotations typeParameters returned parameters thrown body =>
    prefaceWords annotations ms ++ typeParameterWords typeParameters ++ returned.words
      ++ nameWord name :: argumentWords parameters ++ clauseWords "throws" thrown
      ++ (match body with
        | some body => body.words
        | none => [sign ";"])
  | .constructor name ms annotations parameters thrown body =>
    prefaceWords annotations ms ++ nameWord name :: argumentWords parameters
      ++ clauseWords "throws" thrown ++ body.words
  | .field name ms annotations type initializer =>
    prefaceWords annotations [] ++ localWords name ms type initializer ++ [sign ";"]
  | _ => []

/-! ## Pages -/

/-- Words of a node from the phrases of its children, with the number of angle brackets at the
end. -/
def nodePhrase (comments : List Comment) (kind : Kind Phrase) : List Token × Nat :=
  match kind with
  | .compilationUnit package imports types =>
    (leading comments (headerWords package imports ++ types.flatMap Phrase.words), 0)
  | .classDecl .. | .interfaceDecl .. | .method .. | .constructor .. | .field .. =>
    (leading comments (declarationWords kind), 0)
  | .block .. | .localVariable .. | .expressionStatement .. | .ifElse .. | .whileLoop ..
  | .doWhile .. | .forLoop .. | .forEach .. | .returnStmt .. | .throwStmt .. | .breakStmt ..
  | .continueStmt .. | .tryStmt .. | .catchClause .. | .empty => (statementWords kind, 0)
  | _ => inlinePhrase kind

/-- The node as the first thing in the head of a `for`. -/
def openingWords : Kind Phrase → List Token
  | .localVariable name ms type initializer => localWords name ms type initializer
  | .expressionStatement value => value.words
  | _ => []

/-- The node behind other things in the head of a `for`. -/
def followingWords : Kind Phrase → List Token
  | .localVariable name _ _ initializer => sign "," :: declaratorWords name initializer
  | .expressionStatement value => sign "," :: value.words
  | _ => []

/-- The node as the variable of an enhanced `for`. -/
def bindingWords : Kind Phrase → List Token
  | .localVariable name ms type _ => localWords name ms type none
  | _ => []

/-- The phrase of a node from those of its children. -/
def assemblePhrase (comments : List Comment) (kind : Kind Phrase) : Phrase where
  tree := .node comments (kind.map fun p => p.tree)
  before := (nodePhrase comments kind).1
  closing := (nodePhrase comments kind).2
  opening := openingWords kind
  following := followingWords kind
  binding := bindingWords kind

def phrase (t : Tree (List Comment)) : Phrase := t.fold assemblePhrase

variable (comments : List Comment) (kind : Kind (Tree (List Comment)))

theorem phrase_node : phrase (.node comments kind) = assemblePhrase comments (kind.map phrase) :=
  Tree.fold_node ..

theorem piece_node : piece (.node comments kind) = assemble comments (kind.map piece) :=
  Tree.fold_node ..

@[simp] theorem tree_piece (t : Tree (List Comment)) : (piece t).tree = t := by
  induction t using Tree.induct with
  | step comments kind ih =>
    rw [piece_node]
    show Tree.node comments ((kind.map piece).map fun p => p.tree) = _
    rw [Kind.map_map, Kind.map_congr ih, Kind.map_id]

@[simp] theorem tree_phrase (t : Tree (List Comment)) : (phrase t).tree = t := by
  induction t using Tree.induct with
  | step comments kind ih =>
    rw [phrase_node]
    show Tree.node comments ((kind.map phrase).map fun p => p.tree) = _
    rw [Kind.map_map, Kind.map_congr ih, Kind.map_id]

theorem text_node : (piece (.node comments kind)).text = nodeText comments (kind.map piece) := by
  rw [piece_node]
  rfl

theorem before_node : (phrase (.node comments kind)).before = (nodePhrase comments (kind.map phrase)).1 := by
  rw [phrase_node]
  rfl

theorem closing_node : (phrase (.node comments kind)).closing = (nodePhrase comments (kind.map phrase)).2 := by
  rw [phrase_node]
  rfl

theorem words_node : (phrase (.node comments kind)).words = (nodePhrase comments (kind.map phrase)).1
      ++ angles (nodePhrase comments (kind.map phrase)).2 := by
  rw [Phrase.words, before_node, closing_node]

theorem line_phrase {t : Tree (List Comment)} (silent : t.label = []) : (phrase t).line = (phrase t).words := by
  rw [Phrase.line, tree_phrase, silent]
  cases (phrase t).words with
  | nil => rfl
  | cons w ws => simp [leading, Token.led]

theorem binding_phrase (cs : List Comment) (name : String) (ms : Modifiers) (type : Tree (List Comment))
    (value : Option (Tree (List Comment))) :
    (phrase (.node cs (.localVariable name ms type value))).binding = localWords name ms (phrase type) none := by
  rw [phrase_node]
  rfl

end JavaEdit.Layout
