import JavaEdit.Source.Location

/-!
# Tokens

The pieces a source text is made of, with the words and signs that have a meaning of their own.
-/

namespace JavaEdit

inductive TokenKind where
  | identifier | keyword | intLiteral | longLiteral | floatLiteral | doubleLiteral | charLiteral
  | stringLiteral | operator
  | eof
  deriving DecidableEq, Repr

/-- A token with its place and the comments in front of it. -/
structure Token where
  kind : TokenKind
  /-- The text as it is written, with quotes and suffixes. -/
  text : String
  start : Location
  /-- Byte offset behind the last character. -/
  stop : Nat
  comments : List Comment
  deriving DecidableEq, Repr

namespace Token

/-- Whether a token is the keyword or operator with this text. -/
def is (t : Token) (text : String) : Bool :=
  (t.kind == .operator || t.kind == .keyword) && t.text == text

def keywords : List String :=
  ["abstract", "assert", "boolean", "break", "byte", "case", "catch", "char", "class", "const",
   "continue", "default", "do", "double", "else", "enum", "extends", "false", "final", "finally",
   "float", "for", "goto", "if", "implements", "import", "instanceof", "int", "interface", "long",
   "native", "new", "null", "package", "private", "protected", "public", "return", "short",
   "static", "strictfp", "super", "switch", "synchronized", "this", "throw", "throws",
   "transient", "true", "try", "void", "volatile", "while"]

/-- Names of the primitive types and `void`. -/
def primitives : List String :=
  ["boolean", "byte", "char", "short", "int", "long", "float", "double", "void"]

/-- Operators and separators, longer ones before their prefixes. -/
def operators : List String :=
  [">>>=", "<<=", ">>=", ">>>", "...", "->", "::", "++", "--", "&&", "||", "==", "!=", "<=", ">=",
   "+=", "-=", "*=", "/=", "%=", "&=", "|=", "^=", "<<", ">>", "(", ")", "\x7b", "\x7d", "[", "]",
   ";", ",", ".", "@", "=", ">", "<", "!", "~", "?", ":", "+", "-", "*", "/", "&", "|", "^", "%"]

def isPrimitive (t : Token) : Bool :=
  t.kind == .keyword && primitives.contains t.text

end Token

end JavaEdit
