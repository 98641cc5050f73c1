import JavaEdit.Text.Blank

/-!
# Operators

Binary and unary operators with their upper-case names, the symbols they are written with and,
for binary ones, how tightly they bind.
-/

namespace JavaEdit

/-- Binary operators, loosest first. -/
inductive BinaryOperator where
  | or | and | bitOr | bitXor | bitAnd | eq | ne | lt | gt | le | ge | instanceOf
  | shl | shr | ushr | plus | minus | mul | div | mod
  deriving DecidableEq, Repr

namespace BinaryOperator

def all : List BinaryOperator :=
  [or, and, bitOr, bitXor, bitAnd, eq, ne, lt, gt, le, ge, instanceOf,
   shl, shr, ushr, plus, minus, mul, div, mod]

def symbol : BinaryOperator → String
  | or => "||"
  | and => "&&"
  | bitOr => "|"
  | bitXor => "^"
  | bitAnd => "&"
  | eq => "=="
  | ne => "!="
  | lt => "<"
  | gt => ">"
  | le => "<="
  | ge => ">="
  | instanceOf => "instanceof"
  | shl => "<<"
  | shr => ">>"
  | ushr => ">>>"
  | plus => "+"
  | minus => "-"
  | mul => "*"
  | div => "/"
  | mod => "%"

def name : BinaryOperator → String
  | or => "OR"
  | and => "AND"
  | bitOr => "BITOR"
  | bitXor => "BITXOR"
  | bitAnd => "BITAND"
  | eq => "EQ"
  | ne => "NE"
  | lt => "LT"
  | gt => "GT"
  | le => "LE"
  | ge => "GE"
  | instanceOf => "INSTANCEOF"
  | shl => "SL"
  | shr => "SR"
  | ushr => "USR"
  | plus => "PLUS"
  | minus => "MINUS"
  | mul => "MUL"
  | div => "DIV"
  | mod => "MOD"

/-- Binding strength, larger binds tighter. Assignment has 1 and the conditional operator 2, so
every binary operator stands above them. -/
def precedence : BinaryOperator → Nat
  | or => 3
  | and => 4
  | bitOr => 5
  | bitXor => 6
  | bitAnd => 7
  | eq | ne => 8
  | lt | gt | le | ge | instanceOf => 9
  | shl | shr | ushr => 10
  | plus | minus => 11
  | mul | div | mod => 12

def ofSymbol? (text : String) : Option BinaryOperator :=
  all.find? fun op => op.symbol == text

def isCompound : BinaryOperator → Bool
  | bitOr | bitXor | bitAnd | shl | shr | ushr | plus | minus | mul | div | mod => true
  | _ => false

def ofCompound? (token : String) : Option BinaryOperator :=
  match token.toList.reverse with
  | '=' :: rest =>
    (ofSymbol? (String.ofList rest.reverse)).filter isCompound
  | _ => none

end BinaryOperator

/-- Equality of texts up to the case of ASCII letters. -/
def Text.sameLetters (a b : String) : Bool :=
  a.toList.map Char.toLower == b.toList.map Char.toLower

/-- The operator with this name, in any case, or this symbol; blanks around it do not count. The
failure carries the trimmed text. -/
def BinaryOperator.read (text : String) : Except String BinaryOperator :=
  let trimmed := Text.trim text
  match all.find? fun op => Text.sameLetters op.name trimmed || op.symbol == trimmed with
  | some op => .ok op
  | none => .error trimmed

def BinaryOperator.unknownMessage (trimmed : String) : String :=
  "unknown binary operator '" ++ trimmed ++ "'"

inductive UnaryOperator where
  | pos | neg | not | compl | preInc | preDec | postInc | postDec
  deriving DecidableEq, Repr

namespace UnaryOperator

def all : List UnaryOperator := [pos, neg, not, compl, preInc, preDec, postInc, postDec]

def symbol : UnaryOperator → String
  | pos => "+"
  | neg => "-"
  | not => "!"
  | compl => "~"
  | preInc | postInc => "++"
  | preDec | postDec => "--"

def name : UnaryOperator → String
  | pos => "POS"
  | neg => "NEG"
  | not => "NOT"
  | compl => "COMPL"
  | preInc => "PREINC"
  | preDec => "PREDEC"
  | postInc => "POSTINC"
  | postDec => "POSTDEC"

def isPostfix : UnaryOperator → Bool
  | postInc | postDec => true
  | _ => false

def isUpdate : UnaryOperator → Bool
  | preInc | preDec | postInc | postDec => true
  | _ => false

def ofLeading? (token : String) : Option UnaryOperator :=
  [pos, neg, not, compl, preInc, preDec].find? fun op => op.symbol == token

end UnaryOperator

end JavaEdit
