import JavaEdit.Machine.Arithmetic
import JavaEdit.Machine.World
import JavaEdit.Text.Case
import JavaEdit.Text.Units

/-!
# Built-in methods

Methods of texts and numbers and the static members that the machine provides. None of them
changes the world.
-/

namespace JavaEdit.Builtin

def slice (cs : List Char) (start stop : Int32) : Except Upset Value :=
  let length : Int := cs.length
  if start.toInt < 0 || length < stop.toInt || stop.toInt < start.toInt then
    .error (.trap (.textRange start.toInt stop.toInt length))
  else
    let part := (cs.drop start.toInt.toNat).take (stop.toInt - start.toInt).toNat
    .ok (.string (String.ofList part))

def charAt (cs : List Char) (index : Int32) : Except Upset Value :=
  match if index.toInt < 0 then none else cs[index.toInt.toNat]? with
  | some c => .ok (.char c)
  | none => .error (.trap (.textIndex index cs.length))

def isText (s : String) : Value → Bool
  | .string other => other == s
  | _ => false

def isTextInAnyCase (s : String) : Value → Bool
  | .string other => Text.toLower other == Text.toLower s
  | _ => false

/-- Control characters and blanks at the ends of a text are trimmed. -/
def isTrimmed (c : Char) : Bool := c.toNat ≤ 32

def onText (s : String) (name : String) (args : List Value) : Except Upset Value :=
  let cs := s.toList
  match name, args with
  | "length", [] => .ok (.int (Int32.ofNat cs.length))
  | "isEmpty", [] => .ok (.boolean s.isEmpty)
  | "equals", [other] => .ok (.boolean (isText s other))
  | "equalsIgnoreCase", [other] => .ok (.boolean (isTextInAnyCase s other))
  | "charAt", [.int index] => charAt cs index
  | "concat", [.string other] => .ok (.string (s ++ other))
  | "contains", [.string other] => .ok (.boolean (Text.placeOf? other.toList cs).isSome)
  | "startsWith", [.string other] => .ok (.boolean (other.toList.isPrefixOf cs))
  | "endsWith", [.string other] => .ok (.boolean (other.toList.isSuffixOf cs))
  | "indexOf", [.string other] =>
    .ok (.int ((Text.placeOf? other.toList cs).elim (-1) Int32.ofNat))
  | "substring", [.int start] => slice cs start (Int32.ofNat cs.length)
  | "substring", [.int start, .int stop] => slice cs start stop
  | "trim", [] => .ok (.string (String.ofList (Text.trimBy isTrimmed cs)))
  | "toUpperCase", [] => .ok (.string (Text.toUpper s))
  | "toLowerCase", [] => .ok (.string (Text.toLower s))
  | "toString", [] | "intern", [] => .ok (.string s)
  | "hashCode", [] => .ok (.int (Text.hashText s))
  | "compareTo", [.string other] => .ok (.int (Int32.ofInt (Text.compareTexts s other)))
  | _, _ => .error (.fault (.unknownStaticMethod "String" name))

def orderValue : Ordering → Int32
  | .lt => -1
  | .eq => 0
  | .gt => 1

/-- The two halves of a `long`, mixed. -/
def hashLong (v : Int64) : Int32 := (v ^^^ (v >>> 32)).toInt32

def onNumber? (n : Numeric) (name : String) (args : List Value) : Option (Except Upset Value) :=
  match name, args, n with
  | "hashCode", [], .int v => some (.ok (.int v))
  | "hashCode", [], .long v => some (.ok (.int (hashLong v)))
  | "intValue", [], n => some (.ok (.int n.toInt32))
  | "longValue", [], n => some (.ok (.long n.toInt64))
  | "doubleValue", [], n => some (.ok (.double n.toDouble))
  | "compareTo", [other], n =>
    match other.numeric?.bind n.compare? with
    | some order => some (.ok (.int (orderValue order)))
    | none => some (.error (.fault .incomparable))
  | _, _, _ => none

def onBox (w : World) (v : Value) (name : String) (args : List Value) : Except Upset Value :=
  match name, args, v with
  | "toString", [], v => .ok (.string (w.text v))
  | "equals", [other], v =>
    .ok (.boolean (w.typeName other == w.typeName v && other.same v))
  | "booleanValue", [], .boolean b => .ok (.boolean b)
  | _, _, _ =>
    match v.numeric?.bind fun n => onNumber? n name args with
    | some result => result
    | none => .error (.fault (.unknownMethodOf name (w.typeName v)))

/-- A static field that the machine provides. -/
def constant? (owner name : String) : Option Value :=
  match owner, name with
  | "Integer", "MAX_VALUE" => some (.int Int32.maxValue)
  | "Integer", "MIN_VALUE" => some (.int Int32.minValue)
  | "Long", "MAX_VALUE" => some (.long Int64.maxValue)
  | "Long", "MIN_VALUE" => some (.long Int64.minValue)
  | "Double", "MAX_VALUE" => some (.double (Float.ofBits 0x7FEFFFFFFFFFFFFF))
  | "Double", "NaN" => some (.double (Float.ofBits Number.Format.double.quietNaN.toUInt64))
  | "Math", "PI" => some (.double (Float.ofBits 0x400921FB54442D18))
  | "Math", "E" => some (.double (Float.ofBits 0x4005BF0A8B145769))
  | _, _ => none

def readInteger? : List Char → Option Int
  | '-' :: cs => (digitsValue? 10 cs).map fun n => -(n : Int)
  | '+' :: cs => (digitsValue? 10 cs).map Int.ofNat
  | cs => (digitsValue? 10 cs).map Int.ofNat

/-- A decimal integer between two bounds. -/
def readWithin? (least greatest : Int) (s : String) : Option Int :=
  (readInteger? s.toList).filter fun n => least ≤ n && n ≤ greatest

/-- The larger or smaller of two numbers, the first one when they are equal or not comparable. -/
def extreme (wanted : Ordering) (a b : Numeric) : Value :=
  let (a, b) := Numeric.promote a b
  match a.compare? b with
  | some .eq | none => Value.ofNumeric a
  | some order => Value.ofNumeric (if order == wanted then a else b)

def onMath (name : String) (args : List Value) : Except Upset Value :=
  match name, args with
  | "max", [a, b] | "min", [a, b] =>
    match a.numeric?, b.numeric? with
    | some x, some y => .ok (extreme (if name == "max" then .gt else .lt) x y)
    | _, _ => .error (.fault (.badArguments ("Math." ++ name)))
  | "abs", [a] =>
    match a.numeric? with
    | some x => .ok (Value.ofNumeric x.abs)
    | none => .error (.fault (.badArgument "Math.abs"))
  | "pow", [a, b] =>
    match a.numeric?, b.numeric? with
    | some x, some y => .ok (.double (x.toDouble ^ y.toDouble))
    | _, _ => .error (.fault (.badArguments "Math.pow"))
  | "sqrt", [a] =>
    match a.numeric? with
    | some x => .ok (.double x.toDouble.sqrt)
    | none => .error (.fault (.badArgument "Math.sqrt"))
  | _, _ => .error (.fault (.unknownStaticMethod "Math" name))

def toInteger (w : World) (name : String) : Value → Except Upset Value
  | .string s =>
    match readWithin? Int32.minValue.toInt Int32.maxValue.toInt s with
    | some n => .ok (.int (Int32.ofInt n))
    | none => .error (.trap (.notANumber s))
  | .int v => .ok (.int v)
  | other => .error (.fault (.badArgumentType ("Integer." ++ name) (w.typeName other)))

def toLong (name : String) : Value → Except Upset Value
  | .string s =>
    match readWithin? Int64.minValue.toInt Int64.maxValue.toInt s with
    | some n => .ok (.long (Int64.ofInt n))
    | none => .error (.trap (.notANumber s))
  | other =>
    match other.numeric? with
    | some n => .ok (.long n.toInt64)
    | none => .error (.fault (.badArgument ("Long." ++ name)))

def toDouble (name : String) : Value → Except Upset Value
  | .string s =>
    match Number.Format.double.read? (Text.trimBy Text.isBlank s.toList) with
    | some bits => .ok (.double (Float.ofBits bits.toUInt64))
    | none => .error (.trap (.notANumber s))
  | other =>
    match other.numeric? with
    | some n => .ok (.double n.toDouble)
    | none => .error (.fault (.badArgument ("Double." ++ name)))

def isTrueText : Value → Bool
  | .string s => Text.sameLetters s "true"
  | _ => false

/-- Whether a static method gives the text of its argument. -/
def isTextOf (owner name : String) (args : List Value) : Bool :=
  ["String", "Integer", "Long", "Double"].contains owner && ["valueOf", "toString"].contains name
    && args.length == 1

/-- A static method that needs nothing but its arguments. -/
def static? (w : World) (owner name : String) (args : List Value) :
    Option (Except Upset Value) :=
  match owner, name, args with
  | "Integer", "parseInt", [a] | "Integer", "valueOf", [a] => some (toInteger w name a)
  | "Long", "parseLong", [a] | "Long", "valueOf", [a] => some (toLong name a)
  | "Double", "parseDouble", [a] | "Double", "valueOf", [a] => some (toDouble name a)
  | "Boolean", "parseBoolean", [a] => some (.ok (.boolean (isTrueText a)))
  | "Math", _, _ => some (onMath name args)
  | _, _, _ => none

end JavaEdit.Builtin
