import JavaEdit.Source.Escape
import JavaEdit.Toml.Scan

/-!
# Texts and keys of a TOML document

Texts stand between double quotes, where a backslash starts an escape, or between single quotes,
where it does not; three quotes let a text run over several lines.
-/

namespace JavaEdit.Toml

/-- The character with a code given by a fixed number of hexadecimal digits. -/
def hexEscape (count : Nat) (cs : List Char) : Option (Char × List Char) :=
  let digits := cs.take count
  if digits.length < count then none
  else do
    let code ← digitsValue? 16 digits
    let c ← charOfCode? code
    return (c, cs.drop count)

/-- What an escape denotes, read behind its backslash. -/
def escape? : List Char → Option (Char × List Char)
  | 'b' :: cs => some (Char.ofNat 8, cs)
  | 't' :: cs => some ('\t', cs)
  | 'n' :: cs => some ('\n', cs)
  | 'f' :: cs => some (Char.ofNat 12, cs)
  | 'r' :: cs => some ('\r', cs)
  | 'e' :: cs => some (Char.ofNat 27, cs)
  | '"' :: cs => some ('"', cs)
  | '\\' :: cs => some ('\\', cs)
  | 'x' :: cs => hexEscape 2 cs
  | 'u' :: cs => hexEscape 4 cs
  | 'U' :: cs => hexEscape 8 cs
  | _ => none

/-- The rest of a text of one line, read behind its double quote. -/
def basicRest : Nat → List Char → Option (List Char × List Char)
  | 0, _ => none
  | fuel + 1, cs =>
    match cs with
    | [] => none
    | '"' :: cs => some ([], cs)
    | '\\' :: cs => do
      let (c, cs) ← escape? cs
      let (rest, cs) ← basicRest fuel cs
      return (c :: rest, cs)
    | c :: cs =>
      if isPlain c then (basicRest fuel cs).map fun (rest, cs) => (c :: rest, cs) else none

/-- The rest of a text of one line, read behind its single quote. -/
def literalRest (cs : List Char) : Option (List Char × List Char) :=
  match cs.dropWhile fun c => c != '\'' && isPlain c with
  | '\'' :: rest => some (cs.takeWhile fun c => c != '\'' && isPlain c, rest)
  | _ => none

/-- Three quotes or more: up to two of them belong to the text in front of the last three. -/
def closing? (quote : Char) (cs : List Char) : Option (List Char × List Char) :=
  let count := min 5 (cs.takeWhile (· == quote)).length
  if count < 3 then none else some (List.replicate (count - 3) quote, cs.drop count)

/-- Behind a backslash at the end of a line: all blank space up to the next text. -/
def joinLines? (cs : List Char) : Option (List Char) :=
  match newline? (skipSpaces cs) with
  | none => none
  | some cs => some (cs.dropWhile fun c => isSpace c || c == '\n' || c == '\r')

/-- The rest of a text of several lines, read behind its opening quotes. -/
def linesRest (quote : Char) : Nat → List Char → Option (List Char × List Char)
  | 0, _ => none
  | fuel + 1, cs =>
    match closing? quote cs with
    | some taken => some taken
    | none =>
      match cs with
      | [] => none
      | '\r' :: '\n' :: cs =>
        (linesRest quote fuel cs).map fun (rest, cs) => ('\r' :: '\n' :: rest, cs)
      | c :: cs =>
        if c == '\\' && quote == '"' then
          match joinLines? cs with
          | some cs => linesRest quote fuel cs
          | none => do
            let (c, cs) ← escape? cs
            let (rest, cs) ← linesRest quote fuel cs
            return (c :: rest, cs)
        else if c == '\n' || isPlain c then
          (linesRest quote fuel cs).map fun (rest, cs) => (c :: rest, cs)
        else none

/-- A text of several lines; an end of line right behind the opening quotes is not part of it. -/
def multiline (quote : Char) (cs : List Char) : Option (List Char × List Char) :=
  linesRest quote (cs.length + 1) ((newline? cs).getD cs)

def oneLine? : List Char → Option (String × List Char)
  | '"' :: cs => (basicRest (cs.length + 1) cs).map fun (s, cs) => (String.ofList s, cs)
  | '\'' :: cs => (literalRest cs).map fun (s, cs) => (String.ofList s, cs)
  | _ => none

def quoted? (cs : List Char) : Option (String × List Char) :=
  match cs with
  | '"' :: '"' :: '"' :: cs => (multiline '"' cs).map fun (s, cs) => (String.ofList s, cs)
  | '\'' :: '\'' :: '\'' :: cs => (multiline '\'' cs).map fun (s, cs) => (String.ofList s, cs)
  | cs => oneLine? cs

def keyPart? (cs : List Char) : Option (String × List Char) :=
  match cs.takeWhile isBare with
  | [] => oneLine? cs
  | name => some (String.ofList name, cs.dropWhile isBare)

/-- The parts of a key, at most so many, with points between them, and what follows the key and
its spaces. -/
def keyParts? : Nat → List Char → Option (List String × List Char)
  | 0, _ => none
  | count + 1, cs => do
    let (part, cs) ← keyPart? (skipSpaces cs)
    match skipSpaces cs with
    | '.' :: cs =>
      let (rest, cs) ← keyParts? count cs
      return (part :: rest, cs)
    | cs => return ([part], cs)

def key? (cs : List Char) : Option (List String × List Char) := keyParts? nestingLimit cs

end JavaEdit.Toml
