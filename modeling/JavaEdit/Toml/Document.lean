import JavaEdit.Toml.Quoted
import JavaEdit.Toml.Scalar
import JavaEdit.Toml.Table

/-!
# TOML documents

`Toml.read?` answers the table that a document describes, or nothing when the text is no
document: entries and headers on lines of their own, values that may nest.
-/

namespace JavaEdit.Toml

mutual

/-- A value at the front of a text, in which lists and tables nest at most `room` deep. -/
def value? : Nat → Nat → List Char → Option (Data × List Char)
  | 0, _, _ => none
  | fuel + 1, room, cs =>
    match room, cs with
    | 0, '[' :: _ | 0, '\x7b' :: _ => none
    | room + 1, '[' :: cs =>
      (items? fuel room (skipBlank cs)).map fun (items, cs) => (.list items, cs)
    | room + 1, '\x7b' :: cs =>
      (entries? fuel room ⟨.closed, []⟩ (skipBlank cs)).map fun (t, cs) => (t.data, cs)
    | _, '"' :: _ | _, '\'' :: _ => (quoted? cs).map fun (s, cs) => (.text s, cs)
    | _, cs => scalar? cs

/-- The rest of a list, up to its closing bracket; a comma may stand behind the last value. -/
def items? : Nat → Nat → List Char → Option (List Data × List Char)
  | 0, _, _ => none
  | fuel + 1, room, cs =>
    match cs with
    | ']' :: cs => some ([], cs)
    | cs => do
      let (first, cs) ← value? fuel room cs
      match skipBlank cs with
      | ',' :: cs =>
        let (rest, cs) ← items? fuel room (skipBlank cs)
        return (first :: rest, cs)
      | ']' :: cs => return ([first], cs)
      | _ => none

def entries? : Nat → Nat → Table → List Char → Option (Table × List Char)
  | 0, _, _, _ => none
  | fuel + 1, room, t, cs =>
    match cs with
    | '\x7d' :: cs => some (t, cs)
    | cs => do
      let (key, cs) ← key? cs
      match cs with
      | '=' :: cs =>
        let (value, cs) ← value? fuel room (skipSpaces cs)
        let t ← t.enter key value
        match skipBlank cs with
        | ',' :: cs => entries? fuel room t (skipBlank cs)
        | '\x7d' :: cs => return (t, cs)
        | _ => none
      | _ => none

end

structure Draft where
  root : Table
  path : List String

/-- Take one line of a document: nothing, an entry, or a header. -/
def Draft.line? (d : Draft) (cs : List Char) : Option (Draft × List Char) :=
  match skipSpaces cs with
  | [] | '#' :: _ | '\n' :: _ | '\r' :: _ => (endLine? cs).map (d, ·)
  | '[' :: '[' :: cs => do
    let (key, cs) ← key? cs
    match cs with
    | ']' :: ']' :: cs =>
      let root ← d.root.openItem key
      return (⟨root, key⟩, ← endLine? cs)
    | _ => none
  | '[' :: cs => do
    let (key, cs) ← key? cs
    match cs with
    | ']' :: cs =>
      let root ← d.root.openTable key
      return (⟨root, key⟩, ← endLine? cs)
    | _ => none
  | cs => do
    let (key, cs) ← key? cs
    match cs with
    | '=' :: cs =>
      let cs := skipSpaces cs
      let (value, cs) ← value? (cs.length + 1) nestingLimit cs
      let root ← d.root.change .passed d.path fun t => t.enter key value
      return (⟨root, d.path⟩, ← endLine? cs)
    | _ => none

def Draft.lines? : Nat → Draft → List Char → Option Draft
  | _, d, [] => some d
  | 0, _, _ :: _ => none
  | fuel + 1, d, cs => do
    let (d, cs) ← d.line? cs
    lines? fuel d cs

/-- The table a document describes. A byte order mark in front is not part of it. -/
def read? (text : String) : Option Data :=
  let cs := match text.toList with
    | mark :: cs => if mark.toNat == 0xFEFF then cs else mark :: cs
    | [] => []
  (Draft.lines? (cs.length + 1) ⟨⟨.opened, []⟩, []⟩ cs).map fun d => d.root.data

end JavaEdit.Toml
