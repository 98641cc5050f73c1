import JavaEdit.Console.Reply
import JavaEdit.Project.Sources

/-!
# Listing elements

The elements of one kind in the input units, each with its position and the first line of its
text, as lines or as JSON.
-/

namespace JavaEdit.Console

/-- An element in a listing. -/
structure Row where
  position : String
  name : Option String
  qualifiedName : Option String
  text : String
  deriving DecidableEq, Repr

/-- The first line of a text, without blanks around it. -/
def firstLine (text : String) : String := Text.trim ((Text.split '\n' text).headD "")

def row (a : Arena) (v : Variant) (id : NodeId) : Row :=
  let text := if v == .method then (a.commented id).signatureText else a.text id
  ⟨(a.position id).text, a.simpleName? id, a.qualifiedName? id, firstLine text⟩

/-- The elements of a kind, and of a name if one is given, in the input units. -/
def rows (p : Project) (v : Variant) (name : Option String) : List Row :=
  let accepts : Arena → NodeId → Bool := match name with
    | some name => Arena.isNamed v name
    | none => Arena.isVariant v
  p.inputs.flatMap fun u => (p.arena.elements u.root accepts).map (row p.arena v)

def jsonChar (c : Char) : List Char :=
  match c with
  | '"' => ['\\', '"']
  | '\\' => ['\\', '\\']
  | '\n' => ['\\', 'n']
  | '\r' => ['\\', 'r']
  | '\t' => ['\\', 't']
  | c =>
    if c.toNat == 8 then ['\\', 'b']
    else if c.toNat == 12 then ['\\', 'f']
    else if c.toNat < 32 then
      '\\' :: 'u' :: '0' :: '0' ::
        Nat.digitChar (c.toNat / 16) :: Nat.digitChar (c.toNat % 16) :: []
    else [c]

def jsonText (s : String) : String := String.ofList ('"' :: s.toList.flatMap jsonChar ++ ['"'])

def jsonOption : Option String → String
  | some s => jsonText s
  | none => "null"

def Row.json (v : Variant) (r : Row) : String :=
  let fields := [("kind", jsonText v.text), ("name", jsonOption r.name),
    ("position", jsonText r.position), ("qualified_name", jsonOption r.qualifiedName),
    ("text", jsonText r.text)]
  let lines := fields.map fun f => "    " ++ jsonText f.1 ++ ": " ++ f.2
  "  \x7b\n" ++ ",\n".intercalate lines ++ "\n  \x7d"

def jsonRows (v : Variant) (rs : List Row) : String :=
  if rs.isEmpty then "[]" else "[\n" ++ ",\n".intercalate (rs.map (Row.json v)) ++ "\n]"

/-- Rows as lines, with their number at the end. -/
def plainRows (v : Variant) (rs : List Row) : String :=
  "\n".intercalate (rs.map (fun r => r.position ++ " " ++ r.text) ++
    [toString rs.length ++ " " ++ v.text ++ " element(s)"])

def unknownKind (kind : String) : Failure :=
  let known := ", ".intercalate (Variant.all.map Variant.text)
  { message := "unknown node kind '" ++ kind ++ "' (expected one of: " ++ known ++ ")" }

end JavaEdit.Console
