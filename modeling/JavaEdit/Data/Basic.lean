/-!
# Plain data

What a document says, whatever notation it is written in: truth values, numbers, texts, lists and
tables with named entries. `Data.fields?` is how a record is read from it.
-/

namespace JavaEdit

/-- How a table came to be, which decides what may still be put into it. -/
inductive TableOrigin where
  /-- Named on the way to another table. -/
  | passed
  | opened
  /-- Named by the front parts of a key. -/
  | dotted
  /-- Written as one value, between braces. -/
  | closed
  deriving DecidableEq, Repr

/-- What a document says. -/
inductive Data where
  | null
  | boolean (value : Bool)
  | integer (value : Int)
  | float (bits : Nat)
  | text (value : String)
  /-- A date, a time or both. As a record it has none of the fields one could ask for. -/
  | moment
  | list (items : List Data)
  | tables (items : List Data)
  | table (origin : TableOrigin) (entries : List (String × Data))
  deriving Inhabited, Repr

namespace Data

def texts? : List Data → Option (List String)
  | [] => some []
  | text s :: rest => (texts? rest).map (s :: ·)
  | _ :: _ => none

def items? : Data → Option (List Data)
  | list items | tables items => some items
  | _ => none

/-- The values of a record's fields: by name from a table, by place from a list. A list may be
shorter than the record, and with `surplus` also longer. -/
def fields? (surplus : Bool) (names : List String) : Data → Option (List (Option Data))
  | table _ entries => some (names.map fun name => entries.lookup name)
  | moment => some (names.map fun _ => none)
  | list items | tables items =>
    if surplus || items.length ≤ names.length then
      some ((List.range names.length).map fun i => items[i]?)
    else none
  | _ => none

def text? : Option Data → Option String
  | some (text s) => some s
  | _ => none

def boolean? : Data → Option Bool
  | boolean b => some b
  | _ => none

def optionalText? : Option Data → Option (Option String)
  | none | some null => some none
  | some (text s) => some (some s)
  | some _ => none

/-- A value that has a default when it is missing. -/
def getD {α : Type} (default : α) (read? : Data → Option α) : Option Data → Option α
  | none => some default
  | some d => read? d

def readList? {α : Type} (read? : Data → Option α) (d : Data) : Option (List α) :=
  d.items?.bind fun items => items.mapM read?

end Data

end JavaEdit
