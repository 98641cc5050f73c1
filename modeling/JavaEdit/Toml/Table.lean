import JavaEdit.Data.Basic

/-!
# Tables of a TOML document

A document grows by entries and headers. A key is never given twice; a header opens a table that
was at most passed on the way to another one; a key of several parts only goes through tables that
such keys made; and what was written as one value stays as it is.
-/

namespace JavaEdit.Toml

/-- A table that is being filled. -/
structure Table where
  origin : TableOrigin
  entries : List (String × Data)

/-- Give a key a value, in its old place or behind all others. -/
def put (key : String) (value : Data) : List (String × Data) → List (String × Data)
  | [] => [(key, value)]
  | (k, v) :: rest => if k == key then (k, value) :: rest else (k, v) :: put key value rest

namespace Table

def put (t : Table) (key : String) (value : Data) : Table :=
  { t with entries := Toml.put key value t.entries }

def data (t : Table) : Data := .table t.origin t.entries

/-- Change the table at the end of a path. Tables on the way that are not there yet are made with
the given origin; of a list of tables the last is meant. -/
def change (made : TableOrigin) (path : List String) (f : Table → Option Table) (t : Table) :
    Option Table :=
  match path with
  | [] => f t
  | key :: path =>
    match t.entries.lookup key with
    | none => (change made path f ⟨made, []⟩).map fun inner => t.put key inner.data
    | some (.table origin entries) =>
      if origin == .closed || (made == .dotted && origin == .opened) then none
      else (change made path f ⟨origin, entries⟩).map fun inner => t.put key inner.data
    | some (.tables items) =>
      match items.getLast? with
      | some (.table origin entries) =>
        (change made path f ⟨origin, entries⟩).map fun inner =>
          t.put key (.tables (items.dropLast ++ [inner.data]))
      | _ => none
    | some _ => none

/-- Put a value under a key of one or more parts. -/
def enter (t : Table) (key : List String) (value : Data) : Option Table :=
  match key.getLast? with
  | none => none
  | some last =>
    let path := key.dropLast
    t.change .dotted path fun inner =>
      if (inner.origin == .dotted) == path.isEmpty then none
      else
        match inner.entries.lookup last with
        | some _ => none
        | none => some (inner.put last value)

def openTable (t : Table) (key : List String) : Option Table :=
  match key.getLast? with
  | none => none
  | some last =>
    t.change .passed key.dropLast fun inner =>
      match inner.entries.lookup last with
      | none => some (inner.put last (.table .opened []))
      | some (.table .passed entries) => some (inner.put last (.table .opened entries))
      | some _ => none

/-- Open one more table of the list a header names. -/
def openItem (t : Table) (key : List String) : Option Table :=
  match key.getLast? with
  | none => none
  | some last =>
    t.change .passed key.dropLast fun inner =>
      match inner.entries.lookup last with
      | none => some (inner.put last (.tables [.table .opened []]))
      | some (.tables items) => some (inner.put last (.tables (items ++ [.table .opened []])))
      | some _ => none

end Table

end JavaEdit.Toml
