import JavaEdit.Arena.Basic

/-!
# The index of types

Declarations by qualified name, in the order of the names.
-/

namespace JavaEdit

/-- Entries sorted by name, no name twice. -/
structure TypeIndex where
  entries : List (String × NodeId)
  deriving DecidableEq, Repr

namespace TypeIndex

def empty : TypeIndex := ⟨[]⟩

def get? (index : TypeIndex) (name : String) : Option NodeId := index.entries.lookup name

def insertEntry (name : String) (id : NodeId) : List (String × NodeId) → List (String × NodeId)
  | [] => [(name, id)]
  | (key, value) :: rest =>
    if name == key then (name, id) :: rest
    else if name < key then (name, id) :: (key, value) :: rest
    else (key, value) :: insertEntry name id rest

def insert (index : TypeIndex) (name : String) (id : NodeId) : TypeIndex :=
  ⟨insertEntry name id index.entries⟩

end TypeIndex

end JavaEdit
