import JavaEdit.Files.Path

/-!
# Files

What programs need of files: to tell folders from files, to read, to list and to write. A
`FileStore` holds files in memory; other places for files provide the same operations.
-/

namespace JavaEdit

inductive FileError where
  | missing
  /-- A file stands where a folder is needed on the way. -/
  | notFolder
  | isFolder
  /-- A file stands where a folder is to be made. -/
  | occupied
  deriving DecidableEq, Repr

/-- What is said of a file that cannot be used. -/
def FileError.message : FileError → String
  | missing => "No such file or directory (os error 2)"
  | notFolder => "Not a directory (os error 20)"
  | isFolder => "Is a directory (os error 21)"
  | occupied => "File exists (os error 17)"

/-- A place where files are kept. -/
class FileSystem (m : Type → Type) where
  isFolder : String → m Bool
  read : String → m (Except FileError String)
  /-- The files in a folder and all folders below it, in the order of their names. -/
  filesBelow : String → m (List String)
  write : String → String → m (Except FileError Unit)

/-- Files in memory, each by the names on the way to it. -/
structure FileStore where
  files : List (List String × String)
  deriving DecidableEq, Repr

namespace FileStore

def empty : FileStore := ⟨[]⟩

def text? (s : FileStore) (place : List String) : Option String := s.files.lookup place

/-- Whether a place is a folder: the top, or what a file stands in. -/
def hasFolder (s : FileStore) (place : List String) : Bool :=
  place.isEmpty || s.files.any fun f => place.isPrefixOf f.1 && place.length < f.1.length

def enter (place : List String) (part : String) : List String :=
  if part.isEmpty || part == "." then place
  else if part == ".." then place.dropLast
  else place ++ [part]

/-- Follow the parts of a path through folders. -/
def follow (s : FileStore) (place : List String) : List String → Except FileError (List String)
  | [] => .ok place
  | part :: rest =>
    if s.hasFolder place then follow s (enter place part) rest
    else if (s.text? place).isSome then .error .notFolder
    else .error .missing

/-- The place a path leads to; places outside of the store are not there. -/
def resolve (s : FileStore) (path : String) : Except FileError (List String) :=
  if path.isEmpty || path.toList.head? == some '/' then .error .missing
  else s.follow [] (Text.split '/' path)

def isFolder (s : FileStore) (path : String) : Bool :=
  match s.resolve path with
  | .ok place => s.hasFolder place
  | .error _ => false

def read (s : FileStore) (path : String) : Except FileError String := do
  let place ← s.resolve path
  match s.text? place with
  | some text => .ok text
  | none => .error (if s.hasFolder place then .isFolder else .missing)

/-- The order of files in a listing: by the name of the first folder in which they differ. -/
def listedBefore : List String → List String → Bool
  | [], _ => true
  | _ :: _, [] => false
  | a :: as, b :: bs => if a == b then listedBefore as bs else a < b

/-- The files below a folder, by their way from it. -/
def below (s : FileStore) (place : List String) : List (List String) :=
  let inside := s.files.filter fun f => place.isPrefixOf f.1 && place.length < f.1.length
  (inside.map fun f => f.1.drop place.length).mergeSort listedBefore

def filesBelow (s : FileStore) (path : String) : List String :=
  match s.resolve path with
  | .ok place => (s.below place).map fun parts => parts.foldl Path.join path
  | .error _ => []

/-- Follow the parts of a path through folders, which are made where they are missing. The last
part leads to a folder, too. -/
def makeWay (s : FileStore) (place : List String) : List String → Except FileError (List String)
  | [] => if (s.text? place).isSome then .error .occupied else .ok place
  | part :: rest =>
    if (s.text? place).isSome then .error .notFolder else makeWay s (enter place part) rest

def setFile (place : List String) (text : String) :
    List (List String × String) → List (List String × String)
  | [] => [(place, text)]
  | (p, t) :: rest => if p == place then (p, text) :: rest else (p, t) :: setFile place text rest

def put (s : FileStore) (place : List String) (text : String) : FileStore :=
  ⟨setFile place text s.files⟩

def write (s : FileStore) (path text : String) : Except FileError FileStore := do
  let parts := Text.split '/' path
  let folder ← s.makeWay [] parts.dropLast
  let place := enter folder (parts.getLastD "")
  if s.hasFolder place then .error .isFolder else .ok (s.put place text)

end FileStore

instance : FileSystem (StateM FileStore) where
  isFolder path := do return (← get).isFolder path
  read path := do return (← get).read path
  filesBelow path := do return (← get).filesBelow path
  write path text := do
    match (← get).write path text with
    | .ok s => set s; return .ok ()
    | .error e => return .error e

end JavaEdit
