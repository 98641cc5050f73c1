import JavaEdit.Text.Split

/-!
# Paths

Paths are texts with slashes between their parts. An absolute part starts over.
-/

namespace JavaEdit.Path

def join (base part : String) : String :=
  if part.toList.head? == some '/' then part
  else if base.isEmpty || base.toList.getLast? == some '/' then base ++ part
  else base ++ "/" ++ part

/-- The parts of a path; empty parts and single points do not count, but for a point in front. -/
def parts (path : String) : List String :=
  match Text.split '/' path with
  | [] => []
  | first :: rest =>
    [first].filter (fun p => !p.isEmpty) ++ rest.filter fun p => !p.isEmpty && p != "."

/-- The last part, if it names something. -/
def fileName? (path : String) : Option String :=
  match (parts path).getLast? with
  | some last => if last == "." || last == ".." then none else some last
  | none => none

/-- The folder that the last part of a path stands in; empty when there is but one part. -/
def parent (path : String) : String :=
  let front := path.toList.reverse.dropWhile (· != '/')
  match front.dropWhile (· == '/') with
  | [] => if front.isEmpty then "" else "/"
  | folder => String.ofList folder.reverse

/-- A file name split at its last point. A point in front of all else does not count. -/
def splitName (name : String) : String × Option String :=
  let cs := name.toList.reverse
  match cs.dropWhile (· != '.') with
  | [] | [_] => (name, none)
  | _ :: stem => (String.ofList stem.reverse, some (String.ofList (cs.takeWhile (· != '.')).reverse))

/-- The file name without what stands behind its last point. -/
def fileStem? (path : String) : Option String := (fileName? path).map fun n => (splitName n).1

/-- What stands behind the last point of the file name. -/
def extension? (path : String) : Option String := (fileName? path).bind fun n => (splitName n).2

end JavaEdit.Path
