import JavaEdit.Console.Run

/-!
# The command line

The commands of the console on the files of the machine.
-/

namespace JavaEdit

/-- The files in a folder and all folders below it, in the order of their names. -/
partial def listFiles (path : String) : IO (List String) := do
  let entries ← ((← IO.currentDir) / path).readDir
  let names := (entries.toList.map fun e => e.fileName).mergeSort fun a b => decide (a ≤ b)
  let mut files := []
  for name in names do
    let inner := Path.join path name
    if ← ((← IO.currentDir) / inner).isDir then files := files ++ (← listFiles inner)
    else files := files ++ [inner]
  return files

/-- Why a file of the machine cannot be used. -/
def fileErrorOf (path : String) : IO.Error → IO FileError
  | .noFileOrDirectory .. => return .missing
  | .alreadyExists .. => return .occupied
  | _ => do return if ← ((← IO.currentDir) / path).isDir then .isFolder else .notFolder

instance : FileSystem IO where
  isFolder path := do
    if path.isEmpty then return false else ((← IO.currentDir) / path).isDir
  read path := do
    try return .ok (← IO.FS.readFile path)
    catch e => return .error (← fileErrorOf path e)
  filesBelow := listFiles
  write path text := do
    try
      let folder := Path.parent path
      if !folder.isEmpty then IO.FS.createDirAll folder
      IO.FS.writeFile path text
      return .ok ()
    catch e => return .error (← fileErrorOf path e)

end JavaEdit

/-- Answer the arguments of the command line. -/
def main (args : List String) : IO UInt32 := do
  let reply ← (JavaEdit.Console.answer args : IO JavaEdit.Console.Reply)
  IO.print reply.out
  IO.eprint reply.err
  return reply.code.toUInt32
