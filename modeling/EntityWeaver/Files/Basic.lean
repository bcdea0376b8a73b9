import EntityWeaver.Text.Blank

/-! File systems and paths.

    What reads and writes files does so through a record of six operations in some monad, each of which
    may fail with a reason. The same code then runs on the files of the machine, on a tree of files
    held as a value, or on one whose operations fail at will. Paths are texts with slashes. -/

namespace EntityWeaver

/-- The operations on files; a failed one gives a reason. -/
structure FileSystem (m : Type → Type) where
  isDirectory : String → m Bool
  /-- The names of the entries of a directory, in the order of the file system. -/
  list : String → m (Except String (List String))
  readText : String → m (Except String String)
  /-- Make a directory and those above it, where they are missing. -/
  createDirectories : String → m (Except String Unit)
  /-- Write a file, in place of one that is there. -/
  writeText : String → String → m (Except String Unit)
  /-- Move a file, in place of one that is there. -/
  rename : String → String → m (Except String Unit)

/-- The operations inside a larger monad. -/
def FileSystem.lift {m n : Type → Type} [MonadLiftT m n] (fs : FileSystem m) : FileSystem n where
  isDirectory path := fs.isDirectory path
  list path := fs.list path
  readText path := fs.readText path
  createDirectories path := fs.createDirectories path
  writeText path text := fs.writeText path text
  rename old new := fs.rename old new

namespace Path

/-- A path below a directory; one that starts with a slash stands for itself. -/
def join (directory path : String) : String :=
  if directory = "" ∨ path.toList.head? = some '/' then path
  else if directory.toList.getLast? = some '/' then directory ++ path
  else directory ++ "/" ++ path

/-- A reversed path without slashes and single points behind it; the slash of the root stays. -/
def trimEnd : List Char → List Char
  | ['/'] => ['/']
  | '/' :: rest => trimEnd rest
  | '.' :: '/' :: rest => trimEnd ('/' :: rest)
  | s => s

/-- A path without slashes and single points in front of it. -/
def trimStart : List Char → List Char
  | '/' :: rest => trimStart rest
  | '.' :: '/' :: rest => trimStart rest
  | ['.'] => []
  | s => s

/-- A path that goes through a directory as one that starts there, without what leads nowhere at its
    ends; any other stands as it is. -/
def within (directory path : String) : String :=
  if directory.toList.isPrefixOf path.toList then
    match path.toList.drop directory.length with
    | [] => ""
    | '/' :: rest => String.ofList (trimEnd (trimStart rest).reverse).reverse
    | _ => path
  else path

/-- The directory that a path lies in. -/
def parent (path : String) : String :=
  String.ofList (trimEnd ((trimEnd path.toList.reverse).dropWhile (· ≠ '/'))).reverse

/-- The last part of a path. -/
def fileName (path : String) : String :=
  String.ofList (path.toList.reverse.takeWhile (· ≠ '/')).reverse

/-- A file name without what follows its last point, and that; a point in front belongs to the name. -/
def splitExtension (name : String) : String × Option String :=
  let backwards := name.toList.reverse
  match backwards.dropWhile (· ≠ '.') with
  | '.' :: c :: stem =>
    (String.ofList (c :: stem).reverse, some (String.ofList (backwards.takeWhile (· ≠ '.')).reverse))
  | _ => (name, none)

/-- A path with another extension in place of its own. The old one is cut off behind its point; where
    that leaves two points, which are no name, nothing is put on. -/
def withExtension (path extension : String) : String :=
  let name := fileName path
  let directory := String.ofList (path.toList.take (path.length - name.length))
  match splitExtension name with
  | (".", some _) => directory ++ ".."
  | (stem, _) => directory ++ stem ++ "." ++ extension

end Path

end EntityWeaver
