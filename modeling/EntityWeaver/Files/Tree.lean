import EntityWeaver.Files.Basic
import EntityWeaver.OrderedMap

/-! A tree of files as a value.

    The tree lists everything below its root by its names from the root down: directories, and files
    with their text, the newest last. The root itself is always there. A path is walked part by part, from the root if
    it starts with a slash and else from the directory that work is done in: an empty part and a
    single point stay, a double point leads back up, a name leads down, and every part starts from a
    directory. An operation is a function on trees and refuses what a machine's file system would: to
    walk through a file, to read a directory, to write where there is no directory, to use a name or a
    path that is too long.

    Making a directory with those above it starts at the path itself and goes up only past what is
    missing. What stands above a path is read off its parts alone: `a/./b` lies in `a`, and so does
    `a/b/.`, which can therefore not be made before `a/b` is there. -/

namespace EntityWeaver

/-- Why an operation on files is refused. -/
inductive FileError where
  | missing
  | notDirectory
  | isDirectory
  | occupied
  | invalidName
  deriving Repr, DecidableEq

def FileError.reason : FileError → String
  | .missing => "no such file or directory"
  | .notDirectory => "not a directory"
  | .isDirectory => "is a directory"
  | .occupied => "file exists"
  | .invalidName => "invalid name"

/-- What stands at a place of the tree. -/
inductive FileEntry where
  | directory
  | file (text : String)
  deriving Repr, DecidableEq

/-- A tree of files, with the directory in it that work is done in. -/
structure FileTree where
  /-- Everything below the root, by the names that lead there, in the order it came. -/
  entries : OrderedMap (List String) FileEntry := .empty
  /-- Where a path starts, unless it starts with a slash. -/
  home : List String := []

namespace FileTree

/-- What stands at a place. -/
def entry? (t : FileTree) (place : List String) : Option FileEntry :=
  if place = [] then some .directory else t.entries.get? place

/-- The tree with an entry at a place, in place of one that is there. -/
def insert (t : FileTree) (place : List String) (e : FileEntry) : FileTree :=
  { t with entries := t.entries.put place e }

def isDirectory (t : FileTree) (place : List String) : Bool := t.entry? place == some .directory

/-- A name that a file system takes has at most 255 bytes. -/
def isValidName (name : String) : Bool := name.utf8ByteSize ≤ 255

/-- A path that a file system takes has no null character and at most 4095 bytes. -/
def isValidPath (path : String) : Bool := !path.toList.contains '\x00' && path.utf8ByteSize ≤ 4095

/-- The place that a part of a path leads to from a directory. -/
def step (place : List String) (part : String) : List String :=
  if part = "" ∨ part = "." then place
  else if part = ".." then place.dropLast
  else if part = "/" then []
  else place ++ [part]

/-- The parts of a path, between its slashes; a slash in front is a part that leads to the root. -/
def parts (path : String) : List String :=
  match (path.toList.splitOn '/').map String.ofList with
  | "" :: part :: rest => "/" :: part :: rest
  | parts => parts

/-- A place, if it is a directory. -/
def enter (t : FileTree) (place : List String) : Except FileError (List String) :=
  match t.entry? place with
  | some .directory => .ok place
  | some (.file _) => .error .notDirectory
  | none => .error (if place.getLast?.all isValidName then .missing else .invalidName)

/-- The place that parts of a path lead to, if each of them starts from a directory. -/
def walk (t : FileTree) (parts : List String) : Except FileError (List String) :=
  parts.foldlM (fun place part => (t.enter place).map (step · part)) t.home

/-- The place that a path leads to; one without characters leads nowhere. -/
def find (t : FileTree) (path : String) : Except FileError (List String) :=
  if path = "" then .error .missing
  else if isValidPath path then t.walk (parts path)
  else .error .invalidName

/-- Whether a path leads to a directory. -/
def leadsToDirectory (t : FileTree) (path : String) : Bool :=
  match t.find path with
  | .ok place => t.isDirectory place
  | .error _ => false

/-- The names of the entries of a directory, the newest first. -/
def list (t : FileTree) (path : String) : Except FileError (List String) := do
  let place ← t.enter (← t.find path)
  return (t.entries.keys.filterMap fun p => if p.dropLast = place then p.getLast? else none).reverse

/-- The text of a file. -/
def readText (t : FileTree) (path : String) : Except FileError String := do
  match t.entry? (← t.find path) with
  | some (.file text) => .ok text
  | some .directory => .error .isDirectory
  | none => .error .missing

/-- The tree with one directory more, where parts lead that are given from the last to the first. -/
def makeDirectory (t : FileTree) (backwards : List String) : Except FileError FileTree :=
  match backwards.dropWhile (· = "") with
  | [] => .error .occupied
  | part :: above => do
    let place := step (← t.enter (← t.walk above.reverse)) part
    if part = "." ∨ part = ".." ∨ (t.entry? place).isSome then .error .occupied
    else if isValidName part then .ok (t.insert place .directory)
    else .error .invalidName

/-- The tree with a directory, which is made unless it is there. -/
def ensureDirectory (t : FileTree) (backwards : List String) : Except FileError FileTree :=
  match t.makeDirectory backwards with
  | .ok t => .ok t
  | .error e =>
    match t.walk backwards.reverse with
    | .ok place => if t.isDirectory place then .ok t else .error e
    | .error _ => .error e

/-- The tree with a directory, and whether it could be made; where something above it is missing, that
    is made first. -/
def ensureBelow (above : FileTree → Except FileError Unit × FileTree) (t : FileTree)
    (backwards : List String) : Except FileError Unit × FileTree :=
  match t.ensureDirectory backwards with
  | .ok t => (.ok (), t)
  | .error .missing =>
    match above t with
    | (.ok (), t) =>
      match t.ensureDirectory backwards with
      | .ok t => (.ok (), t)
      | .error e => (.error e, t)
    | failed => failed
  | .error e => (.error e, t)

/-- Whether a part leads nowhere. -/
def isIdle (part : String) : Bool := part = "" || part = "."

/-- The tree with the directory to which parts lead, without idle ones at the end, and with those above
    it, as far as they can be made. -/
def createAlong : List String → FileTree → Except FileError Unit × FileTree
  | [], t => (.ok (), t)
  | part :: above, t =>
    if isIdle part then createAlong above t
    else t.ensureBelow (createAlong above) (part :: above)

/-- The tree with a directory and those above it, as far as they can be made. -/
def createDirectories (t : FileTree) (path : String) : Except FileError Unit × FileTree :=
  if isValidPath path then
    let backwards := (parts path).reverse
    t.ensureBelow (createAlong (backwards.dropWhile isIdle).tail) backwards
  else (.error .invalidName, t)

/-- The place where a path can put a file. -/
def filePlace (t : FileTree) (path : String) : Except FileError (List String) := do
  let place ← t.find path
  if !(place.getLast?.any isValidName) then .error .invalidName
  else if t.isDirectory place then .error .isDirectory
  else (t.enter place.dropLast).map fun _ => place

/-- The tree with a file written. -/
def writeText (t : FileTree) (path text : String) : Except FileError FileTree :=
  (t.filePlace path).map fun place => t.insert place (.file text)

/-- The tree without the entry at a place. -/
def erase (t : FileTree) (place : List String) : FileTree :=
  { t with entries := t.entries.erase place }

/-- The tree with a file moved, where it is the newest. -/
def rename (t : FileTree) (old new : String) : Except FileError FileTree := do
  let text ← t.readText old
  let place ← t.filePlace new
  return ((t.erase (← t.find old)).erase place).insert place (.file text)

/-- The tree with an entry put at a path, and the directories on the way to it; unchanged where it
    cannot be. -/
def put (t : FileTree) (path : String) : FileEntry → FileTree
  | .directory => (t.createDirectories path).2
  | .file text =>
    let t := (t.createDirectories (Path.parent path)).2
    (t.writeText path text).toOption.getD t

/-- The tree with the entries at these paths put one after the other. -/
def putAll (t : FileTree) (entries : List (String × FileEntry)) : FileTree :=
  entries.foldl (fun t e => t.put e.1 e.2) t

/-- The tree of the entries at these paths. -/
def ofList (entries : List (String × FileEntry)) : FileTree := putAll {} entries

/-- The tree with work done in the directory at a path, which is made if it is missing; unchanged where
    it cannot be. -/
def workingIn (t : FileTree) (path : String) : FileTree :=
  let t := t.put path .directory
  { t with home := (t.find path).toOption.getD t.home }

/-- The entries below the directory that work is done in, with their paths from there. -/
def toList (t : FileTree) : List (String × FileEntry) :=
  (t.entries.entries.filter fun e => t.home.isPrefixOf e.1 && e.1 != t.home).map fun e =>
    ("/".intercalate (e.1.drop t.home.length), e.2)

/-- Give a computation the tree that an operation leaves, if it succeeds. -/
def commit {m : Type → Type} [Monad m] [MonadStateOf FileTree m]
    (operation : FileTree → Except FileError FileTree) : m (Except String Unit) := do
  match operation (← get) with
  | .ok t =>
    set t
    return .ok ()
  | .error e => return .error e.reason

/-- The file system that a computation keeps as a part of its state. -/
def system {m : Type → Type} [Monad m] [MonadStateOf FileTree m] : FileSystem m where
  isDirectory path := do return (← get).leadsToDirectory path
  list path := do return ((← get).list path).mapError FileError.reason
  readText path := do return ((← get).readText path).mapError FileError.reason
  createDirectories path := do
    let (outcome, t) := (← get).createDirectories path
    set t
    return outcome.mapError FileError.reason
  writeText path text := commit fun t => t.writeText path text
  rename old new := commit fun t => t.rename old new

end FileTree

end EntityWeaver
