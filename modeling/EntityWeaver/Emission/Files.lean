import EntityWeaver.Emission.Basic
import EntityWeaver.Files.Basic

/-! Emission into files.

    A unit goes into the directory of its package below the root. Its text is written beside the file
    first and then moved over it, so that a reader never sees half of a file. A name counts as taken
    from the moment its unit is offered. -/

namespace EntityWeaver

/-- The qualified names offered so far. -/
structure TakenNames where
  names : List String := []
  deriving Repr, DecidableEq

namespace UnitSink

variable {m : Type → Type} [Monad m]

/-- Write a text to a file by way of another beside it. -/
def replaceFile (fs : FileSystem m) (path text : String) : m (Except EmitError Unit) := do
  let directory := Path.parent path
  match ← fs.createDirectories directory with
  | .error reason => return .error (.io directory reason)
  | .ok () =>
    let aside := Path.withExtension path "java.tmp"
    match ← fs.writeText aside text with
    | .error reason => return .error (.io aside reason)
    | .ok () =>
      match ← fs.rename aside path with
      | .error reason => return .error (.io path reason)
      | .ok () => return .ok ()

/-- The file of a unit, below the root of the output. -/
def relativePath (u : SourceUnit) : String :=
  Path.join (u.directories.foldl Path.join "") u.fileName

/-- The sink that writes one file for each unit below a root. -/
def inFiles [MonadStateOf TakenNames m] (fs : FileSystem m) (root : String) : UnitSink m where
  emit u := do
    let taken ← get
    if u.qualifiedName ∈ taken.names then return .error (.duplicate u.qualifiedName)
    set { taken with names := u.qualifiedName :: taken.names }
    replaceFile fs (Path.join root (relativePath u)) u.source

end UnitSink

end EntityWeaver
