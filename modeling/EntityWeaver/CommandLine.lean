import EntityWeaver.Declaration.Json
import EntityWeaver.Emission.Files
import EntityWeaver.History.Files
import EntityWeaver.Pass.Memory

/-! The command line: arguments, and what a run of the program does.

    Arguments are read from the left. An option takes its value from the same argument or the next; it
    may be given once, and stands above the environment variable of the same meaning. Everything else
    is the path of a snapshot, as is everything behind `--`. What cannot be read refuses the whole
    command line, unless help was asked for before it.

    A run loads the snapshots, joins them and runs a pass, into files or, when it is only tried, in
    memory. It fails when the pass is stopped or reports an error. -/

namespace EntityWeaver

/-- The options that take a value. -/
inductive ValueOption where
  | module | outputPackage | importPackage | revisionDir | outDir | syncComponent | rootContract
  deriving Repr, DecidableEq

namespace ValueOption

def all : List ValueOption :=
  [module, outputPackage, importPackage, revisionDir, outDir, syncComponent, rootContract]

/-- The word of an option, without the dashes. -/
def word : ValueOption → String
  | module => "module"
  | outputPackage => "output-package"
  | importPackage => "import-package"
  | revisionDir => "revision-dir"
  | outDir => "out-dir"
  | syncComponent => "sync-component"
  | rootContract => "root-contract"

/-- The environment variable of an option. -/
def environmentName : ValueOption → String
  | module => "ENT_MODULE"
  | outputPackage => "ENT_OUTPUT_PACKAGE"
  | importPackage => "ENT_IMPORT_PACKAGE"
  | revisionDir => "ENT_REVISION_DIR"
  | outDir => "ENT_OUT_DIR"
  | syncComponent => "ENT_SYNC_COMPONENT"
  | rootContract => "ENT_ROOT_CONTRACT"

/-- Whether a value can be given: a path must not be empty. -/
def accepts (o : ValueOption) (value : String) : Bool :=
  match o with
  | revisionDir | outDir => value != ""
  | _ => true

end ValueOption

/-- What the arguments say. -/
structure Arguments where
  snapshots : List String := []
  values : List (ValueOption × String) := []
  dryRun : Bool := false
  deriving Repr

/-- What reading the arguments comes to. -/
inductive Reading where
  | help
  | refused
  | arguments (a : Arguments)
  deriving Repr

namespace Arguments

/-- The arguments with one more path. -/
def addSnapshot? (a : Arguments) (path : String) : Option Arguments :=
  if path = "" then none else some { a with snapshots := a.snapshots ++ [path] }

/-- The arguments with the value of an option, unless it has one. -/
def setValue? (a : Arguments) (o : ValueOption) (value : String) : Option Arguments :=
  if (a.values.lookup o).isSome || !o.accepts value then none
  else some { a with values := (o, value) :: a.values }

/-- The arguments with the switch for a trial set, unless it is. -/
def setDryRun? (a : Arguments) : Option Arguments :=
  if a.dryRun then none else some { a with dryRun := true }

/-- Whether an argument can be the value of the option before it. -/
def isValue (argument : String) : Bool := argument = "-" || argument.toList.head? != some '-'

/-- What one argument is. -/
inductive Item where
  | help
  | dryRun
  | set (o : ValueOption) (value : String)
  | pending (o : ValueOption)
  | snapshot (path : String)
  | rest
  | unknown
  deriving Repr

/-- An argument behind two dashes: a word and the value behind an equals sign, if there is one. -/
def Item.ofWord (word : List Char) (value : Option String) : Item :=
  match String.ofList word, value with
  | "", none => .rest
  | "help", none => .help
  | "dry-run", none => .dryRun
  | word, value =>
    match ValueOption.all.find? (·.word == word), value with
    | some o, some v => .set o v
    | some o, none => .pending o
    | none, _ => .unknown

/-- What an argument is, by how it starts. -/
def Item.of (argument : String) : Item :=
  match argument.toList with
  | '-' :: '-' :: s =>
    match s.dropWhile (· ≠ '=') with
    | '=' :: value => .ofWord (s.takeWhile (· ≠ '=')) (some (String.ofList value))
    | _ => .ofWord s none
  | '-' :: 'h' :: _ => .help
  | ['-', 'o'] => .pending .outDir
  | '-' :: 'o' :: '=' :: value => .set .outDir (String.ofList value)
  | '-' :: 'o' :: value => .set .outDir (String.ofList value)
  | ['-'] => .snapshot "-"
  | '-' :: _ => .unknown
  | _ => .snapshot argument

/-- Arguments from the left, given what those before say and the option that waits for its value. -/
def read (a : Arguments) : Option ValueOption → List String → Reading
  | none, [] => .arguments a
  | some _, [] => .refused
  | some o, value :: rest =>
    if isValue value then
      match a.setValue? o value with
      | some a => read a none rest
      | none => .refused
    else .refused
  | none, argument :: rest =>
    let proceed (next : Option Arguments) : Reading :=
      match next with
      | some a => read a none rest
      | none => .refused
    match Item.of argument with
    | .help => .help
    | .dryRun => proceed a.setDryRun?
    | .set o value => proceed (a.setValue? o value)
    | .pending o => read a (some o) rest
    | .snapshot path => proceed (a.addSnapshot? path)
    | .rest =>
      match rest.foldlM addSnapshot? a with
      | some a => .arguments a
      | none => .refused
    | .unknown => .refused

end Arguments

/-- What a run of the program is asked to do. -/
structure RunRequest where
  snapshots : List String
  settings : Settings
  outDir : String
  dryRun : Bool
  deriving Repr

/-- The command line as a whole: help, a refusal, or a run. -/
inductive Command where
  | help
  | refused
  | run (r : RunRequest)
  deriving Repr

namespace Command

/-- The value of an option from the arguments, or else from the environment. -/
def valueOf? (a : Arguments) (environment : List (String × String)) (o : ValueOption) :
    Option String :=
  (a.values.lookup o).or (environment.lookup o.environmentName)

/-- The run that arguments ask for, if nothing is missing. -/
def request? (a : Arguments) (environment : List (String × String)) : Option RunRequest := do
  let value := valueOf? a environment
  if a.snapshots = [] ∨ ValueOption.all.any (fun o => (value o).any (!o.accepts ·)) then none
  let moduleName ← value .module
  let outputPackage ← value .outputPackage
  let importPackage ← value .importPackage
  let usual : Settings := {
    moduleName, outputPackage, importPackage
    revisionDir := (value .revisionDir).getD "revisions" }
  return {
    snapshots := a.snapshots
    settings := { usual with
      syncComponent := (value .syncComponent).getD usual.syncComponent
      rootContract := (value .rootContract).getD usual.rootContract }
    outDir := (value .outDir).getD "generated"
    dryRun := a.dryRun }

/-- The command that arguments give in an environment. -/
def of (arguments : List String) (environment : List (String × String)) : Command :=
  match Arguments.read {} none arguments with
  | .help => .help
  | .refused => .refused
  | .arguments a => (request? a environment).elim .refused .run

end Command

/-- Why a run fails. -/
inductive RunError where
  | unloadable (path : String)
  | pass (e : PassError)
  deriving Repr, DecidableEq

def RunError.message : RunError → String
  | .unloadable path => "failed to load declarations from " ++ path
  | .pass e => e.message

/-- Whether a character steers a terminal instead of being shown on it. -/
def steersTerminal (c : Char) : Bool :=
  c == '\x07' || c == '\x08' || c == '\x0c' || c == '\x1b' || (0x7f ≤ c.toNat && c.toNat ≤ 0x9f)

/-- A steering character by its number. -/
def spelledOut (c : Char) : String :=
  let number := String.ofList (Nat.toDigits 16 c.toNat)
  if c.toNat < 0x10 then "\\x0" ++ number
  else if c.toNat < 0x80 then "\\x" ++ number
  else "\\u\x7b" ++ number ++ "\x7d"

/-- A message as logged, with steering characters spelled out. -/
def logText (message : String) : String :=
  String.join (message.toList.map fun c => if steersTerminal c then spelledOut c else c.toString)

/-- What a run of the program shows: how it ended, and the errors reported on the way. -/
structure RunReport where
  ended : Except RunError Unit
  log : List String

namespace RunRequest

variable {m : Type → Type} [Monad m]

/-- The snapshots in files, joined to one in order. -/
def load (fs : FileSystem m) (joined : Snapshot) : List String → m (Except RunError Snapshot)
  | [] => return .ok joined
  | path :: rest => do
    match (← fs.readText path).toOption.bind Snapshot.ofText? with
    | none => return .error (.unloadable path)
    | some s => load fs (joined.extend s) rest

/-- The pass of a run, into files or in memory. -/
def compose (r : RunRequest) (fs : FileSystem m) (s : Snapshot) : m (Except PassError Outcome) :=
  if r.dryRun then return (Pass.runInMemory r.settings s .empty).1
  else do
    let inside : FileSystem (StateT TakenNames m) := fs.lift
    let pass := Pass.run (.inFiles inside r.outDir) (.inFiles inside r.settings.revisionDir) r.settings s
    return (← pass.run {}).1

/-- Run the program on files. -/
def run (r : RunRequest) (fs : FileSystem m) : m RunReport := do
  match ← load fs {} r.snapshots with
  | .error e => return ⟨.error e, []⟩
  | .ok s =>
    match ← r.compose fs s with
    | .error e => return ⟨.error (.pass e), []⟩
    | .ok outcome =>
      let log := (outcome.diagnostics.filter (·.isError)).map fun d => logText d.text
      match outcome.result with
      | .error e => return ⟨.error (.pass e), log⟩
      | .ok _ => return ⟨.ok (), log⟩

end RunRequest

namespace RunReport

/-- The code that the program exits with. -/
def exitCode (r : RunReport) : Nat :=
  match r.ended with
  | .ok () => 0
  | .error (.pass .unevenMargin) => 101
  | .error _ => 1

end RunReport

end EntityWeaver
