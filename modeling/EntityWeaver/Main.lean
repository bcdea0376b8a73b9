import EntityWeaver.CommandLine

/-! The program: the command line on the files of the machine. -/

namespace EntityWeaver

/-- An operation of the machine with its failure as a reason. -/
def attempt {α : Type} (action : IO α) : IO (Except String α) := do
  try
    return .ok (← action)
  catch e =>
    return .error (toString e)

/-- The file system of the machine. -/
def machineFiles : FileSystem IO where
  isDirectory path := do
    match ← attempt (do (← IO.FS.realPath path).isDir) with
    | .ok b => return b
    | .error _ => return false
  list path := attempt do
    let entries ← (← IO.FS.realPath path).readDir
    return (entries.map (·.fileName)).toList
  readText path := attempt (IO.FS.readFile path)
  createDirectories path := attempt do
    if path != "" then IO.FS.createDirAll path
  writeText path text := attempt (IO.FS.writeFile path text)
  rename old new := attempt (IO.FS.rename old new)

/-- What the program says when it is asked for help or cannot read its arguments. -/
def usage : String :=
  "usage: entity-weaver [options] SNAPSHOT...\n\n" ++
  "  --module NAME           goes in front of the names of bound content\n" ++
  "  --output-package NAME   package of every generated type\n" ++
  "  --import-package NAME   package of the contracts of imported components\n" ++
  "  --revision-dir PATH     where histories of layouts are kept (revisions)\n" ++
  "  -o, --out-dir PATH      root directory of generated sources (generated)\n" ++
  "  --sync-component NAME   component that makes an entity synchronized\n" ++
  "  --root-contract NAME    contract that every registered type has\n" ++
  "  --dry-run               write neither sources nor histories\n"

/-- The environment variables that options can come from. -/
def environment : IO (List (String × String)) :=
  ValueOption.all.filterMapM fun o => do
    return (← IO.getEnv o.environmentName).map (o.environmentName, ·)

end EntityWeaver

open EntityWeaver in
/-- Read the command line, run, and report. -/
def main (arguments : List String) : IO UInt32 := do
  match Command.of arguments (← environment) with
  | .help =>
    IO.print usage
    return 0
  | .refused =>
    IO.eprint usage
    return 2
  | .run request =>
    let report ← request.run machineFiles
    for message in report.log do IO.println ("ERROR " ++ message)
    if let .error e := report.ended then IO.eprintln ("Error: " ++ e.message)
    return report.exitCode.toUInt32
