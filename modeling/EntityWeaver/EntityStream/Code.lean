import EntityWeaver.EntityStream.Basic

/-! Stream code: the statements that save, load and synchronize an entity.

    Nine methods carry such code, and only where a component declares them. The stream is the first
    parameter of the method as declared.

        write, read                        saved data: the revision number, then the serialized fields
        writeSync, readSync                network data: the serialized fields that are synchronized
        writeSyncManual, readSyncManual    the interpolated fields alone
        interpolate, snapSync,             moving the interpolated fields between two updates
        snapInterpolation

    Reading saved data branches on the revision number, and refuses one that is not on record. -/

namespace EntityWeaver

/-- Statements for a method, and the imports they need. -/
structure InjectedCode where
  code : CodeBlock
  imports : List String := []
  deriving Repr, DecidableEq

/-- The expression that writes a value. -/
def ValueWrite.text (stream : String) (w : ValueWrite) : String :=
  match w.codec with
  | .primitive p => stream ++ "." ++ p.streamMethod ++ "(this." ++ w.field ++ ")"
  | .handler h => h ++ "(" ++ stream ++ ", this." ++ w.field ++ ")"

/-- The expression that reads a value. A handler that changes an instance gets the present one, or
    none if the value is dropped. -/
def ValueRead.text (stream : String) (r : ValueRead) : String :=
  (r.target.elim "" (· ++ " = ")) ++ match r.codec with
  | .primitive p => stream ++ "." ++ p.streamMethod ++ "()"
  | .handler h => h ++ "(" ++ stream ++ ")"
  | .mutator h => h ++ "(" ++ stream ++ ", " ++ r.target.getD "null" ++ ")"

namespace SyncStep

/-- The expression that keeps the present value of a field as the one to move from. -/
def keepLastText (field : String) : String := "this." ++ lastShadow field ++ " = this." ++ field

/-- The expression of a step. -/
def text (stream : String) : SyncStep → String
  | .keepLast field => keepLastText field
  | .take value => value.text stream
  | .keepTarget field => "this." ++ targetShadow field ++ " = this." ++ field

end SyncStep

/-- The code with the reading of a field behind it. -/
def SyncRead.addTo (stream : String) (code : CodeBlock) (r : SyncRead) : CodeBlock :=
  let texts (isLocal : Bool) : List String := (r.steps isLocal).map (SyncStep.text stream)
  if r.owned.isNone then code.statements (texts false)
  else ((((code.begin "if(!islocal)").statements (texts false)).next "else").statements
    (texts true)).finish

namespace EntityStream

def timeImport : String := "arc.util.Time"

def mathImport : String := "arc.math.Mathf"

/-- The spacing of updates, in milliseconds, that is taken for granted after a snap. -/
def snapSpacing : String := "16"

/-- `write`: the newest version and the serialized fields. -/
def write (s : EntityStream) (stream : String) (history : List Revision) :
    Except AuthoringError CodeBlock := do
  let version := (history.getLast?.map (·.version)).getD 0
  let values ← s.saved
  return CodeBlock.empty.statements
    ((stream ++ ".s(" ++ Text.digits version.toNat ++ ")") :: values.map (·.text stream))

/-- The condition of a revision's branch. -/
def branchHeader (version : UInt16) : String := "if(REV == " ++ Text.digits version.toNat ++ ")"

/-- The statement that refuses an unknown revision. -/
def refusal (s : EntityStream) : String :=
  "throw new IllegalArgumentException(\"Unknown revision '\" + REV + \"' for entity type '" ++
    s.entity ++ "'\")"

/-- The code with the choice between revisions behind it. -/
def choose (s : EntityStream) (stream : String) (code : CodeBlock) : List RevisionRead → CodeBlock
  | [] => code.statement s.refusal
  | first :: rest =>
    let values (r : RevisionRead) : List String := r.values.map (·.text stream)
    let code := (code.begin (branchHeader first.version)).statements (values first)
    let code := rest.foldl (fun code r =>
      (code.next ("else " ++ branchHeader r.version)).statements (values r)) code
    ((code.next "else").statement s.refusal).finish

/-- `read`: the revision number and a branch for each revision. -/
def read (s : EntityStream) (stream : String) (history : List Revision) :
    Except AuthoringError CodeBlock := do
  return s.choose stream (CodeBlock.empty.statement ("short REV = " ++ stream ++ ".s()"))
    (← s.loaded history)

/-- `writeSync`: the synchronized fields. -/
def writeSync (s : EntityStream) (stream : String) : Except AuthoringError CodeBlock := do
  return CodeBlock.empty.statements ((← s.sent).map (·.text stream))

/-- The statements that note the time of an update. -/
def stamp : CodeBlock :=
  (CodeBlock.empty.line
    "if(lastUpdated != 0) updateSpacing = Time.timeSinceMillis(lastUpdated);").statement
    "lastUpdated = Time.millis()"

/-- `readSync`: the synchronized fields. -/
def readSync (s : EntityStream) (stream : String) : Except AuthoringError InjectedCode := do
  let code := stamp.statement "boolean islocal = isLocal()"
  return ⟨(← s.received).foldl (SyncRead.addTo stream) code, [timeImport]⟩

/-- The names of the interpolated fields, in order. -/
def syncNames (s : EntityStream) : List String := s.fields.syncValues.map (·.name)

/-- `writeSyncManual`: the interpolated fields into a buffer. -/
def writeSyncManual (s : EntityStream) (buffer : String) : CodeBlock :=
  CodeBlock.empty.statements (s.syncNames.map fun n => buffer ++ ".put(this." ++ n ++ ")")

/-- `readSyncManual`: the interpolated fields from a buffer. -/
def readSyncManual (s : EntityStream) (buffer : String) : InjectedCode where
  code := stamp.statements (s.syncNames.flatMap fun n =>
    [SyncStep.keepLastText n, "this." ++ targetShadow n ++ " = " ++ buffer ++ ".get()"])
  imports := [timeImport]

/-- The value of an interpolated field between two updates. -/
def between (f : MergedField) : String :=
  let function := match f.decl.sync.interpolate with
    | some .angular => "slerp"
    | _ => "lerp"
  let value := "Mathf." ++ function ++ "(" ++ lastShadow f.name ++ ", " ++ targetShadow f.name ++
    ", alpha)"
  if f.decl.sync.clamped then "Mathf.clamp(" ++ value ++ ")" else value

/-- Set a field to the value to move to. -/
def jump (name : String) : String := name ++ " = " ++ targetShadow name

/-- `interpolate`: the interpolated fields at their place between two updates. -/
def interpolate (s : EntityStream) : InjectedCode :=
  let values := s.fields.syncValues
  if values = [] then ⟨.empty, []⟩
  else {
    code := (((CodeBlock.empty.begin "if(lastUpdated != 0 && updateSpacing != 0)").statements
      ("float timeSinceUpdate = Time.timeSinceMillis(lastUpdated)" ::
        "float alpha = Math.min(timeSinceUpdate / updateSpacing, 2f)" ::
        values.map fun f => f.name ++ " = " ++ between f)).next
      "else if(lastUpdated != 0)").statements (values.map fun f => jump f.name) |>.finish
    imports := [timeImport, mathImport] }

/-- `snapSync`: the interpolated fields where they are to move to. -/
def snapSync (s : EntityStream) : InjectedCode where
  code := CodeBlock.empty.statements
    (("updateSpacing = " ++ snapSpacing) :: "lastUpdated = Time.millis()" ::
      s.syncNames.flatMap fun n => [lastShadow n ++ " = " ++ targetShadow n, jump n])
  imports := [timeImport]

/-- `snapInterpolation`: no way to move. -/
def snapInterpolation (s : EntityStream) : CodeBlock :=
  CodeBlock.empty.statements (s.syncNames.flatMap fun n =>
    [lastShadow n ++ " = " ++ n, targetShadow n ++ " = " ++ n])

/-- The code of a method, none if the method carries none. -/
def codeFor (s : EntityStream) (m : MethodDecl) (history : List Revision) :
    Except AuthoringError (Option InjectedCode) :=
  match m.name, m.params.head?.map (·.name) with
  | "write", some stream => (s.write stream history).map fun c => some ⟨c, []⟩
  | "read", some stream => (s.read stream history).map fun c => some ⟨c, []⟩
  | "writeSync", some stream =>
    if s.synced then (s.writeSync stream).map fun c => some ⟨c, []⟩ else .ok none
  | "readSync", some stream => if s.synced then (s.readSync stream).map some else .ok none
  | "writeSyncManual", some buffer =>
    .ok (if s.synced then some ⟨s.writeSyncManual buffer, []⟩ else none)
  | "readSyncManual", some buffer => .ok (if s.synced then some (s.readSyncManual buffer) else none)
  | "interpolate", none => .ok (if s.synced then some s.interpolate else none)
  | "snapSync", none => .ok (if s.synced then some s.snapSync else none)
  | "snapInterpolation", none => .ok (if s.synced then some ⟨s.snapInterpolation, []⟩ else none)
  | _, _ => .ok none

end EntityStream

end EntityWeaver
