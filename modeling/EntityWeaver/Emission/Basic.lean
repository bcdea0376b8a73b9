import EntityWeaver.OrderedMap
import EntityWeaver.Source.TypeDef

/-! Emission: handing over generated units.

    A sink takes each qualified name once. In memory the units are kept in the order in which they
    came, and can be looked up by their qualified name or, failing that, by their simple one. -/

namespace EntityWeaver

/-- Why a sink does not take a unit. -/
inductive EmitError where
  | duplicate (name : String)
  | io (path reason : String)
  deriving Repr, DecidableEq

def EmitError.message : EmitError → String
  | .duplicate name => "type `" ++ name ++ "` was already emitted in this pass"
  | .io path reason => "failed to write " ++ path ++ ": " ++ reason

/-- What takes generated units. -/
structure UnitSink (m : Type → Type) where
  emit : SourceUnit → m (Except EmitError Unit)

/-- Emitted units by qualified name. -/
abbrev MemoryUnits := OrderedMap String SourceUnit

namespace MemoryUnits

/-- The units with one more, unless its name is taken. -/
def emit (units : MemoryUnits) (u : SourceUnit) : Except EmitError MemoryUnits :=
  if units.contains u.qualifiedName then .error (.duplicate u.qualifiedName)
  else .ok (units.put u.qualifiedName u)

/-- The unit of a qualified name, or else the first one of a simple name. -/
def find? (units : MemoryUnits) (name : String) : Option SourceUnit :=
  (units.get? name).or (units.values.find? (·.name == name))

end MemoryUnits

/-- The units that a computation keeps as a part of its state. -/
def memorySink {m : Type → Type} [Monad m] [MonadStateOf MemoryUnits m] : UnitSink m where
  emit u := do
    match (← get).emit u with
    | .error e => return .error e
    | .ok units =>
      set units
      return .ok ()

end EntityWeaver
