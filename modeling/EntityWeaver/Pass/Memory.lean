import EntityWeaver.History.Memory
import EntityWeaver.Pass

/-! Passes in memory: histories and emitted units are values that a pass starts from and leaves. -/

namespace EntityWeaver

/-- Histories and units held as values. -/
abbrev Memory := StateT MemoryUnits (StateM MemoryHistories)

/-- What a computation in memory gives, and the units and histories behind it. -/
def Memory.from {α : Type} (action : Memory α) (units : MemoryUnits) (histories : MemoryHistories) :
    α × MemoryUnits × MemoryHistories :=
  let ((result, units), histories) := (action.run units).run histories
  (result, units, histories)

/-- A full pass over a snapshot, from histories and without units. -/
def Pass.runInMemory (settings : Settings) (s : Snapshot) (histories : MemoryHistories) :
    Except PassError Outcome × MemoryUnits × MemoryHistories :=
  Memory.from (Pass.run memorySink memoryStore settings s) .empty histories

end EntityWeaver
