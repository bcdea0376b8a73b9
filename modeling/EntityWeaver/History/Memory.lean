import EntityWeaver.History.Basic
import EntityWeaver.SortedMap

/-! Histories kept in memory: for each entity a map from versions to layouts. -/

namespace EntityWeaver

/-- The layouts of all entities, by entity and version. -/
abbrev MemoryHistories := SortedMap String (SortedMap UInt16 (List LayoutField))

namespace MemoryHistories

/-- The revisions of an entity, by version. -/
def load (h : MemoryHistories) (entity : String) : List Revision :=
  (h.get? entity).elim [] fun revisions => revisions.entries.map fun e => ⟨e.1, e.2⟩

/-- The histories with one more revision of an entity. -/
def store (h : MemoryHistories) (entity : String) (r : Revision) : MemoryHistories :=
  h.insert entity (((h.get? entity).getD .empty).insert r.version r.fields)

/-- How many revisions an entity has. -/
def count (h : MemoryHistories) (entity : String) : Nat :=
  (h.get? entity).elim 0 (·.entries.length)

end MemoryHistories

/-- The histories that a computation keeps as a part of its state. -/
def memoryStore {m : Type → Type} [Monad m] [MonadStateOf MemoryHistories m] : HistoryStore m where
  load entity := do return .ok ((← get).load entity)
  store entity r := do
    modify (·.store entity r)
    return .ok ()

end EntityWeaver
