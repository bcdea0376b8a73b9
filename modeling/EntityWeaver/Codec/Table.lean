import EntityWeaver.Declaration.Basic
import EntityWeaver.SortedMap

/-! Codecs: how values of a type are written to a stream and read from it.

    A primitive type uses the stream's own method; for any other type the author names handler
    functions in four tables. A network writer goes before the plain one when data is synchronized;
    a plain reader goes before one that changes an existing instance. Handlers are found under the
    normal form of the type. The fields that travel are ordered by name. -/

namespace EntityWeaver

/-- How a value is written: by the stream, or as `handler(stream, value)`. -/
inductive WriteCodec where
  | primitive (p : Primitive)
  | handler (path : String)
  deriving Repr, DecidableEq

/-- How a value is read: by the stream, as `handler(stream)`, or as `handler(stream, instance)`. -/
inductive ReadCodec where
  | primitive (p : Primitive)
  | handler (path : String)
  | mutator (path : String)
  deriving Repr, DecidableEq

/-- Handlers by type name. -/
structure CodecTable where
  writers : SortedMap String String := .empty
  netWriters : SortedMap String String := .empty
  readers : SortedMap String String := .empty
  mutatorReaders : SortedMap String String := .empty
  deriving DecidableEq

namespace CodecTable

def withWriter (t : CodecTable) (type handler : String) : CodecTable :=
  { t with writers := t.writers.insert (normalType type) handler }

def withNetWriter (t : CodecTable) (type handler : String) : CodecTable :=
  { t with netWriters := t.netWriters.insert (normalType type) handler }

def withReader (t : CodecTable) (type handler : String) : CodecTable :=
  { t with readers := t.readers.insert (normalType type) handler }

def withMutatorReader (t : CodecTable) (type handler : String) : CodecTable :=
  { t with mutatorReaders := t.mutatorReaders.insert (normalType type) handler }

/-- The writer of a type, for the network if `net` is set. -/
def writer? (t : CodecTable) (type : String) (net : Bool) : Option WriteCodec :=
  match Primitive.ofType? type with
  | some p => some (.primitive p)
  | none =>
    let key := normalType type
    let plain := t.writers.get? key
    (if net then (t.netWriters.get? key).or plain else plain).map .handler

/-- The reader of a type. -/
def reader? (t : CodecTable) (type : String) : Option ReadCodec :=
  match Primitive.ofType? type with
  | some p => some (.primitive p)
  | none =>
    let key := normalType type
    ((t.readers.get? key).map .handler).or ((t.mutatorReaders.get? key).map .mutator)

/-- All spellings of a type have the same reader. -/
@[simp] theorem reader?_normalType (t : CodecTable) (type : String) :
    t.reader? (normalType type) = t.reader? type := by
  unfold reader?
  rw [Primitive.ofType?_normalType, normalType_normalType]

/-- The stream itself reads the primitive types and no other. -/
theorem reader?_primitive {t : CodecTable} {type : String} {p : Primitive} {codec : ReadCodec}
    (h : t.reader? type = some codec) :
    codec = .primitive p ↔ Primitive.ofType? type = some p := by
  unfold reader? at h
  cases htype : Primitive.ofType? type with
  | some q =>
    rw [htype] at h
    obtain rfl := Option.some.inj h
    simp
  | none =>
    simp only [htype] at h
    rcases Option.or_eq_some_iff.1 h with h | ⟨-, h⟩
    · obtain ⟨path, -, rfl⟩ := Option.map_eq_some_iff.1 h
      simp
    · obtain ⟨path, -, rfl⟩ := Option.map_eq_some_iff.1 h
      simp

/-- The stream itself writes the primitive types and no other. -/
theorem writer?_primitive {t : CodecTable} {type : String} {p : Primitive} {net : Bool}
    {codec : WriteCodec} (h : t.writer? type net = some codec) :
    codec = .primitive p ↔ Primitive.ofType? type = some p := by
  unfold writer? at h
  cases htype : Primitive.ofType? type with
  | some q =>
    rw [htype] at h
    obtain rfl := Option.some.inj h
    simp
  | none =>
    simp only [htype] at h
    obtain ⟨path, -, rfl⟩ := Option.map_eq_some_iff.1 h
    simp

/-- The table with the entries of another put over its own. -/
def extend (t other : CodecTable) : CodecTable where
  writers := t.writers.insertAll other.writers.entries
  netWriters := t.netWriters.insertAll other.netWriters.entries
  readers := t.readers.insertAll other.readers.entries
  mutatorReaders := t.mutatorReaders.insertAll other.mutatorReaders.entries

end CodecTable

namespace FieldDecl

/-- Written to a saved stream. -/
def isSerialized (f : FieldDecl) : Bool :=
  !f.modifiers.transient && !f.isStatic && !f.sync.noSerialize

/-- The fields of a saved stream, in its order. -/
def serialized (fields : List FieldDecl) : List FieldDecl :=
  (fields.filter isSerialized).mergeSort fun a b => a.name ≤ b.name

/-- The fields of a network stream, in its order. -/
def synced (fields : List FieldDecl) : List FieldDecl :=
  (serialized fields).filter fun f => !f.sync.noSync

end FieldDecl

end EntityWeaver
