import EntityWeaver.Codec.Table
import EntityWeaver.Proofs.Declaration.Json
import EntityWeaver.Proofs.SortedMap

/-! Which handlers of a table are found.

    A type is looked up by its normal form, in one map or in two, and the first that has it wins:

        plain writer        writers
        network writer      net writers, writers
        reader              readers, mutating readers

    So all spellings of a type find the same handler, and a handler is only found if its key is in
    normal form or the normal form is another key. Entries that are put into a table one by one have
    such keys. A table that is read from a snapshot keeps the keys as the snapshot spells them. -/

namespace EntityWeaver.CodecTable

variable {t : CodecTable} {a b : String} {maps : List (SortedMap String String)}

/-! ### Spellings of one type -/

theorem ofType?_congr (h : normalType a = normalType b) :
    Primitive.ofType? a = Primitive.ofType? b := by
  rw [← Primitive.ofType?_normalType, h, Primitive.ofType?_normalType]

/-- All spellings of a type have the same writer. -/
theorem writer?_congr (h : normalType a = normalType b) (net : Bool) :
    t.writer? a net = t.writer? b net := by
  unfold writer?
  rw [ofType?_congr h, h]

/-- All spellings of a type have the same reader. -/
theorem reader?_congr (h : normalType a = normalType b) : t.reader? a = t.reader? b := by
  rw [← reader?_normalType, h, reader?_normalType]

/-- A type has a codec: its own, or a handler of one of the maps. -/
def Served (maps : List (SortedMap String String)) (type : String) : Prop :=
  (Primitive.ofType? type).isSome ∨ ∃ m ∈ maps, (m.get? (normalType type)).isSome

theorem Served.congr (h : normalType a = normalType b) (ha : Served maps a) : Served maps b := by
  unfold Served
  rw [← ofType?_congr h, ← h]
  exact ha

theorem isSome_writer?_iff : (t.writer? a false).isSome ↔ Served [t.writers] a := by
  unfold writer? Served
  cases Primitive.ofType? a <;> simp

theorem isSome_netWriter?_iff : (t.writer? a true).isSome ↔ Served [t.netWriters, t.writers] a := by
  unfold writer? Served
  cases Primitive.ofType? a <;> simp

theorem isSome_reader?_iff : (t.reader? a).isSome ↔ Served [t.readers, t.mutatorReaders] a := by
  unfold reader? Served
  cases Primitive.ofType? a <;> simp

/-! ### Keys that are found -/

/-- Every key of a table is found by every spelling of its type. -/
structure FindsKeys (t : CodecTable) : Prop where
  writer : ∀ a b, normalType a = normalType b → (t.writers.get? a).isSome →
    (t.writer? b false).isSome
  netWriter : ∀ a b, normalType a = normalType b → (t.netWriters.get? a).isSome →
    (t.writer? b true).isSome
  reader : ∀ a b, normalType a = normalType b → (t.readers.get? a).isSome → (t.reader? b).isSome
  mutatorReader : ∀ a b, normalType a = normalType b → (t.mutatorReaders.get? a).isSome →
    (t.reader? b).isSome

/-- Every key of a table is a primitive type or has its normal form among the keys. -/
structure ServesKeys (t : CodecTable) : Prop where
  writer : ∀ key, (t.writers.get? key).isSome → Served [t.writers] key
  netWriter : ∀ key, (t.netWriters.get? key).isSome → Served [t.netWriters, t.writers] key
  reader : ∀ key, (t.readers.get? key).isSome → Served [t.readers, t.mutatorReaders] key
  mutatorReader : ∀ key, (t.mutatorReaders.get? key).isSome →
    Served [t.readers, t.mutatorReaders] key

theorem FindsKeys.servesKeys (h : t.FindsKeys) : t.ServesKeys where
  writer key hkey := isSome_writer?_iff.1 (h.writer key key rfl hkey)
  netWriter key hkey := isSome_netWriter?_iff.1 (h.netWriter key key rfl hkey)
  reader key hkey := isSome_reader?_iff.1 (h.reader key key rfl hkey)
  mutatorReader key hkey := isSome_reader?_iff.1 (h.mutatorReader key key rfl hkey)

theorem ServesKeys.findsKeys (h : t.ServesKeys) : t.FindsKeys where
  writer a _ hab ha := isSome_writer?_iff.2 ((h.writer a ha).congr hab)
  netWriter a _ hab ha := isSome_netWriter?_iff.2 ((h.netWriter a ha).congr hab)
  reader a _ hab ha := isSome_reader?_iff.2 ((h.reader a ha).congr hab)
  mutatorReader a _ hab ha := isSome_reader?_iff.2 ((h.mutatorReader a ha).congr hab)

/-! ### Tables put together -/

/-- The table has been put together from entries and from other such tables. -/
inductive Assembled : CodecTable → Prop
  | empty : Assembled {}
  | writer {t : CodecTable} (ht : Assembled t) (type handler : String) :
    Assembled (t.withWriter type handler)
  | netWriter {t : CodecTable} (ht : Assembled t) (type handler : String) :
    Assembled (t.withNetWriter type handler)
  | reader {t : CodecTable} (ht : Assembled t) (type handler : String) :
    Assembled (t.withReader type handler)
  | mutatorReader {t : CodecTable} (ht : Assembled t) (type handler : String) :
    Assembled (t.withMutatorReader type handler)
  | extend {t u : CodecTable} (ht : Assembled t) (hu : Assembled u) : Assembled (t.extend u)

/-- The keys of a map are in normal form. -/
def Normal (m : SortedMap String String) : Prop := ∀ key, (m.get? key).isSome → normalType key = key

variable {m : SortedMap String String}

theorem Normal.served (hm : Normal m) (hmem : m ∈ maps) {key : String} (hkey : (m.get? key).isSome) :
    Served maps key :=
  .inr ⟨m, hmem, (hm key hkey).symm ▸ hkey⟩

theorem normal_empty : Normal .empty := fun key hkey => by
  cases hkey

theorem Normal.insert (hm : Normal m) (type handler : String) :
    Normal (m.insert (normalType type) handler) := by
  intro key hkey
  rcases (SortedMap.isSome_get?_insert ..).1 hkey with rfl | hkey
  · exact normalType_normalType type
  · exact hm key hkey

theorem Normal.insertAll {m' : SortedMap String String} (hm : Normal m) (hm' : Normal m') :
    Normal (m.insertAll m'.entries) := by
  intro key hkey
  rcases (SortedMap.isSome_get?_insertAll ..).1 hkey with hkey | hkey
  · exact hm' key ((SortedMap.mem_keys_iff ..).1 hkey)
  · exact hm key hkey

/-- The keys of a table are in normal form. -/
structure NormalKeys (t : CodecTable) : Prop where
  writers : Normal t.writers
  netWriters : Normal t.netWriters
  readers : Normal t.readers
  mutatorReaders : Normal t.mutatorReaders

theorem NormalKeys.servesKeys (h : t.NormalKeys) : t.ServesKeys where
  writer _ hkey := h.writers.served (by simp) hkey
  netWriter _ hkey := h.netWriters.served (by simp) hkey
  reader _ hkey := h.readers.served (by simp) hkey
  mutatorReader _ hkey := h.mutatorReaders.served (by simp) hkey

/-- Entries are put in under normal forms, and tables are joined without a change of their keys. -/
theorem Assembled.normalKeys (h : t.Assembled) : t.NormalKeys := by
  induction h with
  | empty => exact ⟨normal_empty, normal_empty, normal_empty, normal_empty⟩
  | writer _ type handler ih => exact { ih with writers := ih.writers.insert type handler }
  | netWriter _ type handler ih => exact { ih with netWriters := ih.netWriters.insert type handler }
  | reader _ type handler ih => exact { ih with readers := ih.readers.insert type handler }
  | mutatorReader _ type handler ih =>
    exact { ih with mutatorReaders := ih.mutatorReaders.insert type handler }
  | extend _ _ ih ih' =>
    exact {
      writers := ih.writers.insertAll ih'.writers
      netWriters := ih.netWriters.insertAll ih'.netWriters
      readers := ih.readers.insertAll ih'.readers
      mutatorReaders := ih.mutatorReaders.insertAll ih'.mutatorReaders }

/-- Lookups ignore how the type that is looked up is spelled. A table finds its keys by all spellings
    of their types just when each of them is a primitive type or has its normal form among the keys
    that are consulted. A table that has been put together from entries does. -/
theorem findsKeys_iff (t : CodecTable) :
    (∀ a b, normalType a = normalType b →
      (∀ net, t.writer? a net = t.writer? b net) ∧ t.reader? a = t.reader? b) ∧
    (t.FindsKeys ↔ t.ServesKeys) ∧
    (t.Assembled → t.FindsKeys) :=
  ⟨fun _ _ h => ⟨writer?_congr h, reader?_congr h⟩, ⟨FindsKeys.servesKeys, ServesKeys.findsKeys⟩,
    fun h => h.normalKeys.servesKeys.findsKeys⟩

/-! ### A blank in a key -/

/-- A table with the key in normal form, however it is spelled when it is put in. -/
def units : CodecTable := withReader {} "Seq< Unit>" "TypeIO.readUnits"

/-- A table with a key that is not in normal form. -/
def spacedUnits : CodecTable :=
  { readers := SortedMap.empty.insert "Seq<Unit >" "TypeIO.readUnits" }

/-- The units of the first table are found in another spelling, and those of the second are found in
    all spellings just when their key is served. -/
theorem findsKeys_units :
    normalType "Seq<Unit>" = normalType "Seq<Unit >" ∧ (units.reader? "Seq<Unit >").isSome ∧
      (spacedUnits.FindsKeys ↔ spacedUnits.ServesKeys) := by
  have hunits : units.FindsKeys := (findsKeys_iff units).2.2 (.reader .empty _ _)
  have hspelling : normalType "Seq<Unit>" = normalType "Seq<Unit >" := by decide
  exact ⟨hspelling, hunits.reader _ _ hspelling (by decide), (findsKeys_iff spacedUnits).2.1⟩

/-- The table is read as it is written, its key with it, and the key is not found in its own
    spelling. -/
theorem spacedUnits_key_lost :
    CodecTable.ofJson? spacedUnits.toJson = some spacedUnits ∧
      (spacedUnits.readers.get? "Seq<Unit >").isSome ∧ spacedUnits.reader? "Seq<Unit >" = none :=
  ⟨CodecTable.roundTrips.read spacedUnits, by decide, by decide⟩

end EntityWeaver.CodecTable
