import EntityWeaver.OrderedMap
import Mathlib.Data.List.Nodup

/-! Ordered maps as sets of entries.

    An entry of a map is the value at its key, and a map whose entries are the same in another order
    holds the same values. -/

namespace EntityWeaver

/-- The first entry has the key or the others are asked. -/
theorem lookup_cons_eq {κ α : Type} [DecidableEq κ] (e : κ × α)
    (es : List (κ × α)) (k : κ) : (e :: es).lookup k = if k = e.1 then some e.2 else es.lookup k := by
  obtain ⟨k', v⟩ := e
  by_cases hk : k = k'
  · simp [hk]
  · simp [List.lookup_cons, hk, beq_eq_false_iff_ne.2 hk]

/-- Entries of which no two have the same key are the values at their keys. -/
theorem lookup_eq_some_iff_mem {κ α : Type} [BEq κ] [LawfulBEq κ] {es : List (κ × α)} {k : κ} {v : α}
    (h : (es.map (·.1)).Nodup) : es.lookup k = some v ↔ (k, v) ∈ es := by
  rw [List.lookup_eq_some_iff]
  constructor
  · rintro ⟨before, after, rfl, -⟩
    simp
  · intro hmem
    obtain ⟨before, after, rfl⟩ := List.append_of_mem hmem
    refine ⟨before, after, rfl, fun e he => ?_⟩
    rw [List.map_append, List.map_cons, List.nodup_middle] at h
    simp only [bne_iff_ne, ne_eq]
    exact fun hk => (List.nodup_cons.1 h).1 (List.mem_append_left _ (List.mem_map.2 ⟨e, he, hk.symm⟩))

namespace OrderedMap

variable {κ α : Type} [DecidableEq κ]

/-- Maps with the same entries are equal. -/
@[ext] theorem ext {κ α : Type} {m m' : OrderedMap κ α} (h : m.entries = m'.entries) : m = m' := by
  cases m
  cases m'
  simp_all

theorem putEntry_of_notMem {es : List (κ × α)} {k : κ} (h : k ∉ es.map (·.1)) (v : α) :
    putEntry k v es = es ++ [(k, v)] := by
  induction es with
  | nil => rfl
  | cons e rest ih =>
    rw [List.map_cons, List.mem_cons, not_or] at h
    rw [putEntry, if_neg (Ne.symm h.1), ih h.2, List.cons_append]

/-- A new key goes to the end. -/
theorem entries_put_of_notMem {m : OrderedMap κ α} {k : κ} (h : k ∉ m.keys) (v : α) :
    (m.put k v).entries = m.entries ++ [(k, v)] :=
  putEntry_of_notMem h v

theorem keys_put_of_notMem {m : OrderedMap κ α} {k : κ} (h : k ∉ m.keys) (v : α) :
    (m.put k v).keys = m.keys ++ [k] := by
  rw [keys, entries_put_of_notMem h, List.map_append, keys, List.map_singleton]

/-- Entries that each have a key of their own are the entries of their map. -/
theorem entries_ofList {es : List (κ × α)} (h : (es.map (·.1)).Nodup) : (ofList es).entries = es := by
  have hfrom : ∀ (m : OrderedMap κ α), (m.keys ++ es.map (·.1)).Nodup →
      (es.foldl (fun m e => m.put e.1 e.2) m).entries = m.entries ++ es := by
    clear h
    induction es with
    | nil => exact fun m _ => (List.append_nil _).symm
    | cons e rest ih =>
      intro m hm
      have hnew : e.1 ∉ m.keys := by
        rw [List.map_cons, List.nodup_middle, List.nodup_cons, List.mem_append, not_or] at hm
        exact hm.1.1
      rw [List.foldl_cons, ih, entries_put_of_notMem hnew, List.append_assoc, List.singleton_append]
      rw [keys_put_of_notMem hnew, List.append_assoc]
      exact hm
  exact hfrom empty h

theorem get?_eq_some_iff {m : OrderedMap κ α} {k : κ} {v : α} :
    m.get? k = some v ↔ (k, v) ∈ m.entries :=
  lookup_eq_some_iff_mem m.distinct

/-- A map with a value put at a key holds that value and what it held at the other keys. -/
theorem get?_put (m : OrderedMap κ α) (k : κ) (v : α) (k' : κ) :
    (m.put k v).get? k' = if k' = k then some v else m.get? k' := by
  have hentries : ∀ es : List (κ × α),
      (putEntry k v es).lookup k' = if k' = k then some v else es.lookup k' := by
    intro es
    induction es with
    | nil => rw [putEntry, lookup_cons_eq]
    | cons e rest ih =>
      by_cases he : e.1 = k
      · rw [putEntry, if_pos he, lookup_cons_eq, lookup_cons_eq, he]
        split <;> rfl
      · rw [putEntry, if_neg he, lookup_cons_eq, lookup_cons_eq, ih]
        by_cases hk : k' = k
        · simp [hk, Ne.symm he]
        · simp [hk]
  exact hentries m.entries

/-- Values that are changed stand at their keys. -/
theorem get?_mapValues {β : Type} (m : OrderedMap κ α) (f : κ → α → β) (k : κ) :
    (m.mapValues f).get? k = (m.get? k).map (f k) := by
  have hentries : ∀ es : List (κ × α),
      (es.map fun e => (e.1, f e.1 e.2)).lookup k = (es.lookup k).map (f k) := by
    intro es
    induction es with
    | nil => rfl
    | cons e rest ih =>
      rw [List.map_cons, lookup_cons_eq, lookup_cons_eq, ih]
      split
      · next hk => rw [hk, Option.map_some]
      · rfl
  exact hentries m.entries

/-- A map of entries holds nothing else. -/
theorem mem_of_mem_entries_ofList {es : List (κ × α)} {e : κ × α} (h : e ∈ (ofList es).entries) :
    e ∈ es := by
  have hfrom : ∀ m : OrderedMap κ α, e ∈ (es.foldl (fun m e => m.put e.1 e.2) m).entries →
      e ∈ m.entries ∨ e ∈ es := by
    clear h
    induction es with
    | nil => exact fun _ => .inl
    | cons d rest ih =>
      intro m hm
      rcases ih _ hm with hput | hrest
      · rw [← get?_eq_some_iff, get?_put] at hput
        split at hput
        · next hk =>
          obtain rfl : e = d := Prod.ext hk (Option.some.inj hput).symm
          exact .inr List.mem_cons_self
        · exact .inl (get?_eq_some_iff.1 hput)
      · exact .inr (List.mem_cons_of_mem _ hrest)
  exact (hfrom empty h).resolve_left List.not_mem_nil

theorem mem_keys_iff {m : OrderedMap κ α} {k : κ} : k ∈ m.keys ↔ (m.get? k).isSome := by
  simp [keys, Option.isSome_iff_exists, get?_eq_some_iff]

theorem contains_iff {m : OrderedMap κ α} {k : κ} : m.contains k = true ↔ ∃ v, m.get? k = some v := by
  rw [contains, List.contains_iff_mem, mem_keys_iff, Option.isSome_iff_exists]

/-- The order of the entries does not matter to what a map holds. -/
theorem get?_eq_of_perm {m m' : OrderedMap κ α} (h : m.entries.Perm m'.entries) : m.get? = m'.get? := by
  funext k
  refine Option.ext fun v => ?_
  rw [get?_eq_some_iff, get?_eq_some_iff, h.mem_iff]

theorem contains_eq_of_perm {m m' : OrderedMap κ α} (h : m.entries.Perm m'.entries) :
    m.contains = m'.contains := by
  funext k
  refine Bool.eq_iff_iff.2 ?_
  rw [contains_iff, contains_iff, get?_eq_of_perm h]

/-- A change at one key does not see the order of the entries. -/
theorem modify_perm {m m' : OrderedMap κ α} (h : m.entries.Perm m'.entries) (k : κ) (f : α → α) :
    (m.modify k f).entries.Perm (m'.modify k f).entries := h.map _

end OrderedMap

end EntityWeaver
