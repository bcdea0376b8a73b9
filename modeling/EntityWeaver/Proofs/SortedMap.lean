import EntityWeaver.Proofs.OrderedMap
import EntityWeaver.SortedMap
import Mathlib.Data.List.Perm.Basic

/-! Sorted maps are determined by what they hold at each key.

    An entry of a map is the value at its key, an insertion changes one key, and maps that agree at
    every key are equal. Statements about maps need no list of entries then. -/

namespace EntityWeaver.SortedMap

section Lookup

variable {κ α : Type} [DecidableEq κ]

theorem lookup_eq_none {es : List (κ × α)} {k : κ} (h : ∀ e ∈ es, k ≠ e.1) :
    es.lookup k = none :=
  List.lookup_eq_none_iff.2 fun e he => by simpa using h e he

theorem lookup_insertEntry [Ord κ] [Std.LawfulEqOrd κ] (k : κ) (v : α) (es : List (κ × α))
    (k' : κ) : (insertEntry k v es).lookup k' = if k' = k then some v else es.lookup k' := by
  induction es with
  | nil => rw [insertEntry, lookup_cons_eq]
  | cons e rest ih =>
    unfold insertEntry
    split
    · rw [lookup_cons_eq]
    · next he =>
      have he : k = e.1 := Std.LawfulEqCmp.eq_of_compare he
      rw [lookup_cons_eq, lookup_cons_eq, ← he]
      split <;> rfl
    · next he =>
      have he : k ≠ e.1 := fun h => by simp [h] at he
      rw [lookup_cons_eq, lookup_cons_eq, ih]
      by_cases hk : k' = k
      · simp [hk, he]
      · simp [hk]

end Lookup

variable {κ α : Type} [Ord κ] [Std.LawfulEqOrd κ]

theorem ne_of_compare_eq_lt {k k' : κ} (h : compare k k' = .lt) : k ≠ k' := by
  rintro rfl
  rw [Std.ReflOrd.compare_self] at h
  cases h

theorem entries_nodup (m : SortedMap κ α) : m.entries.Nodup :=
  m.ascending.imp fun h he => ne_of_compare_eq_lt h (congrArg Prod.fst he)

variable [DecidableEq κ]

/-- The entries of a map are the values at its keys. -/
theorem mem_entries_iff (m : SortedMap κ α) (k : κ) (v : α) :
    (k, v) ∈ m.entries ↔ m.get? k = some v := by
  obtain ⟨es, hes⟩ := m
  show (k, v) ∈ es ↔ es.lookup k = some v
  induction es with
  | nil => simp
  | cons e rest ih =>
    obtain ⟨hfirst, hrest⟩ := List.pairwise_cons.1 hes
    rw [List.mem_cons, lookup_cons_eq, ih hrest]
    by_cases hk : k = e.1
    · have habsent : rest.lookup k = none :=
        lookup_eq_none fun d hd => hk ▸ ne_of_compare_eq_lt (hfirst d hd)
      rw [if_pos hk, habsent]
      simp [Prod.ext_iff, hk, eq_comm]
    · simp [Prod.ext_iff, hk]

/-- A map holds something at the keys of its entries. -/
theorem mem_keys_iff (m : SortedMap κ α) (k : κ) :
    k ∈ m.entries.map (·.1) ↔ (m.get? k).isSome := by
  simp only [List.mem_map, Prod.exists, mem_entries_iff, exists_and_right, exists_eq_right,
    Option.isSome_iff_exists]

/-- The part of a map at some of its keys. -/
def restrict (m : SortedMap κ α) (keys : List κ) : SortedMap κ α :=
  ⟨m.entries.filter (·.1 ∈ keys), m.ascending.filter _⟩

theorem get?_restrict (m : SortedMap κ α) (keys : List κ) (k : κ) :
    (m.restrict keys).get? k = if k ∈ keys then m.get? k else none := by
  refine Option.ext fun v => ?_
  rw [← mem_entries_iff, restrict, List.mem_filter, mem_entries_iff]
  split <;> simp [*]

variable [Std.TransOrd κ]

/-- An insertion changes what is held at one key. -/
theorem get?_insert (m : SortedMap κ α) (k : κ) (v : α) (k' : κ) :
    (m.insert k v).get? k' = if k' = k then some v else m.get? k' :=
  lookup_insertEntry k v m.entries k'

/-- An insertion adds one key. -/
theorem isSome_get?_insert (m : SortedMap κ α) (k : κ) (v : α) (k' : κ) :
    ((m.insert k v).get? k').isSome ↔ k' = k ∨ (m.get? k').isSome := by
  rw [get?_insert]
  by_cases hk : k' = k
  · simp [hk]
  · simp [hk]

/-- Insertions add their keys. -/
theorem isSome_get?_insertAll (m : SortedMap κ α) (es : List (κ × α)) (k : κ) :
    ((m.insertAll es).get? k).isSome ↔ k ∈ es.map (·.1) ∨ (m.get? k).isSome := by
  induction es generalizing m with
  | nil => simp [insertAll]
  | cons e rest ih =>
    have hstep := ih (m.insert e.1 e.2)
    rw [insertAll, List.foldl_cons, ← insertAll, hstep, isSome_get?_insert, List.map_cons,
      List.mem_cons, or_assoc, or_left_comm]

/-- Of entries that each have a key of their own, the one with the key wins. -/
theorem get?_insertAll (m : SortedMap κ α) {es : List (κ × α)} (h : (es.map (·.1)).Nodup) (k : κ) :
    (m.insertAll es).get? k = (es.lookup k).or (m.get? k) := by
  induction es generalizing m with
  | nil => rfl
  | cons e rest ih =>
    obtain ⟨hfresh, hrest⟩ := List.nodup_cons.1 h
    have hstep := ih (m.insert e.1 e.2) hrest
    rw [insertAll, List.foldl_cons, ← insertAll, hstep, get?_insert, lookup_cons_eq]
    by_cases hk : k = e.1
    · have habsent : rest.lookup k = none :=
        lookup_eq_none fun d hd hd' => hfresh (List.mem_map.2 ⟨d, hd, hd'.symm.trans hk⟩)
      rw [habsent, if_pos hk, if_pos hk]
      rfl
    · rw [if_neg hk, if_neg hk]

theorem get?_ofList {es : List (κ × α)} (h : (es.map (·.1)).Nodup) (k : κ) :
    (ofList es).get? k = es.lookup k := by
  rw [ofList, get?_insertAll _ h]
  exact Option.or_none

/-- Maps that agree at every key are equal. -/
theorem ext_get? {a b : SortedMap κ α} (h : ∀ k, a.get? k = b.get? k) : a = b := by
  have hperm : a.entries.Perm b.entries := by
    rw [List.perm_ext_iff_of_nodup a.entries_nodup b.entries_nodup]
    rintro ⟨k, v⟩
    rw [mem_entries_iff, mem_entries_iff, h]
  refine ext (hperm.eq_of_pairwise (fun c d _ _ hcd hdc => ?_) a.ascending b.ascending)
  rw [Std.OrientedCmp.gt_of_lt hcd] at hdc
  cases hdc

/-- A map is made of its entries. -/
theorem ofList_entries (m : SortedMap κ α) : ofList m.entries = m := by
  have hkeys : (m.entries.map (·.1)).Nodup :=
    List.pairwise_map.2 (m.ascending.imp ne_of_compare_eq_lt)
  exact ext_get? fun k => get?_ofList hkeys k

/-- Entries taken from a map, each key once, make up its part at their keys. -/
theorem ofList_eq_restrict {m : SortedMap κ α} {es : List (κ × α)} (h : (es.map (·.1)).Nodup)
    (hheld : ∀ e ∈ es, m.get? e.1 = some e.2) : ofList es = m.restrict (es.map (·.1)) := by
  refine ext_get? fun k => ?_
  rw [get?_ofList h, get?_restrict]
  clear h
  induction es with
  | nil => rfl
  | cons e rest ih =>
    rw [lookup_cons_eq, ih fun d hd => hheld d (List.mem_cons_of_mem _ hd)]
    by_cases hk : k = e.1
    · simp [hk, hheld e List.mem_cons_self]
    · simp only [hk, if_false, List.map_cons, List.mem_cons, false_or]

end EntityWeaver.SortedMap
