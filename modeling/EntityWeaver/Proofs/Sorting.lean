import EntityWeaver.Rank
import EntityWeaver.Source.TypeDef
import Mathlib.Data.List.Nodup
import Mathlib.Data.List.Perm.Basic

/-! Sorting by a total order of keys.

    A sorted list is determined by its members as soon as no two of them are level, whatever order
    they came in; where some are level, by the order of those as well. Names order by their characters,
    turns by their ranks. -/

namespace EntityWeaver

variable {α β : Type}

/-- A comparison that puts all values into one order, in which some may be level. -/
structure Ordered (le : α → α → Bool) : Prop where
  trans : ∀ a b c, le a b → le b c → le a c
  total : ∀ a b, le a b || le b a

namespace Ordered

/-- The order of names. -/
theorem names : Ordered fun a b : String => a ≤ b where
  trans a b c hab hbc := by
    simp only [decide_eq_true_eq] at *
    exact String.le_trans hab hbc
  total a b := by simpa using String.le_total a b

/-- The order of ranks. -/
theorem ranks : Ordered Rank.le := ⟨Rank.le_trans, Rank.le_total⟩

variable {le : α → α → Bool}

/-- Values in the order of their keys. -/
theorem on (hle : Ordered le) (key : β → α) : Ordered fun a b => le (key a) (key b) :=
  ⟨fun _ _ _ => hle.trans _ _ _, fun _ _ => hle.total _ _⟩

theorem refl (hle : Ordered le) (a : α) : le a a := by simpa using hle.total a a

theorem pairwise_mergeSort (hle : Ordered le) (xs : List α) :
    (xs.mergeSort le).Pairwise fun a b => le a b :=
  List.pairwise_mergeSort hle.trans hle.total xs

/-- Sorting does not see the order of values of which no two are level. -/
theorem mergeSort_eq_of_perm (hle : Ordered le) {xs ys : List α} (h : xs.Perm ys)
    (hlevel : ∀ a ∈ xs, ∀ b ∈ xs, le a b → le b a → a = b) : xs.mergeSort le = ys.mergeSort le := by
  have hsorted : (xs.mergeSort le).Perm (ys.mergeSort le) :=
    (List.mergeSort_perm xs le).trans (h.trans (List.mergeSort_perm ys le).symm)
  refine hsorted.eq_of_pairwise (fun a b ha hb => ?_) (hle.pairwise_mergeSort xs)
    (hle.pairwise_mergeSort ys)
  rw [List.mem_mergeSort] at ha hb
  exact hlevel a ha b (h.mem_iff.2 hb)

/-- Values that are all level keep their order. -/
theorem filter_mergeSort (hle : Ordered le) {P : α → Bool} (hlevel : ∀ a b, P a → P b → le a b)
    (xs : List α) : (xs.mergeSort le).filter P = xs.filter P := by
  have hsorted : (xs.filter P).Pairwise fun a b => le a b :=
    List.pairwise_of_forall_mem_list fun a ha b hb =>
      hlevel a b (List.mem_filter.1 ha).2 (List.mem_filter.1 hb).2
  have hkept : (xs.filter P).Sublist (xs.mergeSort le) :=
    List.sublist_mergeSort hle.trans hle.total hsorted List.filter_sublist
  have hfiltered := hkept.filter P
  rw [List.filter_filter] at hfiltered
  simp only [Bool.and_self] at hfiltered
  exact (hfiltered.eq_of_length ((List.mergeSort_perm xs le).filter P).length_eq.symm).symm

/-- The first of a sorted list is not behind any. -/
theorem head_le (hle : Ordered le) {x a : α} {xs : List α}
    (h : (x :: xs).Pairwise fun a b => le a b) (ha : a ∈ x :: xs) : le x a := by
  rcases List.mem_cons.1 ha with rfl | ha
  · exact hle.refl a
  · exact (List.pairwise_cons.1 h).1 a ha

/-- Sorted lists are determined by the order in which level values stand. -/
theorem eq_of_filter_level (hle : Ordered le) {xs ys : List α} (hxs : xs.Pairwise fun a b => le a b)
    (hys : ys.Pairwise fun a b => le a b)
    (h : ∀ a, (xs.filter fun b => le a b && le b a) = ys.filter fun b => le a b && le b a) :
    xs = ys := by
  have hmem : ∀ (a : α) (zs : List α), a ∈ (zs.filter fun b => le a b && le b a) ↔ a ∈ zs :=
    fun a zs => by simp [hle.refl]
  induction xs generalizing ys with
  | nil =>
    refine (List.eq_nil_iff_forall_not_mem.2 fun a ha => ?_).symm
    rw [← hmem, ← h] at ha
    cases ha
  | cons x xs ih =>
    cases ys with
    | nil =>
      have hx : x ∈ x :: xs := List.mem_cons_self
      rw [← hmem, h] at hx
      cases hx
    | cons y ys =>
      -- each first value stands in the other list too, so the two are level and first of their level
      have hxy : le x y := hle.head_le hxs (by rw [← hmem, h, hmem]; exact List.mem_cons_self)
      have hyx : le y x := hle.head_le hys (by rw [← hmem, ← h, hmem]; exact List.mem_cons_self)
      obtain rfl : x = y := by
        have hx := h x
        simp only [List.filter_cons, hle.refl, hxy, hyx, Bool.and_self, if_true] at hx
        exact (List.cons.inj hx).1
      have hrest : ∀ a,
          (xs.filter fun b => le a b && le b a) = ys.filter fun b => le a b && le b a := by
        intro a
        have ha := h a
        simp only [List.filter_cons] at ha
        split at ha
        · exact (List.cons.inj ha).2
        · exact ha
      rw [ih hxs.of_cons hys.of_cons hrest]

/-- Sorting keeps the order of the values that are level with a given one. -/
theorem filter_level_mergeSort (hle : Ordered le) (a : α) (xs : List α) :
    ((xs.mergeSort le).filter fun b => le a b && le b a) = xs.filter fun b => le a b && le b a := by
  refine hle.filter_mergeSort (fun b c hb hc => ?_) xs
  rw [Bool.and_eq_true] at hb hc
  exact hle.trans b a c hb.2 hc.1

/-- Sorting sees the order of values only where they are level. -/
theorem mergeSort_eq_of_level (hle : Ordered le) {xs ys : List α}
    (h : ∀ a, (xs.filter fun b => le a b && le b a) = ys.filter fun b => le a b && le b a) :
    xs.mergeSort le = ys.mergeSort le := by
  refine hle.eq_of_filter_level (hle.pairwise_mergeSort xs) (hle.pairwise_mergeSort ys) fun a => ?_
  rw [hle.filter_level_mergeSort, hle.filter_level_mergeSort, h]

/-- Values can be dropped before they are sorted or behind. -/
theorem mergeSort_filter (hle : Ordered le) (p : α → Bool) (xs : List α) :
    (xs.filter p).mergeSort le = (xs.mergeSort le).filter p := by
  refine hle.eq_of_filter_level (hle.pairwise_mergeSort _) ((hle.pairwise_mergeSort xs).filter p)
    fun a => ?_
  rw [hle.filter_level_mergeSort, List.filter_comm _ p, List.filter_comm _ p,
    hle.filter_level_mergeSort]

end Ordered

/-- Of values with keys of their own, one has the key of a given one. -/
theorem filter_key_eq {κ : Type} [BEq κ] [LawfulBEq κ] {key : α → κ} {xs : List α}
    (hkeys : (xs.map key).Nodup) {x : α} (hx : x ∈ xs) : xs.filter (fun y => key y == key x) = [x] := by
  obtain ⟨before, after, rfl⟩ := List.append_of_mem hx
  rw [List.map_append, List.map_cons, List.nodup_middle, List.nodup_cons, ← List.map_append] at hkeys
  have hothers : ∀ y ∈ before ++ after, ¬(key y == key x) = true := by
    intro y hy heq
    exact hkeys.1 (beq_iff_eq.1 heq ▸ List.mem_map_of_mem hy)
  rw [List.filter_append, List.filter_cons_of_pos (by simp),
    List.filter_eq_nil_iff.2 fun y hy => hothers y (List.mem_append_left _ hy),
    List.filter_eq_nil_iff.2 fun y hy => hothers y (List.mem_append_right _ hy), List.nil_append]

section Ascending

theorem eraseDups_sublist [BEq α] : ∀ xs : List α, xs.eraseDups.Sublist xs
  | [] => .slnil
  | x :: xs => by
    rw [List.eraseDups_cons]
    exact ((eraseDups_sublist _).trans List.filter_sublist).cons_cons x
termination_by xs => xs.length
decreasing_by exact Nat.lt_succ_of_le (List.length_filter_le _ _)

theorem nodup_eraseDups [BEq α] [LawfulBEq α] : ∀ xs : List α, xs.eraseDups.Nodup
  | [] => .nil
  | x :: xs => by
    rw [List.eraseDups_cons, List.nodup_cons, List.mem_eraseDups]
    exact ⟨by simp, nodup_eraseDups _⟩
termination_by xs => xs.length
decreasing_by exact Nat.lt_succ_of_le (List.length_filter_le _ _)

@[simp] theorem mem_ascending {xs : List String} {a : String} : a ∈ ascending xs ↔ a ∈ xs := by
  rw [ascending, List.mem_eraseDups, List.mem_mergeSort]

theorem pairwise_ascending (xs : List String) : (ascending xs).Pairwise (· ≤ ·) :=
  ((Ordered.names.pairwise_mergeSort xs).sublist (eraseDups_sublist _)).imp of_decide_eq_true

/-- No text stands twice in ascending order. -/
theorem pairwise_lt_ascending (xs : List String) : (ascending xs).Pairwise (· < ·) := by
  refine (pairwise_ascending xs).imp₂ (fun a b hle hne => ?_) (nodup_eraseDups _)
  exact String.not_le.1 fun hge => hne (String.le_antisymm hle hge)

/-- Texts that ascend are the only list of the same ones that does. -/
theorem ascending_eq_of_mem_iff {xs ys : List String} (hys : ys.Pairwise (· < ·))
    (h : ∀ a, a ∈ xs ↔ a ∈ ys) : ascending xs = ys := by
  have hnodup : ys.Nodup := hys.imp fun {a b} (hlt : a < b) (heq : a = b) =>
    String.lt_irrefl b (heq ▸ hlt)
  have hperm : (ascending xs).Perm ys :=
    (List.perm_ext_iff_of_nodup (nodup_eraseDups _) hnodup).2 fun a => mem_ascending.trans (h a)
  exact hperm.eq_of_pairwise (fun _ _ _ _ => String.le_antisymm) (pairwise_ascending xs)
    (hys.imp fun hlt => String.not_lt.1 (String.lt_asymm hlt))

@[simp] theorem ascending_nil : ascending [] = [] := ascending_eq_of_mem_iff .nil fun _ => Iff.rfl

/-- Texts in ascending order are determined by which there are. -/
theorem ascending_congr {xs ys : List String} (h : ∀ a, a ∈ xs ↔ a ∈ ys) :
    ascending xs = ascending ys := by
  have hperm : (ascending xs).Perm (ascending ys) := by
    refine (List.perm_ext_iff_of_nodup (nodup_eraseDups _) (nodup_eraseDups _)).2 fun a => ?_
    exact mem_ascending.trans ((h a).trans mem_ascending.symm)
  exact hperm.eq_of_pairwise (fun _ _ _ _ => String.le_antisymm) (pairwise_ascending xs)
    (pairwise_ascending ys)

end Ascending

end EntityWeaver
