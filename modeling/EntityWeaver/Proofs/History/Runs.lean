import EntityWeaver.Proofs.History
import Mathlib.Data.List.Destutter

/-! Histories along a run of calls.

    A store is asked for histories and told to bring them up to date, for any entities in any order.
    What an entity's history comes to depends on the layouts given for that entity alone: it holds them
    in order, numbered from zero, where a layout that was the newest anyway counts once.

        calls        A x   B y   A x   A z   B y   A x
        layouts A    x           x     z           x
        history A    0 x         0 x   0 x         0 x
                                       1 z         1 z
                                                   2 x

    This holds as long as the numbers last: 65536 layouts have a version of their own. -/

namespace EntityWeaver

/-- A call of a store of histories. -/
inductive HistoryCall where
  | load (entity : String)
  | update (entity : String) (layout : List LayoutField)
  deriving Repr, DecidableEq

namespace HistoryCall

def entity : HistoryCall → String
  | .load entity => entity
  | .update entity _ => entity

/-- The layout that a call gives for an entity. -/
def layoutFor? (entity : String) : HistoryCall → Option (List LayoutField)
  | .load _ => none
  | .update other layout => if other = entity then some layout else none

/-- The layouts given for an entity, in order; a repeated one counts once. -/
def layoutsFor (entity : String) (calls : List HistoryCall) : List (List LayoutField) :=
  (calls.filterMap (layoutFor? entity)).destutter (· ≠ ·)

end HistoryCall

/-- Layouts with their versions, from zero on. -/
def Revision.numbered (layouts : List (List LayoutField)) : List Revision :=
  layouts.zipIdx.map fun (layout, i) => ⟨.ofNat i, layout⟩

namespace HistoryStore

variable {m : Type → Type} [Monad m]

/-- What a store answers to a call. -/
def answer (s : HistoryStore m) : HistoryCall → m (Except HistoryError (List Revision))
  | .load entity => s.load entity
  | .update entity layout => s.update entity layout

/-- What a store answers to calls, one after the other. -/
def answers (s : HistoryStore m) (calls : List HistoryCall) :
    m (List (Except HistoryError (List Revision))) := calls.mapM s.answer

end HistoryStore

section Collapsing

variable {α : Type} [DecidableEq α]

theorem destutter'_concat (a : α) (xs : List α) (x : α) : (xs ++ [x]).destutter' (· ≠ ·) a =
    if (xs.destutter' (· ≠ ·) a).getLast? = some x then xs.destutter' (· ≠ ·) a
    else xs.destutter' (· ≠ ·) a ++ [x] := by
  induction xs generalizing a with
  | nil => by_cases h : a = x <;> simp [h]
  | cons b xs ih =>
    by_cases hab : a = b
    · simp only [List.cons_append, List.destutter'_cons, hab, ne_eq, not_true_eq_false, if_false, ih]
    · obtain ⟨kept, hkept⟩ := List.getLast?_isSome.2 (List.destutter'_ne_nil xs (· ≠ ·) (a := b)) |>
        Option.isSome_iff_exists.1
      simp only [List.cons_append, List.destutter'_cons, ne_eq, hab, not_false_eq_true, if_true, ih,
        List.getLast?_cons, hkept, Option.getD_some]
      split <;> rfl

/-- One more value is kept unless it repeats the last one kept. -/
theorem destutter_concat (xs : List α) (x : α) : (xs ++ [x]).destutter (· ≠ ·) =
    if (xs.destutter (· ≠ ·)).getLast? = some x then xs.destutter (· ≠ ·)
    else xs.destutter (· ≠ ·) ++ [x] := by
  cases xs with
  | nil => rfl
  | cons a xs => exact destutter'_concat a xs x

end Collapsing

namespace HistoryCall

variable {entity : String} {calls : List HistoryCall} {call : HistoryCall}

/-- A call that gives an entity no layout does not count for it. -/
theorem layoutsFor_concat_of_none (h : call.layoutFor? entity = none) :
    layoutsFor entity (calls ++ [call]) = layoutsFor entity calls := by
  rw [layoutsFor, List.filterMap_append, List.filterMap_cons_none h, List.filterMap_nil,
    List.append_nil, layoutsFor]

/-- A layout given for an entity is one more of its layouts, unless it is the newest. -/
theorem layoutsFor_concat_of_some {layout : List LayoutField}
    (h : call.layoutFor? entity = some layout) : layoutsFor entity (calls ++ [call]) =
      if (layoutsFor entity calls).getLast? = some layout then layoutsFor entity calls
      else layoutsFor entity calls ++ [layout] := by
  rw [layoutsFor, List.filterMap_append, List.filterMap_cons_some h, List.filterMap_nil,
    destutter_concat]
  rfl

/-- More calls give an entity no fewer layouts. -/
theorem length_layoutsFor_le (calls more : List HistoryCall) :
    (layoutsFor entity calls).length ≤ (layoutsFor entity (calls ++ more)).length := by
  induction more using List.reverseRecOn with
  | nil => rw [List.append_nil]
  | append_singleton more call ih =>
    rw [← List.append_assoc]
    refine ih.trans ?_
    cases h : call.layoutFor? entity with
    | none => rw [layoutsFor_concat_of_none h]
    | some layout =>
      rw [layoutsFor_concat_of_some h]
      split <;> simp

end HistoryCall

namespace Revision

variable {layouts : List (List LayoutField)}

theorem numbered_concat (layouts : List (List LayoutField)) (layout : List LayoutField) :
    numbered (layouts ++ [layout]) = numbered layouts ++ [⟨.ofNat layouts.length, layout⟩] := by
  simp [numbered, List.zipIdx_append]

theorem getLast?_numbered (layouts : List (List LayoutField)) : (numbered layouts).getLast? =
    layouts.getLast?.map fun layout => ⟨.ofNat (layouts.length - 1), layout⟩ := by
  induction layouts using List.reverseRecOn with
  | nil => rfl
  | append_singleton layouts layout _ => simp [numbered_concat]

/-- The version behind a number is that of the next number. -/
theorem nextVersion_ofNat {n : Nat} (h : n < 0xffff) :
    nextVersion (.ofNat n) = .ofNat (n + 1) := by
  have hn : (UInt16.ofNat n).toNat = n := UInt16.toNat_ofNat_of_lt' (Nat.lt_succ_of_lt h)
  have hlast : UInt16.ofNat n ≠ 0xffff := by
    intro hlast
    have hnum := congrArg UInt16.toNat hlast
    rw [hn] at hnum
    exact h.ne hnum
  refine UInt16.toNat.inj ?_
  rw [toNat_nextVersion hlast, hn, UInt16.toNat_ofNat_of_lt' (Nat.succ_lt_succ h)]

/-- Numbered layouts lack a layout under the next number. -/
theorem lacking?_numbered {layout : List LayoutField}
    (h : layouts.getLast? ≠ some layout → layouts.length ≤ 0xffff) :
    lacking? (numbered layouts) layout =
      if layouts.getLast? = some layout then none else some ⟨.ofNat layouts.length, layout⟩ := by
  rw [lacking?, getLast?_numbered]
  cases hlast : layouts.getLast? with
  | none =>
    rw [List.getLast?_eq_none_iff.1 hlast]
    rfl
  | some newest =>
    have hpos : 0 < layouts.length := List.length_pos_of_mem (List.mem_of_getLast? hlast)
    simp only [Option.map_some, Option.some.injEq]
    split
    · rfl
    · next hne =>
      have hlength := h (hlast ▸ fun heq => hne (Option.some.inj heq))
      rw [nextVersion_ofNat (by omega), Nat.sub_add_cancel hpos]

end Revision

namespace MemoryHistories

variable {h : MemoryHistories} {calls : List HistoryCall} {call : HistoryCall}

/-- The history that a call is answered with. -/
def answer (h : MemoryHistories) : HistoryCall → List Revision
  | .load entity => h.load entity
  | .update entity layout => (h.update entity layout).1

/-- The histories behind a call. -/
def after (h : MemoryHistories) : HistoryCall → MemoryHistories
  | .load _ => h
  | .update entity layout => (h.update entity layout).2

/-- The histories that calls are answered with. -/
def answers (h : MemoryHistories) : List HistoryCall → List (List Revision)
  | [] => []
  | call :: rest => h.answer call :: (h.after call).answers rest

theorem run_answer (h : MemoryHistories) (call : HistoryCall) :
    (memoryStore.answer call : StateM MemoryHistories _).run h = (.ok (h.answer call), h.after call) :=
  match call with
  | .load _ => rfl
  | .update entity layout => h.run_update entity layout

/-- A store in memory answers every call with a history. -/
theorem run_answers (h : MemoryHistories) (calls : List HistoryCall) :
    (memoryStore.answers calls : StateM MemoryHistories _).run h =
      ((h.answers calls).map .ok, calls.foldl after h) := by
  induction calls generalizing h with
  | nil => rfl
  | cons call rest ih =>
    have hrest : (memoryStore.answers rest : StateM MemoryHistories _) =
        rest.mapM memoryStore.answer := rfl
    rw [HistoryStore.answers, List.mapM_cons, run_bind_of_run (h.run_answer call), ← hrest,
      run_bind_of_run (ih (h.after call))]
    rfl

theorem getElem?_answers (h : MemoryHistories) (earlier later : List HistoryCall)
    (call : HistoryCall) : (h.answers (earlier ++ call :: later))[earlier.length]? =
      some ((earlier.foldl after h).answer call) := by
  induction earlier generalizing h with
  | nil => rfl
  | cons first rest ih => exact ih (h.after first)

/-- The histories behind calls to a store that has none to begin with. -/
def behind (calls : List HistoryCall) : MemoryHistories :=
  ((memoryStore.answers calls : StateM MemoryHistories _).run .empty).2

theorem behind_eq_foldl (calls : List HistoryCall) : behind calls = calls.foldl after .empty := by
  rw [behind, run_answers]

theorem behind_concat (calls : List HistoryCall) (call : HistoryCall) :
    behind (calls ++ [call]) = (behind calls).after call := by
  rw [behind_eq_foldl, behind_eq_foldl, List.foldl_append]
  rfl

/-- A call leaves what it answers and nothing else, as long as there is a version for the layout. -/
theorem after_spec (hplace : ∀ layout, call.layoutFor? call.entity = some layout →
    h.HasPlaceFor call.entity layout) :
    (h.after call).load call.entity = h.answer call ∧
      (∀ layout, call.layoutFor? call.entity = some layout →
        ∃ r, (h.answer call).getLast? = some r ∧ r.fields = layout) ∧
      ∀ other, other ≠ call.entity → (h.after call).load other = h.load other := by
  cases call with
  | load entity => exact ⟨rfl, fun _ hlayout => (nomatch hlayout), fun _ _ => rfl⟩
  | update entity layout =>
    obtain ⟨hload, hlast, hothers⟩ := update_spec (hplace layout (if_pos rfl))
    refine ⟨hload, fun given hgiven => ?_, hothers⟩
    obtain rfl : layout = given := Option.some.inj ((if_pos rfl).symm.trans hgiven)
    exact hlast

/-- Histories hold the layouts that calls give for each entity. -/
def Holds (h : MemoryHistories) (calls : List HistoryCall) : Prop :=
  ∀ entity, h.load entity = Revision.numbered (HistoryCall.layoutsFor entity calls)

namespace Holds

variable {entity : String} {layout : List LayoutField}

/-- A layout that does not repeat the newest is one more. -/
theorem length_le_of_ne (hgiven : call.layoutFor? entity = some layout)
    (hshort : (HistoryCall.layoutsFor entity (calls ++ [call])).length ≤ 0x10000)
    (hne : (HistoryCall.layoutsFor entity calls).getLast? ≠ some layout) :
    (HistoryCall.layoutsFor entity calls).length ≤ 0xffff := by
  rw [HistoryCall.layoutsFor_concat_of_some hgiven, if_neg hne, List.length_append] at hshort
  exact Nat.le_of_succ_le_succ hshort

/-- There is a version for a layout that is among the first 65536. -/
theorem hasPlaceFor (hh : h.Holds calls) (hgiven : call.layoutFor? entity = some layout)
    (hshort : (HistoryCall.layoutsFor entity (calls ++ [call])).length ≤ 0x10000) :
    h.HasPlaceFor entity layout := by
  intro r hr hversion
  rw [hh entity, Revision.getLast?_numbered] at hr
  obtain ⟨newest, hnewest, rfl⟩ := Option.map_eq_some_iff.1 hr
  by_contra hne
  have hpos := List.length_pos_of_mem (List.mem_of_getLast? hnewest)
  have hlength := length_le_of_ne hgiven hshort (hnewest ▸ fun heq => hne (Option.some.inj heq))
  -- the last version is that of the 65536th layout, and the given one would be one more
  have hnum := congrArg UInt16.toNat hversion
  rw [UInt16.toNat_ofNat_of_lt' (show _ < 65536 by omega)] at hnum
  have hlast : (0xffff : UInt16).toNat = 0xffff := rfl
  omega

/-- What one call preserves. -/
theorem after (hh : h.Holds calls)
    (hshort : ∀ entity, (HistoryCall.layoutsFor entity (calls ++ [call])).length ≤ 0x10000) :
    (h.after call).Holds (calls ++ [call]) := by
  obtain ⟨hload, -, hothers⟩ := after_spec fun _ hgiven => hh.hasPlaceFor hgiven (hshort _)
  intro entity
  by_cases hentity : entity = call.entity
  · subst hentity
    rw [hload]
    cases call with
    | load entity =>
      rw [HistoryCall.layoutsFor_concat_of_none rfl]
      exact hh entity
    | update entity layout =>
      have hgiven : (HistoryCall.update entity layout).layoutFor? entity = some layout := if_pos rfl
      have hlacking := Revision.lacking?_numbered (length_le_of_ne hgiven (hshort entity))
      show (h.update entity layout).1 =
        Revision.numbered (HistoryCall.layoutsFor entity (calls ++ [.update entity layout]))
      rw [HistoryCall.layoutsFor_concat_of_some hgiven, update, hh entity, hlacking]
      by_cases hlast : (HistoryCall.layoutsFor entity calls).getLast? = some layout
      · rw [if_pos hlast, if_pos hlast]
      · rw [if_neg hlast, if_neg hlast, Revision.numbered_concat]
  · rw [hothers entity hentity, hh entity, HistoryCall.layoutsFor_concat_of_none]
    cases call with
    | load _ => rfl
    | update other _ => exact if_neg (Ne.symm hentity)

end Holds

/-- What a run of calls preserves. -/
theorem holds_behind (calls : List HistoryCall)
    (hshort : ∀ entity, (HistoryCall.layoutsFor entity calls).length ≤ 0x10000) :
    (behind calls).Holds calls := by
  induction calls using List.reverseRecOn with
  | nil => exact fun _ => rfl
  | append_singleton calls call ih =>
    rw [behind_concat]
    refine (ih fun entity => ?_).after hshort
    exact (HistoryCall.length_layoutsFor_le calls [call]).trans (hshort entity)

/-- Behind calls to a store that begins with no histories, every entity has the layouts given for it,
    in order and numbered from zero. Every call is answered with what its entity has right behind it,
    the layout that it gives comes last there, and the histories of other entities stay. -/
theorem load_behind (calls : List HistoryCall)
    (hshort : ∀ entity, (HistoryCall.layoutsFor entity calls).length ≤ 0x10000) :
    (∀ entity, (behind calls).load entity =
      Revision.numbered (HistoryCall.layoutsFor entity calls)) ∧
    ∀ earlier call later, calls = earlier ++ call :: later →
      ((memoryStore.answers calls : StateM MemoryHistories _).run .empty).1[earlier.length]? =
        some (.ok ((behind (earlier ++ [call])).load call.entity)) ∧
      (∀ layout, call.layoutFor? call.entity = some layout →
        ∃ r, ((behind (earlier ++ [call])).load call.entity).getLast? = some r ∧ r.fields = layout) ∧
      ∀ other, other ≠ call.entity →
        (behind (earlier ++ [call])).load other = (behind earlier).load other := by
  refine ⟨holds_behind calls hshort, ?_⟩
  rintro earlier call later rfl
  have hsplit : earlier ++ call :: later = earlier ++ [call] ++ later := by simp
  have hshortCall : ∀ entity,
      (HistoryCall.layoutsFor entity (earlier ++ [call])).length ≤ 0x10000 := by
    intro entity
    have hlength := hshort entity
    rw [hsplit] at hlength
    exact (HistoryCall.length_layoutsFor_le _ later).trans hlength
  have hearlier : (behind earlier).Holds earlier := holds_behind earlier fun entity =>
    (HistoryCall.length_layoutsFor_le earlier [call]).trans (hshortCall entity)
  obtain ⟨hload, hlast, hothers⟩ := after_spec fun _ hgiven =>
    hearlier.hasPlaceFor hgiven (hshortCall call.entity)
  rw [behind_concat, hload, run_answers, List.getElem?_map, getElem?_answers, ← behind_eq_foldl]
  exact ⟨rfl, hlast, hothers⟩

/-- Two entities in turn, one of which returns to its first layout. -/
def turns : List HistoryCall :=
  [.update "Dummy" [⟨"x", "float"⟩], .update "Unit" [], .update "Dummy" [⟨"x", "float"⟩],
    .update "Dummy" [], .load "Unit", .update "Dummy" [⟨"x", "float"⟩]]

/-- The one that returns to its first layout has it twice, and the other has its only layout. -/
theorem load_behind_turns :
    (∀ entity, (HistoryCall.layoutsFor entity turns).length ≤ 0x10000) ∧
      (behind turns).load "Dummy" =
        [⟨0, [⟨"x", "float"⟩]⟩, ⟨1, []⟩, ⟨2, [⟨"x", "float"⟩]⟩] ∧
      (behind turns).load "Unit" = [⟨0, []⟩] := by
  have hshort : ∀ entity, (HistoryCall.layoutsFor entity turns).length ≤ 0x10000 := by
    intro entity
    refine ((List.destutter_sublist _ _).length_le.trans (List.length_filterMap_le _ _)).trans ?_
    decide
  obtain ⟨hload, -⟩ := load_behind turns hshort
  refine ⟨hshort, ?_, ?_⟩
  · rw [hload]
    decide
  · rw [hload]
    decide

end MemoryHistories

end EntityWeaver
