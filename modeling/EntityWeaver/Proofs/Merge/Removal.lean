import EntityWeaver.Proofs.Merge.Stages
import Mathlib.Data.List.Nodup
import Mathlib.Data.List.Pairwise
import Mathlib.Tactic.Push

/-! Which candidates a merge deletes.

    A removed candidate should remove nothing: then exactly those contenders are deleted that some
    kept one removes, and in a chain `x ─▶ y ─▶ z` of removals `z` stays. Candidates are taken from
    the left, though, and one that is removed only later has acted by then:

        x y z    x deletes y, y is passed over, z stays
        y x z    y deletes z, x deletes y, and z is deleted by a deleted candidate

    So the rule holds exactly when every deleted candidate with a removal of its own is deleted by a
    kept one that stands ahead of it. -/

namespace EntityWeaver.MergeFacts

/-- Exactly those entries are deleted that a kept one removes. -/
def Consistent (entries kept : List Candidate) : Prop :=
  ∀ x ∈ entries, x ∉ kept ↔ ∃ y ∈ kept, Removes y x

/-- Every deleted entry that removes an entry is removed by a kept one ahead of it. -/
def RemovedInTime (entries kept : List Candidate) : Prop :=
  ∀ before y after, entries = before ++ y :: after → y ∉ kept → (∃ x ∈ entries, Removes y x) →
    ∃ z ∈ before, z ∈ kept ∧ Removes z y

theorem acting_append (gone : List String) (xs ys : List Candidate) :
    acting gone (xs ++ ys) =
      acting gone xs ++ acting (gone ++ (acting gone xs).flatMap (·.method.removals)) ys := by
  induction xs generalizing gone with
  | nil => simp [acting]
  | cons c rest ih =>
    rw [List.cons_append, acting, acting]
    split
    · exact ih gone
    · rw [ih, List.cons_append, List.flatMap_cons, List.append_assoc]

/-- A candidate acts unless one that acts ahead of it removes it. -/
theorem mem_acting_iff {before after : List Candidate} {y : Candidate}
    (hnd : (before ++ y :: after).Nodup) :
    y ∈ acting [] (before ++ y :: after) ↔ ∀ z ∈ acting [] before, ¬Removes z y := by
  obtain ⟨-, hy, hdisj⟩ := List.nodup_append.1 hnd
  have hbefore : y ∉ acting [] before := fun h =>
    hdisj y ((acting_sublist [] before).subset h) y List.mem_cons_self rfl
  have hafter : ∀ gone, y ∉ acting gone after := fun gone h =>
    (List.nodup_cons.1 hy).1 ((acting_sublist gone after).subset h)
  rw [acting_append, List.mem_append, or_iff_right hbefore, List.nil_append, acting]
  split
  · next hgone =>
    obtain ⟨z, hz, hzy⟩ := List.mem_flatMap.1 hgone
    exact ⟨fun h => absurd h (hafter _), fun h => absurd hzy (h z hz)⟩
  · next hgone =>
    refine ⟨fun _ z hz hzy => hgone (List.mem_flatMap.2 ⟨z, hz, hzy⟩), fun _ => List.mem_cons_self⟩

/-- A candidate that is kept has acted. -/
theorem mem_acting_of_mem_spared {entries : List Candidate} (hnd : entries.Nodup) {c : Candidate}
    (h : c ∈ spared entries) : c ∈ acting [] entries := by
  obtain ⟨hc, hspared⟩ := mem_spared_iff.1 h
  obtain ⟨before, after, rfl⟩ := List.append_of_mem hc
  refine (mem_acting_iff hnd).2 fun z hz => hspared z ?_
  rw [acting_append]
  exact List.mem_append_left _ hz

/-- If removals are consistent, a deleted entry with a removal was passed over. -/
theorem removedInTime_of_consistent {entries : List Candidate} (hnd : entries.Nodup)
    (honce : (acting [] entries).Pairwise fun a b => ∀ c ∈ entries, Removes a c → ¬Removes b c)
    (h : Consistent entries (spared entries)) : RemovedInTime entries (spared entries) := by
  -- two acting candidates that remove the same entry are the same
  have hunique : ∀ a ∈ acting [] entries, ∀ b ∈ acting [] entries, ∀ c ∈ entries,
      Removes a c → Removes b c → a = b := by
    intro a ha b hb c hc hac hbc
    by_contra hne
    have hsymm : Std.Symm fun a b => ∀ c ∈ entries, Removes a c → ¬Removes b c :=
      ⟨fun _ _ hab c hc hb ha => hab c hc ha hb⟩
    exact honce.forall ha hb hne c hc hac hbc
  rintro before y after rfl hy ⟨x, hx, hyx⟩
  have hyin : y ∈ before ++ y :: after := List.mem_append_right _ List.mem_cons_self
  obtain ⟨z, hz, hzy⟩ := (h y hyin).1 hy
  have hpassed : y ∉ acting [] (before ++ y :: after) := by
    intro hacts
    have hxgone : x ∉ spared (before ++ y :: after) := fun hs => (mem_spared_iff.1 hs).2 y hacts hyx
    obtain ⟨w, hw, hwx⟩ := (h x hx).1 hxgone
    obtain rfl := hunique w (mem_acting_of_mem_spared hnd hw) y hacts x hx hwx hyx
    exact hy hw
  rw [mem_acting_iff hnd] at hpassed
  push Not at hpassed
  obtain ⟨w, hw, hwy⟩ := hpassed
  have hwacts : w ∈ acting [] (before ++ y :: after) := by
    rw [acting_append]
    exact List.mem_append_left _ hw
  obtain rfl := hunique w hwacts z (mem_acting_of_mem_spared hnd hz) y hyin hwy hzy
  exact ⟨w, (acting_sublist [] before).subset hw, hz, hwy⟩

/-- If deleted entries with a removal were passed over, only kept ones have removed anything. -/
theorem consistent_of_removedInTime {entries : List Candidate} (hnd : entries.Nodup)
    (h : RemovedInTime entries (spared entries)) : Consistent entries (spared entries) := by
  intro x hx
  constructor
  · intro hgone
    obtain ⟨a, ha, hax⟩ : ∃ a ∈ acting [] entries, Removes a x := by
      by_contra hnone
      exact hgone (mem_spared_iff.2 ⟨hx, fun a ha hax => hnone ⟨a, ha, hax⟩⟩)
    by_contra hnone
    have hagone : a ∉ spared entries := fun hs => hnone ⟨a, hs, hax⟩
    obtain ⟨before, after, rfl⟩ := List.append_of_mem ((acting_sublist [] entries).subset ha)
    obtain ⟨z, hz, hkept, hza⟩ := h before a after rfl hagone ⟨x, hx, hax⟩
    have hzacts := mem_acting_of_mem_spared hnd hkept
    rw [acting_append] at hzacts
    rcases List.mem_append.1 hzacts with hzb | hza'
    · exact (mem_acting_iff hnd).1 ha z hzb hza
    · exact (List.nodup_append.1 hnd).2.2 z hz z ((acting_sublist _ _).subset hza') rfl
  · rintro ⟨y, hy, hyx⟩ hkept
    exact (mem_spared_iff.1 hkept).2 y (mem_acting_of_mem_spared hnd hy) hyx

/-- A contender is deleted when an acting one removes it. Only kept candidates count for that, as a
    removed one's removals should not apply, exactly if the removals come in time. -/
theorem prune_consistent_iff {facts : MergeFacts} {signature : Signature} {isVoid : Bool}
    {candidates kept : List Candidate} (hnames : (candidates.map (·.component.name)).Nodup)
    (h : facts.prune signature isVoid candidates = .ok kept) :
    (∀ x ∈ contenders candidates,
        x ∉ kept ↔ ∃ a ∈ acting [] (contenders candidates), Removes a x) ∧
      (Consistent (contenders candidates) kept ↔ RemovedInTime (contenders candidates) kept) := by
  obtain ⟨rfl, honce⟩ := prune_eq_ok h
  have hnd : (contenders candidates).Nodup :=
    (List.Nodup.of_map _ hnames).sublist (contenders_sublist candidates)
  refine ⟨fun x hx => ?_, removedInTime_of_consistent hnd honce, consistent_of_removedInTime hnd⟩
  rw [mem_spared_iff, and_iff_right hx]
  push Not
  rfl

/-- The chain `x ─▶ y ─▶ z`, listed as `y x z`. -/
def lateChain : List Candidate :=
  [.ofBody "YComp" "update" "y();" [.remove "ZComp"],
    .ofBody "XComp" "update" "x();" [.remove "YComp"],
    .ofBody "ZComp" "update" "z();"]

theorem prune_lateChain :
    (plain ["XComp", "YComp", "ZComp"]).prune (.nullary "update") true lateChain =
      .ok [.ofBody "XComp" "update" "x();" [.remove "YComp"]] := rfl

/-- What can be said of the chain in that order. -/
theorem prune_consistent_iff_lateChain :
    (lateChain.map (·.component.name)).Nodup ∧ ∃ kept,
      (plain ["XComp", "YComp", "ZComp"]).prune (.nullary "update") true lateChain = .ok kept ∧
        (∀ x ∈ contenders lateChain,
          x ∉ kept ↔ ∃ a ∈ acting [] (contenders lateChain), Removes a x) ∧
        (Consistent (contenders lateChain) kept ↔ RemovedInTime (contenders lateChain) kept) :=
  ⟨by decide, _, prune_lateChain, prune_consistent_iff (by decide) prune_lateChain⟩

/-- In the chain listed as `y x z` the end is deleted, although only a deleted candidate removes
    it. -/
theorem lateChain_not_consistent :
    ∃ kept, (plain ["XComp", "YComp", "ZComp"]).prune (.nullary "update") true lateChain = .ok kept ∧
      ¬Consistent (contenders lateChain) kept := by
  refine ⟨_, prune_lateChain, fun h => ?_⟩
  have hz := h (.ofBody "ZComp" "update" "z();") (by decide)
  revert hz
  decide

end EntityWeaver.MergeFacts
