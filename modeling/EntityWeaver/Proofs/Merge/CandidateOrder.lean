import EntityWeaver.Proofs.Merge.Stages
import EntityWeaver.Proofs.Sorting
import Mathlib.Data.List.Nodup

/-! The order in which candidates are listed does not matter.

    Of candidates without removals every stage sees only which ones there are: the highest replace
    priority, the numbers of implementations, the survivors by rank. The first of the list is looked
    at in two places. It says whether the method has a result, in which all candidates agree; and it
    lends its parameters to a merged method without survivors, the one case that is left out. -/

namespace EntityWeaver.MergeFacts

variable {facts : MergeFacts} {signature : Signature} {xs ys : List Candidate}

theorem topReplace?_perm (h : xs.Perm ys) : topReplace? xs = topReplace? ys := by
  refine Option.ext fun top => ?_
  simp only [topReplace?_eq_some_iff, h.mem_iff]

theorem contenders_perm (h : xs.Perm ys) : (contenders xs).Perm (contenders ys) := by
  unfold contenders
  rw [topReplace?_perm h]
  split
  · exact h
  · exact h.filter _

/-- Only a lone candidate sets a field. -/
theorem setter?_of_length_ne_one (h : xs.length ≠ 1) : facts.setter? signature xs = none := by
  cases xs with
  | nil => rfl
  | cons c rest =>
    cases rest with
    | nil => exact absurd rfl h
    | cons d rest => rfl

theorem setter?_perm (h : xs.Perm ys) :
    facts.setter? signature xs = facts.setter? signature ys := by
  by_cases hlone : xs.length = 1
  · obtain ⟨c, rfl⟩ := List.length_eq_one_iff.1 hlone
    rw [List.perm_singleton.1 h.symm]
  · rw [setter?_of_length_ne_one hlone, setter?_of_length_ne_one (h.length_eq ▸ hlone)]

theorem activeSetter?_perm (h : xs.Perm ys) :
    facts.activeSetter? signature xs = facts.activeSetter? signature ys := by
  rw [activeSetter?, activeSetter?, topReplace?_perm h, setter?_perm h]

theorem removeStage_of_no_removals {setter : Option MergedField} {present removed : List String}
    (h : ∀ c ∈ xs, c.method.removals = []) :
    facts.removeStage signature setter present removed xs = .ok removed := by
  induction xs with
  | nil => rfl
  | cons c rest ih =>
    rw [removeStage, h c List.mem_cons_self]
    split <;> exact ih fun d hd => h d (List.mem_cons_of_mem _ hd)

/-- Without removals, pruning is replacing. -/
theorem prune_of_no_removals {isVoid : Bool} (h : ∀ c ∈ xs, c.method.removals = []) :
    facts.prune signature isVoid xs = facts.replaceStage signature isVoid xs := by
  rw [prune, replaceStage]
  split
  · rfl
  · have hc : ∀ c ∈ contenders xs, c.method.removals = [] := fun c hc =>
      h c ((contenders_sublist xs).subset hc)
    rw [ok_bind, removeStage_of_no_removals hc, ok_bind]
    simp [pure, Except.pure]

/-- Survivors with names of their own stand in one order. -/
theorem mergeSort_perm (h : xs.Perm ys) (hnames : (xs.map (·.component.name)).Nodup) :
    xs.mergeSort Candidate.le = ys.mergeSort Candidate.le := by
  refine (Ordered.ranks.on Candidate.rank).mergeSort_eq_of_perm h fun a ha b hb hab hba => ?_
  have hrank : a.rank = b.rank := Rank.le_antisymm hab hba
  exact List.inj_on_of_nodup_map hnames ha hb (congrArg Rank.component hrank)

/-- The first of the list lends its parameters only where nothing survives. -/
theorem chooseTemplate_of_ne_nil {survivors : List Candidate} (h : survivors ≠ [])
    (a b : MethodDecl) : chooseTemplate a survivors = chooseTemplate b survivors := by
  cases survivors with
  | nil => exact absurd rfl h
  | cons c rest => cases hf : (c :: rest).find? (·.isConcrete) <;> simp [chooseTemplate, hf]

theorem select_perm {splices : List Splice} {injected : Bool} (h : xs.Perm ys)
    (hnames : (xs.map (·.component.name)).Nodup)
    (hvoid : ∀ a ∈ xs, ∀ b ∈ xs, a.method.isVoid = b.method.isVoid)
    (hremove : ∀ c ∈ xs, c.method.removals = [])
    (hsurvivor : (∃ c ∈ xs, c.method.isVoid) → ∃ c ∈ contenders xs, facts.extendHolds c.method) :
    facts.select signature xs splices injected = facts.select signature ys splices injected := by
  cases xs with
  | nil => rw [h.nil_eq]
  | cons a as =>
  cases ys with
  | nil => rw [h.eq_nil]
  | cons b bs =>
  have hb : b ∈ a :: as := h.mem_iff.2 List.mem_cons_self
  have hab : a.method.isVoid = b.method.isVoid := hvoid a List.mem_cons_self b hb
  have hkept := contenders_perm h
  have hsorted := mergeSort_perm hkept (hnames.sublist ((contenders_sublist _).map _))
  have hremove' : ∀ c ∈ b :: bs, c.method.removals = [] := fun c hc => hremove c (h.mem_iff.2 hc)
  rw [select, select, prune_of_no_removals hremove, prune_of_no_removals hremove', replaceStage,
    replaceStage, topReplace?_perm h, hab, hkept.length_eq]
  split
  · rfl
  · rw [ok_bind, ok_bind]
    dsimp only
    rw [activeSetter?_perm h, hkept.countP_eq, h.any_eq, hsorted]
    by_cases hnone : ((contenders (b :: bs)).mergeSort Candidate.le).filter
        (fun c => facts.extendHolds c.method) = []
    · have hresult : b.method.isVoid = false := by
        by_contra hb'
        obtain ⟨c, hc, hext⟩ := hsurvivor ⟨b, hb, Bool.not_eq_false _ ▸ hb'⟩
        have hmem : c ∈ (contenders (b :: bs)).mergeSort Candidate.le :=
          List.mem_mergeSort.2 (hkept.mem_iff.1 hc)
        exact List.not_mem_nil (hnone ▸ List.mem_filter.2 ⟨hmem, hext⟩)
      simp [hnone, hresult]
    · rw [chooseTemplate_of_ne_nil hnone a.method b.method]

/-- Candidates without removals, all with or all without a result, merge to the same in any order,
    unless they have none and nothing survives. -/
theorem merge_perm {splices : List Splice} {hook : Option CodeHook} (h : xs.Perm ys)
    (hnames : (xs.map (·.component.name)).Nodup)
    (hvoid : ∀ a ∈ xs, ∀ b ∈ xs, a.method.isVoid = b.method.isVoid)
    (hremove : ∀ c ∈ xs, c.method.removals = [])
    (hsurvivor : (∃ c ∈ xs, c.method.isVoid) → ∃ c ∈ contenders xs, facts.extendHolds c.method) :
    facts.merge signature xs splices hook = facts.merge signature ys splices hook := by
  rw [merge, merge, select_perm h hnames hvoid hremove hsurvivor]

/-- Two candidates that replace a third one, of which one lacks the component that it extends. -/
def replacingPair : List Candidate :=
  [.ofBody "ZComp" "update" "z();" [.replace 1],
    .ofBody "YComp" "update" "y();",
    .ofBody "XComp" "update" "x();" [.replace 1, .extend ["WComp"] .all]]

theorem merge_perm_replacingPair :
    (plain ["XComp", "YComp", "ZComp"]).merge (.nullary "update") replacingPair [] none =
      (plain ["XComp", "YComp", "ZComp"]).merge (.nullary "update") replacingPair.reverse [] none :=
  merge_perm (List.reverse_perm replacingPair).symm (by decide) (by decide) (by decide) (by decide)

end EntityWeaver.MergeFacts
