import EntityWeaver.Proofs.Merge.Contributions

/-! The bodies that a merged method runs.

    Bodies are looked up through guards and helpers. What stands around a contribution (calls, the
    group check, the groups, code of the entity) holds no body, and helpers of different blocks have
    different names. So the bodies of a plan are those of its contributions, each once:

        candidates ─▶ survivors ─▶ by rank, bypassing ones first ─▶ their statements -/

namespace EntityWeaver

namespace Step

theorem bodiesOfAll_eq_flatMap (helpers : List Helper) (steps : List Step) :
    bodiesOfAll helpers steps = steps.flatMap (·.bodies helpers) := by
  induction steps with
  | nil => rfl
  | cons s rest ih => rw [bodiesOfAll, ih, List.flatMap_cons]

theorem bodiesOfAll_append (helpers : List Helper) (xs ys : List Step) :
    bodiesOfAll helpers (xs ++ ys) = bodiesOfAll helpers xs ++ bodiesOfAll helpers ys := by
  simp only [bodiesOfAll_eq_flatMap, List.flatMap_append]

/-- A guard runs the bodies of its steps. -/
theorem bodiesOfAll_guarded (helpers : List Helper) (predicates : List String) (steps : List Step) :
    bodiesOfAll helpers (guarded predicates steps) = bodiesOfAll helpers steps := by
  unfold guarded
  split
  · rfl
  · simp [bodiesOfAll, bodies]

/-- Steps without bodies of their own, such as calls of spliced methods. -/
theorem bodiesOfAll_map {α : Type} (helpers : List Helper) {f : α → Step}
    (h : ∀ x, (f x).bodies helpers = []) (xs : List α) : bodiesOfAll helpers (xs.map f) = [] := by
  simp [bodiesOfAll_eq_flatMap, List.flatMap_map, h]

end Step

namespace Layouter

variable (l : Layouter)

/-- The splices around a contribution hold no bodies. -/
theorem bodiesOfAll_steps (helpers : List Helper) (u : Contribution) :
    Step.bodiesOfAll helpers (l.steps u) = Step.bodiesOfAll helpers (l.core u) := by
  have hcalls : ∀ block after, Step.bodiesOfAll helpers (l.calls block after) = [] := fun _ _ =>
    Step.bodiesOfAll_map helpers (fun _ => rfl) _
  rw [steps, Step.bodiesOfAll_guarded, Step.bodiesOfAll_append, Step.bodiesOfAll_append, hcalls,
    hcalls, List.nil_append, List.append_nil]

/-- The helper of a body is named after the block of its component. -/
theorem helper?_eq_some {u : Contribution} {h : Helper} (hu : l.helper? u = some h) :
    ∃ c, u.candidate? = some c ∧ h.name = l.helperName (ComponentName.block c.component.name) := by
  cases u with
  | setter f => cases hu
  | body c =>
    unfold helper? at hu
    dsimp only at hu
    split at hu
    · obtain ⟨text, -, rfl⟩ := Option.map_eq_some_iff.1 hu
      exact ⟨c, rfl, rfl⟩
    · cases hu

/-- Bodies of different blocks get helpers of different names. -/
theorem helper_names_nodup {us : List Contribution}
    (hblocks : ((us.filterMap (·.candidate?)).map fun c =>
      ComponentName.block c.component.name).Nodup) :
    ((us.filterMap l.helper?).map (·.name)).Nodup := by
  have hne := List.pairwise_filterMap.1 (List.pairwise_map.1 hblocks)
  refine List.pairwise_map.2 (List.pairwise_filterMap.2 (hne.imp ?_))
  intro u v huv h hh k hk hname
  obtain ⟨c, hc, hcname⟩ := l.helper?_eq_some hh
  obtain ⟨d, hd, hdname⟩ := l.helper?_eq_some hk
  rw [hcname, hdname] at hname
  exact huv c hc d hd (String.append_right_inj _ |>.1 hname)

/-- A helper is found under its name. -/
theorem find?_helper {helpers : List Helper} (hnames : (helpers.map (·.name)).Nodup) {h : Helper}
    (hmem : h ∈ helpers) : helpers.find? (·.name == h.name) = some h := by
  induction helpers with
  | nil => cases hmem
  | cons k rest ih =>
    obtain ⟨hk, hrest⟩ := List.nodup_cons.1 hnames
    rcases List.mem_cons.1 hmem with rfl | hmem
    · exact List.find?_cons_of_pos (by simp)
    · have hne : k.name ≠ h.name := fun hkh => hk (List.mem_map.2 ⟨h, hmem, hkh.symm⟩)
      rw [List.find?_cons_of_neg (by simpa using hne)]
      exact ih hrest hmem

/-- Laid out beside the helpers that they need, contributions run the statements of their bodies. -/
theorem bodiesOfAll_core {us : List Contribution}
    (hnames : ((us.filterMap l.helper?).map (·.name)).Nodup) {u : Contribution} (hu : u ∈ us) :
    Step.bodiesOfAll (us.filterMap l.helper?) (l.core u) =
      (u.candidate?.bind l.statements?).toList := by
  cases u with
  | setter f =>
    rw [core, Step.bodiesOfAll_eq_flatMap]
    cases l.params.head? <;> rfl
  | body c =>
    rw [core, Step.bodiesOfAll_eq_flatMap]
    cases htext : l.statements? c with
    | none => simp [Contribution.candidate?, htext]
    | some text =>
      by_cases hi : l.isolate
      · let h : Helper := ⟨l.helperName (ComponentName.block c.component.name), c.component.name,
          c.method.params, text, c.method.noBreakBlock⟩
        have hmem : h ∈ us.filterMap l.helper? :=
          List.mem_filterMap.2 ⟨.body c, hu, by simp [helper?, hi, htext, h, Contribution.owner]⟩
        have hfind := find?_helper hnames hmem
        simp only [h] at hfind
        simp [hi, Step.bodies, Contribution.owner, Contribution.candidate?, hfind, htext]
      · simp [hi, Step.bodies, Contribution.candidate?, htext]

end Layouter

namespace Selection

/-- The helpers of a plan are those of its contributions. -/
theorem plan_helpers (s : Selection) (facts : MergeFacts) (signature : Signature)
    (injected : Option CodeBlock) : (s.plan facts signature injected).helpers =
      (s.laidOut signature).filterMap (s.layouter signature).helper? := rfl

theorem bodiesOfAll_callsOf (helpers : List Helper) (splices : List Splice) :
    Step.bodiesOfAll helpers (callsOf splices) = [] :=
  Step.bodiesOfAll_map helpers (fun _ => rfl) splices

theorem bodiesOfAll_callsBefore (s : Selection) (helpers : List Helper) (signature : Signature)
    (bypass : Bool) : Step.bodiesOfAll helpers (s.callsBefore signature bypass) = [] := by
  unfold callsBefore
  dsimp only
  split
  · exact bodiesOfAll_callsOf helpers _
  · split
    · rfl
    · exact bodiesOfAll_callsOf helpers _

theorem bodiesOfAll_flatMap_steps (l : Layouter) (helpers : List Helper) (us : List Contribution) :
    Step.bodiesOfAll helpers (us.flatMap l.steps) =
      us.flatMap fun u => Step.bodiesOfAll helpers (l.core u) := by
  simp only [← l.bodiesOfAll_steps, Step.bodiesOfAll_eq_flatMap, List.flatMap_assoc]

/-- Behind the group check only the contributions that are laid out there hold bodies. -/
theorem bodiesOfAll_inner (s : Selection) (helpers : List Helper) (facts : MergeFacts)
    (signature : Signature) (injected : Option CodeBlock) :
    Step.bodiesOfAll helpers (s.inner facts signature injected) =
      (s.checked signature).flatMap fun u =>
        Step.bodiesOfAll helpers ((s.layouter signature).core u) := by
  have hinjected : Step.bodiesOfAll helpers (injected.map Step.code).toList = [] := by
    cases injected <;> rfl
  have hrelease : Step.bodiesOfAll helpers (release facts signature) = [] := by
    unfold release
    split <;> rfl
  simp only [inner, Step.bodiesOfAll_append, bodiesOfAll_callsBefore, hinjected, hrelease,
    bodiesOfAll_callsOf, bodiesOfAll_flatMap_steps, List.nil_append, List.append_nil]

/-- Ahead of the group check only the contributions that bypass it hold bodies. -/
theorem bodiesOfAll_opening (s : Selection) (helpers : List Helper) (facts : MergeFacts)
    (signature : Signature) :
    Step.bodiesOfAll helpers (s.opening facts signature) =
      (s.bypassing signature).flatMap fun u =>
        Step.bodiesOfAll helpers ((s.layouter signature).core u) := by
  unfold opening
  split
  · next hm => simp [bypassing, hm, Step.bodiesOfAll]
  · next adding hm =>
    have hgroups : Step.bodiesOfAll helpers (facts.groups.map fun g => .group g adding) = [] :=
      Step.bodiesOfAll_map helpers (fun _ => rfl) facts.groups
    rw [Step.bodiesOfAll_append, Step.bodiesOfAll_append, bodiesOfAll_callsBefore,
      bodiesOfAll_flatMap_steps, Step.bodiesOfAll, hgroups]
    simp [Step.bodies]

/-- Where helpers have names of their own, the bodies of a plan are the statements of its candidates,
    as they are laid out. -/
theorem bodies_plan_of_names (s : Selection) (facts : MergeFacts) (signature : Signature)
    (injected : Option CodeBlock)
    (hnames : ((s.plan facts signature injected).helpers.map (·.name)).Nodup) :
    (s.plan facts signature injected).bodies =
      (s.ordered signature).filterMap (s.layouter signature).statements? :=
  calc (s.plan facts signature injected).bodies
      = (s.laidOut signature).flatMap fun u => Step.bodiesOfAll
          ((s.laidOut signature).filterMap (s.layouter signature).helper?)
          ((s.layouter signature).core u) := by
        rw [MethodPlan.bodies, plan_helpers]
        simp only [plan, laidOut, Step.bodiesOfAll_append, Step.bodiesOfAll_guarded,
          bodiesOfAll_opening, bodiesOfAll_inner, List.flatMap_append]
    _ = (s.laidOut signature).flatMap fun u =>
          (u.candidate?.bind (s.layouter signature).statements?).toList :=
        List.flatMap_congr fun u hu => (s.layouter signature).bodiesOfAll_core hnames hu
    _ = _ := by rw [ordered, List.filterMap_filterMap, List.filterMap_eq_flatMap_toList]

/-- So they are where the survivors have blocks of their own. -/
theorem bodies_plan (s : Selection) (facts : MergeFacts) (signature : Signature)
    (injected : Option CodeBlock)
    (hblocks : (s.survivors.map fun c => ComponentName.block c.component.name).Nodup) :
    (s.plan facts signature injected).bodies =
      (s.ordered signature).filterMap (s.layouter signature).statements? := by
  have hordered : ((s.ordered signature).map fun c =>
      ComponentName.block c.component.name).Nodup :=
    ((s.ordered_perm_survivors signature).map _).nodup_iff.2 hblocks
  exact s.bodies_plan_of_names facts signature injected
    ((s.layouter signature).helper_names_nodup hordered)

end Selection

/-- A candidate has something to run: an implementation that is not blank. -/
def Candidate.HasStatements (c : Candidate) : Prop :=
  c.isConcrete ∧ ∃ body, c.method.body = some body ∧ Text.isBlankText body = false

theorem isSome_bind_statements? {body : Option String} {exit : MethodBody.Exit} :
    (body.bind (MethodBody.statements? · exit)).isSome ↔
      ∃ text, body = some text ∧ Text.isBlankText text = false := by
  cases body with
  | none => simp
  | some text => cases h : Text.isBlankText text <;> simp [MethodBody.statements?, h]

theorem Contribution.contributes_body {c : Candidate} :
    (Contribution.body c).contributes ↔ c.HasStatements := by
  rw [contributes, Bool.and_eq_true, isSome_bind_statements?, Candidate.HasStatements]

instance (c : Candidate) : Decidable c.HasStatements :=
  decidable_of_iff _ Contribution.contributes_body

theorem Layouter.isSome_statements? (l : Layouter) {c : Candidate} :
    (l.statements? c).isSome ↔ c.HasStatements := by
  unfold statements? Candidate.HasStatements
  split
  · next hc => rw [isSome_bind_statements?, and_iff_right hc]
  · next hc => simp [hc]

/-- A candidate that takes part in the merged method: no stage drops it, and it has something to
    run. -/
structure MergeFacts.Survives (facts : MergeFacts) (candidates : List Candidate) (c : Candidate) :
    Prop extends facts.Stays candidates c where
  running : c.HasStatements

/-- The statements of a candidate, one of so many contributions that have something to run. -/
def Candidate.statementsAmong (units : Nat) (c : Candidate) : Option String :=
  c.method.body.bind (MethodBody.statements? ·
    (if 1 < units ∧ c.method.noBreakBlock then .signal else .keep))

/-- Units that have something to run: the candidates that have, and the setter. -/
theorem Selection.countP_contributes (s : Selection) (signature : Signature) :
    s.contributions.countP Contribution.contributes =
      ((s.ordered signature).filter fun c => c.HasStatements).length + s.setter.toList.length := by
  have hsetter : (s.setter.toList.map Contribution.setter).countP Contribution.contributes =
      s.setter.toList.length := by
    cases s.setter <;> rfl
  have hbodies : (s.survivors.map Contribution.body).countP Contribution.contributes =
      s.survivors.countP fun c => c.HasStatements := by
    rw [List.countP_map]
    exact List.countP_congr fun c _ => by simp [Contribution.contributes_body]
  rw [s.contributions_perm.countP_eq, List.countP_append, hsetter, hbodies,
    ← List.countP_eq_length_filter, (s.ordered_perm_survivors signature).countP_eq]

/-- The statements of some candidates are those of the candidates that have any. -/
theorem map_some_filterMap_statements? (l : Layouter) (cs : List Candidate) :
    (cs.filterMap l.statements?).map some =
      (cs.filter fun c => c.HasStatements).map l.statements? := by
  induction cs with
  | nil => rfl
  | cons c rest ih =>
    have hc := l.isSome_statements? (c := c)
    cases htext : l.statements? c <;> simp [htext] at hc <;> simp [htext, hc, ih]

/-- The bodies of a merged method without a result are the statements of the candidates that
    survive, each once, in their order. -/
theorem bodies_of_merge {facts : MergeFacts} {signature : Signature} {candidates : List Candidate}
    {splices : List Splice} {hook : Option CodeHook} {plan : MethodPlan}
    (hvoid : ∀ c ∈ candidates.head?, c.method.isVoid)
    (hblocks : (candidates.map fun c => ComponentName.block c.component.name).Nodup)
    (h : facts.merge signature candidates splices hook = .ok (some plan)) :
    ∃ order : List Candidate, (∀ c, c ∈ order ↔ facts.Survives candidates c) ∧ order.Nodup ∧
      order.Pairwise (Precedes signature) ∧
      plan.bodies.map some = order.map (Candidate.statementsAmong
        (order.length + (facts.activeSetter? signature candidates).toList.length)) := by
  obtain ⟨s, injected, hselect, -, rfl⟩ := MergeFacts.merge_eq_ok_some h
  obtain ⟨first, kept, hs⟩ := MergeFacts.select_eq_ok_some hselect
  have hisVoid : s.isVoid = true := hs.isVoid.trans (hvoid first hs.head)
  have hnames : (candidates.map (·.component.name)).Nodup := by
    refine List.Nodup.of_map ComponentName.block ?_
    rwa [List.map_map]
  have hsorted : s.survivors.Pairwise fun a b => a.le b := by
    rw [hs.survivors]
    exact ((Ordered.ranks.on Candidate.rank).pairwise_mergeSort kept).filter _
  refine ⟨(s.ordered signature).filter fun c => c.HasStatements, fun c => ?_, ?_, ?_, ?_⟩
  · rw [List.mem_filter, (s.ordered_perm_survivors signature).mem_iff, hs.mem_survivors_iff,
      decide_eq_true_iff]
    exact ⟨fun ⟨hstays, hrun⟩ => ⟨hstays, hrun⟩, fun hc => ⟨hc.toStays, hc.running⟩⟩
  · have hnd : s.survivors.Nodup := List.Nodup.of_map _ (hs.survivors_map_nodup hnames)
    exact ((s.ordered_perm_survivors signature).nodup_iff.2 hnd).filter _
  · exact (Selection.ordered_pairwise hsorted (hs.survivors_map_nodup hnames)).filter _
  · rw [s.bodies_plan facts signature injected (hs.survivors_map_nodup hblocks),
      map_some_filterMap_statements?, ← hs.setter, ← s.countP_contributes signature]
    refine List.map_congr_left fun c hc => ?_
    have hconcrete := (decide_eq_true_iff.1 (List.mem_filter.1 hc).2).1
    simp [Layouter.statements?, hconcrete, Candidate.statementsAmong, Selection.layouter, hisVoid]

/-- Four ways to join: with a return that stops, ahead of the check, late, and removed. -/
def joiners : List Candidate :=
  [.ofBody "ZComp" "add" "if(full) return;" [.noBreakBlock],
    .ofBody "YComp" "add" "y();" [.bypassGroupCheck, .remove "WComp"],
    .ofBody "XComp" "add" "x();" [.priority 1],
    .ofBody "WComp" "add" "w();"]

theorem bodies_of_merge_joiners :
    ∃ plan, (MergeFacts.plain ["WComp", "XComp", "YComp", "ZComp"]).merge (.nullary "add") joiners []
        none = .ok (some plan) ∧
      ∃ order : List Candidate,
        (∀ c, c ∈ order ↔ (MergeFacts.plain ["WComp", "XComp", "YComp", "ZComp"]).Survives joiners c) ∧
        order.Nodup ∧ order.Pairwise (Precedes (.nullary "add")) ∧
        plan.bodies.map some = order.map (Candidate.statementsAmong (order.length + 0)) := by
  obtain ⟨plan, h⟩ : ∃ plan, (MergeFacts.plain ["WComp", "XComp", "YComp", "ZComp"]).merge
      (.nullary "add") joiners [] none = .ok (some plan) := ⟨_, rfl⟩
  exact ⟨plan, h, bodies_of_merge (by decide) (by decide) h⟩

end EntityWeaver
