import EntityWeaver.Proofs.Merge.Isolation

/-! Where the units and the splices of a merged method stand.

    The units are the candidates that stay and the setter, by rank. Each stands among the splices of
    its block, in a guard of the predicates that wrap the block:

        if(predicates) { calls before │ body, call of a helper, or setting of a field │ calls after }

    A membership signature puts those units and calls ahead of its check that bypass it. All that
    stands behind the check and the groups stands in a guard of the predicates that wrap the method:

        calls │ units │ check, groups │ if(predicates) { calls │ code │ units │ calls │ release }

    A splice takes its place by what it says of itself, so the places part the splices among them. At
    each place those act that components of the entity declare, in turn: by priority, then by component,
    and those of one component and priority as they were declared. The units go in turn as well. -/

namespace EntityWeaver

/-- Values in turn: the listed ones by priority and then by component, and of one turn as listed. -/
structure InTurn {α : Type} (priority : α → Int32) (component : α → String) (listed run : List α) :
    Prop where
  members : run.Perm listed
  ordered : run.Pairwise fun a b =>
    priority a < priority b ∨ priority a = priority b ∧ component a ≤ component b
  level : ∀ p c, (run.filter fun a => priority a = p ∧ component a = c) =
    listed.filter fun a => priority a = p ∧ component a = c

section InTurn

variable {α : Type} {priority : α → Int32} {component : α → String} {listed run : List α}

/-- Sorted by rank, values are in turn. -/
theorem inTurn_mergeSort (priority : α → Int32) (component : α → String) (xs : List α) :
    InTurn priority component xs
      (xs.mergeSort fun a b => Rank.le ⟨priority a, component a⟩ ⟨priority b, component b⟩) := by
  have hranks := Ordered.ranks.on fun a => Rank.mk (priority a) (component a)
  refine ⟨List.mergeSort_perm _ _, (hranks.pairwise_mergeSort xs).imp Rank.le_iff.1, fun p c => ?_⟩
  refine hranks.filter_mergeSort (fun a b ha hb => ?_) xs
  rw [decide_eq_true_iff] at ha hb
  rw [ha.1, ha.2, hb.1, hb.2]
  exact Rank.le_iff.2 (.inr ⟨rfl, String.le_refl c⟩)

theorem InTurn.filter (h : InTurn priority component listed run) (p : α → Bool) :
    InTurn priority component (listed.filter p) (run.filter p) where
  members := h.members.filter p
  ordered := h.ordered.filter p
  level q c := by rw [List.filter_comm, h.level, List.filter_comm]

end InTurn

namespace Signature

/-- Whether a signature adds an entity or removes it. -/
def toggles (signature : Signature) : Bool :=
  signature = .nullary "add" ∨ signature = .nullary "remove"

theorem membership?_eq_some_iff {signature : Signature} {adding : Bool} :
    signature.membership? = some adding ↔
      signature = .nullary (if adding then "add" else "remove") := by
  constructor
  · intro h
    unfold membership? at h
    split at h
    · cases h
    next harity =>
    obtain ⟨name, params⟩ := signature
    obtain rfl : params = [] := List.length_eq_zero_iff.1 (Decidable.not_not.1 harity)
    split at h
    next hadd =>
      obtain rfl := Option.some.inj h
      exact congrArg (Signature.mk · []) hadd
    split at h
    next hremove =>
      obtain rfl := Option.some.inj h
      exact congrArg (Signature.mk · []) hremove
    · cases h
  · rintro rfl
    cases adding <;> rfl

theorem isSome_membership? (signature : Signature) :
    signature.membership?.isSome = signature.toggles := by
  rw [Bool.eq_iff_iff, Option.isSome_iff_exists, toggles, decide_eq_true_iff]
  simp [membership?_eq_some_iff, or_comm]

end Signature

namespace Splice

/-- Aims at the block of a component. -/
def aimsAt (owner : String) (p : Splice) : Bool :=
  p.block.any (ComponentName.block · == ComponentName.block owner)

/-- Is called ahead of the check of a membership signature. -/
def isAhead (signature : Signature) (p : Splice) : Bool := signature.toggles && p.bypassesGroupCheck

end Splice

/-- Is laid out ahead of the check of a membership signature. -/
def Contribution.isAhead (signature : Signature) (u : Contribution) : Bool :=
  signature.toggles && u.bypassesGroupCheck

/-- Steps in one guard of some predicates, or bare if there are none. -/
inductive Step.Guards : List String → List Step → List Step → Prop where
  | bare (steps : List Step) : Guards [] steps steps
  | guard {predicates : List String} (steps : List Step) (some : predicates ≠ []) :
      Guards predicates steps [.guard predicates steps]

theorem Step.guards_guarded (predicates : List String) (steps : List Step) :
    Guards predicates steps (guarded predicates steps) := by
  unfold guarded
  split
  next hnone => exact hnone ▸ .bare steps
  next hsome => exact .guard steps hsome

namespace MergeFacts

/-- The field of the signature's name, if a candidate sets it. -/
def fieldToSet? (facts : MergeFacts) (signature : Signature) (candidates : List Candidate) :
    Option MergedField :=
  (facts.fields.get? signature.name).filter fun f =>
    ∃ c ∈ candidates, facts.Sets signature candidates c f

/-- The units of a merged method: the candidates that stay, and the setter. -/
def units (facts : MergeFacts) (signature : Signature) (candidates : List Candidate) :
    List Contribution :=
  (candidates.filter fun c => facts.Stays candidates c).map .body ++
    (facts.fieldToSet? signature candidates).toList.map .setter

/-- The splices that components of the entity declare. -/
def ownSplices (facts : MergeFacts) (splices : List Splice) : List Splice :=
  splices.filter fun s => s.component ∈ facts.resolved

/-- The splices that act at a place, in turn. -/
def ActAt (facts : MergeFacts) (splices : List Splice) (place : Splice → Bool) (run : List Splice) :
    Prop :=
  InTurn Splice.priority Splice.component ((facts.ownSplices splices).filter place) run

/-- The calls of the splices that act at a place. -/
def CallsAt (facts : MergeFacts) (splices : List Splice) (place : Splice → Bool)
    (calls : List Step) : Prop :=
  ∃ run, facts.ActAt splices place run ∧ calls = run.map fun s => .call s.method

/-- The predicates of the splices that wrap a place. -/
def PredicatesAt (facts : MergeFacts) (splices : List Splice) (place : Splice → Bool)
    (predicates : List String) : Prop :=
  ∃ run, facts.ActAt splices (fun s => place s && s.isWrap) run ∧ predicates = run.map (·.method)

/-- The check whether an entity is in its groups already, with the groups behind it. -/
def toggle (facts : MergeFacts) (adding : Bool) : List Step :=
  .reentrancy adding :: facts.groups.map (.group · adding)

/-- What a signature checks: those that add or remove an entity whether it is in its groups, and all
    others nothing. -/
def check (facts : MergeFacts) (signature : Signature) : List Step :=
  if signature = .nullary "add" then facts.toggle true
  else if signature = .nullary "remove" then facts.toggle false
  else []

/-- A pooled entity that is removed goes back into the pool. -/
def freeing (facts : MergeFacts) (signature : Signature) : List Step :=
  if facts.pooled ∧ signature = .nullary "remove" then
    [.code (CodeBlock.empty.statement "Groups.queueFree(this)")]
  else []

theorem fieldToSet?_eq (facts : MergeFacts) (signature : Signature) (candidates : List Candidate) :
    facts.fieldToSet? signature candidates = facts.activeSetter? signature candidates := by
  refine Option.ext fun f => ?_
  rw [activeSetter?_eq_some_iff, fieldToSet?, Option.filter_eq_some_iff, decide_eq_true_iff]
  exact ⟨fun ⟨_, c, _, h⟩ => ⟨c, h⟩,
    fun ⟨c, h⟩ => ⟨h.field, c, h.alone ▸ List.mem_singleton_self c, h⟩⟩

/-- The active splices of a place act at it. -/
theorem actAt_activeSplices (facts : MergeFacts) (splices : List Splice) (place : Splice → Bool) :
    facts.ActAt splices place ((facts.activeSplices splices).filter place) := by
  have hactive : facts.activeSplices splices = (facts.ownSplices splices).mergeSort Splice.le := by
    simp only [activeSplices, ownSplices, List.contains_eq_mem]
  rw [hactive]
  exact (inTurn_mergeSort Splice.priority Splice.component _).filter place

theorem check_eq_gate (facts : MergeFacts) (signature : Signature) :
    facts.check signature = Selection.gate facts signature := by
  cases h : signature.membership? with
  | none =>
    have hnone : signature.toggles = false := by
      rw [← signature.isSome_membership?, h]
      rfl
    rw [Signature.toggles, decide_eq_false_iff_not, not_or] at hnone
    rw [check, if_neg hnone.1, if_neg hnone.2, Selection.gate, h]
  | some adding =>
    obtain rfl := Signature.membership?_eq_some_iff.1 h
    cases adding <;> rfl

theorem freeing_eq_release (facts : MergeFacts) (signature : Signature) :
    facts.freeing signature = Selection.release facts signature :=
  if_congr (and_congr_right' (@Signature.membership?_eq_some_iff signature false).symm) rfl rfl

end MergeFacts

namespace MethodPlan

/-- What a unit itself is in a merged method: nothing if it has nothing to run, a body or the call of
    the helper that holds it, or the setting of a field to the first parameter. -/
inductive Shows (p : MethodPlan) : Contribution → List Step → Prop where
  | blank {c : Candidate} (silent : ¬c.HasStatements) : Shows p (.body c) []
  | inlined {c : Candidate} {text : String} (runs : c.HasStatements)
      (statements : c.method.body.bind (MethodBody.statements? · .keep) = some text) :
      Shows p (.body c) [.inline c.component.name text]
  | outlined {c : Candidate} {h : Helper} (runs : c.HasStatements) (listed : h ∈ p.helpers)
      (holds : h.Holds p.signature c) :
      Shows p (.body c) [.invoke h.name (p.params.map (·.name)) h.signal]
  | assigned {f : MergedField} {q : Parameter} (first : p.params.head? = some q) :
      Shows p (.setter f) [.assign f.name q.name]
  | unassigned {f : MergedField} (none : p.params = []) : Shows p (.setter f) []

/-- A unit stands among the splices of its block. -/
inductive Stands (p : MethodPlan) (facts : MergeFacts) (splices : List Splice) (u : Contribution)
    (steps : List Step) : Prop where
  | among {predicates : List String} {before core after : List Step}
      (wraps : facts.PredicatesAt splices (·.aimsAt u.owner) predicates)
      (first : facts.CallsAt splices (fun s => s.aimsAt u.owner && s.isInsert false) before)
      (shows : p.Shows u core)
      (last : facts.CallsAt splices (fun s => s.aimsAt u.owner && s.isInsert true) after)
      (guards : Step.Guards predicates (before ++ core ++ after) steps) :
      p.Stands facts splices u steps

/-- How a method is laid out that is merged from candidates, of which `us` are the units in turn: what
    stands ahead of the check of a membership signature with its groups, and what stands behind them. -/
structure LaidOut (p : MethodPlan) (facts : MergeFacts) (signature : Signature)
    (candidates : List Candidate) (splices : List Splice) (injected : Option CodeBlock)
    (us : List Contribution) (ahead behind : List Step) : Prop where
  units : InTurn Contribution.priority Contribution.owner (facts.units signature candidates) us
  steps : p.steps = ahead ++ facts.check signature ++ behind
  /-- Calls and units that bypass the check. -/
  bypassing : ∃ calls blocks,
    facts.CallsAt splices (fun s => s.block.isNone && s.isInsert false && s.isAhead signature) calls ∧
    List.Forall₂ (p.Stands facts splices) (us.filter (·.isAhead signature)) blocks ∧
    ahead = calls ++ blocks.flatten
  /-- All else, in a guard if the method is wrapped. -/
  checked : ∃ predicates before blocks after,
    facts.PredicatesAt splices (·.block.isNone) predicates ∧
    facts.CallsAt splices (fun s => s.block.isNone && s.isInsert false && !s.isAhead signature)
      before ∧
    List.Forall₂ (p.Stands facts splices) (us.filter (!·.isAhead signature)) blocks ∧
    facts.CallsAt splices (fun s => s.block.isNone && s.isInsert true) after ∧
    Step.Guards predicates (before ++ (injected.map Step.code).toList ++ blocks.flatten ++ after ++
      facts.freeing signature) behind

end MethodPlan

namespace MergeFacts.SelectedFrom

variable {facts : MergeFacts} {signature : Signature} {candidates kept : List Candidate}
  {splices : List Splice} {injected : Bool} {first : Candidate} {s : Selection}

/-- The contributions of a selection are the units in turn. -/
theorem inTurn_contributions
    (hs : SelectedFrom facts signature candidates splices injected first kept s) :
    InTurn Contribution.priority Contribution.owner (facts.units signature candidates)
      s.contributions := by
  have hranks : Ordered Contribution.le := Ordered.ranks.on Contribution.rank
  have hsurvivors : s.survivors.map Contribution.body =
      ((candidates.filter fun c => facts.Stays candidates c).map .body).mergeSort
        Contribution.le := by
    have hcandidates : Ordered Candidate.le := Ordered.ranks.on Candidate.rank
    rw [hs.survivors, ← hcandidates.mergeSort_filter, hs.kept_eq, filter_stays]
    exact List.map_mergeSort fun a _ b _ => rfl
  have hsorted : s.contributions = (facts.units signature candidates).mergeSort Contribution.le := by
    rw [Selection.contributions, hsurvivors, hs.setter, units, fieldToSet?_eq]
    cases facts.activeSetter? signature candidates with
    | none => rw [Option.toList_none, List.map_nil, List.append_nil]
    | some f =>
      refine hranks.mergeSort_eq_of_level fun a => ?_
      rw [List.filter_append, hranks.filter_level_mergeSort, ← List.filter_append]
      rfl
  rw [hsorted]
  exact inTurn_mergeSort Contribution.priority Contribution.owner _

end MergeFacts.SelectedFrom

namespace Layouter

variable (l : Layouter) {facts : MergeFacts} {splices : List Splice}

theorem callsAt_calls (hactive : l.splices = facts.activeSplices splices) (owner : String)
    (after : Bool) : facts.CallsAt splices (fun p => p.aimsAt owner && p.isInsert after)
      (l.calls (ComponentName.block owner) after) := by
  refine ⟨_, facts.actAt_activeSplices splices _, ?_⟩
  rw [calls, splicesOf, hactive, List.filter_comm, List.filter_filter]
  rfl

theorem predicatesAt_predicates (hactive : l.splices = facts.activeSplices splices)
    (owner : String) :
    facts.PredicatesAt splices (·.aimsAt owner) (l.predicates (ComponentName.block owner)) := by
  refine ⟨_, facts.actAt_activeSplices splices _, ?_⟩
  rw [predicates, splicesOf, hactive, List.filter_comm, List.filter_filter]
  rfl

end Layouter

namespace Selection

variable {s : Selection} {facts : MergeFacts} {signature : Signature} {splices : List Splice}
  {injected : Option CodeBlock}

theorem bypassing_eq (s : Selection) (signature : Signature) :
    s.bypassing signature = s.contributions.filter (·.isAhead signature) := by
  unfold bypassing Contribution.isAhead
  rw [signature.isSome_membership?]
  split
  next ht => simp only [ht, Bool.true_and]
  next ht => simp [ht]

theorem checked_eq (s : Selection) (signature : Signature) :
    s.checked signature = s.contributions.filter (!·.isAhead signature) := by
  unfold checked Contribution.isAhead
  rw [signature.isSome_membership?]
  split
  next ht => simp only [ht, Bool.true_and]
  next ht => simp [ht]

/-- The check parts the calls before everything. -/
theorem callsAt_callsBefore (hactive : s.splices = facts.activeSplices splices) (bypass : Bool) :
    facts.CallsAt splices
      (fun p => p.block.isNone && p.isInsert false && p.isAhead signature == bypass)
      (s.callsBefore signature bypass) := by
  refine ⟨_, facts.actAt_activeSplices splices _, ?_⟩
  rw [← hactive, callsBefore, unscoped, signature.isSome_membership?]
  unfold Splice.isAhead
  cases signature.toggles with
  | true =>
    rw [if_pos rfl, List.filter_filter, List.filter_filter, callsOf]
    congr 2
    funext p
    rw [Bool.true_and, Bool.and_comm, Bool.and_comm _ (p.isInsert false), Bool.and_assoc]
  | false =>
    rw [if_neg Bool.false_ne_true, List.filter_filter]
    cases bypass with
    | true => simp
    | false =>
      rw [if_neg Bool.false_ne_true, callsOf]
      congr 2
      funext p
      simp [Bool.and_comm]

theorem callsAt_callsAfter (hactive : s.splices = facts.activeSplices splices) :
    facts.CallsAt splices (fun p => p.block.isNone && p.isInsert true)
      (callsOf (s.unscoped.filter (·.isInsert true))) := by
  refine ⟨_, facts.actAt_activeSplices splices _, ?_⟩
  rw [← hactive, unscoped, List.filter_comm, List.filter_filter, callsOf]

theorem predicatesAt_wraps (hactive : s.splices = facts.activeSplices splices) :
    facts.PredicatesAt splices (·.block.isNone) s.wraps := by
  refine ⟨_, facts.actAt_activeSplices splices _, ?_⟩
  rw [← hactive, wraps, unscoped, List.filter_comm, List.filter_filter]

/-- What is laid out of a unit is what the unit is in the plan. -/
theorem shows_core {u : Contribution} (hu : u ∈ s.laidOut signature) :
    (s.plan facts signature injected).Shows u ((s.layouter signature).core u) := by
  cases u with
  | setter f =>
    cases hparams : s.template.params with
    | nil =>
      have hcore : (s.layouter signature).core (.setter f) = [] := by
        simp [Layouter.core, layouter, hparams]
      rw [hcore]
      exact .unassigned hparams
    | cons q rest =>
      have hcore : (s.layouter signature).core (.setter f) = [.assign f.name q.name] := by
        simp [Layouter.core, layouter, hparams]
      rw [hcore]
      exact .assigned (congrArg List.head? hparams)
  | body c =>
    by_cases hrun : c.HasStatements
    · obtain ⟨text, htext⟩ := Option.isSome_iff_exists.1
        ((s.layouter signature).isSome_statements?.2 hrun)
      cases hi : (s.layouter signature).isolate with
      | true =>
        have hcore : (s.layouter signature).core (.body c) =
            [.invoke ((s.layouter signature).helperOf c text).name (s.layouter signature).params
              ((s.layouter signature).helperOf c text).signal] := by
          rw [Layouter.core, htext, hi]
          rfl
        rw [hcore]
        refine .outlined hrun ?_ ((s.layouter signature).holds_helperOf hi htext)
        rw [plan_helpers]
        refine List.mem_filterMap.2 ⟨_, hu, ?_⟩
        rw [Layouter.helper?_of_isolate _ hi, Contribution.candidate?, Option.bind_some, htext]
        rfl
      | false =>
        have hcore : (s.layouter signature).core (.body c) = [.inline c.component.name text] := by
          rw [Layouter.core, htext, hi]
          rfl
        rw [hcore]
        refine .inlined hrun ?_
        rw [← (s.layouter signature).statements?_of_not_signal hrun (by rw [hi, Bool.false_and]),
          htext]
    · rw [(s.layouter signature).core_eq_nil
        (Bool.eq_false_iff.2 (mt Contribution.contributes_body.1 hrun))]
      exact .blank hrun

/-- Units stand where they are laid out. -/
theorem forall₂_stands (hactive : s.splices = facts.activeSplices splices)
    {us : List Contribution} (hus : us ⊆ s.laidOut signature) :
    List.Forall₂ ((s.plan facts signature injected).Stands facts splices) us
      (us.map (s.layouter signature).steps) := by
  refine List.forall₂_map_right_iff.2 (List.forall₂_same.2 fun u hu => ?_)
  exact .among ((s.layouter signature).predicatesAt_predicates hactive u.owner)
    ((s.layouter signature).callsAt_calls hactive u.owner false) (shows_core (hus hu))
    ((s.layouter signature).callsAt_calls hactive u.owner true) (Step.guards_guarded _ _)

end Selection

/-- A merged method is laid out around its units. -/
theorem MergeFacts.exists_laidOut {facts : MergeFacts} {signature : Signature}
    {candidates : List Candidate} {splices : List Splice} {hook : Option CodeHook}
    {plan : MethodPlan} (h : facts.merge signature candidates splices hook = .ok (some plan)) :
    ∃ template injected us ahead behind, template.params = plan.params ∧
      hook.elim (.ok none) (· template) = .ok injected ∧
      plan.LaidOut facts signature candidates splices injected us ahead behind := by
  obtain ⟨s, injected, hselect, hhook, rfl⟩ := merge_eq_ok_some h
  obtain ⟨first, kept, hs⟩ := select_eq_ok_some hselect
  have hbefore := @Selection.callsAt_callsBefore s facts signature splices hs.splices true
  have hfirst := @Selection.callsAt_callsBefore s facts signature splices hs.splices false
  simp only [beq_true, beq_false] at hbefore hfirst
  refine ⟨s.template, injected, s.contributions, s.callsBefore signature true ++
    (s.bypassing signature).flatMap (s.layouter signature).steps,
    guarded s.wraps (s.inner facts signature injected), rfl, hhook, hs.inTurn_contributions, ?_,
    ⟨_, (s.bypassing signature).map (s.layouter signature).steps, hbefore, ?_, ?_⟩,
    _, _, (s.checked signature).map (s.layouter signature).steps, _,
      Selection.predicatesAt_wraps hs.splices, hfirst, ?_, Selection.callsAt_callsAfter hs.splices, ?_⟩
  · rw [Selection.plan, Selection.opening_eq, facts.check_eq_gate]
  · rw [← s.bypassing_eq]
    exact Selection.forall₂_stands hs.splices (List.subset_append_left _ _)
  · rw [List.flatMap_def]
  · rw [← s.checked_eq]
    exact Selection.forall₂_stands hs.splices (List.subset_append_right _ _)
  · rw [facts.freeing_eq_release, ← List.flatMap_def]
    exact Step.guards_guarded _ _

end EntityWeaver
