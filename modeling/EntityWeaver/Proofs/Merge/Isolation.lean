import EntityWeaver.Proofs.Except
import EntityWeaver.Proofs.Merge.Inlining

/-! Bodies in helpers of their own.

    Where more than one contribution has something to run, every body goes into a helper, and the
    merged method calls the helpers in the order of the bodies:

        a b c   ──▶   helpers  a b c      calls  a b c

    A call finds its helper by name, and the name comes from the block of the component. So the calls
    reach all helpers, each once, exactly if the blocks of the isolated bodies differ. Different
    components can have one block: names are lowered, and lose the suffix that they may end in. -/

namespace EntityWeaver

namespace Step

/-- The helper that a step calls, with the arguments, and whether the call heeds a signal. -/
def invocation? : Step → Option (String × List String × Bool)
  | .invoke helper args signal => some (helper, args, signal)
  | _ => none

/-- Whether a step calls the helper of that name. -/
def invokes (name : String) : Step → Bool
  | .invoke helper _ _ => helper == name
  | _ => false

end Step

/-- Every helper of a method is called exactly once, in the way that it wants to be called. -/
structure MethodPlan.Linked (p : MethodPlan) : Prop where
  /-- Helpers have names of their own. -/
  names : (p.helpers.map (·.name)).Nodup
  /-- A call names a helper, heeds a signal if the helper gives one, and fits its parameters. -/
  calls : ∀ name args signal, .invoke name args signal ∈ p.course →
    ∃ h ∈ p.helpers, h.name = name ∧ h.signal = signal ∧ args.length = h.params.length
  /-- A helper is called once. -/
  once : ∀ h ∈ p.helpers, p.course.countP (·.invokes h.name) = 1
  /-- With helpers, the bodies that run are theirs, each once. -/
  bodies : p.helpers ≠ [] → p.bodies = p.helpers.map (·.body)
  /-- With helpers, no body is written into the merged method, -/
  outlined : p.helpers ≠ [] → ∀ component body, .inline component body ∉ p.course
  /-- and each helper becomes one method behind it. -/
  rendered : ∀ methods, p.toSource? = some methods →
    List.Forall₂ (fun h m => h.toSource? = some m) p.helpers methods.tail

/-- A helper is that of a candidate for a signature. -/
structure Helper.Holds (signature : Signature) (c : Candidate) (h : Helper) : Prop where
  name : h.name = signature.name ++ "__" ++ ComponentName.block c.component.name
  component : h.component = c.component.name
  params : h.params = c.method.params
  body : c.method.body.bind (MethodBody.statements? ·
    (if c.method.noBreakBlock then .signal else .keep)) = some h.body
  signal : h.signal = c.method.noBreakBlock

namespace Layouter

variable (l : Layouter)

/-- What a contribution calls is its helper. -/
theorem filterMap_invocation?_core (u : Contribution) :
    (l.core u).filterMap (·.invocation?) =
      (l.helper? u).toList.map fun h => (h.name, l.params, h.signal) := by
  cases u with
  | setter f =>
    rw [core, helper?]
    cases l.params.head? <;> rfl
  | body c =>
    rw [core, helper?]
    cases l.statements? c with
    | none => split <;> rfl
    | some text => cases hi : l.isolate <;> rfl

/-- The helper of a candidate with given statements. -/
def helperOf (c : Candidate) (text : String) : Helper :=
  ⟨l.helperName (ComponentName.block c.component.name), c.component.name, c.method.params, text,
    c.method.noBreakBlock⟩

theorem helper?_of_isolate (hi : l.isolate = true) (u : Contribution) :
    l.helper? u = u.candidate?.bind fun c => (l.statements? c).map (l.helperOf c) := by
  cases u with
  | setter f => rfl
  | body c =>
    rw [helper?, if_pos hi]
    rfl

theorem holds_helperOf (hi : l.isolate = true) {c : Candidate} {text : String}
    (htext : l.statements? c = some text) : Helper.Holds l.signature c (l.helperOf c text) where
  name := rfl
  component := rfl
  params := rfl
  body := by
    have hconcrete : c.isConcrete = true := (l.isSome_statements?.1 (by rw [htext]; rfl)).1
    rw [statements?, if_pos hconcrete, hi, Bool.true_and] at htext
    exact htext
  signal := rfl

/-- Where bodies are isolated, the candidates with something to run have the helpers. -/
theorem forall₂_helperOf (hi : l.isolate = true) (cs : List Candidate) :
    List.Forall₂ (Helper.Holds l.signature) (cs.filter fun c => c.HasStatements)
      (cs.filterMap fun c => (l.statements? c).map (l.helperOf c)) := by
  induction cs with
  | nil => exact .nil
  | cons c rest ih =>
    have hrun := l.isSome_statements? (c := c)
    cases htext : l.statements? c with
    | none =>
      rw [htext] at hrun
      rw [List.filter_cons_of_neg (by simpa using hrun),
        List.filterMap_cons_none (by rw [htext]; rfl)]
      exact ih
    | some text =>
      rw [htext] at hrun
      rw [List.filter_cons_of_pos (by simpa using hrun),
        List.filterMap_cons_some (by rw [htext]; rfl)]
      exact .cons (l.holds_helperOf hi htext) ih

end Layouter

namespace Selection

variable {s : Selection} {facts : MergeFacts} {signature : Signature} {splices : List Splice}
  {injected : Option CodeBlock}

/-- A merged method calls its helpers one after another. -/
theorem invocations_plan (hactive : s.splices = facts.activeSplices splices) :
    (s.plan facts signature injected).course.filterMap (·.invocation?) =
      (s.plan facts signature injected).helpers.map fun h =>
        (h.name, (s.layouter signature).params, h.signal) := by
  have hcontributes : ∀ steps : List Step,
      (steps.filter (·.contributes)).filterMap (·.invocation?) = steps.filterMap (·.invocation?) := by
    intro steps
    rw [List.filterMap_filter]
    congr 1
    funext t
    cases t <;> rfl
  rw [← hcontributes, filter_contributes_course_plan injected hactive, plan_helpers,
    List.filterMap_flatMap]
  simp only [Layouter.filterMap_invocation?_core]
  rw [← List.map_flatMap, List.filterMap_eq_flatMap_toList]

/-- The candidates whose bodies are isolated, in order. -/
def isolated (s : Selection) (signature : Signature) : List Candidate :=
  if (s.layouter signature).isolate then (s.ordered signature).filter fun c => c.HasStatements else []

theorem mem_isolated_iff {c : Candidate} : c ∈ s.isolated signature ↔
    (s.layouter signature).isolate = true ∧ c ∈ s.survivors ∧ c.HasStatements := by
  unfold isolated
  split
  next hi =>
    rw [List.mem_filter, (s.ordered_perm_survivors signature).mem_iff, decide_eq_true_iff]
    exact (and_iff_right hi).symm
  next hi => simp [hi]

/-- Every isolated candidate has its helper, and there are no others. -/
theorem forall₂_isolated : List.Forall₂ (Helper.Holds signature) (s.isolated signature)
    (s.plan facts signature injected).helpers := by
  rw [plan_helpers]
  unfold isolated
  split
  next hi =>
    have hhelpers : (s.laidOut signature).filterMap (s.layouter signature).helper? =
        (s.ordered signature).filterMap fun c =>
          ((s.layouter signature).statements? c).map ((s.layouter signature).helperOf c) := by
      rw [ordered, List.filterMap_filterMap]
      exact List.filterMap_congr fun u _ => (s.layouter signature).helper?_of_isolate hi u
    rw [hhelpers]
    exact (s.layouter signature).forall₂_helperOf hi _
  next hi =>
    rw [List.filterMap_eq_nil_iff.2 fun u _ =>
      (s.layouter signature).helper?_of_not_isolate (Bool.eq_false_iff.2 hi) u]
    exact .nil

/-- Only isolated bodies have helpers. -/
theorem isolate_of_helpers_ne_nil (h : (s.plan facts signature injected).helpers ≠ []) :
    (s.layouter signature).isolate = true := by
  by_contra hi
  rw [Bool.not_eq_true] at hi
  exact h (List.filterMap_eq_nil_iff.2 fun u _ =>
    (s.layouter signature).helper?_of_not_isolate hi u)

/-- Where bodies are isolated, those that run are those of the helpers. -/
theorem bodies_plan_of_isolate (hi : (s.layouter signature).isolate = true)
    (hnames : ((s.plan facts signature injected).helpers.map (·.name)).Nodup) :
    (s.plan facts signature injected).bodies =
      (s.plan facts signature injected).helpers.map (·.body) := by
  rw [s.bodies_plan_of_names facts signature injected hnames, plan_helpers, List.map_filterMap,
    ordered, List.filterMap_filterMap]
  refine List.filterMap_congr fun u _ => ?_
  rw [(s.layouter signature).helper?_of_isolate hi]
  cases u with
  | setter f => rfl
  | body c => simp [Contribution.candidate?, Layouter.helperOf, Function.comp_def]

/-- A helper is called as often as there are helpers of its name. -/
theorem countP_invokes_plan (hactive : s.splices = facts.activeSplices splices) (name : String) :
    (s.plan facts signature injected).course.countP (·.invokes name) =
      ((s.plan facts signature injected).helpers.map (·.name)).count name := by
  have hinvokes : (s.plan facts signature injected).course.countP (·.invokes name) =
      ((s.plan facts signature injected).course.filterMap (·.invocation?)).countP (·.1 == name) := by
    rw [List.countP_filterMap]
    refine List.countP_congr fun t _ => ?_
    cases t <;> simp [Step.invokes, Step.invocation?]
  rw [hinvokes, invocations_plan hactive, List.countP_map, List.count_eq_countP, List.countP_map]
  rfl

/-- Helpers with names of their own, and with as many parameters as the merged method has, are
    called once each. -/
theorem linked_plan (hactive : s.splices = facts.activeSplices splices)
    (hnames : ((s.plan facts signature injected).helpers.map (·.name)).Nodup)
    (harity : ∀ h ∈ (s.plan facts signature injected).helpers,
      h.params.length = s.template.params.length) :
    (s.plan facts signature injected).Linked where
  names := hnames
  calls name args signal hcall := by
    have hmem : (name, args, signal) ∈
        (s.plan facts signature injected).course.filterMap (·.invocation?) :=
      List.mem_filterMap.2 ⟨_, hcall, rfl⟩
    rw [invocations_plan hactive] at hmem
    obtain ⟨h, hh, heq⟩ := List.mem_map.1 hmem
    obtain ⟨rfl, hrest⟩ := Prod.mk.inj heq
    obtain ⟨rfl, rfl⟩ := Prod.mk.inj hrest
    exact ⟨h, hh, rfl, rfl, (List.length_map _).trans (harity h hh).symm⟩
  once h hh := by
    rw [countP_invokes_plan hactive]
    exact List.count_eq_one_of_mem hnames (List.mem_map_of_mem hh)
  bodies hne := bodies_plan_of_isolate (isolate_of_helpers_ne_nil hne) hnames
  outlined hne component body hinline := by
    have hi := (exists_of_inline_mem_course hactive hinline).1
    rw [isolate_of_helpers_ne_nil hne] at hi
    cases hi
  rendered methods hmethods := by
    obtain ⟨main, -, hrest⟩ := Option.bind_eq_some_iff.1 hmethods
    obtain ⟨defs, hdefs, hpure⟩ := Option.bind_eq_some_iff.1 hrest
    obtain rfl := Option.some.inj hpure
    exact mapM_eq_some.1 hdefs

end Selection

/-- The names of helpers are as different as the blocks of their candidates. -/
theorem names_nodup_iff {signature : Signature} {cs : List Candidate} {hs : List Helper}
    (h : List.Forall₂ (Helper.Holds signature) cs hs) :
    (hs.map (·.name)).Nodup ↔ (cs.map fun c => ComponentName.block c.component.name).Nodup := by
  have hmap : (cs.map fun c => ComponentName.block c.component.name).map
      (fun block => signature.name ++ "__" ++ block) = hs.map (·.name) := by
    rw [List.map_map]
    exact map_eq_map_of_forall₂ h fun c k hk => hk.name.symm
  have hinjective : Function.Injective fun block => signature.name ++ "__" ++ block :=
    fun _ _ hsame => (String.append_right_inj _).1 hsame
  rw [← hmap, List.nodup_map_iff hinjective]

namespace MergeFacts

variable {facts : MergeFacts} {signature : Signature} {candidates : List Candidate}
  {splices : List Splice} {hook : Option CodeHook} {plan : MethodPlan}

/-- The helpers of a merged method are those of isolated candidates, which are none or all that
    survive. They are linked exactly if these candidates have blocks of their own. -/
theorem linked_iff (hsignature : ∀ c ∈ candidates, c.method.signature = signature)
    (h : facts.merge signature candidates splices hook = .ok (some plan)) :
    ∃ isolated, List.Forall₂ (Helper.Holds signature) isolated plan.helpers ∧
      (∀ c ∈ isolated, facts.Survives candidates c) ∧
      (isolated ≠ [] → ∀ c, facts.Survives candidates c → c ∈ isolated) ∧
      (plan.Linked ↔ (isolated.map fun c => ComponentName.block c.component.name).Nodup) := by
  obtain ⟨s, injected, hselect, -, rfl⟩ := merge_eq_ok_some h
  obtain ⟨first, kept, hs⟩ := select_eq_ok_some hselect
  have hholds : List.Forall₂ (Helper.Holds signature) (s.isolated signature)
      (s.plan facts signature injected).helpers := Selection.forall₂_isolated
  have hsurvives : ∀ c, facts.Survives candidates c ↔ c ∈ s.survivors ∧ c.HasStatements := fun c =>
    ⟨fun h => ⟨hs.mem_survivors_iff.2 h.toStays, h.running⟩,
      fun ⟨h, hrun⟩ => ⟨hs.mem_survivors_iff.1 h, hrun⟩⟩
  have hlength : ∀ c ∈ s.survivors, c.method.params.length = signature.params.length := by
    intro c hc
    rw [← hsignature c (hs.mem_survivors_iff.1 hc).listed]
    simp [MethodDecl.signature, Signature.ofTypes]
  have harity : ∀ k ∈ (s.plan facts signature injected).helpers,
      k.params.length = s.template.params.length := by
    intro k hk
    have hparams := map_eq_map_of_forall₂ hholds fun c k hck => hck.params.symm
    obtain ⟨c, hc, hck⟩ := List.mem_map.1 (hparams ▸ List.mem_map_of_mem hk)
    obtain ⟨-, hc, hrun⟩ := Selection.mem_isolated_iff.1 hc
    obtain ⟨lead, hlead, -, htemplate⟩ := hs.exists_leads hc hrun.1
    rw [← hck, htemplate, hlength c hc, hlength lead hlead]
  refine ⟨s.isolated signature, hholds, fun c hc => ?_, fun hne c hc => ?_, fun hlinked => ?_,
    fun hblocks => ?_⟩
  · exact (hsurvives c).2 (Selection.mem_isolated_iff.1 hc).2
  · obtain ⟨d, hd⟩ := List.exists_mem_of_ne_nil _ hne
    exact Selection.mem_isolated_iff.2 ⟨(Selection.mem_isolated_iff.1 hd).1, (hsurvives c).1 hc⟩
  · exact (names_nodup_iff hholds).1 hlinked.names
  · exact Selection.linked_plan hs.splices ((names_nodup_iff hholds).2 hblocks) harity

/-- Two components of one block. -/
def sameBlock : List Candidate :=
  [.ofBody "AIComp" "update" "think();", .ofBody "AiComp" "update" "steer();"]

/-- Both updates, in helpers of one name. -/
def sameBlockPlan : MethodPlan :=
  ⟨.nullary "update", "void", [], false, false,
    [.invoke "update__ai" [] false, .invoke "update__ai" [] false],
    [⟨"update__ai", "AIComp", [], "think();", false⟩, ⟨"update__ai", "AiComp", [], "steer();", false⟩]⟩

theorem merge_sameBlock : (plain ["AIComp", "AiComp"]).merge (.nullary "update") sameBlock [] none =
    .ok (some sameBlockPlan) :=
  merge_of_ranked sameBlock rfl rfl (by decide) (by decide) .nil

/-- What can be said of both updates. -/
theorem linked_iff_sameBlock : (∀ c ∈ sameBlock, c.method.signature = .nullary "update") ∧
    ∃ isolated, List.Forall₂ (Helper.Holds (.nullary "update")) isolated sameBlockPlan.helpers ∧
      (∀ c ∈ isolated, (plain ["AIComp", "AiComp"]).Survives sameBlock c) ∧
      (isolated ≠ [] → ∀ c, (plain ["AIComp", "AiComp"]).Survives sameBlock c → c ∈ isolated) ∧
      (sameBlockPlan.Linked ↔
        (isolated.map fun c => ComponentName.block c.component.name).Nodup) :=
  ⟨by decide, linked_iff (by decide) merge_sameBlock⟩

/-- Of two components whose names differ, the body of one runs twice and that of the other never. -/
theorem sameBlock_not_linked : (sameBlock.map (·.component.name)).Nodup ∧
    ∃ plan, (plain ["AIComp", "AiComp"]).merge (.nullary "update") sameBlock [] none =
        .ok (some plan) ∧
      ¬plan.Linked ∧ plan.bodies = ["think();", "think();"] := by
  refine ⟨by decide, sameBlockPlan, merge_sameBlock, fun h => ?_, by decide⟩
  have hnames := h.names
  revert hnames
  decide

end MergeFacts

end EntityWeaver
