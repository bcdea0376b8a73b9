import EntityWeaver.Proofs.Merge.Bodies

/-! The course of a merged method: its steps in order, freed from the guards around them.

    A step of the course runs where the predicates of its guards hold. Contributions show in it as
    bodies, calls of helpers and settings of fields; what stands between them is spliced in, or the
    entity's own:

        calls │ bypassing contributions │ check, groups, calls, code │ contributions │ calls, release

    Each contribution stands between the calls of its block, and none of the rest contributes. -/

namespace EntityWeaver

namespace Step

mutual

/-- The steps that a step comes to where all predicates hold. -/
def course : Step → List Step
  | .guard _ steps => courseOfAll steps
  | s => [s]

/-- The steps that steps come to where all predicates hold. -/
def courseOfAll : List Step → List Step
  | [] => []
  | s :: rest => s.course ++ courseOfAll rest

end

/-- Whether a step is the body of a component, calls the helper of one, or sets a field. -/
def contributes : Step → Bool
  | .inline _ _ => true
  | .invoke _ _ _ => true
  | .assign _ _ => true
  | _ => false

theorem courseOfAll_append (xs ys : List Step) :
    courseOfAll (xs ++ ys) = courseOfAll xs ++ courseOfAll ys := by
  induction xs with
  | nil => rfl
  | cons s rest ih => rw [List.cons_append, courseOfAll, courseOfAll, ih, List.append_assoc]

theorem courseOfAll_guarded (predicates : List String) (steps : List Step) :
    courseOfAll (guarded predicates steps) = courseOfAll steps := by
  unfold guarded
  split
  · rfl
  · rw [courseOfAll, course, courseOfAll, List.append_nil]

/-- Steps that guard nothing are their own course. -/
theorem courseOfAll_eq_self {steps : List Step} (h : ∀ s ∈ steps, s.course = [s]) :
    courseOfAll steps = steps := by
  induction steps with
  | nil => rfl
  | cons s rest ih =>
    rw [courseOfAll, h s List.mem_cons_self, ih fun t ht => h t (List.mem_cons_of_mem s ht)]
    rfl

theorem courseOfAll_map {α : Type} {f : α → Step} (h : ∀ x, (f x).course = [f x]) (xs : List α) :
    courseOfAll (xs.map f) = xs.map f :=
  courseOfAll_eq_self (List.forall_mem_map.2 fun x _ => h x)

end Step

/-- What stands beside contributions: calls of inserted methods and the release. Beside those that run
    `ahead` of the group check stand the check, the groups and the code `injected` into the entity as
    well. -/
inductive Beside (facts : MergeFacts) (signature : Signature) (splices : List Splice)
    (injected : Option CodeBlock) (ahead : Bool) : Step → Prop where
  | call {p : Splice} (listed : p ∈ splices) (resolved : facts.resolved.contains p.component = true)
      (inserts : p.isWrap = false) : Beside facts signature splices injected ahead (.call p.method)
  | release (pooled : facts.pooled = true) (leaving : signature.membership? = some false) :
      Beside facts signature splices injected ahead
        (.code (CodeBlock.empty.statement (groupsType ++ ".queueFree(this)")))
  | check {adding : Bool} (first : ahead = true) (toggles : signature.membership? = some adding) :
      Beside facts signature splices injected ahead (.reentrancy adding)
  | group {adding : Bool} {name : String} (first : ahead = true)
      (toggles : signature.membership? = some adding) (listed : name ∈ facts.groups) :
      Beside facts signature splices injected ahead (.group name adding)
  | code {block : CodeBlock} (first : ahead = true) (hooked : injected = some block) :
      Beside facts signature splices injected ahead (.code block)

namespace Beside

variable {facts : MergeFacts} {signature : Signature} {splices : List Splice}
  {injected : Option CodeBlock} {ahead : Bool} {step : Step}

theorem not_contributes (h : Beside facts signature splices injected ahead step) :
    step.contributes = false := by
  cases h <;> rfl

/-- What can stand behind the check can stand ahead of it. -/
theorem mono (h : Beside facts signature splices injected false step) :
    Beside facts signature splices injected ahead step := by
  cases h with
  | call listed resolved inserts => exact .call listed resolved inserts
  | release pooled leaving => exact .release pooled leaving
  | check first => cases first
  | group first => cases first
  | code first => cases first

theorem of_mem_activeSplices {p : Splice} (h : p ∈ facts.activeSplices splices) {after : Bool}
    (hinserts : p.isInsert after = true) :
    Beside facts signature splices injected ahead (.call p.method) := by
  obtain ⟨hlisted, hresolved⟩ := List.mem_filter.1 (List.mem_mergeSort.1 h)
  refine .call hlisted hresolved ?_
  cases hkind : p.kind with
  | insert a bypass => simp [Splice.isWrap, hkind]
  | wrap => simp [Splice.isInsert, hkind] at hinserts

theorem filter_eq_nil {steps : List Step}
    (h : ∀ t ∈ steps, Beside facts signature splices injected ahead t) :
    steps.filter (·.contributes) = [] :=
  List.filter_eq_nil_iff.2 fun t ht => by rw [(h t ht).not_contributes]; exact Bool.false_ne_true

end Beside

/-- The steps that a merged method runs where the predicates of its guards hold, in order. -/
def MethodPlan.course (p : MethodPlan) : List Step := Step.courseOfAll p.steps

namespace Layouter

variable (l : Layouter)

/-- A contribution between the calls of its block. -/
def course (u : Contribution) : List Step :=
  l.calls (ComponentName.block u.owner) false ++ l.core u ++
    l.calls (ComponentName.block u.owner) true

theorem course_of_mem_core {u : Contribution} {s : Step} (h : s ∈ l.core u) :
    s.course = [s] ∧ s.contributes = true := by
  cases u with
  | setter f =>
    rw [core, Option.toList_map] at h
    obtain ⟨p, -, rfl⟩ := List.mem_map.1 h
    exact ⟨rfl, rfl⟩
  | body c =>
    obtain ⟨text, -, rfl⟩ := List.mem_map.1 h
    split
    · exact ⟨rfl, rfl⟩
    · exact ⟨rfl, rfl⟩

theorem courseOfAll_steps (u : Contribution) : Step.courseOfAll (l.steps u) = l.course u := by
  have hcalls : ∀ block after, Step.courseOfAll (l.calls block after) = l.calls block after :=
    fun _ _ => Step.courseOfAll_map (fun _ => rfl) _
  have hcore : Step.courseOfAll (l.core u) = l.core u :=
    Step.courseOfAll_eq_self fun s hs => (l.course_of_mem_core hs).1
  rw [steps, Step.courseOfAll_guarded, Step.courseOfAll_append, Step.courseOfAll_append, hcalls,
    hcalls, hcore]
  rfl

theorem courseOfAll_flatMap_steps (us : List Contribution) :
    Step.courseOfAll (us.flatMap l.steps) = us.flatMap l.course := by
  induction us with
  | nil => rfl
  | cons u rest ih =>
    rw [List.flatMap_cons, Step.courseOfAll_append, ih, l.courseOfAll_steps, List.flatMap_cons]

/-- The calls around a contribution are those of active splices. -/
theorem beside_of_mem_calls {facts : MergeFacts} {signature : Signature} {splices : List Splice}
    {injected : Option CodeBlock} {ahead : Bool} (hactive : l.splices = facts.activeSplices splices)
    {block : String} {after : Bool} {step : Step} (h : step ∈ l.calls block after) :
    Beside facts signature splices injected ahead step := by
  obtain ⟨p, hp, rfl⟩ := List.mem_map.1 h
  obtain ⟨hp, hinserts⟩ := List.mem_filter.1 hp
  exact Beside.of_mem_activeSplices (hactive ▸ (List.mem_filter.1 hp).1) hinserts

theorem filter_contributes_course {facts : MergeFacts} {splices : List Splice}
    (hactive : l.splices = facts.activeSplices splices) (u : Contribution) :
    (l.course u).filter (·.contributes) = l.core u := by
  have hcalls : ∀ after, (l.calls (ComponentName.block u.owner) after).filter (·.contributes) = [] :=
    fun after => Beside.filter_eq_nil fun t ht =>
      (l.beside_of_mem_calls hactive ht : Beside facts l.signature splices none false t)
  rw [course, List.filter_append, List.filter_append, hcalls, hcalls, List.nil_append,
    List.append_nil]
  exact List.filter_eq_self.2 fun s hs => (l.course_of_mem_core hs).2

/-- What has nothing to run does not show. -/
theorem core_eq_nil {u : Contribution} (h : u.contributes = false) : l.core u = [] := by
  cases u with
  | setter f => cases h
  | body c =>
    have hnone : l.statements? c = none := by
      rw [← Option.not_isSome_iff_eq_none, l.isSome_statements?, ← Contribution.contributes_body, h]
      exact Bool.false_ne_true
    rw [core, hnone]
    rfl

theorem helper?_of_not_isolate (hi : l.isolate = false) (u : Contribution) : l.helper? u = none := by
  cases u with
  | setter f => rfl
  | body c => rw [helper?, hi]; rfl

end Layouter

namespace Selection

/-- The group check with the groups behind it. -/
def gate (facts : MergeFacts) (signature : Signature) : List Step :=
  match signature.membership? with
  | none => []
  | some adding => .reentrancy adding :: facts.groups.map fun g => .group g adding

/-- Everything between the contributions that bypass the group check and those that do not. -/
def middle (s : Selection) (facts : MergeFacts) (signature : Signature)
    (injected : Option CodeBlock) : List Step :=
  gate facts signature ++ (s.callsBefore signature false ++ (injected.map Step.code).toList)

/-- Everything behind the contributions. -/
def closing (s : Selection) (facts : MergeFacts) (signature : Signature) : List Step :=
  callsOf (s.unscoped.filter (·.isInsert true)) ++ release facts signature

theorem opening_eq (s : Selection) (facts : MergeFacts) (signature : Signature) :
    s.opening facts signature = s.callsBefore signature true ++
      (s.bypassing signature).flatMap (s.layouter signature).steps ++ gate facts signature := by
  cases h : signature.membership? with
  | none => simp [opening, gate, callsBefore, bypassing, h]
  | some adding => simp only [opening, gate, h]

theorem course_callsOf (splices : List Splice) :
    Step.courseOfAll (callsOf splices) = callsOf splices :=
  Step.courseOfAll_map (fun _ => rfl) splices

theorem course_callsBefore (s : Selection) (signature : Signature) (bypass : Bool) :
    Step.courseOfAll (s.callsBefore signature bypass) = s.callsBefore signature bypass := by
  unfold callsBefore
  dsimp only
  split
  · exact course_callsOf _
  · split
    · rfl
    · exact course_callsOf _

theorem course_gate (facts : MergeFacts) (signature : Signature) :
    Step.courseOfAll (gate facts signature) = gate facts signature := by
  unfold gate
  split
  · rfl
  · rw [Step.courseOfAll, Step.courseOfAll_map fun _ => rfl]
    rfl

theorem course_release (facts : MergeFacts) (signature : Signature) :
    Step.courseOfAll (release facts signature) = release facts signature := by
  unfold release
  split <;> rfl

/-- The course of a plan: its contributions, and what stands around them. -/
theorem course_plan (s : Selection) (facts : MergeFacts) (signature : Signature)
    (injected : Option CodeBlock) :
    (s.plan facts signature injected).course =
      s.callsBefore signature true ++ (s.bypassing signature).flatMap (s.layouter signature).course ++
        s.middle facts signature injected ++
          (s.checked signature).flatMap (s.layouter signature).course ++
            s.closing facts signature := by
  have hinjected : Step.courseOfAll (injected.map Step.code).toList =
      (injected.map Step.code).toList := by
    cases injected <;> rfl
  simp only [MethodPlan.course, plan, opening_eq, inner, middle, closing, Step.courseOfAll_append,
    Step.courseOfAll_guarded, course_callsBefore, course_callsOf, course_gate, course_release,
    hinjected, Layouter.courseOfAll_flatMap_steps, List.append_assoc]

variable {s : Selection} {facts : MergeFacts} {signature : Signature} {splices : List Splice}
  {injected : Option CodeBlock} {ahead : Bool} {step : Step}

/-- Calls of spliced methods of which each inserts. -/
theorem beside_of_mem_callsOf (hactive : s.splices = facts.activeSplices splices)
    {inserts : List Splice} {after : Bool} (hsub : inserts ⊆ s.unscoped.filter (·.isInsert after))
    (h : step ∈ callsOf inserts) :
    Beside facts signature splices injected ahead step := by
  obtain ⟨p, hp, rfl⟩ := List.mem_map.1 h
  obtain ⟨hp, hinserts⟩ := List.mem_filter.1 (hsub hp)
  exact .of_mem_activeSplices (hactive ▸ (List.mem_filter.1 hp).1) hinserts

theorem beside_of_mem_callsBefore (hactive : s.splices = facts.activeSplices splices) {bypass : Bool}
    (h : step ∈ s.callsBefore signature bypass) :
    Beside facts signature splices injected ahead step := by
  unfold callsBefore at h
  dsimp only at h
  split at h
  · exact beside_of_mem_callsOf hactive List.filter_sublist.subset h
  · split at h
    · cases h
    · exact beside_of_mem_callsOf hactive (List.Subset.refl _) h

theorem beside_of_mem_middle (hactive : s.splices = facts.activeSplices splices)
    (h : step ∈ s.middle facts signature injected) :
    Beside facts signature splices injected true step := by
  unfold middle gate at h
  rcases List.mem_append.1 h with hgate | h
  · split at hgate
    · cases hgate
    next adding htoggles =>
    rcases List.mem_cons.1 hgate with rfl | hgroup
    · exact .check rfl htoggles
    · obtain ⟨name, hname, rfl⟩ := List.mem_map.1 hgroup
      exact .group rfl htoggles hname
  rcases List.mem_append.1 h with hcall | hcode
  · exact beside_of_mem_callsBefore hactive hcall
  · rw [Option.toList_map] at hcode
    obtain ⟨block, hblock, rfl⟩ := List.mem_map.1 hcode
    exact .code rfl (Option.mem_toList.1 hblock)

theorem beside_of_mem_closing (hactive : s.splices = facts.activeSplices splices)
    (h : step ∈ s.closing facts signature) :
    Beside facts signature splices injected ahead step := by
  unfold closing release at h
  rcases List.mem_append.1 h with hcall | hrelease
  · exact beside_of_mem_callsOf hactive (List.Subset.refl _) hcall
  · split at hrelease
    next hpool =>
      rw [List.mem_singleton.1 hrelease]
      exact .release hpool.1 hpool.2
    · cases hrelease

/-- The contributions show in the course of a plan in the order in which they are laid out, and
    nothing else contributes. -/
theorem filter_contributes_course_plan (injected : Option CodeBlock)
    (hactive : s.splices = facts.activeSplices splices) :
    (s.plan facts signature injected).course.filter (·.contributes) =
      (s.laidOut signature).flatMap (s.layouter signature).core := by
  have hcourse : ∀ us : List Contribution,
      (us.flatMap (s.layouter signature).course).filter (·.contributes) =
        us.flatMap (s.layouter signature).core := by
    intro us
    rw [List.filter_flatMap]
    exact List.flatMap_congr fun u _ => (s.layouter signature).filter_contributes_course hactive u
  have hbefore : (s.callsBefore signature true).filter (·.contributes) = [] :=
    Beside.filter_eq_nil fun t ht =>
      (beside_of_mem_callsBefore hactive ht : Beside facts signature splices injected false t)
  have hmiddle : (s.middle facts signature injected).filter (·.contributes) = [] :=
    Beside.filter_eq_nil fun _ ht => beside_of_mem_middle hactive ht
  have hclosing : (s.closing facts signature).filter (·.contributes) = [] :=
    Beside.filter_eq_nil fun t ht =>
      (beside_of_mem_closing hactive ht : Beside facts signature splices injected false t)
  simp only [course_plan, List.filter_append, hcourse, hbefore, hmiddle, hclosing, laidOut,
    List.flatMap_append, List.nil_append, List.append_nil]

end Selection

end EntityWeaver
