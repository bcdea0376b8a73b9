import EntityWeaver.Proofs.Merge.Course

/-! Bodies that stand in the merged method itself.

    A body is written into the merged method where no other contribution has something to run, and
    goes into a helper everywhere else. So a merged method holds at most one such body, and a return
    in it skips no other contribution; but it does skip what stands beside the contributions:

        inserted calls behind the body, the release into the pool, and behind a body that
        bypasses the group check, the check with all that it guards

    The merged method has the parameters of the first implementation. That is the one whose body is
    written into it, unless an implementation that has nothing to run comes first:

        lead   update(dt)      blank          merged   update(dt)
               update(delta)   use(delta);             use(delta);    unbound -/

namespace EntityWeaver

/-- Where at most one value counts, no value but a given one that does. -/
theorem not_of_countP_le_one {α : Type} {p : α → Bool} {before after : List α} {a : α}
    (hcount : (before ++ a :: after).countP p ≤ 1) (ha : p a = true) :
    ∀ b ∈ before ++ after, p b = false := by
  rw [List.countP_append, List.countP_cons_of_pos ha] at hcount
  have hnone : (before ++ after).countP p = 0 := by
    rw [List.countP_append]
    omega
  exact fun b hb => Bool.eq_false_iff.2 (List.countP_eq_zero.1 hnone b hb)

/-- Two values that count are the same where at most one does. -/
theorem eq_of_countP_le_one {α : Type} {p : α → Bool} {xs : List α} {a b : α}
    (hcount : xs.countP p ≤ 1) (ha : a ∈ xs) (hb : b ∈ xs) (hpa : p a = true) (hpb : p b = true) :
    b = a := by
  obtain ⟨before, after, rfl⟩ := List.append_of_mem ha
  by_contra hne
  have hmem : b ∈ before ++ after := by
    rcases List.mem_append.1 hb with hb | hb
    · exact List.mem_append_left _ hb
    · exact List.mem_append_right _ ((List.mem_cons.1 hb).resolve_left hne)
  rw [not_of_countP_le_one hcount hpa b hmem] at hpb
  cases hpb

namespace MergeFacts

/-- The implementation of the lowest rank among those that stay. -/
structure Leads (facts : MergeFacts) (candidates : List Candidate) (lead : Candidate) : Prop where
  stays : facts.Stays candidates lead
  concrete : lead.isConcrete = true
  first : ∀ c, facts.Stays candidates c → c.isConcrete = true → lead.rank.le c.rank = true

end MergeFacts

namespace Layouter

variable (l : Layouter)

/-- Statements that signal nothing are kept as they are. -/
theorem statements?_of_not_signal {c : Candidate} (hc : c.HasStatements)
    (h : (l.isolate && c.method.noBreakBlock) = false) :
    l.statements? c = c.method.body.bind (MethodBody.statements? · .keep) := by
  rw [statements?, if_pos hc.1, h]
  rfl

/-- Around a contribution that has nothing to run stand calls only. -/
theorem beside_of_mem_course {facts : MergeFacts} {signature : Signature} {splices : List Splice}
    {injected : Option CodeBlock} {ahead : Bool} (hactive : l.splices = facts.activeSplices splices)
    {u : Contribution} (hu : u.contributes = false) {step : Step} (h : step ∈ l.course u) :
    Beside facts signature splices injected ahead step := by
  rw [course, l.core_eq_nil hu, List.append_nil] at h
  rcases List.mem_append.1 h with h | h
  · exact l.beside_of_mem_calls hactive h
  · exact l.beside_of_mem_calls hactive h

theorem beside_of_mem_flatMap_course {facts : MergeFacts} {signature : Signature}
    {splices : List Splice} {injected : Option CodeBlock} {ahead : Bool}
    (hactive : l.splices = facts.activeSplices splices) {us : List Contribution}
    (hus : ∀ u ∈ us, u.contributes = false) {step : Step} (h : step ∈ us.flatMap l.course) :
    Beside facts signature splices injected ahead step := by
  obtain ⟨u, hu, h⟩ := List.mem_flatMap.1 h
  exact l.beside_of_mem_course hactive (hus u hu) h

/-- Where nothing else contributes, a body in the merged method itself stands between calls only. -/
theorem exists_flatMap_course_eq {facts : MergeFacts} {splices : List Splice} (signature : Signature)
    (injected : Option CodeBlock) (hactive : l.splices = facts.activeSplices splices)
    (hi : l.isolate = false) {c : Candidate} (hrun : c.HasStatements) {text : String}
    (htext : l.statements? c = some text) {us : List Contribution} (hmem : .body c ∈ us)
    (hcount : us.countP Contribution.contributes ≤ 1) :
    ∃ before after, us.flatMap l.course = before ++ .inline c.component.name text :: after ∧
      ∀ t ∈ before ++ after, Beside facts signature splices injected false t := by
  obtain ⟨xs, ys, rfl⟩ := List.append_of_mem hmem
  obtain ⟨hxs, hys⟩ := List.forall_mem_append.1
    (not_of_countP_le_one hcount (Contribution.contributes_body.2 hrun))
  have hcourse : l.course (.body c) = l.calls (ComponentName.block c.component.name) false ++
      .inline c.component.name text :: l.calls (ComponentName.block c.component.name) true := by
    rw [course, core, htext, hi]
    simp [Contribution.owner]
  refine ⟨xs.flatMap l.course ++ l.calls (ComponentName.block c.component.name) false,
    l.calls (ComponentName.block c.component.name) true ++ ys.flatMap l.course, ?_, ?_⟩
  · rw [List.flatMap_append, List.flatMap_cons, hcourse]
    simp only [List.append_assoc, List.cons_append]
  · simp only [List.forall_mem_append]
    exact ⟨⟨fun _ => l.beside_of_mem_flatMap_course hactive hxs,
        fun _ => l.beside_of_mem_calls hactive⟩,
      fun _ => l.beside_of_mem_calls hactive,
      fun _ => l.beside_of_mem_flatMap_course hactive hys⟩

end Layouter

namespace Selection

variable {s : Selection} {facts : MergeFacts} {signature : Signature} {splices : List Splice}
  {injected : Option CodeBlock} {c : Candidate}

theorem body_mem_laidOut_iff : .body c ∈ s.laidOut signature ↔ c ∈ s.survivors := by
  rw [(s.laidOut_perm signature).mem_iff, s.contributions_perm.mem_iff]
  simp

/-- A body in the course of a plan is that of a survivor, and nothing is isolated. -/
theorem exists_of_inline_mem_course (hactive : s.splices = facts.activeSplices splices)
    {name text : String} (h : .inline name text ∈ (s.plan facts signature injected).course) :
    (s.layouter signature).isolate = false ∧
      ∃ c ∈ s.survivors, c.component.name = name ∧
        (s.layouter signature).statements? c = some text := by
  have hmem : Step.inline name text ∈ (s.laidOut signature).flatMap (s.layouter signature).core := by
    rw [← filter_contributes_course_plan injected hactive]
    exact List.mem_filter.2 ⟨h, rfl⟩
  obtain ⟨u, hu, hcore⟩ := List.mem_flatMap.1 hmem
  cases u with
  | setter f =>
    rw [Layouter.core, Option.toList_map] at hcore
    obtain ⟨p, -, hp⟩ := List.mem_map.1 hcore
    cases hp
  | body c =>
    obtain ⟨text', htext, hstep⟩ := List.mem_map.1 hcore
    split at hstep
    · cases hstep
    next hi =>
    obtain ⟨rfl, rfl⟩ := Step.inline.inj hstep
    exact ⟨Bool.eq_false_iff.2 hi, c, body_mem_laidOut_iff.1 hu, rfl, Option.mem_toList.1 htext⟩

/-- What a contribution runs shows in the course. -/
theorem mem_course_of_mem_core (hactive : s.splices = facts.activeSplices splices)
    {u : Contribution} (hu : u ∈ s.laidOut signature) {t : Step}
    (ht : t ∈ (s.layouter signature).core u) : t ∈ (s.plan facts signature injected).course := by
  have hmem : t ∈ (s.laidOut signature).flatMap (s.layouter signature).core :=
    List.mem_flatMap.2 ⟨u, hu, ht⟩
  rw [← filter_contributes_course_plan injected hactive] at hmem
  exact (List.mem_filter.1 hmem).1

/-- An isolated body is a helper, and a call of it. -/
theorem exists_helper_of_isolate (hactive : s.splices = facts.activeSplices splices)
    (hi : (s.layouter signature).isolate = true) (hc : c ∈ s.survivors) {text : String}
    (htext : (s.layouter signature).statements? c = some text) :
    ∃ name args, ⟨name, c.component.name, c.method.params, text, c.method.noBreakBlock⟩ ∈
        (s.plan facts signature injected).helpers ∧
      .invoke name args c.method.noBreakBlock ∈ (s.plan facts signature injected).course := by
  have hu : .body c ∈ s.laidOut signature := body_mem_laidOut_iff.2 hc
  refine ⟨(s.layouter signature).helperName (ComponentName.block c.component.name),
    (s.layouter signature).params, ?_, mem_course_of_mem_core hactive hu ?_⟩
  · rw [plan_helpers]
    refine List.mem_filterMap.2 ⟨.body c, hu, ?_⟩
    rw [Layouter.helper?, if_pos hi, htext]
    rfl
  · rw [Layouter.core, htext, hi]
    exact List.mem_singleton_self _

/-- Where a method without a result isolates nothing, at most one contribution has something to
    run. -/
theorem countP_contributes_le_one (hvoid : s.isVoid = true)
    (hi : (s.layouter signature).isolate = false) :
    (s.laidOut signature).countP Contribution.contributes ≤ 1 := by
  rw [(s.laidOut_perm signature).countP_eq]
  simpa [layouter, hvoid] using hi

/-- Around a body in the merged method itself stands nothing that contributes. Behind it stand calls
    and the release; the check and what belongs to it only if the body bypasses it. -/
theorem exists_course_eq (injected : Option CodeBlock)
    (hactive : s.splices = facts.activeSplices splices) (hvoid : s.isVoid = true)
    (hi : (s.layouter signature).isolate = false) (hc : c ∈ s.survivors) (hrun : c.HasStatements)
    {text : String}
    (htext : (s.layouter signature).statements? c = some text) :
    ∃ before after, (s.plan facts signature injected).course =
        before ++ .inline c.component.name text :: after ∧
      (∀ t ∈ before, Beside facts signature splices injected true t) ∧
      ∀ t ∈ after, Beside facts signature splices injected
        (signature.membership?.isSome && c.method.bypassesGroupCheck) t := by
  have hcount := countP_contributes_le_one hvoid hi
  rw [laidOut, List.countP_append] at hcount
  have hpos : ∀ us : List Contribution, .body c ∈ us → 0 < us.countP Contribution.contributes :=
    fun us hmem => List.countP_pos_iff.2 ⟨_, hmem, Contribution.contributes_body.2 hrun⟩
  have hsilent : ∀ us : List Contribution, us.countP Contribution.contributes = 0 →
      ∀ u ∈ us, u.contributes = false :=
    fun us hzero u hu => Bool.eq_false_iff.2 (List.countP_eq_zero.1 hzero u hu)
  rw [course_plan]
  rcases List.mem_append.1 (body_mem_laidOut_iff.2 hc) with hmem | hmem
  · have hahead : (signature.membership?.isSome && c.method.bypassesGroupCheck) = true := by
      unfold bypassing at hmem
      split at hmem
      next hm => rw [hm, Bool.true_and]; exact (List.mem_filter.1 hmem).2
      · cases hmem
    have hbypassing := hpos _ hmem
    have hchecked := hsilent (s.checked signature) (by omega)
    obtain ⟨before, after, heq, hbeside⟩ := (s.layouter signature).exists_flatMap_course_eq
      signature injected hactive hi hrun htext hmem (by omega)
    obtain ⟨hbefore, hafter⟩ := List.forall_mem_append.1 hbeside
    rw [heq, hahead]
    refine ⟨s.callsBefore signature true ++ before, after ++ (s.middle facts signature injected ++
      ((s.checked signature).flatMap (s.layouter signature).course ++ s.closing facts signature)),
      by simp only [List.append_assoc, List.cons_append], ?_, ?_⟩
    · exact List.forall_mem_append.2
        ⟨fun _ => beside_of_mem_callsBefore hactive, fun t ht => (hbefore t ht).mono⟩
    · simp only [List.forall_mem_append]
      exact ⟨fun t ht => (hafter t ht).mono, fun _ => beside_of_mem_middle hactive,
        fun _ => (s.layouter signature).beside_of_mem_flatMap_course hactive hchecked,
        fun _ => beside_of_mem_closing hactive⟩
  · have hchecked := hpos _ hmem
    have hbypassing := hsilent (s.bypassing signature) (by omega)
    obtain ⟨before, after, heq, hbeside⟩ := (s.layouter signature).exists_flatMap_course_eq
      signature injected hactive hi hrun htext hmem (by omega)
    obtain ⟨hbefore, hafter⟩ := List.forall_mem_append.1 hbeside
    rw [heq]
    refine ⟨s.callsBefore signature true ++
      ((s.bypassing signature).flatMap (s.layouter signature).course ++
        (s.middle facts signature injected ++ before)), after ++ s.closing facts signature,
      by simp only [List.append_assoc, List.cons_append], ?_, ?_⟩
    · simp only [List.forall_mem_append]
      exact ⟨fun _ => beside_of_mem_callsBefore hactive,
        fun _ => (s.layouter signature).beside_of_mem_flatMap_course hactive hbypassing,
        fun _ => beside_of_mem_middle hactive, fun t ht => (hbefore t ht).mono⟩
    · exact List.forall_mem_append.2
        ⟨fun t ht => (hafter t ht).mono, fun _ => beside_of_mem_closing hactive⟩

end Selection

/-- The implementation that leads is the one whose parameters are adopted. -/
theorem MergeFacts.SelectedFrom.exists_leads {facts : MergeFacts} {signature : Signature}
    {candidates kept : List Candidate} {splices : List Splice} {injected : Bool} {first : Candidate}
    {s : Selection}
    (hs : MergeFacts.SelectedFrom facts signature candidates splices injected first kept s)
    {c : Candidate} (hc : c ∈ s.survivors) (hconcrete : c.isConcrete = true) :
    ∃ lead ∈ s.survivors, facts.Leads candidates lead ∧ s.template = lead.method := by
  have hstays : ∀ {d}, d ∈ s.survivors ↔ facts.Stays candidates d := hs.mem_survivors_iff
  obtain ⟨lead, hlead⟩ := Option.isSome_iff_exists.1
    (List.find?_isSome.2 ⟨c, hc, hconcrete⟩ : (s.survivors.find? (·.isConcrete)).isSome)
  obtain ⟨hfound, before, after, hsplit, hbefore⟩ := List.find?_eq_some_iff_append.1 hlead
  have hmem : lead ∈ s.survivors := List.mem_of_find?_eq_some hlead
  have hsorted : s.survivors.Pairwise fun a b => a.le b := by
    rw [hs.survivors]
    exact ((Ordered.ranks.on Candidate.rank).pairwise_mergeSort kept).filter _
  refine ⟨lead, hmem, ⟨hstays.1 hmem, hfound, fun d hd hdc => ?_⟩, ?_⟩
  · have hd := hstays.2 hd
    rw [hsplit] at hd hsorted
    rcases List.mem_append.1 hd with hd | hd
    · have hnot := hbefore d hd
      rw [hdc] at hnot
      cases hnot
    · exact (Ordered.ranks.on Candidate.rank).head_le (List.pairwise_append.1 hsorted).2.1 hd
  · rw [hs.template, MergeFacts.chooseTemplate, hlead]
    rfl

namespace MergeFacts

variable {facts : MergeFacts} {signature : Signature} {candidates : List Candidate}
  {splices : List Splice} {hook : Option CodeHook} {plan : MethodPlan}

/-- A merged method has the parameters of the implementation that leads. If a body stands in it, that
    is the body of the lead, unless the lead has nothing to run; so the body has the parameters that
    its component gave it exactly if the lead has something to run or names them the same. -/
theorem params_of_inlined (h : facts.merge signature candidates splices hook = .ok (some plan))
    {name text : String} (hin : .inline name text ∈ plan.course) :
    ∃ c lead, facts.Survives candidates c ∧ c.component.name = name ∧
      c.method.body.bind (MethodBody.statements? · .keep) = some text ∧
      facts.Leads candidates lead ∧ plan.params = lead.method.params ∧
      (lead.HasStatements → lead = c) ∧
      (plan.params.map (·.name) = c.method.params.map (·.name) ↔
        lead.HasStatements ∨ lead.method.params.map (·.name) = c.method.params.map (·.name)) := by
  obtain ⟨s, injected, hselect, -, rfl⟩ := merge_eq_ok_some h
  obtain ⟨first, kept, hs⟩ := select_eq_ok_some hselect
  obtain ⟨hi, c, hc, rfl, htext⟩ := Selection.exists_of_inline_mem_course hs.splices hin
  have hrun : c.HasStatements := by
    rw [← (s.layouter signature).isSome_statements?, htext]
    rfl
  obtain ⟨lead, hlead, hleads, htemplate⟩ := hs.exists_leads hc hrun.1
  have hparams : (s.plan facts signature injected).params = lead.method.params :=
    congrArg MethodDecl.params htemplate
  have heq : lead.HasStatements → lead = c := by
    intro hlrun
    cases hvoid : s.isVoid with
    | true =>
      have hbody := eq_of_countP_le_one (Selection.countP_contributes_le_one hvoid hi)
        (Selection.body_mem_laidOut_iff.2 hc) (Selection.body_mem_laidOut_iff.2 hlead)
        (Contribution.contributes_body.2 hrun) (Contribution.contributes_body.2 hlrun)
      exact Contribution.body.inj hbody
    | false =>
      have hkept : ∀ {d}, d ∈ s.survivors → d ∈ kept := fun hd => by
        rw [hs.kept_eq]
        exact (stays_iff.1 (hs.mem_survivors_iff.1 hd)).1
      exact eq_of_countP_le_one (hs.single hvoid) (hkept hc) (hkept hlead) hrun.1 hlrun.1
  refine ⟨c, lead, ⟨hs.mem_survivors_iff.1 hc, hrun⟩, rfl, ?_, hleads, hparams, heq, ?_⟩
  · rw [← (s.layouter signature).statements?_of_not_signal hrun (by rw [hi]; rfl), htext]
  · rw [hparams]
    exact ⟨.inr, fun hsame => hsame.elim (fun hlrun => by rw [heq hlrun]) id⟩

/-- An implementation with nothing to run, ahead of one that names its parameter otherwise. -/
def blankLead : List Candidate :=
  [⟨{ name := "AComp" }, { name := "update", params := [⟨"dt", "float"⟩], body := some "" }⟩,
    ⟨{ name := "BComp" },
      { name := "update", params := [⟨"delta", "float"⟩], body := some "use(delta);" }⟩]

/-- The update of the second with the parameter of the first. -/
def blankLeadPlan : MethodPlan :=
  ⟨.ofTypes "update" ["float"], "void", [⟨"dt", "float"⟩], false, false,
    [.inline "BComp" "use(delta);"], []⟩

theorem merge_blankLead : (plain ["AComp", "BComp"]).merge (.ofTypes "update" ["float"]) blankLead []
    none = .ok (some blankLeadPlan) :=
  merge_of_ranked blankLead rfl rfl (by decide) (by decide) .nil

theorem inline_mem_blankLeadPlan : .inline "BComp" "use(delta);" ∈ blankLeadPlan.course :=
  List.mem_singleton_self _

/-- What can be said of the two updates. -/
theorem params_of_inlined_blankLead :
    ∃ c lead, (plain ["AComp", "BComp"]).Survives blankLead c ∧ c.component.name = "BComp" ∧
      c.method.body.bind (MethodBody.statements? · .keep) = some "use(delta);" ∧
      (plain ["AComp", "BComp"]).Leads blankLead lead ∧ blankLeadPlan.params = lead.method.params ∧
      (lead.HasStatements → lead = c) ∧
      (blankLeadPlan.params.map (·.name) = c.method.params.map (·.name) ↔
        lead.HasStatements ∨ lead.method.params.map (·.name) = c.method.params.map (·.name)) :=
  params_of_inlined merge_blankLead inline_mem_blankLeadPlan

/-- The body in the merged update uses a parameter that the method does not have. -/
theorem blankLead_unbound :
    ∃ plan, (plain ["AComp", "BComp"]).merge (.ofTypes "update" ["float"]) blankLead [] none =
        .ok (some plan) ∧
      ∃ c ∈ blankLead, .inline c.component.name "use(delta);" ∈ plan.course ∧
        c.method.params.map (·.name) = ["delta"] ∧ plan.params.map (·.name) = ["dt"] :=
  ⟨blankLeadPlan, merge_blankLead, blankLead[1], List.mem_cons_of_mem _ List.mem_cons_self,
    inline_mem_blankLeadPlan, rfl, rfl⟩

/-- A body that returns for itself alone is isolated in a helper that does not signal, or stands in
    the merged method itself. Then nothing else contributes, and behind it stand only inserted calls
    and the release; the check and what belongs to it, with the code that the hook makes, only if the
    body bypasses it. -/
theorem plain_body_placed (hvoid : ∀ c ∈ candidates.head?, c.method.isVoid)
    (h : facts.merge signature candidates splices hook = .ok (some plan)) {c : Candidate}
    (hc : facts.Survives candidates c) (hplain : c.method.noBreakBlock = false) :
    ∃ template injected text, template.params = plan.params ∧
      hook.elim (.ok none) (· template) = .ok injected ∧
      c.method.body.bind (MethodBody.statements? · .keep) = some text ∧
      ((∃ name args, ⟨name, c.component.name, c.method.params, text, false⟩ ∈ plan.helpers ∧
          .invoke name args false ∈ plan.course) ∨
        ∃ before after, plan.course = before ++ .inline c.component.name text :: after ∧
          (∀ t ∈ before ++ after, t.contributes = false) ∧
          ∀ t ∈ after, Beside facts signature splices injected
            (signature.membership?.isSome && c.method.bypassesGroupCheck) t) := by
  obtain ⟨s, injected, hselect, hhook, rfl⟩ := merge_eq_ok_some h
  obtain ⟨first, kept, hs⟩ := select_eq_ok_some hselect
  have hisVoid : s.isVoid = true := hs.isVoid.trans (hvoid first hs.head)
  have hmem : c ∈ s.survivors := hs.mem_survivors_iff.2 hc.toStays
  have hkeep := (s.layouter signature).statements?_of_not_signal hc.running
    (by rw [hplain, Bool.and_false])
  obtain ⟨text, htext⟩ := Option.isSome_iff_exists.1
    ((s.layouter signature).isSome_statements?.2 hc.running)
  refine ⟨s.template, injected, text, rfl, hhook, hkeep ▸ htext, ?_⟩
  cases hi : (s.layouter signature).isolate with
  | true =>
    left
    rw [← hplain]
    exact Selection.exists_helper_of_isolate hs.splices hi hmem htext
  | false =>
    right
    obtain ⟨before, after, hcourse, hbefore, hafter⟩ :=
      Selection.exists_course_eq injected hs.splices hisVoid hi hmem hc.running htext
    refine ⟨before, after, hcourse, ?_, hafter⟩
    exact List.forall_mem_append.2
      ⟨fun t ht => (hbefore t ht).not_contributes, fun t ht => (hafter t ht).not_contributes⟩

/-- A body that can return early, alone with its signature. -/
def hasty (name : String) (directives : List Directive) : Candidate :=
  .ofBody "AComp" name "if(dead) return;" directives

/-- A call behind the whole method. -/
def lastCall : Splice := ⟨"AComp", "last", none, 0, .insert true false⟩

/-- What is merged from such a body. -/
def hastyPlan (signature : Signature) (steps : List Step) : MethodPlan :=
  ⟨signature, "void", [], false, false, steps, []⟩

theorem survives_hasty : (plain ["AComp"]).Survives [hasty "update" []] (hasty "update" []) where
  listed := List.mem_singleton_self _
  replacing d hd p hp := by
    rw [List.mem_singleton.1 hd] at hp
    cases hp
  unremoved := by decide
  extending := rfl
  running := by decide

theorem merge_hasty : (plain ["AComp"]).merge (.nullary "update") [hasty "update" []] [lastCall] none =
    .ok (some (hastyPlan (.nullary "update")
      [.inline "AComp" "if(dead) return;", .call "last"])) :=
  merge_of_ranked [hasty "update" []] rfl rfl (by decide) (by decide) (by decide)

/-- What can be said of an update with a call behind it. -/
theorem plain_body_placed_hasty :
    (hasty "update" []).method.noBreakBlock = false ∧ ∃ plan,
      (plain ["AComp"]).merge (.nullary "update") [hasty "update" []] [lastCall] none =
        .ok (some plan) ∧
      ∃ text, (hasty "update" []).method.body.bind (MethodBody.statements? · .keep) = some text ∧
        ((∃ name args, ⟨name, "AComp", [], text, false⟩ ∈ plan.helpers ∧
            .invoke name args false ∈ plan.course) ∨
          ∃ before after, plan.course = before ++ .inline "AComp" text :: after ∧
            (∀ t ∈ before ++ after, t.contributes = false) ∧
            ∀ t ∈ after, Beside (plain ["AComp"]) (.nullary "update") [lastCall] none false t) := by
  obtain ⟨_, injected, text, -, hinjected, hplaced⟩ :=
    plain_body_placed (by decide) merge_hasty survives_hasty rfl
  obtain rfl : none = injected := Except.ok.inj hinjected
  exact ⟨rfl, _, merge_hasty, text, hplaced⟩

/-- In what is merged from a lone body that can return early, it stands ahead of these steps. -/
def SkipsOnReturn (facts : MergeFacts) (name : String) (directives : List Directive)
    (splices : List Splice) (skipped : List Step) : Prop :=
  ∃ plan before, facts.merge (.nullary name) [hasty name directives] splices none = .ok (some plan) ∧
    plan.course = before ++ .inline "AComp" "if(dead) return;" :: skipped

/-- An early return skips a call behind the method, the release into the pool, and from ahead of the
    group check the check with the groups. -/
theorem exists_skipsOnReturn :
    (plain ["AComp"]).SkipsOnReturn "update" [] [lastCall] [.call "last"] ∧
    { plain ["AComp"] with pooled := true }.SkipsOnReturn "remove" [] []
      [.code (CodeBlock.empty.statement "Groups.queueFree(this)")] ∧
    { plain ["AComp"] with groups := ["unit"] }.SkipsOnReturn "add" [.bypassGroupCheck] []
      [.reentrancy true, .group "unit" true] := by
  refine ⟨⟨_, [], merge_hasty, rfl⟩,
    ⟨_, [.reentrancy false], merge_of_ranked [hasty "remove" []] rfl rfl (by decide) (by decide) .nil,
      rfl⟩,
    ⟨_, [], merge_of_ranked [hasty "add" [.bypassGroupCheck]] rfl rfl (by decide) (by decide) .nil,
      rfl⟩⟩

end MergeFacts

end EntityWeaver
