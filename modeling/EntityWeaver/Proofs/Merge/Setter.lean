import EntityWeaver.Proofs.Merge.Placement

/-! The setting of a field that no component wrote.

    A method without a result that one candidate alone implements, with one parameter, and that is
    called like a field of that type, sets the field as well. The setting has the rank of the field's
    owner at priority zero, and so stands ahead of the candidate's body or behind it:

        health(int)   HealthComp  field health: int       this.health = value
                      ShieldComp  health(int value)       onHit();

    It stays if the candidate itself is dropped. Only the candidate's own removals can stop it: removing
    the owner is a mistake, unless another one is found first. -/

namespace EntityWeaver

/-- Whether a step sets a field. -/
def Step.isAssign : Step → Bool
  | .assign _ _ => true
  | _ => false

namespace MergeFacts

/-- The mistake of a candidate that removes the owner of the field which it sets: to remove the owner,
    or to remove itself twice before. -/
def ownerRemoved (facts : MergeFacts) (signature : Signature) (c : Candidate) (f : MergedField) :
    AuthoringError :=
  if 1 < (c.method.removals.takeWhile (· ≠ f.owner)).count c.component.name then
    .doubleRemoval facts.entity signature.text c.component.name
  else .removedSetterOwner facts.entity signature.text f.owner f.name

variable {facts : MergeFacts} {signature : Signature} {candidates : List Candidate}
  {splices : List Splice} {hook : Option CodeHook} {plan : MethodPlan} {c : Candidate}
  {f : MergedField}

/-- The only name that is present is that of the candidate. So the first of these mistakes counts: it
    removes the owner of the field, or itself for the second time. -/
theorem removeTargets_of_owner_mem {targets removed : List String} {name : String}
    (hremoved : removed.count name ≤ 1) (howner : f.owner ∈ targets) :
    facts.removeTargets signature (some f) [name] removed targets =
      .error (if 1 < removed.count name + (targets.takeWhile (· ≠ f.owner)).count name then
        .doubleRemoval facts.entity signature.text name
        else .removedSetterOwner facts.entity signature.text f.owner f.name) := by
  induction targets generalizing removed with
  | nil => cases howner
  | cons target rest ih =>
    rw [removeTargets]
    by_cases hfirst : target = f.owner
    · subst hfirst
      have hfound : (some f).filter (·.owner == f.owner) = some f := by simp
      rw [hfound, List.takeWhile_cons_of_neg (by simp), List.count_nil,
        Nat.add_zero, if_neg (Nat.not_lt.2 hremoved)]
    · have hnone : (some f).filter (·.owner == target) = none := by
        simpa using fun h => hfirst h.symm
      have hrest : f.owner ∈ rest := (List.mem_cons.1 howner).resolve_left (Ne.symm hfirst)
      rw [hnone, List.takeWhile_cons_of_pos (by simpa using hfirst)]
      dsimp only
      by_cases hself : target = name
      · subst hself
        rw [if_neg (by simp), List.count_cons_self]
        by_cases hgone : target ∈ removed
        · have hcount := List.count_pos_iff.2 hgone
          rw [if_pos hgone, if_pos (by omega)]
        · have hcount := List.count_eq_zero.2 hgone
          rw [if_neg hgone, ih (by rw [List.count_cons_self]; omega) hrest, List.count_cons_self]
          congr 2
          rw [hcount]
          simp only [eq_iff_iff]
          omega
      · rw [if_pos (by simpa using hself), ih hremoved hrest, List.count_cons_of_ne hself]

namespace Sets

theorem membership? (h : facts.Sets signature candidates c f) : signature.membership? = none := by
  rw [Signature.membership?, Signature.arity, h.type]
  rfl

theorem topReplace? (h : facts.Sets signature candidates c f) :
    MergeFacts.topReplace? candidates = none := by
  rw [h.alone, topReplace?_eq_none_iff]
  exact fun d hd => List.mem_singleton.1 hd ▸ h.replacesNothing

theorem contenders (h : facts.Sets signature candidates c f) :
    MergeFacts.contenders candidates = [c] := by
  rw [MergeFacts.contenders, h.topReplace?]
  exact h.alone

/-- Removing the owner of the field is a mistake. -/
theorem merge_of_owner_mem (h : facts.Sets signature candidates c f)
    (howner : f.owner ∈ c.method.removals) :
    facts.merge signature candidates splices hook = .error (facts.ownerRemoved signature c f) := by
  have hreplace : facts.replaceStage signature c.method.isVoid candidates = .ok [c] := by
    rw [replaceStage, h.topReplace?, h.contenders]
    rfl
  have htargets := @removeTargets_of_owner_mem facts signature f c.method.removals []
    c.component.name (Nat.zero_le 1) howner
  rw [List.count_nil, Nat.zero_add] at htargets
  have hremove : facts.removeStage signature (facts.activeSetter? signature candidates)
      ([c].map (·.component.name)) [] [c] = .error (facts.ownerRemoved signature c f) := by
    rw [activeSetter?_eq_some_iff.2 ⟨c, h⟩, removeStage, if_neg List.not_mem_nil,
      List.map_singleton, htargets]
    rfl
  have hprune : facts.prune signature c.method.isVoid candidates =
      .error (facts.ownerRemoved signature c f) := by
    rw [prune, hreplace, ok_bind, hremove]
    rfl
  obtain rfl := h.alone
  rw [merge, select, hprune]
  rfl

end Sets

end MergeFacts

/-- A plan sets a field to a parameter of its own beside the `body` that a candidate is in it: ahead of
    the body if the rank of the field's owner at priority zero is ahead, and else behind it. -/
structure MethodPlan.SetsField (plan : MethodPlan) (facts : MergeFacts) (candidates : List Candidate)
    (c : Candidate) (f : MergedField) (q : Parameter) (body : List Step) : Prop where
  first : plan.params.head? = some q
  stays : facts.Stays candidates c → plan.Shows (.body c) body
  gone : ¬facts.Stays candidates c → body = []
  course : plan.course.filter (·.contributes) = if (⟨0, f.owner⟩ : Rank).Before c.rank
    then .assign f.name q.name :: body else body ++ [.assign f.name q.name]

namespace MethodPlan.SetsField

variable {plan : MethodPlan} {facts : MergeFacts} {candidates : List Candidate} {c : Candidate}
  {f : MergedField} {q : Parameter} {body : List Step}

/-- Nothing else is set. -/
theorem filter_isAssign (h : plan.SetsField facts candidates c f q body) :
    plan.course.filter (·.isAssign) = [.assign f.name q.name] := by
  have hbody : body.filter (·.isAssign) = [] := by
    by_cases hstays : facts.Stays candidates c
    · cases h.stays hstays <;> rfl
    · rw [h.gone hstays]
      rfl
  have hcontributes : plan.course.filter (·.isAssign) =
      (plan.course.filter (·.contributes)).filter (·.isAssign) := by
    rw [List.filter_filter]
    exact List.filter_congr fun t _ => by cases t <;> rfl
  rw [hcontributes, h.course]
  split
  · rw [List.filter_cons_of_pos rfl, hbody]
  · rw [List.filter_append, hbody]
    rfl

theorem assign_mem (h : plan.SetsField facts candidates c f q body) :
    .assign f.name q.name ∈ plan.course := by
  have hmem := List.mem_singleton_self (Step.assign f.name q.name)
  rw [← h.filter_isAssign] at hmem
  exact (List.mem_filter.1 hmem).1

end MethodPlan.SetsField

namespace MergeFacts

variable {facts : MergeFacts} {signature : Signature} {candidates : List Candidate}
  {splices : List Splice} {hook : Option CodeHook} {plan : MethodPlan} {c : Candidate}
  {f : MergedField}

section Selected

variable {kept : List Candidate} {injected : Bool} {first : Candidate} {s : Selection}

/-- The lone candidate survives if it stays, and its parameters are adopted anyway. -/
theorem Sets.of_selected (h : facts.Sets signature candidates c f)
    (hs : SelectedFrom facts signature candidates splices injected first kept s) :
    (facts.Stays candidates c ∧ s.survivors = [c] ∨
      ¬facts.Stays candidates c ∧ s.survivors = []) ∧ s.template = c.method := by
  have hstays : c ∈ s.survivors ↔ facts.Stays candidates c := hs.mem_survivors_iff
  have hkept : kept.Sublist [c] := by
    rw [hs.kept_eq, ← h.contenders]
    exact List.filter_sublist
  have hsublist : s.survivors.Sublist [c] := by
    rw [hs.survivors]
    rcases List.sublist_singleton.1 hkept with rfl | rfl
    · rw [List.mergeSort_nil]
      exact List.nil_sublist [c]
    · rw [List.mergeSort_singleton]
      exact List.filter_sublist
  have hhead : first = c := by
    have hfirst := hs.head
    rw [h.alone] at hfirst
    exact (Option.some.inj hfirst).symm
  rcases List.sublist_singleton.1 hsublist with hnone | hone
  · refine ⟨.inr ⟨fun hc => ?_, hnone⟩, ?_⟩
    · rw [← hstays, hnone] at hc
      cases hc
    · rw [hs.template, hnone, hhead]
      rfl
  · refine ⟨.inl ⟨hstays.1 (hone ▸ List.mem_singleton_self c), hone⟩, ?_⟩
    rw [hs.template, hone, hhead, chooseTemplate]
    cases hc : c.isConcrete <;> simp [hc]

/-- Of a body and a setting of different owners the one of the lower rank is laid out first. -/
theorem mergeSort_body_setter (hforeign : f.owner ≠ c.component.name) :
    [Contribution.body c, .setter f].mergeSort Contribution.le =
      if (⟨0, f.owner⟩ : Rank).Before c.rank then [.setter f, .body c] else [.body c, .setter f] := by
  have hranks : Ordered Contribution.le := Ordered.ranks.on Contribution.rank
  have hne : (Contribution.setter f).rank ≠ (Contribution.body c).rank := fun h =>
    hforeign (congrArg Rank.component h)
  split
  next hbefore =>
    have hswap := hranks.mergeSort_eq_of_perm (List.Perm.swap (.setter f) (.body c) []) ?_
    · rw [hswap]
      exact List.mergeSort_of_pairwise (List.pairwise_pair.2 (Rank.le_of_before hbefore))
    · intro u hu v hv huv hvu
      have hrank : u.rank = v.rank := Rank.le_antisymm huv hvu
      simp only [List.mem_cons, List.not_mem_nil, or_false] at hu hv
      rcases hu with rfl | rfl <;> rcases hv with rfl | rfl
      · rfl
      · exact absurd hrank.symm hne
      · exact absurd hrank hne
      · rfl
  next hbehind =>
    refine List.mergeSort_of_pairwise (List.pairwise_pair.2 ?_)
    rcases Bool.or_eq_true_iff.1
      (Rank.le_total (Contribution.setter f).rank (Contribution.body c).rank) with hle | hle
    · exact absurd (Rank.before_of_le hle hne) hbehind
    · exact hle

/-- The setting is laid out ahead of the body if its rank is ahead. -/
theorem Sets.laidOut_eq (h : facts.Sets signature candidates c f)
    (hs : SelectedFrom facts signature candidates splices injected first kept s) :
    s.laidOut signature = if (⟨0, f.owner⟩ : Rank).Before c.rank
      then .setter f :: s.survivors.map .body else s.survivors.map .body ++ [.setter f] := by
  have hall : s.laidOut signature = s.contributions := by
    simp [Selection.laidOut, Selection.bypassing, Selection.checked, h.membership?]
  rw [hall, Selection.contributions, hs.setter, activeSetter?_eq_some_iff.2 ⟨c, h⟩]
  dsimp only
  rcases (h.of_selected hs).1 with ⟨-, hone⟩ | ⟨-, hnone⟩
  · rw [hone]
    exact mergeSort_body_setter h.foreign
  · rw [hnone, List.map_nil, List.nil_append, List.mergeSort_singleton, ite_self]

/-- Where a field is set, it is set beside what the candidate is in the plan. -/
theorem Sets.exists_setsField (h : facts.Sets signature candidates c f)
    (hmerge : facts.merge signature candidates splices hook = .ok (some plan)) {q : Parameter}
    (hq : c.method.params.head? = some q) : ∃ body, plan.SetsField facts candidates c f q body := by
  obtain ⟨s, injected, hselect, -, rfl⟩ := merge_eq_ok_some hmerge
  obtain ⟨first, kept, hs⟩ := select_eq_ok_some hselect
  obtain ⟨hsurvivors, htemplate⟩ := h.of_selected hs
  have hassign : (s.layouter signature).core (.setter f) = [.assign f.name q.name] := by
    simp [Layouter.core, Selection.layouter, htemplate, List.head?_map, hq]
  refine ⟨(s.survivors.map .body).flatMap (s.layouter signature).core,
    (congrArg (·.params.head?) htemplate).trans hq, fun hstays => ?_, fun hgone => ?_, ?_⟩
  · rcases hsurvivors with ⟨-, hone⟩ | ⟨hgone, -⟩
    · rw [hone, List.map_singleton, List.flatMap_singleton]
      exact Selection.shows_core
        (Selection.body_mem_laidOut_iff.2 (hone ▸ List.mem_singleton_self c))
    · exact absurd hstays hgone
  · rcases hsurvivors with ⟨hstays, -⟩ | ⟨-, hnone⟩
    · exact absurd hstays hgone
    · rw [hnone]
      rfl
  · rw [Selection.filter_contributes_course_plan injected hs.splices, h.laidOut_eq hs]
    split
    · rw [List.flatMap_cons, hassign]
      rfl
    · rw [List.flatMap_append, List.flatMap_singleton, hassign]

end Selected

/-- Only an active setter sets a field. -/
theorem exists_sets_of_assign_mem
    (hmerge : facts.merge signature candidates splices hook = .ok (some plan)) {name param : String}
    (hassign : .assign name param ∈ plan.course) : ∃ c f, facts.Sets signature candidates c f := by
  obtain ⟨s, injected, hselect, -, rfl⟩ := merge_eq_ok_some hmerge
  obtain ⟨first, kept, hs⟩ := select_eq_ok_some hselect
  have hmem := List.mem_filter.2 ⟨hassign, (rfl : (Step.assign name param).contributes = true)⟩
  rw [Selection.filter_contributes_course_plan injected hs.splices] at hmem
  obtain ⟨u, hu, hcore⟩ := List.mem_flatMap.1 hmem
  rw [(s.laidOut_perm signature).mem_iff, s.contributions_perm.mem_iff] at hu
  cases u with
  | body c =>
    obtain ⟨text, -, hstep⟩ := List.mem_map.1 hcore
    split at hstep <;> cases hstep
  | setter f =>
    have hf : s.setter = some f := by simpa using hu
    obtain ⟨c, hsets⟩ := activeSetter?_eq_some_iff.1 (hs.setter.symm.trans hf)
    exact ⟨c, f, hsets⟩

/-- Candidates of a signature with one parameter have one. -/
theorem Sets.exists_parameter (h : facts.Sets signature candidates c f)
    (hsignature : c.method.signature = signature) : ∃ q, c.method.params.head? = some q := by
  have hlength : c.method.params.length = 1 := by
    have hparams := congrArg (List.length ∘ Signature.params) hsignature
    simpa [MethodDecl.signature, Signature.ofTypes, h.type] using hparams
  obtain ⟨q, hq⟩ := List.length_eq_one_iff.1 hlength
  exact ⟨q, congrArg List.head? hq⟩

/-- A merged method sets a field exactly if a lone candidate sets one, and then it sets that one from
    its own first parameter, once. If the candidate removes the owner, nothing is merged. -/
theorem setter_placed (hsignature : ∀ c ∈ candidates, c.method.signature = signature) :
    (∀ plan, facts.merge signature candidates splices hook = .ok (some plan) →
      ((∃ name param, .assign name param ∈ plan.course) ↔
        ∃ c f, facts.Sets signature candidates c f) ∧
      ∀ c f, facts.Sets signature candidates c f →
        ∃ q body, plan.SetsField facts candidates c f q body ∧
          plan.course.filter (·.isAssign) = [.assign f.name q.name]) ∧
    ∀ c f, facts.Sets signature candidates c f → f.owner ∈ c.method.removals →
      facts.merge signature candidates splices hook =
        .error (facts.ownerRemoved signature c f) := by
  refine ⟨fun plan hmerge => ?_, fun c f h howner => h.merge_of_owner_mem howner⟩
  have hplaced : ∀ c f, facts.Sets signature candidates c f →
      ∃ q body, plan.SetsField facts candidates c f q body := by
    intro c f h
    obtain ⟨q, hq⟩ := h.exists_parameter (hsignature c (h.alone ▸ List.mem_singleton_self c))
    obtain ⟨body, hsets⟩ := h.exists_setsField hmerge hq
    exact ⟨q, body, hsets⟩
  refine ⟨⟨fun ⟨name, param, hassign⟩ => exists_sets_of_assign_mem hmerge hassign, ?_⟩,
    fun c f h => ?_⟩
  · rintro ⟨c, f, h⟩
    obtain ⟨q, body, hsets⟩ := hplaced c f h
    exact ⟨f.name, q.name, hsets.assign_mem⟩
  · obtain ⟨q, body, hsets⟩ := hplaced c f h
    exact ⟨q, body, hsets, hsets.filter_isAssign⟩

/-- An entity with a health. -/
def armed : MergeFacts :=
  { plain ["HealthComp", "ShieldComp"] with
    fields := { fields := [⟨{ name := "health", type := "int" }, "HealthComp", false⟩] } }

/-- Is told the health of another component. -/
def shield (directives : List Directive) : Candidate :=
  ⟨{ name := "ShieldComp" },
    { name := "health", params := [⟨"value", "int"⟩], body := some "onHit();", directives }⟩

theorem sets_shield {directives : List Directive}
    (hreplace : (shield directives).method.replacePriority? = none) :
    armed.Sets (.ofTypes "health" ["int"]) [shield directives] (shield directives)
      ⟨{ name := "health", type := "int" }, "HealthComp", false⟩ where
  alone := rfl
  void := (by decide : (shield []).method.isVoid = true)
  replacesNothing := hreplace
  field := rfl
  type := rfl
  notStatic := rfl
  notFinal := rfl
  foreign := fun h => absurd h (by decide : "HealthComp" ≠ "ShieldComp")

/-- What can be said of a shield. -/
theorem setter_placed_shield :
    (∀ c ∈ [shield []], c.method.signature = .ofTypes "health" ["int"]) ∧
      ∃ plan, armed.merge (.ofTypes "health" ["int"]) [shield []] [] none = .ok (some plan) ∧
        ∃ q body, plan.SetsField armed [shield []] (shield [])
            ⟨{ name := "health", type := "int" }, "HealthComp", false⟩ q body ∧
          plan.course.filter (·.isAssign) = [.assign "health" q.name] := by
  have hsignature : ∀ c ∈ [shield []], c.method.signature = .ofTypes "health" ["int"] := by decide
  obtain ⟨plan, hmerge⟩ : ∃ plan, armed.merge (.ofTypes "health" ["int"]) [shield []] [] none =
      .ok (some plan) := ⟨_, rfl⟩
  exact ⟨hsignature, plan, hmerge,
    ((setter_placed hsignature).1 plan hmerge).2 _ _ (sets_shield rfl)⟩

/-- A shield that removes itself twice is not told that it removes the owner of the health too. -/
theorem shield_doubleRemoval :
    armed.Sets (.ofTypes "health" ["int"])
        [shield [.remove "ShieldComp", .remove "ShieldComp", .remove "HealthComp"]]
        (shield [.remove "ShieldComp", .remove "ShieldComp", .remove "HealthComp"])
        ⟨{ name := "health", type := "int" }, "HealthComp", false⟩ ∧
      "HealthComp" ∈ (shield [.remove "ShieldComp", .remove "ShieldComp",
        .remove "HealthComp"]).method.removals ∧
      armed.merge (.ofTypes "health" ["int"])
          [shield [.remove "ShieldComp", .remove "ShieldComp", .remove "HealthComp"]] [] none =
        .error (.doubleRemoval "Unit" "health(int)" "ShieldComp") :=
  ⟨sets_shield rfl, by decide, rfl⟩

end MergeFacts

end EntityWeaver
