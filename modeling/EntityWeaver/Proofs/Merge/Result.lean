import EntityWeaver.Proofs.Merge.Course

/-! Merging methods with a result.

    Only one implementation can give the result, so the candidates come to one of these:

        two of the highest replace priority        tied
        removed by two that act                    double removal
        several implementations left               multiple implementations
        none left                                  the entity's own, or unimplemented
        one left, what it extends is missing       unimplemented
                  an active splice                 an insert or a wrap that cannot be
                  otherwise                        its body, as it is

    An earlier line wins over a later one. Where no component declares the method at all there is
    nothing to merge, and nothing is unimplemented either. -/

namespace EntityWeaver

/-- The method of a lone implementation. -/
def Candidate.alone (c : Candidate) (signature : Signature) (text : String) : MethodPlan where
  signature := signature
  returnType := c.method.returnType
  params := c.method.params
  isStatic := c.method.modifiers.isStatic
  isPrivate := c.method.modifiers.isPrivate
  steps := [.inline c.component.name text]
  helpers := []

/-- In a list without repetitions two values are different exactly if there are two. -/
theorem one_lt_length_iff {α : Type} {xs : List α} (h : xs.Nodup) :
    1 < xs.length ↔ ∃ a ∈ xs, ∃ b ∈ xs, a ≠ b := by
  constructor
  · intro hlength
    match xs, h, hlength with
    | a :: b :: rest, h, _ =>
      exact ⟨a, List.mem_cons_self, b, List.mem_cons_of_mem a List.mem_cons_self,
        fun hab => (List.nodup_cons.1 h).1 (hab ▸ List.mem_cons_self)⟩
  · rintro ⟨a, ha, b, hb, hne⟩
    by_contra hlength
    obtain ⟨x, rfl⟩ := List.length_eq_one_iff.1
      (Nat.le_antisymm (Nat.not_lt.1 hlength) (List.length_pos_of_mem ha))
    exact hne ((List.mem_singleton.1 ha).trans (List.mem_singleton.1 hb).symm)

/-- The bodies that stand in the merged method itself are those of the implementations. -/
theorem Layouter.flatMap_core_of_not_isolate {l : Layouter} (hi : l.isolate = false)
    (cs : List Candidate) : (cs.map Contribution.body).flatMap l.core =
      (cs.filter (·.isConcrete)).filterMap fun c =>
        (c.method.body.bind (MethodBody.statements? · .keep)).map (.inline c.component.name) := by
  rw [List.flatMap_map, List.filterMap_filter, List.filterMap_eq_flatMap_toList]
  refine List.flatMap_congr fun c _ => ?_
  rw [core, statements?, hi]
  cases c.isConcrete with
  | true => exact Option.toList_map.symm
  | false => rfl

/-- Without splices a contribution stands alone. -/
theorem Layouter.steps_of_no_splices {l : Layouter} (h : l.splices = []) (u : Contribution) :
    l.steps u = l.core u := by
  simp [steps, predicates, calls, splicesOf, h, guarded]

/-- What is selected around a lone implementation of a method with a result becomes its body. -/
theorem Selection.plan_alone {facts : MergeFacts} {signature : Signature}
    {survivors : List Candidate} {c : Candidate} {text : String}
    (hmembership : signature.membership? = none)
    (hlone : survivors.filter (·.isConcrete) = [c])
    (htext : c.method.body.bind (MethodBody.statements? · .keep) = some text) :
    Selection.plan ⟨false, survivors, none, [], c.method⟩ facts signature none =
      c.alone signature text := by
  let s : Selection := ⟨false, survivors, none, [], c.method⟩
  have hchecked : s.checked signature = survivors.map .body := by
    simp [checked, hmembership, contributions, s]
  have hsteps : (s.checked signature).flatMap (s.layouter signature).steps =
      [.inline c.component.name text] := by
    have hsteps : (s.layouter signature).steps = (s.layouter signature).core :=
      funext (Layouter.steps_of_no_splices rfl)
    rw [hsteps, hchecked, Layouter.flatMap_core_of_not_isolate rfl, hlone,
      List.filterMap_cons_some (by rw [htext]; rfl)]
    rfl
  have hopening : s.opening facts signature = [] := by rw [opening, hmembership]
  have hinner : s.inner facts signature none = [.inline c.component.name text] := by
    simp [inner, hsteps, callsBefore, callsOf, unscoped, release, hmembership, s]
  have hhelpers : (s.laidOut signature).filterMap (s.layouter signature).helper? = [] :=
    List.filterMap_eq_nil_iff.2 fun u _ => (s.layouter signature).helper?_of_not_isolate rfl u
  change s.plan facts signature none = _
  rw [plan, hopening, hinner, ← laidOut, hhelpers]
  rfl

namespace MergeFacts

variable {facts : MergeFacts} {signature : Signature} {candidates : List Candidate}
  {splices : List Splice} {injected : Bool}

/-- Two candidates replace with one priority, and none with a higher one. -/
def Tied (candidates : List Candidate) : Prop :=
  ∃ a ∈ candidates, ∃ b ∈ candidates, a ≠ b ∧ ∃ top, a.method.replacePriority? = some top ∧
    b.method.replacePriority? = some top ∧
      ∀ d ∈ candidates, ∀ p, d.method.replacePriority? = some p → p ≤ top

/-- The implementations that replacing and removing leave. -/
def implementations (candidates : List Candidate) : List Candidate :=
  (spared (contenders candidates)).filter (·.isConcrete)

/-- What comes of the only implementation that is left, whose statements are given. -/
def settle (facts : MergeFacts) (signature : Signature) (splices : List Splice) (c : Candidate)
    (text : String) : Except AuthoringError (Option MethodPlan) :=
  if facts.extendHolds c.method = false then .error (.unimplemented facts.entity signature.text)
  else if ∃ s ∈ splices, s.component ∈ facts.resolved ∧ s.isWrap = false then
    .error (.insertIntoNonVoid signature.text)
  else if ∃ s ∈ splices, s.component ∈ facts.resolved then .error (.wrapNonVoid signature.text)
  else .ok (some (c.alone signature text))

theorem tied_iff (hnd : candidates.Nodup) :
    Tied candidates ↔ (topReplace? candidates).isSome ∧ 1 < (contenders candidates).length := by
  rw [one_lt_length_iff (hnd.sublist (contenders_sublist candidates))]
  unfold contenders
  constructor
  · rintro ⟨a, ha, b, hb, hne, top, hat, hbt, htop⟩
    have hsome := topReplace?_eq_some_iff.2 ⟨⟨a, ha, hat⟩, htop⟩
    rw [hsome]
    exact ⟨rfl, a, List.mem_filter.2 ⟨ha, beq_iff_eq.2 hat⟩, b,
      List.mem_filter.2 ⟨hb, beq_iff_eq.2 hbt⟩, hne⟩
  · rintro ⟨hsome, a, ha, b, hb, hne⟩
    obtain ⟨top, htop⟩ := Option.isSome_iff_exists.1 hsome
    rw [htop] at ha hb
    obtain ⟨ha, hat⟩ := List.mem_filter.1 ha
    obtain ⟨hb, hbt⟩ := List.mem_filter.1 hb
    exact ⟨a, ha, b, hb, hne, top, beq_iff_eq.1 hat, beq_iff_eq.1 hbt,
      (topReplace?_eq_some_iff.1 htop).2⟩

/-- Without a setter the only mistake in removing is to remove a candidate twice. -/
theorem removeTargets_eq_error {present removed targets : List String} {e : AuthoringError}
    (h : facts.removeTargets signature none present removed targets = .error e) :
    ∃ name, e = .doubleRemoval facts.entity signature.text name := by
  induction targets generalizing removed with
  | nil => cases h
  | cons target rest ih =>
    rw [removeTargets, Option.filter_none] at h
    dsimp only at h
    split at h
    · exact ih h
    split at h
    · exact ⟨target, (Except.error.inj h).symm⟩
    · exact ih h

theorem removeStage_eq_error {present removed : List String} {cs : List Candidate}
    {e : AuthoringError} (h : facts.removeStage signature none present removed cs = .error e) :
    ∃ name, e = .doubleRemoval facts.entity signature.text name := by
  induction cs generalizing removed with
  | nil => cases h
  | cons c rest ih =>
    rw [removeStage] at h
    split at h
    · exact ih h
    · cases htargets : facts.removeTargets signature none present removed c.method.removals with
      | error e' =>
        rw [htargets] at h
        exact removeTargets_eq_error (htargets.trans h)
      | ok removed' =>
        rw [htargets] at h
        exact ih h

/-- Methods with a result set no field. -/
theorem activeSetter?_with_result (hresult : ∀ c ∈ candidates, c.method.isVoid = false) :
    facts.activeSetter? signature candidates = none := by
  unfold activeSetter?
  split
  · rfl
  · match candidates, hresult with
    | [], _ => rfl
    | [c], hresult => rw [setter?, hresult c List.mem_cons_self]
    | _ :: _ :: _, _ => rfl

/-- Pruning methods with a result finds a tie, or else a double removal, or else what it leaves. -/
theorem prune_with_result (facts : MergeFacts) (signature : Signature) (hnd : candidates.Nodup)
    (hresult : ∀ c ∈ candidates, c.method.isVoid = false) :
    Tied candidates ∧ facts.prune signature false candidates =
        .error (.tiedReplace facts.entity signature.text) ∨
      ¬Tied candidates ∧ ((∃ name, facts.prune signature false candidates =
          .error (.doubleRemoval facts.entity signature.text name)) ∨
        facts.prune signature false candidates = .ok (spared (contenders candidates))) := by
  by_cases htied : Tied candidates
  · left
    obtain ⟨htop, hlength⟩ := (tied_iff hnd).1 htied
    refine ⟨htied, ?_⟩
    rw [prune, replaceStage, htop, decide_eq_true hlength]
    rfl
  · right
    refine ⟨htied, ?_⟩
    cases hprune : facts.prune signature false candidates with
    | ok kept => exact .inr (congrArg _ (prune_eq_ok hprune).1)
    | error e =>
      left
      rw [tied_iff hnd] at htied
      have hreplace : facts.replaceStage signature false candidates =
          .ok (contenders candidates) := by
        rw [replaceStage, if_neg (by simpa using htied)]
      rw [prune, hreplace, ok_bind, activeSetter?_with_result hresult] at hprune
      cases hremove : facts.removeStage signature none
          ((contenders candidates).map (·.component.name)) [] (contenders candidates) with
      | ok removed =>
        rw [hremove] at hprune
        cases hprune
      | error e' =>
        rw [hremove] at hprune
        obtain ⟨name, rfl⟩ := removeStage_eq_error hremove
        exact ⟨name, hprune.symm⟩

/-- Pruning spares some candidates; these are implementations. -/
theorem countP_spared :
    (spared (contenders candidates)).countP (·.isConcrete) = (implementations candidates).length :=
  List.countP_eq_length_filter

/-- Candidates, none of which sets a field, leave nothing to run, nor is there anything beside them. -/
structure Idle (facts : MergeFacts) (signature : Signature) (injected : Bool)
    (candidates : List Candidate) : Prop where
  unimplemented : implementations candidates = []
  uninjected : injected = false
  ungrouped : signature.membership?.isSome → facts.groups = []

instance : Decidable (facts.Idle signature injected candidates) :=
  decidable_of_iff (implementations candidates = [] ∧ injected = false ∧
      (signature.membership?.isSome → facts.groups = []))
    ⟨fun ⟨h, h', h''⟩ => ⟨h, h', h''⟩, fun ⟨h, h', h''⟩ => ⟨h, h', h''⟩⟩

theorem select_of_prune_error {first : Candidate} {e : AuthoringError}
    (hfirst : candidates.head? = some first)
    (hprune : facts.prune signature first.method.isVoid candidates = .error e) :
    facts.select signature candidates splices injected = .error e := by
  obtain ⟨rest, rfl⟩ := List.head?_eq_some_iff.1 hfirst
  rw [select, hprune]
  rfl

/-- Past pruning, a selection of candidates that set no field goes through the other stages. -/
theorem select_of_prune {first : Candidate} {kept : List Candidate}
    (hfirst : candidates.head? = some first)
    (hprune : facts.prune signature first.method.isVoid candidates = .ok kept)
    (hsetter : facts.activeSetter? signature candidates = none) :
    facts.select signature candidates splices injected =
      let survivors := (kept.mergeSort Candidate.le).filter fun d => facts.extendHolds d.method
      if first.method.isVoid = false ∧ 1 < (implementations candidates).length then
        .error (.multipleNonVoid facts.entity signature.text)
      else if facts.Idle signature injected candidates then
        if ∃ d ∈ candidates, d.method.internalImpl = true then .ok none
        else .error (.unimplemented facts.entity signature.text)
      else if first.method.isVoid = false ∧ survivors.filter (·.isConcrete) = [] then
        .error (.unimplemented facts.entity signature.text)
      else (spliceStage signature first.method.isVoid (facts.activeSplices splices)).map fun _ =>
        some ⟨first.method.isVoid, survivors, none, facts.activeSplices splices,
          chooseTemplate first.method survivors⟩ := by
  have hcount : kept.countP (·.isConcrete) = (implementations candidates).length := by
    rw [(prune_eq_ok hprune).1, countP_spared]
  have hidle : (decide ((implementations candidates).length = 0) &&
      !((none : Option MergedField).isSome || injected ||
        signature.membership?.isSome && !facts.groups.isEmpty)) =
      decide (facts.Idle signature injected candidates) := by
    rw [Bool.eq_iff_iff, decide_eq_true_iff]
    simp only [Option.isSome_none, Bool.false_or, Bool.and_eq_true, decide_eq_true_eq,
      List.length_eq_zero_iff, Bool.not_eq_true', Bool.or_eq_false_iff, Bool.and_eq_false_imp,
      Bool.not_eq_false', List.isEmpty_iff]
    exact ⟨fun ⟨h, h', h''⟩ => ⟨h, h', h''⟩, fun ⟨h, h', h''⟩ => ⟨h, h', h''⟩⟩
  have hnone : ∀ cs : List Candidate, ((!cs.any (·.isConcrete)) = true) =
      (cs.filter (·.isConcrete) = []) := fun cs => by simp
  obtain ⟨rest, rfl⟩ := List.head?_eq_some_iff.1 hfirst
  rw [select, hprune, ok_bind, hsetter, hcount]
  dsimp only
  rw [hidle]
  simp only [Bool.and_eq_true, Bool.not_eq_true', decide_eq_true_eq, gt_iff_lt, List.any_eq_true,
    hnone]
  cases spliceStage signature first.method.isVoid (facts.activeSplices splices) <;> rfl

theorem mem_activeSplices_iff {p : Splice} :
    p ∈ facts.activeSplices splices ↔ p ∈ splices ∧ p.component ∈ facts.resolved := by
  rw [activeSplices, List.mem_mergeSort, List.mem_filter, List.contains_iff_mem]

theorem activeSplices_eq_nil_iff :
    facts.activeSplices splices = [] ↔ ¬∃ p ∈ splices, p.component ∈ facts.resolved := by
  simp only [List.eq_nil_iff_forall_not_mem, mem_activeSplices_iff, not_exists]

theorem merge_without_hook : facts.merge signature candidates splices none =
    (facts.select signature candidates splices false).map
      (Option.map (·.plan facts signature none)) := by
  rw [merge, Option.isSome_none]
  cases facts.select signature candidates splices false with
  | error e => rfl
  | ok selected => cases selected <;> rfl

/-- Sorting and extending leave of a lone implementation itself, or nothing. -/
theorem filter_isConcrete_survivors (facts : MergeFacts) {kept : List Candidate} {c : Candidate}
    (hlone : kept.filter (·.isConcrete) = [c]) :
    ((kept.mergeSort Candidate.le).filter fun d => facts.extendHolds d.method).filter
        (·.isConcrete) = bif facts.extendHolds c.method then [c] else [] := by
  have hperm := (List.mergeSort_perm kept Candidate.le).filter (·.isConcrete)
  rw [hlone] at hperm
  rw [List.filter_comm, List.perm_singleton.1 hperm, List.filter_singleton]

/-- Methods with a result refuse the splices of all components in the entity. -/
theorem spliceStage_activeSplices :
    spliceStage signature false (facts.activeSplices splices) =
      if ∃ p ∈ splices, p.component ∈ facts.resolved ∧ p.isWrap = false then
        .error (.insertIntoNonVoid signature.text)
      else if ∃ p ∈ splices, p.component ∈ facts.resolved then .error (.wrapNonVoid signature.text)
      else .ok () := by
  have hinsert : (facts.activeSplices splices).any (!·.isWrap) = true ↔
      ∃ p ∈ splices, p.component ∈ facts.resolved ∧ p.isWrap = false := by
    simp [mem_activeSplices_iff, and_assoc]
  unfold spliceStage
  simp only [Bool.false_or, List.isEmpty_iff, activeSplices_eq_nil_iff, hinsert]
  by_cases hsome : ∃ p ∈ splices, p.component ∈ facts.resolved
  · rw [if_neg (not_not_intro hsome), if_pos hsome]
  · rw [if_pos hsome, if_neg hsome, if_neg]
    exact fun ⟨p, hp, hresolved, _⟩ => hsome ⟨p, hp, hresolved⟩

theorem chooseTemplate_of_lone {survivors : List Candidate} {c : Candidate}
    (hlone : survivors.filter (·.isConcrete) = [c]) (first : MethodDecl) :
    chooseTemplate first survivors = c.method := by
  rw [chooseTemplate, ← List.head?_filter, hlone]
  rfl

theorem settle_eq_error {c : Candidate} {text : String} {e : AuthoringError}
    (h : facts.settle signature splices c text = .error e) :
    e = .unimplemented facts.entity signature.text ∨ e = .insertIntoNonVoid signature.text ∨
      e = .wrapNonVoid signature.text := by
  unfold settle at h
  split at h
  · exact .inl (Except.error.inj h).symm
  split at h
  · exact .inr (.inl (Except.error.inj h).symm)
  split at h
  · exact .inr (.inr (Except.error.inj h).symm)
  · cases h

/-- Implementations are candidates that have something to run. -/
theorem exists_statements_of_mem (hbodies : ∀ c ∈ candidates, c.isConcrete → c.HasStatements)
    {c : Candidate} (hc : c ∈ implementations candidates) :
    ∃ text, c.method.body.bind (MethodBody.statements? · .keep) = some text := by
  obtain ⟨hspared, hconcrete⟩ := List.mem_filter.1 hc
  have hlisted := (contenders_sublist candidates).subset (mem_spared_iff.1 hspared).1
  exact Option.isSome_iff_exists.1
    (isSome_bind_statements?.2 (hbodies c hlisted hconcrete).2)

/-- A mistake that pruning finds is the outcome. -/
theorem merge_of_prune_error (splices : List Splice) {e : AuthoringError}
    (hresult : ∀ c ∈ candidates, c.method.isVoid = false)
    (hprune : facts.prune signature false candidates = .error e) :
    facts.merge signature candidates splices none = .error e := by
  cases candidates with
  | nil => cases hprune
  | cons first rest =>
    rw [merge_without_hook, select, hresult first List.mem_cons_self, hprune]
    rfl

section Pruned

variable (hmembership : signature.membership? = none)
  (hresult : ∀ c ∈ candidates, c.method.isVoid = false)
  (hprune : facts.prune signature false candidates = .ok (spared (contenders candidates)))
include hmembership hresult hprune

/-- Past pruning, methods with a result have neither a setter nor groups to fall back on. -/
theorem select_with_result {first : Candidate} {rest : List Candidate}
    (hcandidates : candidates = first :: rest) :
    facts.select signature candidates splices false =
      if 1 < (implementations candidates).length then
        .error (.multipleNonVoid facts.entity signature.text)
      else if implementations candidates = [] then
        if ∃ c ∈ candidates, c.method.internalImpl = true then .ok none
        else .error (.unimplemented facts.entity signature.text)
      else
        let survivors := ((spared (contenders candidates)).mergeSort Candidate.le).filter
          fun c => facts.extendHolds c.method
        if survivors.filter (·.isConcrete) = [] then
          .error (.unimplemented facts.entity signature.text)
        else (spliceStage signature false (facts.activeSplices splices)).map fun _ =>
          some ⟨false, survivors, none, facts.activeSplices splices,
            chooseTemplate first.method survivors⟩ := by
  subst hcandidates
  have hfirst : first.method.isVoid = false := hresult first List.mem_cons_self
  have hidle : facts.Idle signature false (first :: rest) ↔ implementations (first :: rest) = [] :=
    ⟨Idle.unimplemented, fun h => ⟨h, rfl, fun hm => by rw [hmembership] at hm; cases hm⟩⟩
  rw [select_of_prune rfl (hfirst.symm ▸ hprune) (activeSetter?_with_result hresult), hfirst]
  simp only [hidle, true_and]

/-- Several implementations give no result. -/
theorem merge_of_several (hseveral : 1 < (implementations candidates).length) :
    facts.merge signature candidates splices none =
      .error (.multipleNonVoid facts.entity signature.text) := by
  cases candidates with
  | nil => cases hseveral
  | cons first rest =>
    rw [merge_without_hook, select_with_result hmembership hresult hprune rfl, if_pos hseveral]
    rfl

/-- Without implementations the entity supplies the method, or nothing does. -/
theorem merge_of_none (hnone : implementations candidates = []) :
    facts.merge signature candidates splices none =
      if candidates = [] ∨ ∃ c ∈ candidates, c.method.internalImpl = true then .ok none
      else .error (.unimplemented facts.entity signature.text) := by
  cases candidates with
  | nil => rfl
  | cons first rest =>
    rw [merge_without_hook, select_with_result hmembership hresult hprune rfl, hnone,
      if_neg (by decide), if_pos rfl]
    simp only [reduceCtorEq, false_or]
    split
    · rfl
    · rfl

/-- A lone implementation settles the method. -/
theorem merge_of_lone {c : Candidate} (hlone : implementations candidates = [c]) {text : String}
    (htext : c.method.body.bind (MethodBody.statements? · .keep) = some text) :
    facts.merge signature candidates splices none = facts.settle signature splices c text := by
  cases candidates with
  | nil => cases hlone
  | cons first rest =>
    have hsurvivors := filter_isConcrete_survivors facts hlone
    rw [merge_without_hook, select_with_result hmembership hresult hprune rfl, hlone,
      List.length_singleton, if_neg (Nat.lt_irrefl 1), if_neg (List.cons_ne_nil c []), settle]
    dsimp only
    -- Of the survivors it only matters that `c` is their one implementation, or that there is none.
    generalize ((spared (contenders (first :: rest))).mergeSort Candidate.le).filter
      (fun d => facts.extendHolds d.method) = survivors at hsurvivors ⊢
    cases hextend : facts.extendHolds c.method with
    | false =>
      rw [hextend, cond_false] at hsurvivors
      rw [hsurvivors]
      rfl
    | true =>
      rw [hextend, cond_true] at hsurvivors
      rw [hsurvivors, if_neg (List.cons_ne_nil c []), if_neg (by decide),
        spliceStage_activeSplices, chooseTemplate_of_lone hsurvivors]
      split
      · rfl
      split
      · rfl
      next hnone =>
        rw [activeSplices_eq_nil_iff.2 hnone]
        exact congrArg (Except.ok ∘ some) (Selection.plan_alone hmembership hsurvivors htext)

/-- Past pruning there is neither a tie nor a double removal, and several implementations are
    reported exactly where there are several. -/
theorem merge_of_prune_ok (splices : List Splice)
    (hbodies : ∀ c ∈ candidates, c.isConcrete → c.HasStatements) :
    facts.merge signature candidates splices none ≠
        .error (.tiedReplace facts.entity signature.text) ∧
      (∀ name, facts.merge signature candidates splices none ≠
        .error (.doubleRemoval facts.entity signature.text name)) ∧
      (facts.merge signature candidates splices none =
          .error (.multipleNonVoid facts.entity signature.text) ↔
        1 < (implementations candidates).length) := by
  match himplementations : implementations candidates with
  | [] =>
    rw [merge_of_none hmembership hresult hprune himplementations]
    refine ⟨?_, ?_, iff_of_false ?_ (Nat.not_lt_zero 1)⟩ <;> split <;> nofun
  | [c] =>
    obtain ⟨text, htext⟩ := exists_statements_of_mem hbodies
      (himplementations ▸ List.mem_singleton_self c)
    rw [merge_of_lone hmembership hresult hprune himplementations htext]
    refine ⟨fun h => ?_, fun name h => ?_, iff_of_false (fun h => ?_) (Nat.lt_irrefl 1)⟩ <;>
      rcases settle_eq_error h with h | h | h <;> cases h
  | a :: b :: rest =>
    have hseveral : 1 < (a :: b :: rest).length := Nat.one_lt_succ_succ rest.length
    rw [merge_of_several hmembership hresult hprune (himplementations ▸ hseveral)]
    exact ⟨nofun, nofun, iff_of_true rfl hseveral⟩

end Pruned

/-- What comes of methods with a result of which no implementation is blank: the outcomes, in the
    order in which they are found. -/
theorem merge_with_result (hmembership : signature.membership? = none)
    (hnames : (candidates.map (·.component.name)).Nodup)
    (hresult : ∀ c ∈ candidates, c.method.isVoid = false)
    (hbodies : ∀ c ∈ candidates, c.isConcrete → c.HasStatements) :
    (facts.merge signature candidates splices none =
        .error (.tiedReplace facts.entity signature.text) ↔ Tied candidates) ∧
      (¬Tied candidates →
        (∀ name, facts.merge signature candidates splices none ≠
          .error (.doubleRemoval facts.entity signature.text name)) →
        (facts.merge signature candidates splices none =
            .error (.multipleNonVoid facts.entity signature.text) ↔
          1 < (implementations candidates).length) ∧
        (implementations candidates = [] → facts.merge signature candidates splices none =
          if candidates = [] ∨ ∃ c ∈ candidates, c.method.internalImpl = true then .ok none
          else .error (.unimplemented facts.entity signature.text)) ∧
        ∀ c, implementations candidates = [c] → ∃ text,
          c.method.body.bind (MethodBody.statements? · .keep) = some text ∧
            facts.merge signature candidates splices none =
              facts.settle signature splices c text) := by
  rcases prune_with_result facts signature hnames.of_map hresult with
    ⟨htied, hprune⟩ | ⟨htied, ⟨name, hprune⟩ | hprune⟩
  · exact ⟨iff_of_true (merge_of_prune_error splices hresult hprune) htied, fun h => absurd htied h⟩
  · have hmerge := merge_of_prune_error splices hresult hprune
    refine ⟨iff_of_false (fun h => ?_) htied, fun _ hsingle => absurd hmerge (hsingle name)⟩
    cases hmerge.symm.trans h
  · obtain ⟨hnot, -, hseveral⟩ := merge_of_prune_ok hmembership hresult hprune splices hbodies
    refine ⟨iff_of_false hnot htied, fun _ _ => ⟨hseveral, fun hnone => ?_, fun c hlone => ?_⟩⟩
    · exact merge_of_none hmembership hresult hprune hnone
    · obtain ⟨text, htext⟩ := exists_statements_of_mem hbodies
        (hlone ▸ List.mem_singleton_self c)
      exact ⟨text, htext, merge_of_lone hmembership hresult hprune hlone htext⟩

/-- The speed that a component declares, and implements if there is a body. -/
def speed (component : String) (body : Option String) (directives : List Directive) : Candidate :=
  ⟨{ name := component },
    { name := "speed", returnType := "float", directives, body,
      modifiers := { isAbstract := body.isNone } }⟩

/-- A declared speed, and two implementations of which one removes the other. -/
def speeds : List Candidate :=
  [speed "AComp" none [], speed "BComp" (some "return 1;") [],
    speed "CComp" (some "return 2;") [.remove "BComp"]]

/-- What comes of the speeds, beside a wrap of a component that the entity does not have. -/
theorem merge_with_result_speeds :
    (plain ["AComp", "BComp", "CComp"]).merge (.nullary "speed") speeds
        [⟨"DComp", "fast", none, 0, .wrap⟩] none =
      .ok (some ((speed "CComp" (some "return 2;") [.remove "BComp"]).alone (.nullary "speed")
        "return 2;")) := by
  obtain ⟨-, houtcome⟩ := @merge_with_result (plain ["AComp", "BComp", "CComp"]) (.nullary "speed")
    speeds [⟨"DComp", "fast", none, 0, .wrap⟩] rfl (by decide) (by decide) (by decide)
  have huntied : ¬Tied speeds := fun h => absurd ((tied_iff (by decide)).1 h).1 (by decide)
  obtain ⟨-, hsingle, -⟩ := @merge_of_prune_ok (plain ["AComp", "BComp", "CComp"])
    (.nullary "speed") speeds rfl (by decide) rfl [⟨"DComp", "fast", none, 0, .wrap⟩] (by decide)
  obtain ⟨-, -, hlone⟩ := houtcome huntied hsingle
  obtain ⟨text, htext, hmerge⟩ := hlone _ rfl
  cases htext
  exact hmerge

/-- Where no component declares the method, it is missing, and nothing reports that. -/
theorem merge_no_candidates :
    (Signature.nullary "speed").membership? = none ∧ implementations [] = [] ∧
      (plain []).merge (.nullary "speed") [] [] none = .ok none ∧
      (plain []).merge (.nullary "speed") [] [] none ≠ .error (.unimplemented "Unit" "speed()") :=
  ⟨rfl, rfl, rfl, nofun⟩

end MergeFacts

end EntityWeaver
