import EntityWeaver.Proofs.Merge.Placement

/-! Every splice of a merged method stands in one place.

    The places of a merged method are those of the method as a whole, on both sides of its units, and
    those of each unit. A splice says of itself which one it takes, and so the places part the splices
    of the entity's components among them, as long as the units have blocks of their own:

        inserted   ─┬─ no block         calls of the method     once
                    └─ block of a unit  calls of the unit       once
                       any other block                          never

    With two units of one block, the splices of that block would stand around both. -/

namespace EntityWeaver

section Parts

variable {α β : Type} {xs : List α}

/-- Values of two kinds that exclude each other are those of one kind or the other. -/
theorem filter_append_filter_perm {p q r : α → Bool} (hr : ∀ x, r x = (p x || q x))
    (hpq : ∀ x, p x = true → q x = false) : (xs.filter p ++ xs.filter q).Perm (xs.filter r) := by
  have hp : (xs.filter r).filter p = xs.filter p := by
    rw [List.filter_filter]
    refine List.filter_congr fun x _ => ?_
    rw [hr]
    cases p x <;> rfl
  have hq : ((xs.filter r).filter fun x => !p x) = xs.filter q := by
    rw [List.filter_filter]
    refine List.filter_congr fun x _ => ?_
    rw [hr]
    cases hpx : p x with
    | true => rw [hpq x hpx]; rfl
    | false => rfl
  rw [← hp, ← hq]
  exact List.filter_append_perm p (xs.filter r)

/-- Values of many kinds that exclude one another are those of any of the kinds. -/
theorem flatMap_filter_perm {kinds : List β} {p : β → α → Bool}
    (h : kinds.Pairwise fun k l => ∀ x, p k x = true → p l x = false) :
    (kinds.flatMap fun k => xs.filter (p k)).Perm (xs.filter fun x => kinds.any (p · x)) := by
  induction kinds with
  | nil => simp
  | cons k rest ih =>
    obtain ⟨hk, hrest⟩ := List.pairwise_cons.1 h
    rw [List.flatMap_cons]
    refine ((ih hrest).append_left _).trans (filter_append_filter_perm (fun x => ?_) fun x hx => ?_)
    · rw [List.any_cons]
    · exact Bool.eq_false_iff.2 fun hany => by
        obtain ⟨l, hl, hlx⟩ := List.any_eq_true.1 hany
        rw [hk l hl x hx] at hlx
        cases hlx

end Parts

namespace Step

/-- The spliced method that a step calls. -/
def callee? : Step → Option String
  | .call method => some method
  | _ => none

/-- The spliced methods that steps call, at any depth. -/
def callees (steps : List Step) : List String := (courseOfAll steps).filterMap callee?

theorem callees_append (xs ys : List Step) : callees (xs ++ ys) = callees xs ++ callees ys := by
  rw [callees, courseOfAll_append, List.filterMap_append]
  rfl

theorem Guards.callees_eq {predicates : List String} {inside steps : List Step}
    (h : Guards predicates inside steps) : callees steps = callees inside := by
  cases h with
  | bare => rfl
  | guard =>
    rw [callees, courseOfAll, course, courseOfAll, List.append_nil]
    rfl

theorem callees_eq_nil {steps : List Step} (h : ∀ t ∈ steps, t.course = [t] ∧ t.callee? = none) :
    callees steps = [] := by
  rw [callees, courseOfAll_eq_self fun t ht => (h t ht).1]
  exact List.filterMap_eq_nil_iff.2 fun t ht => (h t ht).2

end Step

/-- The splices that act at a place are called there, each once. -/
theorem MergeFacts.CallsAt.callees_perm {facts : MergeFacts} {splices : List Splice}
    {place : Splice → Bool} {calls : List Step} (h : facts.CallsAt splices place calls) :
    (Step.callees calls).Perm (((facts.ownSplices splices).filter place).map (·.method)) := by
  obtain ⟨run, hrun, rfl⟩ := h
  have hcallees : Step.callees (run.map fun s => .call s.method) = run.map (·.method) := by
    rw [Step.callees, Step.courseOfAll_map fun _ => rfl, List.filterMap_map]
    exact congrFun List.filterMap_eq_map' _
  rw [hcallees]
  exact hrun.members.map _

namespace Splice

/-- What is no wrap is called before its place or after it, -/
theorem not_isWrap (p : Splice) : (!p.isWrap) = (p.isInsert false || p.isInsert true) := by
  unfold isWrap isInsert
  cases p.kind with
  | insert after bypass => cases after <;> rfl
  | wrap => rfl

/-- and not both. -/
theorem not_isInsert {p : Splice} (h : p.isInsert false = true) : p.isInsert true = false := by
  unfold isInsert at h ⊢
  cases hkind : p.kind with
  | insert after bypass =>
    rw [hkind] at h
    rw [eq_of_beq h]
    rfl
  | wrap => rfl

/-- Those of a kind that are called before their place or after it are those of the kind that are no
    wraps. -/
theorem filter_isInsert_perm (kind : Splice → Bool) (xs : List Splice) :
    (xs.filter (fun s => kind s && s.isInsert false) ++
      xs.filter fun s => kind s && s.isInsert true).Perm
        (xs.filter fun s => kind s && !s.isWrap) := by
  refine filter_append_filter_perm (fun s => ?_) fun s hs => ?_
  · rw [s.not_isWrap, Bool.and_or_distrib_left]
  · rw [not_isInsert (Bool.and_eq_true_iff.1 hs).2, Bool.and_false]

theorem aimsAt_iff {owner : String} {p : Splice} : p.aimsAt owner = true ↔
    ∃ block, p.block = some block ∧ ComponentName.block block = ComponentName.block owner := by
  simp [aimsAt, Option.any_eq_true]

end Splice

namespace MethodPlan

variable {p : MethodPlan} {facts : MergeFacts} {signature : Signature} {candidates : List Candidate}
  {splices : List Splice} {injected : Option CodeBlock} {us : List Contribution}
  {ahead behind : List Step}

/-- The splices that are called around a unit. -/
def around (facts : MergeFacts) (splices : List Splice) (u : Contribution) : List Splice :=
  (facts.ownSplices splices).filter fun s => s.aimsAt u.owner && !s.isWrap

theorem Shows.callees_eq_nil {u : Contribution} {core : List Step} (h : p.Shows u core) :
    Step.callees core = [] := by
  cases h <;> exact Step.callees_eq_nil (by simp [Step.course, Step.callee?])

theorem Stands.callees_perm {u : Contribution} {steps : List Step}
    (h : p.Stands facts splices u steps) :
    (Step.callees steps).Perm ((around facts splices u).map (·.method)) := by
  obtain ⟨-, hfirst, hshows, hlast, hguards⟩ := h
  rw [hguards.callees_eq, Step.callees_append, Step.callees_append, hshows.callees_eq_nil,
    List.append_nil]
  refine (hfirst.callees_perm.append hlast.callees_perm).trans ?_
  rw [← List.map_append]
  exact (Splice.filter_isInsert_perm (·.aimsAt u.owner) _).map _

theorem callees_flatten_perm {blocks : List (List Step)}
    (h : List.Forall₂ (p.Stands facts splices) us blocks) :
    (Step.callees blocks.flatten).Perm ((us.flatMap (around facts splices)).map (·.method)) := by
  induction h with
  | nil => exact .nil
  | cons hu _ ih =>
    rw [List.flatten_cons, Step.callees_append, List.flatMap_cons, List.map_append]
    exact hu.callees_perm.append ih

namespace LaidOut

/-- Only a signature that adds or removes puts anything ahead of a check. -/
theorem steps_eq_behind
    (h : p.LaidOut facts signature candidates splices injected us ahead behind)
    (hadd : signature ≠ .nullary "add") (hremove : signature ≠ .nullary "remove") :
    p.steps = behind := by
  obtain ⟨calls, blocks, ⟨run, hrun, hcalls⟩, hblocks, hahead⟩ := h.bypassing
  have htoggles : signature.toggles = false := by simp [Signature.toggles, hadd, hremove]
  have hunits : us.filter (·.isAhead signature) = [] := by
    simp [Contribution.isAhead, htoggles]
  rw [hunits] at hblocks
  obtain rfl := List.forall₂_nil_left_iff.1 hblocks
  have hnone : (facts.ownSplices splices).filter (fun s =>
      s.block.isNone && s.isInsert false && s.isAhead signature) = [] := by
    simp [Splice.isAhead, htoggles]
  obtain rfl : run = [] := List.Perm.eq_nil (hnone ▸ hrun.members)
  rw [h.steps, hahead, hcalls, MergeFacts.check, if_neg hadd, if_neg hremove]
  rfl

/-- The splices that the method as a whole and its units call. -/
theorem callees_perm
    (h : p.LaidOut facts signature candidates splices injected us ahead behind) :
    (Step.callees p.steps).Perm (((facts.ownSplices splices).filter (fun s =>
          s.block.isNone && s.isInsert false && s.isAhead signature) ++
        (us.filter (·.isAhead signature)).flatMap (around facts splices) ++
        ((facts.ownSplices splices).filter (fun s =>
            s.block.isNone && s.isInsert false && !s.isAhead signature) ++
          (us.filter (!·.isAhead signature)).flatMap (around facts splices) ++
          (facts.ownSplices splices).filter fun s =>
            s.block.isNone && s.isInsert true)).map (·.method)) := by
  obtain ⟨calls, bypassing, hcalls, hbypassing, hahead⟩ := h.bypassing
  obtain ⟨predicates, before, checked, after, -, hbefore, hchecked, hafter, hguards⟩ := h.checked
  have htoggle : ∀ adding, Step.callees (facts.toggle adding) = [] := fun adding =>
    Step.callees_eq_nil (List.forall_mem_cons.2
      ⟨⟨rfl, rfl⟩, List.forall_mem_map.2 fun _ _ => ⟨rfl, rfl⟩⟩)
  have hcheck : Step.callees (facts.check signature) = [] := by
    unfold MergeFacts.check
    split_ifs
    · exact htoggle true
    · exact htoggle false
    · rfl
  have hinjected : Step.callees (injected.map Step.code).toList = [] := by
    cases injected <;> rfl
  have hfreeing : Step.callees (facts.freeing signature) = [] := by
    unfold MergeFacts.freeing
    split <;> rfl
  rw [h.steps, hahead]
  simp only [Step.callees_append, hguards.callees_eq, hcheck, hinjected, hfreeing, List.append_nil,
    List.map_append]
  exact (hcalls.callees_perm.append (callees_flatten_perm hbypassing)).append
    ((hbefore.callees_perm.append (callees_flatten_perm hchecked)).append hafter.callees_perm)

end LaidOut

end MethodPlan

namespace MergeFacts

variable {facts : MergeFacts} {signature : Signature} {candidates : List Candidate}
  {splices : List Splice} {hook : Option CodeHook} {plan : MethodPlan}

/-- Units with blocks of their own call the splices of these blocks once. -/
theorem flatMap_around_perm {us : List Contribution}
    (hus : us.Perm (facts.units signature candidates))
    (hblocks : ((facts.units signature candidates).map fun u => ComponentName.block u.owner).Nodup) :
    (us.flatMap (MethodPlan.around facts splices)).Perm
      ((facts.ownSplices splices).filter fun s =>
        (facts.units signature candidates).any fun u => s.aimsAt u.owner && !s.isWrap) := by
  refine (hus.flatMap_right _).trans (flatMap_filter_perm ((List.pairwise_map.1 hblocks).imp ?_))
  intro u v huv s hs
  refine Bool.eq_false_iff.2 fun hv => huv ?_
  obtain ⟨b, hb, hbu⟩ := Splice.aimsAt_iff.1 (Bool.and_eq_true_iff.1 hs).1
  obtain ⟨b', hb', hbv⟩ := Splice.aimsAt_iff.1 (Bool.and_eq_true_iff.1 hv).1
  obtain rfl := Option.some.inj (hb.symm.trans hb')
  exact hbu.symm.trans hbv

/-- Around the method as a whole stand the splices without a block. -/
theorem unscoped_perm (signature : Signature) (xs : List Splice) :
    (xs.filter (fun s => s.block.isNone && s.isInsert false && s.isAhead signature) ++
      (xs.filter (fun s => s.block.isNone && s.isInsert false && !s.isAhead signature) ++
        xs.filter fun s => s.block.isNone && s.isInsert true)).Perm
      (xs.filter fun s => s.block.isNone && !s.isWrap) := by
  have hbefore : (xs.filter (fun s => s.block.isNone && s.isInsert false && s.isAhead signature) ++
      xs.filter fun s => s.block.isNone && s.isInsert false && !s.isAhead signature).Perm
        (xs.filter fun s => s.block.isNone && s.isInsert false) := by
    refine filter_append_filter_perm (fun s => ?_) fun s hs => ?_
    · rw [← Bool.and_or_distrib_left, Bool.or_not_self, Bool.and_true]
    · rw [(Bool.and_eq_true_iff.1 hs).2, Bool.not_true, Bool.and_false]
  rw [← List.append_assoc]
  exact (hbefore.append_right _).trans (Splice.filter_isInsert_perm (·.block.isNone) xs)

/-- The inserts of the entity's components that aim at a method as a whole, or at the block of one of
    its units. -/
def inserts (facts : MergeFacts) (signature : Signature) (candidates : List Candidate)
    (splices : List Splice) : List Splice :=
  (facts.ownSplices splices).filter fun s => !s.isWrap &&
    (s.block.isNone || (facts.units signature candidates).any fun u => s.aimsAt u.owner)

/-- Units with blocks of their own leave every insert one call. -/
theorem callees_perm {injected : Option CodeBlock} {us : List Contribution}
    {ahead behind : List Step}
    (hblocks : ((facts.units signature candidates).map fun u => ComponentName.block u.owner).Nodup)
    (h : plan.LaidOut facts signature candidates splices injected us ahead behind) :
    (Step.callees plan.steps).Perm
      ((facts.inserts signature candidates splices).map (·.method)) := by
  have hmethod := unscoped_perm signature (facts.ownSplices splices)
  have hunits := ((List.filter_append_perm (·.isAhead signature) us).flatMap_right
    (MethodPlan.around facts splices)).trans
      (@flatMap_around_perm facts signature candidates splices us h.units.members hblocks)
  rw [List.flatMap_append] at hunits
  -- the calls of the method and those of its units, first as they alternate in the plan
  have hshuffle : ∀ a x b y c : List Splice,
      (a ++ x ++ (b ++ y ++ c)).Perm (a ++ (b ++ c) ++ (x ++ y)) := fun a x b y c =>
    List.perm_iff_count.2 fun s => by
      simp only [List.count_append]
      omega
  refine h.callees_perm.trans (List.Perm.map _ ((hshuffle _ _ _ _ _).trans
    ((hmethod.append hunits).trans (filter_append_filter_perm (fun s => ?_) fun s hs => ?_))))
  · rw [← List.and_any_distrib_right, ← Bool.and_or_distrib_right, Bool.and_comm]
  · have hnone : s.block = none := Option.isNone_iff_eq_none.1 (Bool.and_eq_true_iff.1 hs).1
    exact List.any_eq_false.2 fun u _ => by simp [Splice.aimsAt, hnone]

/-- In a merged method whose units have blocks of their own every insert of a component of the entity
    is called once, if it aims at the method as a whole or at the block of a unit. It is called on its
    side of the method or of the unit, and the wraps guard theirs; all act in turn at their places. -/
theorem splices_placed
    (hblocks : ((facts.units signature candidates).map fun u => ComponentName.block u.owner).Nodup)
    (h : facts.merge signature candidates splices hook = .ok (some plan)) :
    (Step.callees plan.steps).Perm ((facts.inserts signature candidates splices).map (·.method)) ∧
      ∃ template injected us ahead behind, template.params = plan.params ∧
        hook.elim (.ok none) (· template) = .ok injected ∧
        plan.LaidOut facts signature candidates splices injected us ahead behind ∧
        (signature ≠ .nullary "add" → signature ≠ .nullary "remove" → plan.steps = behind) := by
  obtain ⟨template, injected, us, ahead, behind, hparams, hhook, hlaid⟩ := exists_laidOut h
  exact ⟨callees_perm hblocks hlaid, template, injected, us, ahead, behind, hparams, hhook, hlaid,
    hlaid.steps_eq_behind⟩

/-- Two updates. -/
def patients : List Candidate :=
  [.ofBody "HealthComp" "update" "heal();", .ofBody "StatusComp" "update" "age();"]

/-- Splices into the updates, the last one of a component that the entity does not have. -/
def treatments : List Splice :=
  [⟨"StatusComp", "first", none, 0, .insert false false⟩,
    ⟨"StatusComp", "last", none, 0, .insert true false⟩,
    ⟨"StatusComp", "beforeHealth", some "HealthComp", 0, .insert false false⟩,
    ⟨"StatusComp", "alive", none, 0, .wrap⟩,
    ⟨"StatusComp", "valid", some "StatusComp", 0, .wrap⟩,
    ⟨"OtherComp", "ignored", none, 0, .insert false false⟩]

def treatedPlan : MethodPlan :=
  ⟨.nullary "update", "void", [], false, false,
    [.guard ["alive"] [.call "first", .call "beforeHealth", .invoke "update__health" [] false,
      .guard ["valid"] [.invoke "update__status" [] false], .call "last"]],
    [⟨"update__health", "HealthComp", [], "heal();", false⟩,
      ⟨"update__status", "StatusComp", [], "age();", false⟩]⟩

theorem merge_patients : (plain ["HealthComp", "StatusComp"]).merge (.nullary "update") patients
    treatments none = .ok (some treatedPlan) :=
  merge_of_ranked patients rfl rfl (by decide) (by decide) (by decide)

/-- What can be said of the updates. -/
theorem splices_placed_patients :
    (((plain ["HealthComp", "StatusComp"]).units (.nullary "update") patients).map fun u =>
        ComponentName.block u.owner).Nodup ∧
      (Step.callees treatedPlan.steps).Perm ["first", "last", "beforeHealth"] ∧
      ∃ injected us ahead behind, treatedPlan.LaidOut (plain ["HealthComp", "StatusComp"])
        (.nullary "update") patients treatments injected us ahead behind ∧
          treatedPlan.steps = behind := by
  have hblocks : (((plain ["HealthComp", "StatusComp"]).units (.nullary "update") patients).map
      fun u => ComponentName.block u.owner).Nodup := by decide
  obtain ⟨hcallees, _, injected, us, ahead, behind, -, -, hlaid, hsteps⟩ :=
    splices_placed hblocks merge_patients
  exact ⟨hblocks, hcallees, injected, us, ahead, behind, hlaid,
    hsteps (by decide) (by decide)⟩

end MergeFacts

end EntityWeaver
