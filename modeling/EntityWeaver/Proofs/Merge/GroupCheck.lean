import EntityWeaver.Proofs.Merge.Placement

/-! The check of a membership signature, and what stands on which side of it.

    A merged `add` or `remove` has one check, outside all guards, and the groups of the entity stand
    right behind it, in their order. Ahead of it stand the calls and the units that bypass it and
    nothing else. All other methods have neither a check nor groups:

        calls │ units │ check │ groups │ if(predicates) { calls │ code │ units │ calls │ release }
        └─ bypassing ─┘                └──────────────────────── all else ─────────────────────┘ -/

namespace EntityWeaver

namespace Step

mutual

/-- Neither a check nor a group, nor a guard around one. -/
def isPlain : Step → Bool
  | .reentrancy _ => false
  | .group _ _ => false
  | .guard _ steps => allPlain steps
  | _ => true

def allPlain : List Step → Bool
  | [] => true
  | s :: rest => s.isPlain && allPlain rest

end

theorem allPlain_iff {steps : List Step} : allPlain steps = true ↔ ∀ s ∈ steps, s.isPlain = true := by
  induction steps with
  | nil => simp [allPlain]
  | cons s rest ih => rw [allPlain, Bool.and_eq_true, ih, List.forall_mem_cons]

theorem allPlain_append {xs ys : List Step} (hxs : allPlain xs = true) (hys : allPlain ys = true) :
    allPlain (xs ++ ys) = true := by
  rw [allPlain_iff] at hxs hys ⊢
  exact List.forall_mem_append.2 ⟨hxs, hys⟩

theorem Guards.allPlain {predicates : List String} {inside steps : List Step}
    (h : Guards predicates inside steps) (hinside : allPlain inside = true) :
    allPlain steps = true := by
  cases h with
  | bare => exact hinside
  | guard =>
    rw [Step.allPlain, isPlain, hinside]
    rfl

end Step

theorem MergeFacts.CallsAt.allPlain {facts : MergeFacts} {splices : List Splice}
    {place : Splice → Bool} {calls : List Step} (h : facts.CallsAt splices place calls) :
    Step.allPlain calls = true := by
  obtain ⟨run, -, rfl⟩ := h
  exact Step.allPlain_iff.2 (List.forall_mem_map.2 fun _ _ => rfl)

namespace MethodPlan

/-- A method has one check, behind which stand the groups; all else is plain. -/
structure Checks (p : MethodPlan) (adding : Bool) (groups : List String) (ahead behind : List Step) :
    Prop where
  steps : p.steps = ahead ++ .reentrancy adding :: (groups.map (Step.group · adding) ++ behind)
  ahead_plain : Step.allPlain ahead = true
  behind_plain : Step.allPlain behind = true

variable {p : MethodPlan} {facts : MergeFacts} {signature : Signature} {candidates : List Candidate}
  {splices : List Splice} {injected : Option CodeBlock}

theorem Stands.allPlain {u : Contribution} {steps : List Step}
    (h : p.Stands facts splices u steps) : Step.allPlain steps = true := by
  obtain ⟨-, hfirst, hshows, hlast, hguards⟩ := h
  refine hguards.allPlain (Step.allPlain_append (Step.allPlain_append hfirst.allPlain ?_)
    hlast.allPlain)
  cases hshows <;> rfl

theorem allPlain_flatten {us : List Contribution} {blocks : List (List Step)}
    (h : List.Forall₂ (p.Stands facts splices) us blocks) :
    Step.allPlain blocks.flatten = true := by
  induction h with
  | nil => rfl
  | cons hu _ ih => exact Step.allPlain_append hu.allPlain ih

namespace LaidOut

variable {us : List Contribution} {ahead behind : List Step}

theorem ahead_plain (h : p.LaidOut facts signature candidates splices injected us ahead behind) :
    Step.allPlain ahead = true := by
  obtain ⟨calls, blocks, hcalls, hblocks, rfl⟩ := h.bypassing
  exact Step.allPlain_append hcalls.allPlain (allPlain_flatten hblocks)

theorem behind_plain (h : p.LaidOut facts signature candidates splices injected us ahead behind) :
    Step.allPlain behind = true := by
  obtain ⟨predicates, before, blocks, after, -, hbefore, hblocks, hafter, hguards⟩ := h.checked
  have hinjected : Step.allPlain (injected.map Step.code).toList = true := by
    cases injected <;> rfl
  have hfreeing : Step.allPlain (facts.freeing signature) = true := by
    unfold MergeFacts.freeing
    split <;> rfl
  exact hguards.allPlain (Step.allPlain_append (Step.allPlain_append (Step.allPlain_append
    (Step.allPlain_append hbefore.allPlain hinjected) (allPlain_flatten hblocks)) hafter.allPlain)
    hfreeing)

/-- A method that adds or removes is parted by its check. -/
theorem checks {adding : Bool}
    (h : p.LaidOut facts (.nullary (if adding then "add" else "remove")) candidates splices injected
      us ahead behind) :
    p.Checks adding facts.groups ahead behind := by
  refine ⟨?_, h.ahead_plain, h.behind_plain⟩
  rw [h.steps, List.append_assoc]
  cases adding <;> rfl

/-- A method of another signature has nothing to check. -/
theorem allPlain_steps
    (h : p.LaidOut facts signature candidates splices injected us ahead behind)
    (hadd : signature ≠ .nullary "add") (hremove : signature ≠ .nullary "remove") :
    Step.allPlain p.steps = true := by
  rw [h.steps, MergeFacts.check, if_neg hadd, if_neg hremove, List.append_nil]
  exact Step.allPlain_append h.ahead_plain h.behind_plain

end LaidOut

end MethodPlan

namespace MergeFacts

variable {facts : MergeFacts} {signature : Signature} {candidates : List Candidate}
  {splices : List Splice} {hook : Option CodeHook} {plan : MethodPlan}

/-- A membership signature is merged to a method with one check. -/
theorem exists_checks {adding : Bool} (hmembership : signature.membership? = some adding)
    (h : facts.merge signature candidates splices hook = .ok (some plan)) :
    ∃ ahead behind, plan.Checks adding facts.groups ahead behind := by
  obtain ⟨_, _, _, ahead, behind, -, -, hlaid⟩ := exists_laidOut h
  obtain rfl := Signature.membership?_eq_some_iff.1 hmembership
  exact ⟨ahead, behind, hlaid.checks⟩

/-- A merged `add` or `remove` checks once, with the groups behind the check; ahead of it stand in turn
    the calls that bypass it, and behind them the units that do, behind the groups all else. All other
    methods have neither a check nor groups. -/
theorem check_placed (h : facts.merge signature candidates splices hook = .ok (some plan)) :
    (∀ adding, signature = .nullary (if adding then "add" else "remove") →
      ∃ template injected us ahead behind, template.params = plan.params ∧
        hook.elim (.ok none) (· template) = .ok injected ∧
        plan.LaidOut facts signature candidates splices injected us ahead behind ∧
        plan.Checks adding facts.groups ahead behind) ∧
      (signature ≠ .nullary "add" → signature ≠ .nullary "remove" →
        Step.allPlain plan.steps = true) := by
  obtain ⟨template, injected, us, ahead, behind, hparams, hhook, hlaid⟩ := exists_laidOut h
  refine ⟨fun adding hsignature => ?_, hlaid.allPlain_steps⟩
  subst hsignature
  exact ⟨template, injected, us, ahead, behind, hparams, hhook, hlaid, hlaid.checks⟩

/-- A pooled entity that has to cast off before it is removed. -/
def docked : MergeFacts :=
  { plain ["DockComp", "EntityComp"] with groups := ["all", "ship"], pooled := true }

def castOff : List Candidate :=
  [.ofBody "DockComp" "remove" "undock();" [.bypassGroupCheck],
    .ofBody "EntityComp" "remove" "added = false;"]

/-- A call ahead of the check, one behind it, and a predicate around what can be refused. -/
def signals : List Splice :=
  [⟨"DockComp", "whistle", none, 0, .insert false true⟩,
    ⟨"DockComp", "lower", none, 0, .insert false false⟩,
    ⟨"EntityComp", "canLeave", none, 0, .wrap⟩]

def castOffPlan : MethodPlan :=
  ⟨.nullary "remove", "void", [], false, false,
    [.call "whistle", .invoke "remove__dock" [] false, .reentrancy false, .group "all" false,
      .group "ship" false, .guard ["canLeave"] [.call "lower", .invoke "remove__entity" [] false,
        .code (CodeBlock.empty.statement "Groups.queueFree(this)")]],
    [⟨"remove__dock", "DockComp", [], "undock();", false⟩,
      ⟨"remove__entity", "EntityComp", [], "added = false;", false⟩]⟩

theorem merge_castOff : docked.merge (.nullary "remove") castOff signals none =
    .ok (some castOffPlan) :=
  merge_of_ranked castOff rfl rfl (by decide) (by decide) (by decide)

/-- What can be said of casting off. -/
theorem check_placed_castOff :
    docked.merge (.nullary "remove") castOff signals none = .ok (some castOffPlan) ∧
      ∃ (template : MethodDecl) (injected : Option CodeBlock) (us : List Contribution)
        (ahead behind : List Step), template.params = castOffPlan.params ∧
        (.ok none : Except AuthoringError (Option CodeBlock)) = .ok injected ∧
        castOffPlan.LaidOut docked (.nullary "remove") castOff signals injected us ahead behind ∧
        castOffPlan.Checks false ["all", "ship"] ahead behind :=
  ⟨merge_castOff, (check_placed merge_castOff).1 false rfl⟩

end MergeFacts

end EntityWeaver
