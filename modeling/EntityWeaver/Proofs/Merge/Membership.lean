import EntityWeaver.Proofs.Merge.GroupCheck

/-! What running a merged method does to the membership of its entity.

    A body sets the flag or clears it, a group is joined or left, and the check returns if the flag
    says that there is nothing to do. All else leaves membership alone; whether a guard lets its steps
    run is up to what its predicates answer. In a merged method the check stands once, outside all
    guards, and the groups stand right behind it:

        bodies ahead ──▶ check ──▶ groups ──▶ bodies behind
                           │ the flag is set already
                           ▼
                         return

    Nothing but bodies sets the flag. So what two runs come to depends on the bodies that run between
    the two checks: if they leave the flag set, the second run joins no group again. -/

namespace EntityWeaver

/-- What membership comes to: the flag, and how often each group was joined more than left. -/
structure Membership where
  added : Bool
  joined : String → Int

namespace Membership

/-- Whether a text occurs in another one. -/
def occurs (part : List Char) : List Char → Bool
  | [] => part.isEmpty
  | c :: rest => part.isPrefixOf (c :: rest) || occurs part rest

/-- A body that sets the flag. -/
def sets (body : String) : Bool := occurs "added = true;".toList body.toList

/-- A body that clears the flag. -/
def clears (body : String) : Bool := occurs "added = false;".toList body.toList

/-- The flag behind a body. -/
def flagBehind (added : Bool) (body : String) : Bool :=
  if sets body then true else if clears body then false else added

/-- The flag behind bodies that run one after another. -/
def flagAfter (added : Bool) (bodies : List String) : Bool := bodies.foldl flagBehind added

/-- Run a body. -/
def run (m : Membership) (body : String) : Membership := { m with added := flagBehind m.added body }

/-- Join a group or leave it. -/
def toggle (m : Membership) (name : String) (adding : Bool) : Membership :=
  { m with joined := fun group =>
      m.joined group + if group = name then (if adding then 1 else -1) else 0 }

theorem flagAfter_append (added : Bool) (xs ys : List String) :
    flagAfter added (xs ++ ys) = flagAfter (flagAfter added xs) ys :=
  List.foldl_append

/-- Bodies that set a clear flag leave any flag set. -/
theorem flagAfter_of_sets {bodies : List String} (h : flagAfter false bodies = true) (added : Bool) :
    flagAfter added bodies = true := by
  induction bodies generalizing added with
  | nil => cases h
  | cons body rest ih =>
    rw [flagAfter, List.foldl_cons] at h ⊢
    unfold flagBehind at h ⊢
    split at h
    · next hsets => rwa [if_pos hsets]
    next hsets =>
    split at h
    · next hclears => rwa [if_neg hsets, if_pos hclears]
    · next hclears =>
      rw [if_neg hsets, if_neg hclears]
      exact ih h added

theorem foldl_run (m : Membership) (bodies : List String) :
    bodies.foldl run m = { m with added := flagAfter m.added bodies } := by
  induction bodies generalizing m with
  | nil => rfl
  | cons body rest ih =>
    rw [List.foldl_cons, ih]
    rfl

end Membership

namespace Step

mutual

/-- What a step makes of membership, and whether the method goes on; bodies do not stop it. -/
def exec (holds : String → Bool) (helpers : List Helper) (m : Membership) : Step → Membership × Bool
  | .inline _ body => (m.run body, true)
  | .invoke helper _ _ => ((helpers.find? (·.name == helper)).elim m (m.run ·.body), true)
  | .guard predicates steps => if predicates.all holds then execAll holds helpers m steps else (m, true)
  | .reentrancy adding => (m, m.added != adding)
  | .group name adding => (m.toggle name adding, true)
  | _ => (m, true)

/-- What steps make of membership, up to the one that stops the method. -/
def execAll (holds : String → Bool) (helpers : List Helper) (m : Membership) :
    List Step → Membership × Bool
  | [] => (m, true)
  | s :: rest =>
    match s.exec holds helpers m with
    | (m, true) => execAll holds helpers m rest
    | (m, false) => (m, false)

end

mutual

/-- The bodies that a step runs. -/
def ran (holds : String → Bool) (helpers : List Helper) : Step → List String
  | .inline _ body => [body]
  | .invoke helper _ _ => ((helpers.find? (·.name == helper)).map (·.body)).toList
  | .guard predicates steps => if predicates.all holds then ranAll holds helpers steps else []
  | _ => []

/-- The bodies that steps run one after another. -/
def ranAll (holds : String → Bool) (helpers : List Helper) : List Step → List String
  | [] => []
  | s :: rest => s.ran holds helpers ++ ranAll holds helpers rest

end

def isCheck : Step → Bool
  | .reentrancy _ => true
  | _ => false

variable (holds : String → Bool) (helpers : List Helper)

theorem execAll_append (m : Membership) (xs ys : List Step) :
    execAll holds helpers m (xs ++ ys) =
      match execAll holds helpers m xs with
      | (m, true) => execAll holds helpers m ys
      | (m, false) => (m, false) := by
  induction xs generalizing m with
  | nil => rfl
  | cons s rest ih =>
    rw [List.cons_append, execAll, execAll]
    rcases s.exec holds helpers m with ⟨m', _ | _⟩
    · rfl
    · exact ih m'

mutual

/-- Of what a plain step does only the bodies that it runs matter. -/
theorem exec_of_isPlain (m : Membership) : ∀ {s : Step}, s.isPlain = true →
    s.exec holds helpers m = ((s.ran holds helpers).foldl Membership.run m, true)
  | .call _, _ => rfl
  | .inline _ _, _ => rfl
  | .invoke helper _ _, _ => by
    rw [exec, ran]
    cases helpers.find? (·.name == helper) <;> rfl
  | .assign _ _, _ => rfl
  | .guard predicates steps, h => by
    rw [exec, ran]
    split
    · exact execAll_of_allPlain m h
    · rfl
  | .code _, _ => rfl

theorem execAll_of_allPlain (m : Membership) : ∀ {steps : List Step}, allPlain steps = true →
    execAll holds helpers m steps = ((ranAll holds helpers steps).foldl Membership.run m, true)
  | [], _ => rfl
  | s :: rest, h => by
    obtain ⟨hs, hrest⟩ := (Bool.and_eq_true _ _).mp h
    rw [execAll, exec_of_isPlain m hs, ranAll, List.foldl_append]
    exact execAll_of_allPlain _ hrest

end

theorem ranAll_append (xs ys : List Step) :
    ranAll holds helpers (xs ++ ys) = ranAll holds helpers xs ++ ranAll holds helpers ys := by
  induction xs with
  | nil => rfl
  | cons s rest ih => rw [List.cons_append, ranAll, ih, ranAll, List.append_assoc]

theorem ranAll_groups (adding : Bool) (groups : List String) :
    ranAll holds helpers (groups.map fun g => .group g adding) = [] := by
  induction groups with
  | nil => rfl
  | cons g rest ih =>
    rw [List.map_cons, ranAll, ih]
    rfl

/-- Joining groups leaves the flag alone. -/
theorem execAll_groups (m : Membership) (groups : List String) :
    execAll holds helpers m (groups.map fun g => .group g true) =
      ({ m with joined := fun g => m.joined g + groups.count g }, true) := by
  induction groups generalizing m with
  | nil => simp [execAll]
  | cons name rest ih =>
    have hcount : ∀ g, (m.toggle name true).joined g + rest.count g =
        m.joined g + (name :: rest).count g := by
      intro g
      rcases eq_or_ne g name with rfl | hne
      · simp only [Membership.toggle, List.count_cons_self, if_true]
        omega
      · simp only [Membership.toggle, List.count_cons_of_ne hne.symm, hne, if_false]
        omega
    rw [List.map_cons, execAll, exec]
    dsimp only
    rw [ih]
    simp only [hcount]
    rfl

end Step

namespace MethodPlan

/-- What running a merged method makes of membership. -/
def exec (p : MethodPlan) (holds : String → Bool) (m : Membership) : Membership :=
  (Step.execAll holds p.helpers m p.steps).1

/-- The bodies that run ahead of the check. -/
def ranAhead (p : MethodPlan) (holds : String → Bool) : List String :=
  Step.ranAll holds p.helpers (p.steps.takeWhile (!·.isCheck))

/-- The bodies that run behind the check. -/
def ranBehind (p : MethodPlan) (holds : String → Bool) : List String :=
  Step.ranAll holds p.helpers (p.steps.dropWhile (!·.isCheck))

namespace Checks

variable {p : MethodPlan} {adding : Bool} {groups : List String} {ahead behind : List Step}

theorem ahead_unchecked (h : p.Checks adding groups ahead behind) :
    ∀ s ∈ ahead, (!s.isCheck) = true := by
  intro s hs
  have hplain := Step.allPlain_iff.1 h.ahead_plain s hs
  cases s with
  | reentrancy adding => cases hplain
  | _ => rfl

theorem ranAhead_eq (h : p.Checks adding groups ahead behind) (holds : String → Bool) :
    p.ranAhead holds = Step.ranAll holds p.helpers ahead := by
  rw [ranAhead, h.steps, List.takeWhile_append_of_pos h.ahead_unchecked,
    List.takeWhile_cons_of_neg (by simp [Step.isCheck]), List.append_nil]

/-- Neither the check nor a group runs a body. -/
theorem ranBehind_eq (h : p.Checks adding groups ahead behind) (holds : String → Bool) :
    p.ranBehind holds = Step.ranAll holds p.helpers behind := by
  rw [ranBehind, h.steps, List.dropWhile_append_of_pos h.ahead_unchecked,
    List.dropWhile_cons_of_neg (by simp [Step.isCheck]), Step.ranAll, Step.ranAll_append,
    Step.ranAll_groups]
  rfl

/-- A run returns at the check or joins all groups. -/
theorem exec_eq (h : p.Checks true groups ahead behind) (holds : String → Bool) (m : Membership) :
    p.exec holds m =
      if Membership.flagAfter m.added (p.ranAhead holds) = true then { m with added := true }
      else {
        added := Membership.flagAfter false (p.ranBehind holds)
        joined := fun g => m.joined g + groups.count g } := by
  rw [exec, h.steps, Step.execAll_append, Step.execAll_of_allPlain _ _ _ h.ahead_plain,
    Membership.foldl_run, ← h.ranAhead_eq]
  dsimp only
  rw [Step.execAll, Step.exec]
  cases Membership.flagAfter m.added (p.ranAhead holds) with
  | true => rfl
  | false =>
    have hgo : (false != true) = true := rfl
    dsimp only
    rw [hgo]
    dsimp only
    rw [Step.execAll_append, Step.execAll_groups]
    dsimp only
    rw [Step.execAll_of_allPlain _ _ _ h.behind_plain, Membership.foldl_run, ← h.ranBehind_eq]
    rfl

end Checks

end MethodPlan

namespace MergeFacts

variable {facts : MergeFacts} {candidates : List Candidate} {splices : List Splice}
  {hook : Option CodeHook} {plan : MethodPlan}

/-- A merged `add` joins each group twice if the bodies that run between the checks of two runs leave
    the flag clear. -/
theorem joined_twice (h : facts.merge (.nullary "add") candidates splices hook = .ok (some plan))
    (hgroups : facts.groups.Nodup) {holds : String → Bool}
    (hbetween : Membership.flagAfter false (plan.ranBehind holds ++ plan.ranAhead holds) = false)
    {m : Membership} (hm : m.added = false) {g : String} (hg : g ∈ facts.groups) :
    (plan.exec holds (plan.exec holds m)).joined g = m.joined g + 2 := by
  obtain ⟨ahead, behind, hchecks⟩ := exists_checks rfl h
  rw [Membership.flagAfter_append] at hbetween
  have hfirst : Membership.flagAfter false (plan.ranAhead holds) = false := by
    rw [← Bool.not_eq_true]
    intro hsets
    rw [Membership.flagAfter_of_sets hsets] at hbetween
    cases hbetween
  rw [hchecks.exec_eq holds m, hm, hfirst, if_neg Bool.false_ne_true, hchecks.exec_eq, hbetween,
    if_neg Bool.false_ne_true]
  dsimp only
  rw [List.count_eq_one_of_mem hgroups hg]
  omega

/-- A merged `add` that is run twice joins each group exactly once or not at all, whatever the
    predicates of its guards answer, as long as the bodies that run between the checks of both runs
    leave the flag set: those behind the check in the first run, then those ahead of it in the
    second. -/
theorem add_idempotent (h : facts.merge (.nullary "add") candidates splices hook = .ok (some plan))
    (hgroups : facts.groups.Nodup) {holds : String → Bool}
    (hbetween : Membership.flagAfter false (plan.ranBehind holds ++ plan.ranAhead holds) = true)
    {m : Membership} (hm : m.added = false) :
    (∀ g ∈ facts.groups, (plan.exec holds (plan.exec holds m)).joined g = m.joined g + 1) ∨
      ∀ g ∈ facts.groups, (plan.exec holds (plan.exec holds m)).joined g = m.joined g := by
  obtain ⟨ahead, behind, hchecks⟩ := exists_checks rfl h
  rw [Membership.flagAfter_append] at hbetween
  rw [hchecks.exec_eq holds m, hm]
  cases hfirst : Membership.flagAfter false (plan.ranAhead holds) with
  | true =>
    right
    intro g _
    rw [if_pos rfl, hchecks.exec_eq, Membership.flagAfter_of_sets hfirst, if_pos rfl]
  | false =>
    left
    intro g hg
    rw [if_neg Bool.false_ne_true, hchecks.exec_eq, hbetween, if_pos rfl]
    dsimp only
    rw [List.count_eq_one_of_mem hgroups hg]
    rfl

end MergeFacts

/-! ### Joining the units -/

/-- The entity of two components, which joins the units. -/
def enlisting : MergeFacts := { MergeFacts.plain ["EntityComp", "ScoutComp"] with groups := ["unit"] }

/-- The body that sets the flag. -/
def enlist : Candidate := .ofBody "EntityComp" "add" "added = true;"

/-- A body that clears it. -/
def desert (directives : List Directive) : Candidate :=
  .ofBody "ScoutComp" "add" "added = false;" directives

/-- Decides whether the body that sets the flag is run. -/
def canEnlist : Splice := ⟨"EntityComp", "canEnlist", some "EntityComp", 0, .wrap⟩

/-- A merged `add` of given steps and helpers. -/
def addPlan (steps : List Step) (helpers : List Helper) : MethodPlan :=
  ⟨.nullary "add", "void", [], false, false, steps, helpers⟩

/-- Add the entity to the units and set the flag, if it is allowed to. -/
def enlistPlan : MethodPlan :=
  addPlan [.reentrancy true, .group "unit" true,
    .guard ["canEnlist"] [.inline "EntityComp" "added = true;"]] []

def enlistHelper : Helper := ⟨"add__entity", "EntityComp", [], "added = true;", false⟩

def desertHelper : Helper := ⟨"add__scout", "ScoutComp", [], "added = false;", false⟩

/-- Add the entity to the units, set the flag and clear it. -/
def desertLatePlan : MethodPlan :=
  addPlan [.reentrancy true, .group "unit" true, .invoke "add__entity" [] false,
    .invoke "add__scout" [] false] [enlistHelper, desertHelper]

/-- Clear the flag, add the entity to the units and set the flag. -/
def desertEarlyPlan : MethodPlan :=
  addPlan [.invoke "add__scout" [] false, .reentrancy true, .group "unit" true,
    .invoke "add__entity" [] false] [desertHelper, enlistHelper]

/-- What is merged from survivors and splices. -/
def enlistingPlan (survivors : List Candidate) (splices : List Splice) : MethodPlan :=
  Selection.plan
    ⟨true, survivors, none, splices, MergeFacts.chooseTemplate enlist.method survivors⟩ enlisting
    (.nullary "add") none

theorem merge_enlist :
    enlisting.merge (.nullary "add") [enlist] [canEnlist] none = .ok (some enlistPlan) := by
  have hsurvivors : [enlist].mergeSort Candidate.le = [enlist] := List.mergeSort_singleton _
  have hsplices : [canEnlist].mergeSort Splice.le = [canEnlist] := List.mergeSort_singleton _
  calc enlisting.merge (.nullary "add") [enlist] [canEnlist] none
      = .ok (some (enlistingPlan
          (([enlist].mergeSort Candidate.le).filter fun c => enlisting.extendHolds c.method)
          ([canEnlist].mergeSort Splice.le))) := rfl
    _ = .ok (some enlistPlan) := by
      rw [hsurvivors, hsplices]
      rfl

theorem merge_desert {directives : List Directive} {plan : MethodPlan}
    (hplan : directives = [] ∧ plan = desertLatePlan ∨
      directives = [.bypassGroupCheck] ∧ plan = desertEarlyPlan) :
    enlisting.merge (.nullary "add") [enlist, desert directives] [] none = .ok (some plan) := by
  have hsurvivors :
      [enlist, desert directives].mergeSort Candidate.le = [enlist, desert directives] := by
    refine List.mergeSort_of_pairwise ?_
    rcases hplan with ⟨rfl, -⟩ | ⟨rfl, -⟩
    all_goals decide
  have hsplices : ([] : List Splice).mergeSort Splice.le = [] := List.mergeSort_nil
  calc enlisting.merge (.nullary "add") [enlist, desert directives] [] none
      = .ok (some (enlistingPlan
          (([enlist, desert directives].mergeSort Candidate.le).filter fun c =>
            enlisting.extendHolds c.method) ([].mergeSort Splice.le))) := by
        rcases hplan with ⟨rfl, -⟩ | ⟨rfl, -⟩
        all_goals rfl
    _ = .ok (some plan) := by
      rw [hsurvivors, hsplices]
      rcases hplan with ⟨rfl, rfl⟩ | ⟨rfl, rfl⟩
      all_goals rfl

/-- An entity that can be added joins the units once. -/
theorem MergeFacts.add_idempotent_enlist : enlisting.groups.Nodup ∧
    Membership.flagAfter false ((enlistPlan.ranBehind fun _ => true) ++
      enlistPlan.ranAhead fun _ => true) = true ∧
    (enlistPlan.exec (fun _ => true)
      (enlistPlan.exec (fun _ => true) ⟨false, fun _ => 0⟩)).joined "unit" = 1 := by
  have hbetween : Membership.flagAfter false ((enlistPlan.ranBehind fun _ => true) ++
      enlistPlan.ranAhead fun _ => true) = true := by decide
  refine ⟨by decide, hbetween, ?_⟩
  have htwice := add_idempotent merge_enlist (by decide) hbetween (m := ⟨false, fun _ => 0⟩) rfl
  rcases htwice with honce | hnever
  · exact honce "unit" List.mem_cons_self
  · exact absurd (hnever "unit" List.mem_cons_self) (by decide)

/-- Merged from these candidates and splices, `add` joins a group twice, although behind the check
    stands the body that sets the flag. -/
def MergeFacts.JoinsTwice (facts : MergeFacts) (candidates : List Candidate) (splices : List Splice)
    (holds : String → Bool) : Prop :=
  ∃ plan, facts.merge (.nullary "add") candidates splices none = .ok (some plan) ∧
    "added = true;" ∈ Step.bodiesOfAll plan.helpers (plan.steps.dropWhile (!·.isCheck)) ∧
    ∃ g ∈ facts.groups, ∀ m : Membership, m.added = false →
      (plan.exec holds (plan.exec holds m)).joined g = m.joined g + 2

/-- So it does if a guard keeps the body from running, if a later body clears the flag again, and if a
    body ahead of the check does. -/
theorem MergeFacts.exists_joinsTwice :
    enlisting.JoinsTwice [enlist] [canEnlist] (fun _ => false) ∧
    enlisting.JoinsTwice [enlist, desert []] [] (fun _ => true) ∧
    enlisting.JoinsTwice [enlist, desert [.bypassGroupCheck]] [] (fun _ => true) := by
  have hgroups : enlisting.groups.Nodup := by decide
  have hunit : "unit" ∈ enlisting.groups := List.mem_cons_self
  refine ⟨⟨enlistPlan, merge_enlist, by decide, "unit", hunit, fun m hm => ?_⟩,
    ⟨desertLatePlan, merge_desert (.inl ⟨rfl, rfl⟩), by decide, "unit", hunit, fun m hm => ?_⟩,
    ⟨desertEarlyPlan, merge_desert (.inr ⟨rfl, rfl⟩), by decide, "unit", hunit, fun m hm => ?_⟩⟩
  · exact joined_twice merge_enlist hgroups (by decide) hm hunit
  · exact joined_twice (merge_desert (.inl ⟨rfl, rfl⟩)) hgroups (by decide) hm hunit
  · exact joined_twice (merge_desert (.inr ⟨rfl, rfl⟩)) hgroups (by decide) hm hunit

end EntityWeaver
