import EntityWeaver.ComponentName
import EntityWeaver.Merge.Selection
import EntityWeaver.MethodBody
import EntityWeaver.MethodPlan

/-! The layout of a merged method: from a selection to its plan.

    Each survivor contributes its body, and so does the setter its assignment. Where more than one of
    them has something to run, each body goes into a helper of its own. The splices of a block stand
    around its contribution; those of the whole method stand around all of them:

        add and remove only   ┌ calls that bypass the group check
                              │ contributions that bypass it
                              │ return if already added or removed
                              └ join or leave the groups
        in a guard, if the    ┌ calls before
        method as a whole     │ the entity's own code
        is wrapped            │ contributions, each with the splices of its block
                              │ calls after
                              └ on removal, back into the pool -/

namespace EntityWeaver

/-- What stands in a merged method: the body of a candidate, or the setting of a field. -/
inductive Contribution where
  | body (c : Candidate)
  | setter (f : MergedField)
  deriving Repr, DecidableEq

namespace Contribution

/-- The component that contributes. -/
def owner : Contribution → String
  | .body c => c.component.name
  | .setter f => f.owner

def priority : Contribution → Int32
  | .body c => c.method.priority
  | .setter _ => 0

/-- The rank of a contribution's turn. -/
def rank (u : Contribution) : Rank := ⟨u.priority, u.owner⟩

/-- The order by rank. -/
def le (a b : Contribution) : Bool := a.rank.le b.rank

def bypassesGroupCheck : Contribution → Bool
  | .body c => c.method.bypassesGroupCheck
  | .setter _ => false

/-- Whether there is something to run. -/
def contributes : Contribution → Bool
  | .setter _ => true
  | .body c => c.isConcrete && (c.method.body.bind (MethodBody.statements? · .keep)).isSome

end Contribution

/-- Steps in a guard of the predicates, if there are any. -/
def guarded (predicates : List String) (steps : List Step) : List Step :=
  if predicates = [] then steps else [.guard predicates steps]

/-- What laying out contributions looks at. -/
structure Layouter where
  signature : Signature
  /-- The names of the merged method's parameters. -/
  params : List String
  splices : List Splice
  /-- Bodies go into helpers. -/
  isolate : Bool
  deriving Repr

namespace Layouter

variable (l : Layouter)

/-- The splices of a block. -/
def splicesOf (block : String) : List Splice :=
  l.splices.filter fun s => s.block.any (ComponentName.block · == block)

/-- The calls that splices of a block put before or after it. -/
def calls (block : String) (after : Bool) : List Step :=
  ((l.splicesOf block).filter (·.isInsert after)).map fun s => .call s.method

/-- The predicates that guard a block. -/
def predicates (block : String) : List String := ((l.splicesOf block).filter (·.isWrap)).map (·.method)

/-- The statements of a candidate. -/
def statements? (c : Candidate) : Option String :=
  if c.isConcrete then
    c.method.body.bind (MethodBody.statements? ·
      (if l.isolate && c.method.noBreakBlock then .signal else .keep))
  else none

/-- The name of the helper of a block. -/
def helperName (block : String) : String := l.signature.name ++ "__" ++ block

/-- What a contribution itself runs. -/
def core (u : Contribution) : List Step :=
  match u with
  | .setter f => (l.params.head?.map fun p => .assign f.name p).toList
  | .body c => (l.statements? c).toList.map fun text =>
    if l.isolate then
      .invoke (l.helperName (ComponentName.block u.owner)) l.params c.method.noBreakBlock
    else .inline c.component.name text

/-- The helper that a contribution needs. -/
def helper? (u : Contribution) : Option Helper :=
  match u with
  | .setter _ => none
  | .body c =>
    if l.isolate then
      (l.statements? c).map fun text =>
        ⟨l.helperName (ComponentName.block u.owner), c.component.name, c.method.params, text,
          c.method.noBreakBlock⟩
    else none

/-- A contribution with the splices of its block. -/
def steps (u : Contribution) : List Step :=
  let block := ComponentName.block u.owner
  guarded (l.predicates block) (l.calls block false ++ l.core u ++ l.calls block true)

end Layouter

namespace Selection

/-- The contributions of a selection, in order. -/
def contributions (s : Selection) : List Contribution :=
  let bodies := s.survivors.map Contribution.body
  match s.setter with
  | none => bodies
  | some f => (bodies ++ [Contribution.setter f]).mergeSort Contribution.le

/-- The contributions that run before the group check of a membership signature. -/
def bypassing (s : Selection) (signature : Signature) : List Contribution :=
  if signature.membership?.isSome then s.contributions.filter (·.bypassesGroupCheck) else []

/-- All other contributions. -/
def checked (s : Selection) (signature : Signature) : List Contribution :=
  if signature.membership?.isSome then s.contributions.filter (!·.bypassesGroupCheck)
  else s.contributions

/-- The layouter of a selection. -/
def layouter (s : Selection) (signature : Signature) : Layouter where
  signature := signature
  params := s.template.params.map (·.name)
  splices := s.splices
  isolate := s.isVoid && s.contributions.countP Contribution.contributes > 1

/-- The splices that concern the method as a whole. -/
def unscoped (s : Selection) : List Splice := s.splices.filter (·.block.isNone)

/-- Calls of spliced methods. -/
def callsOf (splices : List Splice) : List Step := splices.map fun p => .call p.method

/-- The calls before everything, on one side of the group check of a membership signature. -/
def callsBefore (s : Selection) (signature : Signature) (bypass : Bool) : List Step :=
  let before := s.unscoped.filter (·.isInsert false)
  if signature.membership?.isSome then
    callsOf (before.filter fun p => p.bypassesGroupCheck == bypass)
  else if bypass then [] else callsOf before

/-- The predicates that guard the method as a whole. -/
def wraps (s : Selection) : List String := (s.unscoped.filter (·.isWrap)).map (·.method)

/-- Give an entity back to its pool when it is removed. -/
def release (facts : MergeFacts) (signature : Signature) : List Step :=
  if facts.pooled ∧ signature.membership? = some false then
    [.code (CodeBlock.empty.statement (groupsType ++ ".queueFree(this)"))]
  else []

/-- Everything behind the group check. -/
def inner (s : Selection) (facts : MergeFacts) (signature : Signature)
    (injected : Option CodeBlock) : List Step :=
  s.callsBefore signature false ++ (injected.map Step.code).toList ++
    (s.checked signature).flatMap (s.layouter signature).steps ++
    callsOf (s.unscoped.filter (·.isInsert true)) ++ release facts signature

/-- Everything before the group check, and the check with the groups. -/
def opening (s : Selection) (facts : MergeFacts) (signature : Signature) : List Step :=
  match signature.membership? with
  | none => []
  | some adding =>
    s.callsBefore signature true ++ (s.bypassing signature).flatMap (s.layouter signature).steps ++
      .reentrancy adding :: facts.groups.map fun g => .group g adding

/-- The plan of a merged method. -/
def plan (s : Selection) (facts : MergeFacts) (signature : Signature) (injected : Option CodeBlock) :
    MethodPlan where
  signature := signature
  returnType := s.template.returnType
  params := s.template.params
  isStatic := s.template.modifiers.isStatic
  isPrivate := s.template.modifiers.isPrivate
  steps := s.opening facts signature ++ guarded s.wraps (s.inner facts signature injected)
  helpers := (s.bypassing signature ++ s.checked signature).filterMap (s.layouter signature).helper?

end Selection

/-- Merge the candidates of a signature; none if the entity supplies the method itself. -/
def MergeFacts.merge (facts : MergeFacts) (signature : Signature) (candidates : List Candidate)
    (splices : List Splice) (hook : Option CodeHook) : Except AuthoringError (Option MethodPlan) := do
  match ← facts.select signature candidates splices hook.isSome with
  | none => return none
  | some selection =>
    let injected ← match hook with
      | some build => build selection.template
      | none => pure none
    return some (selection.plan facts signature injected)

end EntityWeaver
