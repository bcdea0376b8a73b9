import EntityWeaver.Diagnostic
import EntityWeaver.FieldSet
import EntityWeaver.Source.CodeBlock
import EntityWeaver.Splice

/-! Which candidates of a signature make up the merged method.

    The candidates are the methods of one signature that the components of an entity declare. They
    pass through stages, each of which may drop some or find a mistake:

        setter     a lone void candidate with one parameter may set a field of another component
        replace    the highest replace priority drops all others, and the setter
        remove     a method deletes those of the components it names; a deleted one deletes nothing
        conflict   of methods with a result only one may be left, and some implementation must be
        extend     by priority and component, those whose wanted components are absent are dropped
        splices    by priority and component, those of components in the entity; void methods only

    What is left is a selection, from which the plan of the method is laid out. -/

namespace EntityWeaver

/-- A component's method of the signature that is merged. -/
structure Candidate where
  component : ComponentDecl
  method : MethodDecl
  deriving Repr, DecidableEq

namespace Candidate

/-- The rank of a candidate's turn. -/
def rank (c : Candidate) : Rank := ⟨c.method.priority, c.component.name⟩

/-- The order by rank. -/
def le (a b : Candidate) : Bool := a.rank.le b.rank

def isConcrete (c : Candidate) : Bool := !c.method.isAbstract

end Candidate

/-- What merging looks at in the entity. -/
structure MergeFacts where
  entity : String
  /-- The components of the entity. -/
  resolved : List String
  fields : FieldSet
  /-- The groups that the entity joins when added and leaves when removed. -/
  groups : List String
  pooled : Bool
  deriving Repr

/-- Makes the code that goes before the bodies, for the method whose parameters the merged one has. -/
abbrev CodeHook := MethodDecl → Except AuthoringError (Option CodeBlock)

/-- Whether a signature is the one that adds an entity, the one that removes it, or neither. -/
def Signature.membership? (s : Signature) : Option Bool :=
  if s.arity ≠ 0 then none
  else if s.name = "add" then some true
  else if s.name = "remove" then some false
  else none

/-- The candidates that make up a merged method, and what is spliced into it. -/
structure Selection where
  /-- The signature is that of a method without a result. -/
  isVoid : Bool
  /-- By priority and component. -/
  survivors : List Candidate
  /-- The field that the method sets of its own accord. -/
  setter : Option MergedField
  /-- By priority and component. -/
  splices : List Splice
  /-- The method whose parameters and modifiers the merged one has. -/
  template : MethodDecl
  deriving Repr

namespace MergeFacts

/-- The field that a lone candidate sets: it has the name of the signature and the type of its
    parameter, can be set, and belongs to another component. -/
def setter? (facts : MergeFacts) (signature : Signature) : List Candidate → Option MergedField
  | [only] =>
    match only.method.isVoid, signature.params with
    | true, [type] => (facts.fields.get? signature.name).filter fun f =>
      normalType f.decl.type == type && f.owner != only.component.name && !f.decl.isStatic &&
        !f.decl.modifiers.isFinal
    | _, _ => none
  | _ => none

/-- The highest replace priority among candidates. -/
def topReplace? (candidates : List Candidate) : Option Int32 :=
  (candidates.filterMap (·.method.replacePriority?)).max?

/-- The field that candidates set; replacing drops the setter with the other candidates. -/
def activeSetter? (facts : MergeFacts) (signature : Signature) (candidates : List Candidate) :
    Option MergedField :=
  if (topReplace? candidates).isSome then none else facts.setter? signature candidates

/-- The candidates that replacing leaves. -/
def contenders (candidates : List Candidate) : List Candidate :=
  match topReplace? candidates with
  | none => candidates
  | some top => candidates.filter (·.method.replacePriority? == some top)

/-- The candidates that replacing leaves, only one if the method has a result. -/
def replaceStage (facts : MergeFacts) (signature : Signature) (isVoid : Bool)
    (candidates : List Candidate) : Except AuthoringError (List Candidate) :=
  if (topReplace? candidates).isSome && !isVoid && (contenders candidates).length > 1 then
    .error (.tiedReplace facts.entity signature.text)
  else .ok (contenders candidates)

/-- The removed names with those that one candidate removes. -/
def removeTargets (facts : MergeFacts) (signature : Signature) (setter : Option MergedField)
    (present : List String) (removed : List String) : List String →
    Except AuthoringError (List String)
  | [] => .ok removed
  | target :: rest =>
    match setter.filter (·.owner == target) with
    | some f => .error (.removedSetterOwner facts.entity signature.text target f.name)
    | none =>
      if target ∉ present then facts.removeTargets signature setter present removed rest
      else if target ∈ removed then .error (.doubleRemoval facts.entity signature.text target)
      else facts.removeTargets signature setter present (target :: removed) rest

/-- The names that candidates remove, from the left; a removed candidate removes nothing. -/
def removeStage (facts : MergeFacts) (signature : Signature) (setter : Option MergedField)
    (present : List String) (removed : List String) : List Candidate →
    Except AuthoringError (List String)
  | [] => .ok removed
  | c :: rest => do
    let removed ← if c.component.name ∈ removed then .ok removed
      else facts.removeTargets signature setter present removed c.method.removals
    facts.removeStage signature setter present removed rest

/-- The candidates that replacing and removing leave. -/
def prune (facts : MergeFacts) (signature : Signature) (isVoid : Bool)
    (candidates : List Candidate) : Except AuthoringError (List Candidate) := do
  let entries ← facts.replaceStage signature isVoid candidates
  let removed ← facts.removeStage signature (facts.activeSetter? signature candidates)
    (entries.map (·.component.name)) [] entries
  return entries.filter fun c => !removed.contains c.component.name

/-- Whether the components that a method wants beside it are there. -/
def extendHolds (facts : MergeFacts) (m : MethodDecl) : Bool :=
  match m.extension? with
  | none => true
  | some (components, .any) => components.any facts.resolved.contains
  | some (components, .all) => components.all facts.resolved.contains

/-- The splices of components in the entity, in the order in which they act. -/
def activeSplices (facts : MergeFacts) (splices : List Splice) : List Splice :=
  (splices.filter fun s => facts.resolved.contains s.component).mergeSort Splice.le

/-- Refuse splices into a method with a result. -/
def spliceStage (signature : Signature) (isVoid : Bool) (splices : List Splice) :
    Except AuthoringError Unit :=
  if isVoid || splices.isEmpty then .ok ()
  else if splices.any (!·.isWrap) then .error (.insertIntoNonVoid signature.text)
  else .error (.wrapNonVoid signature.text)

/-- The method whose parameters the merged one has: the first implementation, or else the first. -/
def chooseTemplate (first : MethodDecl) (survivors : List Candidate) : MethodDecl :=
  ((survivors.find? (·.isConcrete)).or survivors.head?).elim first (·.method)

/-- The selection from the candidates of a signature; none if the entity supplies the method itself.
    `injected` says that code of the entity's own goes before the bodies. -/
def select (facts : MergeFacts) (signature : Signature) (candidates : List Candidate)
    (splices : List Splice) (injected : Bool) : Except AuthoringError (Option Selection) :=
  match candidates with
  | [] => .ok none
  | first :: _ => do
    let isVoid := first.method.isVoid
    let setter := facts.activeSetter? signature candidates
    let entries ← facts.prune signature isVoid candidates
    let concrete := entries.countP (·.isConcrete)
    let togglesGroups := signature.membership?.isSome && !facts.groups.isEmpty
    if !isVoid && concrete > 1 then .error (.multipleNonVoid facts.entity signature.text)
    else if concrete = 0 && !(setter.isSome || injected || togglesGroups) then
      if candidates.any (·.method.internalImpl) then .ok none
      else .error (.unimplemented facts.entity signature.text)
    else
      let survivors := (entries.mergeSort Candidate.le).filter fun c => facts.extendHolds c.method
      if !isVoid && !survivors.any (·.isConcrete) then
        .error (.unimplemented facts.entity signature.text)
      else
        let active := facts.activeSplices splices
        spliceStage signature isVoid active
        return some ⟨isVoid, survivors, setter, active, chooseTemplate first.method survivors⟩

end MergeFacts

end EntityWeaver
