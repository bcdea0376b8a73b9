import EntityWeaver.Proofs.Blueprint
import EntityWeaver.Proofs.Finish
import EntityWeaver.Proofs.Project

/-! How entities implement contracts.

    A contract has methods that its component declares and accessors for the fields that others may
    see. What some component declares is merged, or supplied by the entity at large. Every other
    accessor is added to the entity, or to the base class that declares its field:

        declared by a component   ──▶  a plan, or supplied by the entity
        an accessor otherwise     ──▶  a method of the base class that has the field
                                   └▶  else a method of the entity

    Whether the entity has an accessor already is told from printed signatures alone. Two methods that
    differ can be printed alike, but then one of their signatures is no signature when read back. -/

namespace EntityWeaver

namespace SourceMethod

/-- What tells a generated method apart from others. -/
def signature (m : SourceMethod) : Signature := .ofTypes m.name (m.params.map (·.type))

/-- The printed signature of a method is read as its signature. -/
def ReadsBack (m : SourceMethod) : Prop := Signature.ofText? m.signatureText = .ok m.signature

/-- Methods that are printed alike and read back have the same name and number of parameters. -/
theorem eq_of_readsBack {a b : SourceMethod} (h : a.signatureText = b.signatureText)
    (ha : a.ReadsBack) (hb : b.ReadsBack) :
    a.name = b.name ∧ a.params.length = b.params.length := by
  have hsignature : a.signature = b.signature := by
    rw [ReadsBack, h] at ha
    exact Except.ok.inj (ha.symm.trans hb)
  refine ⟨congrArg Signature.name hsignature, ?_⟩
  simpa [signature, Signature.ofTypes] using congrArg (·.params.length) hsignature

end SourceMethod

/-- How an entity comes by a method of a contract. -/
inductive Implements (p : Project) (bases : OrderedMap String BaseClass) (e : Entity)
    (m : ContractMethod) : Prop
  /-- By merging. -/
  | merged {plan : MethodPlan} (hplan : plan ∈ e.plans) (hsignature : plan.signature = m.signature)
  /-- By a method of its own. -/
  | declared {own : SourceMethod} (hown : own ∈ e.type.methods) (hname : own.name = m.name)
      (harity : own.params.length = m.params.length)
  /-- From the base class that it extends. -/
  | inherited {base : String} {b : BaseClass} (hbase : e.base = some base)
      (hclass : bases.get? base = some b) (hmethod : b.type.hasMethod m.name m.returnType = true)
  /-- From the entity at large, as one of its components says. -/
  | supplied {name : String} {c : ComponentDecl} {method : MethodDecl} (hname : name ∈ e.components)
      (hcomponent : p.component? name = some c) (hmethod : method ∈ c.methods)
      (hsignature : method.signature = m.signature) (hinternal : method.internalImpl = true)

/-- A method of an entity is printed with the signature of a contract method although it has another
    name or number of parameters; one of the two signatures is not what is read from the text. -/
def PrintedAlike (e : Entity) (m : ContractMethod) : Prop :=
  ∃ own ∈ e.type.methods, own.signatureText = m.toSource.signatureText ∧
    ¬(own.name = m.name ∧ own.params.length = m.params.length) ∧
      ¬(own.ReadsBack ∧ m.toSource.ReadsBack)

/-- Base classes that gain methods implement what they implemented before. -/
theorem Implements.mono {p : Project} {bases bases' : OrderedMap String BaseClass} {e : Entity}
    {m : ContractMethod} (hgrown : BaseClass.AllGrown bases bases') (h : Implements p bases e m) :
    Implements p bases' e m := by
  cases h with
  | merged hplan hsignature => exact .merged hplan hsignature
  | declared hown hname harity => exact .declared hown hname harity
  | inherited hbase hclass hmethod =>
    obtain ⟨b', hclass', hgrown'⟩ := hgrown.kept hclass
    exact .inherited hbase hclass' (hgrown'.type.hasMethod hmethod)
  | supplied hname hcomponent hmethod hsignature hinternal =>
    exact .supplied hname hcomponent hmethod hsignature hinternal

namespace Contract

variable {taken : List Signature} {f : FieldDecl} {m : ContractMethod}

/-- An accessor is named after its field. -/
theorem name_of_mem_accessors (hm : m ∈ accessors taken f) : m.name = f.name := by
  unfold accessors at hm
  rcases List.mem_append.1 hm with hm | hm
  all_goals
    split at hm
    · cases hm
    · obtain rfl := List.mem_singleton.1 hm
      rfl

/-- The accessor of a contract is one that the field allows. -/
theorem exists_accessor (hm : m ∈ accessors taken f) (htype : f.type ≠ voidType)
    {field : MergedField} (hfield : field.decl = f) :
    ∃ accessor, Draft.accessor? m field = some accessor ∧ accessor.name = m.name ∧
      accessor.returnType = some m.returnType ∧
        accessor.params.map (·.type) = m.params.map (·.type) := by
  unfold accessors at hm
  rcases List.mem_append.1 hm with hm | hm
  · split at hm
    · cases hm
    · obtain rfl := List.mem_singleton.1 hm
      have hvoid : (f.type == voidType) = false := beq_eq_false_iff_ne.2 htype
      simp only [Draft.accessor?, ContractMethod.isVoid, hvoid, Bool.false_eq_true, if_false]
      exact ⟨_, rfl, rfl, rfl, rfl⟩
  · split at hm
    · cases hm
    · next hopen =>
      rw [not_or, not_or, Bool.not_eq_true, Bool.not_eq_true] at hopen
      obtain rfl := List.mem_singleton.1 hm
      simp only [Draft.accessor?, ContractMethod.isVoid, beq_self_eq_true, if_true, hfield, hopen.2.1,
        Bool.false_eq_true, if_false]
      exact ⟨_, rfl, rfl, rfl, rfl⟩

/-- A method of a component's contract is one that the component declares, or an accessor. -/
theorem mem_methodsOf {c : ComponentDecl} (hm : m ∈ methodsOf c) :
    (∃ method ∈ c.methods, method.signature = m.signature) ∨
      ∃ f ∈ visibleFields c, ∃ taken, m ∈ accessors taken f := by
  rcases List.mem_append.1 hm with hm | hm
  · obtain ⟨method, hmethod, rfl⟩ := List.mem_map.1 hm
    exact .inl ⟨method, List.mem_of_mem_filter (List.mem_of_mem_filter hmethod), rfl⟩
  · obtain ⟨f, hf, hm⟩ := List.mem_flatMap.1 hm
    exact .inr ⟨f, hf, _, hm⟩

end Contract

namespace Draft

variable {p : Project} {h : Heading} {contracts : OrderedMap String Contract}
  {history : List Revision} {bases : OrderedMap String BaseClass} {f : Finished}
  {m : ContractMethod}

/-- What a component declares is merged or supplied. -/
theorem FinishedFrom.implements_of_declared
    (hf : FinishedFrom p contracts (of p h).1 history bases f) (hreports : f.reports = [])
    (hdeclared : m.signature ∈ (of p h).1.candidates.keys) : Implements p f.bases f.entity m := by
  obtain ⟨⟨s, cs⟩, hmem, rfl : s = m.signature⟩ := List.mem_map.1 hdeclared
  have hmerged : mergeSignature p (of p h).1 history m.signature cs ∈ (of p h).1.merged p history :=
    List.mem_map.2 ⟨_, hmem, rfl⟩
  have hnone : (mergeSignature p (of p h).1 history m.signature cs).reports = [] := by
    rw [hf.reports, List.append_eq_nil_iff, List.flatMap_eq_nil_iff] at hreports
    exact hreports.1 _ hmerged
  rcases planned_or_internal hmem hnone with ⟨plan, hplan, hsignature⟩ | hinternal
  · refine .merged ?_ hsignature
    rw [hf.plans]
    exact List.mem_filterMap.2 ⟨_, hmerged, hplan⟩
  · obtain ⟨c, hc, method, hmethod, hsignature, hinternal⟩ := hinternal
    obtain ⟨name, hname, hcomponent⟩ := mem_components_of.1 hc
    refine .supplied ?_ hcomponent hmethod hsignature hinternal
    rw [hf.components]
    exact hname

/-- An accessor that no component declares is added, unless another method is printed like it. -/
theorem FinishedFrom.implements_of_accessor
    (hf : FinishedFrom p contracts (of p h).1 history bases f) (hkeyed : BaseClass.Keyed bases)
    (hlocal : h.base.any p.isImported = false) (hpromised : m ∈ (of p h).1.promised contracts)
    {taken : List Signature} {field : MergedField} (hm : m ∈ Contract.accessors taken field.decl)
    (htype : field.decl.type ≠ voidType) (hfield : field ∈ (of p h).1.fields.fields)
    (hundeclared : m.signature ∉ (of p h).1.candidates.keys) :
    Implements p f.bases f.entity m ∨ PrintedAlike f.entity m := by
  have hget : (of p h).1.fields.get? m.name = some field := by
    rw [Contract.name_of_mem_accessors hm, FieldSet.get?_eq_some_iff (names_nodup_of p h)]
    exact ⟨hfield, rfl⟩
  obtain ⟨accessor, haccessor, hname, hreturn, hparams⟩ := Contract.exists_accessor hm htype rfl
  obtain ⟨type, -, -, -, hbench⟩ := hf.workbench
  have hhas := implementAll_has (d := (of p h).1) (w := ⟨type, bases⟩) (p := p) hkeyed hpromised hget
    hundeclared haccessor hreturn (by rw [show (of p h).1.heading = h from rfl, hlocal, Bool.false_and])
  rw [hbench] at hhas
  rcases hhas with ⟨own, hown, htext⟩ | ⟨component, b, hbase, hb, hmethod⟩
  · have hprinted : own.signatureText = m.toSource.signatureText := by
      have haccessorText : accessor.signatureText = m.toSource.signatureText := by
        rw [SourceMethod.signatureText, SourceMethod.signatureText, hname, hparams]
        simp [ContractMethod.toSource, Function.comp_def]
      exact htext.trans haccessorText
    by_cases hsame : own.name = m.name ∧ own.params.length = m.params.length
    · exact .inl (.declared hown hsame.1 hsame.2)
    · refine .inr ⟨own, hown, hprinted, hsame, fun hread => hsame ?_⟩
      obtain ⟨hname', harity⟩ := SourceMethod.eq_of_readsBack hprinted hread.1 hread.2
      exact ⟨hname', harity.trans (List.length_map _)⟩
  · refine .inl (.inherited (hf.base.trans hbase) hb ?_)
    rwa [← hname]

/-- An entity without mistakes implements the contracts of its components. -/
theorem FinishedFrom.implements (hf : FinishedFrom p contracts (of p h).1 history bases f)
    (hreports : f.reports = []) (hkeyed : BaseClass.Keyed bases)
    (hdistinct : ∀ report ∈ (of p h).2, ¬FieldSet.ReportsDuplicate h.name report)
    (hlocal : h.base.any p.isImported = false) {c : ComponentDecl} (hc : c ∈ (of p h).1.components)
    {x : Contract} (hx : contracts.get? c.name = some x) (hmethods : x.methods = Contract.methodsOf c)
    (htypes : ∀ f ∈ c.fields, f.type ≠ voidType) (hm : m ∈ x.methods) :
    Implements p f.bases f.entity m ∨ PrintedAlike f.entity m := by
  by_cases hdeclared : m.signature ∈ (of p h).1.candidates.keys
  · exact .inl (hf.implements_of_declared hreports hdeclared)
  have hpromised : m ∈ (of p h).1.promised contracts := by
    refine List.mem_flatMap.2 ⟨c, hc, ?_⟩
    rwa [hx]
  rw [hmethods] at hm
  rcases Contract.mem_methodsOf hm with hmethod | ⟨field, hfield, taken, hm⟩
  · exact absurd (mem_keys_candidates_iff.2 ⟨c, hc, hmethod⟩) hdeclared
  · obtain ⟨hmem, hvisible⟩ := List.mem_filter.1 hfield
    simp only [Bool.not_eq_true', Bool.or_eq_false_iff] at hvisible
    have hmerged := (mem_fields_of_iff hdistinct).2 ⟨c, hc, field, hmem, hvisible.2, rfl⟩
    exact hf.implements_of_accessor hkeyed hlocal hpromised hm (htypes field hmem) hmerged hdeclared

end Draft

end EntityWeaver
