import EntityWeaver.Proofs.Accessors
import EntityWeaver.Proofs.Merge.Stages

/-! How a draft is finished.

    The candidates of a signature are all methods of the draft's components that have it. Each
    signature is merged into a plan, or supplied by the entity itself, or reported. The generated type
    starts with the fields of the draft and the merged methods, and gains accessors from there on. What
    is reported is always a mistake, so a draft without mistakes has come to an end with every
    signature. -/

namespace EntityWeaver

namespace Draft

variable {p : Project} {d : Draft} {contracts : OrderedMap String Contract} {history : List Revision}
  {bases : OrderedMap String BaseClass} {f : Finished} {s : Signature} {cs : List Candidate}

/-! ### Candidates -/

/-- The methods of all components, in order. -/
def declarations (d : Draft) : List Candidate :=
  d.components.flatMap fun c => c.methods.map fun m => ⟨c, m⟩

theorem mem_declarations_iff {c : Candidate} :
    c ∈ d.declarations ↔ c.component ∈ d.components ∧ c.method ∈ c.component.methods := by
  simp only [declarations, List.mem_flatMap, List.mem_map]
  constructor
  · rintro ⟨component, hcomponent, m, hm, rfl⟩
    exact ⟨hcomponent, hm⟩
  · rintro ⟨hcomponent, hm⟩
    exact ⟨_, hcomponent, _, hm, rfl⟩

/-- The candidates of a signature are the methods that have it. -/
theorem get?_candidates (d : Draft) (s : Signature) : d.candidates.get? s =
    if d.declarations.filter (·.method.signature = s) = [] then none
    else some (d.declarations.filter (·.method.signature = s)) := by
  -- a table that methods are added to keeps those that it has
  have hadd : ∀ (xs : List Candidate) (table : OrderedMap Signature (List Candidate)),
      (xs.foldl (fun table c => table.put c.method.signature
        (((table.get? c.method.signature).getD []) ++ [c])) table).get? s =
      if xs.filter (·.method.signature = s) = [] then table.get? s
      else some ((table.get? s).getD [] ++ xs.filter (·.method.signature = s)) := by
    intro xs
    induction xs with
    | nil => exact fun _ => rfl
    | cons c rest ih =>
      intro table
      rw [List.foldl_cons, ih, OrderedMap.get?_put]
      by_cases hc : c.method.signature = s
      · subst hc
        simp only [if_true, decide_true, List.filter_cons_of_pos, List.cons_ne_nil, if_false,
          Option.getD_some, List.append_assoc, List.singleton_append]
        split
        · next hrest => rw [hrest]
        · rfl
      · rw [if_neg (Ne.symm hc), List.filter_cons_of_neg (by simpa using hc)]
  exact hadd d.declarations .empty

/-- A signature that is merged has candidates, and all of them are methods of components. -/
theorem of_mem_candidates (h : (s, cs) ∈ d.candidates.entries) : cs ≠ [] ∧
    ∀ c ∈ cs, c.component ∈ d.components ∧ c.method ∈ c.component.methods ∧ c.method.signature = s := by
  rw [← OrderedMap.get?_eq_some_iff, get?_candidates] at h
  split at h
  · cases h
  · next hne =>
    obtain rfl := Option.some.inj h
    refine ⟨hne, fun c hc => ?_⟩
    obtain ⟨hmem, hs⟩ := List.mem_filter.1 hc
    obtain ⟨hcomponent, hmethod⟩ := mem_declarations_iff.1 hmem
    exact ⟨hcomponent, hmethod, of_decide_eq_true hs⟩

/-- The signatures that are merged are those that components declare. -/
theorem mem_keys_candidates_iff : s ∈ d.candidates.keys ↔
    ∃ c ∈ d.components, ∃ m ∈ c.methods, m.signature = s := by
  constructor
  · intro h
    obtain ⟨⟨_, cs⟩, hmem, rfl⟩ := List.mem_map.1 h
    obtain ⟨hne, hcs⟩ := of_mem_candidates hmem
    obtain ⟨c, hc⟩ := List.exists_mem_of_ne_nil cs hne
    obtain ⟨hcomponent, hmethod, hs⟩ := hcs c hc
    exact ⟨_, hcomponent, _, hmethod, hs⟩
  · rintro ⟨c, hc, m, hm, rfl⟩
    have hmem : (⟨c, m⟩ : Candidate) ∈ d.declarations.filter (·.method.signature = m.signature) :=
      List.mem_filter.2 ⟨mem_declarations_iff.2 ⟨hc, hm⟩, decide_eq_true rfl⟩
    have hget := d.get?_candidates m.signature
    rw [if_neg (List.ne_nil_of_mem hmem)] at hget
    exact List.mem_map.2 ⟨_, OrderedMap.get?_eq_some_iff.1 hget, rfl⟩

/-! ### Merging -/

/-- Nothing but mistakes is reported of a signature. -/
theorem isError_of_mem_reports {report : Diagnostic}
    (h : report ∈ (d.mergeSignature p history s cs).reports) : report.isError = true := by
  unfold mergeSignature at h
  dsimp only at h
  split at h
  · obtain rfl := List.mem_singleton.1 h
    rfl
  split at h
  · cases h
  · obtain rfl := List.mem_singleton.1 h
    rfl

/-- A signature without reports has been merged. -/
theorem exists_merge_of_reports_eq_nil (h : (d.mergeSignature p history s cs).reports = []) :
    ∃ hook, d.facts.merge s cs (p.catalog.splices.aimedAt s) hook =
      .ok (d.mergeSignature p history s cs).plan := by
  unfold mergeSignature at h ⊢
  dsimp only at h ⊢
  split at h
  · cases h
  split at h
  · next hplan => exact ⟨_, hplan⟩
  · cases h

/-- A declared signature without reports has a plan, or a component says that the entity supplies the
    method. -/
theorem planned_or_internal (hmem : (s, cs) ∈ d.candidates.entries)
    (h : (d.mergeSignature p history s cs).reports = []) :
    (∃ plan, (d.mergeSignature p history s cs).plan = some plan ∧ plan.signature = s) ∨
      ∃ c ∈ d.components, ∃ m ∈ c.methods, m.signature = s ∧ m.internalImpl = true := by
  obtain ⟨hne, hcs⟩ := of_mem_candidates hmem
  obtain ⟨hook, hmerge⟩ := exists_merge_of_reports_eq_nil h
  cases hplan : (d.mergeSignature p history s cs).plan with
  | some plan =>
    rw [hplan] at hmerge
    obtain ⟨_, _, -, -, rfl⟩ := MergeFacts.merge_eq_ok_some hmerge
    exact .inl ⟨_, rfl, rfl⟩
  | none =>
    rw [hplan] at hmerge
    obtain ⟨c, hc, hinternal⟩ := (MergeFacts.merge_eq_ok_none hmerge).resolve_left hne
    obtain ⟨hcomponent, hmethod, hs⟩ := hcs c hc
    exact .inr ⟨_, hcomponent, _, hmethod, hs, hinternal⟩

/-! ### Finishing -/

/-- What became of the signatures of a draft. -/
def merged (p : Project) (d : Draft) (history : List Revision) : List Merged :=
  d.candidates.entries.map fun e => d.mergeSignature p history e.1 e.2

/-- The methods that the contracts of a draft's components have. -/
def promised (d : Draft) (contracts : OrderedMap String Contract) : List ContractMethod :=
  d.components.flatMap fun c => (contracts.get? c.name).elim [] (·.methods)

/-- The reports of components whose contracts are missing. -/
def missing (d : Draft) (contracts : OrderedMap String Contract) : List Diagnostic :=
  (d.components.filter fun c => !contracts.contains c.name).map fun c =>
    .ofError (.missingContract d.heading.name c.name) d.heading.blueprint.anchor

/-- What a finished draft has from its components, and what it reports. -/
structure FinishedFrom (p : Project) (contracts : OrderedMap String Contract) (d : Draft)
    (history : List Revision) (bases : OrderedMap String BaseClass) (f : Finished) : Prop where
  name : f.entity.name = d.heading.name
  components : f.entity.components = d.resolved
  fields : f.entity.fields = d.fields
  base : f.entity.base = d.heading.base
  revision : f.entity.revision = history.getLast?.map (·.version)
  plans : f.entity.plans = (d.merged p history).filterMap (·.plan)
  reports : f.reports = (d.merged p history).flatMap (·.reports) ++ d.missing contracts
  /-- The contracts are implemented one method behind the other, from a type with the fields, the
      methods of the plans and those that every entity has. -/
  workbench : ∃ (type : TypeDef) (planned : List (List SourceMethod)),
    (type.name = d.heading.name ∧ type.superclass = d.heading.base.map p.baseType ∧
      type.fields = d.fields.toSource) ∧
    (f.entity.plans.mapM MethodPlan.toSource? = some planned ∧
      type.methods = planned.flatten ++ d.plumbing d.candidates.keys f.entity.plans) ∧
    (d.promised contracts).foldl (implement p d d.candidates.keys) ⟨type, bases⟩ =
      ⟨f.entity.type, f.bases⟩

theorem finish?_eq_some (h : d.finish? p contracts history bases = some f) :
    FinishedFrom p contracts d history bases f := by
  unfold finish? at h
  obtain ⟨planned, hplanned, h⟩ := Option.bind_eq_some_iff.1 h
  rw [List.partition_eq_filter_filter] at h
  obtain rfl := Option.some.inj h
  refine ⟨rfl, rfl, rfl, rfl, rfl, rfl, rfl, _, planned, ⟨?_, ?_, ?_⟩, ⟨hplanned, ?_⟩, rfl⟩
  · exact TypeDef.name_foldl_addSuperinterface _ _
  · exact TypeDef.superclass_foldl_addSuperinterface _ _
  · exact TypeDef.fields_foldl_addSuperinterface _ _
  · exact TypeDef.methods_foldl_addSuperinterface _ _

/-- A draft whose plans become code is finished. -/
theorem exists_finish? {planned : List (List SourceMethod)}
    (h : ((d.merged p history).filterMap (·.plan)).mapM MethodPlan.toSource? = some planned) :
    ∃ f, d.finish? p contracts history bases = some f := by
  unfold finish?
  simp only [List.partition_eq_filter_filter]
  exact ⟨_, Option.bind_eq_some_iff.2 ⟨planned, h, rfl⟩⟩

/-- The type of an entity has the methods that every entity has. -/
theorem mem_methods_of_mem_plumbing (h : d.finish? p contracts history bases = some f)
    {m : SourceMethod} (hm : m ∈ d.plumbing d.candidates.keys f.entity.plans) :
    m ∈ f.entity.type.methods := by
  obtain ⟨type, planned, -, ⟨-, hmethods⟩, hbench⟩ := (finish?_eq_some h).workbench
  have hgrown := implementAll_grown p d d.candidates.keys ⟨type, bases⟩ (d.promised contracts)
  rw [hbench] at hgrown
  exact hgrown.type.mem_methods (hmethods ▸ List.mem_append_right _ hm)

namespace FinishedFrom

variable (hf : FinishedFrom p contracts d history bases f)

include hf

theorem isError_of_mem_reports {report : Diagnostic} (h : report ∈ f.reports) :
    report.isError = true := by
  rw [hf.reports, List.mem_append] at h
  rcases h with h | h
  · obtain ⟨merged, hmerged, h⟩ := List.mem_flatMap.1 h
    obtain ⟨e, -, rfl⟩ := List.mem_map.1 hmerged
    exact Draft.isError_of_mem_reports h
  · obtain ⟨_, -, rfl⟩ := List.mem_map.1 h
    rfl

theorem grown_bases : BaseClass.AllGrown bases f.bases := by
  obtain ⟨type, -, -, -, hbench⟩ := hf.workbench
  have hgrown := implementAll_grown p d d.candidates.keys ⟨type, bases⟩ (d.promised contracts)
  rw [hbench] at hgrown
  exact hgrown.bases

/-- The generated type of an entity has its name, its base class and its fields. -/
theorem type_eq : f.entity.type.name = d.heading.name ∧
    f.entity.type.superclass = d.heading.base.map p.baseType ∧
      f.entity.type.fields = d.fields.toSource := by
  obtain ⟨type, -, ⟨hname, hsuperclass, hfields⟩, -, hbench⟩ := hf.workbench
  have hgrown := implementAll_grown p d d.candidates.keys ⟨type, bases⟩ (d.promised contracts)
  rw [hbench] at hgrown
  exact ⟨hgrown.type.name_eq.trans hname, hgrown.type.superclass_eq.trans hsuperclass,
    hgrown.type.fields_eq.trans hfields⟩

end FinishedFrom

end Draft

end EntityWeaver
