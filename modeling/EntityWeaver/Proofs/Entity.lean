import EntityWeaver.Entity
import EntityWeaver.Proofs.Catalog
import EntityWeaver.Proofs.OrderedMap

/-! Entities of the same declarations.

    A project whose catalog holds the same in another order makes the same of every blueprint: the
    heading, the draft, the plan of each signature and, given the same history, the entity. Contracts
    and base classes are the same too, each under the name of its component, and gain the same
    accessors. Only the order of their tables differs. -/

namespace EntityWeaver

/-- Two projects of the same declarations. -/
structure Project.Alike (p q : Project) : Prop where
  settings : p.settings = q.settings
  codecs : p.codecs = q.codecs
  catalog : p.catalog.Alike q.catalog

namespace Project.Alike

variable {p q : Project}

theorem symm (h : p.Alike q) : q.Alike p := ⟨h.settings.symm, h.codecs.symm, h.catalog.symm⟩

theorem component?_eq (h : p.Alike q) : p.component? = q.component? := h.catalog.component?_eq

theorem isImported_eq (h : p.Alike q) : p.isImported = q.isImported := by
  unfold isImported
  rw [h.component?_eq]

theorem qualify_eq (h : p.Alike q) : p.qualify = q.qualify := by
  unfold qualify packageOf
  rw [h.isImported_eq, h.settings]

theorem contractType_eq (h : p.Alike q) : p.contractType = q.contractType := by
  unfold contractType
  rw [h.qualify_eq]

theorem baseType_eq (h : p.Alike q) : p.baseType = q.baseType := by
  unfold baseType
  rw [h.qualify_eq]

theorem importsOf_eq (h : p.Alike q) : p.importsOf = q.importsOf := by
  unfold importsOf
  rw [h.component?_eq]

end Project.Alike

section Alike

variable {p q : Project}

theorem Contract.of?_eq (h : p.Alike q) : Contract.of? p = Contract.of? q := by
  unfold of? ofComponent superinterfacesOf
  rw [h.component?_eq, h.contractType_eq, h.catalog.dependencies_eq, h.catalog.contracts]

theorem BaseClass.ofComponent_eq (h : p.Alike q) :
    BaseClass.ofComponent p = BaseClass.ofComponent q := by
  unfold ofComponent sources
  rw [h.component?_eq, h.contractType_eq, h.catalog.dependencies_eq]

theorem BaseClass.isEligible_eq (h : p.Alike q) :
    BaseClass.isEligible p.catalog = BaseClass.isEligible q.catalog := by
  unfold isEligible Catalog.isBlueprintBase
  rw [h.catalog.blueprints]

theorem Heading.foundationalOf_eq (h : p.Alike q) (entity : String) (found : Option String)
    (names : List String) :
    foundationalOf p entity found names = foundationalOf q entity found names := by
  induction names generalizing found with
  | nil => rfl
  | cons name rest ih =>
    unfold foundationalOf
    rw [h.component?_eq]
    simp only [ih]

theorem Heading.of_eq (h : p.Alike q) : Heading.of p = Heading.of q := by
  funext b
  unfold of
  simp only [foundationalOf_eq h]

theorem Draft.of_eq (h : p.Alike q) : Draft.of p = Draft.of q := by
  unfold of
  rw [h.component?_eq, h.settings, h.catalog.resolve_eq, h.catalog.withDependencies_eq]

theorem Draft.stream_eq (h : p.Alike q) : Draft.stream p = Draft.stream q := by
  unfold stream
  rw [h.codecs]

/-- Merging sees of all splices those that act. -/
theorem MergeFacts.merge_congr {facts : MergeFacts} {xs ys : List Splice}
    (h : facts.activeSplices xs = facts.activeSplices ys) (signature : Signature)
    (candidates : List Candidate) (hook : Option CodeHook) :
    facts.merge signature candidates xs hook = facts.merge signature candidates ys hook := by
  unfold merge select
  rw [h]

theorem Draft.mergeSignature_eq (h : p.Alike q) : Draft.mergeSignature p = Draft.mergeSignature q := by
  funext d history signature candidates
  unfold mergeSignature
  rw [stream_eq h]
  simp only [MergeFacts.merge_congr (h.catalog.splices d.facts signature)]

/-- The contracts of a project do not depend on the order of its components. -/
theorem Contract.all_perm (h : p.Alike q) : (all p).entries.Perm (all q).entries := by
  rw [entries_all h.catalog.keyed, entries_all h.symm.catalog.keyed, of?_eq h]
  exact h.catalog.values_perm.filterMap _

/-- Nor do its base classes. -/
theorem BaseClass.all_perm (h : p.Alike q) : (all p).entries.Perm (all q).entries := by
  rw [entries_all h.catalog.keyed, entries_all h.symm.catalog.keyed, isEligible_eq h,
    ofComponent_eq h]
  exact (h.catalog.values_perm.filter _).map _

end Alike

namespace Draft

variable {p q : Project}

/-- The same type, and the same base classes in any order. -/
structure Workbench.Alike (w w' : Workbench) : Prop where
  type : w.type = w'.type
  bases : w.bases.entries.Perm w'.bases.entries

variable {w w' : Workbench}

theorem placeAccessor_alike (h : p.Alike q) (hw : w.Alike w') (base : Option String)
    (field : MergedField) (accessor : SourceMethod) :
    (placeAccessor p base field w accessor).Alike (placeAccessor q base field w' accessor) := by
  obtain ⟨type, bases⟩ := w
  obtain ⟨type', bases'⟩ := w'
  obtain ⟨rfl, hbases⟩ := hw
  unfold placeAccessor
  rw [h.isImported_eq, OrderedMap.get?_eq_of_perm hbases]
  split
  · split
    · exact ⟨rfl, hbases⟩
    · exact ⟨rfl, OrderedMap.modify_perm hbases _ _⟩
  · split
    · exact ⟨rfl, hbases⟩
    · split
      · exact ⟨rfl, hbases⟩
      · exact ⟨rfl, hbases⟩

theorem implement_alike (h : p.Alike q) (hw : w.Alike w') (d : Draft) (declared : List Signature)
    (m : ContractMethod) : (implement p d declared w m).Alike (implement q d declared w' m) := by
  unfold implement
  split
  · exact hw
  · split
    · exact hw
    · split
      · exact hw
      · exact placeAccessor_alike h hw _ _ _

theorem implementAll_alike (h : p.Alike q) (hw : w.Alike w') (d : Draft) (declared : List Signature)
    (promised : List ContractMethod) : (promised.foldl (implement p d declared) w).Alike
      (promised.foldl (implement q d declared) w') := by
  induction promised generalizing w w' with
  | nil => exact hw
  | cons m rest ih => exact ih (implement_alike h hw d declared m)

/-- A draft is finished alike. -/
theorem finish?_alike (h : p.Alike q) {contracts contracts' : OrderedMap String Contract}
    {bases bases' : OrderedMap String BaseClass} (hcontracts : contracts.entries.Perm contracts'.entries)
    (hbases : bases.entries.Perm bases'.entries) {d : Draft} {history : List Revision} {f : Finished}
    (hf : d.finish? p contracts history bases = some f) :
    ∃ f', d.finish? q contracts' history bases' = some f' ∧ f'.entity = f.entity ∧
      f.bases.entries.Perm f'.bases.entries := by
  unfold finish? plumbingImports at hf ⊢
  rw [← OrderedMap.contains_eq_of_perm hcontracts, ← OrderedMap.get?_eq_of_perm hcontracts,
    ← h.baseType_eq, ← h.contractType_eq, ← h.settings, ← mergeSignature_eq h]
  obtain ⟨planned, hplanned, hf⟩ := Option.bind_eq_some_iff.1 hf
  dsimp only at hplanned hf ⊢
  rw [hplanned]
  cases hf
  -- all that differs now is the base classes that the accessors start from
  have halike : ∀ (type : TypeDef) (promised : List ContractMethod),
      (promised.foldl (implement p d d.candidates.keys) ⟨type, bases⟩).Alike
        (promised.foldl (implement q d d.candidates.keys) ⟨type, bases'⟩) := by
    intro type promised
    have hstart : Workbench.Alike ⟨type, bases⟩ ⟨type, bases'⟩ := ⟨rfl, hbases⟩
    exact implementAll_alike h hstart d d.candidates.keys promised
  refine ⟨_, rfl, ?_, (halike _ _).bases⟩
  simp only [(halike _ _).type]

end Draft

end EntityWeaver
