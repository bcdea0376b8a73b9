import EntityWeaver.Entity
import EntityWeaver.Proofs.Except
import EntityWeaver.Proofs.FieldSet
import EntityWeaver.Proofs.Project

/-! Headings and drafts of blueprints.

    A heading says of its blueprint that all requested components exist, and which of them is
    foundational. A draft has all components that the requested ones resolve to; the base class that an
    entity extends covers some of these only. -/

namespace EntityWeaver

namespace Heading

variable {p : Project} {b : BlueprintDecl} {h : Heading}

/-- All requested names are those of components, and one of a foundational one is the one found. -/
theorem foundationalOf_eq_ok {entity : String} {found foundational : Option String}
    {names : List String} (h : foundationalOf p entity found names = .ok foundational) :
    (∀ name ∈ names, ∃ c, p.component? name = some c) ∧
      ∀ f, foundational = some f ↔ found = some f ∨
        f ∈ names ∧ ∃ c, p.component? f = some c ∧ c.foundational = true := by
  induction names generalizing found with
  | nil =>
    obtain rfl := Except.ok.inj h
    simp
  | cons name rest ih =>
    unfold foundationalOf at h
    split at h
    · cases h
    next c hc =>
    split at h
    · next hkind =>
      obtain ⟨hexist, hfound⟩ := ih h
      refine ⟨List.forall_mem_cons.2 ⟨⟨c, hc⟩, hexist⟩, fun f => ?_⟩
      rw [hfound, List.mem_cons]
      by_cases hf : f = name
      · simp [hf, hc, hkind]
      · simp [hf]
    · next hkind =>
      obtain ⟨hexist, hfound⟩ := ih h
      refine ⟨List.forall_mem_cons.2 ⟨⟨c, hc⟩, hexist⟩, fun f => ?_⟩
      rw [hfound, List.mem_cons, Option.some_inj]
      by_cases hf : f = name
      · simp [hf, hc, hkind]
      · simp [hf, Ne.symm hf]
    · cases h

/-- What a heading says of its blueprint. -/
theorem of_eq_ok (hh : of p b = .ok h) : h.blueprint = b ∧
    foundationalOf p (label b) none b.components = .ok h.foundational ∧
      h.name =
        if b.component.isNone &&
            h.foundational.any fun f => requestedName b == ComponentName.base f then
          requestedName b ++ "Entity"
        else requestedName b := by
  unfold of at hh
  split at hh
  · cases hh
  · obtain ⟨foundational, hfoundational, hh⟩ := bind_eq_ok.1 hh
    obtain rfl := Except.ok.inj hh
    exact ⟨rfl, hfoundational, rfl⟩

/-- The component whose base class an entity extends is a foundational one that is requested. -/
theorem base_eq_some (hh : of p b = .ok h) {f : String} (hf : h.base = some f) :
    f ∈ h.blueprint.components ∧ ∃ c, p.component? f = some c ∧ c.foundational = true := by
  obtain ⟨rfl, hfoundational, -⟩ := of_eq_ok hh
  unfold base at hf
  split at hf
  · cases hf
  · exact (((foundationalOf_eq_ok hfoundational).2 f).1 hf).resolve_left (by simp)

/-- An entity that goes by the name of a base class, though it is made from its component, extends
    none: the name is free only to the blueprints that are declared on a component. -/
theorem base_eq_none (hh : of p b = .ok h) {f : String} (hmem : f ∈ b.components) {c : ComponentDecl}
    (hc : p.component? f = some c) (hkind : c.foundational = true)
    (hname : h.name = ComponentName.base f) : h.base = none := by
  obtain ⟨rfl, hfoundational, hchosen⟩ := of_eq_ok hh
  have hfound := ((foundationalOf_eq_ok hfoundational).2 f).2 (.inr ⟨hmem, c, hc, hkind⟩)
  cases hdeclared : h.blueprint.component with
  | some _ => rw [base, hdeclared, Option.isSome_some, if_pos rfl]
  | none =>
    rw [hdeclared, hfound, hname, Option.isNone_none, Bool.true_and, Option.any_some] at hchosen
    split at hchosen
    · next hsame =>
      rw [beq_iff_eq.1 hsame] at hchosen
      have hlength := congrArg String.length hchosen
      rw [String.length_append] at hlength
      exact absurd hlength (Nat.ne_of_lt (Nat.lt_add_of_pos_right (by decide)))
    · next hother => exact absurd (beq_iff_eq.2 hchosen.symm) hother

/-- A heading resolves to components that exist. -/
theorem exists_component_of_mem_resolve (hkeyed : p.catalog.Keyed) (hh : of p b = .ok h)
    {name : String} (hname : name ∈ p.catalog.resolve h.blueprint.components) :
    ∃ c, p.component? name = some c := by
  obtain ⟨rfl, hfoundational, -⟩ := of_eq_ok hh
  rcases Catalog.mem_resolve_iff.1 hname with hname | ⟨requested, -, hdependency⟩
  · exact (foundationalOf_eq_ok hfoundational).1 name hname
  · obtain ⟨-, hpath⟩ := (Catalog.mem_dependencies_iff hkeyed).1 hdependency
    obtain ⟨_, -, _, c, -, hc, -⟩ := Relation.TransGen.tail'_iff.1 hpath
    exact ⟨c, hc⟩

/-- Whether an entity leaves a field of a component to the base class that it extends. -/
def hoists (p : Project) (h : Heading) (owner : String) (f : FieldDecl) : Bool :=
  (h.base.map p.catalog.withDependencies).any (·.contains owner) && f.isHoistable

theorem hoists_of_base_eq_none (hbase : h.base = none) (owner : String) (f : FieldDecl) :
    h.hoists p owner f = false := by
  rw [hoists, hbase]
  rfl

theorem hoists_eq_true_iff {component : String} (hbase : h.base = some component) {owner : String}
    {f : FieldDecl} : h.hoists p owner f = true ↔
      owner ∈ p.catalog.withDependencies component ∧ f.isHoistable = true := by
  rw [hoists, hbase, Option.map_some, Option.any_some, Bool.and_eq_true, List.contains_iff_mem]

end Heading

namespace Draft

variable {p : Project} {h : Heading}

/-- The components of a draft are those that the requested ones resolve to. -/
theorem mem_components_of {c : ComponentDecl} : c ∈ (of p h).1.components ↔
    ∃ name ∈ p.catalog.resolve h.blueprint.components, p.component? name = some c :=
  List.mem_filterMap

/-- The fields of a draft are those of its components, if no name is reported as taken. -/
theorem mem_fields_of_iff
    (hdistinct : ∀ report ∈ (of p h).2, ¬FieldSet.ReportsDuplicate h.name report) {m : MergedField} :
    m ∈ (of p h).1.fields.fields ↔ ∃ c ∈ (of p h).1.components, ∃ f ∈ c.fields,
      f.imported = false ∧ m = ⟨f, c.name, h.hoists p c.name f⟩ := by
  have hfields : (of p h).1.fields.fields = (FieldSet.owned (of p h).1.components).map fun f =>
      ⟨f.2, f.1, h.hoists p f.1 f.2⟩ := FieldSet.fields_merge hdistinct
  simp only [hfields, List.mem_map, Prod.exists, FieldSet.mem_owned_iff]
  constructor
  · rintro ⟨_, f, ⟨c, hc, rfl, hf, himported⟩, rfl⟩
    exact ⟨c, hc, f, hf, himported, rfl⟩
  · rintro ⟨c, hc, f, hf, himported, rfl⟩
    exact ⟨c.name, f, ⟨c, hc, rfl, hf, himported⟩, rfl⟩

/-- The fields of a draft have names of their own. -/
theorem names_nodup_of (p : Project) (h : Heading) : (of p h).1.fields.names.Nodup :=
  FieldSet.names_nodup_merge _ _

end Draft

end EntityWeaver
