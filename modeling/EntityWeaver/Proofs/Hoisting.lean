import EntityWeaver.Proofs.Blueprint
import EntityWeaver.Proofs.Project

/-! Fields that entities inherit.

    Which fields a base class declares and which fields an entity leaves to it is decided apart. The
    base class goes through the dependencies of its component by name and silently keeps the first
    field of each name. The entity goes through all its components in the order in which they resolve,
    and a name that comes again is reported. Where nothing is reported both find the same fields:

        base class   dependencies of F, F                           hoistable, first of each name
        entity       requested components, what they depend on      hoistable and covered by F

    So a field that the entity leaves out is declared by its base class, and no field is declared by
    both. -/

namespace EntityWeaver

namespace BaseClass

variable {taken : List String} {fs : List FieldDecl}

theorem mem_of_mem_firstByName {f : FieldDecl} (h : f ∈ firstByName taken fs) :
    f ∈ fs ∧ f.name ∉ taken := by
  fun_induction firstByName taken fs with
  | case1 => cases h
  | case2 taken g rest _ ih => exact (ih h).imp_left (List.mem_cons_of_mem _)
  | case3 taken g rest hnew ih =>
    rcases List.mem_cons.1 h with rfl | h
    · exact ⟨List.mem_cons_self, hnew⟩
    · obtain ⟨hmem, hfree⟩ := ih h
      exact ⟨List.mem_cons_of_mem _ hmem, fun htaken => hfree (List.mem_cons_of_mem _ htaken)⟩

/-- The fields that are kept have names of their own. -/
theorem names_nodup_firstByName (taken : List String) (fs : List FieldDecl) :
    ((firstByName taken fs).map (·.name)).Nodup := by
  fun_induction firstByName taken fs with
  | case1 => exact .nil
  | case2 => assumption
  | case3 taken g rest _ ih =>
    refine List.nodup_cons.2 ⟨fun hmem => ?_, ih⟩
    obtain ⟨f, hf, hname⟩ := List.mem_map.1 hmem
    exact (mem_of_mem_firstByName hf).2 (hname ▸ List.mem_cons_self)

/-- Of each name that is not taken a field is kept. -/
theorem exists_mem_firstByName {f : FieldDecl} (hf : f ∈ fs) (hfree : f.name ∉ taken) :
    ∃ g ∈ firstByName taken fs, g.name = f.name := by
  fun_induction firstByName taken fs with
  | case1 => cases hf
  | case2 taken g rest htaken ih =>
    rcases List.mem_cons.1 hf with rfl | hf
    · exact absurd htaken hfree
    · exact ih hf hfree
  | case3 taken g rest _ ih =>
    rcases List.mem_cons.1 hf with rfl | hf
    · exact ⟨f, List.mem_cons_self, rfl⟩
    · by_cases hname : f.name = g.name
      · exact ⟨g, List.mem_cons_self, hname.symm⟩
      · have hfree' : f.name ∉ g.name :: taken := fun hmem =>
          (List.mem_cons.1 hmem).elim hname hfree
        obtain ⟨first, hfirst, hfirstName⟩ := ih hf hfree'
        exact ⟨first, List.mem_cons_of_mem _ hfirst, hfirstName⟩

variable {p : Project}

theorem imported_of_isHoistable {f : FieldDecl} (h : f.isHoistable = true) : f.imported = false := by
  simp only [FieldDecl.isHoistable, Bool.and_eq_true, Bool.not_eq_true'] at h
  exact h.1.2

/-- The fields that a base class can declare: of its component and of all dependencies. -/
def hoistable (p : Project) (component : String) : List FieldDecl :=
  ((sources p.catalog component).filterMap p.component?).flatMap fun c =>
    c.fields.filter (·.isHoistable)

theorem fields_ofComponent (p : Project) (c : ComponentDecl) :
    (ofComponent p c).type.fields = (firstByName [] (hoistable p c.name)).map fieldOf :=
  TypeDef.fields_foldl_addSuperinterface _ _

theorem mem_sources_iff {component name : String} : name ∈ sources p.catalog component ↔
    name ∈ p.catalog.withDependencies component := by
  rw [sources, Catalog.withDependencies, mem_ascending, List.mem_append, List.mem_singleton,
    List.mem_cons, or_comm]

theorem mem_hoistable_iff (h : p.catalog.Keyed) {component : String} {f : FieldDecl} :
    f ∈ hoistable p component ↔ ∃ c, c.name ∈ p.catalog.withDependencies component ∧
      p.component? c.name = some c ∧ f ∈ c.fields ∧ f.isHoistable = true := by
  simp only [hoistable, List.mem_flatMap, List.mem_filterMap, List.mem_filter, mem_sources_iff]
  constructor
  · rintro ⟨c, ⟨name, hname, hc⟩, hf⟩
    obtain rfl := Catalog.name_of_component? h hc
    exact ⟨c, hname, hc, hf⟩
  · rintro ⟨c, hname, hc, hf⟩
    exact ⟨c, ⟨c.name, hname, hc⟩, hf⟩

theorem declares_fieldOf (f : FieldDecl) : (fieldOf f).Declares f where
  name := rfl
  type := rfl
  initializer := rfl
  annotations := rfl
  transient := by grind [fieldOf]
  volatile := by grind [fieldOf]

end BaseClass

namespace Draft

variable {p : Project} {h : Heading} {component : String}

/-- Where no name is reported as taken, the hoisted fields of a draft are those that the base class can
    declare. -/
theorem exists_hoisted_iff (hkeyed : p.catalog.Keyed) (hrequested : component ∈ h.blueprint.components)
    (hbase : h.base = some component)
    (hdistinct : ∀ report ∈ (of p h).2, ¬FieldSet.ReportsDuplicate h.name report) {f : FieldDecl} :
    (∃ m ∈ (of p h).1.fields.fields, m.hoisted = true ∧ m.decl = f) ↔
      f ∈ BaseClass.hoistable p component := by
  rw [BaseClass.mem_hoistable_iff hkeyed]
  simp only [mem_fields_of_iff hdistinct]
  constructor
  · rintro ⟨_, ⟨c, hc, f, hf, -, rfl⟩, hhoisted, rfl⟩
    obtain ⟨name, -, hc⟩ := mem_components_of.1 hc
    obtain rfl := Catalog.name_of_component? hkeyed hc
    obtain ⟨hcovered, hkind⟩ := (Heading.hoists_eq_true_iff hbase).1 hhoisted
    exact ⟨c, hcovered, hc, hf, hkind⟩
  · rintro ⟨c, hcovered, hc, hf, hkind⟩
    have hresolved := Catalog.mem_resolve_of_mem_withDependencies hrequested hcovered
    exact ⟨_, ⟨c, mem_components_of.2 ⟨c.name, hresolved, hc⟩, f, hf,
      BaseClass.imported_of_isHoistable hkind, rfl⟩,
        (Heading.hoists_eq_true_iff hbase).2 ⟨hcovered, hkind⟩, rfl⟩

/-- Then the base class keeps all that it can declare: two fields of one name would be one field of the
    draft. -/
theorem mem_firstByName_of_mem_hoistable (hkeyed : p.catalog.Keyed)
    (hrequested : component ∈ h.blueprint.components) (hbase : h.base = some component)
    (hdistinct : ∀ report ∈ (of p h).2, ¬FieldSet.ReportsDuplicate h.name report) {f : FieldDecl}
    (hf : f ∈ BaseClass.hoistable p component) :
    f ∈ BaseClass.firstByName [] (BaseClass.hoistable p component) := by
  have hhoisted := fun f => exists_hoisted_iff (f := f) hkeyed hrequested hbase hdistinct
  obtain ⟨g, hg, hname⟩ := BaseClass.exists_mem_firstByName hf List.not_mem_nil
  obtain ⟨m, hm, -, rfl⟩ := (hhoisted f).2 hf
  obtain ⟨n, hn, -, rfl⟩ := (hhoisted g).2 (BaseClass.mem_of_mem_firstByName hg).1
  rwa [List.inj_on_of_nodup_map (names_nodup_of p h) hm hn hname.symm]

end Draft

/-- Hoisting agrees with the base class. If no field name of a draft is reported as taken, the hoisted
    fields are those that the base class declares, declaration by declaration, and the entity declares
    none of them itself. -/
theorem Draft.hoisted_agree {settings : Settings} {s : Snapshot} {b : BlueprintDecl} {h : Heading}
    {component : String} {base : BaseClass}
    (hheading : Heading.of (.ofSnapshot settings s) b = .ok h) (hbase : h.base = some component)
    (hclass : (BaseClass.all (.ofSnapshot settings s)).get? component = some base)
    (hdistinct : ∀ report ∈ (Draft.of (.ofSnapshot settings s) h).2,
      ¬FieldSet.ReportsDuplicate h.name report) :
    let fields := (Draft.of (.ofSnapshot settings s) h).1.fields
    (base.type.fields.map (·.name)).Nodup ∧
      (∀ f ∈ fields.fields, f.hoisted = true →
        ∃ g ∈ base.type.fields, g.Declares f.decl) ∧
      (∀ g ∈ base.type.fields, ∃ f ∈ fields.fields, f.hoisted = true ∧
        g.Declares f.decl) ∧
      ∀ f ∈ fields.fields, base.type.hasField f.name = true →
        ∀ own ∈ fields.ownDeclarations, own.name ≠ f.name := by
  intro fields
  have hkeyed := s.keyed_ofSnapshot
  obtain ⟨c, hc, -, rfl⟩ := (BaseClass.get?_all_eq_some_iff hkeyed).1 hclass
  obtain rfl := Catalog.name_of_component? hkeyed hc
  have hrequested := (Heading.base_eq_some hheading hbase).1
  have hhoisted := fun f => exists_hoisted_iff (f := f) hkeyed hrequested hbase hdistinct
  have hsame : ∀ f ∈ fields.fields, ∀ g ∈ fields.fields, f.name = g.name → f = g := fun f hf g hg =>
    List.inj_on_of_nodup_map (names_nodup_of _ h) hf hg
  have hdeclared : ∀ g ∈ (BaseClass.ofComponent (.ofSnapshot settings s) c).type.fields,
      ∃ f ∈ fields.fields, f.hoisted = true ∧ BaseClass.fieldOf f.decl = g := by
    intro g hg
    rw [BaseClass.fields_ofComponent] at hg
    obtain ⟨f, hf, rfl⟩ := List.mem_map.1 hg
    obtain ⟨m, hm, hmhoisted, rfl⟩ := (hhoisted f).2 (BaseClass.mem_of_mem_firstByName hf).1
    exact ⟨m, hm, hmhoisted, rfl⟩
  refine ⟨?_, ?_, ?_, ?_⟩
  · rw [BaseClass.fields_ofComponent, List.map_map]
    exact BaseClass.names_nodup_firstByName _ _
  · intro f hf hfhoisted
    have hkept := mem_firstByName_of_mem_hoistable hkeyed hrequested hbase hdistinct
      ((hhoisted _).1 ⟨f, hf, hfhoisted, rfl⟩)
    refine ⟨BaseClass.fieldOf f.decl, ?_, BaseClass.declares_fieldOf _⟩
    rw [BaseClass.fields_ofComponent]
    exact List.mem_map_of_mem hkept
  · intro g hg
    obtain ⟨f, hf, hfhoisted, rfl⟩ := hdeclared g hg
    exact ⟨f, hf, hfhoisted, BaseClass.declares_fieldOf _⟩
  · intro f hf hfield own hown hname
    obtain ⟨g, hg, hgname⟩ := List.any_eq_true.1 hfield
    obtain ⟨m, hm, hmhoisted, rfl⟩ := hdeclared g hg
    obtain rfl := hsame m hm f hf (beq_iff_eq.1 hgname)
    obtain ⟨n, hn, rfl⟩ := List.mem_map.1 hown
    obtain ⟨hn, hnown⟩ := List.mem_filter.1 hn
    obtain rfl := hsame n hn m hm hname
    rw [hmhoisted] at hnown
    cases hnown

/-- A foundational component that depends on another one. -/
def hullComponent : ComponentDecl :=
  { name := "HullComp", foundational := true, markers := ["PosComp"]
    fields := [{ name := "id", type := "int", modifiers := { transient := true } }] }

def shipBlueprint : BlueprintDecl :=
  { name := some "Ship", components := ["HealthComp", "HullComp"], genIo := false }

/-- A ship has a base class that draws on two components, and a field of its own. -/
def shipyard : Snapshot where
  components := [
    { name := "HealthComp", fields := [{ name := "health", type := "float" }] },
    hullComponent,
    { name := "PosComp", fields := [{ name := "x", type := "float", initializer := some "1f" }] }]
  blueprints := [shipBlueprint]

def shipyardProject : Project := .ofSnapshot sampleSettings shipyard

def shipHeading : Heading := ⟨shipBlueprint, "Ship", some "HullComp"⟩

theorem resolve_ship : shipyardProject.catalog.resolve shipHeading.blueprint.components =
    ["HealthComp", "HullComp", "PosComp"] := by
  have hkeys : shipyardProject.catalog.components.keys = ["HealthComp", "HullComp", "PosComp"] := rfl
  have hhealthEdges : shipyardProject.catalog.edgesFrom "HealthComp" = ["HullComp"] := rfl
  have hhullEdges : shipyardProject.catalog.edgesFrom "HullComp" = ["PosComp"] := rfl
  have hposEdges : shipyardProject.catalog.edgesFrom "PosComp" = ["HullComp"] := rfl
  have hhealth : shipyardProject.catalog.dependencies "HealthComp" = ["HullComp", "PosComp"] :=
    ascending_eq_of_mem_iff (by decide) (by simp [reached, hkeys, hhealthEdges, hhullEdges, hposEdges])
  have hhull : shipyardProject.catalog.dependencies "HullComp" = ["PosComp"] :=
    ascending_eq_of_mem_iff (by decide) (by simp [reached, hkeys, hhullEdges, hposEdges])
  have hall : ascending (["HealthComp", "HullComp"].flatMap shipyardProject.catalog.dependencies) =
      ["HullComp", "PosComp"] :=
    ascending_eq_of_mem_iff (by decide) (by simp [hhealth, hhull])
  show _ ++ List.filter _ (ascending (["HealthComp", "HullComp"].flatMap _)) = _
  rw [hall]
  rfl

theorem reports_ship : (Draft.of shipyardProject shipHeading).2 = [] := by
  unfold Draft.of
  rw [resolve_ship]
  rfl

/-- The base class of the ship has both fields that the ship leaves out, in another order. -/
theorem Draft.hoisted_agree_ship : ∃ base,
    (BaseClass.all shipyardProject).get? "HullComp" = some base ∧
      (∀ f ∈ (Draft.of shipyardProject shipHeading).1.fields.fields, f.hoisted = true →
        ∃ g ∈ base.type.fields, g.Declares f.decl) ∧
      ∀ g ∈ base.type.fields, ∃ f ∈ (Draft.of shipyardProject shipHeading).1.fields.fields,
        f.hoisted = true ∧ g.Declares f.decl := by
  have hkeyed : shipyardProject.catalog.Keyed := shipyard.keyed_ofSnapshot
  have hclass := (BaseClass.get?_all_eq_some_iff hkeyed (a := "HullComp")).2
    ⟨hullComponent, rfl, rfl, rfl⟩
  have hdistinct : ∀ report ∈ (Draft.of shipyardProject shipHeading).2,
      ¬FieldSet.ReportsDuplicate shipHeading.name report := by
    rw [reports_ship]
    exact fun _ hmem => absurd hmem List.not_mem_nil
  have hagree := hoisted_agree (b := shipHeading.blueprint) rfl rfl hclass hdistinct
  exact ⟨_, hclass, hagree.2.1, hagree.2.2.1⟩

end EntityWeaver
