import EntityWeaver.BaseClass
import EntityWeaver.Contract
import EntityWeaver.Proofs.Dependency

/-! What a project holds for each component.

    The catalog of a snapshot has every component under its own name. So the contract and the base
    class that a project has for a name are those of the component of that name. -/

namespace EntityWeaver

namespace Catalog

variable {c : Catalog} {a : String}

/-- The component found under a name has that name. -/
theorem name_of_component? (h : c.Keyed) {x : ComponentDecl} (hx : c.component? a = some x) :
    x.name = a :=
  h _ (OrderedMap.get?_eq_some_iff.1 hx)

theorem mem_values_iff (h : c.Keyed) {x : ComponentDecl} :
    x ∈ c.components.values ↔ c.component? x.name = some x := by
  rw [OrderedMap.values, List.mem_map, component?, OrderedMap.get?_eq_some_iff]
  constructor
  · rintro ⟨e, he, rfl⟩
    rwa [h e he]
  · intro hx
    exact ⟨_, hx, rfl⟩

theorem names_nodup (h : c.Keyed) : (c.components.values.map (·.name)).Nodup := by
  have hnames : c.components.values.map (·.name) = c.components.keys := by
    rw [OrderedMap.values, OrderedMap.keys, List.map_map]
    exact List.map_congr_left h
  rw [hnames]
  exact c.components.distinct

/-- A selection resolves to what is requested and to what that depends on. -/
theorem mem_resolve_iff {requested : List String} :
    a ∈ c.resolve requested ↔ a ∈ requested ∨ ∃ r ∈ requested, a ∈ c.dependencies r := by
  simp only [resolve, List.mem_append, List.mem_eraseDups, List.mem_filter, mem_ascending,
    List.mem_flatMap, Bool.not_eq_true', List.contains_eq_mem, decide_eq_false_iff_not]
  tauto

/-- What a requested component covers is resolved. -/
theorem mem_resolve_of_mem_withDependencies {requested : List String} {r : String}
    (hr : r ∈ requested) (h : a ∈ c.withDependencies r) : a ∈ c.resolve requested := by
  rw [withDependencies, mem_ascending, List.mem_cons] at h
  rcases h with rfl | h
  · exact mem_resolve_iff.2 (.inl hr)
  · exact mem_resolve_iff.2 (.inr ⟨r, hr, h⟩)

/-- A component without edges depends on nothing. -/
theorem dependencies_of_edgesFrom_eq_nil (h : c.edgesFrom a = []) : c.dependencies a = [] := by
  rw [dependencies, h, reached, ascending_nil]

/-- A selection of components without edges resolves to itself. -/
theorem resolve_of_edgesFrom_eq_nil {requested : List String}
    (h : ∀ r ∈ requested, c.edgesFrom r = []) : c.resolve requested = requested.eraseDups := by
  have hdependencies : requested.flatMap c.dependencies = [] :=
    List.flatMap_eq_nil_iff.2 fun r hr => dependencies_of_edgesFrom_eq_nil (h r hr)
  rw [resolve, hdependencies, ascending_nil, List.filter_nil, List.append_nil]

end Catalog

/-- Each component of a snapshot stands in the catalog under its own name. -/
theorem Snapshot.keyed_ofSnapshot (s : Snapshot) : (Catalog.ofSnapshot s).Keyed := by
  intro e he
  obtain ⟨c, -, rfl⟩ := List.mem_map.1 (OrderedMap.mem_of_mem_entries_ofList he)
  rfl

/-- A component of the catalog of a snapshot is one that the snapshot declares. -/
theorem Snapshot.exists_of_component? {s : Snapshot} {name : String} {c : ComponentDecl}
    (h : (Catalog.ofSnapshot s).component? name = some c) :
    ∃ d ∈ s.components, d.name = name ∧ s.canonicalComponent d = c := by
  have hmem := OrderedMap.mem_of_mem_entries_ofList (OrderedMap.get?_eq_some_iff.1 h)
  simp only [List.mem_map, exists_exists_and_eq_and, Prod.mk.injEq] at hmem
  exact hmem

/-- Settings with nothing unusual about them. -/
def sampleSettings : Settings where
  moduleName := "mymod"
  outputPackage := "mymod.gen"
  importPackage := "mindustry.gen"
  revisionDir := "revisions"

variable {p : Project} {a : String}

namespace Project

/-- The types of a component that is not imported are named without their package. -/
theorem qualify_of_not_imported (h : p.isImported a = false) (simple : String) :
    p.qualify a simple = simple := by
  simp [qualify, packageOf, h]

theorem isImported_eq {c : ComponentDecl} (h : p.component? a = some c) :
    p.isImported a = c.imported := by
  rw [isImported, h, Option.any_some]

/-- Where no component of a snapshot is imported none of its project is. -/
theorem isImported_ofSnapshot {settings : Settings} {s : Snapshot}
    (h : ∀ c ∈ s.components, c.imported = false) (name : String) :
    (ofSnapshot settings s).isImported name = false := by
  cases hc : (ofSnapshot settings s).component? name with
  | none => rw [isImported, hc, Option.any_none]
  | some c =>
    obtain ⟨d, hd, -, rfl⟩ := Snapshot.exists_of_component? hc
    exact (isImported_eq hc).trans (h d hd)

end Project

namespace Contract

theorem of?_of_not_imported {c : ComponentDecl} (h : c.imported = false) :
    of? p c = some (ofComponent p c) := by
  rw [of?, h]
  rfl

/-- The contracts of a project in declaration order, each with the name of its component. -/
theorem entries_all (h : p.catalog.Keyed) :
    (all p).entries = p.catalog.components.values.filterMap fun c => (of? p c).map (c.name, ·) := by
  have hnames := Catalog.names_nodup h
  refine OrderedMap.entries_ofList (hnames.sublist ?_)
  induction p.catalog.components.values with
  | nil => exact .slnil
  | cons c rest ih => cases hc : of? p c <;> simp [hc, ih]

theorem get?_all_eq_some_iff (h : p.catalog.Keyed) {x : Contract} :
    (all p).get? a = some x ↔ ∃ c, p.component? a = some c ∧ of? p c = some x := by
  simp only [OrderedMap.get?_eq_some_iff, entries_all h, List.mem_filterMap, Catalog.mem_values_iff h,
    Option.map_eq_some_iff, Prod.mk.injEq]
  constructor
  · rintro ⟨c, hc, _, hx, rfl, rfl⟩
    exact ⟨c, hc, hx⟩
  · rintro ⟨c, hc, hx⟩
    obtain rfl := Catalog.name_of_component? h hc
    exact ⟨c, hc, x, hx, rfl, rfl⟩

end Contract

namespace BaseClass

/-- The base classes of a project in declaration order, each with the name of its component. -/
theorem entries_all (h : p.catalog.Keyed) :
    (all p).entries = (p.catalog.components.values.filter (isEligible p.catalog)).map fun c =>
      (c.name, ofComponent p c) := by
  refine OrderedMap.entries_ofList ((Catalog.names_nodup h).sublist ?_)
  rw [List.map_map]
  exact List.filter_sublist.map _

theorem get?_all_eq_some_iff (h : p.catalog.Keyed) {b : BaseClass} :
    (all p).get? a = some b ↔
      ∃ c, p.component? a = some c ∧ isEligible p.catalog c = true ∧ ofComponent p c = b := by
  simp only [OrderedMap.get?_eq_some_iff, entries_all h, List.mem_map, List.mem_filter,
    Catalog.mem_values_iff h, Prod.mk.injEq]
  constructor
  · rintro ⟨c, ⟨hc, heligible⟩, rfl, rfl⟩
    exact ⟨c, hc, heligible, rfl⟩
  · rintro ⟨c, hc, heligible, rfl⟩
    obtain rfl := Catalog.name_of_component? h hc
    exact ⟨c, ⟨hc, heligible⟩, rfl, rfl⟩

theorem name_ofComponent (p : Project) (c : ComponentDecl) :
    (ofComponent p c).type.name = ComponentName.base c.name :=
  TypeDef.name_foldl_addSuperinterface _ _

theorem map_name_all (h : p.catalog.Keyed) : (all p).values.map (·.type.name) =
    (p.catalog.components.values.filter (isEligible p.catalog)).map fun c =>
      ComponentName.base c.name := by
  rw [OrderedMap.values, entries_all h, List.map_map, List.map_map]
  exact List.map_congr_left fun c _ => name_ofComponent p c

theorem component_of_get?_all (h : p.catalog.Keyed) {b : BaseClass} (hb : (all p).get? a = some b) :
    b.component = a := by
  obtain ⟨c, hc, -, rfl⟩ := (get?_all_eq_some_iff h).1 hb
  exact Catalog.name_of_component? h hc

end BaseClass

end EntityWeaver
