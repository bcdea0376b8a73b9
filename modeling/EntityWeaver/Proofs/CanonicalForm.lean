import EntityWeaver.Proofs.Catalog
import EntityWeaver.Proofs.ComponentName

/-! The canonical form of declarations.

    A reference is canonical when it is the name of a component, or when neither it nor anything that it
    may stand for as the name of a contract is. Taking a snapshot into the catalog makes every reference
    canonical and keeps the names of the components, so that a canonical reference stays as it is:

        declarations ──catalog──▶ canonical references
                                        │     ▲
                                        └─────┘  declared again

    What a catalog holds, declared again, therefore gives that catalog again, with the splices it had and
    the reports about those that are refused. Pointers that were left out are no longer there to report. -/

namespace EntityWeaver

/-! ### References -/

/-- The components that a directive refers to. -/
def Directive.references : Directive → List String
  | .remove c => [c]
  | .extend cs _ => cs
  | .insert _ block _ => block.toList
  | .wrap _ block => block.toList
  | _ => []

/-- The components that a method refers to. -/
def MethodDecl.references (m : MethodDecl) : List String :=
  m.directives.flatMap Directive.references

/-- The components that a component refers to. -/
def ComponentDecl.references (c : ComponentDecl) : List String :=
  c.markers ++ c.excludedGroups ++ c.methods.flatMap MethodDecl.references

/-- The components that a blueprint refers to. -/
def BlueprintDecl.references (b : BlueprintDecl) : List String := b.components ++ b.component.toList

namespace Catalog

/-- The components that a catalog refers to, in its declarations and in its splices. -/
def references (c : Catalog) : List String :=
  c.components.values.flatMap ComponentDecl.references ++
    c.blueprints.flatMap BlueprintDecl.references ++ c.splices.flatMap fun e => e.2.block.toList

/-- What a catalog holds, declared again. -/
def toSnapshot (c : Catalog) : Snapshot where
  components := c.components.values
  blueprints := c.blueprints
  pointers := c.pointers

end Catalog

/-- The block of a splice is one that its component refers to. -/
theorem Splice.mem_references_of_mem_requests {c : ComponentDecl} {signature : Signature}
    {splice : Splice} {anchor : Option Anchor} (h : (.ok (signature, splice), anchor) ∈ requests c)
    {r : String} (hr : r ∈ splice.block.toList) : r ∈ c.references := by
  obtain ⟨m, hm, d, hd, target, block, kind, rfl, hblock⟩ := exists_of_mem_requests h
  have hdirective : r ∈ d.references := by
    rcases hblock with ⟨after, rfl⟩ | rfl <;> exact hr
  refine List.mem_append_right _ (List.mem_flatMap.2 ⟨m, hm, ?_⟩)
  exact List.mem_flatMap.2 ⟨d, hd, hdirective⟩

namespace Snapshot

variable {s : Snapshot}

/-- A reference that leads nowhere else: it is the name of a component, or neither it nor anything that
    it may stand for is. -/
def IsCanonical (s : Snapshot) (reference : String) : Prop :=
  s.declares reference = true ∨
    ∀ name ∈ reference :: ComponentName.ofContract reference, s.declares name = false

theorem isCanonical_canonical (s : Snapshot) (reference : String) :
    s.IsCanonical (s.canonical reference) := by
  rcases s.canonical_cases reference with hdeclared | ⟨hsame, hnone⟩
  · exact .inl hdeclared
  · rw [hsame]
    cases h : s.declares reference with
    | true => exact .inl h
    | false => exact .inr (List.forall_mem_cons.2 ⟨h, hnone⟩)

/-- A canonical reference is kept. -/
theorem IsCanonical.canonical_eq {reference : String} (h : s.IsCanonical reference) :
    s.canonical reference = reference := by
  rcases h with hdeclared | hnone
  · rw [canonical, if_pos hdeclared]
  · obtain ⟨hself, hnone⟩ := List.forall_mem_cons.1 hnone
    have hfind : (ComponentName.ofContract reference).find? s.declares = none :=
      List.find?_eq_none.2 fun name hname => by simp [hnone name hname]
    rw [canonical, if_neg (by simp [hself]), hfind, Option.getD_none]

/-- References are canonical once they have been made so. -/
theorem canonical_canonical (s : Snapshot) (reference : String) :
    s.canonical (s.canonical reference) = s.canonical reference :=
  (s.isCanonical_canonical reference).canonical_eq

/-! ### Making declarations canonical -/

theorem references_canonicalDirective (s : Snapshot) (d : Directive) :
    (s.canonicalDirective d).references = d.references.map s.canonical := by
  cases d with
  | insert target block after => cases block <;> rfl
  | wrap target block => cases block <;> rfl
  | _ => rfl

theorem references_canonicalMethod (s : Snapshot) (m : MethodDecl) :
    (s.canonicalMethod m).references = m.references.map s.canonical := by
  simp only [MethodDecl.references, canonicalMethod, List.flatMap_map, List.map_flatMap,
    references_canonicalDirective]

theorem references_canonicalComponent (s : Snapshot) (c : ComponentDecl) :
    (s.canonicalComponent c).references = c.references.map s.canonical := by
  simp only [ComponentDecl.references, canonicalComponent, List.flatMap_map, List.map_append,
    List.map_flatMap, references_canonicalMethod]

theorem references_canonicalBlueprint (s : Snapshot) (b : BlueprintDecl) :
    (s.canonicalBlueprint b).references = b.references.map s.canonical := by
  simp only [BlueprintDecl.references, canonicalBlueprint, List.map_append, Option.toList_map]

/-- Every reference of a catalog is canonical. -/
theorem isCanonical_of_mem_references (hnames : (s.components.map (·.name)).Nodup) {r : String}
    (hr : r ∈ (Catalog.ofSnapshot s).references) : s.IsCanonical r := by
  have hmade : ∀ rs : List String, r ∈ rs.map s.canonical → s.IsCanonical r := by
    intro rs h
    obtain ⟨reference, -, rfl⟩ := List.mem_map.1 h
    exact s.isCanonical_canonical reference
  have hcomponent : ∀ c, r ∈ (s.canonicalComponent c).references → s.IsCanonical r := fun c h =>
    hmade _ (s.references_canonicalComponent c ▸ h)
  simp only [Catalog.references, List.mem_append, List.mem_flatMap] at hr
  rcases hr with (⟨c, hc, hr⟩ | ⟨b, hb, hr⟩) | ⟨⟨signature, splice⟩, he, hr⟩
  · obtain ⟨e, he, rfl⟩ := List.mem_map.1 hc
    rw [entries_ofSnapshot hnames] at he
    obtain ⟨c, -, rfl⟩ := List.mem_map.1 he
    exact hcomponent c hr
  · obtain ⟨b, -, rfl⟩ := List.mem_map.1 hb
    exact hmade _ (s.references_canonicalBlueprint b ▸ hr)
  · obtain ⟨⟨request, anchor⟩, hrequest, hok⟩ := List.mem_filterMap.1 he
    obtain ⟨d, hd, hrequest⟩ := List.mem_flatMap.1 hrequest
    obtain ⟨c, -, rfl⟩ := List.mem_map.1 hd
    cases request with
    | error e => cases hok
    | ok request =>
      obtain rfl := Option.some.inj hok
      exact hcomponent c (Splice.mem_references_of_mem_requests hrequest hr)

theorem canonicalDirective_canonicalDirective (s : Snapshot) (d : Directive) :
    s.canonicalDirective (s.canonicalDirective d) = s.canonicalDirective d := by
  cases d <;> simp [canonicalDirective, canonical_canonical, Function.comp_def]

theorem canonicalComponent_canonicalComponent (s : Snapshot) (c : ComponentDecl) :
    s.canonicalComponent (s.canonicalComponent c) = s.canonicalComponent c := by
  simp [canonicalComponent, canonicalMethod, canonical_canonical,
    canonicalDirective_canonicalDirective, Function.comp_def]

theorem canonicalBlueprint_canonicalBlueprint (s : Snapshot) (b : BlueprintDecl) :
    s.canonicalBlueprint (s.canonicalBlueprint b) = s.canonicalBlueprint b := by
  simp [canonicalBlueprint, canonical_canonical, Function.comp_def]

end Snapshot

/-! ### Declared again -/

namespace Catalog

variable {s : Snapshot}

theorem components_toSnapshot (hnames : (s.components.map (·.name)).Nodup) :
    (ofSnapshot s).toSnapshot.components = s.components.map s.canonicalComponent := by
  rw [toSnapshot, OrderedMap.values, Snapshot.entries_ofSnapshot hnames, List.map_map]
  rfl

/-- The same names are declared again. -/
theorem declares_toSnapshot (hnames : (s.components.map (·.name)).Nodup) :
    (ofSnapshot s).toSnapshot.declares = s.declares := by
  refine Snapshot.declares_eq_of_names ?_
  rw [components_toSnapshot hnames, List.map_map]
  rfl

/-- The references of a catalog are canonical. What it holds, declared again, gives that catalog, but
    for the contracts, and the same reports but those about pointers that are left out. -/
theorem ofSnapshot_toSnapshot (hnames : (s.components.map (·.name)).Nodup) :
    (∀ r ∈ (ofSnapshot s).references, s.IsCanonical r) ∧
      ofSnapshot (ofSnapshot s).toSnapshot = { ofSnapshot s with contracts := .empty } ∧
      diagnostics s = diagnostics (ofSnapshot s).toSnapshot ++
        (s.pointers.filter (!·.hasFactory)).map fun p =>
          .ofError (.missingFactory p.simpleName) p.anchor := by
  have hdeclares := declares_toSnapshot hnames
  have hcomponents : (ofSnapshot s).toSnapshot.components.map
      (ofSnapshot s).toSnapshot.canonicalComponent = s.components.map s.canonicalComponent := by
    rw [components_toSnapshot hnames, Snapshot.canonicalComponent_eq hdeclares, List.map_map]
    exact List.map_congr_left fun c _ => s.canonicalComponent_canonicalComponent c
  have hblueprints : (ofSnapshot s).toSnapshot.blueprints.map
      (ofSnapshot s).toSnapshot.canonicalBlueprint = s.blueprints.map s.canonicalBlueprint := by
    rw [Snapshot.canonicalBlueprint_eq hdeclares]
    refine List.map_map.trans (List.map_congr_left fun b _ => ?_)
    exact s.canonicalBlueprint_canonicalBlueprint b
  have hpointers : (ofSnapshot s).toSnapshot.pointers.filter (·.hasFactory) =
      s.pointers.filter (·.hasFactory) := by
    refine List.filter_eq_self.2 fun p hp => ?_
    exact (List.mem_filter.1 hp).2
  have hleft : (ofSnapshot s).toSnapshot.pointers.filter (!·.hasFactory) = [] := by
    refine List.filter_eq_nil_iff.2 fun p hp => ?_
    simpa using (List.mem_filter.1 hp).2
  refine ⟨fun r hr => Snapshot.isCanonical_of_mem_references hnames hr, ?_, ?_⟩
  · rw [ofSnapshot, hcomponents, hblueprints, hpointers]
    rfl
  · rw [diagnostics, diagnostics, hcomponents, hleft, List.map_nil, List.append_nil]

end Catalog

/-- References by contract in every place, one of them to no component, a wrap that is refused and a
    pointer without a factory. -/
def convoy : Snapshot where
  components := [
    { name := "ShipComp", markers := ["Hullc", "Drawc"], excludedGroups := ["Hullc"]
      methods := [{
        name := "sail"
        directives := [.remove "Hullc", .extend ["Hullc"] .all,
          .insert "update()" (some "Hullc") true, .wrap "update()" (some "Hullc")] }] },
    { name := "Hull" }]
  blueprints := [{ components := ["Shipc", "Hullc"], component := some "Hullc" }]
  pointers := [{ name := "mymod.world.Buoy", hasFactory := false }]

theorem Catalog.ofSnapshot_toSnapshot_convoy :
    (convoy.components.map (·.name)).Nodup ∧
      (ofSnapshot convoy).references = ["Hull", "Drawc", "Hull", "Hull", "Hull", "Hull", "Hull",
        "ShipComp", "Hull", "Hull", "Hull"] ∧
      convoy.IsCanonical "Drawc" ∧
      (ofSnapshot (ofSnapshot convoy).toSnapshot).splices = (ofSnapshot convoy).splices ∧
      (diagnostics convoy).length = (diagnostics (ofSnapshot convoy).toSnapshot).length + 1 := by
  have hnames : (convoy.components.map (·.name)).Nodup := by decide
  have hreferences : (ofSnapshot convoy).references = ["Hull", "Drawc", "Hull", "Hull", "Hull",
      "Hull", "Hull", "ShipComp", "Hull", "Hull", "Hull"] := by decide
  obtain ⟨hcanonical, hagain, hreports⟩ := ofSnapshot_toSnapshot hnames
  refine ⟨hnames, hreferences, hcanonical _ (by rw [hreferences]; decide), ?_, ?_⟩
  · rw [hagain]
  · rw [hreports, List.length_append]
    rfl

end EntityWeaver
