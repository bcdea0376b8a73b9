import EntityWeaver.Proofs.Catalog
import EntityWeaver.Proofs.ComponentName

/-! Inheritance among contracts.

    The contract of a component extends those of its dependencies. An ordinary component depends on
    every foundational one without saying so; contracts can therefore extend one another in a circle
    although no markers do:

        PosComp (foundational)  ──marks──▶  EntityComp          Posc extends Entityc
                 ▲                              │
                 └────── for being ordinary ────┘               Entityc extends Posc

    Only entangled components get into a circle: a foundational one whose markers lead to an ordinary
    one, and an ordinary one that the markers of a foundational one lead to. Any two of these depend on
    each other. So there is a circle just when two contracts belong to entangled components. -/

namespace EntityWeaver

/-- No path leads from anything back to it. -/
def Acyclic {α : Type} (r : α → α → Prop) : Prop := ∀ a, ¬Relation.TransGen r a a

namespace Catalog

variable {c : Catalog} {a b : String}

/-- One component names another among its markers. -/
def Marks (c : Catalog) (a b : String) : Prop :=
  ∃ x y, c.component? a = some x ∧ c.component? b = some y ∧ b ∈ x.markers

def IsFoundational (c : Catalog) (a : String) : Prop :=
  ∃ x, c.component? a = some x ∧ x.foundational = true

def IsOrdinary (c : Catalog) (a : String) : Prop :=
  ∃ x, c.component? a = some x ∧ x.foundational = false

/-- Markers lead from a foundational component to an ordinary one, of which this is either. -/
def Entangled (c : Catalog) (a : String) : Prop :=
  (c.IsFoundational a ∧ ∃ n, c.IsOrdinary n ∧ Relation.TransGen c.Marks a n) ∨
    c.IsOrdinary a ∧ ∃ f, c.IsFoundational f ∧ Relation.TransGen c.Marks f a

theorem IsFoundational.not_isOrdinary (hf : c.IsFoundational a) : ¬c.IsOrdinary a := by
  rintro ⟨y, hy, hordinary⟩
  obtain ⟨x, hx, hfoundational⟩ := hf
  obtain rfl := Option.some.inj (hx.symm.trans hy)
  rw [hfoundational] at hordinary
  cases hordinary

theorem hasEdge_iff : c.HasEdge a b ↔ c.Marks a b ∨ c.IsOrdinary a ∧ c.IsFoundational b := by
  constructor
  · rintro ⟨x, y, hx, hy, hmarker | ⟨hordinary, hfoundational⟩⟩
    · exact .inl ⟨x, y, hx, hy, hmarker⟩
    · exact .inr ⟨⟨x, hx, hordinary⟩, y, hy, hfoundational⟩
  · rintro (⟨x, y, hx, hy, hmarker⟩ | ⟨⟨x, hx, hordinary⟩, y, hy, hfoundational⟩)
    · exact ⟨x, y, hx, hy, .inl hmarker⟩
    · exact ⟨x, y, hx, hy, .inr ⟨hordinary, hfoundational⟩⟩

theorem Marks.hasEdge (h : c.Marks a b) : c.HasEdge a b := hasEdge_iff.2 (.inl h)

theorem transGen_hasEdge_of_marks (h : Relation.TransGen c.Marks a b) :
    Relation.TransGen c.HasEdge a b :=
  Relation.TransGen.mono (fun _ _ => Marks.hasEdge) _ _ h

/-- A path goes along markers, at least up to an ordinary component. -/
theorem marks_or_exists_ordinary (h : Relation.TransGen c.HasEdge a b) :
    Relation.TransGen c.Marks a b ∨ ∃ n, c.IsOrdinary n ∧ Relation.ReflTransGen c.Marks a n := by
  induction h with
  | single hedge =>
    rcases hasEdge_iff.1 hedge with hmarks | ⟨hordinary, -⟩
    · exact .inl (.single hmarks)
    · exact .inr ⟨a, hordinary, .refl⟩
  | tail _ hedge ih =>
    rcases ih with hpath | hordinary
    · rcases hasEdge_iff.1 hedge with hmarks | ⟨hordinary, -⟩
      · exact .inl (hpath.tail hmarks)
      · exact .inr ⟨_, hordinary, hpath.to_reflTransGen⟩
    · exact .inr hordinary

/-- A path goes along markers, at least from a foundational component on. -/
theorem marks_or_exists_foundational (h : Relation.TransGen c.HasEdge a b) :
    Relation.TransGen c.Marks a b ∨
      ∃ f, c.IsFoundational f ∧ Relation.ReflTransGen c.Marks f b := by
  induction h with
  | single hedge =>
    rcases hasEdge_iff.1 hedge with hmarks | ⟨-, hfoundational⟩
    · exact .inl (.single hmarks)
    · exact .inr ⟨_, hfoundational, .refl⟩
  | tail _ hedge ih =>
    rcases hasEdge_iff.1 hedge with hmarks | ⟨-, hfoundational⟩
    · rcases ih with hpath | ⟨f, hfoundational, hpath⟩
      · exact .inl (hpath.tail hmarks)
      · exact .inr ⟨f, hfoundational, hpath.tail hmarks⟩
    · exact .inr ⟨_, hfoundational, .refl⟩

/-- Where markers do not go round in a circle, a component that a path leads back to is entangled. -/
theorem entangled_of_transGen_self (hmarkers : Acyclic c.Marks)
    (h : Relation.TransGen c.HasEdge a a) : c.Entangled a := by
  obtain ⟨n, hordinary, hto⟩ := (marks_or_exists_ordinary h).resolve_left (hmarkers a)
  obtain ⟨f, hfoundational, hfrom⟩ := (marks_or_exists_foundational h).resolve_left (hmarkers a)
  -- an ordinary component ends the markers that lead to it, a foundational one begins those from it
  rcases Relation.reflTransGen_iff_eq_or_transGen.1 hto with rfl | hto
  · rcases Relation.reflTransGen_iff_eq_or_transGen.1 hfrom with rfl | hfrom
    · exact absurd hordinary hfoundational.not_isOrdinary
    · exact .inr ⟨hordinary, f, hfoundational, hfrom⟩
  · obtain ⟨_, ⟨x, _, hx, -, -⟩, -⟩ := Relation.TransGen.head'_iff.1 hto
    cases hkind : x.foundational with
    | true => exact .inl ⟨⟨x, hx, hkind⟩, n, hordinary, hto⟩
    | false =>
      have hself : c.IsOrdinary a := ⟨x, hx, hkind⟩
      rcases Relation.reflTransGen_iff_eq_or_transGen.1 hfrom with rfl | hfrom
      · exact absurd hself hfoundational.not_isOrdinary
      · exact .inr ⟨hself, f, hfoundational, hfrom⟩

/-- An entangled component leads to an ordinary one, if it is none itself. -/
theorem Entangled.exists_ordinary (h : c.Entangled a) :
    ∃ n, c.IsOrdinary n ∧ Relation.ReflTransGen c.HasEdge a n := by
  rcases h with ⟨-, n, hordinary, hpath⟩ | ⟨hordinary, -⟩
  · exact ⟨n, hordinary, (transGen_hasEdge_of_marks hpath).to_reflTransGen⟩
  · exact ⟨a, hordinary, .refl⟩

/-- A foundational component leads to an entangled one, if that is none itself. -/
theorem Entangled.exists_foundational (h : c.Entangled a) :
    ∃ f, c.IsFoundational f ∧ Relation.ReflTransGen c.HasEdge f a := by
  rcases h with ⟨hfoundational, -⟩ | ⟨-, f, hfoundational, hpath⟩
  · exact ⟨a, hfoundational, .refl⟩
  · exact ⟨f, hfoundational, (transGen_hasEdge_of_marks hpath).to_reflTransGen⟩

/-- A path leads from any entangled component to any other. -/
theorem Entangled.transGen (ha : c.Entangled a) (hb : c.Entangled b) :
    Relation.TransGen c.HasEdge a b := by
  obtain ⟨n, hordinary, hto⟩ := ha.exists_ordinary
  obtain ⟨f, hfoundational, hfrom⟩ := hb.exists_foundational
  exact .trans_right hto (.head' (hasEdge_iff.2 (.inr ⟨hordinary, hfoundational⟩)) hfrom)

end Catalog

namespace Contract

variable {p : Project} {a b : String}

/-- The interface of one component's contract names that of another's among those it extends. Neither
    component is imported, so both interfaces are generated. -/
def Extends (p : Project) (a b : String) : Prop :=
  p.isImported a = false ∧ p.isImported b = false ∧
    ∃ x y, (all p).get? a = some x ∧ (all p).get? b = some y ∧ y.name ∈ x.superinterfaces

/-- A contract extends another through a marker that names no component, or through a dependency. -/
theorem extends_iff (h : p.catalog.Keyed) : Extends p a b ↔
    ∃ x y, p.component? a = some x ∧ x.imported = false ∧ p.component? b = some y ∧ y.imported = false ∧
      ((ComponentName.contract b ∈ x.markers ∧ p.component? (ComponentName.contract b) = none) ∨
        ∃ d ∈ p.catalog.dependencies a, p.contractType d = ComponentName.contract b) := by
  have hsupers : ∀ x : ComponentDecl, ComponentName.contract b ∈ superinterfacesOf p x ↔
      (ComponentName.contract b ∈ x.markers ∧ p.component? (ComponentName.contract b) = none) ∨
        ∃ d ∈ p.catalog.dependencies x.name, p.contractType d = ComponentName.contract b := by
    intro x
    rw [superinterfacesOf, mem_ascending, List.mem_append, List.mem_filter, List.mem_map,
      Option.isNone_iff_eq_none]
  constructor
  · rintro ⟨ha, hb, cx, cy, hcx, hcy, hsuper⟩
    obtain ⟨x, hx, hofx⟩ := (get?_all_eq_some_iff h).1 hcx
    obtain ⟨y, hy, hofy⟩ := (get?_all_eq_some_iff h).1 hcy
    rw [Project.isImported_eq hx] at ha
    rw [Project.isImported_eq hy] at hb
    obtain rfl := Option.some.inj ((of?_of_not_imported ha).symm.trans hofx)
    obtain rfl := Option.some.inj ((of?_of_not_imported hb).symm.trans hofy)
    obtain rfl := Catalog.name_of_component? h hx
    obtain rfl := Catalog.name_of_component? h hy
    exact ⟨x, y, hx, ha, hy, hb, (hsupers x).1 hsuper⟩
  · rintro ⟨x, y, hx, ha, hy, hb, hsuper⟩
    obtain rfl := Catalog.name_of_component? h hx
    obtain rfl := Catalog.name_of_component? h hy
    refine ⟨(Project.isImported_eq hx).trans ha, (Project.isImported_eq hy).trans hb, _, _,
      (get?_all_eq_some_iff h).2 ⟨x, hx, of?_of_not_imported ha⟩,
      (get?_all_eq_some_iff h).2 ⟨y, hy, of?_of_not_imported hb⟩, (hsupers x).2 hsuper⟩

/-- Contracts extend those of all other components that edges lead to. -/
theorem extends_of_transGen (h : p.catalog.Keyed) {x y : ComponentDecl} (hx : p.component? a = some x)
    (ha : x.imported = false) (hy : p.component? b = some y) (hb : y.imported = false) (hne : b ≠ a)
    (hpath : Relation.TransGen p.catalog.HasEdge a b) : Extends p a b := by
  refine (extends_iff h).2 ⟨x, y, hx, ha, hy, hb, .inr ⟨b, ?_, ?_⟩⟩
  · exact (Catalog.mem_dependencies_iff h).2 ⟨hne, hpath⟩
  · exact Project.qualify_of_not_imported ((Project.isImported_eq hy).trans hb) _

section Snapshot

variable {settings : Settings} {s : Snapshot}

/-- A marker that names no component is the name of no component's contract. -/
theorem marker_ne_contract (hnames : (s.components.map (·.name)).Nodup) {x : ComponentDecl}
    {marker : String} (hmarker : marker ∈ (s.canonicalComponent x).markers)
    (hnone : (Catalog.ofSnapshot s).component? marker = none) {y : ComponentDecl}
    (hy : y ∈ s.components) (hne : y.name ≠ "") : marker ≠ ComponentName.contract y.name := by
  obtain ⟨reference, -, rfl⟩ := List.mem_map.1 hmarker
  refine Snapshot.canonical_ne_contract (Snapshot.declares_iff.2 ⟨y, hy, rfl⟩) hne ?_
  refine Bool.eq_false_iff.2 fun hdeclared => ?_
  obtain ⟨z, hz, hname⟩ := Snapshot.declares_iff.1 hdeclared
  cases hnone.symm.trans
    ((Snapshot.component?_ofSnapshot_eq_some_iff hnames).2 ⟨z, hz, hname, rfl⟩)

/-- Where contract types tell components apart, a contract extends those of dependencies only. -/
theorem transGen_of_extends (hnames : (s.components.map (·.name)).Nodup)
    (hempty : "" ∉ s.components.map (·.name))
    (htypes : ∀ x ∈ s.components, ∀ y ∈ s.components, y.imported = false →
      (Project.ofSnapshot settings s).contractType x.name =
        (Project.ofSnapshot settings s).contractType y.name → x.name = y.name)
    (h : Extends (.ofSnapshot settings s) a b) :
    b ≠ a ∧ Relation.TransGen (Catalog.ofSnapshot s).HasEdge a b := by
  have hkeyed := s.keyed_ofSnapshot
  obtain ⟨_, _, hx, -, hy, hb, hsuper⟩ := (extends_iff hkeyed).1 h
  obtain ⟨x, -, -, rfl⟩ := (Snapshot.component?_ofSnapshot_eq_some_iff hnames).1 hx
  obtain ⟨y, hmem, rfl, rfl⟩ := (Snapshot.component?_ofSnapshot_eq_some_iff hnames).1 hy
  rcases hsuper with ⟨hmarker, hnone⟩ | ⟨d, hd, htype⟩
  · have hne : y.name ≠ "" := fun hy => hempty (hy ▸ List.mem_map_of_mem hmem)
    exact absurd rfl (marker_ne_contract hnames hmarker hnone hmem hne)
  · have hpath := (Catalog.mem_dependencies_iff hkeyed).1 hd
    obtain ⟨_, -, _, _, -, hz, -⟩ := Relation.TransGen.tail'_iff.1 hpath.2
    obtain ⟨z, hzmem, rfl, -⟩ := (Snapshot.component?_ofSnapshot_eq_some_iff hnames).1 hz
    have hown := Project.qualify_of_not_imported ((Project.isImported_eq hy).trans hb)
      (ComponentName.contract y.name)
    obtain hname : z.name = y.name := htypes z hzmem y hmem hb (htype.trans hown.symm)
    rwa [hname] at hpath

/-- Contracts that have names of their own extend one another in no circle, just when at most one
    component that is not imported is entangled. -/
theorem extends_acyclic_iff (hnames : (s.components.map (·.name)).Nodup)
    (hempty : "" ∉ s.components.map (·.name))
    (htypes : ∀ x ∈ s.components, ∀ y ∈ s.components, y.imported = false →
      (Project.ofSnapshot settings s).contractType x.name =
        (Project.ofSnapshot settings s).contractType y.name → x.name = y.name)
    (hmarkers : Acyclic (Catalog.ofSnapshot s).Marks) :
    Acyclic (Extends (.ofSnapshot settings s)) ↔
      ∀ x ∈ s.components, ∀ y ∈ s.components, x.imported = false → y.imported = false →
        (Catalog.ofSnapshot s).Entangled x.name → (Catalog.ofSnapshot s).Entangled y.name →
          x.name = y.name := by
  have hkeyed := s.keyed_ofSnapshot
  have hfound : ∀ x ∈ s.components, (Project.ofSnapshot settings s).component? x.name =
      some (s.canonicalComponent x) := fun x hx =>
    (Snapshot.component?_ofSnapshot_eq_some_iff hnames).2 ⟨x, hx, rfl, rfl⟩
  constructor
  · intro hacyclic x hx y hy himpx himpy hentx henty
    by_contra hne
    have hxy : Extends (.ofSnapshot settings s) x.name y.name := extends_of_transGen hkeyed
      (hfound x hx) himpx (hfound y hy) himpy (Ne.symm hne) (hentx.transGen henty)
    have hyx : Extends (.ofSnapshot settings s) y.name x.name := extends_of_transGen hkeyed
      (hfound y hy) himpy (hfound x hx) himpx hne (henty.transGen hentx)
    exact hacyclic x.name (.tail (.single hxy) hyx)
  · intro hsingle a hcircle
    obtain ⟨b, hab, hba⟩ := Relation.TransGen.head'_iff.1 hcircle
    have hpaths : ∀ {a b}, Relation.ReflTransGen (Extends (.ofSnapshot settings s)) a b →
        Relation.ReflTransGen (Catalog.ofSnapshot s).HasEdge a b := by
      intro a b hpath
      induction hpath with
      | refl => exact .refl
      | tail _ hlast ih =>
        have hstep := (transGen_of_extends hnames hempty htypes hlast).2
        exact ih.trans hstep.to_reflTransGen
    obtain ⟨hne, hto⟩ := transGen_of_extends hnames hempty htypes hab
    have hback := hpaths hba
    have henta := Catalog.entangled_of_transGen_self hmarkers (hto.trans_left hback)
    have hentb := Catalog.entangled_of_transGen_self hmarkers (.trans_right hback hto)
    obtain ⟨x, y, hx, himpx, hy, himpy, -⟩ := (extends_iff hkeyed).1 hab
    obtain ⟨cx, hcx, rfl, rfl⟩ := (Snapshot.component?_ofSnapshot_eq_some_iff hnames).1 hx
    obtain ⟨cy, hcy, rfl, rfl⟩ := (Snapshot.component?_ofSnapshot_eq_some_iff hnames).1 hy
    exact hne (hsingle cx hcx cy hcy himpx himpy henta hentb).symm

/-- Components of which each has a higher rank than those it marks do not mark each other in a
    circle. -/
theorem acyclic_marks_of_rank (hnames : (s.components.map (·.name)).Nodup) (rank : String → Nat)
    (hrank : ∀ x ∈ s.components, ∀ m ∈ (s.canonicalComponent x).markers, rank m < rank x.name) :
    Acyclic (Catalog.ofSnapshot s).Marks := by
  have hlt : ∀ a b, (Catalog.ofSnapshot s).Marks a b → rank b < rank a := by
    rintro a b ⟨_, _, hx, -, hmarker⟩
    obtain ⟨x, hmem, rfl, rfl⟩ := (Snapshot.component?_ofSnapshot_eq_some_iff hnames).1 hx
    exact hrank x hmem b hmarker
  intro a hcircle
  have hdescent : ∀ b, Relation.TransGen (Catalog.ofSnapshot s).Marks a b → rank b < rank a := by
    intro b hpath
    induction hpath with
    | single hmarks => exact hlt _ _ hmarks
    | tail _ hmarks ih => exact Nat.lt_trans (hlt _ _ hmarks) ih
  exact Nat.lt_irrefl _ (hdescent a hcircle)

end Snapshot

/-- A foundational component that is marked by an ordinary one and marks an imported one. -/
def harbor : Snapshot where
  components := [
    { name := "PosComp", foundational := true, markers := ["Entityc"] },
    { name := "EntityComp", imported := true },
    { name := "HealthComp", markers := ["Posc"] }]

/-- Of its two entangled components one is imported, so no circle goes through contracts that are
    generated. -/
theorem extends_acyclic_iff_harbor :
    (harbor.components.map (·.name)).Nodup ∧ Acyclic (Catalog.ofSnapshot harbor).Marks ∧
      (Catalog.ofSnapshot harbor).Entangled "PosComp" ∧
      Extends (.ofSnapshot sampleSettings harbor) "HealthComp" "PosComp" ∧
      Acyclic (Extends (.ofSnapshot sampleSettings harbor)) := by
  have hnames : (harbor.components.map (·.name)).Nodup := by decide
  have hempty : "" ∉ harbor.components.map (·.name) := by decide
  have htypes : ∀ x ∈ harbor.components, ∀ y ∈ harbor.components, y.imported = false →
      (Project.ofSnapshot sampleSettings harbor).contractType x.name =
        (Project.ofSnapshot sampleSettings harbor).contractType y.name → x.name = y.name := by decide
  have hmarkers : Acyclic (Catalog.ofSnapshot harbor).Marks :=
    acyclic_marks_of_rank hnames
      (fun n => if n = "HealthComp" then 2 else if n = "PosComp" then 1 else 0) (by decide)
  have hpos : (Catalog.ofSnapshot harbor).Marks "PosComp" "EntityComp" :=
    ⟨_, _, rfl, rfl, by decide⟩
  have hhealth : (Catalog.ofSnapshot harbor).Marks "HealthComp" "PosComp" :=
    ⟨_, _, rfl, rfl, by decide⟩
  -- nothing marks the component that is left
  have hfree : ¬(Catalog.ofSnapshot harbor).Entangled "HealthComp" := by
    have hunmarked : ∀ x ∈ harbor.components,
        "HealthComp" ∉ (harbor.canonicalComponent x).markers := by decide
    rintro (⟨⟨x, hx, hfoundational⟩, -⟩ | ⟨-, f, -, hpath⟩)
    · obtain rfl := Option.some.inj hx
      cases hfoundational
    · obtain ⟨_, -, _, _, hx, -, hmarker⟩ := Relation.TransGen.tail'_iff.1 hpath
      obtain ⟨x, hmem, -, rfl⟩ := (Snapshot.component?_ofSnapshot_eq_some_iff hnames).1 hx
      exact hunmarked x hmem hmarker
  refine ⟨hnames, hmarkers, .inl ⟨⟨_, rfl, rfl⟩, _, ⟨_, rfl, rfl⟩, .single hpos⟩, ?_,
    (extends_acyclic_iff hnames hempty htypes hmarkers).2 fun x hx y hy himpx himpy hentx henty => ?_⟩
  · exact extends_of_transGen harbor.keyed_ofSnapshot rfl rfl rfl rfl (by decide)
      (.single hhealth.hasEdge)
  · have hname : ∀ z ∈ harbor.components, z.imported = false → z.name ≠ "HealthComp" →
        z.name = "PosComp" := by decide
    have hz : ∀ z ∈ harbor.components, z.imported = false →
        (Catalog.ofSnapshot harbor).Entangled z.name → z.name = "PosComp" := fun z hmem himp hent =>
      hname z hmem himp fun heq => hfree (heq ▸ hent)
    rw [hz x hx himpx hentx, hz y hy himpy henty]

/-- A foundational component that marks an ordinary one. -/
def anchored : Snapshot where
  components := [{ name := "EntityComp" },
    { name := "PosComp", foundational := true, markers := ["EntityComp"] }]

/-- Two components whose contracts have the same name. -/
def namesakes : Snapshot where
  components := [{ name := "FooComp", markers := ["Foo"] }, { name := "Foo" }]

/-- A component without a name, and with a marker that is the name of its contract. -/
def nameless : Snapshot where
  components := [{ name := "", markers := ["c"] }]

/-- Contracts can extend each other or themselves although no markers go round in a circle. -/
theorem exists_extends_circle :
    ((anchored.components.map (·.name)).Nodup ∧ Acyclic (Catalog.ofSnapshot anchored).Marks ∧
        ¬Acyclic (Extends (.ofSnapshot sampleSettings anchored))) ∧
      ((namesakes.components.map (·.name)).Nodup ∧ Acyclic (Catalog.ofSnapshot namesakes).Marks ∧
        ¬Acyclic (Extends (.ofSnapshot sampleSettings namesakes))) ∧
      (nameless.components.map (·.name)).Nodup ∧ Acyclic (Catalog.ofSnapshot nameless).Marks ∧
        ¬Acyclic (Extends (.ofSnapshot sampleSettings nameless)) := by
  refine ⟨⟨by decide, ?_, fun hacyclic => ?_⟩, ⟨by decide, ?_, fun hacyclic => ?_⟩,
    by decide, ?_, fun hacyclic => ?_⟩
  · exact acyclic_marks_of_rank (by decide) (fun n => if n = "PosComp" then 1 else 0) (by decide)
  · have hto : Extends (.ofSnapshot sampleSettings anchored) "EntityComp" "PosComp" :=
      extends_of_transGen anchored.keyed_ofSnapshot rfl rfl rfl rfl (by decide)
        (.single ⟨_, _, rfl, rfl, .inr ⟨rfl, rfl⟩⟩)
    have hback : Extends (.ofSnapshot sampleSettings anchored) "PosComp" "EntityComp" :=
      extends_of_transGen anchored.keyed_ofSnapshot rfl rfl rfl rfl (by decide)
        (.single ⟨_, _, rfl, rfl, .inl (by decide)⟩)
    exact hacyclic "EntityComp" (.tail (.single hto) hback)
  · exact acyclic_marks_of_rank (by decide) String.length (by decide)
  · have hdependency : "Foo" ∈ (Catalog.ofSnapshot namesakes).dependencies "FooComp" :=
      (Catalog.mem_dependencies_iff namesakes.keyed_ofSnapshot).2
        ⟨by decide, .single ⟨_, _, rfl, rfl, .inl (by decide)⟩⟩
    have hself : Extends (.ofSnapshot sampleSettings namesakes) "FooComp" "FooComp" :=
      (extends_iff namesakes.keyed_ofSnapshot).2
        ⟨_, _, rfl, rfl, rfl, rfl, .inr ⟨"Foo", hdependency, by decide⟩⟩
    exact hacyclic "FooComp" (.single hself)
  · exact acyclic_marks_of_rank (by decide) (fun n => if n = "" then 1 else 0) (by decide)
  · have hself : Extends (.ofSnapshot sampleSettings nameless) "" "" :=
      (extends_iff nameless.keyed_ofSnapshot).2
        ⟨_, _, rfl, rfl, rfl, rfl, .inl ⟨by decide, rfl⟩⟩
    exact hacyclic "" (.single hself)

end Contract

end EntityWeaver
