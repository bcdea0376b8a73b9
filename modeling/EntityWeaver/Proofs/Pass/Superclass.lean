import EntityWeaver.Proofs.Hoisting
import EntityWeaver.Proofs.Pass.Composition

/-! What entities extend.

    A field that an entity leaves out is declared by what it extends. That is the base class of its
    foundational component, unless a blueprint is declared on that component: then no base class is
    made, and the entity of another blueprint is to take its place. Whether it does is a matter of
    names and of components only:

        Unit [PosComp, ..] ──extends──▶ Pos      the base class of PosComp, or
                                                 the entity called Pos, if it is made from PosComp

    An entity declared on a component and given a name of its own does not take the place of anything,
    and those who extend the base class extend nothing. -/

namespace EntityWeaver

/-- A type declares a field. -/
def TypeDef.Declares (t : TypeDef) (f : FieldDecl) : Prop := ∃ g ∈ t.fields, g.Declares f

/-- A type is handed over in the second round of a pass. -/
def Pass.HandsOver (p : Pass) (t : TypeDef) : Prop :=
  ∃ imports, .ofType t p.project.settings.outputPackage imports ∈ p.entityUnits p.entities

theorem Pass.handsOver_entity {p : Pass} {e : Entity} (he : e ∈ p.entities) : p.HandsOver e.type := by
  refine ⟨e.imports, ?_⟩
  unfold entityUnits
  exact List.mem_append_left _ (List.mem_append_left _ (List.mem_map_of_mem he))

theorem Pass.handsOver_base {p : Pass} {component : String} {b : BaseClass}
    (hb : p.bases.get? component = some b) : p.HandsOver b.type := by
  have hmem : b ∈ p.bases.values := List.mem_map_of_mem (OrderedMap.get?_eq_some_iff.1 hb)
  refine ⟨p.project.importsOf b.members, ?_⟩
  unfold entityUnits
  exact List.mem_append_left _ (List.mem_append_right _ (List.mem_map_of_mem hmem))

/-- A type stands where an entity looks for the base class of a component, and declares what the entity
    leaves to it. -/
structure Pass.StandsIn (p : Pass) (e : Entity) (component : String) (t : TypeDef) : Prop where
  name : t.name = ComponentName.base component
  handedOver : p.HandsOver t
  declares : ∀ f ∈ e.fields.fields, f.hoisted = true → t.Declares f.decl

/-- A type is held in a package. -/
def MemoryUnits.Holds (units : MemoryUnits) (t : TypeDef) (package : String) : Prop :=
  ∃ imports, units.get? (SourceUnit.ofType t package imports).qualifiedName =
    some (.ofType t package imports)

/-- The first blueprint whose entity goes by the name of a component's base class requests the
    component. -/
def Project.Replaced (p : Project) (component : String) : Prop :=
  ∃ before b after h, p.catalog.blueprints = before ++ b :: after ∧ Heading.of p b = .ok h ∧
    h.name = ComponentName.base component ∧ component ∈ b.components ∧
      ∀ b' ∈ before, ∀ h', Heading.of p b' = .ok h' → h'.name ≠ h.name

namespace Entity.ComposedOf

variable {p : Pass} {e : Entity} {b : BlueprintDecl} {h : Heading} {component : String}

/-- The fields of an entity in a pass without mistakes. -/
theorem mem_fields_iff (he : e.ComposedOf p b h) (hok : Diagnostic.errorCount p.diagnostics = 0)
    {m : MergedField} : m ∈ e.fields.fields ↔
      ∃ c ∈ (Draft.of p.project h).1.components, ∃ f ∈ c.fields,
        f.imported = false ∧ m = ⟨f, c.name, h.hoists p.project c.name f⟩ := by
  obtain ⟨history, bases, f, hf, rfl, -, -⟩ := he.finished
  rw [hf.fields]
  exact Draft.mem_fields_of_iff (he.not_reportsDuplicate hok)

theorem base_eq (he : e.ComposedOf p b h) : e.base = h.base := by
  obtain ⟨history, bases, f, hf, rfl, -, -⟩ := he.finished
  exact hf.base

theorem name_eq (he : e.ComposedOf p b h) : e.type.name = h.name := by
  obtain ⟨history, bases, f, hf, rfl, -, -⟩ := he.finished
  exact hf.type_eq.1

theorem superclass_eq (he : e.ComposedOf p b h) :
    e.type.superclass = h.base.map p.project.baseType := by
  obtain ⟨history, bases, f, hf, rfl, -, -⟩ := he.finished
  exact hf.type_eq.2.1

/-- An entity declares what it does not leave to a base class. -/
theorem declares (he : e.ComposedOf p b h) {m : MergedField} (hm : m ∈ e.fields.fields)
    (hown : m.hoisted = false) : e.type.Declares m.decl := by
  obtain ⟨history, bases, f, hf, rfl, -, -⟩ := he.finished
  rw [hf.fields] at hm
  refine ⟨m.toSource, ?_, m.declares_toSource⟩
  rw [hf.type_eq.2.2, FieldSet.toSource_eq]
  refine List.mem_append_left _ (List.mem_map_of_mem (List.mem_filter.2 ⟨hm, ?_⟩))
  rw [hown]
  rfl

/-- What an entity leaves to a base class is covered by its component. -/
theorem covered_of_hoisted (he : e.ComposedOf p b h) (hkeyed : p.project.catalog.Keyed)
    (hok : Diagnostic.errorCount p.diagnostics = 0) (hbase : h.base = some component)
    {m : MergedField} (hm : m ∈ e.fields.fields) (hhoisted : m.hoisted = true) :
    m.decl ∈ BaseClass.hoistable p.project component := by
  have hrequested := (Heading.base_eq_some he.heading hbase).1
  obtain ⟨history, bases, f, hf, rfl, -, -⟩ := he.finished
  rw [hf.fields] at hm
  exact (Draft.exists_hoisted_iff hkeyed hrequested hbase (he.not_reportsDuplicate hok)).1
    ⟨m, hm, hhoisted, rfl⟩

/-- The base class declares what entities leave to it. -/
theorem declares_base (he : e.ComposedOf p b h) (hkeyed : p.project.catalog.Keyed)
    (hok : Diagnostic.errorCount p.diagnostics = 0) {c : ComponentDecl} (hbase : h.base = some c.name)
    {m : MergedField} (hm : m ∈ e.fields.fields) (hhoisted : m.hoisted = true) :
    (BaseClass.ofComponent p.project c).type.Declares m.decl := by
  have hrequested := (Heading.base_eq_some he.heading hbase).1
  have hkept := Draft.mem_firstByName_of_mem_hoistable hkeyed hrequested hbase
    (he.not_reportsDuplicate hok) (he.covered_of_hoisted hkeyed hok hbase hm hhoisted)
  refine ⟨BaseClass.fieldOf m.decl, ?_, BaseClass.declares_fieldOf _⟩
  rw [BaseClass.fields_ofComponent]
  exact List.mem_map_of_mem hkept

/-- An entity that extends nothing declares all that the base class of a requested component could. -/
theorem declares_of_covered (he : e.ComposedOf p b h) (hkeyed : p.project.catalog.Keyed)
    (hok : Diagnostic.errorCount p.diagnostics = 0) (hbase : h.base = none)
    (hrequested : component ∈ b.components) {f : FieldDecl}
    (hf : f ∈ BaseClass.hoistable p.project component) : e.type.Declares f := by
  obtain ⟨c, hcovered, hc, hf, hkind⟩ := (BaseClass.mem_hoistable_iff hkeyed).1 hf
  obtain ⟨rfl, -, -⟩ := Heading.of_eq_ok he.heading
  have hresolved := Catalog.mem_resolve_of_mem_withDependencies hrequested hcovered
  have himported := BaseClass.imported_of_isHoistable hkind
  refine he.declares (m := ⟨f, c.name, h.hoists p.project c.name f⟩) ?_ ?_
  · exact (he.mem_fields_iff hok).2 ⟨c, Draft.mem_components_of.2 ⟨_, hresolved, hc⟩, f, hf,
      himported, rfl⟩
  · exact Heading.hoists_of_base_eq_none hbase _ _

/-- An entity that extends nothing leaves nothing to a base class. -/
theorem hoisted_eq_false (he : e.ComposedOf p b h) (hok : Diagnostic.errorCount p.diagnostics = 0)
    (hbase : h.base = none) {m : MergedField} (hm : m ∈ e.fields.fields) : m.hoisted = false := by
  obtain ⟨c, -, f, -, -, rfl⟩ := (he.mem_fields_iff hok).1 hm
  exact Heading.hoists_of_base_eq_none hbase _ _

end Entity.ComposedOf

namespace PassM

variable {m : Type → Type} [Monad m] [LawfulMonad m] [MonadAttach m] [LawfulMonadAttach m]
  {sink : UnitSink m} {store : HistoryStore m} {settings : Settings} {snapshot : Snapshot}
  {p p' : Pass} {e : Entity} {b : BlueprintDecl} {h : Heading} {c : ComponentDecl}

/-- The base class of a component stands in, if there is one. -/
theorem exists_base_standsIn (hstart : Pass.start settings snapshot = .ok p)
    (hadvanced : p.Advanced p') (hok : Diagnostic.errorCount p'.diagnostics = 0)
    (he : e.ComposedOf p' b h) (hbase : h.base = some c.name)
    (hc : p'.project.component? c.name = some c)
    (heligible : BaseClass.isEligible p'.project.catalog c = true) : ∃ t, p'.StandsIn e c.name t := by
  have hkeyed := hadvanced.keyed hstart
  have hclass := (BaseClass.get?_all_eq_some_iff hkeyed).2 ⟨c, hc, heligible, rfl⟩
  have hgrown := hadvanced.bases
  rw [(Pass.start_eq_ok hstart).2.2, ← hadvanced.project] at hgrown
  obtain ⟨base, hget, hmore⟩ := hgrown.kept hclass
  refine ⟨base.type, hmore.type.name_eq.trans (BaseClass.name_ofComponent _ _),
    Pass.handsOver_base hget, fun f hf hhoisted => ?_⟩
  rw [TypeDef.Declares, hmore.type.fields_eq]
  exact he.declares_base hkeyed hok hbase hf hhoisted

/-- The entity that goes by the name of the base class stands in, if it is made from the component. -/
theorem exists_entity_standsIn (hstart : Pass.start settings snapshot = .ok p)
    (hrun : Leads (runRounds sink store) p () p') (hok : Diagnostic.errorCount p'.diagnostics = 0)
    (he : e.ComposedOf p' b h) (hbase : h.base = some c.name)
    (hc : p'.project.component? c.name = some c) (hkind : c.foundational = true)
    (hreplaced : p'.project.Replaced c.name) : ∃ t, p'.StandsIn e c.name t := by
  have hadvanced := (leads_runRounds hrun).1
  have hkeyed := hadvanced.keyed hstart
  obtain ⟨before, b', after, h', hblueprints, hheading, hname, hrequested, hfirst⟩ := hreplaced
  have hnone := Heading.base_eq_none hheading hrequested hc hkind hname
  rw [hadvanced.project] at hblueprints hheading hfirst
  obtain ⟨e', he', hcomposed⟩ := exists_entity_of_runRounds hrun hok hblueprints hheading hfirst
  refine ⟨e'.type, hcomposed.name_eq.trans hname, Pass.handsOver_entity he', fun f hf hhoisted => ?_⟩
  exact hcomposed.declares_of_covered hkeyed hok hnone hrequested
    (he.covered_of_hoisted hkeyed hok hbase hf hhoisted)

/-- What an entity extends is handed over, and no field is lost, if the base classes that are not made
    are replaced. -/
theorem superclass_handedOver (hstart : Pass.start settings snapshot = .ok p)
    (hrun : Leads (runRounds sink store) p () p') (hok : Diagnostic.errorCount p'.diagnostics = 0)
    (himports : ∀ c ∈ snapshot.components, c.imported = false) (he : e ∈ p'.entities)
    (hreplaced : ∀ component, e.base = some component →
      p'.project.catalog.isBlueprintBase component = true → p'.project.Replaced component) :
    (e.type.superclass = none ∧ ∀ f ∈ e.fields.fields, e.type.Declares f.decl) ∨
      ∃ t, e.type.superclass = some t.name ∧ p'.HandsOver t ∧
        ∀ f ∈ e.fields.fields, e.type.Declares f.decl ∨ t.Declares f.decl := by
  obtain ⟨hadvanced, hentities⟩ := leads_runRounds hrun
  obtain ⟨b, -, h, hcomposed⟩ := hentities e he
  cases hbase : h.base with
  | none =>
    refine .inl ⟨?_, fun f hf => hcomposed.declares hf (hcomposed.hoisted_eq_false hok hbase hf)⟩
    rw [hcomposed.superclass_eq, hbase, Option.map_none]
  | some component =>
    obtain ⟨-, c, hc, hkind⟩ := Heading.base_eq_some hcomposed.heading hbase
    obtain rfl := Catalog.name_of_component? (hadvanced.keyed hstart) hc
    have hlocal : p'.project.isImported c.name = false := by
      rw [hadvanced.project_eq hstart]
      exact Project.isImported_ofSnapshot himports _
    have hstandsIn : ∃ t, p'.StandsIn e c.name t := by
      cases hdeclared : p'.project.catalog.isBlueprintBase c.name with
      | false =>
        refine exists_base_standsIn hstart hadvanced hok hcomposed hbase hc ?_
        rw [Project.isImported_eq hc] at hlocal
        simp [BaseClass.isEligible, hkind, hlocal, hdeclared]
      | true =>
        exact exists_entity_standsIn hstart hrun hok hcomposed hbase hc hkind
          (hreplaced _ (hcomposed.base_eq.trans hbase) hdeclared)
    obtain ⟨t, hname, hunit, hdeclares⟩ := hstandsIn
    refine .inr ⟨t, ?_, hunit, fun f hf => ?_⟩
    · rw [hcomposed.superclass_eq, hbase, Option.map_some, Project.baseType,
        Project.qualify_of_not_imported hlocal, hname]
    · cases hhoisted : f.hoisted with
      | false => exact .inl (hcomposed.declares hf hhoisted)
      | true => exact .inr (hdeclares f hf hhoisted)

end PassM

/-- No dangling superclass and no lost field, where base classes that are not made are replaced. In a
    pass without mistakes and without imported components, what an entity extends is emitted, and every
    field of the entity is declared by the entity itself or by that type. The condition is about base
    classes of components that a blueprint is declared on: the entity under the name of such a base
    class is made from the component. -/
theorem Pass.superclass_emitted {settings : Settings} {snapshot : Snapshot}
    {histories histories' : MemoryHistories} {outcome : Outcome} {units : MemoryUnits}
    (hrun : runInMemory settings snapshot histories = (.ok outcome, units, histories'))
    (hok : outcome.errorCount = 0) (himports : ∀ c ∈ snapshot.components, c.imported = false)
    {e : Entity} (he : e ∈ outcome.entities)
    (hreplaced : ∀ component, e.base = some component →
      (Catalog.ofSnapshot snapshot).isBlueprintBase component = true →
        (Project.ofSnapshot settings snapshot).Replaced component) :
    (e.type.superclass = none ∧ ∀ f ∈ e.fields.fields, e.type.Declares f.decl) ∨
      ∃ t, e.type.superclass = some t.name ∧ units.Holds t settings.outputPackage ∧
        ∀ f ∈ e.fields.fields, e.type.Declares f.decl ∨ t.Declares f.decl := by
  obtain ⟨p, entities, p', hstart, hrounds, rfl⟩ := runInMemory_eq_ok.1 hrun
  have hleads := PassM.leads_of_exec (PassM.exec_runRounds_eq_ok.2 ⟨entities, hrounds⟩)
  have hproject := (PassM.leads_runRounds hleads).1.project_eq hstart
  have hcatalog : p'.project.catalog = .ofSnapshot snapshot := congrArg Project.catalog hproject
  have hpackage : p'.project.settings.outputPackage = settings.outputPackage := by
    rw [hproject]
    rfl
  rw [← hproject, ← hcatalog] at hreplaced
  refine (PassM.superclass_handedOver hstart hleads hok himports he hreplaced).imp_right ?_
  rintro ⟨t, hsuperclass, ⟨imports, hunit⟩, hfields⟩
  refine ⟨t, hsuperclass, ⟨imports, ?_⟩, hfields⟩
  have hentities : p'.entities = entities := by
    obtain ⟨_, _, _, -, -, -, hend⟩ := hrounds
    exact congrArg (·.pass.entities) hend
  rw [hentities, hpackage] at hunit
  exact hrounds.get?_of_mem_entityUnits hunit

/-! ### A blueprint on a component -/

def positionBlueprint (name : Option String) : BlueprintDecl :=
  { name, components := ["PosComp"], component := some "PosComp", genIo := false }

def unitBlueprint : BlueprintDecl := { name := some "Unit", components := ["PosComp"], genIo := false }

/-- Units have positions, and so has the entity that is declared on positions. -/
def outpost (name : Option String) : Snapshot where
  components := [
    { name := "PosComp", foundational := true, fields := [{ name := "x", type := "float" }] }]
  blueprints := [positionBlueprint name, unitBlueprint]

def outpostProject (name : Option String) : Project := .ofSnapshot sampleSettings (outpost name)

def outpostPass (name : Option String) : Pass where
  project := outpostProject name
  contracts := Contract.all (outpostProject name)
  bases := .empty
  diagnostics := []

def positionHeading (name : Option String) : Heading :=
  ⟨positionBlueprint name, name.getD "Pos", some "PosComp"⟩

def unitHeading : Heading := ⟨unitBlueprint, "Unit", some "PosComp"⟩

theorem edgesFrom_outpost (name : Option String) :
    (outpostProject name).catalog.edgesFrom "PosComp" = [] := rfl

theorem resolve_outpost (name : Option String) :
    (outpostProject name).catalog.resolve ["PosComp"] = ["PosComp"] :=
  Catalog.resolve_of_edgesFrom_eq_nil (List.forall_mem_singleton.2 (edgesFrom_outpost name))

theorem withDependencies_outpost (name : Option String) :
    (outpostProject name).catalog.withDependencies "PosComp" = ["PosComp"] := by
  rw [Catalog.withDependencies, Catalog.dependencies_of_edgesFrom_eq_nil (edgesFrom_outpost name)]
  exact ascending_eq_of_mem_iff (List.pairwise_singleton _ _) fun _ => Iff.rfl

theorem blueprints_outpost {name : Option String} (hname : name = none ∨ name = some "Position") :
    (outpostProject name).catalog.blueprints = [positionBlueprint name, unitBlueprint] := by
  rcases hname with rfl | rfl
  all_goals rfl

/-- The entity on positions is called like their base class, unless it has a name of its own. -/
theorem finish_position {name : Option String} (hname : name = none ∨ name = some "Position") :
    ∃ d f, Draft.of (outpostProject name) (positionHeading name) = (d, []) ∧ d.hasIo = false ∧
      d.finish? (outpostProject name) (outpostPass name).contracts [] .empty = some f ∧
        f.reports = [] ∧ f.bases = .empty ∧ f.entity.type.name = name.getD "Pos" := by
  have hresolve := resolve_outpost name
  rcases hname with rfl | rfl
  all_goals
    unfold Draft.of
    rw [positionHeading, positionBlueprint]
    dsimp only
    rw [hresolve]
    exact ⟨_, _, rfl, rfl, rfl, rfl, rfl, rfl⟩

/-- A unit leaves its field to the base class of positions. -/
theorem finish_unit {name : Option String} (hname : name = none ∨ name = some "Position") :
    ∃ d f, Draft.of (outpostProject name) unitHeading = (d, []) ∧ d.hasIo = false ∧
      d.finish? (outpostProject name) (outpostPass name).contracts [] .empty = some f ∧
        f.reports = [] ∧ f.bases = .empty ∧ f.entity.type.name = "Unit" ∧
          f.entity.type.superclass = some "Pos" ∧ f.entity.base = some "PosComp" ∧
            f.entity.type.fields = [] ∧ ∃ field, f.entity.fields.fields = [field] := by
  have hbase : unitHeading.base = some "PosComp" := rfl
  have hcomponents : unitHeading.blueprint.components = ["PosComp"] := rfl
  unfold Draft.of
  rw [hbase, Option.map_some, withDependencies_outpost, hcomponents, resolve_outpost]
  rcases hname with rfl | rfl
  all_goals exact ⟨_, _, rfl, rfl, rfl, rfl, rfl, rfl, rfl, rfl, rfl, _, rfl⟩

/-- Both are composed in a pass without mistakes. -/
theorem runInMemory_outpost {name : Option String} (hname : name = none ∨ name = some "Position") :
    ∃ outcome units, Pass.runInMemory sampleSettings (outpost name) .empty =
        (.ok outcome, units, .empty) ∧ outcome.errorCount = 0 ∧
      units.keys = ["mymod.gen.Posc", "mymod.gen." ++ name.getD "Pos", "mymod.gen.Unit",
        "mymod.gen.EntityRegistry"] ∧
      ∃ e ∈ outcome.entities, e.type.superclass = some "Pos" ∧ e.base = some "PosComp" ∧
        e.type.fields = [] ∧ ∃ field, e.fields.fields = [field] := by
  obtain ⟨d, f, hdraft, hio, hfinish, hreports, hbases, htype⟩ := finish_position hname
  obtain ⟨d', f', hdraft', hio', hfinish', hreports', hbases', htype', hunit⟩ := finish_unit hname
  have hnames : ((outpostPass name).contractUnits ++
      (outpostPass name).entityUnits [f.entity, f'.entity]).map (·.qualifiedName) =
        ["mymod.gen.Posc", "mymod.gen." ++ name.getD "Pos", "mymod.gen.Unit",
          "mymod.gen.EntityRegistry"] := by
    rw [List.map_append, Pass.map_qualifiedName_contractUnits, Pass.map_qualifiedName_entityUnits,
      List.map_cons, List.map_singleton, htype, htype']
    rcases hname with rfl | rfl
    all_goals rfl
  have hcompose : ∀ emitted units, ComposedAll [] (outpostProject name).catalog.blueprints
      ⟨{ outpostPass name with emitted }, units, .empty⟩ [f.entity, f'.entity]
      ⟨{ outpostPass name with emitted }, units, .empty⟩ := by
    intro emitted units
    rw [blueprints_outpost hname]
    refine .cons (h := positionHeading name) ?_ List.not_mem_nil hdraft hio hfinish hreports ?_
    · rcases hname with rfl | rfl
      all_goals rfl
    rw [hbases]
    refine .cons (h := unitHeading) rfl ?_ hdraft' hio' hfinish' hreports' ?_
    · rcases hname with rfl | rfl
      all_goals decide
    rw [hbases']
    exact .nil
  obtain ⟨emitted, units, hrounds⟩ := BothRounds.exists_of_nodup (outpostPass name)
    (outpostPass name) .empty hcompose (by
      rw [hnames]
      rcases hname with rfl | rfl
      all_goals decide)
  refine ⟨_, units, Pass.runInMemory_eq_ok.2 ⟨_, _, _, rfl, hrounds, rfl⟩, rfl, ?_, f'.entity, ?_,
    hunit⟩
  · rw [OrderedMap.keys, hrounds.units_eq, ← hnames]
    simp [OrderedMap.empty, Function.comp_def, Pass.entityUnits]
  · exact List.mem_cons_of_mem _ (List.mem_singleton_self _)

/-- Without a name of its own the entity on positions is what the unit extends. -/
theorem Pass.superclass_emitted_outpost : ∃ outcome units,
    runInMemory sampleSettings (outpost none) .empty = (.ok outcome, units, .empty) ∧
    outcome.errorCount = 0 ∧ ∃ e ∈ outcome.entities, e.base = some "PosComp" ∧
      (outpostProject none).Replaced "PosComp" ∧
      ∃ t, e.type.superclass = some t.name ∧ units.Holds t "mymod.gen" ∧
        ∀ f ∈ e.fields.fields, e.type.Declares f.decl ∨ t.Declares f.decl := by
  have hreplaced : (outpostProject none).Replaced "PosComp" :=
    ⟨[], positionBlueprint none, [unitBlueprint], positionHeading none, blueprints_outpost (.inl rfl),
      rfl, rfl, List.mem_singleton_self _, fun _ hbefore => absurd hbefore List.not_mem_nil⟩
  obtain ⟨outcome, units, hrun, hok, -, e, he, hsuperclass, hbase, -⟩ :=
    runInMemory_outpost (.inl rfl)
  have hemitted := superclass_emitted hrun hok (by decide) he fun component hcomponent _ =>
    Option.some.inj (hbase.symm.trans hcomponent) ▸ hreplaced
  refine ⟨outcome, units, hrun, hok, e, he, hbase, hreplaced, hemitted.resolve_left ?_⟩
  rintro ⟨hnone, -⟩
  cases hsuperclass.symm.trans hnone

/-- With a name of its own it is not: the unit extends a type that is not emitted, and its field is
    declared nowhere. -/
theorem Pass.exists_dangling : ∃ outcome units,
    runInMemory sampleSettings (outpost (some "Position")) .empty = (.ok outcome, units, .empty) ∧
    outcome.errorCount = 0 ∧ (∀ c ∈ (outpost (some "Position")).components, c.imported = false) ∧
    ∃ e ∈ outcome.entities, e.type.superclass = some "Pos" ∧
      (∀ t : TypeDef, t.name = "Pos" → ¬units.Holds t sampleSettings.outputPackage) ∧
      ∃ f ∈ e.fields.fields, ¬e.type.Declares f.decl := by
  obtain ⟨outcome, units, hrun, hok, hkeys, e, he, hsuperclass, -, hfields, field, hfield⟩ :=
    runInMemory_outpost (.inr rfl)
  refine ⟨outcome, units, hrun, hok, by decide, e, he, hsuperclass, ?_, field, ?_, ?_⟩
  · rintro t hname ⟨imports, hget⟩
    have hkey : "mymod.gen.Pos" ∈ units.keys := by
      have hmem := List.mem_map_of_mem (f := Prod.fst) (OrderedMap.get?_eq_some_iff.1 hget)
      rwa [SourceUnit.qualifiedName, SourceUnit.ofType, hname] at hmem
    rw [hkeys] at hkey
    revert hkey
    decide
  · rw [hfield]
    exact List.mem_singleton_self _
  · rintro ⟨g, hg, -⟩
    rw [hfields] at hg
    cases hg

end EntityWeaver
