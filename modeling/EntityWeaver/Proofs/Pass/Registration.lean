import EntityWeaver.Proofs.Pass.ComponentOrder
import EntityWeaver.Proofs.Pass.Composition
import EntityWeaver.Proofs.Pass.Histories
import EntityWeaver.Proofs.Registry

/-! The registry of a pass does not depend on the order of declarations.

    Whether a blueprint becomes an entity, and under which name, is settled by its heading and its
    draft. These look at components, settings and codecs, and neither at other blueprints nor at
    histories or base classes. So where blueprints have names of their own the entities of a pass can
    be told blueprint by blueprint, and their order is that of the blueprints:

        blueprints   b₁      b₂      b₃      ...
        entities     name    -       name    ...

    The registry lists the names in an order of its own. -/

namespace EntityWeaver

/-- The same declarations, with components, blueprints and pointers in another order. -/
structure Snapshot.Rearranged (s t : Snapshot) : Prop where
  components : s.components.Perm t.components
  blueprints : s.blueprints.Perm t.blueprints
  pointers : s.pointers.Perm t.pointers
  contracts : s.contracts = t.contracts
  codecs : s.codecs = t.codecs

/-- The catalog without blueprints and pointers. -/
def Catalog.bare (c : Catalog) : Catalog := { c with blueprints := [], pointers := [] }

theorem Catalog.Alike.bare {c d : Catalog} (h : c.Alike d) : c.bare.Alike d.bare :=
  ⟨h.keyed, h.components, rfl, rfl, h.contracts, h.splices⟩

namespace Project

/-- The name that the entity of a blueprint is to have, if the blueprint has a heading. -/
def finalName? (p : Project) (b : BlueprintDecl) : Option String :=
  (Heading.of p b).toOption.map (·.name)

/-- The name of the entity that a blueprint becomes, if its fields can be saved. -/
def entityName? (p : Project) (b : BlueprintDecl) : Option String :=
  (Heading.of p b).toOption.bind fun h =>
    ((Draft.of p h).1.validate p).toOption.map fun _ => h.name

def bare (p : Project) : Project := { p with catalog := p.catalog.bare }

variable {p q : Project}

theorem foundationalOf_bare (p : Project) (entity : String) (found : Option String)
    (names : List String) :
    Heading.foundationalOf p.bare entity found names = Heading.foundationalOf p entity found names := by
  have hcomponent : p.bare.component? = p.component? := rfl
  induction names generalizing found with
  | nil => rfl
  | cons name rest ih =>
    unfold Heading.foundationalOf
    rw [hcomponent]
    simp only [ih]

theorem headingOf_bare (p : Project) : Heading.of p.bare = Heading.of p := by
  funext b
  unfold Heading.of
  simp only [foundationalOf_bare]

/-- Which name a blueprint is to have does not depend on other blueprints. -/
theorem finalName?_bare (p : Project) : p.bare.finalName? = p.finalName? := by
  unfold finalName?
  rw [headingOf_bare]

theorem dependencies_bare (p : Project) :
    p.bare.catalog.dependencies = p.catalog.dependencies := by
  have hedges : p.bare.catalog.edgesFrom = p.catalog.edgesFrom := rfl
  have hcomponents : p.bare.catalog.components = p.catalog.components := rfl
  funext name
  rw [Catalog.dependencies, Catalog.dependencies, hedges, hcomponents]

theorem draftOf_bare (p : Project) : Draft.of p.bare = Draft.of p := by
  have hcomponent : p.bare.component? = p.component? := rfl
  have hsettings : p.bare.settings = p.settings := rfl
  unfold Draft.of Catalog.resolve Catalog.withDependencies
  rw [dependencies_bare, hcomponent, hsettings]

/-- Nor does whether it becomes an entity. -/
theorem entityName?_bare (p : Project) : p.bare.entityName? = p.entityName? := by
  have hvalidate : Draft.validate p.bare = Draft.validate p := rfl
  unfold entityName?
  rw [headingOf_bare, draftOf_bare, hvalidate]

theorem Alike.finalName?_eq (h : p.Alike q) : p.finalName? = q.finalName? := by
  unfold finalName?
  rw [Heading.of_eq h]

theorem Alike.entityName?_eq (h : p.Alike q) : p.entityName? = q.entityName? := by
  unfold entityName?
  rw [Heading.of_eq h, Draft.of_eq h, Draft.validate_eq h]

end Project

namespace Snapshot.Rearranged

variable {s t : Snapshot}

theorem bare_alike (h : s.Rearranged t) (hnames : (s.components.map (·.name)).Nodup)
    (settings : Settings) :
    (Project.ofSnapshot settings s).bare.Alike (Project.ofSnapshot settings t).bare := by
  have halike := (s.alike_ofSnapshot h.components hnames).bare
  have hcatalog : (Catalog.ofSnapshot { s with components := t.components }).bare =
      (Catalog.ofSnapshot t).bare := by
    have hdeclares : { s with components := t.components }.declares = t.declares := rfl
    unfold Catalog.ofSnapshot
    rw [Snapshot.canonical_eq hdeclares, Snapshot.canonicalComponent_eq hdeclares, h.contracts]
    rfl
  rw [hcatalog] at halike
  exact ⟨rfl, h.codecs, halike⟩

/-- The blueprints of the catalogs are the same, up to their order. -/
theorem blueprints_perm (h : s.Rearranged t) :
    (Catalog.ofSnapshot s).blueprints.Perm (Catalog.ofSnapshot t).blueprints := by
  unfold Catalog.ofSnapshot
  rw [Snapshot.canonicalBlueprint_eq (Snapshot.declares_eq_of_perm h.components)]
  exact h.blueprints.map _

theorem pointers_perm (h : s.Rearranged t) :
    (Catalog.ofSnapshot s).pointers.Perm (Catalog.ofSnapshot t).pointers :=
  h.pointers.filter _

end Snapshot.Rearranged

/-- Under a heading stands the entity of that name, or none if its fields cannot be saved. -/
theorem Composed.map_name {s s' : MemoryPass} {h : Heading} {entity : Option Entity}
    (hc : Composed s h entity s') : entity.map (·.name) =
      ((Draft.of s.pass.project h).1.validate s.pass.project).toOption.map fun _ => h.name := by
  cases hentity : entity with
  | none =>
    rw [hentity] at hc
    cases hc with
    | uncoded hdraft hvalidate =>
      rw [hdraft, hvalidate]
      rfl
  | some e =>
    have hname := hc.name_eq hentity
    rw [hentity] at hc
    cases hc with
    | finished hdraft hvalidate =>
      rw [hdraft, hvalidate, Option.map_some, hname]
      rfl

namespace ComposedAll

variable {taken : List String} {blueprints : List BlueprintDecl} {s s' : MemoryPass}
  {entities : List Entity}

/-- Where no name is asked for twice, the entities are those of the blueprints that become one. -/
theorem map_name (hc : ComposedAll taken blueprints s entities s')
    (hdistinct : (blueprints.filterMap s.pass.project.finalName?).Nodup)
    (hfree : ∀ n ∈ blueprints.filterMap s.pass.project.finalName?, n ∉ taken) :
    entities.map (·.name) = blueprints.filterMap s.pass.project.entityName? := by
  induction hc with
  | nil => rfl
  | @refused taken b rest s s' e entities hheading _ ih =>
    have hfinal : s.pass.project.finalName? b = none := by
      rw [Project.finalName?, hheading]
      rfl
    have hentity : s.pass.project.entityName? b = none := by
      rw [Project.entityName?, hheading]
      rfl
    rw [List.filterMap_cons_none hfinal] at hdistinct hfree
    rw [List.filterMap_cons_none hentity]
    exact ih hdistinct hfree
  | @passedOver taken b rest s s' h entities hheading hname _ _ =>
    have hfinal : s.pass.project.finalName? b = some h.name := by
      rw [Project.finalName?, hheading]
      rfl
    rw [List.filterMap_cons_some hfinal] at hfree
    exact absurd hname (hfree h.name List.mem_cons_self)
  | @composed taken b rest s mid s' h entity entities hheading _ hfirst _ ih =>
    have hfinal : s.pass.project.finalName? b = some h.name := by
      rw [Project.finalName?, hheading]
      rfl
    have hentity : s.pass.project.entityName? b = entity.map (·.name) := by
      rw [hfirst.map_name, Project.entityName?, hheading]
      rfl
    rw [List.filterMap_cons_some hfinal, List.nodup_cons] at hdistinct
    rw [List.filterMap_cons_some hfinal] at hfree
    rw [hfirst.project_eq] at ih
    have hrest := ih hdistinct.2 fun n hn => by
      rw [List.mem_cons, not_or]
      refine ⟨fun heq => hdistinct.1 (heq ▸ hn), hfree n (List.mem_cons_of_mem _ hn)⟩
    cases entity with
    | none =>
      rw [List.filterMap_cons_none hentity]
      exact hrest
    | some e =>
      rw [List.filterMap_cons_some hentity, ← hrest]
      rfl

end ComposedAll

namespace Pass

variable {settings : Settings} {s t : Snapshot}

/-- A pass over blueprints with names of their own emits the registry of its pointers and of the
    blueprints that become entities. -/
theorem get?_registry {histories histories' : MemoryHistories} {outcome : Outcome}
    {units : MemoryUnits} (hdistinct : ((Catalog.ofSnapshot s).blueprints.filterMap
      (Project.ofSnapshot settings s).finalName?).Nodup)
    (hrun : runInMemory settings s histories = (.ok outcome, units, histories')) :
    let registry := Registry.assign (Catalog.ofSnapshot s).pointers
      ((Catalog.ofSnapshot s).blueprints.filterMap (Project.ofSnapshot settings s).entityName?)
      settings.outputPackage
    units.get? (registry.toUnit settings).qualifiedName = some (registry.toUnit settings) := by
  obtain ⟨p, entities, p', hstart, hrounds, -⟩ := runInMemory_eq_ok.1 hrun
  have hproject := (start_eq_ok hstart).1
  have hend : p'.project = p.project := by
    obtain ⟨first, second, last, hfirst, hsecond, hlast, hs'⟩ := hrounds
    obtain rfl : p' = { last.pass with entities } := congrArg (·.pass) hs'
    show last.pass.project = p.project
    rw [hlast.pass]
    exact hsecond.project_eq.trans (by rw [hfirst.pass])
  have hentities : entities.map (·.name) =
      (Catalog.ofSnapshot s).blueprints.filterMap (Project.ofSnapshot settings s).entityName? := by
    obtain ⟨first, second, last, hfirst, hsecond, -, -⟩ := hrounds
    have hfirstProject : first.pass.project = Project.ofSnapshot settings s := by
      rw [hfirst.pass]
      exact hproject
    rw [hfirstProject] at hsecond
    have hnames := hsecond.map_name (by rw [hfirstProject]; exact hdistinct)
      fun _ _ => List.not_mem_nil
    rwa [hfirstProject] at hnames
  intro registry
  refine hrounds.get?_of_mem_entityUnits ?_
  unfold entityUnits
  rw [hend, hproject, hentities]
  exact List.mem_append_right _ (List.mem_singleton_self _)

/-- Registration goes by names alone. Pointers and blueprints are numbered from zero, pointers ahead of
    blueprints, each kind by qualified name and each name once. Passes over the same declarations in
    different orders emit the same registry, as long as no two blueprints are to have one name. -/
theorem registration_order :
    (∀ (pointers : List PointerDecl) (blueprints : List String) (package : String),
      (Registry.assign pointers blueprints package).Lists (pointers.map (·.name))
        (blueprints.map (Registry.qualify package))) ∧
    ∀ {settings : Settings} {s t : Snapshot} {histories after histories' after' : MemoryHistories}
      {outcome outcome' : Outcome} {units units' : MemoryUnits}, s.Rearranged t →
      (s.components.map (·.name)).Nodup →
      ((Catalog.ofSnapshot s).blueprints.filterMap
        (Project.ofSnapshot settings s).finalName?).Nodup →
      runInMemory settings s histories = (.ok outcome, units, after) →
      runInMemory settings t histories' = (.ok outcome', units', after') →
      ∃ u : SourceUnit, u.name = Registry.typeName ∧ u.package = settings.outputPackage ∧
        units.get? u.qualifiedName = some u ∧ units'.get? u.qualifiedName = some u := by
  refine ⟨Registry.assign_lists, ?_⟩
  intro settings s t histories after histories' after' outcome outcome' units units' hst hnames
    hdistinct hrun hrun'
  have halike := hst.bare_alike hnames settings
  have hfinal : (Project.ofSnapshot settings s).finalName? =
      (Project.ofSnapshot settings t).finalName? := by
    rw [← Project.finalName?_bare, halike.finalName?_eq, Project.finalName?_bare]
  have hentity : (Project.ofSnapshot settings s).entityName? =
      (Project.ofSnapshot settings t).entityName? := by
    rw [← Project.entityName?_bare, halike.entityName?_eq, Project.entityName?_bare]
  have hdistinct' : ((Catalog.ofSnapshot t).blueprints.filterMap
      (Project.ofSnapshot settings t).finalName?).Nodup := by
    rw [← hfinal]
    exact (hst.blueprints_perm.filterMap _).nodup_iff.1 hdistinct
  have hregistry := get?_registry hdistinct hrun
  have hregistry' := get?_registry hdistinct' hrun'
  rw [← hentity, ← Registry.assign_perm hst.pointers_perm (hst.blueprints_perm.filterMap _)]
    at hregistry'
  exact ⟨_, rfl, rfl, hregistry, hregistry'⟩

end Pass

/-! ### A fleet -/

def hull : ComponentDecl := { name := "HullComp" }

def team : ComponentDecl := { name := "TeamComp" }

def mechBlueprint : BlueprintDecl := { name := some "Mech", components := ["HullComp"], genIo := false }

def droneBlueprint : BlueprintDecl :=
  { name := some "Drone", components := ["HullComp", "TeamComp"], genIo := false }

def turretPointer : PointerDecl := ⟨"game.Turret", true, none⟩

def cargoPointer : PointerDecl := ⟨"game.Cargo", true, none⟩

/-- Two entities and two types written by hand. -/
def fleet : Snapshot where
  components := [hull, team]
  blueprints := [mechBlueprint, droneBlueprint]
  pointers := [turretPointer, cargoPointer]

/-- The same fleet, declared from the other end. -/
def fleetReversed : Snapshot where
  components := [team, hull]
  blueprints := [droneBlueprint, mechBlueprint]
  pointers := [cargoPointer, turretPointer]

theorem fleet_rearranged : fleet.Rearranged fleetReversed :=
  ⟨.swap _ _ _, .swap _ _ _, .swap _ _ _, rfl, rfl⟩

def fleetPass (s : Snapshot) : Pass where
  project := .ofSnapshot sampleSettings s
  contracts := Contract.all (.ofSnapshot sampleSettings s)
  bases := .empty
  diagnostics := []

/-- A blueprint of the fleet is composed without mistakes. -/
theorem finish_fleet {s : Snapshot} (hs : s = fleet ∨ s = fleetReversed) {b : BlueprintDecl}
    (hb : b = mechBlueprint ∨ b = droneBlueprint) : ∃ d f,
      Draft.of (fleetPass s).project ⟨b, Heading.requestedName b, none⟩ = (d, []) ∧ d.hasIo = false ∧
      d.finish? (fleetPass s).project (fleetPass s).contracts [] .empty = some f ∧
        f.reports = [] ∧ f.bases = .empty ∧ f.entity.type.name = Heading.requestedName b := by
  have hresolve : (fleetPass s).project.catalog.resolve b.components = b.components.eraseDups := by
    refine Catalog.resolve_of_edgesFrom_eq_nil ?_
    rcases hs with rfl | rfl
    all_goals
      rcases hb with rfl | rfl
      all_goals decide
  unfold Draft.of
  rw [hresolve]
  rcases hs with rfl | rfl
  all_goals
    rcases hb with rfl | rfl
    all_goals exact ⟨_, _, rfl, rfl, rfl, rfl, rfl, rfl⟩

/-- A pass over the fleet succeeds, from whichever end it is declared. -/
theorem runInMemory_fleet {s : Snapshot} (hs : s = fleet ∨ s = fleetReversed) : ∃ outcome units,
    Pass.runInMemory sampleSettings s .empty = (.ok outcome, units, .empty) := by
  obtain ⟨b, b', hb, hb', hblueprints, hname, hfresh⟩ : ∃ b b',
      (b = mechBlueprint ∨ b = droneBlueprint) ∧ (b' = mechBlueprint ∨ b' = droneBlueprint) ∧
      (fleetPass s).project.catalog.blueprints = [b, b'] ∧
      Heading.requestedName b' ∉ [Heading.requestedName b] ∧
      ((fleetPass s).contractUnits.map (·.qualifiedName) ++
        [Heading.requestedName b, Heading.requestedName b', Registry.typeName].map
          (Registry.qualify "mymod.gen")).Nodup := by
    rw [Pass.map_qualifiedName_contractUnits]
    rcases hs with rfl | rfl
    · exact ⟨_, _, .inl rfl, .inr rfl, rfl, by decide, by decide⟩
    · exact ⟨_, _, .inr rfl, .inl rfl, rfl, by decide, by decide⟩
  have hheading : ∀ b, b = mechBlueprint ∨ b = droneBlueprint →
      Heading.of (fleetPass s).project b = .ok ⟨b, Heading.requestedName b, none⟩ := by
    rcases hs with rfl | rfl
    all_goals
      rintro _ (rfl | rfl)
      all_goals rfl
  obtain ⟨d, f, hdraft, hio, hfinish, hreports, hbases, htype⟩ := finish_fleet hs hb
  obtain ⟨d', f', hdraft', hio', hfinish', hreports', hbases', htype'⟩ := finish_fleet hs hb'
  have hcompose : ∀ emitted units, ComposedAll [] (fleetPass s).project.catalog.blueprints
      ⟨{ fleetPass s with emitted }, units, .empty⟩ [f.entity, f'.entity]
      ⟨{ fleetPass s with emitted }, units, .empty⟩ := by
    intro emitted units
    rw [hblueprints]
    refine .cons (hheading b hb) List.not_mem_nil hdraft hio hfinish hreports ?_
    rw [hbases]
    refine .cons (hheading b' hb') hname hdraft' hio' hfinish' hreports' ?_
    rw [hbases']
    exact .nil
  obtain ⟨emitted, units, hrounds⟩ := BothRounds.exists_of_nodup (fleetPass s) (fleetPass s) .empty
    hcompose (by
      rw [List.map_append, Pass.map_qualifiedName_entityUnits, List.map_cons, List.map_singleton,
        htype, htype']
      exact hfresh)
  refine ⟨_, units, Pass.runInMemory_eq_ok.2 ⟨_, _, _, ?_, hrounds, rfl⟩⟩
  rcases hs with rfl | rfl
  all_goals rfl

/-- The fleet has one registry, from whichever end it is declared. -/
theorem Pass.registration_order_fleet :
    fleet.Rearranged fleetReversed ∧ (fleet.components.map (·.name)).Nodup ∧
      ((Catalog.ofSnapshot fleet).blueprints.filterMap
        (Project.ofSnapshot sampleSettings fleet).finalName?).Nodup ∧
      ∃ outcome outcome' units units' u,
        runInMemory sampleSettings fleet .empty = (.ok outcome, units, .empty) ∧
        runInMemory sampleSettings fleetReversed .empty = (.ok outcome', units', .empty) ∧
        u.name = Registry.typeName ∧ units.get? u.qualifiedName = some u ∧
          units'.get? u.qualifiedName = some u := by
  have hnames : (fleet.components.map (·.name)).Nodup := by decide
  have hdistinct : ((Catalog.ofSnapshot fleet).blueprints.filterMap
      (Project.ofSnapshot sampleSettings fleet).finalName?).Nodup := by decide
  obtain ⟨outcome, units, hrun⟩ := runInMemory_fleet (.inl rfl)
  obtain ⟨outcome', units', hrun'⟩ := runInMemory_fleet (.inr rfl)
  obtain ⟨u, hname, -, hu, hu'⟩ := registration_order.2 fleet_rearranged hnames hdistinct hrun hrun'
  exact ⟨fleet_rearranged, hnames, hdistinct, outcome, outcome', units, units', u, hrun, hrun', hname,
    hu, hu'⟩

end EntityWeaver
