import EntityWeaver.Proofs.Pass.Memory

/-! Generating again changes nothing.

    A full pass leaves histories from which the same pass gives the same again and adds no revision.
    Whatever a pass makes of a blueprint depends on one history, the one of the entity's name, and no
    name is composed twice. So a blueprint finds the same history in the end as it left behind, as long
    as there was a version for what it had to add:

        histories  ──b₁──▶ · ──b₂──▶ · ──b₃──▶  end
        end        ──b₁──▶ end ──b₂──▶ end ──b₃──▶ end      the same entities -/

namespace EntityWeaver

/-- There is a version behind every one that an entity has. -/
def MemoryHistories.Room (h : MemoryHistories) (entity : String) : Prop :=
  ∀ r ∈ h.load entity, r.version < 0xffff

namespace Draft

variable {d : Draft} {histories histories' : MemoryHistories} {history : List Revision}

/-- Histories of other entities are left alone. -/
theorem load_of_revise (h : d.revise histories = (history, histories'))
    (hroom : histories.Room d.heading.name) {other : String} (hne : other ≠ d.heading.name) :
    histories'.load other = histories.load other := by
  unfold revise at h
  split at h
  · have hplace := MemoryHistories.hasPlaceFor_of_room hroom d.fields.layout
    have hother := (MemoryHistories.update_spec hplace).2.2 other hne
    rwa [h] at hother
  · cases h
    rfl

/-- A draft finds its history up to date in any histories that end with it. -/
theorem revise_again (h : d.revise histories = (history, histories'))
    (hroom : histories.Room d.heading.name) {final : MemoryHistories}
    (hfinal : final.load d.heading.name = histories'.load d.heading.name) :
    d.revise final = (history, final) := by
  unfold revise at h ⊢
  split at h
  · next hio =>
    obtain ⟨hload, ⟨r, hlast, hfields⟩, -⟩ :=
      MemoryHistories.update_spec (MemoryHistories.hasPlaceFor_of_room hroom d.fields.layout)
    rw [h] at hload hlast
    rw [if_pos hio, MemoryHistories.update_of_getLast? (by rwa [hfinal, hload]) hfields, hfinal, hload]
  · next hio =>
    cases h
    rw [if_neg hio]

end Draft

namespace Composed

variable {s s' : MemoryPass} {h : Heading} {entity : Option Entity}

/-- Composing one blueprint leaves the histories of others alone. -/
theorem load_of_ne (hc : Composed s h entity s') (hroom : s.histories.Room h.name) {other : String}
    (hne : other ≠ h.name) : s'.histories.load other = s.histories.load other := by
  cases hc with
  | uncoded => rfl
  | finished hdraft _ hrevise =>
    cases hdraft
    exact Draft.load_of_revise hrevise hroom hne

/-- Where a name is left free there is as much room as before. -/
theorem room (hc : Composed s h entity s') {taken : List String} (hnew : h.name ∉ taken)
    (hroom : ∀ name, name ∉ taken → s.histories.Room name) {name : String}
    (hname : name ∉ h.name :: taken) : s'.histories.Room name := by
  rw [List.mem_cons, not_or] at hname
  unfold MemoryHistories.Room
  rw [hc.load_of_ne (hroom _ hnew) hname.1]
  exact hroom name hname.2

/-- A blueprint composes alike, and adds no revision, with any histories that end with what it left. -/
theorem again (hc : Composed s h entity s') (hroom : s.histories.Room h.name)
    {final : MemoryHistories} (hfinal : final.load h.name = s'.histories.load h.name) :
    Composed { s with histories := final } h entity { s' with histories := final } := by
  cases hc with
  | uncoded hdraft hvalidate => exact .uncoded hdraft hvalidate
  | finished hdraft hvalidate hrevise hfinish =>
    cases hdraft
    exact .finished rfl hvalidate (Draft.revise_again hrevise hroom hfinal) hfinish

end Composed

namespace ComposedAll

variable {taken : List String} {blueprints : List BlueprintDecl} {s s' : MemoryPass}
  {entities : List Entity}

/-- The histories of names in use are left alone. -/
theorem load_of_mem (hc : ComposedAll taken blueprints s entities s')
    (hroom : ∀ name, name ∉ taken → s.histories.Room name) {name : String} (hname : name ∈ taken) :
    s'.histories.load name = s.histories.load name := by
  induction hc with
  | nil => rfl
  | refused _ _ ih => exact ih hroom hname
  | passedOver _ _ _ ih => exact ih hroom hname
  | composed _ hnew hfirst _ ih =>
    rw [ih (fun _ => hfirst.room hnew hroom) (List.mem_cons_of_mem _ hname)]
    exact hfirst.load_of_ne (hroom _ hnew) fun heq => hnew (heq ▸ hname)

/-- Blueprints compose alike, and add no revision, with any histories that agree with those left
    behind on every name that is free. -/
theorem again (hc : ComposedAll taken blueprints s entities s')
    (hroom : ∀ name, name ∉ taken → s.histories.Room name) {final : MemoryHistories}
    (hfinal : ∀ name, name ∉ taken → final.load name = s'.histories.load name) :
    ComposedAll taken blueprints { s with histories := final } entities
      { s' with histories := final } := by
  induction hc with
  | nil => exact .nil
  | refused hheading _ ih => exact .refused hheading (ih hroom hfinal)
  | passedOver hheading hname _ ih => exact .passedOver hheading hname (ih hroom hfinal)
  | composed hheading hnew hfirst hrest ih =>
    have hroomRest := fun name (hfree : name ∉ _) => hfirst.room hnew hroom hfree
    -- the name is in use from here on, so its history is the one that the first blueprint left
    have hname := hrest.load_of_mem hroomRest List.mem_cons_self
    refine .composed hheading hnew (hfirst.again (hroom _ hnew) ((hfinal _ hnew).trans hname)) ?_
    exact ih hroomRest fun name hfree => hfinal name fun hmem => hfree (List.mem_cons_of_mem _ hmem)

end ComposedAll

/-- Units are handed over alike whatever the histories. -/
theorem Emitted.withHistories {us : List SourceUnit} {s s' : MemoryPass} (h : Emitted us s s')
    (final : MemoryHistories) :
    Emitted us { s with histories := final } { s' with histories := final } :=
  ⟨h.fresh, h.pass, h.units, rfl⟩

/-- Both rounds run alike, and add no revision, from the histories that they left behind. -/
theorem BothRounds.again {s s' : MemoryPass} {entities : List Entity} (h : BothRounds s entities s')
    (hroom : ∀ name, s.histories.Room name) :
    BothRounds { s with histories := s'.histories } entities s' := by
  obtain ⟨first, second, last, hfirst, hsecond, hlast, rfl⟩ := h
  have hroomFirst : ∀ name, name ∉ ([] : List String) → first.histories.Room name := by
    intro name _
    rw [hfirst.histories]
    exact hroom name
  have hfinal : ∀ name, name ∉ ([] : List String) →
      last.histories.load name = second.histories.load name := fun _ _ => by rw [hlast.histories]
  exact ⟨_, _, _, hfirst.withHistories _, hsecond.again hroomFirst hfinal, hlast.withHistories _, rfl⟩

/-- Generating again changes nothing: a full pass that succeeds leaves histories from which the same
    pass succeeds with the same units and reports and leaves the same histories, as long as no entity
    had the last version to begin with. -/
theorem Pass.runInMemory_again {settings : Settings} {snapshot : Snapshot}
    {histories histories' : MemoryHistories} {outcome : Outcome} {units : MemoryUnits}
    (hroom : ∀ entity, ∀ r ∈ histories.load entity, r.version < 0xffff)
    (hrun : runInMemory settings snapshot histories = (.ok outcome, units, histories')) :
    runInMemory settings snapshot histories' = (.ok outcome, units, histories') := by
  obtain ⟨p, entities, p', hstart, hrounds, houtcome⟩ := runInMemory_eq_ok.1 hrun
  exact runInMemory_eq_ok.2 ⟨p, entities, p', hstart, hrounds.again hroom, houtcome⟩

/-- A component with one field, which depends on another component. -/
def healthComponent : ComponentDecl :=
  { name := "HealthComp", markers := ["TeamComp"], fields := [{ name := "health", type := "float" }] }

/-- The components, and an entity that they make up. -/
def dummySnapshot : Snapshot where
  components := [healthComponent, { name := "TeamComp" }]
  blueprints := [{ name := some "Dummy", components := ["HealthComp"] }]

def dummySettings : Settings where
  moduleName := "mymod"
  outputPackage := "mymod.gen"
  importPackage := "mindustry.gen"
  revisionDir := "revisions"

def dummyProject : Project := .ofSnapshot dummySettings dummySnapshot

/-- The entity had no field up to now, under version 3. -/
def dummyHistories : MemoryHistories := MemoryHistories.store .empty "Dummy" ⟨3, []⟩

/-- The history that it has with its field. -/
def dummyHistory : List Revision := [⟨3, []⟩, ⟨4, [⟨"health", "float"⟩]⟩]

def dummyPass : MemoryPass where
  pass := {
    project := dummyProject
    contracts := Contract.all dummyProject
    bases := BaseClass.all dummyProject
    diagnostics := Catalog.diagnostics dummySnapshot }
  units := .empty
  histories := dummyHistories

def dummyDraft : Draft where
  heading := ⟨{ name := some "Dummy", components := ["HealthComp"] }, "Dummy", none⟩
  resolved := ["HealthComp", "TeamComp"]
  components := [healthComponent, { name := "TeamComp" }]
  fields := ⟨[⟨{ name := "health", type := "float" }, "HealthComp", false⟩], []⟩
  groups := []
  synced := false

theorem draft_of_dummy : Draft.of dummyProject dummyDraft.heading = (dummyDraft, []) := by
  have hdependencies : dummyProject.catalog.dependencies "HealthComp" = ["TeamComp"] := by
    have hedges : dummyProject.catalog.edgesFrom "HealthComp" = ["TeamComp"] := rfl
    have hteam : dummyProject.catalog.edgesFrom "TeamComp" = [] := rfl
    have hkeys : dummyProject.catalog.components.keys = ["HealthComp", "TeamComp"] := rfl
    simp [Catalog.dependencies, hedges, hteam, hkeys, reached, ascending]
    rfl
  have hresolve : dummyProject.catalog.resolve dummyDraft.heading.blueprint.components =
      ["HealthComp", "TeamComp"] := by
    show dummyProject.catalog.resolve ["HealthComp"] = _
    simp [Catalog.resolve, hdependencies, ascending]
    rfl
  rw [Draft.of, hresolve]
  rfl

theorem serialized_dummy :
    FieldDecl.serialized dummyDraft.fields.decls = [{ name := "health", type := "float" }] :=
  List.mergeSort_singleton _

theorem validate_dummy : dummyDraft.validate dummyProject = .ok () := by
  simp only [Draft.validate, EntityStream.validate, EntityStream.uncoded?, EntityStream.serialized,
    Draft.stream, serialized_dummy]
  rfl

theorem revise_dummy : dummyDraft.revise dummyHistories =
    (dummyHistory, dummyHistories.store "Dummy" ⟨4, [⟨"health", "float"⟩]⟩) := by
  have hlayout : dummyDraft.fields.layout = [⟨"health", "float"⟩] := by
    rw [FieldSet.layout, serialized_dummy]
    rfl
  rw [Draft.revise, hlayout]
  rfl

/-- The entity is composed, whatever was handed over before. -/
theorem composedAll_dummy {us : List SourceUnit} {s : MemoryPass} (hs : Emitted us dummyPass s) :
    ∃ entity s', ComposedAll [] s.pass.project.catalog.blueprints s [entity] s' ∧
      entity.type.name = "Dummy" ∧ s'.units = s.units ∧ s'.pass.project = dummyProject ∧
      s'.pass.bases.values = [] ∧ s'.histories.load "Dummy" = dummyHistory := by
  have hproject : s.pass.project = dummyProject := by
    rw [hs.pass]
    rfl
  have hheading : Heading.of s.pass.project dummyDraft.heading.blueprint = .ok dummyDraft.heading := by
    rw [hproject]
    rfl
  have hdraft : Draft.of s.pass.project dummyDraft.heading = (dummyDraft, []) := by
    rw [hproject, draft_of_dummy]
  have hvalidate : dummyDraft.validate s.pass.project = .ok () := by
    rw [hproject, validate_dummy]
  have hrevise : dummyDraft.revise s.histories =
      (dummyHistory, dummyHistories.store "Dummy" ⟨4, [⟨"health", "float"⟩]⟩) := by
    rw [hs.histories]
    exact revise_dummy
  obtain ⟨f, hfinish, hname, hbases⟩ : ∃ f, dummyDraft.finish? s.pass.project s.pass.contracts
      dummyHistory s.pass.bases = some f ∧ f.entity.type.name = "Dummy" ∧ f.bases.values = [] := by
    rw [hs.pass]
    exact ⟨_, rfl, rfl, rfl⟩
  have hall := ComposedAll.composed hheading List.not_mem_nil
    (.finished hdraft hvalidate hrevise hfinish) .nil
  rw [hproject]
  exact ⟨f.entity, _, hall, hname, rfl, hproject, hbases, rfl⟩

theorem qualifiedNames_dummy : dummyPass.pass.contractUnits.map (·.qualifiedName) =
    ["mymod.gen.Healthc", "mymod.gen.Teamc"] := by
  rw [Pass.map_qualifiedName_contractUnits]
  rfl

/-- The pass over the components and the entity gets through both rounds, and adds a revision. -/
theorem bothRounds_dummy : ∃ entities s, BothRounds dummyPass entities s ∧
    s.histories.load "Dummy" = dummyHistory := by
  obtain ⟨first, hfirst⟩ : ∃ first, Emitted dummyPass.pass.contractUnits dummyPass first := by
    refine Emitted.exists_of_nodup ?_
    rw [qualifiedNames_dummy]
    decide
  obtain ⟨entity, second, hsecond, hname, hunits, hproject, hbases, hhistory⟩ :=
    composedAll_dummy hfirst
  have hkeys : second.units.keys = ["mymod.gen.Healthc", "mymod.gen.Teamc"] := by
    rw [← qualifiedNames_dummy, hunits, OrderedMap.keys, hfirst.units, List.map_append, List.map_map]
    rfl
  have hnames : (second.pass.entityUnits [entity]).map (·.qualifiedName) =
      ["mymod.gen.Dummy", "mymod.gen.EntityRegistry"] := by
    rw [Pass.map_qualifiedName_entityUnits, hbases, hproject, List.map_singleton, hname]
    rfl
  obtain ⟨last, hlast⟩ : ∃ last, Emitted (second.pass.entityUnits [entity]) second last := by
    refine Emitted.exists_of_nodup ?_
    rw [hkeys, hnames]
    decide
  refine ⟨[entity], _, ⟨first, second, last, hfirst, hsecond, hlast, rfl⟩, ?_⟩
  rw [← hhistory]
  exact congrArg (·.load "Dummy") hlast.histories

theorem Pass.runInMemory_dummy : ∃ outcome units histories,
    runInMemory dummySettings dummySnapshot dummyHistories = (.ok outcome, units, histories) ∧
      histories.load "Dummy" = dummyHistory := by
  have hstart : start dummySettings dummySnapshot = .ok dummyPass.pass := rfl
  obtain ⟨entities, s, hrounds, hhistory⟩ := bothRounds_dummy
  have hrun := runInMemory_eq_ok.2 ⟨dummyPass.pass, entities, s.pass, hstart, hrounds, rfl⟩
  exact ⟨_, _, _, hrun, hhistory⟩

/-- There is a version behind the one that the entity has. -/
theorem room_dummy : ∀ entity, dummyHistories.Room entity := by
  intro entity r hr
  by_cases hentity : entity = "Dummy"
  · subst hentity
    obtain rfl : r = ⟨3, []⟩ := List.mem_singleton.1 hr
    decide
  · rw [dummyHistories, MemoryHistories.load_store_of_ne hentity] at hr
    cases hr

/-- The entity gets a revision for its field, and that is all that it ever gets. -/
theorem Pass.runInMemory_again_dummy :
    (∀ entity, ∀ r ∈ dummyHistories.load entity, r.version < 0xffff) ∧
      ∃ outcome units histories,
        runInMemory dummySettings dummySnapshot dummyHistories = (.ok outcome, units, histories) ∧
        runInMemory dummySettings dummySnapshot histories = (.ok outcome, units, histories) ∧
        histories.load "Dummy" = dummyHistory := by
  obtain ⟨outcome, units, histories, hrun, hhistory⟩ := runInMemory_dummy
  exact ⟨room_dummy, outcome, units, histories, hrun, runInMemory_again room_dummy hrun, hhistory⟩

end EntityWeaver
