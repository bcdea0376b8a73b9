import EntityWeaver.Proofs.Hoisting
import EntityWeaver.Proofs.Implementation
import EntityWeaver.Proofs.Pass.Composition
import EntityWeaver.Proofs.Pass.Memory

/-! Contracts are implemented.

    In a pass that ends without mistakes every entity implements the contracts of its components, if no
    component comes from elsewhere and no field is of the type that stands for no result. Base classes
    are looked at as they are at the end of the pass, when all entities have added to them.

    That an accessor is told from a printed signature leaves one way out, and it is open: a field whose
    type is written as nothing has a setter that is printed like its getter, and gets no setter. -/

namespace EntityWeaver

/-- Every contract method is implemented. In a pass that gets through both rounds without mistakes,
    whatever it runs on, each component of an entity has a contract, and the entity implements all its
    methods; only an accessor can be missing, and only if another method is printed like it, of which
    one does not read back. -/
theorem Pass.contracts_implemented {m : Type → Type} [Monad m] [LawfulMonad m] [MonadAttach m]
    [LawfulMonadAttach m] {sink : UnitSink m} {store : HistoryStore m} {settings : Settings}
    {snapshot : Snapshot} {p p' : Pass} (hstart : start settings snapshot = .ok p)
    (hrun : MonadAttach.CanReturn ((PassM.runRounds sink store).run.run p) (.ok (), p'))
    (hok : p'.finish.errorCount = 0) (himports : ∀ c ∈ snapshot.components, c.imported = false)
    (htypes : ∀ c ∈ snapshot.components, ∀ f ∈ c.fields, f.type ≠ voidType) {e : Entity}
    (he : e ∈ p'.finish.entities) {component : String} (hcomponent : component ∈ e.components) :
    ∃ contract, p'.contracts.get? component = some contract ∧ ∀ method ∈ contract.methods,
      Implements p'.project p'.bases e method ∨ PrintedAlike e method := by
  obtain ⟨-, hcontracts, hbases⟩ := start_eq_ok hstart
  obtain ⟨hadvanced, hentities⟩ := PassM.leads_runRounds hrun
  obtain ⟨b, -, h, hcomposed⟩ := hentities e he
  obtain ⟨history, bases, f, hf, rfl, hmistakes, hgrown⟩ := hcomposed.finished
  have hclean := Diagnostic.errorCount_eq_zero_iff.1 hok
  have hproject' := hadvanced.project_eq hstart
  have hkeyed := hadvanced.keyed hstart
  have hbasesKeyed : BaseClass.Keyed bases := by
    refine (hf.grown_bases.trans hgrown).keyed_iff.2 (hadvanced.bases.keyed_iff.1 ?_)
    rw [hbases, ← hadvanced.project]
    exact fun _ _ => BaseClass.component_of_get?_all hkeyed
  have hnone : f.reports = [] := by
    refine List.eq_nil_iff_forall_not_mem.2 fun report hreport => ?_
    cases (hclean report (hmistakes hreport)).symm.trans (hf.isError_of_mem_reports hreport)
  have hdistinct := hcomposed.not_reportsDuplicate hok
  have hlocal : h.base.any p'.project.isImported = false := by
    rw [hproject', Option.any_eq_false]
    exact fun name _ => Project.isImported_ofSnapshot himports name
  rw [hf.components] at hcomponent
  obtain ⟨c, hc⟩ := Heading.exists_component_of_mem_resolve hkeyed hcomposed.heading hcomponent
  obtain rfl := Catalog.name_of_component? hkeyed hc
  obtain ⟨d, hd, -, hcanonical⟩ := Snapshot.exists_of_component? (hproject' ▸ hc)
  have himported : c.imported = false := hcanonical ▸ himports d hd
  have hcontract : p'.contracts.get? c.name = some (Contract.ofComponent p'.project c) := by
    rw [hadvanced.contracts, hcontracts, ← hadvanced.project]
    exact (Contract.get?_all_eq_some_iff hkeyed).2 ⟨c, hc, Contract.of?_of_not_imported himported⟩
  refine ⟨_, hcontract, fun method hmethod => ?_⟩
  have hvoid : ∀ f ∈ c.fields, f.type ≠ voidType := hcanonical ▸ htypes d hd
  have hmem := Draft.mem_components_of.2 ⟨_, hcomponent, hc⟩
  exact (hf.implements hnone hbasesKeyed hdistinct hlocal hmem hcontract rfl hvoid hmethod).imp_left
    (.mono hgrown)

/-! ### A ship -/

def shipPass : Pass where
  project := shipyardProject
  contracts := Contract.all shipyardProject
  bases := BaseClass.all shipyardProject
  diagnostics := Catalog.diagnostics shipyard

theorem finish_ship : ∃ f, (Draft.of shipyardProject shipHeading).1.finish? shipyardProject
    shipPass.contracts [] shipPass.bases = some f ∧ f.reports = [] := by
  unfold Draft.of
  rw [resolve_ship]
  exact ⟨_, rfl, rfl⟩

/-- The ship is composed in a pass without mistakes. -/
theorem bothRounds_ship : ∃ f emitted units,
    Draft.FinishedFrom shipyardProject shipPass.contracts (Draft.of shipyardProject shipHeading).1 []
      shipPass.bases f ∧
    BothRounds ⟨shipPass, .empty, .empty⟩ [f.entity]
      ⟨{ shipPass with bases := f.bases, entities := [f.entity], emitted }, units, .empty⟩ := by
  obtain ⟨f, hfinish, hreports⟩ := finish_ship
  have hfinished := Draft.finish?_eq_some hfinish
  have hdraft : Draft.of shipyardProject shipHeading =
      ((Draft.of shipyardProject shipHeading).1, []) := Prod.ext rfl reports_ship
  have hnames : (shipPass.contractUnits ++ ({ shipPass with bases := f.bases } : Pass).entityUnits
      [f.entity]).map (·.qualifiedName) = ["mymod.gen.Healthc", "mymod.gen.Hullc", "mymod.gen.Posc",
        "mymod.gen.Ship", "mymod.gen.Hull", "mymod.gen.EntityRegistry"] := by
    have hkeyed : shipyardProject.catalog.Keyed := shipyard.keyed_ofSnapshot
    have hbases : f.bases.values.map (·.type.name) = ["Hull"] :=
      hfinished.grown_bases.map_name_eq.trans (BaseClass.map_name_all hkeyed)
    rw [List.map_append, Pass.map_qualifiedName_contractUnits, Pass.map_qualifiedName_entityUnits,
      hbases, List.map_singleton, hfinished.type_eq.1]
    rfl
  obtain ⟨emitted, units, hrounds⟩ := BothRounds.exists_of_nodup shipPass
    { shipPass with bases := f.bases } .empty
    (fun _ _ => .cons rfl List.not_mem_nil hdraft rfl hfinish hreports .nil) (by rw [hnames]; decide)
  exact ⟨f, emitted, units, hfinished, hrounds⟩

/-- The ship implements the contract of its hull, by accessors in the base class. -/
theorem Pass.contracts_implemented_ship : ∃ p',
    MonadAttach.CanReturn
      ((PassM.runRounds memorySink memoryStore : PassM Memory Unit).run.run shipPass) (.ok (), p') ∧
    p'.finish.errorCount = 0 ∧
    ∃ e ∈ p'.finish.entities, "HullComp" ∈ e.components ∧
      ∃ contract, p'.contracts.get? "HullComp" = some contract ∧ ∀ method ∈ contract.methods,
        Implements p'.project p'.bases e method ∨ PrintedAlike e method := by
  obtain ⟨f, emitted, units, hfinished, hrounds⟩ := bothRounds_ship
  have hrun := PassM.leads_of_exec (PassM.exec_runRounds_eq_ok.2 ⟨_, hrounds⟩)
  have hcomponent : "HullComp" ∈ f.entity.components := by
    rw [hfinished.components]
    show "HullComp" ∈ shipyardProject.catalog.resolve shipHeading.blueprint.components
    rw [resolve_ship]
    decide
  have hstart : start sampleSettings shipyard = .ok shipPass := rfl
  have himplemented := contracts_implemented hstart hrun rfl (by decide) (by decide)
    (List.mem_singleton_self _) hcomponent
  exact ⟨_, hrun, rfl, f.entity, List.mem_singleton_self _, hcomponent, himplemented⟩

/-! ### A field without a type -/

/-- The type of the field is not written out. -/
def untyped : Snapshot where
  components := [{ name := "HealthComp", fields := [{ name := "health", type := "" }] }]
  blueprints := [{ name := some "Unit", components := ["HealthComp"], genIo := false }]

def untypedProject : Project := .ofSnapshot sampleSettings untyped

def untypedPass : Pass where
  project := untypedProject
  contracts := Contract.all untypedProject
  bases := BaseClass.all untypedProject
  diagnostics := Catalog.diagnostics untyped

def untypedHeading : Heading :=
  ⟨{ name := some "Unit", components := ["HealthComp"], genIo := false }, "Unit", none⟩

theorem resolve_untyped : untypedProject.catalog.resolve untypedHeading.blueprint.components =
    ["HealthComp"] :=
  Catalog.resolve_of_edgesFrom_eq_nil (List.forall_mem_singleton.2 rfl)

/-- The entity has six methods, of which the last is the getter of its field. -/
theorem finish_untyped : ∃ d f, Draft.of untypedProject untypedHeading = (d, []) ∧ d.hasIo = false ∧
    d.finish? untypedProject untypedPass.contracts [] untypedPass.bases = some f ∧ f.reports = [] ∧
    f.bases.values = [] ∧ f.entity.type.name = "Unit" ∧ f.entity.plans = [] ∧ f.entity.base = none ∧
    f.entity.components = ["HealthComp"] ∧
    f.entity.type.methods.map (fun q => (q.name, q.params.length)) =
      [("toString", 0), ("serialize", 0), ("Unit", 0), ("create", 0), ("classId", 0), ("health", 0)] := by
  unfold Draft.of
  rw [resolve_untyped]
  exact ⟨_, _, rfl, rfl, rfl, rfl, rfl, rfl, rfl, rfl, rfl, rfl⟩

/-- The setter of a field without a type is printed like its getter and is left out, so a contract
    method can be missing in a pass without mistakes. -/
theorem Pass.exists_unimplemented : ∃ p' contract method,
    start sampleSettings untyped = .ok untypedPass ∧
    MonadAttach.CanReturn
      ((PassM.runRounds memorySink memoryStore : PassM Memory Unit).run.run untypedPass) (.ok (), p') ∧
    p'.finish.errorCount = 0 ∧ (∀ c ∈ untyped.components, c.imported = false) ∧
    (∀ c ∈ untyped.components, ∀ f ∈ c.fields, f.type ≠ voidType) ∧
    ∃ e ∈ p'.finish.entities, "HealthComp" ∈ e.components ∧
      p'.contracts.get? "HealthComp" = some contract ∧ method ∈ contract.methods ∧
        ¬Implements p'.project p'.bases e method := by
  obtain ⟨d, f, hdraft, hio, hfinish, hreports, hbases, hname, hplans, hbase, hcomponents, hmethods⟩ :=
    finish_untyped
  have hnames : (untypedPass.contractUnits ++ ({ untypedPass with bases := f.bases } : Pass).entityUnits
      [f.entity]).map (·.qualifiedName) =
        ["mymod.gen.Healthc", "mymod.gen.Unit", "mymod.gen.EntityRegistry"] := by
    rw [List.map_append, Pass.map_qualifiedName_contractUnits, Pass.map_qualifiedName_entityUnits,
      hbases, List.map_singleton, hname]
    rfl
  obtain ⟨emitted, units, hrounds⟩ := BothRounds.exists_of_nodup untypedPass
    { untypedPass with bases := f.bases } .empty
    (fun _ _ => .cons rfl List.not_mem_nil hdraft hio hfinish hreports .nil) (by rw [hnames]; decide)
  have hrun := PassM.leads_of_exec (PassM.exec_runRounds_eq_ok.2 ⟨_, hrounds⟩)
  refine ⟨_, _, { name := "health", returnType := voidType, params := [⟨"health", ""⟩] }, rfl, hrun, rfl,
    by decide, by decide, f.entity, List.mem_singleton_self _, ?_, rfl, ?_, fun himplements => ?_⟩
  · rw [hcomponents]
    exact List.mem_singleton_self _
  · decide
  cases himplements with
  | merged hplan =>
    rw [hplans] at hplan
    cases hplan
  | declared hown hownName harity =>
    have hmem := List.mem_map_of_mem (f := fun q => (q.name, q.params.length)) hown
    rw [hmethods, hownName, harity] at hmem
    revert hmem
    decide
  | inherited hextends =>
    cases hbase.symm.trans hextends
  | supplied hmem hcomponent hmethod =>
    rw [hcomponents] at hmem
    obtain rfl := List.mem_singleton.1 hmem
    cases hcomponent
    cases hmethod

end EntityWeaver
