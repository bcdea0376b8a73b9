import EntityWeaver.Proofs.Methods
import EntityWeaver.Proofs.Pass.Composition
import EntityWeaver.Proofs.Pass.Memory
import EntityWeaver.Proofs.Resolution

/-! Which methods the classes of a pass declare.

    Where the components of a snapshot have blocks of their own, and each its methods apart, every
    entity is made from such components: it declares no signature twice, whatever the pass runs on and
    whatever it reports, unless it does so in one of three ways. The plainest of these is open: a
    component of a pooled entity has a method `reset`, and the entity is given one beside it. -/

namespace EntityWeaver

/-- The components of a snapshot are told apart by blocks, and the methods of each by signature. -/
structure Snapshot.Distinct (s : Snapshot) : Prop where
  blocks : (s.components.map fun c => ComponentName.block c.name).Nodup
  signatures : ∀ c ∈ s.components, (c.methods.map (·.signature)).Nodup

/-- So are the components of a draft, and their methods. -/
theorem Draft.distinct_of {s : Snapshot} (hs : s.Distinct) (settings : Settings) (h : Heading) :
    (Draft.of (.ofSnapshot settings s) h).1.Distinct where
  blocks := by
    have hresolved := Catalog.nodup_resolve (Catalog.ofSnapshot s) h.blueprint.components
    refine List.pairwise_map.2 (List.pairwise_filterMap.2 (hresolved.imp ?_))
    intro a b hne x hx y hy hblock
    obtain ⟨c, hc, rfl, rfl⟩ := Snapshot.exists_of_component? hx
    obtain ⟨d, hd, rfl, rfl⟩ := Snapshot.exists_of_component? hy
    exact hne (congrArg (·.name) (List.inj_on_of_nodup_map hs.blocks hc hd hblock))
  signatures c hc := by
    obtain ⟨name, -, hname⟩ := mem_components_of.1 hc
    obtain ⟨d, hd, -, rfl⟩ := Snapshot.exists_of_component? hname
    have hmethods := hs.signatures d hd
    rwa [Snapshot.canonicalComponent, List.map_map]

/-- No class of a pass declares a method twice, constructors aside, unless it does so in one of three
    ways: its components have a method that every entity is given, a helper is called like a method of
    another plan, or a setter is added beside a method that spells its type otherwise. -/
theorem Pass.signatures_nodup_iff {m : Type → Type} [Monad m] [LawfulMonad m] [MonadAttach m]
    [LawfulMonadAttach m] {sink : UnitSink m} {store : HistoryStore m} {settings : Settings}
    {snapshot : Snapshot} {p p' : Pass} (hstart : start settings snapshot = .ok p)
    (hrun : MonadAttach.CanReturn ((PassM.runRounds sink store).run.run p) (.ok (), p'))
    (hdistinct : snapshot.Distinct) {e : Entity} (he : e ∈ p'.finish.entities) :
    ∃ b ∈ p'.project.catalog.blueprints, ∃ h, e.ComposedOf p' b h ∧
      ((SourceMethod.signaturesOf e.type.methods).Nodup ↔ ¬e.Clashes b.pooled) := by
  obtain ⟨hadvanced, hentities⟩ := PassM.leads_runRounds hrun
  obtain ⟨b, hb, h, hcomposed⟩ := hentities e he
  refine ⟨b, hadvanced.project ▸ hb, h, hcomposed, ?_⟩
  obtain ⟨history, bases, f, hf, rfl, -, -⟩ := hcomposed.finished
  obtain ⟨rfl, -⟩ := Heading.of_eq_ok hcomposed.heading
  refine hf.nodup_iff_not_clashes ?_
  rw [hadvanced.project_eq hstart]
  exact Draft.distinct_of hdistinct settings h

/-! ### A unit that rests -/

/-- The method of the unit. -/
def unitReset : MethodDecl := .ofBody "reset" "rest();"

def restingBlueprint (pooled : Bool) : BlueprintDecl :=
  { name := some "Unit", components := ["UnitComp"], genIo := false, pooled }

/-- A unit rests when it is reset, and comes from a pool or not. -/
def resting (pooled : Bool) : Snapshot where
  components := [{ name := "UnitComp", methods := [unitReset] }]
  blueprints := [restingBlueprint pooled]

def restingProject (pooled : Bool) : Project := .ofSnapshot sampleSettings (resting pooled)

def restingPass (pooled : Bool) : Pass where
  project := restingProject pooled
  contracts := Contract.all (restingProject pooled)
  bases := BaseClass.all (restingProject pooled)
  diagnostics := Catalog.diagnostics (resting pooled)

def restingHeading (pooled : Bool) : Heading := ⟨restingBlueprint pooled, "Unit", none⟩

theorem resolve_resting (pooled : Bool) : (restingProject pooled).catalog.resolve
    (restingHeading pooled).blueprint.components = ["UnitComp"] :=
  Catalog.resolve_of_edgesFrom_eq_nil (List.forall_mem_singleton.2 rfl)

/-- The draft of the unit. -/
def restingDraft (pooled : Bool) : Draft where
  heading := restingHeading pooled
  resolved := ["UnitComp"]
  components := [{ name := "UnitComp", methods := [unitReset] }]
  fields := {}
  groups := []
  synced := false

theorem of_resting (pooled : Bool) :
    Draft.of (restingProject pooled) (restingHeading pooled) = (restingDraft pooled, []) := by
  unfold Draft.of
  rw [resolve_resting]
  rfl

/-- The method of the unit, as the draft has it. -/
def restingCandidate : Candidate :=
  ⟨{ name := "UnitComp", methods := [unitReset] }, unitReset⟩

/-- The plan of its method. -/
def restingPlan : MethodPlan :=
  ⟨.nullary "reset", "void", [], false, false, [.inline "UnitComp" "rest();"], []⟩

theorem merge_resting (pooled : Bool) : (restingDraft pooled).facts.merge (.nullary "reset")
    [restingCandidate] ((restingProject pooled).catalog.splices.aimedAt (.nullary "reset")) none =
      .ok (some restingPlan) := by
  cases pooled with
  | false =>
    exact MergeFacts.merge_of_ranked [restingCandidate] rfl rfl (by decide)
      (List.pairwise_singleton _ _) .nil
  | true =>
    exact MergeFacts.merge_of_ranked [restingCandidate] rfl rfl (by decide)
      (List.pairwise_singleton _ _) .nil

theorem merged_resting (pooled : Bool) : (restingDraft pooled).merged (restingProject pooled) [] =
    [{ plan := some restingPlan }] := by
  have hmerge := merge_resting pooled
  have hio : (restingDraft pooled).hasIo = false := rfl
  show [(restingDraft pooled).mergeSignature (restingProject pooled) [] (.nullary "reset")
    [restingCandidate]] = _
  unfold Draft.mergeSignature
  simp [hio, hmerge]

/-- The unit is composed without mistakes. -/
theorem finish_resting (pooled : Bool) : ∃ f, (restingDraft pooled).finish? (restingProject pooled)
    (restingPass pooled).contracts [] (restingPass pooled).bases = some f ∧ f.reports = [] ∧
      f.bases.values = [] := by
  have hplanned : ∃ planned, (((restingDraft pooled).merged (restingProject pooled) []).filterMap
      (·.plan)).mapM MethodPlan.toSource? = some planned := by
    rw [merged_resting]
    exact ⟨_, rfl⟩
  obtain ⟨planned, hplanned⟩ := hplanned
  obtain ⟨f, hf⟩ : ∃ f, (restingDraft pooled).finish? (restingProject pooled)
      (restingPass pooled).contracts [] (restingPass pooled).bases = some f :=
    Draft.exists_finish? hplanned
  have hfinished := Draft.finish?_eq_some hf
  refine ⟨f, hf, ?_, ?_⟩
  · rw [hfinished.reports, merged_resting]
    cases pooled with
    | false => rfl
    | true => rfl
  · have hnames := hfinished.grown_bases.map_name_eq
    have hnone : (restingPass pooled).bases.values.map (·.type.name) = [] := by
      cases pooled with
      | false => rfl
      | true => rfl
    rwa [hnone, List.map_eq_nil_iff] at hnames

/-- The pass over the unit ends well. -/
theorem bothRounds_resting (pooled : Bool) : ∃ f emitted units,
    Draft.FinishedFrom (restingProject pooled) (restingPass pooled).contracts (restingDraft pooled) []
      (restingPass pooled).bases f ∧
    BothRounds ⟨restingPass pooled, .empty, .empty⟩ [f.entity]
      ⟨{ restingPass pooled with bases := f.bases, entities := [f.entity], emitted }, units,
        .empty⟩ := by
  obtain ⟨f, hfinish, hreports, hbases⟩ := finish_resting pooled
  have hfinished := Draft.finish?_eq_some hfinish
  have hnames : ((restingPass pooled).contractUnits ++
      ({ restingPass pooled with bases := f.bases } : Pass).entityUnits [f.entity]).map
        (·.qualifiedName) = ["mymod.gen.Unitc", "mymod.gen.Unit", "mymod.gen.EntityRegistry"] := by
    rw [List.map_append, Pass.map_qualifiedName_contractUnits, Pass.map_qualifiedName_entityUnits,
      hbases, List.map_singleton, hfinished.type_eq.1]
    cases pooled with
    | false => rfl
    | true => rfl
  obtain ⟨emitted, units, hrounds⟩ := BothRounds.exists_of_nodup (restingPass pooled)
    { restingPass pooled with bases := f.bases } .empty
    (fun _ _ => .cons rfl List.not_mem_nil (of_resting pooled) rfl hfinish hreports .nil)
    (by rw [hnames]; decide)
  exact ⟨f, emitted, units, hfinished, hrounds⟩

theorem distinct_resting (pooled : Bool) : (resting pooled).Distinct where
  blocks := List.nodup_singleton _
  signatures := List.forall_mem_singleton.2 (List.nodup_singleton _)

/-- A unit that does not come from a pool declares every method once, its own `reset` among them. -/
theorem Pass.signatures_nodup_iff_resting : ∃ p',
    start sampleSettings (resting false) = .ok (restingPass false) ∧
    MonadAttach.CanReturn ((PassM.runRounds memorySink memoryStore : PassM Memory Unit).run.run
      (restingPass false)) (.ok (), p') ∧
    (resting false).Distinct ∧ ∃ e ∈ p'.finish.entities, e.plans = [restingPlan] ∧
      (SourceMethod.signaturesOf e.type.methods).Nodup := by
  obtain ⟨f, emitted, units, hfinished, hrounds⟩ := bothRounds_resting false
  have hrun := PassM.leads_of_exec (PassM.exec_runRounds_eq_ok.2 ⟨_, hrounds⟩)
  have hplans : f.entity.plans = [restingPlan] := by
    rw [hfinished.plans, merged_resting]
    rfl
  have hfields : f.entity.fields.fields = [] := by
    rw [hfinished.fields]
    rfl
  have hstart : start sampleSettings (resting false) = .ok (restingPass false) := rfl
  refine ⟨_, hstart, hrun, distinct_resting false, f.entity, List.mem_singleton_self _, hplans, ?_⟩
  obtain ⟨b, hb, h, -, hiff⟩ := signatures_nodup_iff hstart hrun (distinct_resting false)
    (List.mem_singleton_self f.entity)
  obtain rfl : b = restingBlueprint false := List.mem_singleton.1 hb
  refine hiff.2 fun hclash => ?_
  cases hclash with
  | supplied hplan hsignature =>
    rw [hplans, List.mem_singleton] at hplan
    rw [hplan] at hsignature
    revert hsignature
    decide
  | helper hplan hh =>
    rw [hplans, List.mem_singleton] at hplan
    rw [hplan] at hh
    cases hh
  | respelled hfield =>
    rw [hfields] at hfield
    cases hfield

/-- One that comes from a pool declares `reset()` twice, in a pass without mistakes. -/
theorem Pass.exists_reset_twice : ∃ p',
    start sampleSettings (resting true) = .ok (restingPass true) ∧
    MonadAttach.CanReturn ((PassM.runRounds memorySink memoryStore : PassM Memory Unit).run.run
      (restingPass true)) (.ok (), p') ∧
    p'.finish.errorCount = 0 ∧ (resting true).Distinct ∧
    ∃ e ∈ p'.finish.entities, ¬(SourceMethod.signaturesOf e.type.methods).Nodup := by
  obtain ⟨f, emitted, units, hfinished, hrounds⟩ := bothRounds_resting true
  have hrun := PassM.leads_of_exec (PassM.exec_runRounds_eq_ok.2 ⟨_, hrounds⟩)
  have hplan : restingPlan ∈ f.entity.plans := by
    rw [hfinished.plans, merged_resting]
    exact List.mem_singleton_self _
  have hdistinct : (restingDraft true).Distinct := by
    have hof := Draft.distinct_of (distinct_resting true) sampleSettings (restingHeading true)
    rwa [← restingProject, of_resting] at hof
  refine ⟨_, rfl, hrun, rfl, distinct_resting true, f.entity, List.mem_singleton_self _, ?_⟩
  intro hnodup
  exact (hfinished.nodup_iff_not_clashes hdistinct).1 hnodup (.supplied hplan (by decide))

end EntityWeaver
