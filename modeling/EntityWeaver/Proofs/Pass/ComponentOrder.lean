import EntityWeaver.Proofs.Entity
import EntityWeaver.Proofs.Pass.Regeneration

/-! What is generated does not depend on the order of components.

    Two passes over the same declarations, in which components stand in different orders, go hand in
    hand. At every point their contracts, base classes and emitted units are the same up to order, and
    their histories are equal; reports may come in another order.

        s ──step──▶ s'
        ≀           ≀
        t ──step──▶ t'  -/

namespace EntityWeaver

/-- Two passes over the same declarations that have got equally far. -/
structure MemoryPass.Alike (s t : MemoryPass) : Prop where
  project : s.pass.project.Alike t.pass.project
  contracts : s.pass.contracts.entries.Perm t.pass.contracts.entries
  bases : s.pass.bases.entries.Perm t.pass.bases.entries
  units : s.units.entries.Perm t.units.entries
  histories : s.histories = t.histories

variable {s s' t : MemoryPass}

theorem MemoryPass.Alike.report (h : s.Alike t) (reports : List Diagnostic) :
    (s.report reports).Alike (t.report reports) :=
  ⟨h.project, h.contracts, h.bases, h.units, h.histories⟩

theorem Draft.validate_eq {p q : Project} (h : p.Alike q) : Draft.validate p = Draft.validate q := by
  unfold validate
  rw [stream_eq h]

/-- A blueprint is composed alike. -/
theorem Composed.alike {h : Heading} {entity : Option Entity} (hc : Composed s h entity s')
    (hst : s.Alike t) : ∃ t', Composed t h entity t' ∧ s'.Alike t' := by
  obtain ⟨hproject, hcontracts, hbases, hunits, hhistories⟩ := hst
  cases hc with
  | uncoded hdraft hvalidate =>
    rw [Draft.of_eq hproject] at hdraft
    rw [Draft.validate_eq hproject] at hvalidate
    exact ⟨_, .uncoded hdraft hvalidate, hproject, hcontracts, hbases, hunits, hhistories⟩
  | finished hdraft hvalidate hrevise hfinish =>
    rw [Draft.of_eq hproject] at hdraft
    rw [Draft.validate_eq hproject] at hvalidate
    rw [hhistories] at hrevise
    obtain ⟨f', hfinish', hentity, hbases'⟩ := Draft.finish?_alike hproject hcontracts hbases hfinish
    rw [← hentity]
    exact ⟨_, .finished hdraft hvalidate hrevise hfinish', hproject, hcontracts, hbases', hunits, rfl⟩

/-- Blueprints are composed alike. -/
theorem ComposedAll.alike {taken : List String} {blueprints : List BlueprintDecl}
    {entities : List Entity} (hc : ComposedAll taken blueprints s entities s') (hst : s.Alike t) :
    ∃ t', ComposedAll taken blueprints t entities t' ∧ s'.Alike t' := by
  induction hc generalizing t with
  | nil => exact ⟨t, .nil, hst⟩
  | refused hheading _ ih =>
    rw [Heading.of_eq hst.project] at hheading
    obtain ⟨t', hrest, hs'⟩ := ih (hst.report _)
    exact ⟨t', .refused hheading hrest, hs'⟩
  | passedOver hheading hname _ ih =>
    rw [Heading.of_eq hst.project] at hheading
    obtain ⟨t', hrest, hs'⟩ := ih hst
    exact ⟨t', .passedOver hheading hname hrest, hs'⟩
  | composed hheading hnew hfirst _ ih =>
    rw [Heading.of_eq hst.project] at hheading
    obtain ⟨mid, hfirst', hmid⟩ := hfirst.alike hst
    obtain ⟨t', hrest, hs'⟩ := ih hmid
    exact ⟨t', .composed hheading hnew hfirst' hrest, hs'⟩

/-- Units are handed over alike, in any order. -/
theorem Emitted.alike {us vs : List SourceUnit} (he : Emitted us s s') (hst : s.Alike t)
    (huv : us.Perm vs) : ∃ t', Emitted vs t t' ∧ s'.Alike t' := by
  have hfresh : (t.units.keys ++ vs.map (·.qualifiedName)).Nodup :=
    ((hst.units.map _).append (huv.map _)).nodup_iff.1 he.fresh
  obtain ⟨t', ht'⟩ := exists_of_nodup hfresh
  refine ⟨t', ht', ?_, ?_, ?_, ?_, ?_⟩
  · rw [he.pass, ht'.pass]
    exact hst.project
  · rw [he.pass, ht'.pass]
    exact hst.contracts
  · rw [he.pass, ht'.pass]
    exact hst.bases
  · rw [he.units, ht'.units]
    exact hst.units.append (huv.map _)
  · rw [he.histories, ht'.histories]
    exact hst.histories

theorem Pass.contractUnits_perm (h : s.Alike t) : s.pass.contractUnits.Perm t.pass.contractUnits := by
  unfold contractUnits
  rw [h.project.isImported_eq, h.project.settings, h.project.importsOf_eq]
  exact (h.contracts.filter _).map _

theorem Pass.entityUnits_perm (h : s.Alike t) (entities : List Entity) :
    (s.pass.entityUnits entities).Perm (t.pass.entityUnits entities) := by
  unfold entityUnits
  rw [h.project.settings, h.project.importsOf_eq, h.project.catalog.pointers]
  exact ((h.bases.map _).map _).append_left _ |>.append_right _

/-- Both rounds are run alike. -/
theorem BothRounds.alike {entities : List Entity} (h : BothRounds s entities s') (hst : s.Alike t) :
    ∃ t', BothRounds t entities t' ∧ s'.Alike t' := by
  obtain ⟨first, second, last, hfirst, hsecond, hlast, rfl⟩ := h
  obtain ⟨first', hfirst', h₁⟩ := hfirst.alike hst (Pass.contractUnits_perm hst)
  obtain ⟨second', hsecond', h₂⟩ := hsecond.alike h₁
  obtain ⟨last', hlast', h₃⟩ := hlast.alike h₂ (Pass.entityUnits_perm h₂ entities)
  rw [h₁.project.catalog.blueprints] at hsecond'
  exact ⟨_, ⟨first', second', last', hfirst', hsecond', hlast', rfl⟩, h₃.project, h₃.contracts,
    h₃.bases, h₃.units, h₃.histories⟩

namespace Pass

variable {settings : Settings} {snapshot : Snapshot} {components : List ComponentDecl}

/-- Passes over a snapshot and a rearrangement of it start alike. -/
theorem start_alike {p : Pass} (hperm : snapshot.components.Perm components)
    (hnames : (snapshot.components.map (·.name)).Nodup) (hstart : start settings snapshot = .ok p)
    (histories : MemoryHistories) : ∃ q, start settings { snapshot with components } = .ok q ∧
      MemoryPass.Alike ⟨p, .empty, histories⟩ ⟨q, .empty, histories⟩ := by
  have hnone := Snapshot.duplicate?_eq_none_iff.2 hnames
  have hnone' : { snapshot with components }.duplicate? = none :=
    Snapshot.duplicate?_eq_none_iff.2 ((hperm.map _).nodup_iff.1 hnames)
  have halike : (Project.ofSnapshot settings snapshot).Alike
      (.ofSnapshot settings { snapshot with components }) :=
    ⟨rfl, rfl, Snapshot.alike_ofSnapshot hperm hnames⟩
  unfold start at hstart ⊢
  rw [hnone] at hstart
  rw [hnone']
  cases hmissing : settings.missing? with
  | some e =>
    rw [hmissing] at hstart
    cases hstart
  | none =>
    rw [hmissing] at hstart
    cases hstart
    exact ⟨_, rfl, halike, Contract.all_perm halike, BaseClass.all_perm halike, .nil, rfl⟩

/-- If a pass succeeds, so does the pass over a rearrangement. -/
theorem runInMemory_of_perm {histories histories' : MemoryHistories} {outcome : Outcome}
    {units : MemoryUnits} (hperm : snapshot.components.Perm components)
    (hnames : (snapshot.components.map (·.name)).Nodup)
    (hrun : runInMemory settings snapshot histories = (.ok outcome, units, histories')) :
    ∃ outcome' units', runInMemory settings { snapshot with components } histories =
        (.ok outcome', units', histories') ∧ units.entries.Perm units'.entries := by
  obtain ⟨p, entities, p', hstart, hrounds, -⟩ := runInMemory_eq_ok.1 hrun
  obtain ⟨q, hstart', halike⟩ := start_alike hperm hnames hstart histories
  obtain ⟨t', hrounds', halike'⟩ := hrounds.alike halike
  obtain ⟨q', units', histories''⟩ := t'
  obtain rfl : histories' = histories'' := halike'.histories
  exact ⟨_, units', runInMemory_eq_ok.2 ⟨q, entities, q', hstart', hrounds', rfl⟩, halike'.units⟩

/-- What is generated does not depend on the order of components: either both passes stop, or both
    succeed with the same units, up to their order, and the same histories. -/
theorem runInMemory_perm (hperm : snapshot.components.Perm components)
    (hnames : (snapshot.components.map (·.name)).Nodup) (histories : MemoryHistories) :
    (∃ e e', (runInMemory settings snapshot histories).1 = .error e ∧
        (runInMemory settings { snapshot with components } histories).1 = .error e') ∨
      ∃ outcome outcome' units units' histories',
        runInMemory settings snapshot histories = (.ok outcome, units, histories') ∧
        runInMemory settings { snapshot with components } histories =
          (.ok outcome', units', histories') ∧
        units.entries.Perm units'.entries ∧ ∀ name, units.get? name = units'.get? name := by
  have hperm' : { snapshot with components }.components.Perm snapshot.components := hperm.symm
  have hnames' : (components.map (·.name)).Nodup := (hperm.map _).nodup_iff.1 hnames
  rcases hrun : runInMemory settings snapshot histories with ⟨e | outcome, units, histories'⟩
  · rcases hrun' : runInMemory settings { snapshot with components } histories
      with ⟨e' | outcome', units', histories''⟩
    · exact .inl ⟨e, e', rfl, rfl⟩
    · obtain ⟨_, _, hok, -⟩ := runInMemory_of_perm hperm' hnames' hrun'
      cases hrun.symm.trans hok
  · obtain ⟨outcome', units', hrun', hunits⟩ := runInMemory_of_perm hperm hnames hrun
    exact .inr ⟨outcome, outcome', units, units', histories', rfl, hrun', hunits,
      congrFun (OrderedMap.get?_eq_of_perm hunits)⟩

/-- An entity comes out the same, with the same revision, if its components trade places. -/
theorem runInMemory_perm_dummy :
    (dummySnapshot.components.map (·.name)).Nodup ∧
      ∃ outcome outcome' units units' histories,
        runInMemory dummySettings dummySnapshot dummyHistories = (.ok outcome, units, histories) ∧
        runInMemory dummySettings
            { dummySnapshot with components := [{ name := "TeamComp" }, healthComponent] }
            dummyHistories = (.ok outcome', units', histories) ∧
        units.entries.Perm units'.entries ∧ (∀ name, units.get? name = units'.get? name) ∧
        histories.load "Dummy" = dummyHistory := by
  have hperm : dummySnapshot.components.Perm [{ name := "TeamComp" }, healthComponent] := .swap _ _ _
  have hnames : (dummySnapshot.components.map (·.name)).Nodup := by decide
  obtain ⟨_, _, final, hok, hhistory⟩ := runInMemory_dummy
  refine ⟨hnames, ?_⟩
  rcases runInMemory_perm hperm hnames dummyHistories with ⟨e, -, hstop, -⟩ | hboth
  · rw [hok] at hstop
    cases hstop
  · obtain ⟨outcome, outcome', units, units', histories, hrun, hrun', hunits, hget⟩ := hboth
    have hfinal : final = histories := congrArg (·.2.2) (hok.symm.trans hrun)
    rw [hfinal] at hhistory
    exact ⟨outcome, outcome', units, units', histories, hrun, hrun', hunits, hget, hhistory⟩

end Pass

end EntityWeaver
