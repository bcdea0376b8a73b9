import EntityWeaver.Pass.Memory
import EntityWeaver.Proofs.History
import EntityWeaver.Proofs.OrderedMap

/-! What a pass in memory does.

    A pass in memory stands at a pass, with the units emitted and the histories kept so far. Where it
    gets to, if nothing stops it, is described step by step:

        Composed s h e s'            the blueprint under a heading becomes an entity, or none
        ComposedAll taken bs s es s' blueprints become entities, in order, given the names in use
        Emitted us s s'              units are handed over, none of them under a name in use

    Composing leaves the units alone, and emitting leaves the histories alone. A full pass succeeds
    just when its rounds do, one behind the other. -/

namespace EntityWeaver

namespace Memory

variable {α β : Type} (units : MemoryUnits) (histories : MemoryHistories)

theorem from_bind (x : Memory α) (f : α → Memory β) :
    Memory.from (x >>= f) units histories =
      Memory.from (f (Memory.from x units histories).1) (Memory.from x units histories).2.1
        (Memory.from x units histories).2.2 := rfl

theorem from_get : Memory.from get units histories = (units, units, histories) := rfl

theorem from_load (entity : String) :
    Memory.from (memoryStore.load entity) units histories =
      (.ok (histories.load entity), units, histories) := rfl

theorem from_emit (u : SourceUnit) :
    Memory.from (memorySink.emit u) units histories = match units.emit u with
      | .ok units' => (.ok (), units', histories)
      | .error e => (.error e, units, histories) := by
  unfold memorySink
  dsimp only
  rw [from_bind, from_get]
  dsimp only
  cases units.emit u with
  | ok units' => rfl
  | error e => rfl

/-- Histories in memory never fail to be brought up to date. -/
theorem from_update (entity : String) (layout : List LayoutField) :
    Memory.from (memoryStore.update entity layout) units histories =
      (.ok (histories.update entity layout).1, units, (histories.update entity layout).2) := by
  unfold MemoryHistories.update HistoryStore.update
  rw [from_bind, from_load]
  dsimp only
  rw [MemoryHistories.sort_load]
  cases Revision.lacking? (histories.load entity) layout with
  | none => rfl
  | some r => rfl

end Memory

/-- Where a pass in memory stands. -/
structure MemoryPass where
  pass : Pass
  units : MemoryUnits
  histories : MemoryHistories

namespace MemoryPass

/-- The pass with more reports. -/
def report (s : MemoryPass) (reports : List Diagnostic) : MemoryPass :=
  { s with pass := s.pass.report reports }

end MemoryPass

namespace PassM

variable {α β : Type} {s s' : MemoryPass}

/-- How a computation ends that starts where a pass stands, and where the pass stands then. -/
def exec (action : PassM Memory α) (s : MemoryPass) : Except PassError α × MemoryPass :=
  let ((ended, pass), units, histories) := Memory.from (action.run.run s.pass) s.units s.histories
  (ended, ⟨pass, units, histories⟩)

theorem exec_bind (x : PassM Memory α) (f : α → PassM Memory β) (s : MemoryPass) :
    exec (x >>= f) s = match exec x s with
      | (.ok a, s') => exec (f a) s'
      | (.error e, s') => (.error e, s') := by
  simp only [exec, ExceptT.run_bind, StateT.run_bind, Memory.from_bind]
  rcases Memory.from (x.run.run s.pass) s.units s.histories with ⟨⟨_ | a, p⟩, u, h⟩
  · rfl
  · rfl

/-- A chain of computations succeeds through both of its parts. -/
theorem exec_bind_eq_ok {x : PassM Memory α} {f : α → PassM Memory β} {b : β} :
    exec (x >>= f) s = (.ok b, s') ↔
      ∃ a mid, exec x s = (.ok a, mid) ∧ exec (f a) mid = (.ok b, s') := by
  rw [exec_bind]
  constructor
  · intro h
    split at h
    · next a mid hx => exact ⟨a, mid, hx, h⟩
    · cases h
  · rintro ⟨a, mid, hx, hf⟩
    rw [hx]
    exact hf

/-- A computation that starts with a look at the pass. -/
theorem exec_get_bind (f : Pass → PassM Memory β) (s : MemoryPass) :
    exec (get >>= f) s = exec (f s.pass) s := exec_bind get f s

/-- A computation that starts with reports. -/
theorem exec_report_bind (reports : List Diagnostic) (f : Unit → PassM Memory β) (s : MemoryPass) :
    exec (report reports >>= f) s = exec (f ()) (s.report reports) := exec_bind _ f s

theorem exec_outside (action : Memory α) (s : MemoryPass) :
    exec (outside action) s =
      let (a, units, histories) := Memory.from action s.units s.histories
      (.ok a, ⟨s.pass, units, histories⟩) := rfl

end PassM

/-- A unit is taken under a new name. -/
theorem MemoryUnits.emit_eq_ok {units units' : MemoryUnits} {u : SourceUnit} :
    units.emit u = .ok units' ↔
      u.qualifiedName ∉ units.keys ∧ units' = units.put u.qualifiedName u := by
  have hcontains : units.contains u.qualifiedName = true ↔ u.qualifiedName ∈ units.keys :=
    List.contains_iff_mem
  unfold emit
  split
  · next h => simp [hcontains.1 h]
  · next h => simp [mt hcontains.2 h, eq_comm]

/-- Units are handed over: their names are new, and they go behind the units that were there. -/
structure Emitted (us : List SourceUnit) (s s' : MemoryPass) : Prop where
  fresh : (s.units.keys ++ us.map (·.qualifiedName)).Nodup
  pass : s'.pass = { s.pass with emitted := s.pass.emitted + us.length }
  units : s'.units.entries = s.units.entries ++ us.map fun u => (u.qualifiedName, u)
  histories : s'.histories = s.histories

namespace Emitted

variable {us : List SourceUnit} {u : SourceUnit} {s s' : MemoryPass}

theorem nil_iff : Emitted [] s s' ↔ s' = s := by
  constructor
  · rintro ⟨-, hpass, hunits, hhistories⟩
    obtain ⟨p, units, histories⟩ := s
    obtain ⟨p', units', histories'⟩ := s'
    simp only [List.map_nil, List.append_nil, List.length_nil, Nat.add_zero] at hpass hunits hhistories
    rw [hpass, hhistories, OrderedMap.ext hunits]
  · rintro rfl
    have hkeys : (s'.units.keys ++ []).Nodup := (List.append_nil _).symm ▸ s'.units.distinct
    exact ⟨hkeys, rfl, (List.append_nil _).symm, rfl⟩

/-- Units are handed over one by one. -/
theorem cons_iff : Emitted (u :: us) s s' ↔
    ∃ units, s.units.emit u = .ok units ∧
      Emitted us ⟨{ s.pass with emitted := s.pass.emitted + 1 }, units, s.histories⟩ s' := by
  constructor
  · rintro ⟨hfresh, hpass, hunits, hhistories⟩
    have hnew : u.qualifiedName ∉ s.units.keys := by
      rw [List.map_cons, List.nodup_middle, List.nodup_cons, List.mem_append, not_or] at hfresh
      exact hfresh.1.1
    refine ⟨_, MemoryUnits.emit_eq_ok.2 ⟨hnew, rfl⟩, ?_, ?_, ?_, hhistories⟩
    · rw [OrderedMap.keys_put_of_notMem hnew, List.append_assoc]
      exact hfresh
    · rw [hpass, List.length_cons, Nat.add_assoc, Nat.add_comm us.length]
    · rw [hunits, OrderedMap.entries_put_of_notMem hnew, List.append_assoc]
      rfl
  · rintro ⟨units, hemit, hfresh, hpass, hunits, hhistories⟩
    obtain ⟨hnew, rfl⟩ := MemoryUnits.emit_eq_ok.1 hemit
    rw [OrderedMap.keys_put_of_notMem hnew, List.append_assoc] at hfresh
    rw [OrderedMap.entries_put_of_notMem hnew, List.append_assoc] at hunits
    refine ⟨hfresh, ?_, hunits, hhistories⟩
    rw [hpass, List.length_cons, Nat.add_assoc, Nat.add_comm us.length]

/-- Units with new names are taken. -/
theorem exists_of_nodup (h : (s.units.keys ++ us.map (·.qualifiedName)).Nodup) :
    ∃ s', Emitted us s s' := by
  let entries := s.units.entries ++ us.map fun u => (u.qualifiedName, u)
  have hdistinct : (entries.map (·.1)).Nodup := by
    simpa [entries, OrderedMap.keys, Function.comp_def] using h
  exact ⟨⟨{ s.pass with emitted := s.pass.emitted + us.length }, ⟨entries, hdistinct⟩, s.histories⟩,
    h, rfl, rfl, rfl⟩

end Emitted

namespace Draft

/-- Whether the fields of a draft can be written and read, as far as they are saved. -/
def validate (p : Project) (d : Draft) : Except AuthoringError Unit :=
  if d.hasIo then (d.stream p).validate else .ok ()

/-- The history of a draft, brought up to date, and the histories behind it. -/
def revise (d : Draft) (histories : MemoryHistories) : List Revision × MemoryHistories :=
  if d.hasIo then histories.update d.heading.name d.fields.layout else ([], histories)

end Draft

/-- The blueprint under a heading is composed. -/
inductive Composed (s : MemoryPass) (h : Heading) : Option Entity → MemoryPass → Prop
  /-- The fields of its draft cannot be saved. -/
  | uncoded {d : Draft} {reports : List Diagnostic} {e : AuthoringError}
      (hdraft : Draft.of s.pass.project h = (d, reports))
      (hvalidate : d.validate s.pass.project = .error e) :
      Composed s h none ((s.report reports).report [.ofError e h.blueprint.anchor])
  /-- It becomes an entity. -/
  | finished {d : Draft} {reports : List Diagnostic} {history : List Revision}
      {histories : MemoryHistories} {f : Draft.Finished}
      (hdraft : Draft.of s.pass.project h = (d, reports))
      (hvalidate : d.validate s.pass.project = .ok ())
      (hrevise : d.revise s.histories = (history, histories))
      (hfinish : d.finish? s.pass.project s.pass.contracts history s.pass.bases = some f) :
      Composed s h (some f.entity)
        ⟨{ (s.pass.report reports).report f.reports with bases := f.bases }, s.units, histories⟩

/-- Blueprints are composed in order, apart from those whose names are in use. -/
inductive ComposedAll :
    List String → List BlueprintDecl → MemoryPass → List Entity → MemoryPass → Prop
  | nil {taken : List String} {s : MemoryPass} : ComposedAll taken [] s [] s
  /-- The blueprint has no heading. -/
  | refused {taken : List String} {b : BlueprintDecl} {rest : List BlueprintDecl}
      {s s' : MemoryPass} {e : AuthoringError} {entities : List Entity}
      (hheading : Heading.of s.pass.project b = .error e)
      (hrest : ComposedAll taken rest (s.report [.ofError e b.anchor]) entities s') :
      ComposedAll taken (b :: rest) s entities s'
  /-- The name of its heading is in use. -/
  | passedOver {taken : List String} {b : BlueprintDecl} {rest : List BlueprintDecl}
      {s s' : MemoryPass} {h : Heading} {entities : List Entity}
      (hheading : Heading.of s.pass.project b = .ok h) (hname : h.name ∈ taken)
      (hrest : ComposedAll taken rest s entities s') :
      ComposedAll taken (b :: rest) s entities s'
  | composed {taken : List String} {b : BlueprintDecl} {rest : List BlueprintDecl}
      {s mid s' : MemoryPass} {h : Heading} {entity : Option Entity} {entities : List Entity}
      (hheading : Heading.of s.pass.project b = .ok h) (hname : h.name ∉ taken)
      (hfirst : Composed s h entity mid)
      (hrest : ComposedAll (h.name :: taken) rest mid entities s') :
      ComposedAll taken (b :: rest) s (entity.toList ++ entities) s'

theorem Composed.units_eq {s s' : MemoryPass} {h : Heading} {entity : Option Entity}
    (hc : Composed s h entity s') : s'.units = s.units := by
  cases hc with
  | uncoded => rfl
  | finished => rfl

/-- Composing leaves the units alone. -/
theorem ComposedAll.units_eq {taken : List String} {blueprints : List BlueprintDecl}
    {s s' : MemoryPass} {entities : List Entity} (hc : ComposedAll taken blueprints s entities s') :
    s'.units = s.units := by
  induction hc with
  | nil => rfl
  | refused _ _ ih => exact ih
  | passedOver _ _ _ ih => exact ih
  | composed _ _ hfirst _ ih => exact ih.trans hfirst.units_eq

theorem Composed.project_eq {s s' : MemoryPass} {h : Heading} {entity : Option Entity}
    (hc : Composed s h entity s') : s'.pass.project = s.pass.project := by
  cases hc with
  | uncoded => rfl
  | finished => rfl

/-- Composing leaves the project alone. -/
theorem ComposedAll.project_eq {taken : List String} {blueprints : List BlueprintDecl}
    {s s' : MemoryPass} {entities : List Entity} (hc : ComposedAll taken blueprints s entities s') :
    s'.pass.project = s.pass.project := by
  induction hc with
  | nil => rfl
  | refused _ _ ih => exact ih
  | passedOver _ _ _ ih => exact ih
  | composed _ _ hfirst _ ih => exact ih.trans hfirst.project_eq

/-- A blueprint without streams and without mistakes is composed. -/
theorem ComposedAll.cons {taken : List String} {b : BlueprintDecl} {rest : List BlueprintDecl}
    {p : Pass} {units : MemoryUnits} {histories : MemoryHistories} {h : Heading} {d : Draft}
    {f : Draft.Finished} {entities : List Entity} {s' : MemoryPass}
    (hheading : Heading.of p.project b = .ok h) (hname : h.name ∉ taken)
    (hdraft : Draft.of p.project h = (d, [])) (hio : d.hasIo = false)
    (hfinish : d.finish? p.project p.contracts [] p.bases = some f) (hreports : f.reports = [])
    (hrest : ComposedAll (h.name :: taken) rest ⟨{ p with bases := f.bases }, units, histories⟩
      entities s') :
    ComposedAll taken (b :: rest) ⟨p, units, histories⟩ (f.entity :: entities) s' := by
  have hvalidate : d.validate p.project = .ok () := by
    rw [Draft.validate, hio, if_neg Bool.false_ne_true]
  have hrevise : d.revise histories = ([], histories) := by
    rw [Draft.revise, hio, if_neg Bool.false_ne_true]
  have hcomposed := Composed.finished (s := ⟨p, units, histories⟩) hdraft hvalidate hrevise hfinish
  simp only [hreports, Pass.report, List.append_nil] at hcomposed
  exact .composed hheading hname hcomposed hrest

namespace PassM

variable {s s' : MemoryPass}

theorem exec_emit_eq_ok {u : SourceUnit} : exec (emit memorySink u) s = (.ok (), s') ↔
    ∃ units, s.units.emit u = .ok units ∧
      s' = ⟨{ s.pass with emitted := s.pass.emitted + 1 }, units, s.histories⟩ := by
  unfold emit
  rw [exec_bind, exec_outside, Memory.from_emit]
  cases s.units.emit u with
  | ok units =>
    constructor
    · intro h
      cases h
      exact ⟨units, rfl, rfl⟩
    · rintro ⟨_, ⟨⟩, rfl⟩
      rfl
  | error e =>
    constructor
    · intro h
      cases h
    · rintro ⟨_, ⟨⟩, -⟩

theorem exec_emitAll_eq_ok {us : List SourceUnit} :
    exec (emitAll memorySink us) s = (.ok (), s') ↔ Emitted us s s' := by
  induction us generalizing s with
  | nil =>
    rw [Emitted.nil_iff]
    constructor
    · intro h
      cases h
      rfl
    · rintro rfl
      rfl
  | cons u us ih =>
    have hcons : emitAll memorySink (u :: us) =
        (emit memorySink u >>= fun _ => emitAll memorySink us : PassM Memory Unit) := rfl
    rw [hcons, exec_bind_eq_ok, Emitted.cons_iff]
    constructor
    · rintro ⟨_, mid, hfirst, hrest⟩
      obtain ⟨units, hemit, rfl⟩ := exec_emit_eq_ok.1 hfirst
      exact ⟨units, hemit, ih.1 hrest⟩
    · rintro ⟨units, hemit, hrest⟩
      exact ⟨(), _, exec_emit_eq_ok.2 ⟨units, hemit, rfl⟩, ih.2 hrest⟩

theorem exec_historyOf (d : Draft) (s : MemoryPass) :
    exec (historyOf memoryStore d) s =
      (.ok (d.revise s.histories).1, { s with histories := (d.revise s.histories).2 }) := by
  unfold historyOf Draft.revise
  cases d.hasIo with
  | false => rfl
  | true =>
    simp only [Bool.not_true, Bool.false_eq_true, if_false, if_true]
    rw [exec_bind, exec_outside, Memory.from_update]
    rfl

/-- The stages of composing one blueprint. -/
theorem exec_composeOne (h : Heading) (s : MemoryPass) : exec (composeOne memoryStore h) s =
    let (d, reports) := Draft.of s.pass.project h
    match d.validate s.pass.project with
    | .error e => (.ok none, (s.report reports).report [.ofError e h.blueprint.anchor])
    | .ok () =>
      let (history, histories) := d.revise s.histories
      let revised : MemoryPass := { s.report reports with histories }
      match d.finish? s.pass.project s.pass.contracts history s.pass.bases with
      | none => (.error .unevenMargin, revised)
      | some f => (.ok (some f.entity),
        { revised with pass := { revised.pass.report f.reports with bases := f.bases } }) := by
  unfold composeOne
  rw [exec_get_bind]
  dsimp only
  rw [exec_report_bind]
  have hvalidate : ∀ d : Draft, (if d.hasIo then (d.stream s.pass.project).validate else .ok ()) =
      d.validate s.pass.project := fun _ => rfl
  rw [hvalidate]
  cases (Draft.of s.pass.project h).1.validate s.pass.project with
  | error e => rfl
  | ok _ =>
    dsimp only
    rw [exec_bind, exec_historyOf]
    dsimp only
    rw [exec_get_bind]
    dsimp only [MemoryPass.report, Pass.report]
    cases Draft.finish? s.pass.project s.pass.contracts (Draft.of s.pass.project h).1
        ((Draft.of s.pass.project h).1.revise s.histories).1 s.pass.bases with
    | none => rfl
    | some f => rfl

theorem exec_composeOne_eq_ok {h : Heading} {entity : Option Entity} :
    exec (composeOne memoryStore h) s = (.ok entity, s') ↔ Composed s h entity s' := by
  rw [exec_composeOne]
  constructor
  · intro hrun
    rcases hdraft : Draft.of s.pass.project h with ⟨d, reports⟩
    rw [hdraft] at hrun
    dsimp only at hrun
    split at hrun
    · next hvalidate =>
      cases hrun
      exact .uncoded hdraft hvalidate
    · next hvalidate =>
      split at hrun
      · cases hrun
      · next hfinish =>
        cases hrun
        exact .finished hdraft hvalidate rfl hfinish
  · intro hc
    cases hc with
    | uncoded hdraft hvalidate => simp only [hdraft, hvalidate]
    | finished hdraft hvalidate hrevise hfinish =>
      simp only [hdraft, hvalidate, hrevise, hfinish]
      rfl

/-- The stages of composing the first of some blueprints. -/
theorem exec_composeAll_cons (taken : List String) (b : BlueprintDecl) (rest : List BlueprintDecl)
    (s : MemoryPass) : exec (composeAll memoryStore taken (b :: rest)) s =
      match Heading.of s.pass.project b with
      | .error e => exec (composeAll memoryStore taken rest) (s.report [.ofError e b.anchor])
      | .ok h =>
        if h.name ∈ taken then exec (composeAll memoryStore taken rest) s
        else exec (composeOne memoryStore h >>= fun entity =>
          composeAll memoryStore (h.name :: taken) rest >>= fun entities =>
            pure (entity.toList ++ entities)) s := by
  rw [composeAll, exec_get_bind]
  cases Heading.of s.pass.project b with
  | error e => rfl
  | ok h =>
    dsimp only
    split <;> rfl

theorem exec_composeAll_eq_ok {taken : List String} {blueprints : List BlueprintDecl}
    {entities : List Entity} : exec (composeAll memoryStore taken blueprints) s = (.ok entities, s') ↔
      ComposedAll taken blueprints s entities s' := by
  constructor
  · intro hrun
    induction blueprints generalizing taken s entities with
    | nil =>
      cases hrun
      exact .nil
    | cons b rest ih =>
      rw [exec_composeAll_cons] at hrun
      split at hrun
      · next hheading => exact .refused hheading (ih hrun)
      · next h hheading =>
        split at hrun
        · next hname => exact .passedOver hheading hname (ih hrun)
        · next hname =>
          obtain ⟨entity, mid, hfirst, hrun⟩ := exec_bind_eq_ok.1 hrun
          obtain ⟨others, last, hrest, hrun⟩ := exec_bind_eq_ok.1 hrun
          cases hrun
          exact .composed hheading hname (exec_composeOne_eq_ok.1 hfirst) (ih hrest)
  · intro hc
    induction hc with
    | nil => rfl
    | refused hheading _ ih =>
      rw [exec_composeAll_cons, hheading]
      exact ih
    | passedOver hheading hname _ ih =>
      rw [exec_composeAll_cons, hheading]
      exact (if_pos hname).trans ih
    | composed hheading hname hfirst _ ih =>
      rw [exec_composeAll_cons, hheading]
      refine (if_neg hname).trans (exec_bind_eq_ok.2 ⟨_, _, exec_composeOne_eq_ok.2 hfirst, ?_⟩)
      exact exec_bind_eq_ok.2 ⟨_, _, ih, rfl⟩

end PassM

namespace Pass

/-- The first round hands over contracts under their names. -/
theorem map_qualifiedName_contractUnits (p : Pass) : p.contractUnits.map (·.qualifiedName) =
    (p.contracts.entries.filter fun e => !p.project.isImported e.1).map fun e =>
      Registry.qualify p.project.settings.outputPackage e.2.name := by
  rw [contractUnits, List.map_map]
  refine List.map_congr_left fun e _ => ?_
  rw [← Contract.name_toSource]
  rfl

/-- The second round hands over entities, base classes and the registry under their names. -/
theorem map_qualifiedName_entityUnits (p : Pass) (entities : List Entity) :
    (p.entityUnits entities).map (·.qualifiedName) =
      (entities.map (·.type.name) ++ p.bases.values.map (·.type.name) ++ [Registry.typeName]).map
        (Registry.qualify p.project.settings.outputPackage) := by
  simp only [entityUnits, List.map_append, List.map_map]
  rfl

end Pass

/-- Both rounds of a pass are run: contracts, then entities and what goes with them. -/
def BothRounds (s : MemoryPass) (entities : List Entity) (s' : MemoryPass) : Prop :=
  ∃ first second last, Emitted s.pass.contractUnits s first ∧
    ComposedAll [] first.pass.project.catalog.blueprints first entities second ∧
    Emitted (second.pass.entityUnits entities) second last ∧
    s' = { last with pass := { last.pass with entities } }

/-- Both rounds run if the blueprints can be composed, whatever is handed over before, and all units
    have names of their own. -/
theorem BothRounds.exists_of_nodup (p q : Pass) (histories : MemoryHistories)
    {entities : List Entity} {histories' : MemoryHistories}
    (hcompose : ∀ emitted units, ComposedAll [] p.project.catalog.blueprints
      ⟨{ p with emitted }, units, histories⟩ entities ⟨{ q with emitted }, units, histories'⟩)
    (hfresh : ((p.contractUnits ++ q.entityUnits entities).map (·.qualifiedName)).Nodup) :
    ∃ emitted units, BothRounds ⟨p, .empty, histories⟩ entities
      ⟨{ q with entities, emitted }, units, histories'⟩ := by
  rw [List.map_append] at hfresh
  obtain ⟨first, hfirst⟩ := Emitted.exists_of_nodup (s := ⟨p, .empty, histories⟩)
    (List.nodup_append.1 hfresh).1
  have hkeys : first.units.keys = p.contractUnits.map (·.qualifiedName) := by
    simp [OrderedMap.keys, hfirst.units, Function.comp_def, OrderedMap.empty]
  have hstate : first = ⟨{ p with emitted := first.pass.emitted }, first.units, histories⟩ := by
    obtain ⟨-, hpass, -, hhistories⟩ := hfirst
    obtain ⟨_, units, _⟩ := first
    dsimp only at hpass hhistories
    subst hpass hhistories
    rfl
  have hsecond := hcompose first.pass.emitted first.units
  have hproject : first.pass.project = p.project := by rw [hfirst.pass]
  rw [← hstate, ← hproject] at hsecond
  obtain ⟨last, hlast⟩ : ∃ last, Emitted (q.entityUnits entities)
      ⟨{ q with emitted := first.pass.emitted }, first.units, histories'⟩ last :=
    Emitted.exists_of_nodup (hkeys.symm ▸ hfresh)
  have hend : (⟨{ q with entities, emitted := last.pass.emitted }, last.units, histories'⟩ :
      MemoryPass) = { last with pass := { last.pass with entities } } := by
    obtain ⟨-, hpass, -, hhistories⟩ := hlast
    obtain ⟨_, units, _⟩ := last
    dsimp only at hpass hhistories
    subst hpass hhistories
    rfl
  exact ⟨_, _, first, _, last, hfirst, hsecond, hlast, hend⟩

/-- Behind both rounds stand the units of both. -/
theorem BothRounds.units_eq {s s' : MemoryPass} {entities : List Entity}
    (h : BothRounds s entities s') : s'.units.entries = s.units.entries ++
      (s.pass.contractUnits ++ s'.pass.entityUnits entities).map fun u => (u.qualifiedName, u) := by
  obtain ⟨first, second, last, hfirst, hcompose, hlast, rfl⟩ := h
  have hsame : ({ last.pass with entities } : Pass).entityUnits entities =
      second.pass.entityUnits entities := by
    rw [hlast.pass]
    rfl
  rw [hsame, hlast.units, hcompose.units_eq, hfirst.units, List.append_assoc, List.map_append]

/-- What is handed over with the entities is held at the end. -/
theorem BothRounds.get?_of_mem_entityUnits {s s' : MemoryPass} {entities : List Entity}
    (h : BothRounds s entities s') {u : SourceUnit} (hu : u ∈ s'.pass.entityUnits entities) :
    s'.units.get? u.qualifiedName = some u := by
  rw [OrderedMap.get?_eq_some_iff, h.units_eq]
  exact List.mem_append_right _ (List.mem_map_of_mem (List.mem_append_right _ hu))

theorem PassM.exec_runRounds_eq_ok {s s' : MemoryPass} :
    exec (runRounds memorySink memoryStore) s = (.ok (), s') ↔
      ∃ entities, BothRounds s entities s' := by
  unfold runRounds runRound emitContracts emitEntities BothRounds
  rw [exec_bind_eq_ok]
  simp only [exec_get_bind, exec_bind_eq_ok, exec_composeAll_eq_ok]
  constructor
  · rintro ⟨_, first, hfirst, entities, second, hsecond, _, last, hlast, hset⟩
    cases hset
    exact ⟨entities, first, second, last, exec_emitAll_eq_ok.1 hfirst, hsecond,
      exec_emitAll_eq_ok.1 hlast, rfl⟩
  · rintro ⟨entities, first, second, last, hfirst, hsecond, hlast, rfl⟩
    exact ⟨(), first, exec_emitAll_eq_ok.2 hfirst, entities, second, hsecond, (), last,
      exec_emitAll_eq_ok.2 hlast, rfl⟩

/-- A full pass succeeds just when it starts and gets through both rounds. -/
theorem Pass.runInMemory_eq_ok {settings : Settings} {snapshot : Snapshot}
    {histories histories' : MemoryHistories} {outcome : Outcome} {units : MemoryUnits} :
    runInMemory settings snapshot histories = (.ok outcome, units, histories') ↔
      ∃ p entities p', start settings snapshot = .ok p ∧
        BothRounds ⟨p, .empty, histories⟩ entities ⟨p', units, histories'⟩ ∧ outcome = p'.finish := by
  cases hstart : start settings snapshot with
  | error e =>
    have hrun : runInMemory settings snapshot histories = (.error e, .empty, histories) := by
      unfold runInMemory run
      rw [hstart]
      rfl
    rw [hrun]
    constructor
    · rintro ⟨⟩
    · rintro ⟨_, _, _, ⟨⟩, -⟩
  | ok p =>
    have hrun : runInMemory settings snapshot histories =
        let (ended, s) := PassM.exec (PassM.runRounds memorySink memoryStore) ⟨p, .empty, histories⟩
        (ended.map fun _ => s.pass.finish, s.units, s.histories) := by
      unfold runInMemory run
      rw [hstart]
      rfl
    rw [hrun]
    rcases hexec : PassM.exec (PassM.runRounds memorySink memoryStore) ⟨p, .empty, histories⟩
      with ⟨_ | ⟨⟩, s⟩
    · constructor
      · rintro ⟨⟩
      · rintro ⟨_, entities, p', ⟨⟩, hrounds, -⟩
        cases hexec.symm.trans (PassM.exec_runRounds_eq_ok.2 ⟨entities, hrounds⟩)
    · obtain ⟨entities, hrounds⟩ := PassM.exec_runRounds_eq_ok.1 hexec
      constructor
      · rintro ⟨⟩
        exact ⟨p, entities, s.pass, rfl, hrounds, rfl⟩
      · rintro ⟨_, entities', p', ⟨⟩, hrounds', rfl⟩
        cases hexec.symm.trans (PassM.exec_runRounds_eq_ok.2 ⟨entities', hrounds'⟩)
        rfl

end EntityWeaver
