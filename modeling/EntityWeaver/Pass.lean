import EntityWeaver.Entity
import EntityWeaver.Emission.Basic

/-! A pass: everything generated from one snapshot, in two rounds.

        round 1    the contracts of the components that are not imported
        round 2    the entities, then the base classes, then the registry

    Contracts and base classes are made when the pass starts; in the second round the base classes
    gain accessors. What a pass emits and which histories it keeps is up to the sink and the store it
    runs with. Mistakes of authors are collected and never stop a pass; a missing setting, two
    components of one name, a sink or store that fails and verbatim text that cannot become code do.
    A round that is stopped leaves behind what it has done so far. -/

namespace EntityWeaver

/-- What stops a pass, or makes it count as failed at its end. -/
inductive PassError where
  | setting (e : Settings.Missing)
  | duplicateComponent (name : String)
  | emission (e : EmitError)
  | history (e : HistoryError)
  | unknownRound (round : Nat)
  | failed (errors : Nat)
  | unevenMargin
  deriving Repr, DecidableEq

def PassError.message : PassError → String
  | .setting e => e.message
  | .duplicateComponent name => "duplicate component: " ++ name
  | .emission e => e.message
  | .history e => e.message
  | .unknownRound round => "unknown round: " ++ Text.digits round
  | .failed errors => "composition failed with " ++ Text.digits errors ++ " error(s)"
  | .unevenMargin => "the margin of verbatim text cuts through a character"

/-- A pass under way. -/
structure Pass where
  project : Project
  contracts : OrderedMap String Contract
  bases : OrderedMap String BaseClass
  diagnostics : List Diagnostic
  entities : List Entity := []
  /-- The number of units handed over. -/
  emitted : Nat := 0

/-- What a finished pass reports. -/
structure Outcome where
  diagnostics : List Diagnostic
  entities : List Entity
  emitted : Nat

namespace Outcome

def errorCount (o : Outcome) : Nat := Diagnostic.errorCount o.diagnostics

def entity? (o : Outcome) (name : String) : Option Entity := o.entities.find? (·.name == name)

/-- The outcome, if no error was reported. -/
def result (o : Outcome) : Except PassError Outcome :=
  if o.errorCount = 0 then .ok o else .error (.failed o.errorCount)

end Outcome

namespace Pass

/-- A pass over a snapshot, before its rounds. -/
def start (settings : Settings) (s : Snapshot) : Except PassError Pass :=
  match settings.missing?, s.duplicate? with
  | some e, _ => .error (.setting e)
  | none, some name => .error (.duplicateComponent name)
  | none, none =>
    let project := Project.ofSnapshot settings s
    .ok {
      project
      contracts := Contract.all project
      bases := BaseClass.all project
      diagnostics := Catalog.diagnostics s }

/-- What a pass reports at its end. -/
def finish (p : Pass) : Outcome := ⟨p.diagnostics, p.entities, p.emitted⟩

/-- The pass with more reports. -/
def report (p : Pass) (reports : List Diagnostic) : Pass :=
  { p with diagnostics := p.diagnostics ++ reports }

/-- The units of the first round. -/
def contractUnits (p : Pass) : List SourceUnit :=
  (p.contracts.entries.filter fun e => !p.project.isImported e.1).map fun (component, c) =>
    .ofType c.toSource p.project.settings.outputPackage (p.project.importsOf [component])

/-- The units of the second round. -/
def entityUnits (p : Pass) (entities : List Entity) : List SourceUnit :=
  let package := p.project.settings.outputPackage
  let registry := Registry.assign p.project.catalog.pointers (entities.map (·.name)) package
  entities.map (·.toUnit package) ++
    p.bases.values.map (fun b => .ofType b.type package (p.project.importsOf b.members)) ++
    [registry.toUnit p.project.settings]

end Pass

/-- A computation that advances a pass and may stop it. -/
abbrev PassM (m : Type → Type) := ExceptT PassError (StateT Pass m)

namespace PassM

variable {m : Type → Type} [Monad m]

/-- Do something outside the pass. -/
def outside {α : Type} (action : m α) : PassM m α := ExceptT.lift (StateT.lift action)

/-- Collect reports. -/
def report (reports : List Diagnostic) : PassM m Unit := modify (·.report reports)

/-- Hand over one unit. -/
def emit (sink : UnitSink m) (u : SourceUnit) : PassM m Unit := do
  match ← outside (sink.emit u) with
  | .error e => throw (.emission e)
  | .ok () => modify fun p => { p with emitted := p.emitted + 1 }

/-- Hand over units in order, up to the first failure. -/
def emitAll (sink : UnitSink m) (units : List SourceUnit) : PassM m Unit := units.forM (emit sink)

/-- The history of a draft, brought up to date; an entity that is not saved has none. -/
def historyOf (store : HistoryStore m) (d : Draft) : PassM m (List Revision) := do
  if !d.hasIo then return []
  match ← outside (store.update d.heading.name d.fields.layout) with
  | .error e => throw (.history e)
  | .ok history => return history

/-- Compose the entity of a heading, if its fields can be saved. -/
def composeOne (store : HistoryStore m) (h : Heading) : PassM m (Option Entity) := do
  let project := (← get).project
  let (draft, reports) := Draft.of project h
  report reports
  match if draft.hasIo then (draft.stream project).validate else .ok () with
  | .error e =>
    report [.ofError e h.blueprint.anchor]
    return none
  | .ok () =>
    let history ← historyOf store draft
    let p ← get
    match draft.finish? project p.contracts history p.bases with
    | none => throw .unevenMargin
    | some finished =>
      set { p with bases := finished.bases, diagnostics := p.diagnostics ++ finished.reports }
      return some finished.entity

/-- Compose the entities of blueprints in order. A name that is taken is passed over. -/
def composeAll (store : HistoryStore m) (taken : List String) :
    List BlueprintDecl → PassM m (List Entity)
  | [] => return []
  | b :: rest => do
    match Heading.of (← get).project b with
    | .error e =>
      report [.ofError e b.anchor]
      composeAll store taken rest
    | .ok h =>
      if h.name ∈ taken then composeAll store taken rest
      else
        let entity ← composeOne store h
        let entities ← composeAll store (h.name :: taken) rest
        return entity.toList ++ entities

/-- The first round. -/
def emitContracts (sink : UnitSink m) : PassM m Unit := do emitAll sink (← get).contractUnits

/-- The second round. -/
def emitEntities (sink : UnitSink m) (store : HistoryStore m) : PassM m Unit := do
  let entities ← composeAll store [] (← get).project.catalog.blueprints
  emitAll sink ((← get).entityUnits entities)
  modify fun p => { p with entities }

/-- The round of a number. -/
def runRound (sink : UnitSink m) (store : HistoryStore m) : Nat → PassM m Unit
  | 1 => emitContracts sink
  | 2 => emitEntities sink store
  | other => throw (.unknownRound other)

/-- Both rounds. -/
def runRounds (sink : UnitSink m) (store : HistoryStore m) : PassM m Unit := do
  runRound sink store 1
  runRound sink store 2

end PassM

namespace Pass

variable {m : Type → Type} [Monad m]

/-- Advance a pass by one round: how the round ended, and the pass behind it. -/
def advance (sink : UnitSink m) (store : HistoryStore m) (round : Nat) (p : Pass) :
    m (Except PassError Unit × Pass) :=
  ((PassM.runRound sink store round).run).run p

/-- Run both rounds of a pass over a snapshot. -/
def run (sink : UnitSink m) (store : HistoryStore m) (settings : Settings) (s : Snapshot) :
    m (Except PassError Outcome) := do
  match start settings s with
  | .error e => return .error e
  | .ok p =>
    let (ended, p) ← ((PassM.runRounds sink store).run).run p
    return ended.map fun _ => p.finish

end Pass

end EntityWeaver
