import EntityWeaver.Proofs.Pass.Regeneration

/-! Rounds in any order, however they end.

    Whoever drives a pass may run its rounds twice, in the wrong order, or go on behind one that was
    stopped in the middle of its units:

        round    1           2          1           3          2
        ended    ok          ok         duplicate   unknown    duplicate
        added    contracts   entities   nothing     nothing    nothing

    Every unit is counted as it is taken, so a stop leaves the count right. Units are taken under new
    names and go to the end, so those that were there stay. Both are said of a computation by the two
    points between which it leads the pass, and hold of a chain of computations if they do of its
    links, whether they succeed or not. -/

namespace EntityWeaver

namespace Pass

/-- The units of a round, once it has composed what it hands over. -/
def unitsOf (p : Pass) : Nat → List SourceUnit
  | 1 => p.contractUnits
  | 2 => p.entityUnits p.entities
  | _ => []

end Pass

namespace MemoryPass

/-- How a round ended, and where the pass stands behind it. -/
def advance (s : MemoryPass) (round : Nat) : Except PassError Unit × MemoryPass :=
  let ((ended, pass), units, histories) :=
    Memory.from (s.pass.advance memorySink memoryStore round) s.units s.histories
  (ended, ⟨pass, units, histories⟩)

/-- Where the pass stands behind rounds, however they ended. -/
def after (s : MemoryPass) (rounds : List Nat) : MemoryPass :=
  rounds.foldl (fun s round => (s.advance round).2) s

/-- From one point of a pass to another units were added behind those that were there, and as many
    were counted. -/
structure Grown (s s' : MemoryPass) : Prop where
  units : s.units.entries <+: s'.units.entries
  counted : s'.pass.emitted + s.units.entries.length = s.pass.emitted + s'.units.entries.length

namespace Grown

variable {s s' s'' : MemoryPass}

theorem refl (s : MemoryPass) : Grown s s := ⟨List.prefix_rfl, rfl⟩

theorem trans (h : Grown s s') (h' : Grown s' s'') : Grown s s'' where
  units := h.units.trans h'.units
  counted := by
    have hfirst := h.counted
    have hsecond := h'.counted
    omega

/-- Between two points with the same units and the same count. -/
theorem of_eq (hunits : s'.units = s.units) (hemitted : s'.pass.emitted = s.pass.emitted) :
    Grown s s' := ⟨hunits ▸ List.prefix_rfl, by rw [hunits, hemitted]⟩

/-- One unit is counted and goes behind the others. -/
theorem of_emit {u : SourceUnit} {units : MemoryUnits} (h : s.units.emit u = .ok units) :
    Grown s ⟨{ s.pass with emitted := s.pass.emitted + 1 }, units, s.histories⟩ := by
  obtain ⟨hnew, rfl⟩ := MemoryUnits.emit_eq_ok.1 h
  have hentries := OrderedMap.entries_put_of_notMem hnew u
  refine ⟨⟨[(u.qualifiedName, u)], hentries.symm⟩, ?_⟩
  show s.pass.emitted + 1 + _ = s.pass.emitted + _
  rw [hentries, List.length_append, List.length_singleton]
  omega

end Grown

end MemoryPass

namespace PassM

open MemoryPass

variable {α β : Type}

/-- Wherever a computation starts, it counts what it adds. -/
def Counts (x : PassM Memory α) : Prop := ∀ s, Grown s (exec x s).2

theorem Counts.bind {x : PassM Memory α} {f : α → PassM Memory β} (hx : Counts x)
    (hf : ∀ a, Counts (f a)) : Counts (x >>= f) := by
  intro s
  have hfirst := hx s
  rw [exec_bind]
  rcases hexec : exec x s with ⟨_ | a, mid⟩
  · rwa [hexec] at hfirst
  · rw [hexec] at hfirst
    exact hfirst.trans (hf a mid)

theorem counts_pure (a : α) : Counts (pure a) := Grown.refl

/-- A computation that starts with a look at the pass. -/
theorem counts_get_bind {f : Pass → PassM Memory β} (hf : ∀ p, Counts (f p)) :
    Counts (get >>= f) := by
  intro s
  rw [exec_get_bind]
  exact hf s.pass s

theorem counts_emit (u : SourceUnit) : Counts (emit memorySink u) := by
  intro s
  unfold emit
  rw [exec_bind, exec_outside, Memory.from_emit]
  cases hemit : s.units.emit u with
  | ok units => exact .of_emit hemit
  | error e => exact .refl s

theorem counts_emitAll (us : List SourceUnit) : Counts (emitAll memorySink us) := by
  induction us with
  | nil => exact .refl
  | cons u us ih => exact (counts_emit u).bind fun _ => ih

/-- Composing one blueprint hands nothing over. -/
theorem counts_composeOne (h : Heading) : Counts (composeOne memoryStore h) := by
  intro s
  rw [exec_composeOne]
  rcases Draft.of s.pass.project h with ⟨d, reports⟩
  dsimp only
  split
  · exact .of_eq rfl rfl
  · split
    · exact .of_eq rfl rfl
    · exact .of_eq rfl rfl

theorem counts_composeAll (taken : List String) (blueprints : List BlueprintDecl) :
    Counts (composeAll memoryStore taken blueprints) := by
  induction blueprints generalizing taken with
  | nil => exact .refl
  | cons b rest ih =>
    intro s
    rw [exec_composeAll_cons]
    split
    · next e _ =>
      have hreported : Grown s (s.report [.ofError e b.anchor]) := .of_eq rfl rfl
      exact hreported.trans (ih taken _)
    · next h _ =>
      split
      · exact ih taken s
      · exact (counts_composeOne h).bind (fun _ => (ih _).bind fun _ => counts_pure _) s

theorem counts_runRound (round : Nat) : Counts (runRound memorySink memoryStore round) := by
  unfold runRound
  split
  · exact counts_get_bind fun p => counts_emitAll p.contractUnits
  · refine counts_get_bind fun p => (counts_composeAll _ _).bind fun entities => ?_
    refine counts_get_bind fun q => (counts_emitAll _).bind fun _ => ?_
    exact fun s => .of_eq rfl rfl
  · exact .refl

end PassM

namespace MemoryPass

open PassM

/-- A round leads to a point behind which nothing is lost and everything is counted. -/
theorem grown_advance (s : MemoryPass) (round : Nat) : Grown s (s.advance round).2 :=
  counts_runRound round s

theorem grown_after (s : MemoryPass) (rounds : List Nat) : Grown s (s.after rounds) := by
  induction rounds generalizing s with
  | nil => exact .refl s
  | cons round rounds ih => exact (s.grown_advance round).trans (ih _)

/-- A round that ends well has added all of its units. -/
theorem entries_of_advance {s s' : MemoryPass} {round : Nat} (h : s.advance round = (.ok (), s')) :
    s'.units.entries =
      s.units.entries ++ (s'.pass.unitsOf round).map fun u => (u.qualifiedName, u) := by
  have hexec : exec (runRound memorySink memoryStore round) s = (.ok (), s') := h
  unfold runRound at hexec
  split at hexec
  · unfold emitContracts at hexec
    rw [exec_get_bind, exec_emitAll_eq_ok] at hexec
    have hsame : s'.pass.contractUnits = s.pass.contractUnits := by
      rw [hexec.pass]
      rfl
    rw [Pass.unitsOf, hsame, hexec.units]
  · unfold emitEntities at hexec
    simp only [exec_get_bind, exec_bind_eq_ok, exec_composeAll_eq_ok] at hexec
    obtain ⟨entities, composed, hcompose, _, last, hemit, hset⟩ := hexec
    have hemitted := exec_emitAll_eq_ok.1 hemit
    cases hset
    have hsame : ({ last.pass with entities } : Pass).entityUnits entities =
        composed.pass.entityUnits entities := by
      rw [hemitted.pass]
      rfl
    rw [Pass.unitsOf, hsame, hemitted.units, hcompose.units_eq]
  · cases hexec

/-- There are two rounds. Asking for another one changes nothing. -/
theorem advance_unknown (s : MemoryPass) {round : Nat} (hfirst : round ≠ 1) (hsecond : round ≠ 2) :
    s.advance round = (.error (.unknownRound round), s) := by
  show exec (runRound memorySink memoryStore round) s = _
  unfold runRound
  split
  · exact absurd rfl hfirst
  · exact absurd rfl hsecond
  · rfl

/-- However a pass is driven, it has counted the units that are held. Each round leaves those that were
    there as they are and in front; one that ends well has added its own; and there is no third. -/
theorem rounds_counted {settings : Settings} {snapshot : Snapshot} {p : Pass}
    (hstart : Pass.start settings snapshot = .ok p) (histories : MemoryHistories)
    (rounds : List Nat) :
    let s := after ⟨p, .empty, histories⟩ rounds
    s.pass.emitted = s.units.entries.length ∧
      (∀ more, s.units.entries <+: (s.after more).units.entries) ∧
      (∀ round s', s.advance round = (.ok (), s') → s'.units.entries =
        s.units.entries ++ (s'.pass.unitsOf round).map fun u => (u.qualifiedName, u)) ∧
      ∀ round, round ≠ 1 → round ≠ 2 → s.advance round = (.error (.unknownRound round), s) := by
  intro s
  have hnone : p.emitted = 0 := by
    unfold Pass.start at hstart
    split at hstart
    · cases hstart
    · cases hstart
    · cases hstart
      rfl
  have hcounted : s.pass.emitted + 0 = p.emitted + s.units.entries.length :=
    (grown_after ⟨p, .empty, histories⟩ rounds).counted
  rw [hnone, Nat.add_zero, Nat.zero_add] at hcounted
  exact ⟨hcounted, fun more => (s.grown_after more).units, fun _ _ => entries_of_advance,
    fun _ => s.advance_unknown⟩

/-- The contracts of the components are counted, and stay there whatever is run behind them. -/
theorem rounds_counted_dummy : Pass.start dummySettings dummySnapshot = .ok dummyPass.pass ∧
    ∃ s, dummyPass.advance 1 = (.ok (), s) ∧
      s.units.keys = ["mymod.gen.Healthc", "mymod.gen.Teamc"] ∧ s.pass.emitted = 2 ∧
      s.units.entries <+: (s.after [1, 2]).units.entries ∧
      s.advance 3 = (.error (.unknownRound 3), s) := by
  have hstart : Pass.start dummySettings dummySnapshot = .ok dummyPass.pass := rfl
  obtain ⟨s, hs⟩ : ∃ s, Emitted dummyPass.pass.contractUnits dummyPass s := by
    refine Emitted.exists_of_nodup ?_
    rw [qualifiedNames_dummy]
    decide
  have hadvance : dummyPass.advance 1 = (.ok (), s) := by
    show exec (emitContracts memorySink) dummyPass = _
    rw [emitContracts, exec_get_bind]
    exact exec_emitAll_eq_ok.2 hs
  have hkeys : s.units.keys = ["mymod.gen.Healthc", "mymod.gen.Teamc"] := by
    rw [← qualifiedNames_dummy, OrderedMap.keys, hs.units, List.map_append, List.map_map]
    rfl
  have hafter : after ⟨dummyPass.pass, .empty, dummyHistories⟩ [1] = s := congrArg Prod.snd hadvance
  obtain ⟨hcounted, hkept, -, hunknown⟩ := rounds_counted hstart dummyHistories [1]
  rw [hafter] at hcounted hkept hunknown
  refine ⟨hstart, s, hadvance, hkeys, ?_, hkept [1, 2], hunknown 3 (by decide) (by decide)⟩
  rw [hcounted, ← List.length_map, ← OrderedMap.keys, hkeys]
  rfl

end MemoryPass

end EntityWeaver
