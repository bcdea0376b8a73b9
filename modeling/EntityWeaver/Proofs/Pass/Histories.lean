import EntityWeaver.Proofs.Finish
import EntityWeaver.Proofs.Pass.Regeneration

/-! What a pass does to histories.

    A blueprint reaches for a history only when its entity is saved, under the entity's name, and no
    name is composed twice. So at the end of a pass the history of a name is as it was, or ends with
    the present layout of the entity that has the name:

        blueprint                              history of its name
        refused, or its name is in use         as it was
        uncoded, or neither saved nor synced   as it was
        composed and saved                     as it was, or one revision more; the entity's
                                               version and layout come last -/

namespace EntityWeaver

/-- What becomes of the history of a name while entities are composed. -/
structure Touched (entities : List Entity) (name : String) (before after : List Revision) : Prop where
  /-- An entity of the name that is saved has its version and layout last, and adds at most them. -/
  saved : ∀ e ∈ entities, e.name = name → ∀ v, e.revision = some v →
    (after = before ∨ ∃ r, after = before ++ [r]) ∧ after.getLast? = some ⟨v, e.fields.layout⟩
  /-- Without one that is saved the history is as it was. -/
  left : (∀ e ∈ entities, e.name = name → e.revision = none) → after = before

namespace Touched

variable {entities others : List Entity} {name : String} {before after : List Revision}

/-- Only the entities of a name count for it. -/
theorem congr (h : Touched entities name before after)
    (hsame : ∀ e, e.name = name → (e ∈ others ↔ e ∈ entities)) : Touched others name before after where
  saved e he hname := h.saved e ((hsame e hname).1 he) hname
  left hnone := h.left fun e he hname => hnone e ((hsame e hname).2 he) hname

end Touched

namespace Composed

variable {s s' : MemoryPass} {h : Heading} {entity : Option Entity}

theorem name_eq (hc : Composed s h entity s') {e : Entity} (he : e ∈ entity) : e.name = h.name := by
  cases hc with
  | uncoded => cases he
  | finished hdraft _ _ hfinish =>
    cases hdraft
    obtain rfl := Option.some.inj he
    exact (Draft.finish?_eq_some hfinish).name

/-- What composing one blueprint does to the history of its name. -/
theorem touched (hc : Composed s h entity s') (hroom : s.histories.Room h.name) :
    Touched entity.toList h.name (s.histories.load h.name) (s'.histories.load h.name) := by
  cases hc with
  | uncoded => exact ⟨fun _ he => absurd he List.not_mem_nil, fun _ => rfl⟩
  | @finished d reports history histories f hdraft _ hrevise hfinish =>
    have hfinished := Draft.finish?_eq_some hfinish
    have hheading : d.heading = h := by
      cases hdraft
      rfl
    unfold Draft.revise at hrevise
    rw [hheading] at hrevise
    split at hrevise
    · have hplace := MemoryHistories.hasPlaceFor_of_room hroom d.fields.layout
      obtain ⟨hload, ⟨r, hlast, hfields⟩, -⟩ := MemoryHistories.update_spec hplace
      have hgrown := MemoryHistories.update_grown s.histories h.name d.fields.layout
      rw [hrevise] at hload hlast hgrown
      dsimp only at hload hlast hgrown ⊢
      have hrevision : f.entity.revision = some r.version := by
        rw [hfinished.revision, hlast, Option.map_some]
      constructor
      · rintro e he - v hv
        obtain rfl := List.mem_singleton.1 he
        rw [hrevision] at hv
        obtain rfl := Option.some.inj hv
        rw [hload, hlast, hfinished.fields, ← hfields]
        exact ⟨hgrown, rfl⟩
      · intro hnone
        have hnamed : f.entity.name = h.name := hfinished.name.trans (hheading ▸ rfl)
        have habsent := hnone f.entity (List.mem_singleton.2 rfl) hnamed
        rw [hrevision] at habsent
        cases habsent
    · cases hrevise
      refine ⟨fun e he _ v hv => ?_, fun _ => rfl⟩
      obtain rfl := List.mem_singleton.1 he
      rw [hfinished.revision] at hv
      cases hv

end Composed

namespace ComposedAll

variable {taken : List String} {blueprints : List BlueprintDecl} {s s' : MemoryPass}
  {entities : List Entity}

/-- Entities have names that were not in use. -/
theorem name_notMem (hc : ComposedAll taken blueprints s entities s') {e : Entity}
    (he : e ∈ entities) : e.name ∉ taken := by
  induction hc with
  | nil => cases he
  | refused _ _ ih => exact ih he
  | passedOver _ _ _ ih => exact ih he
  | composed _ hnew hfirst _ ih =>
    rcases List.mem_append.1 he with he | he
    · rwa [hfirst.name_eq (Option.mem_toList.1 he)]
    · exact fun hmem => ih he (List.mem_cons_of_mem _ hmem)

/-- What composing blueprints does to the histories of names that were not in use. -/
theorem touched (hc : ComposedAll taken blueprints s entities s')
    (hroom : ∀ name, name ∉ taken → s.histories.Room name) {name : String} (hname : name ∉ taken) :
    Touched entities name (s.histories.load name) (s'.histories.load name) := by
  induction hc with
  | nil => exact ⟨fun _ he => absurd he List.not_mem_nil, fun _ => rfl⟩
  | refused _ _ ih => exact ih hroom hname
  | passedOver _ _ _ ih => exact ih hroom hname
  | @composed taken _ _ _ _ _ h _ _ _ hnew hfirst hrest ih =>
    have hroomRest := fun name (hfree : name ∉ h.name :: taken) => hfirst.room hnew hroom hfree
    by_cases hsame : name = h.name
    · subst hsame
      -- the name is in use from here on, and no later entity has it
      rw [hrest.load_of_mem hroomRest List.mem_cons_self]
      refine (hfirst.touched (hroom _ hnew)).congr fun e hname => ?_
      have hlater : e ∉ _ := fun he => hrest.name_notMem he (hname ▸ List.mem_cons_self)
      rw [List.mem_append, or_iff_left hlater]
    · have hfree : name ∉ h.name :: taken := fun hmem =>
        (List.mem_cons.1 hmem).elim hsame hname
      rw [← hfirst.load_of_ne (hroom _ hnew) hsame]
      refine (ih hroomRest hfree).congr fun e hname => ?_
      have hother : e ∉ _ := fun he =>
        hsame (hname.symm.trans (hfirst.name_eq (Option.mem_toList.1 he)))
      rw [List.mem_append, or_iff_right hother]

end ComposedAll

/-- A pass that succeeds touches the histories of the entities that it generates and saves, and no
    others, as long as no entity had the last version to begin with. -/
theorem Pass.histories_touched {settings : Settings} {snapshot : Snapshot}
    {histories histories' : MemoryHistories} {outcome : Outcome} {units : MemoryUnits}
    (hroom : ∀ entity, ∀ r ∈ histories.load entity, r.version < 0xffff)
    (hrun : runInMemory settings snapshot histories = (.ok outcome, units, histories'))
    (name : String) :
    Touched outcome.entities name (histories.load name) (histories'.load name) := by
  obtain ⟨p, entities, p', -, ⟨first, second, last, hfirst, hsecond, hlast, hend⟩, rfl⟩ :=
    runInMemory_eq_ok.1 hrun
  have hroomFirst : ∀ name, name ∉ ([] : List String) → first.histories.Room name := by
    intro name _
    rw [hfirst.histories]
    exact hroom name
  have htouched : Touched entities name (first.histories.load name) (second.histories.load name) :=
    hsecond.touched hroomFirst List.not_mem_nil
  obtain ⟨rfl, -, rfl⟩ : p' = { last.pass with entities } ∧ units = last.units ∧
      histories' = last.histories := by
    simpa only [MemoryPass.mk.injEq] using hend
  rw [hfirst.histories, ← hlast.histories] at htouched
  exact htouched

/-- The entity that gains a field is saved at the version of its new layout. -/
theorem Pass.histories_touched_dummy :
    (∀ entity, ∀ r ∈ dummyHistories.load entity, r.version < 0xffff) ∧
      ∃ outcome units histories,
        runInMemory dummySettings dummySnapshot dummyHistories = (.ok outcome, units, histories) ∧
        (∃ e ∈ outcome.entities, e.name = "Dummy" ∧ e.revision = some 4 ∧
          e.fields.layout = [⟨"health", "float"⟩]) ∧
        histories.load "Dummy" = dummyHistories.load "Dummy" ++ [⟨4, [⟨"health", "float"⟩]⟩] := by
  obtain ⟨outcome, units, histories, hrun, hhistory⟩ := runInMemory_dummy
  have htouched := histories_touched room_dummy hrun "Dummy"
  refine ⟨room_dummy, outcome, units, histories, hrun, ?_, hhistory⟩
  have hchanged : ¬∀ e ∈ outcome.entities, e.name = "Dummy" → e.revision = none := by
    intro hnone
    have hsame := htouched.left hnone
    rw [hhistory] at hsame
    exact absurd hsame (by decide)
  simp only [not_forall] at hchanged
  obtain ⟨e, he, hname, hrevision⟩ := hchanged
  obtain ⟨v, hv⟩ := Option.ne_none_iff_exists'.1 hrevision
  obtain ⟨-, hlast⟩ := htouched.saved e he hname v hv
  rw [hhistory] at hlast
  obtain ⟨rfl, hlayout⟩ := Revision.mk.inj (Option.some.inj hlast)
  exact ⟨e, he, hname, hv, hlayout.symm⟩

end EntityWeaver
