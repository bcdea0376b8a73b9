import EntityWeaver.Dependency
import EntityWeaver.Proofs.OrderedMap
import EntityWeaver.Proofs.Sorting
import Mathlib.Logic.Function.Iterate
import Mathlib.Logic.Relation
import Mathlib.Data.List.Nodup

/-! Dependencies are what edges reach.

    The dependencies of a component are the other components that one edge or more lead to, through
    markers, cycles of markers and the edges that come with foundational components alike. The search
    is followed as it goes: it holds what it has found and what it still has to look at, and takes one
    pending name at a time.

        pending  n ─▶ the start itself, or found before   passed over
                   └▶ new                                 found, and what n has edges to is pending

    What is found has been reached by edges; once nothing is pending, no edge leads out of it except
    back to the start. -/

namespace EntityWeaver

/-- A search under way: the names that it has found, and those that it still has to look at. -/
structure Search where
  found : List String
  pending : List String
  deriving Repr, DecidableEq

/-- Look at one pending name. The name that the search starts from is never found. -/
def Search.step (next : String → List String) (start : String) : Search → Search
  | ⟨found, []⟩ => ⟨found, []⟩
  | ⟨found, name :: pending⟩ =>
    if name = start ∨ name ∈ found then ⟨found, pending⟩
    else ⟨found ++ [name], pending ++ next name⟩

section Reached

variable {next : String → List String} {unseen pending : List String}

/-- What is found was unseen, and edges lead to it from a pending name. -/
theorem of_mem_reached {name : String} (h : name ∈ reached next unseen pending) :
    name ∈ unseen ∧ ∃ p ∈ pending, Relation.ReflTransGen (fun a b => b ∈ next a) p name := by
  fun_induction reached next unseen pending with
  | case1 => cases h
  | case2 unseen first pending hfirst ih =>
    rcases List.mem_cons.1 h with rfl | h
    · exact ⟨hfirst, name, List.mem_cons_self, .refl⟩
    · obtain ⟨hname, p, hp, hpath⟩ := ih h
      refine ⟨List.mem_of_mem_erase hname, ?_⟩
      rcases List.mem_append.1 hp with hp | hp
      · exact ⟨p, List.mem_cons_of_mem _ hp, hpath⟩
      · exact ⟨first, List.mem_cons_self, .head hp hpath⟩
  | case3 unseen first pending _ ih =>
    obtain ⟨hname, p, hp, hpath⟩ := ih h
    exact ⟨hname, p, List.mem_cons_of_mem _ hp, hpath⟩

/-- What is pending and unseen is found, and so is what an edge from a found name leads to. -/
theorem reached_closed (next : String → List String) (unseen pending : List String) :
    (∀ p ∈ pending, p ∈ unseen → p ∈ reached next unseen pending) ∧
      ∀ a ∈ reached next unseen pending, ∀ b ∈ next a, b ∈ unseen →
        b ∈ reached next unseen pending := by
  fun_induction reached next unseen pending with
  | case1 => simp
  | case2 unseen first pending _ ih =>
    obtain ⟨hpending, hedges⟩ := ih
    have hrest : ∀ b, b ∈ unseen → (b ≠ first → b ∈ pending ++ next first) →
        b ∈ first :: reached next (unseen.erase first) (pending ++ next first) := by
      intro b hb hpend
      by_cases hne : b = first
      · exact hne ▸ List.mem_cons_self
      · exact List.mem_cons_of_mem _ (hpending b (hpend hne) ((List.mem_erase_of_ne hne).2 hb))
    refine ⟨fun p hp hunseen => hrest p hunseen fun hne => ?_, fun a ha b hb hunseen => ?_⟩
    · exact List.mem_append_left _ ((List.mem_cons.1 hp).resolve_left hne)
    · rcases List.mem_cons.1 ha with rfl | ha
      · exact hrest b hunseen fun _ => List.mem_append_right _ hb
      · by_cases hne : b = first
        · exact hne ▸ List.mem_cons_self
        · exact List.mem_cons_of_mem _ (hedges a ha b hb ((List.mem_erase_of_ne hne).2 hunseen))
  | case3 unseen first pending hfirst ih =>
    obtain ⟨hpending, hedges⟩ := ih
    refine ⟨fun p hp hunseen => ?_, hedges⟩
    rcases List.mem_cons.1 hp with rfl | hp
    · exact absurd hunseen hfirst
    · exact hpending p hp hunseen

/-- The search ends, with what is reached found. All names are among `known`, of which the unseen
    ones are those that the search may still find. -/
theorem exists_iterate_step {known : List String} (found : List String) (start : String)
    (hnext : ∀ a, next a ⊆ known) (hunseen : unseen.Nodup)
    (hknown : ∀ n ∈ known, n ∈ unseen ↔ n ≠ start ∧ n ∉ found) (hpending : pending ⊆ known) :
    ∃ steps, (Search.step next start)^[steps] ⟨found, pending⟩ =
      ⟨found ++ reached next unseen pending, []⟩ := by
  fun_induction reached next unseen pending generalizing found with
  | case1 => exact ⟨0, by simp⟩
  | case2 unseen first pending hfirst ih =>
    have hnew := (hknown first (hpending List.mem_cons_self)).1 hfirst
    have hknown' : ∀ n ∈ known, n ∈ unseen.erase first ↔ n ≠ start ∧ n ∉ found ++ [first] := by
      intro n hn
      rw [hunseen.mem_erase_iff, hknown n hn, List.mem_append, List.mem_singleton]
      tauto
    have hpending' : pending ++ next first ⊆ known :=
      List.append_subset.2 ⟨fun n hn => hpending (List.mem_cons_of_mem _ hn), hnext first⟩
    obtain ⟨steps, hsteps⟩ := ih _ (hunseen.erase first) hknown' hpending'
    refine ⟨steps + 1, ?_⟩
    rw [Function.iterate_succ_apply, Search.step, if_neg (by tauto), hsteps, List.append_assoc,
      List.singleton_append]
  | case3 unseen first pending hfirst ih =>
    have hold := mt (hknown first (hpending List.mem_cons_self)).2 hfirst
    obtain ⟨steps, hsteps⟩ := ih found hunseen hknown fun n hn => hpending (List.mem_cons_of_mem _ hn)
    refine ⟨steps + 1, ?_⟩
    rw [Function.iterate_succ_apply, Search.step, if_pos (by tauto), hsteps]

end Reached

namespace Catalog

variable {c : Catalog} {a b : String}

/-- Every component stands under its own name. -/
def Keyed (c : Catalog) : Prop := ∀ e ∈ c.components.entries, e.2.name = e.1

instance (c : Catalog) : Decidable c.Keyed :=
  inferInstanceAs (Decidable (∀ e ∈ c.components.entries, e.2.name = e.1))

/-- An edge from one component to another: by a marker, or to a foundational component from one that
    is not. -/
def HasEdge (c : Catalog) (a b : String) : Prop :=
  ∃ x y, c.component? a = some x ∧ c.component? b = some y ∧
    (b ∈ x.markers ∨ x.foundational = false ∧ y.foundational = true)

theorem mem_keys_iff : a ∈ c.components.keys ↔ ∃ x, c.component? a = some x := by
  rw [component?, ← OrderedMap.contains_iff, OrderedMap.contains, List.contains_iff_mem]

theorem mem_foundational_iff (h : c.Keyed) :
    a ∈ c.foundational ↔ ∃ x, c.component? a = some x ∧ x.foundational = true := by
  simp only [foundational, OrderedMap.values, List.mem_map, List.mem_filter, component?,
    OrderedMap.get?_eq_some_iff]
  constructor
  · rintro ⟨_, ⟨⟨⟨k, x⟩, he, rfl⟩, hx⟩, rfl⟩
    obtain rfl : x.name = k := h _ he
    exact ⟨x, he, hx⟩
  · rintro ⟨x, he, hx⟩
    exact ⟨x, ⟨⟨(a, x), he, rfl⟩, hx⟩, h _ he⟩

theorem mem_edges_iff (h : c.Keyed) {x : ComponentDecl} :
    b ∈ c.edges x ↔ ∃ y, c.component? b = some y ∧
      (b ∈ x.markers ∨ x.foundational = false ∧ y.foundational = true) := by
  have hcontains : c.components.contains b = true ↔ ∃ y, c.component? b = some y :=
    OrderedMap.contains_iff
  rw [edges, List.mem_append, List.mem_filter, hcontains]
  cases hx : x.foundational
  · simp only [Bool.false_eq_true, if_false, mem_foundational_iff h, true_and]
    grind
  · simp only [if_true, List.not_mem_nil, or_false, Bool.true_eq_false, false_and]
    grind

theorem mem_edgesFrom_iff (h : c.Keyed) : b ∈ c.edgesFrom a ↔ c.HasEdge a b := by
  unfold edgesFrom HasEdge
  cases ha : c.component? a with
  | none => simp
  | some x => simp [mem_edges_iff h]

theorem edgesFrom_subset_keys (h : c.Keyed) (a : String) : c.edgesFrom a ⊆ c.components.keys := by
  intro b hb
  obtain ⟨_, y, -, hy, -⟩ := (mem_edgesFrom_iff h).1 hb
  exact mem_keys_iff.2 ⟨y, hy⟩

theorem mem_keys_erase_iff : b ∈ c.components.keys.erase a ↔ b ≠ a ∧ b ∈ c.components.keys :=
  List.Nodup.mem_erase_iff c.components.distinct

theorem mem_dependencies_iff (h : c.Keyed) :
    b ∈ c.dependencies a ↔ b ≠ a ∧ Relation.TransGen c.HasEdge a b := by
  rw [dependencies, mem_ascending]
  constructor
  · intro hb
    obtain ⟨hb, p, hp, hpath⟩ := of_mem_reached hb
    refine ⟨(mem_keys_erase_iff.1 hb).1, .head' ((mem_edgesFrom_iff h).1 hp) ?_⟩
    exact Relation.ReflTransGen.mono (fun _ _ => (mem_edgesFrom_iff h).1) _ _ hpath
  · rintro ⟨hne, hpath⟩
    obtain ⟨hpending, hedges⟩ :=
      reached_closed c.edgesFrom (c.components.keys.erase a) (c.edgesFrom a)
    -- the path may come back to the start, which has its edges pending but is never found
    have hend : b = a ∨ b ∈ reached c.edgesFrom (c.components.keys.erase a) (c.edgesFrom a) := by
      clear hne
      induction hpath with
      | single hb =>
        have hb := (mem_edgesFrom_iff h).2 hb
        refine or_iff_not_imp_left.2 fun hne => hpending _ hb ?_
        exact mem_keys_erase_iff.2 ⟨hne, edgesFrom_subset_keys h a hb⟩
      | tail _ hb ih =>
        have hb := (mem_edgesFrom_iff h).2 hb
        have hkey := edgesFrom_subset_keys h _ hb
        refine or_iff_not_imp_left.2 fun hne => ?_
        rcases ih with rfl | hmid
        · exact hpending _ hb (mem_keys_erase_iff.2 ⟨hne, hkey⟩)
        · exact hedges _ hmid _ hb (mem_keys_erase_iff.2 ⟨hne, hkey⟩)
    exact hend.resolve_left hne

/-- The search for dependencies comes to its end, and has found them by then. -/
theorem exists_iterate_step_edgesFrom (h : c.Keyed) (a : String) :
    ∃ steps found, (Search.step c.edgesFrom a)^[steps] ⟨[], c.edgesFrom a⟩ = ⟨found, []⟩ ∧
      c.dependencies a = ascending found := by
  have hkeys : c.components.keys.Nodup := c.components.distinct
  obtain ⟨steps, hsteps⟩ := exists_iterate_step [] a (edgesFrom_subset_keys h) (hkeys.erase a)
    (fun n hn => by simp [mem_keys_erase_iff, hn]) (edgesFrom_subset_keys h a)
  exact ⟨steps, _, hsteps, rfl⟩

/-- The dependencies of a component are the other components that one edge or more lead to. The search
    for them ends, no component depends on itself, and what a dependency depends on is a dependency
    too, unless it is the component. -/
theorem dependencies_eq_reachable (h : c.Keyed) :
    (∀ a, ∃ steps found, (Search.step c.edgesFrom a)^[steps] ⟨[], c.edgesFrom a⟩ = ⟨found, []⟩ ∧
        c.dependencies a = ascending found) ∧
      (∀ a b, b ∈ c.dependencies a ↔ b ≠ a ∧ Relation.TransGen c.HasEdge a b) ∧
      (∀ a, a ∉ c.dependencies a) ∧
      ∀ a, ∀ b ∈ c.dependencies a, ∀ d ∈ c.dependencies b, d = a ∨ d ∈ c.dependencies a := by
  refine ⟨exists_iterate_step_edgesFrom h, fun a b => mem_dependencies_iff h, fun a ha => ?_,
    fun a b hb d hd => or_iff_not_imp_left.2 fun hne => ?_⟩
  · exact ((mem_dependencies_iff h).1 ha).1 rfl
  · obtain ⟨-, hab⟩ := (mem_dependencies_iff h).1 hb
    obtain ⟨-, hbd⟩ := (mem_dependencies_iff h).1 hd
    exact (mem_dependencies_iff h).2 ⟨hne, hab.trans hbd⟩

/-- Two components that mark each other, one of which marks itself and a type that is no component
    besides, and a foundational one. -/
def ring : Catalog where
  components := .ofList [
    ("UnitComp", { name := "UnitComp", markers := ["Drawc", "UnitComp", "TeamComp"] }),
    ("TeamComp", { name := "TeamComp", markers := ["UnitComp"] }),
    ("EntityComp", { name := "EntityComp", foundational := true })]

theorem dependencies_eq_reachable_ring :
    ring.Keyed ∧
      (∀ b, b ∈ ring.dependencies "UnitComp" ↔
        b ≠ "UnitComp" ∧ Relation.TransGen ring.HasEdge "UnitComp" b) ∧
      "UnitComp" ∉ ring.dependencies "UnitComp" := by
  have hkeyed : ring.Keyed := by decide
  obtain ⟨-, hreachable, hirrefl, -⟩ := dependencies_eq_reachable hkeyed
  exact ⟨hkeyed, hreachable "UnitComp", hirrefl "UnitComp"⟩

end Catalog

end EntityWeaver
