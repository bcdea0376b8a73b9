import EntityWeaver.Proofs.Project

/-! Resolved selections.

    A selection resolves to what is asked for, each name where it is first asked for, with whatever
    else that depends on behind it, by name.

        asked for   Team  Unit  Team
        resolved    Team  Unit │ Draw  Entity

    The components of a cycle depend on one another, and none of them on itself. So what a dependency
    depends on is either a dependency too or the component at the start, which is resolved as well:
    a resolved selection lacks nothing, and resolving it once more changes nothing. -/

namespace EntityWeaver

section FirstTimes

/-- Of two values, the one that stands first where others are dropped does so among them all. -/
theorem idxOf_lt_of_filter {p : String → Bool} {a b : String} (hb : p b = true) (xs : List String)
    (h : (xs.filter p).idxOf a < (xs.filter p).idxOf b) :
    xs.idxOf a < xs.idxOf b := by
  induction xs with
  | nil => simp at h
  | cons x xs ih =>
    by_cases hxb : x = b
    · simp [hxb, hb] at h
    · by_cases hxa : x = a
      · simp [hxa, List.idxOf_cons, beq_eq_false_iff_ne.2 (hxa ▸ hxb)]
      · have hrest : (xs.filter p).idxOf a < (xs.filter p).idxOf b := by
          cases hx : p x <;> simpa [List.filter_cons, hx, List.idxOf_cons, hxa, hxb] using h
        simpa [List.idxOf_cons, hxa, hxb] using ih hrest

/-- Without repetitions values stand in the order in which they came first. -/
theorem pairwise_idxOf_eraseDups : ∀ xs : List String,
    xs.eraseDups.Pairwise fun a b => xs.idxOf a < xs.idxOf b
  | [] => .nil
  | x :: xs => by
    rw [List.eraseDups_cons, List.pairwise_cons]
    have hne : ∀ a ∈ (xs.filter fun b => !b == x).eraseDups, a ≠ x := by
      intro a ha
      rw [List.mem_eraseDups, List.mem_filter] at ha
      simpa using ha.2
    refine ⟨fun a ha => ?_, ?_⟩
    · simp [List.idxOf_cons, beq_eq_false_iff_ne.2 (hne a ha).symm]
    · refine (pairwise_idxOf_eraseDups (xs.filter fun b => !b == x)).imp_of_mem ?_
      intro a b ha hb hlt
      have hxs := idxOf_lt_of_filter (by simpa using hne b hb) xs hlt
      simpa [List.idxOf_cons, (hne a ha).symm, (hne b hb).symm] using hxs
termination_by xs => xs.length
decreasing_by exact Nat.lt_succ_of_le (List.length_filter_le _ _)

theorem eraseDups_of_nodup {xs : List String} (h : xs.Nodup) : xs.eraseDups = xs := by
  have hperm : xs.eraseDups.Perm xs :=
    (List.perm_ext_iff_of_nodup (nodup_eraseDups xs) h).2 fun _ => List.mem_eraseDups
  exact (eraseDups_sublist xs).eq_of_length hperm.length_eq

end FirstTimes

namespace Catalog

variable {c : Catalog} {requested : List String} {a b d : String}

/-- What a selection resolves to: all that is asked for, in the order in which it is first asked for,
    and then by name what that depends on besides. -/
structure Resolves (c : Catalog) (requested resolved : List String) : Prop where
  distinct : resolved.Nodup
  ordered : ∃ first rest, resolved = first ++ rest ∧ (∀ a, a ∈ first ↔ a ∈ requested) ∧
    first.Pairwise (fun a b => requested.idxOf a < requested.idxOf b) ∧ rest.Pairwise (· < ·)
  members : ∀ a, a ∈ resolved ↔ a ∈ requested ∨ ∃ r ∈ requested, a ∈ c.dependencies r
  closed : ∀ a ∈ resolved, c.dependencies a ⊆ resolved

/-- What a dependency depends on is the component at the start or one of its dependencies. -/
theorem eq_or_mem_dependencies (h : c.Keyed) (hab : b ∈ c.dependencies a)
    (hbd : d ∈ c.dependencies b) : d = a ∨ d ∈ c.dependencies a := by
  obtain ⟨-, hab⟩ := (mem_dependencies_iff h).1 hab
  obtain ⟨-, hbd⟩ := (mem_dependencies_iff h).1 hbd
  by_cases hda : d = a
  · exact .inl hda
  · exact .inr ((mem_dependencies_iff h).2 ⟨hda, hab.trans hbd⟩)

theorem nodup_resolve (c : Catalog) (requested : List String) : (c.resolve requested).Nodup := by
  refine List.nodup_append.2 ⟨nodup_eraseDups _, (nodup_eraseDups _).filter _, ?_⟩
  rintro a hfirst b hrest rfl
  have habsent := (List.mem_filter.1 hrest).2
  simp [hfirst] at habsent

theorem dependencies_subset_resolve (h : c.Keyed) (ha : a ∈ c.resolve requested) :
    c.dependencies a ⊆ c.resolve requested := by
  intro d hd
  rw [mem_resolve_iff] at ha ⊢
  rcases ha with ha | ⟨r, hr, ha⟩
  · exact .inr ⟨a, ha, hd⟩
  · rcases eq_or_mem_dependencies h ha hd with rfl | hd
    · exact .inl hr
    · exact .inr ⟨r, hr, hd⟩

/-- A selection that repeats nothing and lacks nothing resolves to itself. -/
theorem resolve_of_closed (hdistinct : requested.Nodup)
    (hclosed : ∀ a ∈ requested, c.dependencies a ⊆ requested) :
    c.resolve requested = requested := by
  have hrest : (ascending (requested.flatMap c.dependencies)).filter
      (fun name => !requested.contains name) = [] := by
    refine List.filter_eq_nil_iff.2 fun d hd => ?_
    rw [mem_ascending, List.mem_flatMap] at hd
    obtain ⟨a, ha, hd⟩ := hd
    simpa using hclosed a ha hd
  rw [resolve, eraseDups_of_nodup hdistinct, hrest, List.append_nil]

theorem resolves_resolve (h : c.Keyed) (requested : List String) :
    c.Resolves requested (c.resolve requested) where
  distinct := nodup_resolve c requested
  ordered := by
    refine ⟨requested.eraseDups, _, rfl, fun a => List.mem_eraseDups,
      pairwise_idxOf_eraseDups requested, ?_⟩
    exact (pairwise_lt_ascending _).filter _
  members := fun _ => mem_resolve_iff
  closed := fun _ ha => dependencies_subset_resolve h ha

/-- The order of a selection decides the order of what it resolves to, and nothing else. -/
theorem resolve_perm (c : Catalog) {other : List String} (h : requested.Perm other) :
    (c.resolve requested).Perm (c.resolve other) := by
  refine (List.perm_ext_iff_of_nodup (nodup_resolve c requested) (nodup_resolve c other)).2 fun a => ?_
  rw [mem_resolve_iff, mem_resolve_iff, h.mem_iff]
  simp only [h.mem_iff]

/-- A selection resolves to itself with all that it depends on: what is asked for comes first, the
    rest goes by name, and nothing is missing. Resolving once more changes nothing, and asking in
    another order changes the order alone. -/
theorem resolve_closed_stable (h : c.Keyed) (requested : List String) :
    c.Resolves requested (c.resolve requested) ∧
      c.resolve (c.resolve requested) = c.resolve requested ∧
      ∀ other, requested.Perm other → (c.resolve requested).Perm (c.resolve other) := by
  have hresolves := resolves_resolve h requested
  refine ⟨hresolves, resolve_of_closed hresolves.distinct hresolves.closed, ?_⟩
  intro other hother
  exact resolve_perm c hother

theorem resolve_closed_stable_ring :
    ring.Keyed ∧ ["TeamComp", "UnitComp", "TeamComp"].Perm ["UnitComp", "TeamComp", "TeamComp"] ∧
      ring.Resolves ["TeamComp", "UnitComp", "TeamComp"]
        (ring.resolve ["TeamComp", "UnitComp", "TeamComp"]) ∧
      ring.resolve (ring.resolve ["TeamComp", "UnitComp", "TeamComp"]) =
        ring.resolve ["TeamComp", "UnitComp", "TeamComp"] ∧
      (ring.resolve ["TeamComp", "UnitComp", "TeamComp"]).Perm
        (ring.resolve ["UnitComp", "TeamComp", "TeamComp"]) := by
  have hkeyed : ring.Keyed := by decide
  have hperm : ["TeamComp", "UnitComp", "TeamComp"].Perm ["UnitComp", "TeamComp", "TeamComp"] :=
    .swap _ _ _
  obtain ⟨hresolves, hstable, hother⟩ :=
    resolve_closed_stable hkeyed ["TeamComp", "UnitComp", "TeamComp"]
  exact ⟨hkeyed, hperm, hresolves, hstable, hother _ hperm⟩

end Catalog

end EntityWeaver
