import EntityWeaver.Proofs.Sorting
import EntityWeaver.Registry

/-! What a registry lists, and in which order.

    The entries of a registry are numbered from zero. Pointers go ahead of blueprints, each kind goes
    by qualified name, and each name of a kind has one entry:

        id      0   1   ...  m-1     m   m+1  ...
        kind    pointer ...          blueprint ...
        name    p₀ < p₁ < ...        b₀ < b₁ < ...

    So a registry is determined by which names there are. An entry is looked up by its name, and the
    first entry of a name is found. A blueprint that is called like a pointer has that pointer ahead of
    it and is not found; every other entry is. -/

namespace EntityWeaver

namespace Registry

/-- A registry of pointers and blueprints of these qualified names. -/
structure Lists (r : Registry) (pointers blueprints : List String) : Prop where
  ids : r.entries.map (·.id) = List.range r.entries.length
  /-- Behind a blueprint stand blueprints only. -/
  kinds : r.entries.Pairwise fun a b => a.kind = .blueprint → b.kind = .blueprint
  names : r.entries.Pairwise fun a b => a.kind = b.kind → a.name < b.name
  mem_pointers : ∀ n, (∃ e ∈ r.entries, e.kind = .pointer ∧ e.name = n) ↔ n ∈ pointers
  mem_blueprints : ∀ n, (∃ e ∈ r.entries, e.kind = .blueprint ∧ e.name = n) ↔ n ∈ blueprints

variable (pointers : List PointerDecl) (blueprints : List String) (package : String)

/-- Apart from their numbers, the entries are the names to register with their kinds. -/
theorem map_entries_assign : (assign pointers blueprints package).entries.map
    (fun e => (e.name, e.kind)) = names pointers blueprints package := by
  refine List.ext_getElem (by simp [assign]) fun i _ _ => ?_
  simp [assign]

theorem map_id_assign : (assign pointers blueprints package).entries.map (·.id) =
    List.range (assign pointers blueprints package).entries.length := by
  refine List.ext_getElem (by simp) fun i _ _ => ?_
  simp [assign]

/-- A name of a kind has an entry just when it is one of the names to register. -/
theorem exists_entry_iff {n : String} {kind : EntryKind} :
    (∃ e ∈ (assign pointers blueprints package).entries, e.kind = kind ∧ e.name = n) ↔
      (n, kind) ∈ names pointers blueprints package := by
  rw [← map_entries_assign, List.mem_map]
  simp only [Prod.mk.injEq, and_comm]

theorem mem_names_pointer {n : String} :
    (n, EntryKind.pointer) ∈ names pointers blueprints package ↔ n ∈ pointers.map (·.name) := by
  simp [names]

theorem mem_names_blueprint {n : String} :
    (n, EntryKind.blueprint) ∈ names pointers blueprints package ↔
      n ∈ blueprints.map (qualify package) := by
  simp [names]

/-- What is registered is what is given, each name once and in order. -/
theorem assign_lists : (assign pointers blueprints package).Lists (pointers.map (·.name))
    (blueprints.map (qualify package)) where
  ids := map_id_assign pointers blueprints package
  kinds := by
    have hkinds : (names pointers blueprints package).Pairwise fun a b =>
        a.2 = .blueprint → b.2 = .blueprint := by
      refine List.pairwise_append.2 ⟨?_, ?_, ?_⟩
      · exact List.pairwise_map.2 (List.pairwise_of_forall fun _ _ h => nomatch h)
      · exact List.pairwise_map.2 (List.pairwise_of_forall fun _ _ _ => rfl)
      · intro a ha b hb _
        obtain ⟨_, -, rfl⟩ := List.mem_map.1 hb
        rfl
    rw [← map_entries_assign] at hkinds
    exact List.pairwise_map.1 hkinds
  names := by
    have hnames : (names pointers blueprints package).Pairwise fun a b => a.2 = b.2 → a.1 < b.1 := by
      refine List.pairwise_append.2 ⟨?_, ?_, ?_⟩
      · refine List.pairwise_map.2 ((pairwise_lt_ascending _).imp ?_)
        intro a b hlt _
        exact hlt
      · refine List.pairwise_map.2 ((pairwise_lt_ascending _).imp ?_)
        intro a b hlt _
        exact hlt
      · intro a ha b hb hkind
        obtain ⟨_, -, rfl⟩ := List.mem_map.1 ha
        obtain ⟨_, -, rfl⟩ := List.mem_map.1 hb
        cases hkind
    rw [← map_entries_assign] at hnames
    exact List.pairwise_map.1 hnames
  mem_pointers n :=
    (exists_entry_iff pointers blueprints package).trans (mem_names_pointer pointers blueprints package)
  mem_blueprints n :=
    (exists_entry_iff pointers blueprints package).trans
      (mem_names_blueprint pointers blueprints package)

variable {pointers pointers' : List PointerDecl} {blueprints blueprints' : List String}

/-- The order in which names are given is of no account. -/
theorem assign_perm (hpointers : pointers.Perm pointers') (hblueprints : blueprints.Perm blueprints')
    (package : String) : assign pointers blueprints package = assign pointers' blueprints' package := by
  have hnames : names pointers blueprints package = names pointers' blueprints' package := by
    unfold names
    rw [ascending_congr fun a => (hpointers.map _).mem_iff,
      ascending_congr fun a => (hblueprints.map _).mem_iff]
  unfold assign
  rw [hnames]

/-! ### Looking entries up -/

variable {r : Registry} {ps bs : List String} {e f : RegistryEntry}

/-- Entries with one number are one entry. -/
theorem Lists.eq_of_id_eq (hr : r.Lists ps bs) (he : e ∈ r.entries) (hf : f ∈ r.entries)
    (hid : e.id = f.id) : e = f :=
  List.inj_on_of_nodup_map (hr.ids ▸ List.nodup_range) he hf hid

/-- Of two entries with one name the first is a pointer and the second a blueprint. -/
theorem Lists.kinds_of_name_eq (hr : r.Lists ps bs) {front mid back : List RegistryEntry}
    (hsplit : r.entries = front ++ e :: (mid ++ f :: back)) (hname : e.name = f.name) :
    e.kind = .pointer ∧ f.kind = .blueprint := by
  have hpair : [e, f].Sublist r.entries := by
    rw [hsplit]
    refine List.Sublist.trans ?_ (List.sublist_append_right front _)
    exact (List.singleton_sublist.2 (List.mem_append_right _ List.mem_cons_self)).cons_cons e
  have hkinds : e.kind = .blueprint → f.kind = .blueprint :=
    List.rel_of_pairwise_cons (hr.kinds.sublist hpair) (List.mem_singleton_self f)
  have hnames : e.kind = f.kind → e.name < f.name :=
    List.rel_of_pairwise_cons (hr.names.sublist hpair) (List.mem_singleton_self f)
  cases he : e.kind with
  | pointer =>
    cases hf : f.kind with
    | pointer => exact absurd (hnames (he.trans hf.symm)) (hname ▸ String.lt_irrefl _)
    | blueprint => exact ⟨rfl, rfl⟩
  | blueprint => exact absurd (hnames (he.trans (hkinds he).symm)) (hname ▸ String.lt_irrefl _)

/-- An entry is found under its name, unless it is a blueprint that is called like a pointer. -/
theorem Lists.idOf?_eq_some_iff (hr : r.Lists ps bs) (he : e ∈ r.entries) :
    r.idOf? e.name = some e.id ↔ (e.kind = .blueprint → e.name ∉ ps) := by
  obtain ⟨first, hfirst⟩ : ∃ first, r.entries.find? (·.name == e.name) = some first :=
    Option.isSome_iff_exists.1 (List.find?_isSome.2 ⟨e, he, beq_self_eq_true _⟩)
  obtain ⟨hname, front, back, hsplit, hfront⟩ := List.find?_eq_some_iff_append.1 hfirst
  rw [beq_iff_eq] at hname
  have hmem : first ∈ r.entries := List.mem_of_find?_eq_some hfirst
  -- what has the name stands at the place of the first entry or behind it
  have hbehind : ∀ g ∈ r.entries, g.name = e.name → g ≠ first →
      first.kind = .pointer ∧ g.kind = .blueprint := by
    intro g hg hgname hne
    rw [hsplit] at hg
    rcases List.mem_append.1 hg with hg | hg
    · exact absurd (beq_iff_eq.2 hgname) (by simpa using hfront g hg)
    · obtain ⟨mid, rest, rfl⟩ := List.append_of_mem ((List.mem_cons.1 hg).resolve_left hne)
      exact hr.kinds_of_name_eq hsplit (hname.trans hgname.symm)
  rw [idOf?, hfirst, Option.map_some, Option.some_inj]
  constructor
  · intro hid hkind hpointer
    obtain rfl := hr.eq_of_id_eq hmem he hid
    obtain ⟨g, hg, hgkind, hgname⟩ := (hr.mem_pointers _).2 hpointer
    have hne : g ≠ first := by
      rintro rfl
      cases hgkind.symm.trans hkind
    cases (hbehind g hg hgname hne).1.symm.trans hkind
  · intro hfree
    by_contra hid
    obtain ⟨hpointer, hblueprint⟩ := hbehind e he rfl fun heq => hid (congrArg (·.id) heq.symm)
    exact hfree hblueprint ((hr.mem_pointers _).1 ⟨first, hmem, hpointer, hname⟩)

/-- Lookup inverts registration, as far as names tell entries apart. An entry is found by its name
    unless it is a blueprint that is called like a pointer. So all entries are found, and no name has
    two numbers, just when no blueprint with its package is called like a pointer. -/
theorem idOf?_inverts (pointers : List PointerDecl) (blueprints : List String) (package : String) :
    let r := assign pointers blueprints package
    (∀ e ∈ r.entries, (r.idOf? e.name = some e.id ↔
      (e.kind = .blueprint → e.name ∉ pointers.map (·.name)))) ∧
    ((∀ e ∈ r.entries, r.idOf? e.name = some e.id) ↔
      ∀ q ∈ pointers, ∀ b ∈ blueprints, qualify package b ≠ q.name) ∧
    ((∀ e ∈ r.entries, ∀ f ∈ r.entries, e.name = f.name → e.id = f.id) ↔
      ∀ q ∈ pointers, ∀ b ∈ blueprints, qualify package b ≠ q.name) := by
  intro r
  have hr : r.Lists (pointers.map (·.name)) (blueprints.map (qualify package)) :=
    assign_lists pointers blueprints package
  have hall : (∀ e ∈ r.entries, r.idOf? e.name = some e.id) ↔
      ∀ q ∈ pointers, ∀ b ∈ blueprints, qualify package b ≠ q.name := by
    constructor
    · intro h q hq b hb hname
      obtain ⟨e, he, hkind, hename⟩ := (hr.mem_blueprints _).2 (List.mem_map_of_mem hb)
      refine (hr.idOf?_eq_some_iff he).1 (h e he) hkind ?_
      rw [hename, hname]
      exact List.mem_map_of_mem hq
    · intro h e he
      refine (hr.idOf?_eq_some_iff he).2 fun hkind hpointer => ?_
      obtain ⟨q, hq, hqname⟩ := List.mem_map.1 hpointer
      obtain ⟨b, hb, hbname⟩ := List.mem_map.1 ((hr.mem_blueprints _).1 ⟨e, he, hkind, rfl⟩)
      exact h q hq b hb (hbname.trans hqname.symm)
  refine ⟨fun e he => hr.idOf?_eq_some_iff he, hall, ?_⟩
  rw [← hall]
  constructor
  · intro h e he
    refine (hr.idOf?_eq_some_iff he).2 fun hkind hpointer => ?_
    obtain ⟨f, hf, hfkind, hfname⟩ := (hr.mem_pointers _).2 hpointer
    obtain rfl := hr.eq_of_id_eq he hf (h e he f hf hfname.symm)
    cases hkind.symm.trans hfkind
  · intro h e he f hf hname
    have hfound := (h e he).symm.trans (hname ▸ h f hf)
    exact Option.some.inj hfound

/-- A type written by hand that is called like the entity of a blueprint. -/
def handwrittenUnit : PointerDecl := ⟨"mymod.gen.Unit", true, none⟩

theorem entries_handwrittenUnit : (assign [handwrittenUnit] ["Unit"] "mymod.gen").entries =
    [⟨"mymod.gen.Unit", 0, .pointer⟩, ⟨"mymod.gen.Unit", 1, .blueprint⟩] := by
  have hpointers : ascending ([handwrittenUnit].map (·.name)) = ["mymod.gen.Unit"] := by
    rw [List.map_singleton, ascending, List.mergeSort_singleton]
    rfl
  have hblueprints : ascending (["Unit"].map (qualify "mymod.gen")) = ["mymod.gen.Unit"] := by
    rw [List.map_singleton, ascending, List.mergeSort_singleton]
    rfl
  rw [assign, names, hpointers, hblueprints]
  rfl

/-- What can be said of the entity. -/
theorem idOf?_inverts_handwrittenUnit :
    (⟨"mymod.gen.Unit", 1, .blueprint⟩ : RegistryEntry) ∈
        (assign [handwrittenUnit] ["Unit"] "mymod.gen").entries ∧
      ((assign [handwrittenUnit] ["Unit"] "mymod.gen").idOf? "mymod.gen.Unit" = some 1 ↔
        (EntryKind.blueprint = .blueprint →
          "mymod.gen.Unit" ∉ [handwrittenUnit].map (·.name))) := by
  have hmem : (⟨"mymod.gen.Unit", 1, .blueprint⟩ : RegistryEntry) ∈
      (assign [handwrittenUnit] ["Unit"] "mymod.gen").entries := by
    rw [entries_handwrittenUnit]
    exact List.mem_cons_of_mem _ List.mem_cons_self
  exact ⟨hmem, (idOf?_inverts [handwrittenUnit] ["Unit"] "mymod.gen").1 _ hmem⟩

/-- One name is registered twice, and the second entry is not found by it. -/
theorem handwrittenUnit_registered_twice :
    ∃ e ∈ (assign [handwrittenUnit] ["Unit"] "mymod.gen").entries,
      ∃ f ∈ (assign [handwrittenUnit] ["Unit"] "mymod.gen").entries,
        e.name = f.name ∧ e.id ≠ f.id ∧
          (assign [handwrittenUnit] ["Unit"] "mymod.gen").idOf? f.name ≠ some f.id := by
  simp only [idOf?, entries_handwrittenUnit]
  decide

end Registry

end EntityWeaver
