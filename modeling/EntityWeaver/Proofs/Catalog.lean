import EntityWeaver.Merge.Selection
import EntityWeaver.Proofs.Project
import EntityWeaver.Proofs.Sorting

/-! Catalogs of the same declarations.

    Where components have names of their own, their order is of no account. They are looked up by name,
    dependencies stand in order of name, and splices of equal rank come from one component, so that
    each signature gets them in one order. -/

namespace EntityWeaver

/-- Of values with keys of their own, the order does not matter to which of them has a key. -/
theorem filter_key_eq_of_perm {α κ : Type} [DecidableEq κ] {key : α → κ} {xs ys : List α}
    (h : xs.Perm ys) (hkeys : (xs.map key).Nodup) (k : κ) :
    (xs.filter fun a => key a = k) = ys.filter fun a => key a = k := by
  have hsame : ∀ a ∈ xs.filter fun a => key a = k, ∀ b ∈ ys.filter fun a => key a = k, a = b := by
    intro a ha b hb
    rw [List.mem_filter, decide_eq_true_eq] at ha hb
    exact List.inj_on_of_nodup_map hkeys ha.1 (h.mem_iff.2 hb.1) (ha.2.trans hb.2.symm)
  have hany : ∀ zs : List α, zs.Pairwise fun _ _ => True := fun zs =>
    List.pairwise_of_forall fun _ _ => trivial
  exact (h.filter _).eq_of_pairwise (fun a b ha hb _ _ => hsame a ha b hb) (hany _) (hany _)

/-- What the value with a key contributes to a list does not depend on the order of the values. -/
theorem flatMap_eq_of_perm {α β κ : Type} [DecidableEq κ] {key : α → κ} {f : α → List β}
    {xs ys : List α} (h : xs.Perm ys) (hkeys : (xs.map key).Nodup) {k : κ}
    (hother : ∀ a, key a ≠ k → f a = []) : xs.flatMap f = ys.flatMap f := by
  have hkey : ∀ zs : List α, zs.flatMap f = (zs.filter fun a => key a = k).flatMap f := by
    intro zs
    induction zs with
    | nil => rfl
    | cons a rest ih =>
      by_cases ha : key a = k
      · simp [ha, ih]
      · simp [ha, ih, hother a ha]
  rw [hkey xs, hkey ys, filter_key_eq_of_perm h hkeys]

namespace Splice

/-- A splice that a component asks for is one of its methods, aimed by a directive at a block. -/
theorem exists_of_mem_requests {c : ComponentDecl} {signature : Signature} {splice : Splice}
    {anchor : Option Anchor} (h : (.ok (signature, splice), anchor) ∈ requests c) :
    ∃ m ∈ c.methods, ∃ d ∈ m.directives, ∃ target block kind,
      splice = ⟨c.name, m.name, block, m.priority, kind⟩ ∧
        ((∃ after, d = .insert target block after) ∨ d = .wrap target block) := by
  have haim : ∀ (m : MethodDecl) (target : String) (block : Option String) (kind : SpliceKind),
      aim c m target block kind = .ok (signature, splice) →
        splice = ⟨c.name, m.name, block, m.priority, kind⟩ := by
    intro m target block kind haim
    unfold aim at haim
    split at haim
    · cases haim
      rfl
    · cases haim
  simp only [requests, List.mem_flatMap, List.mem_map, List.mem_filterMap] at h
  obtain ⟨m, hm, request, ⟨directive, hdirective, hrequest⟩, hok⟩ := h
  cases hok
  cases directive with
  | insert target block after =>
    simp only [ofDirective?, Option.some.injEq] at hrequest
    split at hrequest
    · cases hrequest
    · exact ⟨m, hm, _, hdirective, target, block, _, haim _ _ _ _ hrequest, .inl ⟨after, rfl⟩⟩
  | wrap target block =>
    simp only [ofDirective?, Option.some.injEq] at hrequest
    split at hrequest
    · cases hrequest
    · exact ⟨m, hm, _, hdirective, target, block, _, haim _ _ _ _ hrequest, .inr rfl⟩
  | _ => cases hrequest

/-- A component asks for splices of its own methods only. -/
theorem component_of_mem_requests {c : ComponentDecl} {signature : Signature} {splice : Splice}
    {anchor : Option Anchor} (h : (.ok (signature, splice), anchor) ∈ requests c) :
    splice.component = c.name := by
  obtain ⟨m, -, d, -, target, block, kind, rfl, -⟩ := exists_of_mem_requests h
  rfl

end Splice

namespace MergeFacts

variable (facts : MergeFacts)

/-- The splices of components act in one order, whatever the order of the components. -/
theorem activeSplices_accepted_perm {xs ys : List ComponentDecl} (h : xs.Perm ys)
    (hnames : (xs.map (·.name)).Nodup) (target : Signature) :
    facts.activeSplices ((Catalog.accepted (xs.flatMap Splice.requests)).aimedAt target) =
      facts.activeSplices ((Catalog.accepted (ys.flatMap Splice.requests)).aimedAt target) := by
  unfold activeSplices
  refine (Ordered.ranks.on Splice.rank).mergeSort_eq_of_level fun splice => ?_
  simp only [Catalog.accepted, SpliceIndex.aimedAt, List.filterMap_flatMap, List.filter_flatMap,
    List.map_flatMap]
  -- what is level with a splice comes from the component that it comes from
  refine flatMap_eq_of_perm h hnames (k := splice.component) fun c hc => ?_
  refine List.eq_nil_iff_forall_not_mem.2 fun other hother => hc ?_
  simp only [List.mem_filter, List.mem_map, List.mem_filterMap, Bool.and_eq_true] at hother
  obtain ⟨⟨⟨_, ⟨⟨⟨request, anchor⟩, hrequest, hok⟩, -⟩, rfl⟩, -⟩, hle, hge⟩ := hother
  cases request with
  | error e => cases hok
  | ok r =>
    obtain rfl := Option.some.inj hok
    have hrank := Rank.le_antisymm hle hge
    rw [← Splice.component_of_mem_requests hrequest]
    exact (congrArg Rank.component hrank).symm

end MergeFacts

/-- Two catalogs of the same declarations: components in any order, and for each signature splices
    that act in one order. -/
structure Catalog.Alike (c d : Catalog) : Prop where
  keyed : c.Keyed
  components : c.components.entries.Perm d.components.entries
  blueprints : c.blueprints = d.blueprints
  pointers : c.pointers = d.pointers
  contracts : c.contracts = d.contracts
  splices : ∀ (facts : MergeFacts) (target : Signature),
    facts.activeSplices (c.splices.aimedAt target) = facts.activeSplices (d.splices.aimedAt target)

namespace Catalog.Alike

variable {c d : Catalog}

theorem symm (h : c.Alike d) : d.Alike c where
  keyed e he := h.keyed e (h.components.mem_iff.2 he)
  components := h.components.symm
  blueprints := h.blueprints.symm
  pointers := h.pointers.symm
  contracts := h.contracts.symm
  splices facts target := (h.splices facts target).symm

theorem component?_eq (h : c.Alike d) : c.component? = d.component? :=
  OrderedMap.get?_eq_of_perm h.components

theorem dependencies_eq (h : c.Alike d) : c.dependencies = d.dependencies := by
  have hedge : c.HasEdge = d.HasEdge := by
    unfold HasEdge
    rw [h.component?_eq]
  funext name
  refine ascending_congr fun a => mem_ascending.symm.trans (Iff.trans ?_ mem_ascending)
  show a ∈ c.dependencies name ↔ a ∈ d.dependencies name
  rw [mem_dependencies_iff h.keyed, mem_dependencies_iff h.symm.keyed, hedge]

/-- The components without their keys, each of which is the name. -/
theorem values_perm (h : c.Alike d) : c.components.values.Perm d.components.values :=
  h.components.map _

theorem withDependencies_eq (h : c.Alike d) : c.withDependencies = d.withDependencies := by
  unfold withDependencies
  rw [h.dependencies_eq]

theorem resolve_eq (h : c.Alike d) : c.resolve = d.resolve := by
  unfold resolve
  rw [h.dependencies_eq]

end Catalog.Alike

namespace Snapshot

variable {s : Snapshot} {components : List ComponentDecl}

theorem repeatedName?_eq_none_iff {seen names : List String} :
    repeatedName? seen names = none ↔ names.Nodup ∧ ∀ n ∈ names, n ∉ seen := by
  induction names generalizing seen with
  | nil => simp [repeatedName?]
  | cons n rest ih =>
    unfold repeatedName?
    split
    · next hn => simp [hn]
    · next hn =>
      rw [ih, List.nodup_cons]
      simp only [List.mem_cons, not_or, forall_eq_or_imp]
      grind

/-- No name repeats where names are distinct. -/
theorem duplicate?_eq_none_iff : s.duplicate? = none ↔ (s.components.map (·.name)).Nodup := by
  rw [duplicate?, repeatedName?_eq_none_iff]
  simp

section Declares

variable {t : Snapshot}

/-- Which names are declared does not depend on the order of the components. -/
theorem declares_eq_of_perm (h : s.components.Perm t.components) : s.declares = t.declares := by
  funext name
  refine Bool.eq_iff_iff.2 ?_
  simp only [declares, component?, List.find?_isSome, h.mem_iff]

/-- What a reference means depends on nothing but the names that are declared. -/
theorem canonical_eq (h : s.declares = t.declares) : s.canonical = t.canonical := by
  unfold canonical
  rw [h]

theorem canonicalDirective_eq (h : s.declares = t.declares) :
    s.canonicalDirective = t.canonicalDirective := by
  funext directive
  cases directive <;> simp only [canonicalDirective, canonical_eq h]

theorem canonicalMethod_eq (h : s.declares = t.declares) :
    s.canonicalMethod = t.canonicalMethod := by
  unfold canonicalMethod
  rw [canonicalDirective_eq h]

theorem canonicalComponent_eq (h : s.declares = t.declares) :
    s.canonicalComponent = t.canonicalComponent := by
  unfold canonicalComponent
  rw [canonical_eq h, canonicalMethod_eq h]

theorem canonicalBlueprint_eq (h : s.declares = t.declares) :
    s.canonicalBlueprint = t.canonicalBlueprint := by
  unfold canonicalBlueprint
  rw [canonical_eq h]

end Declares

/-- The components of the catalog are those of the snapshot, each under its name. -/
theorem entries_ofSnapshot (hnames : (s.components.map (·.name)).Nodup) :
    (Catalog.ofSnapshot s).components.entries =
      s.components.map fun c => (c.name, s.canonicalComponent c) := by
  have hkeys : ((s.components.map s.canonicalComponent).map fun c => (c.name, c)).map (·.1) =
      s.components.map (·.name) := by
    simp only [List.map_map]
    rfl
  rw [Catalog.ofSnapshot, OrderedMap.entries_ofList (hkeys ▸ hnames), List.map_map]
  rfl

theorem declares_iff {name : String} : s.declares name = true ↔ ∃ c ∈ s.components, c.name = name := by
  simp [declares, component?, List.find?_isSome]

/-- Which names are declared is a matter of the names of the components. -/
theorem declares_eq_of_names {t : Snapshot}
    (h : s.components.map (·.name) = t.components.map (·.name)) : s.declares = t.declares := by
  funext name
  rw [Bool.eq_iff_iff, declares_iff, declares_iff, ← List.mem_map, ← List.mem_map, h]

/-- The catalog has the components of the snapshot, with canonical references. -/
theorem component?_ofSnapshot_eq_some_iff (hnames : (s.components.map (·.name)).Nodup) {name : String}
    {x : ComponentDecl} : (Catalog.ofSnapshot s).component? name = some x ↔
      ∃ c ∈ s.components, c.name = name ∧ s.canonicalComponent c = x := by
  rw [Catalog.component?, OrderedMap.get?_eq_some_iff, entries_ofSnapshot hnames]
  simp only [List.mem_map, Prod.mk.injEq]

/-- A snapshot and a rearrangement of it have alike catalogs. -/
theorem alike_ofSnapshot (h : s.components.Perm components)
    (hnames : (s.components.map (·.name)).Nodup) :
    (Catalog.ofSnapshot s).Alike (Catalog.ofSnapshot { s with components }) := by
  have hdeclares : s.declares = { s with components }.declares := declares_eq_of_perm h
  refine ⟨keyed_ofSnapshot s, ?_, ?_, rfl, ?_, fun facts target => ?_⟩
  · rw [entries_ofSnapshot hnames, entries_ofSnapshot ((h.map _).nodup_iff.1 hnames),
      canonicalComponent_eq hdeclares]
    exact h.map _
  · unfold Catalog.ofSnapshot
    rw [canonicalBlueprint_eq hdeclares]
  · unfold Catalog.ofSnapshot
    rw [canonical_eq hdeclares]
  · unfold Catalog.ofSnapshot
    rw [canonicalComponent_eq hdeclares]
    refine facts.activeSplices_accepted_perm (h.map _) ?_ target
    rw [List.map_map]
    exact hnames

end Snapshot

end EntityWeaver
