import EntityWeaver.History.Memory
import EntityWeaver.Proofs.SortedMap

/-! Histories in memory, brought up to date.

    A history in memory is always by version. Bringing it up to date leaves the histories of all other
    entities alone, and as long as there is a version behind the newest one it leaves what it returns:

        load ──update──▶ history          load h = history, with the given layout last
          h                 h'            load h' = history

    So an update for the same layout finds nothing to add, in these histories and in any others that
    hold the same revisions of the entity. -/

namespace EntityWeaver

/-- A chain of computations in a state goes on from where its first part gets to. -/
theorem run_bind_of_run {σ α β : Type} {x : StateM σ α} {f : α → StateM σ β} {s s' : σ} {a : α}
    (h : x.run s = (a, s')) : (x >>= f).run s = (f a).run s' := by
  rw [StateT.run_bind, h]
  rfl

namespace SortedMap

variable {κ α : Type} [Ord κ]

/-- An entry behind all others goes to the end. -/
theorem insertEntry_of_forall_lt [Std.OrientedOrd κ] {k : κ} (v : α) {es : List (κ × α)}
    (h : ∀ e ∈ es, compare e.1 k = .lt) : insertEntry k v es = es ++ [(k, v)] := by
  induction es with
  | nil => rfl
  | cons e rest ih =>
    have hfirst : compare k e.1 = .gt := Std.OrientedCmp.gt_of_lt (h e List.mem_cons_self)
    rw [insertEntry, hfirst]
    simp only [ih fun d hd => h d (List.mem_cons_of_mem _ hd), List.cons_append]

end SortedMap

attribute [ext] Revision

namespace Revision

/-- A version but the last is followed by the next number. -/
theorem toNat_nextVersion {v : UInt16} (h : v ≠ 0xffff) : (nextVersion v).toNat = v.toNat + 1 := by
  have hne : v.toNat ≠ 65535 := fun hv => h (UInt16.toNat.inj hv)
  have hlt := v.toNat_lt
  have hone : (1 : UInt16).toNat = 1 := rfl
  rw [nextVersion, if_neg h, UInt16.toNat_add]
  omega

/-- There is a version behind every one but the last. -/
theorem lt_nextVersion {v : UInt16} (h : v ≠ 0xffff) : v < nextVersion v := by
  rw [UInt16.lt_iff_toNat_lt, toNat_nextVersion h]
  exact Nat.lt_succ_self _

/-- A history whose newest layout is the given one lacks nothing. -/
theorem lacking?_eq_none_iff {history : List Revision} {layout : List LayoutField} :
    lacking? history layout = none ↔ ∃ r, history.getLast? = some r ∧ r.fields = layout := by
  unfold lacking?
  split
  · next h => simp [h]
  · next r h =>
    rw [h]
    by_cases hr : r.fields = layout <;> simp [hr]

end Revision

namespace MemoryHistories

variable {h : MemoryHistories} {entity : String}

/-- What bringing a history up to date gives, and the histories behind it. -/
def update (h : MemoryHistories) (entity : String) (layout : List LayoutField) :
    List Revision × MemoryHistories :=
  match Revision.lacking? (h.load entity) layout with
  | none => (h.load entity, h)
  | some r => (h.load entity ++ [r], h.store entity r)

/-- Revisions in memory are by version. -/
theorem pairwise_load (h : MemoryHistories) (entity : String) :
    (h.load entity).Pairwise fun a b => a.version < b.version := by
  unfold load
  cases h.get? entity with
  | none => exact .nil
  | some revisions =>
    exact List.pairwise_map.2 (revisions.ascending.imp fun hab => compareOfLessAndEq_eq_lt.1 hab)

theorem sort_load (h : MemoryHistories) (entity : String) :
    Revision.sort (h.load entity) = h.load entity := by
  refine List.mergeSort_of_pairwise ((h.pairwise_load entity).imp fun hab => ?_)
  exact decide_eq_true (UInt16.le_of_lt hab)

/-- A new revision of one entity is none of another. -/
theorem load_store_of_ne {other : String} (hne : other ≠ entity) (r : Revision) :
    (h.store entity r).load other = h.load other := by
  rw [load, store, SortedMap.get?_insert, if_neg hne, load]

/-- A revision newer than all others is the last. -/
theorem load_store_newest {r : Revision} (hnew : ∀ q ∈ h.load entity, q.version < r.version) :
    (h.store entity r).load entity = h.load entity ++ [r] := by
  have hentries : ∀ e ∈ ((h.get? entity).getD .empty).entries, compare e.1 r.version = .lt := by
    intro e he
    refine compareOfLessAndEq_eq_lt.2 ?_
    cases hfound : h.get? entity with
    | none =>
      rw [hfound] at he
      cases he
    | some revisions =>
      rw [hfound] at he
      exact hnew ⟨e.1, e.2⟩ (by rw [load, hfound]; exact List.mem_map_of_mem he)
  have hstored : (h.store entity r).get? entity =
      some (((h.get? entity).getD .empty).insert r.version r.fields) := by
    rw [store, SortedMap.get?_insert, if_pos rfl]
  rw [load, hstored, load]
  simp only [Option.elim_some, SortedMap.insert, SortedMap.insertEntry_of_forall_lt _ hentries]
  cases h.get? entity with
  | none => rfl
  | some revisions => simp

/-- There is a version for a layout in a history: that of the newest, if it is the newest, or one
    behind. -/
def HasPlaceFor (h : MemoryHistories) (entity : String) (layout : List LayoutField) : Prop :=
  ∀ r, (h.load entity).getLast? = some r → r.version = 0xffff → r.fields = layout

theorem hasPlaceFor_of_room (hroom : ∀ r ∈ h.load entity, r.version < 0xffff)
    (layout : List LayoutField) : h.HasPlaceFor entity layout := fun r hr hlast =>
  absurd (hroom r (List.mem_of_getLast? hr)) (hlast ▸ UInt16.lt_irrefl _)

/-- The revision that a history lacks is newer than all others, if there is a version for it. -/
theorem lt_version_of_lacking? {layout : List LayoutField} {r : Revision}
    (hplace : h.HasPlaceFor entity layout)
    (hr : Revision.lacking? (h.load entity) layout = some r) :
    r.fields = layout ∧ ∀ q ∈ h.load entity, q.version < r.version := by
  unfold Revision.lacking? at hr
  split at hr
  · next hnone =>
    obtain rfl := Option.some.inj hr
    rw [List.getLast?_eq_none_iff.1 hnone]
    exact ⟨rfl, fun q hq => absurd hq List.not_mem_nil⟩
  · next newest hnewest =>
    split at hr
    · cases hr
    · next hfields =>
      obtain rfl := Option.some.inj hr
      refine ⟨rfl, fun q hq => ?_⟩
      have hnext := Revision.lt_nextVersion fun hlast => hfields (hplace newest hnewest hlast)
      obtain ⟨older, holder⟩ := List.getLast?_eq_some_iff.1 hnewest
      have hsorted := h.pairwise_load entity
      rw [holder] at hsorted hq
      rcases List.mem_append.1 hq with hq | hq
      · exact UInt16.lt_trans ((List.pairwise_append.1 hsorted).2.2 q hq newest (by simp)) hnext
      · rw [List.mem_singleton.1 hq]
        exact hnext

/-- Other histories stay, and the history itself is what is returned, with the given layout last. -/
theorem update_spec {layout : List LayoutField} (hplace : h.HasPlaceFor entity layout) :
    (h.update entity layout).2.load entity = (h.update entity layout).1 ∧
      (∃ r, (h.update entity layout).1.getLast? = some r ∧ r.fields = layout) ∧
      ∀ other, other ≠ entity → (h.update entity layout).2.load other = h.load other := by
  unfold update
  split
  · next hlacking => exact ⟨rfl, Revision.lacking?_eq_none_iff.1 hlacking, fun _ _ => rfl⟩
  · next r hlacking =>
    obtain ⟨hfields, hnew⟩ := lt_version_of_lacking? hplace hlacking
    exact ⟨load_store_newest hnew, ⟨r, by simp, hfields⟩, fun _ hne => load_store_of_ne hne r⟩

/-- A history is returned as it was or with one more revision. -/
theorem update_grown (h : MemoryHistories) (entity : String) (layout : List LayoutField) :
    (h.update entity layout).1 = h.load entity ∨
      ∃ r, (h.update entity layout).1 = h.load entity ++ [r] := by
  unfold update
  split
  · exact .inl rfl
  · next r _ => exact .inr ⟨r, rfl⟩

/-- Histories that end with a layout are up to date with it. -/
theorem update_of_getLast? {layout : List LayoutField} {r : Revision}
    (hlast : (h.load entity).getLast? = some r) (hfields : r.fields = layout) :
    h.update entity layout = (h.load entity, h) := by
  rw [update, Revision.lacking?_eq_none_iff.2 ⟨r, hlast, hfields⟩]

/-- A store in memory answers with the history brought up to date. -/
theorem run_update (h : MemoryHistories) (entity : String) (layout : List LayoutField) :
    (memoryStore.update entity layout : StateM MemoryHistories _).run h =
      (.ok (h.update entity layout).1, (h.update entity layout).2) := by
  have hload : (memoryStore.load entity : StateM MemoryHistories _).run h = (.ok (h.load entity), h) :=
    rfl
  unfold HistoryStore.update update
  rw [run_bind_of_run hload]
  dsimp only
  rw [sort_load]
  cases Revision.lacking? (h.load entity) layout with
  | none => rfl
  | some r => rfl

/-- The revisions of an entity are the layouts that it has at their versions. -/
theorem mem_load_iff {r : Revision} :
    r ∈ h.load entity ↔ ∃ revisions, h.get? entity = some revisions ∧
      revisions.get? r.version = some r.fields := by
  unfold load
  cases h.get? entity with
  | none => simp
  | some revisions =>
    simp only [Option.elim_some, List.mem_map, Option.some.injEq, exists_eq_left',
      ← SortedMap.mem_entries_iff]
    constructor
    · rintro ⟨e, he, rfl⟩
      exact he
    · intro he
      exact ⟨_, he, rfl⟩

/-- An entity has one revision under a version. -/
theorem eq_of_version {q r : Revision} (hq : q ∈ h.load entity) (hr : r ∈ h.load entity)
    (hversion : q.version = r.version) : q = r := by
  obtain ⟨revisions, hrevisions, hqfields⟩ := mem_load_iff.1 hq
  obtain ⟨_, hsame, hrfields⟩ := mem_load_iff.1 hr
  obtain rfl := Option.some.inj (hrevisions.symm.trans hsame)
  rw [hversion, hrfields] at hqfields
  exact Revision.ext hversion (Option.some.inj hqfields).symm

/-- A revision that is kept stands in for the one with its version. -/
theorem mem_load_store_iff {q r : Revision} : q ∈ (h.store entity r).load entity ↔
    q = r ∨ q.version ≠ r.version ∧ q ∈ h.load entity := by
  have hstored : (h.store entity r).get? entity =
      some (((h.get? entity).getD .empty).insert r.version r.fields) := by
    rw [store, SortedMap.get?_insert, if_pos rfl]
  have hq : q = r ↔ q.version = r.version ∧ r.fields = q.fields := by
    rw [Revision.ext_iff, eq_comm (a := r.fields)]
  rw [mem_load_iff, hstored]
  simp only [Option.some.injEq, exists_eq_left', SortedMap.get?_insert]
  by_cases hv : q.version = r.version
  · simp [hv, hq]
  · have hold : ((h.get? entity).getD .empty).get? q.version = some q.fields ↔ q ∈ h.load entity := by
      rw [mem_load_iff]
      cases h.get? entity with
      | none => simp [SortedMap.get?, SortedMap.empty]
      | some revisions => simp
    simp [hv, hq, hold]

/-- Without a version for a layout the newest revision is another one under the last version, and
    the layout is to have that version too. -/
theorem exists_newest_of_not_hasPlaceFor {layout : List LayoutField}
    (hplace : ¬h.HasPlaceFor entity layout) :
    ∃ newest ∈ h.load entity, newest.version = 0xffff ∧ newest.fields ≠ layout ∧
      Revision.lacking? (h.load entity) layout = some ⟨0xffff, layout⟩ := by
  simp only [HasPlaceFor, not_forall] at hplace
  obtain ⟨newest, hnewest, hversion, hfields⟩ := hplace
  refine ⟨newest, List.mem_of_getLast? hnewest, hversion, hfields, ?_⟩
  simp only [Revision.lacking?, hnewest, if_neg hfields, hversion]
  rfl

/-- Bringing a history up to date always answers. What is stored stays stored just when there is a
    version for the layout, and just then the versions of the answer ascend. -/
theorem update_keeps_iff (h : MemoryHistories) (entity : String) (layout : List LayoutField) :
    ∃ history after,
      (memoryStore.update entity layout : StateM MemoryHistories _).run h = (.ok history, after) ∧
      ((∀ other, ∀ r ∈ h.load other, r ∈ after.load other) ↔ h.HasPlaceFor entity layout) ∧
      (history.Pairwise (fun a b => a.version < b.version) ↔ h.HasPlaceFor entity layout) := by
  refine ⟨_, _, run_update h entity layout, ?_⟩
  by_cases hplace : h.HasPlaceFor entity layout
  · obtain ⟨hload, -, hothers⟩ := update_spec hplace
    have hkept : ∀ other, ∀ r ∈ h.load other, r ∈ (h.update entity layout).2.load other := by
      intro other r hr
      by_cases hother : other = entity
      · subst hother
        rw [hload]
        rcases h.update_grown other layout with hsame | ⟨q, hgrown⟩
        · rwa [hsame]
        · rw [hgrown]
          exact List.mem_append_left _ hr
      · rwa [hothers other hother]
    have hascending := (h.update entity layout).2.pairwise_load entity
    rw [hload] at hascending
    exact ⟨iff_of_true hkept hplace, iff_of_true hascending hplace⟩
  · obtain ⟨newest, hnewest, hversion, hfields, hlacking⟩ := exists_newest_of_not_hasPlaceFor hplace
    have hupdate : h.update entity layout =
        (h.load entity ++ [⟨0xffff, layout⟩], h.store entity ⟨0xffff, layout⟩) := by
      rw [update, hlacking]
    rw [hupdate]
    refine ⟨iff_of_false (fun hkept => ?_) hplace, iff_of_false (fun hascending => ?_) hplace⟩
    · rcases mem_load_store_iff.1 (hkept entity newest hnewest) with rfl | ⟨hother, -⟩
      · exact hfields rfl
      · exact hother hversion
    · have hlt := (List.pairwise_append.1 hascending).2.2 newest hnewest _ List.mem_cons_self
      rw [hversion] at hlt
      exact UInt16.lt_irrefl _ hlt

/-- A history with its only revision under the last version. -/
def fullHistories : MemoryHistories := store .empty "Dummy" ⟨0xffff, [⟨"x", "float"⟩]⟩

/-- Another layout takes the place of the revision under the last version, and the answer has two
    revisions under it. -/
theorem fullHistories_overwritten :
    let y : List LayoutField := [⟨"y", "float"⟩]
    (⟨0xffff, [⟨"x", "float"⟩]⟩ : Revision) ∈ fullHistories.load "Dummy" ∧
      ∃ history after,
        (memoryStore.update "Dummy" y : StateM MemoryHistories _).run fullHistories =
          (.ok history, after) ∧
        (⟨0xffff, [⟨"x", "float"⟩]⟩ : Revision) ∉ after.load "Dummy" ∧
        ¬history.Pairwise fun a b => a.version < b.version := by
  refine ⟨List.mem_singleton.2 rfl, _, _, run_update _ _ _, ?_, ?_⟩
  · decide
  · decide

end MemoryHistories

end EntityWeaver
