import EntityWeaver.Merge.Layout
import EntityWeaver.Proofs.Except

/-! What the stages of a merge leave.

    Each stage is described by the candidates that pass it, apart from the mistakes it can find:

        setter       the field that a candidate sets which is alone and replaces nothing
        contenders   those of the highest replace priority, or all if none replaces
        acting       those contenders whose removals apply, because nothing that acts ahead of them
                     removes them
        kept         the contenders that no acting one removes
        survivors    those kept that extend nothing which the entity lacks

    A merge that gives a plan has passed all stages, and its selection holds what they leave. -/

namespace EntityWeaver

instance lawfulOrderMaxInt32 : Std.LawfulOrderMax Int32 := by
  refine .of_max_le_iff (fun a b c => ?_) (fun a b => ?_)
  · change (if a ≤ b then b else a) ≤ c ↔ a ≤ c ∧ b ≤ c
    split
    · next h => exact ⟨fun hb => ⟨Int32.le_trans h hb, hb⟩, And.right⟩
    · next h =>
      have hba : b ≤ a := Int32.le_of_lt (Int32.not_le.1 h)
      exact ⟨fun ha => ⟨ha, Int32.le_trans hba ha⟩, And.left⟩
  · change (if a ≤ b then b else a) = a ∨ (if a ≤ b then b else a) = b
    split
    · exact .inr rfl
    · exact .inl rfl

/-- A component's method without parameters or result. -/
def Candidate.ofBody (component name body : String) (directives : List Directive := []) : Candidate :=
  ⟨{ name := component }, { name, body := some body, directives }⟩

/-- An entity of some components, with neither fields nor groups. -/
def MergeFacts.plain (resolved : List String) : MergeFacts where
  entity := "Unit"
  resolved := resolved
  fields := {}
  groups := []
  pooled := false

namespace MergeFacts

/-! ### Replacing -/

theorem topReplace?_eq_some_iff {candidates : List Candidate} {top : Int32} :
    topReplace? candidates = some top ↔
      (∃ c ∈ candidates, c.method.replacePriority? = some top) ∧
        ∀ d ∈ candidates, ∀ p, d.method.replacePriority? = some p → p ≤ top := by
  rw [topReplace?, List.max?_eq_some_iff]
  simp only [List.mem_filterMap]
  refine and_congr_right fun _ => ⟨fun h d hd p hp => h p ⟨d, hd, hp⟩, ?_⟩
  rintro h p ⟨d, hd, hp⟩
  exact h d hd p hp

theorem topReplace?_eq_none_iff {candidates : List Candidate} :
    topReplace? candidates = none ↔ ∀ c ∈ candidates, c.method.replacePriority? = none := by
  rw [topReplace?, List.max?_eq_none_iff, List.filterMap_eq_nil_iff]

/-- A contender is a candidate that no other one outranks in replacing. -/
theorem mem_contenders_iff {candidates : List Candidate} {c : Candidate} :
    c ∈ contenders candidates ↔ c ∈ candidates ∧
      ∀ d ∈ candidates, ∀ p, d.method.replacePriority? = some p →
        ∃ q, c.method.replacePriority? = some q ∧ p ≤ q := by
  unfold contenders
  split
  · next h =>
    rw [topReplace?_eq_none_iff] at h
    refine ⟨fun hc => ⟨hc, fun d hd p hp => ?_⟩, And.left⟩
    rw [h d hd] at hp
    cases hp
  · next top h =>
    obtain ⟨⟨t, ht, htop⟩, hmax⟩ := topReplace?_eq_some_iff.1 h
    simp only [List.mem_filter, beq_iff_eq]
    refine and_congr_right fun hc => ⟨fun hq d hd p hp => ⟨top, hq, hmax d hd p hp⟩, fun hq => ?_⟩
    obtain ⟨q, hq, hle⟩ := hq t ht top htop
    rw [hq, Int32.le_antisymm (hmax c hc q hq) hle]

theorem contenders_sublist (candidates : List Candidate) :
    (contenders candidates).Sublist candidates := by
  unfold contenders
  split
  · exact .refl _
  · exact List.filter_sublist

theorem replaceStage_eq_ok {facts : MergeFacts} {signature : Signature} {isVoid : Bool}
    {candidates entries : List Candidate}
    (h : facts.replaceStage signature isVoid candidates = .ok entries) :
    entries = contenders candidates := by
  unfold replaceStage at h
  split at h
  · cases h
  · exact (Except.ok.inj h).symm

/-! ### Setting -/

/-- A lone candidate sets a field of another component beside running its body. -/
structure Sets (facts : MergeFacts) (signature : Signature) (candidates : List Candidate)
    (c : Candidate) (f : MergedField) : Prop where
  alone : candidates = [c]
  void : c.method.isVoid = true
  replacesNothing : c.method.replacePriority? = none
  /-- The field is called like the method, -/
  field : facts.fields.get? signature.name = some f
  /-- and has the type of its only parameter. -/
  type : signature.params = [normalType f.decl.type]
  notStatic : f.decl.isStatic = false
  notFinal : f.decl.modifiers.isFinal = false
  foreign : f.owner ≠ c.component.name

instance decidableSets (facts : MergeFacts) (signature : Signature) (candidates : List Candidate)
    (c : Candidate) (f : MergedField) : Decidable (facts.Sets signature candidates c f) :=
  decidable_of_iff (candidates = [c] ∧ c.method.isVoid = true ∧ c.method.replacePriority? = none ∧
      facts.fields.get? signature.name = some f ∧ signature.params = [normalType f.decl.type] ∧
      f.decl.isStatic = false ∧ f.decl.modifiers.isFinal = false ∧ f.owner ≠ c.component.name)
    ⟨fun ⟨h₁, h₂, h₃, h₄, h₅, h₆, h₇, h₈⟩ => ⟨h₁, h₂, h₃, h₄, h₅, h₆, h₇, h₈⟩,
      fun ⟨h₁, h₂, h₃, h₄, h₅, h₆, h₇, h₈⟩ => ⟨h₁, h₂, h₃, h₄, h₅, h₆, h₇, h₈⟩⟩

theorem activeSetter?_eq_some_iff {facts : MergeFacts} {signature : Signature}
    {candidates : List Candidate} {f : MergedField} :
    facts.activeSetter? signature candidates = some f ↔
      ∃ c, facts.Sets signature candidates c f := by
  constructor
  · intro h
    unfold activeSetter? at h
    split at h
    · cases h
    next htop =>
    match candidates with
    | [] => cases h
    | [c] =>
      have hreplace : topReplace? [c] = none := by simpa using htop
      rw [setter?] at h
      split at h
      next type hvoid hparams =>
        obtain ⟨hfield, hmatch⟩ := Option.filter_eq_some_iff.1 h
        simp only [Bool.and_eq_true, beq_iff_eq, bne_iff_ne, Bool.not_eq_true'] at hmatch
        obtain ⟨⟨⟨htype, howner⟩, hstatic⟩, hfinal⟩ := hmatch
        exact ⟨c, rfl, hvoid, topReplace?_eq_none_iff.1 hreplace c List.mem_cons_self, hfield,
          htype ▸ hparams, hstatic, hfinal, howner⟩
      · cases h
    | _ :: _ :: _ => cases h
  · rintro ⟨c, rfl, hvoid, hreplace, hfield, htype, hstatic, hfinal, howner⟩
    have htop : topReplace? [c] = none :=
      topReplace?_eq_none_iff.2 fun d hd => List.mem_singleton.1 hd ▸ hreplace
    rw [activeSetter?, htop, Option.isSome_none, if_neg Bool.false_ne_true, setter?, hvoid, htype,
      hfield]
    simp [hstatic, hfinal, howner]

/-! ### Removing -/

/-- A candidate asks for the deletion of another one. -/
def Removes (a c : Candidate) : Prop := c.component.name ∈ a.method.removals

instance (a c : Candidate) : Decidable (Removes a c) := inferInstanceAs (Decidable (_ ∈ _))

/-- The candidates whose removals apply, behind others that remove some names. -/
def acting (gone : List String) : List Candidate → List Candidate
  | [] => []
  | c :: rest =>
    if c.component.name ∈ gone then acting gone rest
    else c :: acting (gone ++ c.method.removals) rest

/-- The candidates that no acting one removes. -/
def spared (candidates : List Candidate) : List Candidate :=
  candidates.filter fun c => ∀ a ∈ acting [] candidates, ¬Removes a c

theorem mem_spared_iff {entries : List Candidate} {c : Candidate} :
    c ∈ spared entries ↔ c ∈ entries ∧ ∀ a ∈ acting [] entries, ¬Removes a c := by
  simp [spared]

theorem acting_sublist (gone : List String) (candidates : List Candidate) :
    (acting gone candidates).Sublist candidates := by
  induction candidates generalizing gone with
  | nil => exact .refl _
  | cons c rest ih =>
    unfold acting
    split
    · exact (ih gone).cons c
    · exact (ih _).cons_cons c

/-- Targets join the removed names if they are present, and none of those was removed before. -/
theorem removeTargets_eq_ok {facts : MergeFacts} {signature : Signature}
    {setter : Option MergedField} {present removed targets out : List String}
    (h : facts.removeTargets signature setter present removed targets = .ok out) :
    (∀ n, n ∈ out ↔ n ∈ removed ∨ n ∈ targets ∧ n ∈ present) ∧
      ∀ n ∈ targets, n ∈ present → n ∉ removed := by
  induction targets generalizing removed with
  | nil =>
    obtain rfl := Except.ok.inj h
    simp
  | cons target rest ih =>
    unfold removeTargets at h
    split at h
    · cases h
    split at h
    · next habsent =>
      obtain ⟨hout, hfresh⟩ := ih h
      refine ⟨fun n => ?_, fun n hn hpresent => ?_⟩
      · rw [hout, List.mem_cons]
        refine or_congr_right ⟨And.imp_left .inr, ?_⟩
        rintro ⟨rfl | hn, hpresent⟩
        · exact absurd hpresent habsent
        · exact ⟨hn, hpresent⟩
      · rcases List.mem_cons.1 hn with rfl | hn
        · exact absurd hpresent habsent
        · exact hfresh n hn hpresent
    split at h
    · cases h
    · next hpresent hnew =>
      obtain ⟨hout, hfresh⟩ := ih h
      refine ⟨fun n => ?_, fun n hn hp => ?_⟩
      · have htarget : n = target ∧ n ∈ present ↔ n = target :=
          and_iff_left_of_imp fun h => h ▸ Decidable.not_not.1 hpresent
        rw [hout, List.mem_cons, List.mem_cons, or_and_right, htarget, or_assoc, or_left_comm]
      · rcases List.mem_cons.1 hn with rfl | hn
        · exact hnew
        · exact fun hr => hfresh n hn hp (List.mem_cons_of_mem _ hr)

/-- The removed names among those present are those that acting candidates remove, each once.
    The names `gone` that decide who acts may hold absent ones besides. -/
theorem removeStage_eq_ok {facts : MergeFacts} {signature : Signature} {setter : Option MergedField}
    {present removed gone out : List String} {cs : List Candidate}
    (hcs : ∀ c ∈ cs, c.component.name ∈ present) (hgone : ∀ n ∈ present, n ∈ removed ↔ n ∈ gone)
    (h : facts.removeStage signature setter present removed cs = .ok out) :
    (∀ n ∈ present, n ∈ out ↔ n ∈ gone ∨ ∃ a ∈ acting gone cs, n ∈ a.method.removals) ∧
      (∀ a ∈ acting gone cs, ∀ n ∈ a.method.removals, n ∈ present → n ∉ gone) ∧
      (acting gone cs).Pairwise fun a b =>
        ∀ n ∈ present, n ∈ a.method.removals → n ∉ b.method.removals := by
  induction cs generalizing removed gone with
  | nil =>
    obtain rfl := Except.ok.inj h
    simpa [acting] using hgone
  | cons c rest ih =>
    have hrest : ∀ d ∈ rest, d.component.name ∈ present := fun d hd =>
      hcs d (List.mem_cons_of_mem _ hd)
    have hname := hgone _ (hcs c List.mem_cons_self)
    by_cases hr : c.component.name ∈ removed
    · rw [removeStage, if_pos hr] at h
      rw [acting, if_pos (hname.1 hr)]
      exact ih hrest hgone h
    · rw [removeStage, if_neg hr] at h
      obtain ⟨removed', hc, h⟩ := bind_eq_ok.1 h
      obtain ⟨hout, hfresh⟩ := removeTargets_eq_ok hc
      have hgone' : ∀ n ∈ present, n ∈ removed' ↔ n ∈ gone ++ c.method.removals := by
        intro n hn
        rw [hout, List.mem_append, hgone n hn, and_iff_left hn]
      obtain ⟨hmem, hnew, hpair⟩ := ih hrest hgone' h
      rw [acting, if_neg (mt hname.2 hr)]
      refine ⟨fun n hn => ?_, fun a ha n hna hn => ?_,
        List.pairwise_cons.2 ⟨fun a ha n hn hc ha' => ?_, hpair⟩⟩
      · rw [hmem n hn, List.mem_append, or_assoc]
        simp
      · rcases List.mem_cons.1 ha with rfl | ha
        · exact fun hg => hfresh n hna hn ((hgone n hn).2 hg)
        · exact fun hg => hnew a ha n hna hn (List.mem_append_left _ hg)
      · exact hnew a ha n ha' hn (List.mem_append_right _ hc)

/-- Pruning leaves the spared contenders, and no contender is removed by two acting ones. -/
theorem prune_eq_ok {facts : MergeFacts} {signature : Signature} {isVoid : Bool}
    {candidates kept : List Candidate} (h : facts.prune signature isVoid candidates = .ok kept) :
    kept = spared (contenders candidates) ∧
      (acting [] (contenders candidates)).Pairwise fun a b =>
        ∀ c ∈ contenders candidates, Removes a c → ¬Removes b c := by
  obtain ⟨entries, hentries, h⟩ := bind_eq_ok.1 h
  obtain rfl := replaceStage_eq_ok hentries
  obtain ⟨removed, hremoved, h⟩ := bind_eq_ok.1 h
  obtain rfl := Except.ok.inj h
  have hnames : ∀ c ∈ contenders candidates,
      c.component.name ∈ (contenders candidates).map (·.component.name) :=
    fun c hc => List.mem_map_of_mem hc
  obtain ⟨hmem, -, hpair⟩ := removeStage_eq_ok hnames (fun _ _ => Iff.rfl) hremoved
  refine ⟨List.filter_congr fun c hc => ?_, hpair.imp fun hab c hc => hab _ (hnames c hc)⟩
  rw [Bool.eq_iff_iff, decide_eq_true_iff]
  simpa [Removes] using not_congr (hmem _ (hnames c hc))

/-! ### Staying -/

/-- A candidate that no stage drops, whether it has something to run or not: none outranks it in
    replacing, none that acts removes it, and the components that it extends are there. -/
structure Stays (facts : MergeFacts) (candidates : List Candidate) (c : Candidate) : Prop where
  listed : c ∈ candidates
  replacing : ∀ d ∈ candidates, ∀ p, d.method.replacePriority? = some p →
    ∃ q, c.method.replacePriority? = some q ∧ p ≤ q
  unremoved : ∀ a ∈ acting [] (contenders candidates), ¬Removes a c
  extending : facts.extendHolds c.method

theorem stays_iff {facts : MergeFacts} {candidates : List Candidate} {c : Candidate} :
    facts.Stays candidates c ↔ c ∈ spared (contenders candidates) ∧ facts.extendHolds c.method := by
  rw [mem_spared_iff, mem_contenders_iff]
  exact ⟨fun h => ⟨⟨⟨h.listed, h.replacing⟩, h.unremoved⟩, h.extending⟩,
    fun ⟨⟨⟨hl, hr⟩, hu⟩, he⟩ => ⟨hl, hr, hu, he⟩⟩

instance decidableStays (facts : MergeFacts) (candidates : List Candidate) (c : Candidate) :
    Decidable (facts.Stays candidates c) :=
  decidable_of_iff _ stays_iff.symm

/-- The candidates that stay are those that replacing, removing and extending leave. -/
theorem filter_stays (facts : MergeFacts) (candidates : List Candidate) :
    (candidates.filter fun c => facts.Stays candidates c) =
      (spared (contenders candidates)).filter fun c => facts.extendHolds c.method := by
  obtain ⟨keeps, hkeeps⟩ : ∃ keeps, spared (contenders candidates) = candidates.filter keeps := by
    unfold spared contenders
    split
    · exact ⟨_, rfl⟩
    · exact ⟨_, List.filter_filter⟩
  rw [hkeeps, List.filter_filter]
  refine List.filter_congr fun c hc => ?_
  rw [Bool.eq_iff_iff, decide_eq_true_iff, stays_iff, hkeeps, List.mem_filter, Bool.and_eq_true]
  exact ⟨fun h => ⟨h.2, h.1.2⟩, fun h => ⟨⟨hc, h.2⟩, h.1⟩⟩

/-! ### Selecting -/

/-- How a selection is made from candidates, of which `first` comes first and pruning keeps some. -/
structure SelectedFrom (facts : MergeFacts) (signature : Signature) (candidates : List Candidate)
    (splices : List Splice) (injected : Bool) (first : Candidate) (kept : List Candidate)
    (s : Selection) : Prop where
  head : candidates.head? = some first
  pruned : facts.prune signature first.method.isVoid candidates = .ok kept
  isVoid : s.isVoid = first.method.isVoid
  setter : s.setter = facts.activeSetter? signature candidates
  survivors : s.survivors = (kept.mergeSort Candidate.le).filter fun c => facts.extendHolds c.method
  splices : s.splices = facts.activeSplices splices
  template : s.template = chooseTemplate first.method s.survivors
  /-- Two implementations with a result cannot stand beside each other. -/
  single : s.isVoid = false → kept.countP (·.isConcrete) ≤ 1
  /-- Something is to be run. -/
  implemented : 0 < kept.countP (·.isConcrete) ∨ s.setter.isSome ∨ injected = true ∨
    signature.membership?.isSome ∧ facts.groups ≠ []
  /-- A result comes from somewhere. -/
  result : s.isVoid = false → ∃ c ∈ s.survivors, c.isConcrete
  /-- Nothing is spliced into a method with a result. -/
  unspliced : s.isVoid = false → s.splices = []

namespace SelectedFrom

variable {facts : MergeFacts} {signature : Signature} {candidates kept : List Candidate}
  {splices : List Splice} {injected : Bool} {first : Candidate} {s : Selection}

theorem kept_eq (hs : SelectedFrom facts signature candidates splices injected first kept s) :
    kept = spared (contenders candidates) :=
  (prune_eq_ok hs.pruned).1

theorem mem_survivors_iff
    (hs : SelectedFrom facts signature candidates splices injected first kept s) {c : Candidate} :
    c ∈ s.survivors ↔ facts.Stays candidates c := by
  rw [hs.survivors, List.mem_filter, List.mem_mergeSort, hs.kept_eq, stays_iff]

/-- What tells the candidates apart also tells the survivors apart. -/
theorem survivors_map_nodup {β : Type} {key : Candidate → β}
    (hs : SelectedFrom facts signature candidates splices injected first kept s)
    (hnd : (candidates.map key).Nodup) : (s.survivors.map key).Nodup := by
  have hkept : (kept.map key).Nodup := by
    rw [hs.kept_eq]
    exact hnd.sublist ((List.filter_sublist.trans (contenders_sublist candidates)).map key)
  have hsorted := ((List.mergeSort_perm kept Candidate.le).map key).nodup_iff.2 hkept
  rw [hs.survivors]
  exact hsorted.sublist (List.filter_sublist.map key)

end SelectedFrom

theorem spliceStage_eq_ok {signature : Signature} {isVoid : Bool} {splices : List Splice} {u : Unit}
    (h : spliceStage signature isVoid splices = .ok u) : isVoid = false → splices = [] := by
  intro hvoid
  unfold spliceStage at h
  split at h
  · next hs => simpa [hvoid] using hs
  · split at h <;> cases h

theorem select_eq_ok_some {facts : MergeFacts} {signature : Signature} {candidates : List Candidate}
    {splices : List Splice} {injected : Bool} {s : Selection}
    (h : facts.select signature candidates splices injected = .ok (some s)) :
    ∃ first kept, SelectedFrom facts signature candidates splices injected first kept s := by
  cases candidates with
  | nil => cases h
  | cons first rest =>
    rw [select] at h
    obtain ⟨kept, hkept, h⟩ := bind_eq_ok.1 h
    dsimp only at h
    split at h
    · cases h
    next hsingle =>
    split at h
    · split at h <;> cases h
    next himpl =>
    split at h
    · cases h
    next hresult =>
    obtain ⟨_, hsplice, h⟩ := bind_eq_ok.1 h
    obtain rfl := Option.some.inj (Except.ok.inj h)
    refine ⟨first, kept, rfl, hkept, rfl, rfl, rfl, rfl, rfl, fun hv => ?_, ?_, fun hv => ?_,
      spliceStage_eq_ok hsplice⟩
    · simpa [show first.method.isVoid = false from hv] using hsingle
    · rcases Nat.eq_zero_or_pos (kept.countP (·.isConcrete)) with hzero | hpos
      · simp only [hzero, decide_true, Bool.true_and, Bool.not_eq_true', Bool.not_eq_false,
          Bool.or_eq_true, Bool.and_eq_true, or_assoc] at himpl
        exact .inr (himpl.imp_right (.imp_right (.imp_right (by simp))))
      · exact .inl hpos
    · simpa [show first.method.isVoid = false from hv, and_assoc] using hresult

/-- Nothing is selected only from no candidates, or where one says that the entity supplies the
    method. -/
theorem select_eq_ok_none {facts : MergeFacts} {signature : Signature} {candidates : List Candidate}
    {splices : List Splice} {injected : Bool}
    (h : facts.select signature candidates splices injected = .ok none) :
    candidates = [] ∨ ∃ c ∈ candidates, c.method.internalImpl = true := by
  cases candidates with
  | nil => exact .inl rfl
  | cons first rest =>
    rw [select] at h
    obtain ⟨kept, -, h⟩ := bind_eq_ok.1 h
    dsimp only at h
    split at h
    · cases h
    split at h
    · split at h
      · next hinternal => exact .inr (List.any_eq_true.1 hinternal)
      · cases h
    split at h
    · cases h
    obtain ⟨_, -, h⟩ := bind_eq_ok.1 h
    cases h

/-- A merged method is the plan of a selection, with the code that the hook makes for its
    template. -/
theorem merge_eq_ok_some {facts : MergeFacts} {signature : Signature} {candidates : List Candidate}
    {splices : List Splice} {hook : Option CodeHook} {plan : MethodPlan}
    (h : facts.merge signature candidates splices hook = .ok (some plan)) :
    ∃ s injected, facts.select signature candidates splices hook.isSome = .ok (some s) ∧
      hook.elim (.ok none) (· s.template) = .ok injected ∧ plan = s.plan facts signature injected := by
  rw [merge] at h
  obtain ⟨selected, hselect, h⟩ := bind_eq_ok.1 h
  cases selected with
  | none => cases h
  | some s =>
    cases hook with
    | none => exact ⟨s, none, hselect, rfl, (Option.some.inj (Except.ok.inj h)).symm⟩
    | some build =>
      obtain ⟨injected, hbuild, h⟩ := bind_eq_ok.1 h
      exact ⟨s, injected, hselect, hbuild, (Option.some.inj (Except.ok.inj h)).symm⟩

theorem merge_eq_ok_none {facts : MergeFacts} {signature : Signature} {candidates : List Candidate}
    {splices : List Splice} {hook : Option CodeHook}
    (h : facts.merge signature candidates splices hook = .ok none) :
    candidates = [] ∨ ∃ c ∈ candidates, c.method.internalImpl = true := by
  rw [merge] at h
  obtain ⟨selected, hselect, h⟩ := bind_eq_ok.1 h
  cases selected with
  | none => exact select_eq_ok_none hselect
  | some s =>
    cases hook with
    | none => cases h
    | some build =>
      obtain ⟨_, -, h⟩ := bind_eq_ok.1 h
      cases h

/-- Candidates and splices that come by rank are merged as they come. -/
theorem merge_of_ranked {facts : MergeFacts} {signature : Signature} {first : Candidate}
    {rest : List Candidate} {splices : List Splice} (kept : List Candidate)
    (hvoid : first.method.isVoid = true)
    (hpruned : facts.prune signature true (first :: rest) = .ok kept)
    (hconcrete : kept.countP (·.isConcrete) ≠ 0) (hkept : kept.Pairwise fun a b => a.le b)
    (hsplices : (splices.filter fun s => facts.resolved.contains s.component).Pairwise
      fun a b => a.le b) :
    facts.merge signature (first :: rest) splices none =
      .ok (some (Selection.plan
        { isVoid := true
          survivors := kept.filter fun c => facts.extendHolds c.method
          setter := facts.activeSetter? signature (first :: rest)
          splices := splices.filter fun s => facts.resolved.contains s.component
          template := chooseTemplate first.method (kept.filter fun c => facts.extendHolds c.method) }
        facts signature none)) := by
  rw [merge, select, hvoid, hpruned, ok_bind, activeSplices, List.mergeSort_of_pairwise hkept,
    List.mergeSort_of_pairwise hsplices]
  simp [hconcrete, spliceStage, ok_bind, pure, Except.pure]

end MergeFacts

end EntityWeaver
