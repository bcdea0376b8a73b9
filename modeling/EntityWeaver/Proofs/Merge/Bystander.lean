import EntityWeaver.Proofs.Merge.CandidateOrder
import EntityWeaver.Proofs.Merge.Inlining
import EntityWeaver.Proofs.Merge.Result

/-! Candidates that lack what they extend.

    Such a candidate contributes nothing. But it is dropped behind the other stages, and the others see
    it there:

        setter     beside it no other candidate is alone
        replace    it outranks others, or ties with one
        remove     it deletes others, or is deleted twice itself
        conflict   it counts as an implementation, or says that the entity supplies the method
        template   ahead of others it says whether there is a result, and lends its parameters where
                   nobody survives

    A candidate that does none of this is a bystander: merging gives the same without it. -/

namespace EntityWeaver.MergeFacts

variable {facts : MergeFacts} {signature : Signature} {candidates : List Candidate}
  {splices : List Splice} {hook : Option CodeHook} {injected : Bool} {c : Candidate}

/-- Whether candidates count as methods without a result, as the first of them is one. -/
def countsAsVoid (candidates : List Candidate) : Bool := candidates.head?.any (·.method.isVoid)

/-- A candidate that the other ones of the list do not notice in any stage but the last. -/
structure Bystander (facts : MergeFacts) (signature : Signature) (injected : Bool)
    (candidates : List Candidate) (c : Candidate) : Prop where
  /-- The others set no field, which they could only without it. -/
  setter : facts.activeSetter? signature (candidates.erase c) = none
  /-- It replaces only what another one replaces too, -/
  replaces : ∀ p, c.method.replacePriority? = some p →
    ∃ d ∈ candidates.erase c, ∃ q, d.method.replacePriority? = some q ∧ p ≤ q
  /-- and is not the one that makes a tie. -/
  ties : countsAsVoid candidates = false → Tied candidates → Tied (candidates.erase c)
  /-- It deletes nobody else, -/
  removes : c ∈ acting [] (contenders candidates) →
    ∀ d ∈ contenders candidates, Removes c d → d = c
  /-- and is deleted at most once. -/
  removed : c ∈ contenders candidates →
    ((acting [] (contenders candidates)).flatMap (·.method.removals)).count c.component.name ≤ 1
  /-- It is not a second implementation of a method with a result, -/
  single : countsAsVoid candidates = false → (implementations (candidates.erase c)).length = 1 →
    c ∉ implementations candidates
  /-- nor the only one where one is missing, unless that is reported anyway. -/
  covers : facts.Idle signature injected (candidates.erase c) → c ∈ implementations candidates →
    countsAsVoid candidates = false ∧ ∀ d ∈ candidates.erase c, d.method.internalImpl = false
  /-- Nor is it the only one to say that the entity supplies the method. -/
  vouches : facts.Idle signature injected (candidates.erase c) → c ∉ implementations candidates →
    c.method.internalImpl = true → ∃ d ∈ candidates.erase c, d.method.internalImpl = true
  /-- If it comes first, the next one agrees on whether there is a result, -/
  result : candidates.head? = some c → countsAsVoid (candidates.erase c) = countsAsVoid candidates
  /-- and its parameters are not needed. -/
  template : candidates.head? = some c → countsAsVoid candidates = true →
    ¬facts.Idle signature injected (candidates.erase c) → ∃ d, facts.Stays candidates d

/-! ### Replacing -/

theorem topReplace?_erase (hreplaces : ∀ p, c.method.replacePriority? = some p →
    ∃ d ∈ candidates.erase c, ∃ q, d.method.replacePriority? = some q ∧ p ≤ q) :
    topReplace? (candidates.erase c) = topReplace? candidates := by
  refine Option.ext fun top => ?_
  rw [topReplace?_eq_some_iff, topReplace?_eq_some_iff]
  constructor
  · rintro ⟨⟨a, ha, hat⟩, hmax⟩
    refine ⟨⟨a, List.mem_of_mem_erase ha, hat⟩, fun d hd p hp => ?_⟩
    by_cases hdc : d = c
    · obtain ⟨e, he, q, hq, hle⟩ := hreplaces p (hdc ▸ hp)
      exact Int32.le_trans hle (hmax e he q hq)
    · exact hmax d ((List.mem_erase_of_ne hdc).2 hd) p hp
  · rintro ⟨⟨a, ha, hat⟩, hmax⟩
    refine ⟨?_, fun d hd => hmax d (List.mem_of_mem_erase hd)⟩
    by_cases hac : a = c
    · obtain ⟨e, he, q, hq, hle⟩ := hreplaces top (hac ▸ hat)
      have hqt : q ≤ top := hmax e (List.mem_of_mem_erase he) q hq
      exact ⟨e, he, Int32.le_antisymm hle hqt ▸ hq⟩
    · exact ⟨a, (List.mem_erase_of_ne hac).2 ha, hat⟩

theorem contenders_erase (hnd : candidates.Nodup)
    (htop : topReplace? (candidates.erase c) = topReplace? candidates) :
    contenders (candidates.erase c) = (contenders candidates).filter (· != c) := by
  rw [contenders, contenders, htop, hnd.erase_eq_filter]
  split
  · rfl
  · rw [List.filter_comm]

theorem replaceStage_erase (hnd : candidates.Nodup)
    (htop : topReplace? (candidates.erase c) = topReplace? candidates)
    {isVoid : Bool} (hties : isVoid = false → Tied candidates → Tied (candidates.erase c)) :
    facts.replaceStage signature isVoid (candidates.erase c) =
      (facts.replaceStage signature isVoid candidates).map (·.filter (· != c)) := by
  have hcontenders := contenders_erase hnd htop
  rw [replaceStage, replaceStage, htop]
  cases isVoid with
  | true => simp [Except.map, hcontenders]
  | false =>
    have hlength : (contenders (candidates.erase c)).length ≤ (contenders candidates).length :=
      hcontenders ▸ List.length_filter_le _ _
    have hiff : (topReplace? candidates).isSome = true →
        (1 < (contenders (candidates.erase c)).length ↔ 1 < (contenders candidates).length) := by
      intro hsome
      refine ⟨fun h => Nat.lt_of_lt_of_le h hlength, fun h => ?_⟩
      exact ((tied_iff (hnd.erase c)).1 (hties rfl ((tied_iff hnd).2 ⟨hsome, h⟩))).2
    cases hsome : (topReplace? candidates).isSome with
    | false => simp [Except.map, hcontenders]
    | true =>
      simp only [Bool.not_false, Bool.and_true, Bool.true_and, decide_eq_true_eq, hiff hsome]
      split
      · rfl
      · exact congrArg Except.ok hcontenders

/-! ### Removing -/

section Removing

variable {present removed targets : List String} {name : String}

/-- Names that are not present are not removed. -/
theorem removeTargets_of_absent (h : ∀ n ∈ targets, n ∉ present) :
    facts.removeTargets signature none present removed targets = .ok removed := by
  induction targets with
  | nil => rfl
  | cons target rest ih =>
    rw [removeTargets, Option.filter_none]
    dsimp only
    rw [if_pos (h target List.mem_cons_self)]
    exact ih fun n hn => h n (List.mem_cons_of_mem _ hn)

theorem count_le_of_removeTargets {out : List String}
    (h : facts.removeTargets signature none present removed targets = .ok out) :
    out.count name ≤ removed.count name + targets.count name := by
  induction targets generalizing removed with
  | nil =>
    obtain rfl := Except.ok.inj h
    exact Nat.le_add_right _ _
  | cons target rest ih =>
    rw [removeTargets, Option.filter_none] at h
    dsimp only at h
    rw [List.count_cons]
    split at h
    · exact Nat.le_trans (ih h) (by omega)
    split at h
    · cases h
    · have hcount := ih h
      rw [List.count_cons] at hcount
      omega

/-- A name that is removed once can be left out. -/
theorem removeTargets_filter
    (hcount : name ∈ present → removed.count name + targets.count name ≤ 1) :
    facts.removeTargets signature none (present.filter (· != name)) (removed.filter (· != name))
        targets =
      (facts.removeTargets signature none present removed targets).map (·.filter (· != name)) := by
  induction targets generalizing removed with
  | nil => rfl
  | cons target rest ih =>
    rw [List.count_cons] at hcount
    rw [removeTargets, removeTargets, Option.filter_none]
    dsimp only
    by_cases hname : target = name
    · subst hname
      rw [BEq.rfl, if_pos rfl] at hcount
      rw [if_pos (by simp)]
      by_cases hpresent : target ∈ present
      · have hcount' := hcount hpresent
        have hremoved : target ∉ removed := List.count_eq_zero.1 (by omega)
        have hdrop : (target :: removed).filter (· != target) = removed.filter (· != target) :=
          List.filter_cons_of_neg (by simp)
        rw [if_neg (not_not_intro hpresent), if_neg hremoved, ← hdrop]
        exact ih fun _ => by rw [List.count_cons_self]; omega
      · rw [if_pos hpresent]
        exact ih fun h => absurd h hpresent
    · have hmem : ∀ names : List String, target ∈ names.filter (· != name) ↔ target ∈ names := by
        simp [hname]
      have hcons : target :: removed.filter (· != name) = (target :: removed).filter (· != name) := by
        rw [List.filter_cons_of_pos (by simpa using hname)]
      rw [if_neg (by simpa using hname)] at hcount
      simp only [hmem, hcons]
      split
      · exact ih hcount
      split
      · rfl
      · exact ih (by rwa [List.count_cons_of_ne hname])

/-- A candidate that deletes nobody else, and is deleted once, can be left out. The names `gone` that
    decide who acts may hold absent ones besides the removed ones. -/
theorem removeStage_filter {gone : List String} {cs : List Candidate}
    (hcs : ∀ d ∈ cs, d.component.name ∈ present ∧ (d.component.name = c.component.name → d = c))
    (hgone : ∀ n ∈ present, n ∈ removed ↔ n ∈ gone)
    (hcount : c.component.name ∈ present → removed.count c.component.name +
      ((acting gone cs).flatMap (·.method.removals)).count c.component.name ≤ 1)
    (hremoves : c ∈ acting gone cs → ∀ n ∈ c.method.removals, n ∈ present → n = c.component.name) :
    facts.removeStage signature none (present.filter (· != c.component.name))
        (removed.filter (· != c.component.name)) (cs.filter (· != c)) =
      (facts.removeStage signature none present removed cs).map
        (·.filter (· != c.component.name)) := by
  induction cs generalizing removed gone with
  | nil => rfl
  | cons d rest ih =>
    obtain ⟨hpresent, hname⟩ := hcs d List.mem_cons_self
    have hrest := fun e he => hcs e (List.mem_cons_of_mem d he)
    by_cases hr : d.component.name ∈ removed
    · -- a deleted candidate is passed over on both sides
      rw [acting, if_pos ((hgone _ hpresent).1 hr)] at hcount hremoves
      have hskip := ih hrest hgone hcount hremoves
      rw [removeStage, if_pos hr, ok_bind, ← hskip]
      by_cases hdc : d = c
      · rw [List.filter_cons_of_neg (by simpa using hdc)]
      · have hdname : d.component.name ∈ removed.filter (· != c.component.name) :=
          List.mem_filter.2 ⟨hr, bne_iff_ne.2 fun h => hdc (hname h)⟩
        rw [List.filter_cons_of_pos (by simpa using hdc), removeStage, if_pos hdname, ok_bind]
    · rw [acting, if_neg (mt (hgone _ hpresent).2 hr)] at hcount hremoves
      rw [List.flatMap_cons, List.count_append] at hcount
      have htargets := @removeTargets_filter facts signature present removed d.method.removals
        c.component.name fun hp => by have := hcount hp; omega
      have hnext : ∀ out, facts.removeTargets signature none present removed d.method.removals =
          .ok out →
            facts.removeStage signature none (present.filter (· != c.component.name))
                (out.filter (· != c.component.name)) (rest.filter (· != c)) =
              (facts.removeStage signature none present out rest).map
                (·.filter (· != c.component.name)) := by
        intro out hout
        have hmem := (removeTargets_eq_ok hout).1
        have hle := @count_le_of_removeTargets facts signature present removed _
          c.component.name out hout
        refine ih hrest (fun n hn => ?_) (fun hp => ?_) fun h =>
          hremoves (List.mem_cons_of_mem d h)
        · rw [hmem, List.mem_append, hgone n hn, and_iff_left hn]
        · have := hcount hp
          omega
      rw [removeStage, if_neg hr]
      by_cases hdc : d = c
      · -- the candidate itself removes nobody else, so the names without its own stay as they are
        subst hdc
        have habsent : ∀ n ∈ d.method.removals, n ∉ present.filter (· != d.component.name) := by
          intro n hn hmem
          obtain ⟨hmem, hne⟩ := List.mem_filter.1 hmem
          exact bne_iff_ne.1 hne (hremoves List.mem_cons_self n hn hmem)
        rw [removeTargets_of_absent habsent] at htargets
        obtain ⟨out, hout, hfilter⟩ := map_eq_ok.1 htargets.symm
        rw [hout, ok_bind, List.filter_cons_of_neg (by simp), ← hfilter]
        exact hnext out hout
      · have hdname : d.component.name ∉ removed.filter (· != c.component.name) :=
          fun h => hr (List.mem_filter.1 h).1
        rw [List.filter_cons_of_pos (by simpa using hdc), removeStage, if_neg hdname, htargets]
        cases hout : facts.removeTargets signature none present removed d.method.removals with
        | error e => rfl
        | ok out => exact hnext out hout

/-- Entries from which a name of its own is left out. -/
theorem map_name_filter {entries : List Candidate}
    (hname : ∀ d ∈ entries, d.component.name = c.component.name → d = c) :
    (entries.filter (· != c)).map (·.component.name) =
      (entries.map (·.component.name)).filter (· != c.component.name) := by
  rw [List.filter_map]
  refine congrArg _ (List.filter_congr fun d hd => ?_)
  rw [Bool.eq_iff_iff, bne_iff_ne, Function.comp_apply, bne_iff_ne, not_iff_not]
  exact ⟨fun h => h ▸ rfl, hname d hd⟩

end Removing

/-! ### The stages together -/

/-- Only a lone candidate sets a field. -/
theorem activeSetter?_of_others (hc : c ∈ candidates) (hothers : candidates.erase c ≠ []) :
    facts.activeSetter? signature candidates = none := by
  have hlength : (candidates.erase c).length = candidates.length - 1 :=
    List.length_erase_of_mem hc
  have hpos := List.length_pos_iff.2 hothers
  rw [activeSetter?, setter?_of_length_ne_one (by omega), ite_self]

namespace Bystander

section

variable (h : facts.Bystander signature injected candidates c)
  (hname : ∀ d ∈ contenders candidates, d.component.name = c.component.name → d = c)

include h hname

/-- Removing does the same among the contenders without a bystander. -/
theorem removeStage_erase :
    facts.removeStage signature none (((contenders candidates).filter (· != c)).map
        (·.component.name)) [] ((contenders candidates).filter (· != c)) =
      (facts.removeStage signature none ((contenders candidates).map (·.component.name)) []
        (contenders candidates)).map (·.filter (· != c.component.name)) := by
  have hpresent : ∀ n ∈ (contenders candidates).map (·.component.name),
      ∃ d ∈ contenders candidates, d.component.name = n ∧ (n = c.component.name → d = c) := by
    intro n hn
    obtain ⟨d, hd, rfl⟩ := List.mem_map.1 hn
    exact ⟨d, hd, rfl, hname d hd⟩
  rw [map_name_filter hname]
  refine @removeStage_filter facts signature c _ [] [] (contenders candidates)
    (fun d hd => ⟨List.mem_map.2 ⟨d, hd, rfl⟩, hname d hd⟩) (fun _ _ => Iff.rfl) (fun hmem => ?_)
    fun hacts n hn hmem => ?_
  · obtain ⟨d, hd, -, hdc⟩ := hpresent _ hmem
    simpa using h.removed (hdc rfl ▸ hd)
  · obtain ⟨d, hd, rfl, -⟩ := hpresent _ hmem
    rw [h.removes hacts d hd hn]

/-- Pruning leaves the same without a bystander, or finds the same mistake. -/
theorem prune_erase (hnd : candidates.Nodup) (hc : c ∈ candidates)
    (hothers : candidates.erase c ≠ []) :
    facts.prune signature (countsAsVoid candidates) (candidates.erase c) =
      (facts.prune signature (countsAsVoid candidates) candidates).map (·.filter (· != c)) := by
  have htop := topReplace?_erase h.replaces
  rw [prune, prune, replaceStage_erase hnd htop h.ties, h.setter,
    activeSetter?_of_others hc hothers]
  cases hreplace : facts.replaceStage signature (countsAsVoid candidates) candidates with
  | error e => rfl
  | ok entries =>
    obtain rfl := replaceStage_eq_ok hreplace
    rw [ok_bind, Except.map, ok_bind, h.removeStage_erase hname]
    cases facts.removeStage signature none ((contenders candidates).map (·.component.name)) []
      (contenders candidates) with
    | error e => rfl
    | ok removed =>
      refine congrArg Except.ok ?_
      change _ = ((contenders candidates).filter _).filter (· != c)
      rw [List.filter_filter, List.filter_filter]
      refine List.filter_congr fun d hd => ?_
      by_cases hdc : d = c
      · simp [hdc]
      · have hne : d.component.name ≠ c.component.name := mt (hname d hd) hdc
        simp [hne, Bool.and_comm]

end

end Bystander

/-- A candidate that lacks what it extends can be left out ahead of sorting. -/
theorem survivors_filter (hlacks : facts.extendHolds c.method = false) (kept : List Candidate) :
    ((kept.filter (· != c)).mergeSort Candidate.le).filter (fun d => facts.extendHolds d.method) =
      (kept.mergeSort Candidate.le).filter fun d => facts.extendHolds d.method := by
  have hle : Ordered Candidate.le := Ordered.ranks.on Candidate.rank
  rw [hle.mergeSort_filter, List.filter_filter]
  refine List.filter_congr fun d _ => ?_
  by_cases hdc : d = c
  · simp [hdc, hlacks]
  · simp [hdc]

/-- The first candidate stays the first one unless it is left out. -/
theorem head?_erase {first : Candidate} (hfirst : candidates.head? = some first)
    (hne : first ≠ c) : (candidates.erase c).head? = some first := by
  obtain ⟨rest, rfl⟩ := List.head?_eq_some_iff.1 hfirst
  rw [List.erase_cons_tail (by simpa using hne)]
  rfl

/-- Of the implementations, too, only the one that is left out is missing. -/
theorem implementations_erase (hnd : candidates.Nodup) {kept : List Candidate} {isVoid : Bool}
    (hkept : facts.prune signature isVoid candidates = .ok kept)
    (hothers : facts.prune signature isVoid (candidates.erase c) = .ok (kept.filter (· != c))) :
    implementations (candidates.erase c) = (implementations candidates).erase c := by
  have hnd' : (implementations candidates).Nodup := hnd.sublist
    (List.filter_sublist.trans (List.filter_sublist.trans (contenders_sublist candidates)))
  rw [hnd'.erase_eq_filter, implementations, implementations, ← (prune_eq_ok hkept).1,
    ← (prune_eq_ok hothers).1, List.filter_comm]

/-- Candidates that leave nothing to run do so without one of them. -/
theorem Idle.erase (hidle : facts.Idle signature injected candidates)
    (himplementations : implementations (candidates.erase c) =
      (implementations candidates).erase c) :
    facts.Idle signature injected (candidates.erase c) where
  unimplemented := by rw [himplementations, hidle.unimplemented]; rfl
  uninjected := hidle.uninjected
  ungrouped := hidle.ungrouped

/-- No implementation survives if only one that lacks what it extends was left. -/
theorem filter_isConcrete_eq_nil (hlacks : facts.extendHolds c.method = false)
    (hothers : (implementations candidates).erase c = []) {survivors : List Candidate}
    (hstays : ∀ d, d ∈ survivors ↔ facts.Stays candidates d) :
    survivors.filter (·.isConcrete) = [] := by
  refine List.filter_eq_nil_iff.2 fun d hd hconcrete => ?_
  obtain ⟨hspared, hext⟩ := stays_iff.1 ((hstays d).1 hd)
  have hdc : d ≠ c := by
    rintro rfl
    cases hlacks.symm.trans hext
  have hmem := (List.mem_erase_of_ne hdc).2 (List.mem_filter.2 ⟨hspared, hconcrete⟩)
  rw [← implementations, hothers] at hmem
  cases hmem

namespace Bystander

variable {first next : Candidate}

section

variable (h : facts.Bystander signature injected candidates c)
  (hfirst : candidates.head? = some first) (hnext : (candidates.erase c).head? = some next)

include h hfirst hnext

theorem isVoid_next : next.method.isVoid = first.method.isVoid := by
  by_cases hc : first = c
  · have hresult := h.result (hc ▸ hfirst)
    rw [countsAsVoid, countsAsVoid, hfirst, hnext] at hresult
    exact hresult
  · rw [head?_erase hfirst hc] at hnext
    rw [Option.some.inj hnext]

/-- The next candidate lends its parameters only where it is the first one anyway. -/
theorem chooseTemplate_next (hidle : ¬facts.Idle signature injected (candidates.erase c))
    {survivors : List Candidate} (hstays : ∀ d, d ∈ survivors ↔ facts.Stays candidates d)
    (hresult : ¬(first.method.isVoid = false ∧ survivors.filter (·.isConcrete) = [])) :
    chooseTemplate next.method survivors = chooseTemplate first.method survivors := by
  by_cases hc : first = c
  · refine chooseTemplate_of_ne_nil ?_ _ _
    cases hvoid : first.method.isVoid with
    | true =>
      have hcounts : countsAsVoid candidates = true := by rw [countsAsVoid, hfirst]; exact hvoid
      obtain ⟨d, hd⟩ := h.template (hc ▸ hfirst) hcounts hidle
      exact List.ne_nil_of_mem ((hstays d).2 hd)
    | false =>
      rintro rfl
      exact hresult ⟨hvoid, rfl⟩
  · rw [head?_erase hfirst hc] at hnext
    rw [Option.some.inj hnext]

end

/-- A bystander does not make the second implementation. -/
theorem several_iff (h : facts.Bystander signature injected candidates c)
    (himplementations : implementations (candidates.erase c) = (implementations candidates).erase c)
    (hresult : countsAsVoid candidates = false) :
    1 < (implementations (candidates.erase c)).length ↔ 1 < (implementations candidates).length := by
  by_cases hc : c ∈ implementations candidates
  · have hlength := List.length_erase_add_one hc
    have hsingle := mt (h.single hresult) (not_not_intro hc)
    rw [← himplementations] at hlength
    omega
  · rw [himplementations, List.erase_of_not_mem hc]

/-- Without a bystander that does not implement the method the entity supplies it as before. -/
theorem internal_iff (h : facts.Bystander signature injected candidates c)
    (hidle : facts.Idle signature injected (candidates.erase c))
    (hc : c ∉ implementations candidates) :
    (∃ d ∈ candidates.erase c, d.method.internalImpl = true) ↔
      ∃ d ∈ candidates, d.method.internalImpl = true := by
  constructor
  · rintro ⟨d, hd, hinternal⟩
    exact ⟨d, List.mem_of_mem_erase hd, hinternal⟩
  · rintro ⟨d, hd, hinternal⟩
    by_cases hdc : d = c
    · exact h.vouches hidle hc (hdc ▸ hinternal)
    · exact ⟨d, (List.mem_erase_of_ne hdc).2 hd, hinternal⟩

/-- Selecting gives the same without a bystander that lacks what it extends. -/
theorem select_erase (h : facts.Bystander signature injected candidates c)
    (hnames : (candidates.map (·.component.name)).Nodup) (hc : c ∈ candidates)
    (hothers : candidates.erase c ≠ []) (hlacks : facts.extendHolds c.method = false) :
    facts.select signature (candidates.erase c) splices injected =
      facts.select signature candidates splices injected := by
  have hnd : candidates.Nodup := hnames.of_map
  have hname : ∀ d ∈ contenders candidates, d.component.name = c.component.name → d = c :=
    fun d hd hdc => List.inj_on_of_nodup_map hnames ((contenders_sublist _).subset hd) hc hdc
  obtain ⟨first, hfirst⟩ := Option.isSome_iff_exists.1
    (List.isSome_head?.2 (List.ne_nil_of_mem hc))
  obtain ⟨next, hnext⟩ := Option.isSome_iff_exists.1 (List.isSome_head?.2 hothers)
  have hvoid := h.isVoid_next hfirst hnext
  have hcounts : countsAsVoid candidates = first.method.isVoid := by rw [countsAsVoid, hfirst]; rfl
  have hprune : facts.prune signature next.method.isVoid (candidates.erase c) =
      (facts.prune signature first.method.isVoid candidates).map (·.filter (· != c)) := by
    rw [hvoid, ← hcounts]
    exact h.prune_erase hname hnd hc hothers
  cases hkept : facts.prune signature first.method.isVoid candidates with
  | error e =>
    rw [hkept] at hprune
    rw [select_of_prune_error hfirst hkept, select_of_prune_error hnext hprune]
  | ok kept =>
    rw [hkept] at hprune
    have himplementations := implementations_erase hnd hkept (hvoid ▸ hprune)
    have hstays : ∀ d, d ∈ (kept.mergeSort Candidate.le).filter
        (fun d => facts.extendHolds d.method) ↔ facts.Stays candidates d := by
      intro d
      rw [List.mem_filter, List.mem_mergeSort, (prune_eq_ok hkept).1, stays_iff]
    rw [select_of_prune hfirst hkept (activeSetter?_of_others hc hothers),
      select_of_prune hnext hprune h.setter, hvoid, survivors_filter hlacks]
    generalize (kept.mergeSort Candidate.le).filter (fun d => facts.extendHolds d.method) =
      survivors at hstays
    dsimp only
    have hseveral : first.method.isVoid = false ∧
        1 < (implementations (candidates.erase c)).length ↔
          first.method.isVoid = false ∧ 1 < (implementations candidates).length :=
      and_congr_right fun hresult => h.several_iff himplementations (hcounts.trans hresult)
    simp only [hseveral]
    split
    · rfl
    by_cases hidle : facts.Idle signature injected (candidates.erase c)
    · rw [if_pos hidle]
      by_cases hin : c ∈ implementations candidates
      · obtain ⟨hresult, hinternal⟩ := h.covers hidle hin
        have hnone : ¬∃ d ∈ candidates.erase c, d.method.internalImpl = true := by
          rintro ⟨d, hd, htrue⟩
          cases (hinternal d hd).symm.trans htrue
        have hbusy : ¬facts.Idle signature injected candidates := by
          intro hidle'
          rw [hidle'.unimplemented] at hin
          cases hin
        have hsurvivors := filter_isConcrete_eq_nil hlacks
          (himplementations.symm.trans hidle.unimplemented) hstays
        rw [if_neg hnone, if_neg hbusy, if_pos ⟨hcounts.symm.trans hresult, hsurvivors⟩]
      · rw [List.erase_of_not_mem hin] at himplementations
        have hidle' : facts.Idle signature injected candidates :=
          ⟨himplementations ▸ hidle.unimplemented, hidle.uninjected, hidle.ungrouped⟩
        rw [if_pos hidle']
        simp only [h.internal_iff hidle hin]
    · have hbusy : ¬facts.Idle signature injected candidates :=
        fun hidle' => hidle (hidle'.erase himplementations)
      rw [if_neg hidle, if_neg hbusy]
      split
      · rfl
      next hresult => rw [h.chooseTemplate_next hfirst hnext hidle hstays hresult]

end Bystander

/-- What lacks the components that it extends shows neither in the merged method nor in a helper. -/
theorem not_mem_of_lacking (hnames : (candidates.map (·.component.name)).Nodup) (hc : c ∈ candidates)
    (hlacks : facts.extendHolds c.method = false) {plan : MethodPlan}
    (hmerge : facts.merge signature candidates splices hook = .ok (some plan)) :
    (∀ text, .inline c.component.name text ∉ plan.course) ∧
      ∀ p ∈ plan.helpers, p.component ≠ c.component.name := by
  obtain ⟨s, injected, hselect, -, rfl⟩ := merge_eq_ok_some hmerge
  obtain ⟨first, kept, hs⟩ := select_eq_ok_some hselect
  have hgone : ∀ d ∈ s.survivors, d.component.name ≠ c.component.name := by
    intro d hd hname
    have hstays := hs.mem_survivors_iff.1 hd
    obtain rfl := List.inj_on_of_nodup_map hnames hstays.listed hc hname
    cases hlacks.symm.trans hstays.extending
  refine ⟨fun text htext => ?_, fun p hp => ?_⟩
  · obtain ⟨-, d, hd, hname, -⟩ := Selection.exists_of_inline_mem_course hs.splices htext
    exact hgone d hd hname
  · obtain ⟨u, hu, hhelper⟩ := List.mem_filterMap.1 hp
    cases u with
    | setter f => cases hhelper
    | body d =>
      rw [Layouter.helper?] at hhelper
      split at hhelper
      · obtain ⟨text, -, rfl⟩ := Option.map_eq_some_iff.1 hhelper
        exact hgone d (Selection.body_mem_laidOut_iff.1 hu)
      · cases hhelper

/-- A candidate that lacks what it extends does not show in the plan. If it is a bystander, merging
    also gives the same without it. -/
theorem merge_without_lacking (hnames : (candidates.map (·.component.name)).Nodup)
    (hc : c ∈ candidates) (hlacks : facts.extendHolds c.method = false) :
    (∀ plan, facts.merge signature candidates splices hook = .ok (some plan) →
      (∀ text, .inline c.component.name text ∉ plan.course) ∧
        ∀ p ∈ plan.helpers, p.component ≠ c.component.name) ∧
      (candidates.erase c ≠ [] → facts.Bystander signature hook.isSome candidates c →
        facts.merge signature (candidates.erase c) splices hook =
          facts.merge signature candidates splices hook) := by
  refine ⟨fun plan hmerge => not_mem_of_lacking hnames hc hlacks hmerge, fun hothers h => ?_⟩
  rw [merge, merge, h.select_erase hnames hc hothers hlacks]

/-- A method that lacks the component which it extends. -/
def lacking (m : MethodDecl) : Candidate :=
  ⟨{ name := "AComp" }, { m with directives := .extend ["MissingComp"] .all :: m.directives }⟩

/-- An update, of which only the directives matter. -/
def updating (directives : List Directive) : MethodDecl :=
  { name := "update", body := some "a();", directives }

/-- A method without an implementation. -/
def declaring (name : String) (params : List Parameter := []) (internalImpl : Bool := false) :
    MethodDecl :=
  { name, params, modifiers := { isAbstract := true }, internalImpl }

/-- An update that reads the time that has passed. -/
def timed (param : String) : MethodDecl :=
  { name := "update", params := [⟨param, "float"⟩], body := some "a();" }

/-- An update that lacks what it extends, between others of which one removes it. -/
def onlookers : List Candidate :=
  [.ofBody "BComp" "update" "b();", lacking (updating [.remove "AComp"]),
    .ofBody "CComp" "update" "c();" [.priority (-1), .remove "DComp"]]

/-- The entity of the onlookers. -/
def trio : MergeFacts := plain ["AComp", "BComp", "CComp"]

theorem bystander_onlookers :
    trio.Bystander (.nullary "update") false onlookers (lacking (updating [.remove "AComp"])) where
  setter := by decide
  replaces := fun p hp => nomatch hp
  ties := nofun
  removes := by decide
  removed := fun _ => by decide
  single := nofun
  covers := by decide
  vouches := by decide
  result := by decide
  template := nofun

/-- What can be said of them. -/
theorem merge_without_lacking_onlookers :
    (onlookers.map (·.component.name)).Nodup ∧
      (∃ plan, trio.merge (.nullary "update") onlookers [] none = .ok (some plan) ∧
        ∀ text, .inline "AComp" text ∉ plan.course) ∧
      trio.merge (.nullary "update") (onlookers.erase (lacking (updating [.remove "AComp"]))) []
          none =
        trio.merge (.nullary "update") onlookers [] none := by
  obtain ⟨hplan, hsame⟩ := @merge_without_lacking trio (.nullary "update") onlookers [] none
    (lacking (updating [.remove "AComp"])) (by decide) (by decide) (by decide)
  obtain ⟨plan, hmerge⟩ : ∃ plan, trio.merge (.nullary "update") onlookers [] none =
      .ok (some plan) := ⟨_, rfl⟩
  exact ⟨by decide, ⟨plan, hmerge, (hplan plan hmerge).1⟩, hsame (by decide) bystander_onlookers⟩

/-- A candidate that lacks what it extends changes what comes of the others behind it. -/
structure Meddles (facts : MergeFacts) (signature : Signature) (c : Candidate)
    (others : List Candidate) : Prop where
  names : ((c :: others).map (·.component.name)).Nodup
  lacks : facts.extendHolds c.method = false
  accompanied : others ≠ []
  differ : facts.merge signature (c :: others) [] none ≠ facts.merge signature others [] none

/-- It alone replaces another one, and the merged method is empty. -/
theorem meddles_replacing : trio.Meddles (.nullary "update") (lacking (updating [.replace 1]))
    [.ofBody "BComp" "update" "b();"] := by
  refine ⟨by decide, by decide, by decide, ?_⟩
  rw [merge_of_ranked [lacking (updating [.replace 1])] (by decide) rfl (by decide) (by decide)
      (by decide),
    merge_of_ranked [.ofBody "BComp" "update" "b();"] (by decide) rfl (by decide) (by decide)
      (by decide)]
  intro h
  have hsteps := congrArg (·.steps.length) (Option.some.inj (Except.ok.inj h))
  revert hsteps
  decide

/-- Ahead of another one that lacks something it lends its parameters. -/
theorem meddles_lending : trio.Meddles (.ofTypes "update" ["float"]) (lacking (timed "dt"))
    [⟨{ name := "BComp" }, (lacking (timed "delta")).method⟩] := by
  refine ⟨by decide, by decide, by decide, ?_⟩
  rw [merge_of_ranked [lacking (timed "dt"),
      ⟨{ name := "BComp" }, (lacking (timed "delta")).method⟩] (by decide) rfl (by decide)
      (by decide) (by decide),
    merge_of_ranked [⟨{ name := "BComp" }, (lacking (timed "delta")).method⟩] (by decide) rfl
      (by decide) (by decide) (by decide)]
  intro h
  have hparams := congrArg (·.params.map (·.name)) (Option.some.inj (Except.ok.inj h))
  revert hparams
  decide

/-- Every condition on a bystander is needed. -/
theorem lacking_meddles :
    -- beside it another one does not set a field
    Meddles
        { trio with
          fields := { fields := [⟨{ name := "health", type := "int" }, "HealthComp", false⟩] } }
        (.ofTypes "health" ["int"]) (lacking (declaring "health" [⟨"value", "int"⟩]))
        [⟨{ name := "BComp" }, declaring "health" [⟨"value", "int"⟩]⟩] ∧
    -- it replaces another one
    trio.Meddles (.nullary "update") (lacking (updating [.replace 1]))
        [.ofBody "BComp" "update" "b();"] ∧
    -- it ties with another one
    trio.Meddles (.nullary "speed") (lacking (speed "" (some "return 1;") [.replace 1]).method)
        [speed "BComp" (some "return 2;") [.replace 1]] ∧
    -- it removes another one
    trio.Meddles (.nullary "update")
        (lacking { declaring "update" with directives := [.remove "BComp"] })
        [.ofBody "BComp" "update" "b();"] ∧
    -- it is removed by two others
    trio.Meddles (.nullary "update") (lacking (updating []))
        [.ofBody "BComp" "update" "b();" [.remove "AComp"],
          .ofBody "CComp" "update" "c();" [.remove "AComp"]] ∧
    -- it is a second implementation
    trio.Meddles (.nullary "speed") (lacking (speed "" (some "return 1;") []).method)
        [speed "BComp" (some "return 2;") []] ∧
    -- it is the only implementation
    trio.Meddles (.nullary "update") (lacking (updating []))
        [⟨{ name := "BComp" }, declaring "update"⟩] ∧
    -- it alone says that the entity supplies the method
    trio.Meddles (.nullary "update") (lacking (declaring "update" [] true))
        [⟨{ name := "BComp" }, declaring "update"⟩] ∧
    -- it comes first, and has no result
    trio.Meddles (.nullary "speed") (lacking (declaring "speed"))
        [speed "BComp" (some "return 2;") [], speed "CComp" (some "return 3;") []] ∧
    -- it comes first, and nothing survives
    trio.Meddles (.ofTypes "update" ["float"]) (lacking (timed "dt"))
        [⟨{ name := "BComp" }, (lacking (timed "delta")).method⟩] := by
  refine ⟨?_, meddles_replacing, ?_, ?_, ?_, ?_, ?_, ?_, ?_, meddles_lending⟩
  all_goals refine ⟨by decide, by decide, by decide, fun h => ?_⟩
  · nomatch h
  · rw [@merge_of_lone trio (.nullary "speed") [speed "BComp" (some "return 2;") [.replace 1]] []
      rfl (by decide) rfl _ rfl _ rfl] at h
    nomatch h
  · nomatch h
  · nomatch h
  · rw [@merge_of_lone trio (.nullary "speed") [speed "BComp" (some "return 2;") []] []
      rfl (by decide) rfl _ rfl _ rfl] at h
    nomatch h
  · nomatch h
  · nomatch h
  · nomatch h

end EntityWeaver.MergeFacts
