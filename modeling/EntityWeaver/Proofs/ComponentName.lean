import EntityWeaver.Catalog

/-! Contract names as references.

    Every component but one without a name is among those that the name of its contract may stand for.
    So a reference that the catalog leaves alone, though it names no component, is the name of no
    component's contract. -/

namespace EntityWeaver

namespace Text

variable {w s front : List Char}

theorem beforeEnd?_append (s w : List Char) : beforeEnd? w (s ++ w) = some s := by
  have hsuffix : w.isSuffixOf (s ++ w) = true := List.isSuffixOf_iff_suffix.2 (List.suffix_append s w)
  rw [beforeEnd?, if_pos hsuffix, List.length_append, Nat.add_sub_cancel, List.take_left]

theorem eq_append_of_beforeEnd? (h : beforeEnd? w s = some front) : s = front ++ w := by
  unfold beforeEnd? at h
  split at h
  · next hsuffix =>
    obtain ⟨before, rfl⟩ := List.isSuffixOf_iff_suffix.1 hsuffix
    rw [List.length_append, Nat.add_sub_cancel, List.take_left] at h
    rw [Option.some.inj h]
  · cases h

end Text

namespace ComponentName

/-- A name is its base name, with the suffix of component names or without. -/
theorem eq_base_append_suffix_or_eq_base (component : String) :
    component = base component ++ suffix ∨ component = base component := by
  unfold base
  split
  · next c cs h =>
    left
    rw [← String.toList_inj, String.toList_append, String.toList_ofList]
    exact Text.eq_append_of_beforeEnd? h
  · exact .inr rfl

theorem base_ne_empty {component : String} (h : component ≠ "") : base component ≠ "" := by
  unfold base
  split
  · next c cs _ =>
    intro hempty
    rw [← String.toList_inj, String.toList_ofList] at hempty
    cases hempty
  · exact h

/-- The suffix of component names is taken off again. -/
theorem base_append_suffix {name : String} (h : name ≠ "") : base (name ++ suffix) = name := by
  have hfront : Text.beforeEnd? suffix.toList (name ++ suffix).toList = some name.toList := by
    rw [String.toList_append]
    exact Text.beforeEnd?_append _ _
  obtain ⟨c, cs, hcs⟩ := List.exists_cons_of_ne_nil fun hnil => h (String.toList_inj.1 hnil)
  rw [base, hfront, hcs]
  exact (congrArg String.ofList hcs).symm.trans String.ofList_toList

/-- The name of a contract may stand for the base name of its component, with the suffix or without. -/
theorem ofContract_contract {component : String} (h : component ≠ "") :
    ofContract (contract component) = [base component ++ suffix, base component] := by
  have hfront : Text.beforeEnd? contractSuffix.toList (contract component).toList =
      some (base component).toList := by
    rw [contract, String.toList_append]
    exact Text.beforeEnd?_append _ _
  obtain ⟨c, cs, hcs⟩ := List.exists_cons_of_ne_nil fun hnil =>
    base_ne_empty h (String.toList_inj.1 hnil)
  have hback : String.ofList (c :: cs) = base component := by rw [← hcs, String.ofList_toList]
  rw [ofContract, hfront, hcs]
  simp only [hback]

/-- The contract name of a component may stand for it. -/
theorem mem_ofContract_contract {component : String} (h : component ≠ "") :
    component ∈ ofContract (contract component) := by
  rw [ofContract_contract h, List.mem_cons, List.mem_singleton]
  exact eq_base_append_suffix_or_eq_base component

end ComponentName

namespace Snapshot

variable {s : Snapshot}

/-- A canonical reference names a component, or it is left as it is and may stand for none. -/
theorem canonical_cases (s : Snapshot) (reference : String) :
    s.declares (s.canonical reference) = true ∨ s.canonical reference = reference ∧
      ∀ name ∈ ComponentName.ofContract reference, s.declares name = false := by
  unfold canonical
  split
  · next h => exact .inl h
  · cases hfound : (ComponentName.ofContract reference).find? s.declares with
    | some name => exact .inl (List.find?_some hfound)
    | none => exact .inr ⟨rfl, by simpa using hfound⟩

/-- What is left as it is and names no component is the name of no component's contract. -/
theorem canonical_ne_contract {reference name : String} (hname : s.declares name = true)
    (hne : name ≠ "") (h : s.declares (s.canonical reference) = false) :
    s.canonical reference ≠ ComponentName.contract name := by
  intro heq
  rcases s.canonical_cases reference with hdeclares | ⟨hsame, hnone⟩
  · rw [hdeclares] at h
    cases h
  · have hmem := ComponentName.mem_ofContract_contract hne
    rw [← heq, hsame] at hmem
    rw [hnone name hmem] at hname
    cases hname

end Snapshot

end EntityWeaver
