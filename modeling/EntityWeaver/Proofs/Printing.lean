import EntityWeaver.Proofs.Sorting

/-! Printed types do not show the order in which their parts were added.

    Parts are added by whoever makes a type, in the order in which they come up. What is printed is in
    an order of its own, which the parts alone decide as long as each has a place of its own in it:

        superinterfaces    by name, each once
        fields             by name
        methods            constructors first, and then by signature

    So two types with the same parts are printed alike, in any package and with any imports. -/

namespace EntityWeaver

namespace SourceMethod

/-- What decides where a method is printed: whether it is one or a constructor, and its signature. -/
def place (m : SourceMethod) : Bool × String := (m.returnType.isSome, m.signatureText)

/-- The first method is printed in front of the second. -/
def Precedes (m n : SourceMethod) : Prop :=
  m.returnType = none ∧ n.returnType ≠ none ∨
    m.returnType.isSome = n.returnType.isSome ∧ m.signatureText ≤ n.signatureText ∧
      m.signatureText ≠ n.signatureText

end SourceMethod

namespace TypeDef

/-! ### The order of methods -/

/-- Methods stand in one order, constructors first. -/
theorem ordered_methods : Ordered methodLe where
  trans a b c := by
    unfold methodLe
    cases a.returnType <;> cases b.returnType <;> cases c.returnType <;> simp <;>
      exact String.le_trans
  total a b := by
    unfold methodLe
    cases a.returnType <;> cases b.returnType <;> simp [String.le_total]

/-- Methods that are level in the order have one place. -/
theorem place_eq_of_methodLe {m n : SourceMethod} (hmn : methodLe m n = true)
    (hnm : methodLe n m = true) : m.place = n.place := by
  unfold methodLe at hmn hnm
  unfold SourceMethod.place
  cases hm : m.returnType <;> cases hn : n.returnType <;> simp [hm, hn] at hmn hnm ⊢
  · exact String.le_antisymm hmn hnm
  · exact String.le_antisymm hmn hnm

theorem precedes_of_methodLe {m n : SourceMethod} (h : methodLe m n = true) (hne : m.place ≠ n.place) :
    m.Precedes n := by
  unfold methodLe at h
  unfold SourceMethod.place at hne
  unfold SourceMethod.Precedes
  cases hm : m.returnType <;> cases hn : n.returnType <;> simp [hm, hn] at h hne ⊢
  · exact ⟨h, hne⟩
  · exact ⟨h, hne⟩

/-! ### Parts with places of their own -/

/-- Sorted values with keys of their own are nowhere level. -/
theorem pairwise_mergeSort_of_nodup {α κ : Type} {le : α → α → Bool} (hle : Ordered le) {key : α → κ}
    {xs : List α} (hkeys : (xs.map key).Nodup) :
    (xs.mergeSort le).Pairwise fun a b => le a b = true ∧ key a ≠ key b := by
  have hkeys' : ((xs.mergeSort le).map key).Nodup :=
    ((List.mergeSort_perm xs le).map key).nodup_iff.2 hkeys
  exact (hle.pairwise_mergeSort xs).and (List.pairwise_map.1 hkeys')

section Respelled

variable {t : TypeDef} {fields : List SourceField} {methods : List SourceMethod}
  {superinterfaces : List String}

theorem sortedFields_of_perm (h : fields.Perm t.fields) (hnames : (t.fields.map (·.name)).Nodup) :
    ({ t with fields } : TypeDef).sortedFields = t.sortedFields := by
  refine ((Ordered.names.on SourceField.name).mergeSort_eq_of_perm h.symm ?_).symm
  intro f hf g hg hfg hgf
  refine List.inj_on_of_nodup_map hnames hf hg ?_
  exact String.le_antisymm (of_decide_eq_true hfg) (of_decide_eq_true hgf)

theorem sortedMethods_of_perm (h : methods.Perm t.methods)
    (hplaces : (t.methods.map SourceMethod.place).Nodup) :
    ({ t with methods } : TypeDef).sortedMethods = t.sortedMethods := by
  refine (ordered_methods.mergeSort_eq_of_perm h.symm ?_).symm
  intro m hm n hn hmn hnm
  exact List.inj_on_of_nodup_map hplaces hm hn (place_eq_of_methodLe hmn hnm)

/-- Only which superinterfaces there are shows. -/
theorem header_of_mem_iff (h : ∀ name, name ∈ superinterfaces ↔ name ∈ t.superinterfaces) :
    ({ t with superinterfaces } : TypeDef).header = t.header := by
  unfold header
  dsimp only
  rw [ascending_congr h]

/-- A type is printed in one way: neither the order of its fields and methods nor the order and number
    of its superinterfaces shows. Its fields and methods are printed in the order of their places. -/
theorem toSource_respelled (hnames : (t.fields.map (·.name)).Nodup)
    (hplaces : (t.methods.map SourceMethod.place).Nodup) :
    (∀ fields methods superinterfaces, fields.Perm t.fields → methods.Perm t.methods →
      (∀ name, name ∈ superinterfaces ↔ name ∈ t.superinterfaces) → ∀ package imports,
        ({ t with fields, methods, superinterfaces } : TypeDef).toSource package imports =
          t.toSource package imports) ∧
      (t.sortedFields.Perm t.fields ∧
        t.sortedFields.Pairwise fun f g => f.name ≤ g.name ∧ f.name ≠ g.name) ∧
      t.sortedMethods.Perm t.methods ∧ t.sortedMethods.Pairwise SourceMethod.Precedes := by
  refine ⟨fun fields methods superinterfaces hfields hmethods hsupers package imports => ?_,
    ⟨List.mergeSort_perm _ _, ?_⟩, List.mergeSort_perm _ _, ?_⟩
  · have hnone : fields = [] ↔ t.fields = [] := by
      rw [← List.length_eq_zero_iff, hfields.length_eq, List.length_eq_zero_iff]
    let t' : TypeDef := { t with fields, methods, superinterfaces }
    have hheader : t'.header = t.header := header_of_mem_iff hsupers
    have hsortedFields : t'.sortedFields = t.sortedFields := sortedFields_of_perm hfields hnames
    have hsortedMethods : t'.sortedMethods = t.sortedMethods := sortedMethods_of_perm hmethods hplaces
    show t'.toSource package imports = _
    rw [toSource, hheader, hsortedFields, hsortedMethods, decide_eq_decide.2 hnone]
    rfl
  · refine (pairwise_mergeSort_of_nodup (Ordered.names.on SourceField.name) hnames).imp ?_
    exact fun ⟨hle, hne⟩ => ⟨of_decide_eq_true hle, hne⟩
  · refine (pairwise_mergeSort_of_nodup ordered_methods hplaces).imp ?_
    exact fun ⟨hle, hne⟩ => precedes_of_methodLe hle hne

end Respelled

/-- A type with its parts as they came up: fields and methods out of order, and a constructor behind the
    methods. -/
def crawler : TypeDef where
  kind := .class_
  name := "Crawler"
  superinterfaces := ["Posc", "Healthc"]
  fields := [{ name := "y", type := "float" }, { name := "x", type := "float" }]
  methods := [.ofName "kill" "void", { SourceMethod.ofName "kill" "void" with params := [⟨"int", "n"⟩] },
    .ofType "Crawler"]

theorem toSource_respelled_crawler : (crawler.fields.map (·.name)).Nodup ∧
    (crawler.methods.map SourceMethod.place).Nodup ∧
    ({ crawler with
        fields := crawler.fields.reverse
        methods := crawler.methods.reverse
        superinterfaces := ["Healthc", "Posc", "Healthc"] } : TypeDef).toSource "mymod.gen" ["arc.math.Mathf"] =
      crawler.toSource "mymod.gen" ["arc.math.Mathf"] := by
  have hnames : (crawler.fields.map (·.name)).Nodup := by decide
  have hplaces : (crawler.methods.map SourceMethod.place).Nodup := by decide
  refine ⟨hnames, hplaces, (toSource_respelled hnames hplaces).1 _ _ _ (List.reverse_perm _)
    (List.reverse_perm _) (fun name => ?_) _ _⟩
  simp [crawler, or_comm]

end TypeDef

end EntityWeaver
