import EntityWeaver.Entity
import EntityWeaver.Proofs.OrderedMap

/-! Accessors that entities add.

    Contract methods are implemented one behind the other. An accessor goes where its field is
    declared, into the entity or into a base class, which other entities may have added to before. So
    the type of the entity and the base classes only ever gain methods, and an accessor that is there
    once stays:

        type, base classes ──m₁──▶ · ──m₂──▶ · ──m₃──▶ ·        methods are all that is added -/

namespace EntityWeaver

/-- The type with more methods, if any. -/
def TypeDef.Grown (t t' : TypeDef) : Prop := ∃ more, t' = { t with methods := t.methods ++ more }

namespace TypeDef.Grown

variable {t t' t'' : TypeDef}

theorem refl (t : TypeDef) : t.Grown t := ⟨[], by rw [List.append_nil]⟩

theorem trans (h : t.Grown t') (h' : t'.Grown t'') : t.Grown t'' := by
  obtain ⟨more, rfl⟩ := h
  obtain ⟨more', rfl⟩ := h'
  exact ⟨more ++ more', by rw [List.append_assoc]⟩

theorem addMethod (t : TypeDef) (m : SourceMethod) : t.Grown (t.addMethod m) := ⟨[m], rfl⟩

theorem name_eq (h : t.Grown t') : t'.name = t.name := by
  obtain ⟨_, rfl⟩ := h
  rfl

theorem superclass_eq (h : t.Grown t') : t'.superclass = t.superclass := by
  obtain ⟨_, rfl⟩ := h
  rfl

theorem fields_eq (h : t.Grown t') : t'.fields = t.fields := by
  obtain ⟨_, rfl⟩ := h
  rfl

theorem mem_methods (h : t.Grown t') {m : SourceMethod} (hm : m ∈ t.methods) : m ∈ t'.methods := by
  obtain ⟨_, rfl⟩ := h
  exact List.mem_append_left _ hm

theorem hasMethod (h : t.Grown t') {name returnType : String}
    (hm : t.hasMethod name returnType = true) : t'.hasMethod name returnType = true := by
  obtain ⟨m, hmem, hm⟩ := List.any_eq_true.1 hm
  exact List.any_eq_true.2 ⟨m, h.mem_methods hmem, hm⟩

end TypeDef.Grown

namespace BaseClass

/-- The base class with more methods, if any. -/
structure Grown (b b' : BaseClass) : Prop where
  component : b'.component = b.component
  members : b'.members = b.members
  type : b.type.Grown b'.type

theorem Grown.refl (b : BaseClass) : b.Grown b := ⟨rfl, rfl, .refl _⟩

theorem Grown.trans {b b' b'' : BaseClass} (h : b.Grown b') (h' : b'.Grown b'') : b.Grown b'' :=
  ⟨h'.component.trans h.component, h'.members.trans h.members, h.type.trans h'.type⟩

/-- The same base classes, of which each may have more methods. -/
def AllGrown (bases bases' : OrderedMap String BaseClass) : Prop :=
  ∃ grow : String → BaseClass → BaseClass, (∀ (a : String) (b : BaseClass), b.Grown (grow a b)) ∧
    bases' = bases.mapValues grow

/-- Each base class is that of the component under whose name it stands. -/
def Keyed (bases : OrderedMap String BaseClass) : Prop :=
  ∀ a b, bases.get? a = some b → b.component = a

namespace AllGrown

variable {bases bases' bases'' : OrderedMap String BaseClass}

theorem refl (bases : OrderedMap String BaseClass) : AllGrown bases bases :=
  ⟨fun _ b => b, fun _ b => .refl b, OrderedMap.ext (by simp [OrderedMap.mapValues])⟩

theorem trans (h : AllGrown bases bases') (h' : AllGrown bases' bases'') : AllGrown bases bases'' := by
  obtain ⟨grow, hgrow, rfl⟩ := h
  obtain ⟨grow', hgrow', rfl⟩ := h'
  refine ⟨fun a b => grow' a (grow a b), fun a b => (hgrow a b).trans (hgrow' a _), ?_⟩
  exact OrderedMap.ext (by simp [OrderedMap.mapValues])

theorem kept (h : AllGrown bases bases') {a : String} {b : BaseClass} (hb : bases.get? a = some b) :
    ∃ b', bases'.get? a = some b' ∧ b.Grown b' := by
  obtain ⟨grow, hgrow, rfl⟩ := h
  exact ⟨grow a b, by rw [OrderedMap.get?_mapValues, hb, Option.map_some], hgrow a b⟩

theorem known (h : AllGrown bases bases') {a : String} {b' : BaseClass}
    (hb' : bases'.get? a = some b') : ∃ b, bases.get? a = some b ∧ b.Grown b' := by
  obtain ⟨grow, hgrow, rfl⟩ := h
  rw [OrderedMap.get?_mapValues] at hb'
  obtain ⟨b, hb, rfl⟩ := Option.map_eq_some_iff.1 hb'
  exact ⟨b, hb, hgrow a b⟩

theorem keyed_iff (h : AllGrown bases bases') : Keyed bases ↔ Keyed bases' := by
  constructor
  · intro hkeyed a b' hb'
    obtain ⟨b, hb, hgrown⟩ := h.known hb'
    exact hgrown.component.trans (hkeyed a b hb)
  · intro hkeyed a b hb
    obtain ⟨b', hb', hgrown⟩ := h.kept hb
    exact hgrown.component.symm.trans (hkeyed a b' hb')

theorem map_name_eq (h : AllGrown bases bases') :
    bases'.values.map (·.type.name) = bases.values.map (·.type.name) := by
  obtain ⟨grow, hgrow, rfl⟩ := h
  simp only [OrderedMap.values, OrderedMap.mapValues, List.map_map]
  exact List.map_congr_left fun e _ => (hgrow e.1 e.2).type.name_eq

/-- One base class gains a method. -/
theorem modify_addMethod (bases : OrderedMap String BaseClass) (k : String) (m : SourceMethod) :
    AllGrown bases (bases.modify k fun b => { b with type := b.type.addMethod m }) := by
  refine ⟨_, fun a b => ?_, rfl⟩
  dsimp only
  split
  · exact ⟨rfl, rfl, .addMethod b.type m⟩
  · exact .refl b

end AllGrown

end BaseClass

namespace Draft

variable {p : Project} {d : Draft} {w w' w'' : Workbench}

/-- More methods in the type and in the base classes, if any. -/
structure Workbench.Grown (w w' : Workbench) : Prop where
  type : w.type.Grown w'.type
  bases : BaseClass.AllGrown w.bases w'.bases

theorem Workbench.Grown.refl (w : Workbench) : w.Grown w := ⟨.refl _, .refl _⟩

theorem Workbench.Grown.trans (h : w.Grown w') (h' : w'.Grown w'') : w.Grown w'' :=
  ⟨h.type.trans h'.type, h.bases.trans h'.bases⟩

/-- A method is there: in the type as far as its signature is printed alike, or in the base class by
    name and return type. -/
def Workbench.Has (base : Option String) (w : Workbench) (m : SourceMethod) (returnType : String) :
    Prop :=
  (∃ q ∈ w.type.methods, q.signatureText = m.signatureText) ∨
    ∃ component b, base = some component ∧ w.bases.get? component = some b ∧
      b.type.hasMethod m.name returnType = true

/-- A method that is there stays there. -/
theorem Workbench.Has.mono {base : Option String} {m : SourceMethod} {returnType : String}
    (hgrown : w.Grown w') (h : w.Has base m returnType) : w'.Has base m returnType := by
  rcases h with ⟨q, hq, htext⟩ | ⟨component, b, hbase, hb, hmethod⟩
  · exact .inl ⟨q, hgrown.type.mem_methods hq, htext⟩
  · obtain ⟨b', hb', hgrown'⟩ := hgrown.bases.kept hb
    exact .inr ⟨component, b', hbase, hb', hgrown'.type.hasMethod hmethod⟩

section PlaceAccessor

variable {base : Option String} {field : MergedField} {accessor : SourceMethod}

theorem placeAccessor_grown (p : Project) (base : Option String) (field : MergedField) (w : Workbench)
    (accessor : SourceMethod) : w.Grown (placeAccessor p base field w accessor) := by
  unfold placeAccessor
  split
  · split
    · exact .refl w
    · exact ⟨.refl _, .modify_addMethod _ _ _⟩
  · split
    · exact .refl w
    split
    · exact .refl w
    · exact ⟨.addMethod _ _, .refl _⟩

/-- A placed accessor is there, unless its field belongs to a base class of another package. -/
theorem placeAccessor_has {returnType : String} (hkeyed : BaseClass.Keyed w.bases)
    (hreturn : accessor.returnType = some returnType)
    (hlocal : (base.any p.isImported && field.hoisted) = false) :
    (placeAccessor p base field w accessor).Has base accessor returnType := by
  unfold placeAccessor
  split
  · next b hb =>
    obtain ⟨component, rfl, hb⟩ := Option.bind_eq_some_iff.1 hb
    obtain ⟨hb, -⟩ := Option.filter_eq_some_iff.1 hb
    have hreturn' : accessor.returnType.getD "" = returnType := by rw [hreturn, Option.getD_some]
    rw [hreturn']
    split
    · next hmethod => exact .inr ⟨component, b, rfl, hb, hmethod⟩
    · obtain rfl := hkeyed component b hb
      refine .inr ⟨_, { b with type := b.type.addMethod accessor }, rfl, ?_, ?_⟩
      · rw [OrderedMap.modify, OrderedMap.get?_mapValues, hb, Option.map_some, if_pos rfl]
      · refine List.any_eq_true.2 ⟨accessor, List.mem_append_right _ (List.mem_singleton_self _), ?_⟩
        rw [hreturn, beq_self_eq_true, beq_self_eq_true, Bool.true_and]
  · rw [hlocal, if_neg Bool.false_ne_true]
    split
    · next hprinted =>
      obtain ⟨q, hq, htext⟩ := List.any_eq_true.1 hprinted
      exact .inl ⟨q, hq, beq_iff_eq.1 htext⟩
    · exact .inl ⟨accessor, List.mem_append_right _ (List.mem_singleton_self _), rfl⟩

end PlaceAccessor

section Implement

variable {declared : List Signature} {m : ContractMethod} {promised : List ContractMethod}
  {field : MergedField} {accessor : SourceMethod} {returnType : String}

theorem implement_grown (p : Project) (d : Draft) (declared : List Signature) (w : Workbench)
    (m : ContractMethod) : w.Grown (implement p d declared w m) := by
  unfold implement
  split
  · exact .refl w
  split
  · exact .refl w
  split
  · exact .refl w
  · exact placeAccessor_grown p _ _ w _

theorem implementAll_grown (p : Project) (d : Draft) (declared : List Signature) (w : Workbench)
    (promised : List ContractMethod) : w.Grown (promised.foldl (implement p d declared) w) := by
  induction promised generalizing w with
  | nil => exact .refl w
  | cons m rest ih => exact (implement_grown p d declared w m).trans (ih _)

theorem implement_has (hkeyed : BaseClass.Keyed w.bases) (hfield : d.fields.get? m.name = some field)
    (hundeclared : m.signature ∉ declared) (haccessor : accessor? m field = some accessor)
    (hreturn : accessor.returnType = some returnType)
    (hlocal : (d.heading.base.any p.isImported && field.hoisted) = false) :
    (implement p d declared w m).Has d.heading.base accessor returnType := by
  unfold implement
  simp only [hfield, if_neg hundeclared, haccessor]
  exact placeAccessor_has hkeyed hreturn hlocal

/-- Every promised accessor that no component declares is there in the end. -/
theorem implementAll_has (hkeyed : BaseClass.Keyed w.bases) (hm : m ∈ promised)
    (hfield : d.fields.get? m.name = some field) (hundeclared : m.signature ∉ declared)
    (haccessor : accessor? m field = some accessor)
    (hreturn : accessor.returnType = some returnType)
    (hlocal : (d.heading.base.any p.isImported && field.hoisted) = false) :
    (promised.foldl (implement p d declared) w).Has d.heading.base accessor returnType := by
  induction promised generalizing w with
  | nil => cases hm
  | cons first rest ih =>
    rw [List.foldl_cons]
    rcases List.mem_cons.1 hm with rfl | hm
    · exact (implement_has hkeyed hfield hundeclared haccessor hreturn hlocal).mono
        (implementAll_grown p d declared _ rest)
    · exact ih ((implement_grown p d declared w first).bases.keyed_iff.1 hkeyed) hm

end Implement

end Draft

end EntityWeaver
