import EntityWeaver.Proofs.FieldSet

/-! The names that an entity declares.

    An entity declares the fields that it does not inherit, and two shadows for each interpolated one.
    Merging compares the fields among themselves, so among the declarations

        fields with fields       never share a name
        shadows with shadows     never share a name, since the fields that they belong to do not
        fields with shadows      are not compared

    The declarations have names of their own just when no field that is declared is called like a
    shadow. -/

namespace EntityWeaver

namespace FieldSet

variable {scope : Scope} {s : FieldSet}

/-- The shadows of a field. -/
def shadowNames (name : String) : List String := [targetShadow name, lastShadow name]

theorem lastShadow_inj {a b : String} : lastShadow a = lastShadow b ↔ a = b :=
  String.append_left_inj _

/-- The two kinds of shadows end in different words. -/
theorem targetShadow_ne_lastShadow (a b : String) : targetShadow a ≠ lastShadow b := by
  intro h
  have hchars := congrArg (fun name => name.toList.reverse) h
  simp [targetShadow, lastShadow] at hchars

/-- A shadow belongs to one field. -/
theorem shadowNames_disjoint {a b : String} (h : a ≠ b) :
    (shadowNames a).Disjoint (shadowNames b) := by
  intro name ha hb
  simp only [shadowNames, List.mem_cons, List.not_mem_nil, or_false] at ha hb
  rcases ha with rfl | rfl <;> rcases hb with hb | hb
  · exact h (targetShadow_inj.1 hb)
  · exact targetShadow_ne_lastShadow a b hb
  · exact targetShadow_ne_lastShadow b a hb.symm
  · exact h (lastShadow_inj.1 hb)

theorem nodup_flatMap_shadowNames {names : List String} (h : names.Nodup) :
    (names.flatMap shadowNames).Nodup := by
  refine List.nodup_flatMap.2 ⟨fun name _ => ?_, h.imp shadowNames_disjoint⟩
  simp [shadowNames, targetShadow_ne_lastShadow]

/-! ### Declarations -/

theorem names_ownDeclarations (s : FieldSet) :
    s.ownDeclarations.map (·.name) = (s.fields.filter (!·.hoisted)).map (·.name) := by
  rw [ownDeclarations, List.map_map]
  rfl

theorem names_shadows (s : FieldSet) : s.shadows.map (·.name) = s.shadowed.flatMap shadowNames := by
  rw [shadows, List.map_flatMap]
  rfl

theorem names_toSource (s : FieldSet) : s.toSource.map (·.name) =
    s.ownDeclarations.map (·.name) ++ s.shadowed.flatMap shadowNames := by
  rw [toSource_eq, List.map_append, names_shadows]

theorem names_nodup_ownDeclarations (h : s.names.Nodup) : (s.ownDeclarations.map (·.name)).Nodup := by
  rw [names_ownDeclarations]
  exact h.sublist (List.filter_sublist.map _)

theorem shadowed_nodup (h : s.names.Nodup) (hshadows : s.ListsShadows scope) : s.shadowed.Nodup := by
  rw [hshadows]
  exact h.sublist (List.filter_sublist.map _)

theorem mem_shadowed_iff (hshadows : s.ListsShadows scope) {name : String} : name ∈ s.shadowed ↔
    ∃ f ∈ s.fields, gainsShadows scope f.decl = true ∧ f.name = name := by
  rw [hshadows]
  simp only [List.mem_map, List.mem_filter, and_assoc]

/-- A declared field is called like a shadow that is declared too. -/
def Clashes (scope : Scope) (s : FieldSet) : Prop :=
  ∃ f ∈ s.fields, f.hoisted = false ∧
    ∃ g ∈ s.fields, gainsShadows scope g.decl = true ∧ f.name ∈ shadowNames g.name

theorem disjoint_iff_not_clashes (hshadows : s.ListsShadows scope) :
    (s.ownDeclarations.map (·.name)).Disjoint (s.shadowed.flatMap shadowNames) ↔
      ¬s.Clashes scope := by
  simp only [names_ownDeclarations, List.disjoint_left, Clashes, List.mem_map, List.mem_filter,
    List.mem_flatMap, mem_shadowed_iff hshadows, Bool.not_eq_true']
  constructor
  · rintro h ⟨f, hf, hown, g, hg, hgains, hname⟩
    exact h ⟨f, ⟨hf, hown⟩, rfl⟩ ⟨_, ⟨g, hg, hgains, rfl⟩, hname⟩
  · rintro h _ ⟨f, ⟨hf, hown⟩, rfl⟩ ⟨_, ⟨g, hg, hgains, rfl⟩, hname⟩
    exact h ⟨f, hf, hown, g, hg, hgains, hname⟩

/-- The names that an entity declares are distinct just when no field that it declares is called like
    one of its shadows. -/
theorem names_nodup_toSource_iff (scope : Scope) (components : List ComponentDecl) :
    let set := (merge scope components).1
    (set.toSource.map (·.name)).Nodup ↔
      ∀ f ∈ set.fields, f.hoisted = false → ∀ g ∈ set.fields, gainsShadows scope g.decl = true →
        f.name ≠ targetShadow g.name ∧ f.name ≠ lastShadow g.name := by
  intro set
  have hnames : set.names.Nodup := names_nodup_merge scope components
  have hshadows : set.ListsShadows scope := listsShadows_merge scope components
  rw [names_toSource, List.nodup_append', disjoint_iff_not_clashes hshadows]
  have hown := names_nodup_ownDeclarations hnames
  have hderived := nodup_flatMap_shadowNames (shadowed_nodup hnames hshadows)
  constructor
  · rintro ⟨-, -, hclash⟩ f hf hown g hg hgains
    have hname : f.name ∉ shadowNames g.name := fun hname => hclash ⟨f, hf, hown, g, hg, hgains, hname⟩
    simpa [shadowNames] using hname
  · intro h
    refine ⟨hown, hderived, ?_⟩
    rintro ⟨f, hf, hown, g, hg, hgains, hname⟩
    obtain ⟨htarget, hlast⟩ := h f hf hown g hg hgains
    simp [shadowNames, htarget, hlast] at hname

/-- The place of a drone moves, and the mark of the drone is called like the shadow that it moves to. -/
def markedPlace : List ComponentDecl :=
  [{ name := "PosComp"
     fields := [{ name := "x", type := "float", sync := { interpolate := some .linear } },
       { name := "x_target", type := "float" }] }]

def markedScope : Scope := ⟨"Drone", none, true, none⟩

/-- Two fields of one name are declared, and nothing is reported. -/
theorem markedPlace_declared_twice : (merge markedScope markedPlace).2 = [] ∧
    (merge markedScope markedPlace).1.toSource.map (·.name) =
      ["x", "x_target", "x_target", "x_last"] ∧
    ¬((merge markedScope markedPlace).1.toSource.map (·.name)).Nodup := by
  have hdeclared : (merge markedScope markedPlace).1.toSource.map (·.name) =
    ["x", "x_target", "x_target", "x_last"] := rfl
  refine ⟨rfl, hdeclared, ?_⟩
  rw [hdeclared]
  decide

end FieldSet

end EntityWeaver
