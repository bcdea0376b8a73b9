import EntityWeaver.FieldSet
import Mathlib.Data.List.Nodup

/-! Merged field sets.

    Merging goes field by field, and a field whose name is there already is left out and reported. So
    the fields of a merged set have names of their own, and each is the one that its name finds; as long
    as no name is reported they are all fields of the components. -/

namespace EntityWeaver

/-- A declaration in a generated type is that of a field: it says everything that the declaration of the
    field says, except who may see it. -/
structure SourceField.Declares (g : SourceField) (f : FieldDecl) : Prop where
  name : g.name = f.name
  type : g.type = f.type
  initializer : g.initializer = f.initializer
  annotations : g.annotations = f.annotations
  transient : "transient" ∈ g.modifiers ↔ f.modifiers.transient = true
  volatile : "volatile" ∈ g.modifiers ↔ f.modifiers.volatile = true

theorem MergedField.declares_toSource (f : MergedField) : f.toSource.Declares f.decl where
  name := rfl
  type := rfl
  initializer := rfl
  annotations := rfl
  transient := by grind [toSource, accessWord]
  volatile := by grind [toSource, accessWord]

theorem targetShadow_inj {a b : String} : targetShadow a = targetShadow b ↔ a = b :=
  String.append_left_inj _

namespace FieldSet

variable {scope : Scope} {s : FieldSet}

/-- The names of the fields, in order. -/
def names (s : FieldSet) : List String := s.fields.map (·.name)

theorem get?_eq_none_iff {name : String} : s.get? name = none ↔ name ∉ s.names := by
  simp [get?, names]

/-- Where names are distinct, a name finds the field that has it. -/
theorem get?_eq_some_iff (hnames : s.names.Nodup) {name : String} {f : MergedField} :
    s.get? name = some f ↔ f ∈ s.fields ∧ f.name = name := by
  constructor
  · intro h
    have hname := List.find?_some h
    exact ⟨List.mem_of_find?_eq_some h, by simpa using hname⟩
  · rintro ⟨hf, rfl⟩
    cases hfound : s.get? f.name with
    | none => exact absurd (List.mem_map_of_mem hf) (get?_eq_none_iff.1 hfound)
    | some g =>
      have hname := List.find?_some hfound
      have hg := List.mem_of_find?_eq_some hfound
      rw [List.inj_on_of_nodup_map hnames hg hf (by simpa using hname)]

/-! ### One more field -/

/-- The field that a declaration becomes. -/
def merged (scope : Scope) (owner : String) (f : FieldDecl) : MergedField :=
  ⟨f, owner, scope.baseMembers.any (·.contains owner) && f.isHoistable⟩

/-- A field gains shadows when it is interpolated and its type is the one that can be. -/
def gainsShadows (scope : Scope) (f : FieldDecl) : Bool :=
  scope.synced && f.isSyncValue && f.type == "float"

/-- An interpolated field that cannot be. -/
def isUnfit (scope : Scope) (f : FieldDecl) : Bool :=
  scope.synced && f.isSyncValue && f.type != "float"

/-- The report of a field whose name is taken. -/
def duplicateReport (scope : Scope) (first owner : String) (f : FieldDecl) : Diagnostic :=
  .ofError (.duplicateField scope.entity f.name first owner) (f.anchor.or scope.anchor)

/-- The report of an interpolated field that is no `float`. -/
def unfitReport (scope : Scope) (f : FieldDecl) : Diagnostic :=
  .ofError (.nonFloatSyncField scope.entity f.name f.type) (f.anchor.or scope.anchor)

/-- A field whose name is there leaves the set as it is. -/
theorem add_of_taken (scope : Scope) (owner : String) {f : FieldDecl} (h : f.name ∈ s.names) :
    ∃ first, s.add scope owner f = (s, [duplicateReport scope first owner f]) := by
  cases hfound : s.get? f.name with
  | none => exact absurd h (get?_eq_none_iff.1 hfound)
  | some first =>
    refine ⟨first.owner, ?_⟩
    rw [add, hfound]
    rfl

/-- Any other field comes behind those of the set, with shadows or a report if it is interpolated. -/
theorem add_of_free (scope : Scope) (owner : String) {f : FieldDecl} (h : f.name ∉ s.names) :
    s.add scope owner f =
      (⟨s.fields ++ [merged scope owner f],
          s.shadowed ++ if gainsShadows scope f then [f.name] else []⟩,
        if isUnfit scope f then [unfitReport scope f] else []) := by
  rw [add, get?_eq_none_iff.2 h]
  dsimp only
  unfold gainsShadows isUnfit
  split_ifs <;> simp_all [merged, unfitReport]

/-- One more field brings one more name, unless the name is there. -/
theorem names_add (owner : String) (f : FieldDecl) :
    (s.add scope owner f).1.names = if f.name ∈ s.names then s.names else s.names ++ [f.name] := by
  split
  · next htaken =>
    obtain ⟨first, hadd⟩ := add_of_taken scope owner htaken
    rw [hadd]
  · next hfree =>
    rw [add_of_free scope owner hfree, names, List.map_append]
    rfl

theorem names_nodup_add (h : s.names.Nodup) (owner : String) (f : FieldDecl) :
    (s.add scope owner f).1.names.Nodup := by
  rw [names_add]
  split
  · exact h
  · next hf => exact List.nodup_append.2 ⟨h, by simp, by grind⟩

theorem names_nodup_addAll {state : FieldSet × List Diagnostic} (h : state.1.names.Nodup)
    (fs : List (String × FieldDecl)) : (addAll scope state fs).1.names.Nodup := by
  induction fs generalizing state with
  | nil => exact h
  | cons f rest ih => exact ih (names_nodup_add h f.1 f.2)

/-- No two fields of a merged set have the same name. -/
theorem names_nodup_merge (scope : Scope) (components : List ComponentDecl) :
    (merge scope components).1.names.Nodup := by
  have hempty : (({}, []) : FieldSet × List Diagnostic).1.names.Nodup := .nil
  exact names_nodup_addAll hempty (owned components)

/-! ### Fields with shadows -/

/-- The names with shadows are those of the fields that gain them, in order. -/
def ListsShadows (scope : Scope) (s : FieldSet) : Prop :=
  s.shadowed = (s.fields.filter fun f => gainsShadows scope f.decl).map (·.name)

theorem listsShadows_add (h : s.ListsShadows scope) (owner : String) (f : FieldDecl) :
    (s.add scope owner f).1.ListsShadows scope := by
  unfold ListsShadows at h ⊢
  by_cases hname : f.name ∈ s.names
  · obtain ⟨first, hadd⟩ := add_of_taken scope owner hname
    rwa [hadd]
  · rw [add_of_free scope owner hname, List.filter_append, List.map_append, ← h]
    cases hgains : gainsShadows scope f <;> simp [merged, hgains, MergedField.name]

/-- A merged set lists the fields with shadows. -/
theorem listsShadows_merge (scope : Scope) (components : List ComponentDecl) :
    (merge scope components).1.ListsShadows scope := by
  have hrun : ∀ (fs : List (String × FieldDecl)) (state : FieldSet × List Diagnostic),
      state.1.ListsShadows scope → (addAll scope state fs).1.ListsShadows scope := by
    intro fs
    induction fs with
    | nil => exact fun _ h => h
    | cons f rest ih => exact fun _ h => ih _ (listsShadows_add h f.1 f.2)
  exact hrun (owned components) ({}, []) rfl

/-- The fields with shadows are those that gain them. -/
theorem syncValues_perm (hnames : s.names.Nodup) (hshadows : s.ListsShadows scope) :
    s.syncValues.Perm (s.fields.filter fun f => gainsShadows scope f.decl) := by
  have hfound : s.shadowed.filterMap s.get? = s.fields.filter fun f => gainsShadows scope f.decl := by
    rw [hshadows, List.filterMap_map]
    refine (List.filterMap_congr fun f hf => ?_).trans List.filterMap_some
    exact (get?_eq_some_iff hnames).2 ⟨(List.mem_filter.1 hf).1, rfl⟩
  rw [syncValues, hfound]
  exact List.mergeSort_perm _ _

theorem mem_syncValues_iff (hnames : s.names.Nodup) (hshadows : s.ListsShadows scope)
    {f : MergedField} : f ∈ s.syncValues ↔ f ∈ s.fields ∧ gainsShadows scope f.decl = true := by
  rw [(syncValues_perm hnames hshadows).mem_iff, List.mem_filter]

theorem isSyncValue_iff (hnames : s.names.Nodup) (hshadows : s.ListsShadows scope) {f : MergedField}
    (hf : f ∈ s.fields) : s.isSyncValue f.name = true ↔ gainsShadows scope f.decl = true := by
  simp only [isSyncValue, List.any_eq_true, mem_syncValues_iff hnames hshadows, beq_iff_eq]
  constructor
  · rintro ⟨g, ⟨hg, hgains⟩, hname⟩
    rwa [← List.inj_on_of_nodup_map hnames hg hf hname]
  · intro hgains
    exact ⟨f, ⟨hf, hgains⟩, rfl⟩

/-! ### Merging without duplicates -/

/-- A report of a field whose name is taken. -/
def ReportsDuplicate (entity : String) (report : Diagnostic) : Prop :=
  ∃ field first second anchor, report = .ofError (.duplicateField entity field first second) anchor

/-- A field becomes one of the set, unless it is reported that its name is taken. -/
theorem fields_add (scope : Scope) (s : FieldSet) (owner : String) (f : FieldDecl) :
    (∃ report ∈ (s.add scope owner f).2, ReportsDuplicate scope.entity report) ∨
      (s.add scope owner f).1.fields = s.fields ++ [merged scope owner f] := by
  by_cases hname : f.name ∈ s.names
  · obtain ⟨first, hadd⟩ := add_of_taken scope owner hname
    rw [hadd]
    exact .inl ⟨_, List.mem_singleton_self _, _, _, _, _, rfl⟩
  · right
    rw [add_of_free scope owner hname]

theorem mem_reports_addAll {state : FieldSet × List Diagnostic} {report : Diagnostic}
    (h : report ∈ state.2) (fs : List (String × FieldDecl)) : report ∈ (addAll scope state fs).2 := by
  induction fs generalizing state with
  | nil => exact h
  | cons f rest ih => exact ih (List.mem_append_left _ h)

theorem fields_addAll {state : FieldSet × List Diagnostic} {fs : List (String × FieldDecl)}
    (h : ∀ report ∈ (addAll scope state fs).2, ¬ReportsDuplicate scope.entity report) :
    (addAll scope state fs).1.fields = state.1.fields ++ fs.map fun f => merged scope f.1 f.2 := by
  induction fs generalizing state with
  | nil => exact (List.append_nil _).symm
  | cons f rest ih =>
    rcases fields_add scope state.1 f.1 f.2 with ⟨report, hreport, hduplicate⟩ | hf
    · have hmem : report ∈ (addAll scope state (f :: rest)).2 :=
        mem_reports_addAll (List.mem_append_right _ hreport) rest
      exact absurd hduplicate (h report hmem)
    · refine (ih h).trans ?_
      rw [hf, List.append_assoc, List.map_cons, List.singleton_append]

/-- Where no name is reported as taken, the set has all fields of the components, in order. -/
theorem fields_merge {components : List ComponentDecl}
    (h : ∀ report ∈ (merge scope components).2, ¬ReportsDuplicate scope.entity report) :
    (merge scope components).1.fields = (owned components).map fun f => merged scope f.1 f.2 :=
  fields_addAll h

theorem mem_owned_iff {components : List ComponentDecl} {owner : String} {f : FieldDecl} :
    (owner, f) ∈ owned components ↔
      ∃ c ∈ components, c.name = owner ∧ f ∈ c.fields ∧ f.imported = false := by
  simp only [owned, List.mem_flatMap, List.mem_map, List.mem_filter, Bool.not_eq_true', Prod.mk.injEq]
  constructor
  · rintro ⟨c, hc, g, ⟨hg, himported⟩, rfl, rfl⟩
    exact ⟨c, hc, rfl, hg, himported⟩
  · rintro ⟨c, hc, rfl, hf, himported⟩
    exact ⟨c, hc, f, ⟨hf, himported⟩, rfl, rfl⟩

/-- What an entity declares besides the shadows. -/
def ownDeclarations (s : FieldSet) : List SourceField :=
  (s.fields.filter (!·.hoisted)).map MergedField.toSource

/-- The shadows that an entity declares. -/
def shadows (s : FieldSet) : List SourceField :=
  s.shadowed.flatMap fun n => [shadow (targetShadow n), shadow (lastShadow n)]

theorem toSource_eq (s : FieldSet) : s.toSource = s.ownDeclarations ++ s.shadows := rfl

end FieldSet

end EntityWeaver
