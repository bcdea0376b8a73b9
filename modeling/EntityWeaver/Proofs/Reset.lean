import EntityWeaver.Proofs.Blueprint
import EntityWeaver.Proofs.Finish
import EntityWeaver.Proofs.Sorting

/-! What resetting a pooled entity restores.

    An entity that comes back from a pool has been used before. Its method `reset` goes through the
    fields of its components, in order of name, and gives each that can change the value that a new
    instance has in it:

        fields, declared or inherited      assigned once, unless static or final
        shadows of interpolated fields     not gone through

    So an entity goes on with the shadows of its life before, except where a field that can change is
    called like a shadow and starts with the same value. -/

namespace EntityWeaver

/-- The assignment of a value to a variable of the entity. -/
structure Assignment where
  name : String
  value : String
  deriving Repr, DecidableEq

/-- The statement that makes an assignment. -/
def Assignment.text (a : Assignment) : String := "this." ++ a.name ++ " = " ++ a.value ++ ";"

/-- The value that a new instance has in a declared field. -/
def SourceField.initial (g : SourceField) : Assignment :=
  ⟨g.name, g.initializer.getD (defaultValue g.type)⟩

/-- A variable is assigned once, and gets the value that it has in a new instance. -/
def SourceField.RestoredBy (g : SourceField) (assigned : List Assignment) : Prop :=
  assigned.filter (fun a => a.name == g.name) = [g.initial]

/-- Where no variable is assigned twice, those are restored whose assignment is there. -/
theorem SourceField.restoredBy_iff {assigned : List Assignment}
    (hnames : (assigned.map (·.name)).Nodup) {g : SourceField} :
    g.RestoredBy assigned ↔ g.initial ∈ assigned := by
  constructor
  · intro h
    have hmem : g.initial ∈ assigned.filter fun a => a.name == g.name := by
      rw [h]
      exact List.mem_singleton_self _
    exact List.mem_of_mem_filter hmem
  · intro h
    exact filter_key_eq hnames h

namespace FieldDecl

/-- The value that a new instance has in a field. -/
def initial (f : FieldDecl) : Assignment := ⟨f.name, f.initializer.getD (defaultValue f.type)⟩

/-- The field is one of an instance, and can change. -/
def isRestorable (f : FieldDecl) : Bool := !(f.isStatic || f.modifiers.isFinal)

end FieldDecl

/-- A declared field starts with the value of the field that it declares. -/
theorem SourceField.Declares.initial_eq {g : SourceField} {f : FieldDecl} (h : g.Declares f) :
    g.initial = f.initial := by
  rw [SourceField.initial, h.name, h.type, h.initializer]
  rfl

namespace FieldSet

variable {s : FieldSet}

/-- The fields that can be restored, whether the entity declares or inherits them. -/
def restorable (s : FieldSet) : List FieldDecl := s.decls.filter (·.isRestorable)

/-- The assignments that restore fields, in order of name. -/
def restoring (s : FieldSet) : List Assignment :=
  ((s.decls.mergeSort fun a b => a.name ≤ b.name).filter (·.isRestorable)).map (·.initial)

theorem restoring_perm (s : FieldSet) : s.restoring.Perm (s.restorable.map (·.initial)) :=
  ((List.mergeSort_perm _ _).filter _).map _

theorem mem_restoring_iff {a : Assignment} :
    a ∈ s.restoring ↔ ∃ field ∈ s.restorable, field.initial = a := by
  rw [s.restoring_perm.mem_iff, List.mem_map]

/-- No field is assigned twice. -/
theorem names_nodup_restoring (hnames : s.names.Nodup) : (s.restoring.map (·.name)).Nodup := by
  have hperm := s.restoring_perm.map (·.name)
  have hsublist : (s.restorable.map (·.name)).Sublist s.names := by
    have hdecls : s.names = s.decls.map (·.name) := by
      rw [decls, List.map_map]
      rfl
    rw [hdecls]
    exact List.filter_sublist.map _
  rw [List.map_map] at hperm
  exact hperm.nodup_iff.2 (hnames.sublist hsublist)

theorem restoredBy_restoring (hnames : s.names.Nodup) {g : SourceField} :
    g.RestoredBy s.restoring ↔ ∃ field ∈ s.restorable, field.initial = g.initial := by
  rw [SourceField.restoredBy_iff (names_nodup_restoring hnames), mem_restoring_iff]

end FieldSet

namespace Draft

variable {p : Project} {d : Draft} {h : Heading} {contracts : OrderedMap String Contract}
  {history : List Revision} {bases : OrderedMap String BaseClass} {f : Finished}

/-- The method that resets a pooled entity. -/
def resetMethod (d : Draft) : SourceMethod :=
  { SourceMethod.ofName "reset" "void" with
    modifiers := ["public"], annotations := ["@Override"]
    body := some ⟨d.fields.restoring.map fun a => ⟨0, a.text⟩, 0⟩ }

theorem resetMethod_mem_plumbing (hpooled : d.heading.blueprint.pooled = true)
    (declared : List Signature) (plans : List MethodPlan) :
    d.resetMethod ∈ d.plumbing declared plans := by
  unfold plumbing
  refine List.mem_append_left _ (List.mem_append_right _ ?_)
  rw [if_pos hpooled, List.mem_singleton]
  simp [resetMethod, FieldSet.restoring, FieldDecl.isRestorable, FieldDecl.initial, Assignment.text,
    CodeBlock.statements, CodeBlock.appendTexts, CodeBlock.empty, Function.comp_def]

/-- A pooled entity has a method that resets it. The method assigns every field that an instance has
    from its components, unless it is final, exactly once, and to the value of a new instance; the
    shadows, which the entity declares too, are left as they are unless such a field has the name and
    the value of one. -/
theorem reset_restores (hpooled : h.blueprint.pooled = true)
    (hf : (of p h).1.finish? p contracts history bases = some f) :
    let fields := f.entity.fields
    f.entity.type.fields = fields.ownDeclarations ++ fields.shadows ∧
      ∃ m ∈ f.entity.type.methods, ∃ assigned : List Assignment,
        m.name = "reset" ∧ m.params = [] ∧ m.returnType = some "void" ∧
        m.body = some ⟨assigned.map fun a => ⟨0, a.text⟩, 0⟩ ∧
        (∀ a ∈ assigned, ∃ field ∈ fields.restorable, field.initial = a) ∧
        (∀ field ∈ fields.restorable, ∀ g : SourceField, g.Declares field → g.RestoredBy assigned) ∧
        ∀ g ∈ fields.shadows,
          (g.RestoredBy assigned ↔ ∃ field ∈ fields.restorable, field.initial = g.initial) := by
  intro fields
  have hfinished := finish?_eq_some hf
  have hfields : fields = (of p h).1.fields := hfinished.fields
  have hnames : fields.names.Nodup := hfields ▸ names_nodup_of p h
  have hreset : (of p h).1.resetMethod ∈ f.entity.type.methods :=
    mem_methods_of_mem_plumbing hf (resetMethod_mem_plumbing hpooled _ _)
  refine ⟨?_, _, hreset, fields.restoring, rfl, rfl, rfl, ?_, ?_, ?_, ?_⟩
  · rw [hfinished.type_eq.2.2, ← hfields, FieldSet.toSource_eq]
  · rw [hfields]
    rfl
  · exact fun a ha => FieldSet.mem_restoring_iff.1 ha
  · intro field hfield g hg
    exact (FieldSet.restoredBy_restoring hnames).2 ⟨field, hfield, hg.initial_eq.symm⟩
  · exact fun g _ => FieldSet.restoredBy_restoring hnames

/-- A turret comes from a pool, and its rotation moves between two updates. -/
def pooledBlueprint : BlueprintDecl :=
  { name := some "Turret", components := ["TurretComp", "SyncComp"], genIo := false, pooled := true }

def pooledTurret : Snapshot where
  components := [
    { name := "SyncComp" },
    { name := "TurretComp"
      fields := [{ name := "rotation", type := "float", initializer := some "90f"
                   sync := { interpolate := some .angular } }] }]
  blueprints := [pooledBlueprint]

def pooledProject : Project := .ofSnapshot sampleSettings pooledTurret

def pooledHeading : Heading := ⟨pooledBlueprint, "Turret", none⟩

theorem resolve_pooledTurret : pooledProject.catalog.resolve pooledHeading.blueprint.components =
    ["TurretComp", "SyncComp"] :=
  Catalog.resolve_of_edgesFrom_eq_nil
    (List.forall_mem_cons.2 ⟨rfl, List.forall_mem_singleton.2 rfl⟩)

theorem restoring_pooledTurret : (of pooledProject pooledHeading).1.fields.restoring =
    [⟨"rotation", "90f"⟩] := by
  have hdecls : (of pooledProject pooledHeading).1.fields.decls =
      [{ name := "rotation", type := "float", initializer := some "90f"
         sync := { interpolate := some .angular } }] := by
    unfold Draft.of
    rw [resolve_pooledTurret]
    rfl
  rw [FieldSet.restoring, hdecls, List.mergeSort_singleton]
  rfl

/-- The turret is composed without mistakes. Its instances have three fields. -/
theorem finish_pooledTurret : ∃ f, Heading.of pooledProject pooledBlueprint = .ok pooledHeading ∧
    (of pooledProject pooledHeading).2 = [] ∧
    (of pooledProject pooledHeading).1.finish? pooledProject (Contract.all pooledProject) []
      (BaseClass.all pooledProject) = some f ∧ f.reports = [] ∧
    f.entity.fields.shadowed = ["rotation"] ∧
    f.entity.type.fields.map (·.name) = ["rotation", "rotation_target", "rotation_last"] ∧
    f.entity.type.methods.map (·.name) =
      ["toString", "serialize", "reset", "Turret", "create", "classId", "rotation", "rotation"] := by
  unfold Draft.of
  rw [resolve_pooledTurret]
  exact ⟨_, rfl, rfl, rfl, rfl, rfl, rfl, rfl⟩

theorem reset_restores_turret : ∃ f, pooledHeading.blueprint.pooled = true ∧
    (of pooledProject pooledHeading).1.finish? pooledProject (Contract.all pooledProject) []
      (BaseClass.all pooledProject) = some f ∧
    ∃ m ∈ f.entity.type.methods, ∃ assigned : List Assignment, m.name = "reset" ∧
      m.body = some ⟨assigned.map fun a => ⟨0, a.text⟩, 0⟩ ∧
      ∀ field ∈ f.entity.fields.restorable, ∀ g : SourceField, g.Declares field →
        g.RestoredBy assigned := by
  obtain ⟨f, -, -, hfinish, -⟩ := finish_pooledTurret
  obtain ⟨-, m, hm, assigned, hname, -, -, hbody, -, hrestored, -⟩ := reset_restores rfl hfinish
  exact ⟨f, rfl, hfinish, m, hm, assigned, hname, hbody, hrestored⟩

/-- The only method that resets the turret leaves both shadows of its rotation as they are. -/
theorem turret_shadows_kept : ∃ f, (of pooledProject pooledHeading).2 = [] ∧
    (of pooledProject pooledHeading).1.finish? pooledProject (Contract.all pooledProject) []
      (BaseClass.all pooledProject) = some f ∧ f.reports = [] ∧
    f.entity.type.fields.map (·.name) = ["rotation", "rotation_target", "rotation_last"] ∧
    (f.entity.type.methods.map (·.name)).count "reset" = 1 ∧
    (∃ m ∈ f.entity.type.methods, m.name = "reset" ∧
      m.body = some ⟨[⟨0, "this.rotation = 90f;"⟩], 0⟩) ∧
    f.entity.fields.shadows =
      [FieldSet.shadow "rotation_target", FieldSet.shadow "rotation_last"] ∧
    ∀ g ∈ f.entity.fields.shadows, ¬g.RestoredBy [⟨"rotation", "90f"⟩] := by
  obtain ⟨f, -, hdraft, hfinish, hreports, hshadowed, hfields, hmethods⟩ := finish_pooledTurret
  have hreset : (of pooledProject pooledHeading).1.resetMethod ∈ f.entity.type.methods :=
    mem_methods_of_mem_plumbing hfinish (resetMethod_mem_plumbing rfl _ _)
  have hshadows : f.entity.fields.shadows =
      [FieldSet.shadow "rotation_target", FieldSet.shadow "rotation_last"] := by
    rw [FieldSet.shadows, hshadowed]
    rfl
  refine ⟨f, hdraft, hfinish, hreports, hfields, ?_, ⟨_, hreset, rfl, ?_⟩, hshadows, ?_⟩
  · rw [hmethods]
    decide
  · rw [resetMethod, restoring_pooledTurret]
    rfl
  · rw [hshadows]
    unfold SourceField.RestoredBy
    decide

end Draft

end EntityWeaver
