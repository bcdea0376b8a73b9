import EntityWeaver.Proofs.Codec.Frame
import EntityWeaver.Proofs.Except
import EntityWeaver.Proofs.SortedMap
import EntityWeaver.Proofs.Sorting
import Mathlib

/-! Encoded fields are decoded, however they are declared.

    Fields of different names have one stream order, however they were declared, so both sides lay the
    values out alike. Encoding looks each value up and checks its type; decoding checks the type again
    and puts the value back under the name of its place. -/

namespace EntityWeaver

namespace FieldDecl

variable {xs ys : List FieldDecl}

/-- The order of declarations does not reach the stream. -/
theorem serialized_perm (h : xs.Perm ys) (hnames : (xs.map (·.name)).Nodup) :
    serialized xs = serialized ys := by
  refine (Ordered.names.on name).mergeSort_eq_of_perm (h.filter _) fun a ha b hb hab hba => ?_
  have hname : a.name = b.name :=
    String.le_antisymm (decide_eq_true_iff.1 hab) (decide_eq_true_iff.1 hba)
  exact List.inj_on_of_nodup_map hnames (List.mem_of_mem_filter ha) (List.mem_of_mem_filter hb)
    hname

theorem serialized_names_nodup (hnames : (xs.map (·.name)).Nodup) :
    ((serialized xs).map (·.name)).Nodup := by
  have hsorted : (serialized xs).Perm (xs.filter isSerialized) := List.mergeSort_perm _ _
  exact (hsorted.map _).nodup_iff.2 (hnames.sublist (List.filter_sublist.map _))

end FieldDecl

namespace CodecTable

variable {t : CodecTable} {f : FieldDecl} {fields : List FieldDecl} {values : FieldValues}

/-- A value is of the type that carries the field. -/
def Carries (t : CodecTable) (f : FieldDecl) (v : FieldValue) : Prop :=
  t.primitiveOf f = .ok v.primitive

theorem checked_eq_ok {v w : FieldValue} : t.checked f v = .ok w ↔ t.Carries f v ∧ v = w := by
  rw [checked, bind_eq_ok, Carries]
  constructor
  · rintro ⟨expected, hexpected, h⟩
    split at h
    · next htype =>
      cases h
      exact ⟨htype ▸ hexpected, rfl⟩
    · cases h
  · rintro ⟨htype, rfl⟩
    exact ⟨_, htype, if_pos rfl⟩

theorem valueOf_eq_ok {v : FieldValue} :
    t.valueOf values f = .ok v ↔ t.Carries f v ∧ values.get? f.name = some v := by
  rw [valueOf, bind_eq_ok]
  constructor
  · rintro ⟨_, _, h⟩
    split at h
    · cases h
    · next hvalue =>
      obtain ⟨htype, rfl⟩ := checked_eq_ok.1 h
      exact ⟨htype, hvalue⟩
  · rintro ⟨htype, hvalue⟩
    refine ⟨_, htype, ?_⟩
    rw [hvalue]
    exact checked_eq_ok.2 ⟨htype, rfl⟩

/-- Encoding takes the value of each serialized field, of the type that carries it. -/
theorem encodeFields_eq_ok {revision : UInt16} {bytes : Bytes} :
    t.encodeFields revision fields values = .ok bytes ↔
      ∃ vs, List.Forall₂ (fun f v => t.Carries f v ∧ values.get? f.name = some v)
        (FieldDecl.serialized fields) vs ∧ (Frame.mk revision vs).encode = bytes := by
  rw [encodeFields, bind_eq_ok]
  simp only [mapM_eq_ok, valueOf_eq_ok, pure, Except.pure, Except.ok.injEq]

/-- Values are put back under the names of their places. -/
theorem mapM_checked_eq_ok {layout : List FieldDecl} {vs : List FieldValue}
    {es : List (String × FieldValue)} :
    ((layout.zip vs).mapM fun (f, v) => (t.checked f v).map (f.name, ·)) = .ok es ↔
      (∀ p ∈ layout.zip vs, t.Carries p.1 p.2) ∧ (layout.map (·.name)).zip vs = es := by
  have hentry : ∀ (p : FieldDecl × FieldValue) (e : String × FieldValue),
      (t.checked p.1 p.2).map (p.1.name, ·) = .ok e ↔ t.Carries p.1 p.2 ∧ (p.1.name, p.2) = e := by
    intro p e
    simp only [map_eq_ok, checked_eq_ok, and_assoc, exists_and_left, exists_eq_left']
  rw [mapM_eq_ok]
  simp only [hentry, List.forall₂_and_left]
  rw [← List.forall₂_map_left_iff (f := fun p : FieldDecl × FieldValue => (p.1.name, p.2)),
    List.forall₂_eq_eq_eq, List.zip_map_left]
  rfl

/-- Decoding takes a frame with a value for each serialized field, of the type that carries it. -/
theorem decodeFields_eq_ok {bytes : Bytes} {result : UInt16 × FieldValues} :
    t.decodeFields fields bytes = .ok result ↔
      ∃ frame, Frame.decode? bytes = some frame ∧
        List.Forall₂ t.Carries (FieldDecl.serialized fields) frame.values ∧
        (frame.revision,
          .ofList (((FieldDecl.serialized fields).map (·.name)).zip frame.values)) = result := by
  rw [decodeFields]
  cases Frame.decode? bytes with
  | none => simp
  | some frame =>
    dsimp only
    by_cases hsize : (FieldDecl.serialized fields).length = frame.values.length
    · rw [if_neg (not_not.2 hsize), bind_eq_ok]
      simp [mapM_checked_eq_ok, List.forall₂_iff_zip, hsize, pure, Except.pure]
    · rw [if_pos hsize, bind_eq_ok]
      constructor
      · rintro ⟨_, herror, _⟩
        cases herror
      · rintro ⟨_, hframe, hvalues, _⟩
        cases hframe
        exact absurd hvalues.length_eq hsize

/-- What was encoded is decoded: the revision, and the values of the serialized fields. -/
theorem decodeFields_of_encodeFields {fields' : List FieldDecl} {revision : UInt16} {bytes : Bytes}
    (hperm : fields.Perm fields') (hnames : (fields.map (·.name)).Nodup)
    (hsize : (FieldDecl.serialized fields).length < 2 ^ 32)
    (hfits : ∀ f ∈ FieldDecl.serialized fields, ∀ v, values.get? f.name = some v → v.Fits)
    (h : t.encodeFields revision fields values = .ok bytes) :
    t.decodeFields fields' bytes =
      .ok (revision, values.restrict ((FieldDecl.serialized fields).map (·.name))) := by
  obtain ⟨vs, hvs, rfl⟩ := encodeFields_eq_ok.1 h
  have hlength : (FieldDecl.serialized fields).length = vs.length := hvs.length_eq
  have hframe : Frame.decode? (Frame.mk revision vs).encode = some ⟨revision, vs⟩ := by
    refine Frame.decode?_encode _ (hlength ▸ hsize) fun v hv => ?_
    rw [← List.map_snd_zip hlength.ge, List.mem_map] at hv
    obtain ⟨⟨f, v⟩, hp, rfl⟩ := hv
    exact hfits f (List.of_mem_zip hp).1 v (List.forall₂_zip hvs hp).2
  refine decodeFields_eq_ok.2 ⟨_, hframe, ?_, ?_⟩
  · rw [← FieldDecl.serialized_perm hperm hnames]
    exact hvs.imp fun _ _ => And.left
  · rw [← FieldDecl.serialized_perm hperm hnames]
    have hkeys : (((FieldDecl.serialized fields).map (·.name)).zip vs).map (·.1) =
        (FieldDecl.serialized fields).map (·.name) :=
      List.map_fst_zip (by simp [hlength])
    have hdistinct := FieldDecl.serialized_names_nodup hnames
    rw [SortedMap.ofList_eq_restrict (m := values) (by rwa [hkeys]), hkeys]
    intro e he
    rw [List.zip_map_left, List.mem_map] at he
    obtain ⟨⟨f, v⟩, hp, rfl⟩ := he
    exact (List.forall₂_zip hvs hp).2

/-- The fields of a unit, one of which is not saved. -/
def unitFields : List FieldDecl :=
  [{ name := "kills", type := "int" },
    { name := "timer", type := "float", modifiers := { transient := true } },
    { name := "name", type := "String" }]

/-- Values of a unit, with one that no field asks for. -/
def unitValues : FieldValues :=
  .ofList [("name", .str "dagger"), ("kills", .int (-300)), ("age", .byte 3)]

theorem decodeFields_of_encodeFields_unit :
    CodecTable.decodeFields {} unitFields.reverse
        [0x92, 0x07, 0x92, 0x81, 0xa3, 0x49, 0x6e, 0x74, 0xd1, 0xfe, 0xd4, 0x81, 0xa3, 0x53, 0x74,
          0x72, 0xa6, 0x64, 0x61, 0x67, 0x67, 0x65, 0x72] =
      .ok (7, unitValues.restrict ((FieldDecl.serialized unitFields).map (·.name))) := by
  have hfits : ∀ e ∈ unitValues.entries, e.2.Fits := by decide
  exact decodeFields_of_encodeFields (List.reverse_perm unitFields).symm (by decide) (by cbv)
    (fun f _ v hv => hfits (f.name, v) ((SortedMap.mem_entries_iff _ _ _).2 hv)) (by cbv)

end CodecTable

end EntityWeaver
