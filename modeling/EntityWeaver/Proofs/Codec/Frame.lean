import EntityWeaver.Codec.Value
import EntityWeaver.Proofs.Codec.Reading

/-! A frame is read back from its bytes.

    The tag of a value says which reading applies to its payload, and that reading accepts whatever
    the payload of such a value comes back as: the form of an integer may change, its value does not,
    and floating-point patterns of their own format are not converted. Texts and lists have to leave
    room for their sizes. -/

namespace EntityWeaver

open MessagePack (ReadsAs)

variable (depth : Nat)

namespace FieldValue

/-- A text leaves room for its size. -/
def Fits : FieldValue → Prop
  | .str s => s.utf8ByteSize < 2 ^ 32
  | _ => True

instance : DecidablePred Fits
  | .str s => inferInstanceAs (Decidable (s.utf8ByteSize < 2 ^ 32))
  | .bool _ | .byte _ | .short _ | .int _ | .long _ | .float _ | .double _ => .isTrue trivial

end FieldValue

namespace MessagePack

theorem readsAs_ofString {depth : Nat} {s : String} (h : s.utf8ByteSize < 2 ^ 32) :
    ReadsAs depth (ofString s) (ofString s) :=
  readsAs_str (by simpa using h)

theorem string?_ofString (s : String) : (ofString s).string? = some s :=
  dif_pos s.isValidUTF8

/-- An integer of so many bits is read in some form that keeps its value. -/
theorem exists_readsAs_signed {bits : Nat} {n : Int} (hbits : bits ≤ 64)
    (hleast : -2 ^ (bits - 1) ≤ n) (hmost : n < 2 ^ (bits - 1)) :
    ∃ w, ReadsAs depth (.signed n) w ∧ w.signed? bits = some n := by
  have hwidest : (2 : Int) ^ (bits - 1) ≤ 2 ^ 63 := by
    exact_mod_cast Nat.pow_le_pow_right (show 0 < 2 by decide) (show bits - 1 ≤ 63 by omega)
  have hread : ∃ w, ReadsAs depth (.signed n) w ∧ w.int? = some n := by
    cases n with
    | ofNat m =>
      have hm : (m : Int) < 2 ^ (bits - 1) := hmost
      exact ⟨.unsigned m, readsAs_natural (by omega), rfl⟩
    | negSucc m => exact ⟨.signed (.negSucc m), readsAs_negative (by omega), rfl⟩
  obtain ⟨w, hw, hint⟩ := hread
  refine ⟨w, hw, ?_⟩
  rw [signed?, intWithin?, hint, Option.filter_some, Nat.one_shiftLeft, if_pos]
  simp only [Nat.cast_pow, Nat.cast_ofNat, Bool.and_eq_true, decide_eq_true_eq]
  omega

end MessagePack

theorem Primitive.ofTag?_ofString (p : Primitive) : ofTag? (.ofString p.tag) = some p := by
  cases p <;> rfl

theorem Primitive.utf8ByteSize_tag_lt (p : Primitive) : p.tag.utf8ByteSize < 2 ^ 32 := by
  cases p <;> decide

namespace FieldValue

open MessagePack

variable {v : FieldValue}

theorem exists_readsAs_payload (h : v.Fits) :
    ∃ w, ReadsAs depth v.payload w ∧ ofPayload? v.primitive w = some v := by
  cases v with
  | bool b => exact ⟨.bool b, readsAs_bool b, rfl⟩
  | byte n =>
    obtain ⟨w, hw, hn⟩ := exists_readsAs_signed depth (show 8 ≤ 64 by decide) n.le_toInt n.toInt_lt
    exact ⟨w, hw, by simp [primitive, ofPayload?, hn]⟩
  | short n =>
    obtain ⟨w, hw, hn⟩ := exists_readsAs_signed depth (show 16 ≤ 64 by decide) n.le_toInt n.toInt_lt
    exact ⟨w, hw, by simp [primitive, ofPayload?, hn]⟩
  | int n =>
    obtain ⟨w, hw, hn⟩ := exists_readsAs_signed depth (show 32 ≤ 64 by decide) n.le_toInt n.toInt_lt
    exact ⟨w, hw, by simp [primitive, ofPayload?, hn]⟩
  | long n =>
    obtain ⟨w, hw, hn⟩ := exists_readsAs_signed depth (show 64 ≤ 64 by decide) n.le_toInt n.toInt_lt
    exact ⟨w, hw, by simp [primitive, ofPayload?, hn]⟩
  | float bits =>
    refine ⟨.single bits, readsAs_single bits, ?_⟩
    simp [primitive, ofPayload?, float?]
  | double bits =>
    refine ⟨.double bits, readsAs_double bits, ?_⟩
    simp [primitive, ofPayload?, float?]
  | str s =>
    refine ⟨.ofString s, readsAs_ofString h, ?_⟩
    rw [primitive, ofPayload?, string?_ofString]
    rfl

theorem exists_readsAs_pack (h : v.Fits) :
    ∃ w, ReadsAs (depth + 1) v.pack w ∧ ofPack? w = some v := by
  obtain ⟨w, hw, hv⟩ := exists_readsAs_payload depth h
  have htag : ReadsAs depth (ofString v.primitive.tag) (ofString v.primitive.tag) :=
    readsAs_ofString v.primitive.utf8ByteSize_tag_lt
  refine ⟨_, readsAs_entry htag hw, ?_⟩
  rw [ofPack?, Primitive.ofTag?_ofString, Option.bind_some, hv]

theorem exists_readsAs_packs {vs : List FieldValue} (h : ∀ v ∈ vs, v.Fits) :
    ∃ ws, List.Forall₂ (ReadsAs (depth + 1)) (vs.map pack) ws ∧ ws.mapM ofPack? = some vs := by
  induction vs with
  | nil => exact ⟨[], .nil, rfl⟩
  | cons v vs ih =>
    obtain ⟨w, hw, hv⟩ := exists_readsAs_pack depth (h v List.mem_cons_self)
    obtain ⟨ws, hws, hvs⟩ := ih fun v hv => h v (List.mem_cons_of_mem _ hv)
    exact ⟨w :: ws, .cons hw hws, by simp [hv, hvs]⟩

end FieldValue

/-- A frame comes back from its bytes, and from any that start with them. -/
theorem Frame.decode?_encode_append (f : Frame) (rest : Bytes)
    (hsize : f.values.length < 2 ^ 32) (hfits : ∀ v ∈ f.values, v.Fits) :
    Frame.decode? (f.encode ++ rest) = some f := by
  obtain ⟨ws, hws, hvalues⟩ := FieldValue.exists_readsAs_packs 1020 hfits
  have hrevision : f.revision.toNat < 2 ^ 16 := f.revision.toNat_lt
  have hread : ReadsAs MessagePack.depthLimit f.pack
      (.array [.unsigned f.revision.toNat, .array ws]) :=
    MessagePack.readsAs_array (.cons (MessagePack.readsAs_unsigned (by omega))
      (.cons (MessagePack.readsAs_array hws (by simpa using hsize)) .nil)) (by simp)
  rw [decode?, encode, MessagePack.decode?, hread, Option.bind_some]
  show ofParts? (.unsigned f.revision.toNat) (.array ws) = some f
  simp only [ofParts?, MessagePack.intWithin?, MessagePack.int?, MessagePack.items?, hvalues,
    Option.filter_some, Option.bind_eq_bind, Option.bind_some, Option.pure_def]
  rw [if_pos (by simp; omega)]
  simp

theorem Frame.decode?_encode (f : Frame) (hsize : f.values.length < 2 ^ 32)
    (hfits : ∀ v ∈ f.values, v.Fits) : Frame.decode? f.encode = some f := by
  simpa using f.decode?_encode_append [] hsize hfits

end EntityWeaver
