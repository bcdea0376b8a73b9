import EntityWeaver.Proofs.Codec.Fields
import Mathlib

/-! Decoding brings a frame into its normal form.

    Bytes of many forms are read: a frame may be a map, an integer longer than it has to be, a number
    may stand for a floating-point value of another width, a text may come as a blob, and anything may
    follow. What they are read as knows nothing of the form. Sizes were read from at most four bytes,
    so each value leaves room for its own, and a frame that has been read is read back from its bytes:

        bytes ──decode──▶ frame ──encode──▶ normal bytes
                            ▲                   │
                            └──────decode───────┘

    Hence decoded fields can be encoded, and they are decoded to the same values again. -/

namespace EntityWeaver
namespace MessagePack

/-- Some bytes are read as the value. -/
def IsRead (v : MessagePack) : Prop := ∃ depth bytes rest, decodeWithin depth bytes = some (v, rest)

/-- The sizes in a value leave room for themselves, and what it holds has been read as well. -/
def Measured : MessagePack → Prop
  | .str content | .bin content => content.length < 2 ^ 32
  | .array items => items.length < 2 ^ 32 ∧ ∀ v ∈ items, IsRead v
  | .map entries => ∀ e ∈ entries, IsRead e.1 ∧ IsRead e.2
  | _ => True

variable {bytes rest : Bytes} {v : MessagePack}

theorem ofBigEndian_lt (bytes : Bytes) : ofBigEndian bytes < 256 ^ bytes.length := by
  induction bytes using List.reverseRecOn with
  | nil => decide
  | append_singleton bytes b ih =>
    have hb : b.toNat < 256 := b.toNat_lt
    rw [ofBigEndian, List.foldl_concat, ← ofBigEndian, List.length_append, List.length_singleton,
      Nat.pow_succ]
    omega

theorem length_of_split? {size : Nat} {content : Bytes}
    (h : split? size bytes = some (content, rest)) : content.length = size := by
  rw [split?] at h
  split at h
  · next hsize =>
    simp only [List.splitAt_eq, Option.some.injEq, Prod.mk.injEq] at h
    rw [← h.1, List.length_take_of_le hsize]
  · cases h

theorem lt_of_number? {width n : Nat} (h : number? width bytes = some (n, rest)) :
    n < 256 ^ width := by
  obtain ⟨⟨head, _⟩, hsplit, heq⟩ := Option.map_eq_some_iff.1 h
  obtain ⟨rfl, rfl⟩ := Prod.mk.inj heq
  exact length_of_split? hsplit ▸ ofBigEndian_lt head

theorem length_lt_of_sized? {width : Nat} {content : Bytes}
    (h : sized? width bytes = some (content, rest)) : content.length < 256 ^ width := by
  obtain ⟨⟨size, _⟩, hsize, h⟩ := Option.bind_eq_some_iff.1 h
  rw [length_of_split? h]
  exact lt_of_number? hsize

/-- So many items are read, each of them from some bytes. -/
theorem times?_eq_some {α : Type} {item? : Bytes → Option (α × Bytes)} {n : Nat} {xs : List α}
    (h : times? item? n bytes = some (xs, rest)) :
    xs.length = n ∧ ∀ x ∈ xs, ∃ b r, item? b = some (x, r) := by
  induction n generalizing bytes xs with
  | zero =>
    cases h
    exact ⟨rfl, fun _ hx => nomatch hx⟩
  | succ n ih =>
    obtain ⟨⟨x, after⟩, hx, h⟩ := Option.bind_eq_some_iff.1 h
    obtain ⟨⟨xs, _⟩, hxs, h⟩ := Option.bind_eq_some_iff.1 h
    cases h
    obtain ⟨hlength, hread⟩ := ih hxs
    exact ⟨congrArg Nat.succ hlength, List.forall_mem_cons.2 ⟨⟨_, _, hx⟩, hread⟩⟩

variable {depth size : Nat}

theorem measured_array (hsize : size < 2 ^ 32)
    (h : (match depth with
      | 0 => none
      | depth + 1 => (times? (decodeWithin depth) size bytes).map fun (vs, rest) => (array vs, rest)) =
        some (v, rest)) : Measured v := by
  cases depth with
  | zero => cases h
  | succ depth =>
    obtain ⟨⟨items, _⟩, hitems, heq⟩ := Option.map_eq_some_iff.1 h
    cases heq
    obtain ⟨hlength, hread⟩ := times?_eq_some hitems
    exact ⟨hlength ▸ hsize, fun v hv => ⟨depth, hread v hv⟩⟩

theorem measured_map
    (h : (match depth with
      | 0 => none
      | depth + 1 =>
        (times? (pair? (decodeWithin depth)) size bytes).map fun (es, rest) => (map es, rest)) =
        some (v, rest)) : Measured v := by
  cases depth with
  | zero => cases h
  | succ depth =>
    obtain ⟨⟨entries, _⟩, hentries, heq⟩ := Option.map_eq_some_iff.1 h
    cases heq
    intro e he
    obtain ⟨_, _, hpair⟩ := (times?_eq_some hentries).2 e he
    obtain ⟨⟨key, _⟩, hkey, hpair⟩ := Option.bind_eq_some_iff.1 hpair
    obtain ⟨⟨value, _⟩, hvalue, hpair⟩ := Option.bind_eq_some_iff.1 hpair
    cases hpair
    exact ⟨⟨depth, _, _, hkey⟩, ⟨depth, _, _, hvalue⟩⟩

theorem measured_ext
    (h : (match depth with
      | 0 => none
      | _ + 1 => (split? (size + 1) bytes).map fun (_, rest) => (ext, rest)) = some (v, rest)) :
    Measured v := by
  cases depth with
  | zero => cases h
  | succ depth =>
    obtain ⟨_, _, heq⟩ := Option.map_eq_some_iff.1 h
    cases heq
    trivial

theorem measured_sized {width : Nat} (hwidth : width ≤ 4) {f : Bytes → MessagePack}
    (hf : ∀ content, Measured (f content) ↔ content.length < 2 ^ 32)
    (h : ((sized? width bytes).map fun (s, rest) => (f s, rest)) = some (v, rest)) : Measured v := by
  obtain ⟨⟨content, _⟩, hcontent, heq⟩ := Option.map_eq_some_iff.1 h
  cases heq
  have hmost : 256 ^ width ≤ 256 ^ 4 := Nat.pow_le_pow_right (by decide) hwidth
  exact (hf content).2 (lt_of_lt_of_le (length_lt_of_sized? hcontent) hmost)

/-- Whatever the form of a value, its sizes were read from at most four bytes. -/
theorem IsRead.measured (h : IsRead v) : Measured v := by
  obtain ⟨depth, bytes, rest, h⟩ := h
  cases bytes with
  | nil =>
    rw [decodeWithin_nil] at h
    cases h
  | cons head bytes =>
    rw [decodeWithin] at h
    dsimp only at h
    have hhead : head.toNat < 256 := head.toNat_lt
    split_ifs at h
    · cases h
      trivial
    · exact measured_map h
    · exact measured_array (by omega) h
    · obtain ⟨⟨content, _⟩, hcontent, heq⟩ := Option.map_eq_some_iff.1 h
      cases heq
      have hlength := length_of_split? hcontent
      show content.length < 2 ^ 32
      omega
    · cases h
      trivial
    · -- The remaining heads, in the order of their codes.
      split at h
      case h_1 | h_2 | h_3 => cases h; trivial
      case h_4 | h_5 | h_6 => exact measured_sized (by decide) (fun _ => Iff.rfl) h
      case h_7 | h_8 | h_9 =>
        obtain ⟨_, _, h⟩ := Option.bind_eq_some_iff.1 h
        exact measured_ext h
      case h_20 | h_21 | h_22 | h_23 | h_24 => exact measured_ext h
      case h_25 | h_26 | h_27 => exact measured_sized (by decide) (fun _ => Iff.rfl) h
      case h_28 | h_29 =>
        obtain ⟨_, hsize, h⟩ := Option.bind_eq_some_iff.1 h
        exact measured_array (lt_of_lt_of_le (lt_of_number? hsize) (by decide)) h
      case h_30 | h_31 =>
        obtain ⟨_, _, h⟩ := Option.bind_eq_some_iff.1 h
        exact measured_map h
      case h_32 => cases h
      all_goals
        obtain ⟨_, _, heq⟩ := Option.map_eq_some_iff.1 h
        cases heq
        trivial

/-- A text that has been read, also as a blob, leaves room for its size. -/
theorem IsRead.utf8ByteSize_lt {text : String} (h : IsRead v) (htext : v.string? = some text) :
    text.utf8ByteSize < 2 ^ 32 := by
  have hsize : ∀ content : Bytes, content.length < 2 ^ 32 →
      String.fromUTF8? ⟨content.toArray⟩ = some text → text.utf8ByteSize < 2 ^ 32 := by
    intro content hcontent h
    rw [String.fromUTF8?] at h
    split at h
    · cases h
      exact hcontent
    · cases h
  cases v with
  | str content => exact hsize content h.measured htext
  | bin content => exact hsize content h.measured htext
  | _ => cases htext

end MessagePack

namespace FieldValue

open MessagePack

variable {w : MessagePack} {v : FieldValue}

theorem fits_of_ofPayload? {p : Primitive} (h : IsRead w) (hv : ofPayload? p w = some v) :
    v.Fits := by
  cases p with
  | str =>
    obtain ⟨text, htext, rfl⟩ := Option.map_eq_some_iff.1 hv
    exact h.utf8ByteSize_lt htext
  | bool =>
    cases w <;> cases hv
    trivial
  | _ =>
    obtain ⟨_, _, rfl⟩ := Option.map_eq_some_iff.1 hv
    trivial

/-- A value that has been read leaves room for its size. -/
theorem fits_of_ofPack? (h : IsRead w) (hv : ofPack? w = some v) : v.Fits := by
  rw [ofPack?.eq_def] at hv
  split at hv
  · next tag payload =>
    obtain ⟨p, _, hv⟩ := Option.bind_eq_some_iff.1 hv
    exact fits_of_ofPayload? (h.measured _ List.mem_cons_self).2 hv
  · cases hv

end FieldValue

namespace Frame

open MessagePack

variable {w : MessagePack} {frame : Frame}

/-- The items of an array have been read themselves; those of a blob are its bytes. -/
theorem isRead_or_byte_of_items? {items : List MessagePack} (h : IsRead w)
    (hitems : w.items? = some items) :
    items.length < 2 ^ 32 ∧ ∀ p ∈ items, IsRead p ∨ ∃ n, p = .unsigned n := by
  cases w with
  | array items' =>
    cases hitems
    obtain ⟨hsize, hread⟩ := h.measured
    exact ⟨hsize, fun p hp => .inl (hread p hp)⟩
  | bin content =>
    cases hitems
    refine ⟨?_, fun p hp => ?_⟩
    · rw [List.length_map]
      exact h.measured
    · obtain ⟨b, _, rfl⟩ := List.mem_map.1 hp
      exact .inr ⟨_, rfl⟩
  | _ => cases hitems

theorem bounds_of_ofParts? {revision values : MessagePack} (h : IsRead values)
    (hframe : ofParts? revision values = some frame) :
    frame.values.length < 2 ^ 32 ∧ ∀ v ∈ frame.values, v.Fits := by
  obtain ⟨_, _, hframe⟩ := Option.bind_eq_some_iff.1 hframe
  obtain ⟨items, hitems, hframe⟩ := Option.bind_eq_some_iff.1 hframe
  obtain ⟨vs, hvs, hframe⟩ := Option.bind_eq_some_iff.1 hframe
  cases hframe
  obtain ⟨hsize, hread⟩ := isRead_or_byte_of_items? h hitems
  have hvalues := mapM_eq_some.1 hvs
  refine ⟨hvalues.length_eq ▸ hsize, fun v hv => ?_⟩
  obtain ⟨p, hp, hpack⟩ := exists_of_forall₂ hvalues.flip hv
  rcases hread p hp with hread | ⟨n, rfl⟩
  · exact FieldValue.fits_of_ofPack? hread hpack
  · -- A byte is no tagged value.
    cases hpack

theorem bounds_of_ofPack? (h : IsRead w) (hframe : ofPack? w = some frame) :
    frame.values.length < 2 ^ 32 ∧ ∀ v ∈ frame.values, v.Fits := by
  rw [ofPack?.eq_def] at hframe
  split at hframe
  · exact bounds_of_ofParts? (h.measured.2 _ (by simp)) hframe
  · next entries =>
    obtain ⟨parts, hparts, hframe⟩ := Option.bind_eq_some_iff.1 hframe
    split at hframe
    · next values _ hvalues =>
      have hpart : (_, values) ∈ parts :=
        List.mem_of_mem_filter (hvalues ▸ List.mem_singleton_self _)
      obtain ⟨e, he, hentry⟩ := exists_of_forall₂ (mapM_eq_some.1 hparts).flip hpart
      obtain ⟨_, _, heq⟩ := Option.map_eq_some_iff.1 hentry
      cases heq
      exact bounds_of_ofParts? (h.measured e he).2 hframe
    · cases hframe
  · cases hframe

/-- A frame that has been read is read back from its own bytes. -/
theorem decode?_encode_of_decode? {bytes : Bytes} (h : decode? bytes = some frame) :
    decode? frame.encode = some frame := by
  obtain ⟨⟨p, rest⟩, hread, hframe⟩ := Option.bind_eq_some_iff.1 h
  obtain ⟨hsize, hfits⟩ := bounds_of_ofPack? ⟨_, _, _, hread⟩ hframe
  exact decode?_encode frame hsize hfits

end Frame

namespace CodecTable

variable {t : CodecTable} {f : FieldDecl} {fields : List FieldDecl} {v : FieldValue}

/-- The kind of a value that is of the type which carries a field. -/
theorem Carries.ofType? (h : t.Carries f v) : Primitive.ofType? f.type = some v.primitive := by
  rw [Carries, primitiveOf] at h
  split at h
  · next p hwriter =>
    cases h
    exact (writer?_primitive hwriter).1 rfl
  · cases h

/-- Decoded values are found under the names of their places. -/
theorem forall₂_get?_ofList {layout : List FieldDecl} {vs : List FieldValue}
    (hnames : (layout.map (·.name)).Nodup) (h : List.Forall₂ t.Carries layout vs) :
    List.Forall₂ (fun f v => t.Carries f v ∧
      (SortedMap.ofList ((layout.map (·.name)).zip vs)).get? f.name = some v) layout vs := by
  have hkeys : (((layout.map (·.name)).zip vs).map (·.1)).Nodup := by
    rwa [List.map_fst_zip (by simp [h.length_eq])]
  refine List.forall₂_iff_zip.2 ⟨h.length_eq, fun {f v} hp => ⟨List.forall₂_zip h hp, ?_⟩⟩
  rw [SortedMap.get?_ofList hkeys, lookup_eq_some_iff_mem hkeys, List.zip_map_left]
  exact List.mem_map.2 ⟨(f, v), hp, rfl⟩

/-- Decoding gives exactly the serialized fields, values of their kinds, and what was decoded can be
    encoded and decoded again, whatever form the bytes had. -/
theorem decodeFields_normalizes {bytes : Bytes} {revision : UInt16} {values : FieldValues}
    (hnames : (fields.map (·.name)).Nodup)
    (h : t.decodeFields fields bytes = .ok (revision, values)) :
    (∀ name, name ∈ values.entries.map (·.1) ↔
      name ∈ (FieldDecl.serialized fields).map (·.name)) ∧
    (∀ f ∈ FieldDecl.serialized fields, ∃ v, values.get? f.name = some v ∧
      Primitive.ofType? f.type = some v.primitive) ∧
    ∃ normal, t.encodeFields revision fields values = .ok normal ∧
      t.decodeFields fields normal = .ok (revision, values) := by
  obtain ⟨frame, hframe, hcarries, hresult⟩ := decodeFields_eq_ok.1 h
  cases hresult
  have hheld := forall₂_get?_ofList (FieldDecl.serialized_names_nodup hnames) hcarries
  refine ⟨fun name => ?_, fun f hf => ?_, frame.encode, encodeFields_eq_ok.2 ⟨_, hheld, rfl⟩,
    decodeFields_eq_ok.2 ⟨frame, Frame.decode?_encode_of_decode? hframe, hcarries, rfl⟩⟩
  · rw [SortedMap.mem_keys_iff, SortedMap.ofList, SortedMap.isSome_get?_insertAll,
      List.map_fst_zip (by simp [hcarries.length_eq])]
    exact or_iff_left (by simp [SortedMap.empty, SortedMap.get?])
  · obtain ⟨v, _, hv, hget⟩ := exists_of_forall₂ hheld hf
    exact ⟨v, hget, hv.ofType?⟩

/-- The fields of a projectile, one of which is not saved. -/
def shotFields : List FieldDecl :=
  [{ name := "speed", type := "float" }, { name := "name", type := "String" },
    { name := "timer", type := "float", modifiers := { transient := true } },
    { name := "kills", type := "int" }]

/-- A frame as a map with a part that is unknown, in long forms, with an integer for a
    floating-point value, blobs for texts, a number for a tag, and bytes behind it. -/
def shotBytes : Bytes :=
  [0x83, 0xc4, 0x06, 0x76, 0x61, 0x6c, 0x75, 0x65, 0x73, 0xdc, 0x00, 0x03,
    0x81, 0xa3, 0x49, 0x6e, 0x74, 0xd3, 0x00, 0x00, 0x00, 0x00, 0x00, 0x00, 0x00, 0x04,
    0x81, 0xa3, 0x53, 0x74, 0x72, 0xc4, 0x01, 0x61,
    0x81, 0x05, 0x03,
    0xa1, 0x78, 0xc0,
    0xa8, 0x72, 0x65, 0x76, 0x69, 0x73, 0x69, 0x6f, 0x6e, 0xcd, 0x00, 0x07, 0xff, 0x00]

/-- What those bytes carry. -/
def shotValues : FieldValues :=
  .ofList [("kills", .int 4), ("name", .str "a"), ("speed", .float 0x40400000)]

theorem decodeFields_normalizes_shot :
    (shotFields.map (·.name)).Nodup ∧
      CodecTable.decodeFields {} shotFields shotBytes = .ok (7, shotValues) ∧
      ∃ normal, CodecTable.encodeFields {} 7 shotFields shotValues = .ok normal ∧
        CodecTable.decodeFields {} shotFields normal = .ok (7, shotValues) := by
  have hnames : (shotFields.map (·.name)).Nodup := by decide
  have hread : CodecTable.decodeFields {} shotFields shotBytes = .ok (7, shotValues) := by cbv
  exact ⟨hnames, hread, (decodeFields_normalizes hnames hread).2.2⟩

end CodecTable
end EntityWeaver
