import EntityWeaver.Proofs.EntityStream.Revisions

/-! Validated fields always have stream code.

    Four of the methods that carry stream code look for codecs, each for its own fields and its own
    kind of codec. Validation asks for the codecs of present fields only:

        write        plain writers    serialized fields     validated
        writeSync    network writers  synchronized fields   validated
        readSync     readers          synchronized fields   validated, as they are serialized too
        read         readers          types on record       not validated

    So the code of a validated entity fails for `read` alone, and there just when a revision on record
    has a type that nothing reads. A present type is read under its recorded spelling as well. -/

namespace EntityWeaver

namespace EntityStream

variable {s : EntityStream} {m : MethodDecl} {history : List Revision}

/-! ### What validation grants -/

/-- Every field that travels has the codecs that it needs. -/
structure Coded (s : EntityStream) : Prop where
  written : ∀ f ∈ s.serialized, ∃ codec, s.codecs.writer? f.type false = some codec
  read : ∀ f ∈ s.serialized, ∃ codec, s.codecs.reader? f.type = some codec
  sent : s.synced = true → ∀ f ∈ s.syncedFields, ∃ codec, s.codecs.writer? f.type true = some codec

/-- Validation passes exactly the fields that have their codecs. -/
theorem validate_eq_ok : s.validate = .ok () ↔ s.Coded := by
  have hvalidate : s.validate = .ok () ↔ s.uncoded? = none := by
    unfold validate
    cases s.uncoded? <;> simp
  rw [hvalidate, uncoded?, Option.or_eq_none_iff, List.find?_eq_none]
  simp only [Bool.or_eq_true, Option.isNone_iff_eq_none, not_or]
  constructor
  · rintro ⟨hsaved, hsent⟩
    refine ⟨fun f hf => ?_, fun f hf => ?_, fun hsynced f hf => ?_⟩
    · exact Option.ne_none_iff_exists'.1 (hsaved f hf).1
    · exact Option.ne_none_iff_exists'.1 (hsaved f hf).2
    · rw [if_pos hsynced, List.find?_eq_none] at hsent
      exact Option.ne_none_iff_exists'.1 (mt Option.isNone_iff_eq_none.2 (hsent f hf))
  · intro hcoded
    refine ⟨fun f hf => ?_, ?_⟩
    · obtain ⟨w, hw⟩ := hcoded.written f hf
      obtain ⟨r, hr⟩ := hcoded.read f hf
      simp [hw, hr]
    · split
      · next hsynced =>
        refine List.find?_eq_none.2 fun f hf => ?_
        obtain ⟨w, hw⟩ := hcoded.sent hsynced f hf
        simp [hw]
      · rfl

/-- A synchronized field is serialized too. -/
theorem mem_serialized_of_mem_syncedFields {f : FieldDecl} (hf : f ∈ s.syncedFields) :
    f ∈ s.serialized :=
  List.mem_of_mem_filter hf

theorem Coded.exists_saved (h : s.Coded) : ∃ writes, s.saved = .ok writes := by
  refine exists_mapM_eq_ok fun f hf => ?_
  obtain ⟨codec, hcodec⟩ := h.written f hf
  exact ⟨⟨f.name, codec⟩, valueWrite_eq_ok.2 ⟨hcodec, rfl⟩⟩

theorem Coded.exists_sent (h : s.Coded) (hsynced : s.synced = true) :
    ∃ writes, s.sent = .ok writes := by
  refine exists_mapM_eq_ok fun f hf => ?_
  obtain ⟨codec, hcodec⟩ := h.sent hsynced f hf
  exact ⟨⟨f.name, codec⟩, valueWrite_eq_ok.2 ⟨hcodec, rfl⟩⟩

theorem Coded.exists_received (h : s.Coded) : ∃ reads, s.received = .ok reads := by
  refine exists_mapM_eq_ok fun f hf => ?_
  obtain ⟨codec, hcodec⟩ := h.read f (mem_serialized_of_mem_syncedFields hf)
  have hread : s.valueRead f.name f.type (some (s.syncTarget f.name)) =
      .ok ⟨codec, some (s.syncTarget f.name)⟩ := by
    rw [valueRead, hcodec]
  exact ⟨_, by rw [syncRead, hread, ok_bind]; rfl⟩

/-! ### Types on record -/

/-- A type on record that nothing reads. -/
def Unread (s : EntityStream) (history : List Revision) (entry : LayoutField) : Prop :=
  (∃ r ∈ history, entry ∈ r.fields) ∧ s.codecs.reader? entry.type = none

theorem entryRead_eq_error {entry : LayoutField} {e : AuthoringError} :
    s.entryRead entry = .error e ↔
      s.codecs.reader? entry.type = none ∧ e = s.missing entry.name entry.type := by
  unfold entryRead valueRead
  cases s.codecs.reader? entry.type with
  | none => simp only [Except.error.injEq, true_and, @eq_comm _ e]
  | some codec => simp

/-- Loading fails with the name of a type that nothing reads. -/
theorem exists_unread_of_loaded {e : AuthoringError} (h : s.loaded history = .error e) :
    ∃ entry, s.Unread history entry ∧ e = s.missing entry.name entry.type := by
  obtain ⟨r, hr, h⟩ := exists_mem_of_mapM_eq_error h
  rw [revisionRead, map_eq_error] at h
  obtain ⟨entry, hentry, h⟩ := exists_mem_of_mapM_eq_error h
  obtain ⟨hreader, he⟩ := entryRead_eq_error.1 h
  exact ⟨entry, ⟨⟨r, hr, hentry⟩, hreader⟩, he⟩

/-- What loads has no type on record that nothing reads. -/
theorem not_unread_of_loaded {reads : List RevisionRead} (h : s.loaded history = .ok reads)
    (entry : LayoutField) : ¬s.Unread history entry := by
  rintro ⟨⟨r, hr, hentry⟩, hreader⟩
  obtain ⟨rr, -, hread⟩ := exists_read_of_mem h hr
  obtain ⟨v, -, hv⟩ := exists_of_forall₂ (mapM_eq_ok.1 (revisionRead_eq_ok.1 hread).1) hentry
  rw [(entryRead_eq_ok.1 hv).1] at hreader
  cases hreader

/-! ### The code of each method -/

/-- Of a validated entity only the code of `read` can fail, and it does where loading fails. -/
theorem loaded_of_codeFor_eq_error (hcoded : s.Coded) {e : AuthoringError}
    (h : s.codeFor m history = .error e) :
    m.name = "read" ∧ m.params ≠ [] ∧ s.loaded history = .error e := by
  unfold codeFor at h
  split at h
  · next stream _ _ =>
    obtain ⟨writes, hwrites⟩ := hcoded.exists_saved
    rw [map_eq_error, write, hwrites] at h
    cases h
  · next stream hname hstream =>
    have hparams : m.params ≠ [] := by
      intro hnil
      simp [hnil] at hstream
    refine ⟨hname, hparams, ?_⟩
    rw [map_eq_error, read] at h
    cases hloaded : s.loaded history with
    | error e' =>
      rw [hloaded] at h
      cases h
      rfl
    | ok reads =>
      rw [hloaded] at h
      cases h
  · split at h
    · next hsynced =>
      obtain ⟨writes, hwrites⟩ := hcoded.exists_sent hsynced
      rw [map_eq_error, writeSync, hwrites] at h
      cases h
    · cases h
  · split at h
    · obtain ⟨reads, hreads⟩ := hcoded.exists_received
      rw [map_eq_error, readSync, hreads] at h
      cases h
    · cases h
  all_goals cases h

theorem codeFor_read_eq_error (hname : m.name = "read") (hparams : m.params ≠ [])
    {e : AuthoringError} (h : s.loaded history = .error e) : s.codeFor m history = .error e := by
  obtain ⟨p, ps, hp⟩ := List.exists_cons_of_ne_nil hparams
  unfold codeFor
  rw [hname, hp]
  show (s.read p.name history).map _ = _
  rw [map_eq_error, read, h]
  rfl

/-- The code of a validated entity fails just for a `read` with a stream to read from and a revision on
    record that has a type which nothing reads, and names such a type then. As long as the types on
    record are those of fields that are serialized now, there is no method that it fails for. -/
theorem codeFor_of_validated (h : s.validate = .ok ()) (m : MethodDecl) (history : List Revision) :
    ((∃ e, s.codeFor m history = .error e) ↔ m.name = "read" ∧ m.params ≠ [] ∧
        ∃ r ∈ history, ∃ entry ∈ r.fields, s.codecs.reader? entry.type = none) ∧
      (∀ e, s.codeFor m history = .error e → ∃ r ∈ history, ∃ entry ∈ r.fields,
        s.codecs.reader? entry.type = none ∧ e = s.missing entry.name entry.type) ∧
      ((∀ r ∈ history, ∀ entry ∈ r.fields, ∃ f ∈ s.serialized, entry.type = normalType f.type) →
        ∃ code, s.codeFor m history = .ok code) := by
  have hcoded := validate_eq_ok.1 h
  have hfails : ∀ e, s.codeFor m history = .error e → m.name = "read" ∧ m.params ≠ [] ∧
      ∃ r ∈ history, ∃ entry ∈ r.fields,
        s.codecs.reader? entry.type = none ∧ e = s.missing entry.name entry.type := by
    intro e he
    obtain ⟨hname, hparams, hloaded⟩ := loaded_of_codeFor_eq_error hcoded he
    obtain ⟨entry, ⟨⟨r, hr, hentry⟩, hreader⟩, he⟩ := exists_unread_of_loaded hloaded
    exact ⟨hname, hparams, r, hr, entry, hentry, hreader, he⟩
  refine ⟨⟨?_, ?_⟩, fun e he => (hfails e he).2.2, fun hpresent => ?_⟩
  · rintro ⟨e, he⟩
    obtain ⟨hname, hparams, r, hr, entry, hentry, hreader, -⟩ := hfails e he
    exact ⟨hname, hparams, r, hr, entry, hentry, hreader⟩
  · rintro ⟨hname, hparams, r, hr, entry, hentry, hreader⟩
    cases hloaded : s.loaded history with
    | error e => exact ⟨e, codeFor_read_eq_error hname hparams hloaded⟩
    | ok reads => exact absurd ⟨⟨r, hr, hentry⟩, hreader⟩ (not_unread_of_loaded hloaded entry)
  · cases hcode : s.codeFor m history with
    | ok code => exact ⟨code, rfl⟩
    | error e =>
      -- a recorded type is the spelling of a present one, which validation has found a reader for
      obtain ⟨-, -, r, hr, entry, hentry, hreader, -⟩ := hfails e hcode
      obtain ⟨f, hf, htype⟩ := hpresent r hr entry hentry
      obtain ⟨codec, hcodec⟩ := hcoded.read f hf
      rw [htype, CodecTable.reader?_normalType, hcodec] at hreader
      cases hreader

theorem validate_unitStream : unitStream.validate = .ok () := by
  rw [validate, uncoded?, serialized_unitStream]
  rfl

/-- An offset was recorded once, and nothing reads it; a team is read whatever field recorded it. -/
theorem codeFor_of_validated_unit :
    unitStream.validate = .ok () ∧
      (∃ e, unitStream.codeFor (unitMethod "read") [⟨0, [⟨"offset", "Vec2"⟩]⟩] = .error e) ∧
      (∀ e, unitStream.codeFor (unitMethod "read") [⟨0, [⟨"offset", "Vec2"⟩]⟩] = .error e →
        e = unitStream.missing "offset" "Vec2") ∧
      ∃ code, unitStream.codeFor (unitMethod "read") [⟨0, [⟨"side", "Team"⟩]⟩] = .ok code := by
  have hvalid := validate_unitStream
  obtain ⟨hfails, hnames, -⟩ :=
    codeFor_of_validated hvalid (unitMethod "read") [⟨0, [⟨"offset", "Vec2"⟩]⟩]
  obtain ⟨-, -, hpresent⟩ :=
    codeFor_of_validated hvalid (unitMethod "read") [⟨0, [⟨"side", "Team"⟩]⟩]
  refine ⟨hvalid, hfails.2 ⟨rfl, by simp [unitMethod], ?_⟩, fun e he => ?_, hpresent ?_⟩
  · exact ⟨⟨0, [⟨"offset", "Vec2"⟩]⟩, by simp, ⟨"offset", "Vec2"⟩, by simp, rfl⟩
  · obtain ⟨r, hr, entry, hentry, -, rfl⟩ := hnames e he
    obtain rfl := List.mem_singleton.1 hr
    obtain rfl := List.mem_singleton.1 hentry
    rfl
  · intro r hr entry hentry
    obtain rfl := List.mem_singleton.1 hr
    obtain rfl := List.mem_singleton.1 hentry
    rw [serialized_unitStream]
    exact ⟨_, List.mem_cons_of_mem _ List.mem_cons_self, by decide⟩

end EntityStream

end EntityWeaver
