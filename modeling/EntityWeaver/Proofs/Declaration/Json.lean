import EntityWeaver.Declaration.Json
import EntityWeaver.Proofs.Json.RoundTrip
import EntityWeaver.Proofs.SortedMap

/-! A snapshot is read back from its text.

    The round trip of each kind of declaration rests on those of its parts:

        anchor, modifiers, sync ──▶ field ─────────┐
        anchor, modifiers,                         ├──▶ component ──┐
        parameter, directive ─────▶ method ────────┤                ├──▶ snapshot
                                                   └──▶ contract ───┤
        anchor ───────────────────▶ blueprint, pointer ─────────────┤
        handlers ─────────────────▶ codecs ─────────────────────────┘

    No declaration is written as null, so one that is there differs from one that is absent. -/

namespace EntityWeaver

open Json (Members RoundTrips Value)

namespace Anchor

theorem roundTrips : RoundTrips toJson ofJson? where
  readable a := .object (by simp [RoundTrips.text.readable, Value.Readable.int, Value.nat])
  read a := by
    have hmembers : a.toJson.members? fieldNames = some _ := Value.members?_object rfl (by decide)
    have hline : (Value.nat a.line.toNat).unsigned? 32 = some a.line.toNat :=
      Value.unsigned?_nat a.line.toNat_lt
    simp [ofJson?, hmembers, Members.required, List.lookup_cons, RoundTrips.text.read, hline]

theorem option_roundTrips : RoundTrips (.option toJson) (Value.nullable? ofJson?) :=
  roundTrips.option fun _ => by simp [toJson]

end Anchor

theorem Visibility.roundTrips : RoundTrips toJson ofJson? where
  readable v := by
    cases v
    all_goals exact .text _
  read v := by
    cases v
    all_goals rfl

theorem Modifiers.roundTrips : RoundTrips toJson ofJson? where
  readable m := .object (by simp [Visibility.roundTrips.readable, RoundTrips.bool.readable])
  read m := by
    have hmembers : m.toJson.members? fieldNames = some _ := Value.members?_object rfl (by decide)
    simp [ofJson?, hmembers, Members.optional, List.lookup_cons, Visibility.roundTrips.read,
      RoundTrips.bool.read]

namespace Interpolation

theorem roundTrips : RoundTrips toJson ofJson? where
  readable i := by
    cases i
    all_goals exact .text _
  read i := by
    cases i
    all_goals rfl

theorem option_roundTrips : RoundTrips (.option toJson) (Value.nullable? ofJson?) :=
  roundTrips.option fun i => by cases i <;> simp [toJson]

end Interpolation

theorem SyncFlags.roundTrips : RoundTrips toJson ofJson? where
  readable s := .object (by
    simp [Interpolation.option_roundTrips.readable, RoundTrips.bool.readable])
  read s := by
    have hmembers : s.toJson.members? fieldNames = some _ := Value.members?_object rfl (by decide)
    simp [ofJson?, hmembers, Members.optional, List.lookup_cons, Interpolation.option_roundTrips.read,
      RoundTrips.bool.read]

theorem FieldDecl.roundTrips : RoundTrips toJson ofJson? where
  readable f := .object (by
    simp [RoundTrips.text.readable, RoundTrips.bool.readable, RoundTrips.optionText.readable,
      RoundTrips.text.list.readable, Modifiers.roundTrips.readable, SyncFlags.roundTrips.readable,
      Anchor.option_roundTrips.readable])
  read f := by
    have hmembers : f.toJson.members? fieldNames = some _ := Value.members?_object rfl (by decide)
    simp [ofJson?, hmembers, Members.required, Members.optional, List.lookup_cons,
      RoundTrips.text.read, RoundTrips.bool.read, RoundTrips.optionText.read, RoundTrips.text.list.read,
      Modifiers.roundTrips.read, SyncFlags.roundTrips.read, Anchor.option_roundTrips.read]

theorem ExtendMode.roundTrips : RoundTrips toJson ofJson? where
  readable mode := by
    cases mode
    all_goals exact .text _
  read mode := by
    cases mode
    all_goals rfl

namespace Directive

/-- What is written for a directive with content is no bare variant. -/
theorem ofJson?_object {name : String} {content : Value} (h : content ≠ .null) :
    ofJson? (.object [(name, content)]) = ofContent? name content := by
  have hplain : (Value.object [(name, content)]).plainVariant? = none := by
    unfold Value.plainVariant?
    split
    · next h' => cases h'
    · next h' =>
      cases h'
      exact absurd rfl h
    · rfl
  simp [ofJson?, hplain, Value.variant?]

theorem roundTrips : RoundTrips toJson ofJson? where
  readable d := by
    cases d with
    | priority p => exact .object (by simp [Value.Readable.int])
    | replace p => exact .object (by simp [Value.Readable.int])
    | remove c => exact .object (by simp [RoundTrips.text.readable])
    | extend cs mode =>
      have hcontent : ∀ m ∈ [("components", Value.list .text cs), ("mode", mode.toJson)],
          m.2.Readable := by
        simp [RoundTrips.text.list.readable, ExtendMode.roundTrips.readable]
      exact .object (by simpa using Value.Readable.object hcontent)
    | insert target block after =>
      have hcontent : ∀ m ∈ [("target", Value.text target), ("block", Value.option .text block),
          ("after", Value.bool after)], m.2.Readable := by
        simp [RoundTrips.text.readable, RoundTrips.optionText.readable, RoundTrips.bool.readable]
      exact .object (by simpa using Value.Readable.object hcontent)
    | wrap target block =>
      have hcontent : ∀ m ∈ [("target", Value.text target), ("block", Value.option .text block)],
          m.2.Readable := by
        simp [RoundTrips.text.readable, RoundTrips.optionText.readable]
      exact .object (by simpa using Value.Readable.object hcontent)
    | bypassGroupCheck => exact .text _
    | noBreakBlock => exact .text _
  read d := by
    cases d with
    | priority p =>
      rw [toJson, ofJson?_object (by simp [Value.int])]
      simp [ofContent?, Value.signed?_int32]
    | replace p =>
      rw [toJson, ofJson?_object (by simp [Value.int])]
      simp [ofContent?, Value.signed?_int32]
    | remove c => rfl
    | extend cs mode =>
      have hmembers : (Value.object [("components", .list .text cs), ("mode", mode.toJson)]).members?
          ["components", "mode"] = some _ := Value.members?_object rfl (by decide)
      rw [toJson, ofJson?_object (by simp)]
      simp [ofContent?, hmembers, Members.required, Members.optional, List.lookup_cons,
        RoundTrips.text.list.read, ExtendMode.roundTrips.read]
    | insert target block after =>
      have hmembers : (Value.object [("target", .text target), ("block", .option .text block),
          ("after", .bool after)]).members? ["target", "block", "after"] = some _ :=
        Value.members?_object rfl (by decide)
      rw [toJson, ofJson?_object (by simp)]
      simp [ofContent?, hmembers, Members.required, Members.optional, List.lookup_cons,
        RoundTrips.text.read, RoundTrips.optionText.read, RoundTrips.bool.read]
    | wrap target block =>
      have hmembers : (Value.object [("target", .text target), ("block", .option .text block)]).members?
          ["target", "block"] = some _ := Value.members?_object rfl (by decide)
      rw [toJson, ofJson?_object (by simp)]
      simp [ofContent?, hmembers, Members.required, Members.optional, List.lookup_cons,
        RoundTrips.text.read, RoundTrips.optionText.read]
    | bypassGroupCheck => rfl
    | noBreakBlock => rfl

end Directive

theorem Parameter.roundTrips : RoundTrips toJson ofJson? where
  readable p := .object (by simp [RoundTrips.text.readable])
  read p := by
    have hmembers : p.toJson.members? fieldNames = some _ := Value.members?_object rfl (by decide)
    simp [ofJson?, hmembers, Members.required, List.lookup_cons, RoundTrips.text.read]

theorem MethodDecl.roundTrips : RoundTrips toJson ofJson? where
  readable m := .object (by
    simp [RoundTrips.text.readable, RoundTrips.bool.readable, RoundTrips.optionText.readable,
      Parameter.roundTrips.list.readable, Modifiers.roundTrips.readable,
      Directive.roundTrips.list.readable, Anchor.option_roundTrips.readable])
  read m := by
    have hmembers : m.toJson.members? fieldNames = some _ := Value.members?_object rfl (by decide)
    simp [ofJson?, hmembers, Members.required, Members.optional, List.lookup_cons,
      RoundTrips.text.read, RoundTrips.bool.read, RoundTrips.optionText.read,
      Parameter.roundTrips.list.read, Modifiers.roundTrips.read, Directive.roundTrips.list.read,
      Anchor.option_roundTrips.read]

theorem ComponentDecl.roundTrips : RoundTrips toJson ofJson? where
  readable c := .object (by
    simp [RoundTrips.text.readable, RoundTrips.bool.readable, RoundTrips.optionText.readable,
      RoundTrips.text.list.readable, FieldDecl.roundTrips.list.readable,
      MethodDecl.roundTrips.list.readable, Anchor.option_roundTrips.readable])
  read c := by
    have hmembers : c.toJson.members? fieldNames = some _ := Value.members?_object rfl (by decide)
    simp [ofJson?, hmembers, Members.required, Members.optional, List.lookup_cons,
      RoundTrips.text.read, RoundTrips.bool.read, RoundTrips.optionText.read, RoundTrips.text.list.read,
      FieldDecl.roundTrips.list.read, MethodDecl.roundTrips.list.read, Anchor.option_roundTrips.read]

theorem BlueprintDecl.roundTrips : RoundTrips toJson ofJson? where
  readable b := .object (by
    simp [RoundTrips.bool.readable, RoundTrips.optionText.readable, RoundTrips.text.list.readable,
      Anchor.option_roundTrips.readable])
  read b := by
    have hmembers : b.toJson.members? fieldNames = some _ := Value.members?_object rfl (by decide)
    simp [ofJson?, hmembers, Members.required, Members.optional, List.lookup_cons, RoundTrips.bool.read,
      RoundTrips.optionText.read, RoundTrips.text.list.read, Anchor.option_roundTrips.read]

theorem PointerDecl.roundTrips : RoundTrips toJson ofJson? where
  readable p := .object (by
    simp [RoundTrips.text.readable, RoundTrips.bool.readable, Anchor.option_roundTrips.readable])
  read p := by
    have hmembers : p.toJson.members? fieldNames = some _ := Value.members?_object rfl (by decide)
    simp [ofJson?, hmembers, Members.required, Members.optional, List.lookup_cons,
      RoundTrips.text.read, RoundTrips.bool.read, Anchor.option_roundTrips.read]

theorem ContractDecl.roundTrips : RoundTrips toJson ofJson? where
  readable c := .object (by
    simp [RoundTrips.text.readable, RoundTrips.text.list.readable,
      MethodDecl.roundTrips.list.readable])
  read c := by
    have hmembers : c.toJson.members? fieldNames = some _ := Value.members?_object rfl (by decide)
    simp [ofJson?, hmembers, Members.required, Members.optional, List.lookup_cons,
      RoundTrips.text.read, RoundTrips.text.list.read, MethodDecl.roundTrips.list.read]

namespace CodecTable

/-- Handlers are written by ascending type and put back in that order. -/
theorem handlers_roundTrips : RoundTrips handlersToJson handlersOfJson? where
  readable m := .object fun e he => by
    obtain ⟨e, -, rfl⟩ := List.mem_map.1 he
    exact .text _
  read m := by
    have htable : ∀ es : List (String × String),
        (es.map fun e => (e.1, Value.text e.2)).mapM (fun e => e.2.text?.map (e.1, ·)) = some es := by
      intro es
      induction es with
      | nil => rfl
      | cons e es ih =>
        rw [List.map_cons, List.mapM_cons, ih]
        rfl
    rw [handlersToJson, handlersOfJson?, Value.table?, htable, Option.map_some,
      SortedMap.ofList_entries]

theorem roundTrips : RoundTrips toJson ofJson? where
  readable t := .object (by simp [handlers_roundTrips.readable])
  read t := by
    have hmembers : t.toJson.members? fieldNames = some _ := Value.members?_object rfl (by decide)
    simp [ofJson?, hmembers, Members.optional, List.lookup_cons, handlers_roundTrips.read]

end CodecTable

namespace Snapshot

theorem roundTrips : RoundTrips toJson ofJson? where
  readable s := .object (by
    simp [ComponentDecl.roundTrips.list.readable, BlueprintDecl.roundTrips.list.readable,
      PointerDecl.roundTrips.list.readable, ContractDecl.roundTrips.list.readable,
      CodecTable.roundTrips.readable])
  read s := by
    have hmembers : s.toJson.members? fieldNames = some _ := Value.members?_object rfl (by decide)
    simp [ofJson?, hmembers, Members.optional, List.lookup_cons, ComponentDecl.roundTrips.list.read,
      BlueprintDecl.roundTrips.list.read, PointerDecl.roundTrips.list.read,
      ContractDecl.roundTrips.list.read, CodecTable.roundTrips.read]

/-- A snapshot is read back from its text. -/
theorem ofText?_render (s : Snapshot) : ofText? s.render = some s :=
  roundTrips.bind_ofText?_pretty s

end Snapshot

end EntityWeaver
