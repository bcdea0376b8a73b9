import EntityWeaver.Json.Record
import EntityWeaver.Proofs.Json.Reading
import EntityWeaver.Proofs.Text.Decimal

/-! Writers and readers that undo one another.

    A writer and a reader round trip when each written value denotes something and is read as what was
    written. Round trips are put together as values are: a list, an optional value and a record round
    trip when their parts do. A record is written with all its fields, each once and in order, so its
    reader finds every field under its name. -/

namespace EntityWeaver.Json

/-- What is written denotes something and is read back. -/
structure RoundTrips {α : Type} (write : α → Value) (read? : Value → Option α) : Prop where
  readable : ∀ x, (write x).Readable
  read : ∀ x, read? (write x) = some x

namespace RoundTrips

variable {α : Type} {write : α → Value} {read? : Value → Option α}

theorem text : RoundTrips .text Value.text? := ⟨.text, fun _ => rfl⟩

theorem bool : RoundTrips .bool Value.bool? := ⟨.bool, fun _ => rfl⟩

/-- Items are read one by one. -/
theorem mapM_map (h : RoundTrips write read?) (xs : List α) : (xs.map write).mapM read? = some xs := by
  induction xs with
  | nil => rfl
  | cons x xs ih =>
    rw [List.map_cons, List.mapM_cons, h.read, ih]
    rfl

theorem list (h : RoundTrips write read?) : RoundTrips (.list write) (Value.list? read?) where
  readable xs := .array fun v hv => by
    obtain ⟨x, -, rfl⟩ := List.mem_map.1 hv
    exact h.readable x
  read xs := h.mapM_map xs

/-- A value that may be absent, provided that null is not written for one that is there. -/
theorem option (h : RoundTrips write read?) (hnull : ∀ x, write x ≠ .null) :
    RoundTrips (.option write) (Value.nullable? read?) where
  readable
    | none => .null
    | some x => h.readable x
  read
    | none => rfl
    | some x => by
      rw [Value.option, Value.nullable?, h.read]
      · rfl
      · exact hnull x

/-- The text of a written value is read back. -/
theorem bind_ofText?_pretty (h : RoundTrips write read?) (x : α) :
    (Value.ofText? (write x).pretty).bind read? = some x := by
  rw [Value.pretty, Value.ofText?_print Layout.blank_indented (h.readable x) 0, Option.bind_some,
    h.read]

/-- A text that may be absent. -/
theorem optionText : RoundTrips (.option .text) (Value.nullable? Value.text?) :=
  text.option fun _ => by simp

end RoundTrips

namespace Value

/-- An integer within the bounds is read back. -/
theorem intWithin?_int {least most n : Int} (hleast : least ≤ n) (hmost : n ≤ most) :
    (Value.int n).intWithin? least most = some n := by
  rw [Value.int, intWithin?, Text.integer?_signed, Option.filter_some, if_pos (by simp [hleast, hmost])]

theorem unsigned?_nat {bits n : Nat} (h : n < 1 <<< bits) : (Value.nat n).unsigned? bits = some n := by
  have hleast : (0 : Int) ≤ n := Int.natCast_nonneg n
  have hmost : (n : Int) ≤ ((1 <<< bits : Nat) : Int) - 1 := by omega
  rw [unsigned?, Value.nat, intWithin?_int hleast hmost]
  rfl

theorem signed?_int32 (n : Int32) : (Value.int n.toInt).signed? 32 = some n.toInt := by
  have hleast := n.le_toInt
  have hmost := n.toInt_lt
  exact intWithin?_int (by simpa using hleast) (by simp; omega)

/-- A record that is written with its fields in order gives them all. -/
theorem members?_object {fields : List String} {ms : Members} (hnames : ms.map (·.1) = fields)
    (hdistinct : fields.Nodup) : (Value.object ms).members? fields = some ms := by
  have hknown : (ms.filter fun m => fields.contains m.1) = ms := by
    refine List.filter_eq_self.2 fun m hm => ?_
    rw [← hnames]
    exact List.contains_iff_mem.2 (List.mem_map_of_mem hm)
  simp only [members?, hknown]
  rw [if_pos (hnames ▸ hdistinct)]

end Value

end EntityWeaver.Json
