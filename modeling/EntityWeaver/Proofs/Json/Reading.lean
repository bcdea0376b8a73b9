import EntityWeaver.Json.Value
import EntityWeaver.Proofs.Json.Scanning

/-! Reading a printed value gives the value back.

    A value that denotes something, with integers for its numbers, has tokens of its own, which do not
    depend on how it is laid out. Printing it and cutting the text gives these tokens; fed with them,
    the machine that reads values puts the value where it stands:

        value v ──print──▶ text ──cut──▶ tokens of v
        tokens of v :   value stack  ──▶ ... ──▶   put v stack -/

namespace EntityWeaver.Json

/-- A value that denotes something throughout and whose numbers are integers. -/
inductive Value.Readable : Value → Prop where
  | null : Readable .null
  | bool (b : Bool) : Readable (.bool b)
  | int (n : Int) : Readable (.int n)
  | text (content : String) : Readable (.text content)
  | array {items : List Value} (h : ∀ v ∈ items, Readable v) : Readable (.array items)
  | object {members : List (String × Value)} (h : ∀ m ∈ members, Readable m.2) :
      Readable (.object members)

mutual

/-- The tokens of a value. -/
def Value.tokens : Value → List Token
  | .null => [.null]
  | .bool true => [.true]
  | .bool false => [.false]
  | .number literal => [.number literal]
  | .text content => [.text content]
  | .array [] => [.openArray, .closeArray]
  | .array (v :: vs) => .openArray :: (v.tokens ++ itemTokens vs ++ [.closeArray])
  | .object [] => [.openObject, .closeObject]
  | .object (m :: ms) =>
    .openObject :: .text m.1 :: .colon :: (m.2.tokens ++ memberTokens ms ++ [.closeObject])
  | .unreadable => [.null]

/-- The tokens of the items behind the first. -/
def itemTokens : List Value → List Token
  | [] => []
  | v :: vs => .comma :: (v.tokens ++ itemTokens vs)

/-- The tokens of the members behind the first. -/
def memberTokens : List (String × Value) → List Token
  | [] => []
  | m :: ms => .comma :: .text m.1 :: .colon :: (m.2.tokens ++ memberTokens ms)

end

/-! ### Cutting printed values -/

/-- A layout sets the parts of a value apart by blanks alone. -/
structure Layout.Blank (layout : Layout) : Prop where
  lineBreak : ∀ depth, ∀ c ∈ layout.lineBreak depth, isSpace c = true
  colon : ∃ blanks, layout.colon = ':' :: blanks ∧ ∀ c ∈ blanks, isSpace c = true

theorem Layout.blank_indented : Layout.indented.Blank where
  lineBreak depth c hc := by
    rcases List.mem_cons.1 hc with rfl | hc
    · rfl
    · obtain rfl := List.eq_of_mem_replicate hc
      rfl
  colon := ⟨[' '], rfl, fun c hc => by
    obtain rfl := List.mem_singleton.1 hc
    rfl⟩

section Printing

variable {layout : Layout} {rest : List Char} {ts : List Token}

/-- A number can stand in front of a blank. -/
theorem Apart.append_of_isSpace {blanks : List Char} (hblanks : ∀ c ∈ blanks, isSpace c = true)
    (h : Apart rest) : Apart (blanks ++ rest) := by
  cases blanks with
  | nil => exact h
  | cons c blanks =>
    intro d hd
    obtain rfl : c = d := Option.some.inj hd
    have hspace := hblanks c List.mem_cons_self
    simp only [isSpace, Bool.or_eq_true, beq_iff_eq] at hspace
    rcases hspace with ((rfl | rfl) | rfl) | rfl <;> decide

theorem apart_cons {c : Char} (h : c.isDigit = false ∧ c ≠ '.' ∧ c ≠ 'e' ∧ c ≠ 'E') :
    Apart (c :: rest) := fun d hd => by
  obtain rfl : c = d := Option.some.inj hd
  exact h

namespace Scans

theorem lineBreak (hl : layout.Blank) (depth : Nat) (h : Scans rest ts) :
    Scans (layout.lineBreak depth ++ rest) ts := h.blanks (hl.lineBreak depth)

theorem colon (hl : layout.Blank) (h : Scans rest ts) :
    Scans (layout.colon ++ rest) (.colon :: ts) := by
  obtain ⟨blanks, hcolon, hblanks⟩ := hl.colon
  rw [hcolon]
  exact .token rfl rfl (by simp) (h.blanks hblanks)

end Scans

/-- What printing a value, at any depth and in front of any text, puts in front of its tokens. -/
def Value.PrintsTokens (layout : Layout) (v : Value) : Prop :=
  ∀ (depth : Nat) {rest : List Char} {ts : List Token}, Apart rest → Scans rest ts →
    Scans (v.print layout depth ++ rest) (v.tokens ++ ts)

theorem apart_printItems {depth : Nat} {vs : List Value} (h : Apart rest) :
    Apart (printItems layout depth vs ++ rest) := by
  cases vs with
  | nil => exact h
  | cons v vs =>
    rw [printItems]
    exact apart_cons (by decide)

theorem apart_printMembers {depth : Nat} {ms : List (String × Value)} (h : Apart rest) :
    Apart (printMembers layout depth ms ++ rest) := by
  cases ms with
  | nil => exact h
  | cons m ms =>
    rw [printMembers]
    exact apart_cons (by decide)

theorem scans_printItems (hl : layout.Blank) (depth : Nat) {vs : List Value}
    (hvs : ∀ v ∈ vs, v.PrintsTokens layout) (hapart : Apart rest) (h : Scans rest ts) :
    Scans (printItems layout depth vs ++ rest) (itemTokens vs ++ ts) := by
  induction vs with
  | nil => exact h
  | cons v vs ih =>
    obtain ⟨hv, hvs⟩ := List.forall_mem_cons.1 hvs
    simp only [printItems, itemTokens, List.cons_append, List.append_assoc]
    refine .token rfl rfl (by simp) (.lineBreak hl _ ?_)
    exact hv depth (apart_printItems hapart) (ih hvs)

theorem scans_printMembers (hl : layout.Blank) (depth : Nat) {ms : List (String × Value)}
    (hms : ∀ m ∈ ms, m.2.PrintsTokens layout) (hapart : Apart rest) (h : Scans rest ts) :
    Scans (printMembers layout depth ms ++ rest) (memberTokens ms ++ ts) := by
  induction ms with
  | nil => exact h
  | cons m ms ih =>
    obtain ⟨hm, hms⟩ := List.forall_mem_cons.1 hms
    simp only [printMembers, memberTokens, List.cons_append, List.append_assoc]
    refine .token rfl rfl (by simp) (.lineBreak hl _ (.quote _ (.colon hl ?_)))
    exact hm depth (apart_printMembers hapart) (ih hms)

/-- The text of a value is cut into its tokens. -/
theorem Value.Readable.printsTokens (hl : layout.Blank) {v : Value} (hv : v.Readable) :
    v.PrintsTokens layout := by
  induction hv with
  | null =>
    intro depth rest ts _ h
    rw [Value.print, Value.tokens]
    exact .word rfl rfl h
  | bool b =>
    intro depth rest ts _ h
    cases b with
    | false =>
      rw [Value.print, Value.tokens]
      exact .word rfl rfl h
    | true =>
      rw [Value.print, Value.tokens]
      exact .word rfl rfl h
  | int n =>
    intro depth rest ts hapart h
    rw [Value.int, Value.print, Value.tokens]
    exact .integer n hapart h
  | text content =>
    intro depth rest ts _ h
    rw [Value.print, Value.tokens]
    exact .quote content h
  | @array items _ ih =>
    intro depth rest ts _ h
    cases items with
    | nil =>
      rw [Value.print, Value.tokens]
      exact .token rfl rfl (by simp) (.token rfl rfl (by simp) h)
    | cons v vs =>
      obtain ⟨hv, hvs⟩ := List.forall_mem_cons.1 ih
      have hclose : Apart (layout.lineBreak depth ++ ']' :: rest) :=
        .append_of_isSpace (hl.lineBreak depth) (apart_cons (by decide))
      have hend : Scans (layout.lineBreak depth ++ ']' :: rest) (.closeArray :: ts) :=
        .lineBreak hl depth (.token rfl rfl (by simp) h)
      have hitems := scans_printItems hl (depth + 1) hvs hclose hend
      simp only [Value.print, Value.tokens, List.cons_append, List.append_assoc, List.nil_append]
      refine .token rfl rfl (by simp) (.lineBreak hl _ ?_)
      exact hv (depth + 1) (apart_printItems hclose) hitems
  | @object members _ ih =>
    intro depth rest ts _ h
    cases members with
    | nil =>
      rw [Value.print, Value.tokens]
      exact .token rfl rfl (by simp) (.token rfl rfl (by simp) h)
    | cons m ms =>
      obtain ⟨hm, hms⟩ := List.forall_mem_cons.1 ih
      have hclose : Apart (layout.lineBreak depth ++ '\x7d' :: rest) :=
        .append_of_isSpace (hl.lineBreak depth) (apart_cons (by decide))
      have hend : Scans (layout.lineBreak depth ++ '\x7d' :: rest) (.closeObject :: ts) :=
        .lineBreak hl depth (.token rfl rfl (by simp) h)
      have hmembers := scans_printMembers hl (depth + 1) hms hclose hend
      simp only [Value.print, Value.tokens, List.cons_append, List.append_assoc, List.nil_append]
      refine .token rfl rfl (by simp) (.lineBreak hl _ (.quote _ (.colon hl ?_)))
      exact hm (depth + 1) (apart_printMembers hclose) hmembers

end Printing

/-! ### Reading tokens -/

/-- An array is closed with its items in order. -/
theorem State.step_closeArray (items : List Value) (stack : List Frame) :
    State.step (.next (.array items :: stack)) .closeArray =
      some (.put (.array items.reverse) stack) := rfl

/-- An object is closed with its members in order. -/
theorem State.step_closeObject (members : List (String × Value)) (stack : List Frame) :
    State.step (.next (.object members true :: stack)) .closeObject =
      some (.put (.object members.reverse) stack) := rfl

/-- Tokens take the machine from one state to another. -/
def Leads (tokens : List Token) (s s' : State) : Prop := tokens.foldlM State.step s = some s'

namespace Leads

variable {t : Token} {ts us : List Token} {s mid s' : State}

theorem nil : Leads [] s s := rfl

theorem cons (hstep : s.step t = some mid) (h : Leads ts mid s') : Leads (t :: ts) s s' := by
  rw [Leads, List.foldlM_cons, hstep]
  exact h

theorem append (h : Leads ts s mid) (h' : Leads us mid s') : Leads (ts ++ us) s s' := by
  rw [Leads, List.foldlM_append, h]
  exact h'

end Leads

/-- The tokens of a value put it where a value is expected. -/
def Value.PutByTokens (v : Value) : Prop := ∀ stack, Leads v.tokens (.value stack) (.put v stack)

/-- A value begins with its first token, which closes no array. -/
theorem Value.exists_first_token (v : Value) :
    ∃ t ts, v.tokens = t :: ts ∧ t ≠ .closeArray := by
  unfold Value.tokens
  split <;> exact ⟨_, _, rfl, by simp⟩

/-- The first item of an array stands where a value is expected. -/
theorem Value.PutByTokens.first {v : Value} (hv : v.PutByTokens) (stack : List Frame) :
    Leads v.tokens (.first (.array [] :: stack)) (.next (.array [v] :: stack)) := by
  obtain ⟨t, ts, htokens, ht⟩ := v.exists_first_token
  have hvalue := hv (.array [] :: stack)
  rw [htokens, Leads, List.foldlM_cons] at hvalue ⊢
  have hsame : State.step (.first (.array [] :: stack)) t =
      State.step (.value (.array [] :: stack)) t := by
    cases t with
    | closeArray => exact absurd rfl ht
    | _ => rfl
  rw [hsame]
  exact hvalue

theorem leads_itemTokens {vs : List Value} (hvs : ∀ v ∈ vs, v.PutByTokens) (items : List Value)
    (stack : List Frame) : Leads (itemTokens vs) (.next (.array items :: stack))
      (.next (.array (vs.reverse ++ items) :: stack)) := by
  induction vs generalizing items with
  | nil => exact .nil
  | cons v vs ih =>
    obtain ⟨hv, hvs⟩ := List.forall_mem_cons.1 hvs
    rw [itemTokens, List.reverse_cons, List.append_assoc]
    exact .cons rfl ((hv _).append (ih hvs (v :: items)))

theorem leads_memberTokens {ms : List (String × Value)} (hms : ∀ m ∈ ms, m.2.PutByTokens)
    (members : List (String × Value)) (stack : List Frame) :
    Leads (memberTokens ms) (.next (.object members true :: stack))
      (.next (.object (ms.reverse ++ members) true :: stack)) := by
  induction ms generalizing members with
  | nil => exact .nil
  | cons m ms ih =>
    obtain ⟨hm, hms⟩ := List.forall_mem_cons.1 hms
    rw [memberTokens, List.reverse_cons, List.append_assoc]
    exact .cons rfl (.cons rfl (.cons rfl ((hm _).append (ih hms (m :: members)))))

/-- A value is put where its tokens stand. -/
theorem Value.Readable.putByTokens {v : Value} (hv : v.Readable) : v.PutByTokens := by
  induction hv with
  | null => exact fun _ => .cons rfl .nil
  | bool b => cases b <;> exact fun _ => .cons rfl .nil
  | int n => exact fun _ => .cons rfl .nil
  | text content => exact fun _ => .cons rfl .nil
  | @array items _ ih =>
    intro stack
    cases items with
    | nil => exact .cons rfl (.cons rfl .nil)
    | cons v vs =>
      obtain ⟨hv, hvs⟩ := List.forall_mem_cons.1 ih
      have hlist : (vs.reverse ++ [v]).reverse = v :: vs := by simp
      have hclose : Leads [.closeArray] (.next (.array (vs.reverse ++ [v]) :: stack))
          (.put (.array (v :: vs)) stack) := .cons (by rw [State.step_closeArray, hlist]) .nil
      rw [Value.tokens, List.append_assoc]
      exact .cons rfl ((hv.first stack).append ((leads_itemTokens hvs [v] stack).append hclose))
  | @object members _ ih =>
    intro stack
    cases members with
    | nil => exact .cons rfl (.cons rfl .nil)
    | cons m ms =>
      obtain ⟨hm, hms⟩ := List.forall_mem_cons.1 ih
      have hlist : (ms.reverse ++ [m]).reverse = m :: ms := by simp
      have hclose : Leads [.closeObject] (.next (.object (ms.reverse ++ [m]) true :: stack))
          (.put (.object (m :: ms)) stack) :=
        .cons (by rw [State.step_closeObject, hlist]) .nil
      rw [Value.tokens, List.append_assoc]
      refine .cons rfl (.cons rfl (.cons rfl ((hm _).append ?_)))
      exact (leads_memberTokens hms [m] stack).append hclose

/-- Reading a printed value gives the value back, however it is laid out. -/
theorem Value.ofText?_print {layout : Layout} (hl : layout.Blank) {v : Value} (hv : v.Readable)
    (depth : Nat) : Value.ofText? (String.ofList (v.print layout depth)) = some v := by
  have hend : Apart [] := fun c hc => absurd hc (Option.not_mem_none c)
  have hscan := (hv.printsTokens hl depth hend .nil).scan_eq
  rw [List.append_nil, List.append_nil] at hscan
  rw [Value.ofText?, hscan, Option.bind_some, ofTokens?, hv.putByTokens []]
  rfl

end EntityWeaver.Json
