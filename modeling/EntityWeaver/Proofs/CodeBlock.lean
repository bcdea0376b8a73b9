import EntityWeaver.Source.CodeBlock
import Mathlib.Data.List.Basic

/-! Code blocks by the calls that make them.

    A block at the margin that closes a brace stays at the margin, so its depth does not tell that
    nobody opened it. Calls are walked here with a level that has no answer then:

        lines, append      d ──▶ d
        begin              d ──▶ d + 1
        next           d + 1 ──▶ d + 1        0 ──▶ none
        finish         d + 1 ──▶ d            0 ──▶ none

    A block is balanced if the calls that made it can be walked from the margin back to the margin. Such
    calls write the same lines at any depth, moved by that depth. If all their lines but braces are
    statements, the walk can be read off the lines as well. -/

namespace EntityWeaver

namespace CodeBlock

/-- What is done to a block. -/
inductive Call where
  /-- Lines at the present depth. -/
  | lines (texts : List String)
  /-- The lines of another block. -/
  | append (other : CodeBlock)
  | begin (header : String)
  | next (header : String)
  | finish

/-- The block behind a call. -/
def perform (b : CodeBlock) : Call → CodeBlock
  | .lines texts => b.appendTexts texts
  | .append other => b.append other
  | .begin header => b.begin header
  | .next header => b.next header
  | .finish => b.finish

/-- The block behind calls. -/
def performAll (b : CodeBlock) (calls : List Call) : CodeBlock := calls.foldl perform b

/-- The level behind a call, none if it closes what nobody opened. -/
def Call.level? : Nat → Call → Option Nat
  | d, .lines _ => some d
  | d, .append _ => some d
  | d, .begin _ => some (d + 1)
  | 0, .next _ => none
  | d + 1, .next _ => some (d + 1)
  | 0, .finish => none
  | d + 1, .finish => some d

/-- The level behind calls. -/
def levelBehind? (d : Nat) (calls : List Call) : Option Nat := calls.foldlM Call.level? d

/-- The calls that made the block lead from the margin back to it, and so do those that made the
    blocks it was given. -/
inductive Balanced : CodeBlock → Prop
  | made {calls : List Call} (hlevel : levelBehind? 0 calls = some 0)
      (happended : ∀ other, .append other ∈ calls → Balanced other) :
      Balanced (empty.performAll calls)

variable {b : CodeBlock} {calls : List Call} {call : Call} {d e k : Nat}

theorem performAll_cons (b : CodeBlock) (call : Call) (calls : List Call) :
    b.performAll (call :: calls) = (b.perform call).performAll calls := rfl

theorem performAll_append (b : CodeBlock) (calls rest : List Call) :
    b.performAll (calls ++ rest) = (b.performAll calls).performAll rest := List.foldl_append ..

theorem levelBehind?_cons_eq_some : levelBehind? d (call :: calls) = some e ↔
    ∃ k, call.level? d = some k ∧ levelBehind? k calls = some e := Option.bind_eq_some_iff

theorem levelBehind?_append (d : Nat) (calls rest : List Call) :
    levelBehind? d (calls ++ rest) = (levelBehind? d calls).bind (levelBehind? · rest) :=
  List.foldlM_append

/-! ### Calls at a depth -/

/-- Where the walk goes on, the block goes along. -/
theorem depth_perform (h : call.level? b.depth = some e) : (b.perform call).depth = e := by
  obtain ⟨lines, d⟩ := b
  cases call with
  | lines texts => exact Option.some.inj h
  | append other => exact Option.some.inj h
  | begin header => exact Option.some.inj h
  | next header =>
    cases d with
    | zero => cases h
    | succ d => exact Option.some.inj h
  | finish =>
    cases d with
    | zero => cases h
    | succ d => exact Option.some.inj h

theorem depth_performAll (h : levelBehind? b.depth calls = some e) :
    (b.performAll calls).depth = e := by
  induction calls generalizing b with
  | nil => exact Option.some.inj h
  | cons call calls ih =>
    obtain ⟨d, hcall, hcalls⟩ := levelBehind?_cons_eq_some.1 h
    exact ih (depth_perform hcall ▸ hcalls)

/-- The block behind other lines, moved to a depth. -/
def placed (front : List CodeLine) (k : Nat) (b : CodeBlock) : CodeBlock :=
  ⟨front ++ b.lines.map fun l => ⟨k + l.depth, l.text⟩, k + b.depth⟩

theorem perform_placed (front : List CodeLine) (k : Nat) (h : (call.level? b.depth).isSome = true) :
    (placed front k b).perform call = placed front k (b.perform call) := by
  obtain ⟨lines, d⟩ := b
  cases call with
  | lines texts => simp [placed, perform, appendTexts]
  | append other => simp [placed, perform, append, Nat.add_assoc]
  | begin header => simp [placed, perform, begin, line, deeper, Nat.add_assoc]
  | next header =>
    cases d with
    | zero => cases h
    | succ d => simp [placed, perform, next, shallower, line, deeper, ← Nat.add_assoc]
  | finish =>
    cases d with
    | zero => cases h
    | succ d => simp [placed, perform, finish, shallower, line, ← Nat.add_assoc]

/-- Calls that can be walked do the same to a block wherever it is placed. -/
theorem performAll_placed (front : List CodeLine) (k : Nat) (h : levelBehind? b.depth calls = some e) :
    (placed front k b).performAll calls = placed front k (b.performAll calls) := by
  induction calls generalizing b with
  | nil => rfl
  | cons call calls ih =>
    obtain ⟨d, hcall, hcalls⟩ := levelBehind?_cons_eq_some.1 h
    rw [performAll_cons, perform_placed front k (by rw [hcall]; rfl),
      ih (depth_perform hcall ▸ hcalls), performAll_cons]

/-- Calls that lead from the margin back to it append the block that they make. -/
theorem performAll_eq_append (b : CodeBlock) (h : levelBehind? 0 calls = some 0) :
    b.performAll calls = b.append (empty.performAll calls) := by
  have hstart : b = placed b.lines b.depth empty := by simp [placed, empty]
  have hplaced := performAll_placed (b := empty) b.lines b.depth h
  rw [← hstart] at hplaced
  have hdepth : (empty.performAll calls).depth = 0 := depth_performAll (b := empty) h
  rw [hplaced, placed, hdepth]
  rfl

theorem level?_add (k : Nat) (h : call.level? d = some e) : call.level? (k + d) = some (k + e) := by
  cases call with
  | lines texts => cases h; rfl
  | append other => cases h; rfl
  | begin header => cases h; rfl
  | next header =>
    cases d with
    | zero => cases h
    | succ d => cases h; rfl
  | finish =>
    cases d with
    | zero => cases h
    | succ d => cases h; rfl

/-- What can be walked from a level can be walked from a deeper one. -/
theorem levelBehind?_add (k : Nat) (h : levelBehind? d calls = some e) :
    levelBehind? (k + d) calls = some (k + e) := by
  induction calls generalizing d with
  | nil => exact congrArg (Option.map (k + ·)) h
  | cons call calls ih =>
    obtain ⟨d', hcall, hcalls⟩ := levelBehind?_cons_eq_some.1 h
    exact levelBehind?_cons_eq_some.2 ⟨k + d', level?_add k hcall, ih hcalls⟩

theorem Balanced.performAll (h : b.Balanced) (hlevel : levelBehind? 0 calls = some 0)
    (happended : ∀ other, .append other ∈ calls → other.Balanced) : (b.performAll calls).Balanced := by
  cases h with
  | @made before hbefore hgiven =>
    rw [← performAll_append]
    refine .made (by rw [levelBehind?_append, hbefore, Option.bind_some, hlevel]) fun other hother => ?_
    exact (List.mem_append.1 hother).elim (hgiven other) (happended other)

/-! ### The level of a line -/

/-- A statement, or a brace with a header that does not start with one: what the call did shows in its
    line. -/
def Call.Plain : Call → Prop
  | .lines texts => ∀ text ∈ texts, text.toList.getLast? = some ';'
  | .append _ => False
  | .begin header => header.toList.head? ≠ some '\x7d'
  | .next _ => True
  | .finish => True

/-- The line opens a brace. -/
def Opens (text : String) : Prop := text.toList.getLast? = some '\x7b'

/-- The line closes a brace. -/
def Closes (text : String) : Prop :=
  text.toList.head? = some '\x7d' ∧ text.toList.getLast? ≠ some ';'

instance decidableOpens (text : String) : Decidable (Opens text) := inferInstanceAs (Decidable (_ = _))

instance decidableCloses (text : String) : Decidable (Closes text) :=
  inferInstanceAs (Decidable (_ ∧ _))

/-- The level behind a line, none if it closes what nobody opened or does not stand where it is
    reached. -/
def lineLevel? (d : Nat) (l : CodeLine) : Option Nat :=
  if Closes l.text then
    if l.depth + 1 = d then some (if Opens l.text then l.depth + 1 else l.depth) else none
  else if l.depth = d then some (if Opens l.text then d + 1 else d) else none

/-- The lines of the block lead from the margin back to it, and each stands as deep as braces are open
    around it. -/
def Nested (b : CodeBlock) : Prop := b.lines.foldlM lineLevel? 0 = some 0 ∧ b.depth = 0

instance decidableNested (b : CodeBlock) : Decidable b.Nested := inferInstanceAs (Decidable (_ ∧ _))

/-- A brace that nobody opened does not change the depth, but it shows. -/
example : empty.finish.depth = 0 ∧ ¬empty.finish.Nested := by decide

theorem lineLevel?_statement {text : String} (h : text.toList.getLast? = some ';') :
    lineLevel? d ⟨d, text⟩ = some d := by
  have hcloses : ¬Closes text := fun hcloses => hcloses.2 h
  have hopens : ¬Opens text := by simp [Opens, h]
  simp [lineLevel?, hcloses, hopens]

theorem opens_brace (text : String) : Opens (text ++ " \x7b") := by simp [Opens]

theorem lineLevel?_begin {header : String} (h : header.toList.head? ≠ some '\x7d') :
    lineLevel? d ⟨d, header ++ " \x7b"⟩ = some (d + 1) := by
  have hcloses : ¬Closes (header ++ " \x7b") := by
    rintro ⟨hhead, -⟩
    rw [String.toList_append, List.head?_append] at hhead
    cases hfirst : header.toList.head? with
    | none => simp [hfirst] at hhead
    | some c => exact h (by simpa [hfirst] using hhead)
  simp [lineLevel?, hcloses, opens_brace]

theorem lineLevel?_next (d : Nat) (header : String) :
    lineLevel? (d + 1) ⟨d, "\x7d " ++ header ++ " \x7b"⟩ = some (d + 1) := by
  have hopens : Opens ("\x7d " ++ header ++ " \x7b") := opens_brace _
  have hcloses : Closes ("\x7d " ++ header ++ " \x7b") := ⟨by simp, by rw [hopens]; decide⟩
  simp [lineLevel?, hcloses, hopens]

theorem lineLevel?_finish (d : Nat) : lineLevel? (d + 1) ⟨d, "\x7d"⟩ = some d := by
  have hcloses : Closes "\x7d" := by decide
  have hopens : ¬Opens "\x7d" := by decide
  simp [lineLevel?, hcloses, hopens]

theorem foldlM_lineLevel?_statements {texts : List String}
    (h : ∀ text ∈ texts, text.toList.getLast? = some ';') :
    (texts.map fun text => (⟨d, text⟩ : CodeLine)).foldlM lineLevel? d = some d := by
  induction texts with
  | nil => rfl
  | cons text texts ih =>
    obtain ⟨hfirst, hrest⟩ := List.forall_mem_cons.1 h
    rw [List.map_cons, List.foldlM_cons, lineLevel?_statement hfirst]
    exact ih hrest

/-- What a plain call writes leads where the call does. -/
theorem exists_lines_perform (hplain : call.Plain) (h : call.level? b.depth = some e) :
    ∃ written, (b.perform call).lines = b.lines ++ written ∧
      written.foldlM lineLevel? b.depth = some e := by
  obtain ⟨lines, d⟩ := b
  cases call with
  | lines texts =>
    cases h
    exact ⟨_, rfl, foldlM_lineLevel?_statements hplain⟩
  | append other => exact hplain.elim
  | begin header =>
    cases h
    exact ⟨_, rfl, congrArg (· >>= pure) (lineLevel?_begin hplain)⟩
  | next header =>
    cases d with
    | zero => cases h
    | succ d =>
      cases h
      exact ⟨_, rfl, congrArg (· >>= pure) (lineLevel?_next _ header)⟩
  | finish =>
    cases d with
    | zero => cases h
    | succ d =>
      cases h
      exact ⟨_, rfl, congrArg (· >>= pure) (lineLevel?_finish _)⟩

/-- What plain calls write leads where the calls do. -/
theorem exists_lines_performAll (hplain : ∀ call ∈ calls, call.Plain)
    (h : levelBehind? b.depth calls = some e) :
    ∃ written, (b.performAll calls).lines = b.lines ++ written ∧
      written.foldlM lineLevel? b.depth = some e := by
  induction calls generalizing b with
  | nil => exact ⟨[], (List.append_nil _).symm, h⟩
  | cons call calls ih =>
    obtain ⟨hcall, hcalls⟩ := List.forall_mem_cons.1 hplain
    obtain ⟨d, hd, he⟩ := levelBehind?_cons_eq_some.1 h
    obtain ⟨first, hfirst, hlevel⟩ := exists_lines_perform hcall hd
    obtain ⟨rest, hrest, hend⟩ := ih hcalls (depth_perform hd ▸ he)
    refine ⟨first ++ rest, by rw [performAll_cons, hrest, hfirst, List.append_assoc], ?_⟩
    rw [List.foldlM_append, hlevel]
    exact depth_perform hd ▸ hend

/-! ### Blocks of plain calls -/

/-- What plain calls make of a block, from a level to a level. -/
def Writes (d e : Nat) (b b' : CodeBlock) : Prop := ∃ calls, (∀ call ∈ calls, call.Plain) ∧
  levelBehind? d calls = some e ∧ b' = b.performAll calls

variable {b' b'' : CodeBlock} {f : Nat}

theorem Writes.refl (d : Nat) (b : CodeBlock) : Writes d d b b :=
  ⟨[], List.forall_mem_nil _, rfl, rfl⟩

theorem Writes.trans (h : Writes d e b b') (h' : Writes e f b' b'') : Writes d f b b'' := by
  obtain ⟨calls, hplain, hlevel, rfl⟩ := h
  obtain ⟨rest, hplain', hlevel', rfl⟩ := h'
  refine ⟨calls ++ rest, List.forall_mem_append.2 ⟨hplain, hplain'⟩, ?_, (performAll_append ..).symm⟩
  rw [levelBehind?_append, hlevel, Option.bind_some, hlevel']

theorem writes_perform (b : CodeBlock) (call : Call) (hplain : call.Plain)
    (h : call.level? d = some e) : Writes d e b (b.perform call) :=
  ⟨[call], List.forall_mem_singleton.2 hplain, levelBehind?_cons_eq_some.2 ⟨e, h, rfl⟩, rfl⟩

theorem Writes.line (h : Writes d e b b') {text : String} (htext : text.toList.getLast? = some ';') :
    Writes d e b (b'.line text) :=
  h.trans (writes_perform b' (.lines [text]) (List.forall_mem_singleton.2 htext) rfl)

theorem Writes.statement (h : Writes d e b b') (text : String) :
    Writes d e b (b'.statement text) := h.line (by simp)

theorem Writes.statements (h : Writes d e b b') (texts : List String) :
    Writes d e b (b'.statements texts) := by
  have hplain : (Call.lines (texts.map (· ++ ";"))).Plain :=
    List.forall_mem_map.2 fun text _ => by simp
  exact h.trans (writes_perform b' _ hplain rfl)

theorem Writes.begin (h : Writes d e b b') {header : String}
    (hheader : header.toList.head? ≠ some '\x7d') : Writes d (e + 1) b (b'.begin header) :=
  h.trans (writes_perform b' (.begin header) hheader rfl)

theorem Writes.next (h : Writes d (e + 1) b b') (header : String) :
    Writes d (e + 1) b (b'.next header) :=
  h.trans (writes_perform b' (.next header) trivial rfl)

theorem Writes.finish (h : Writes d (e + 1) b b') : Writes d e b b'.finish :=
  h.trans (writes_perform b' .finish trivial rfl)

theorem Writes.foldl {α : Type} {step : CodeBlock → α → CodeBlock} (h : Writes d e b b')
    (hstep : ∀ c x, Writes e e c (step c x)) (xs : List α) : Writes d e b (xs.foldl step b') := by
  induction xs generalizing b' with
  | nil => exact h
  | cons x xs ih => exact ih (h.trans (hstep b' x))

/-- A block that plain calls write from margin to margin is balanced, and its lines show it. -/
theorem Writes.balanced (h : Writes 0 0 empty b) : b.Balanced ∧ b.Nested := by
  obtain ⟨calls, hplain, hlevel, rfl⟩ := h
  obtain ⟨written, hlines, hend⟩ := exists_lines_performAll (b := empty) hplain hlevel
  refine ⟨.made hlevel fun other hother => (hplain _ hother).elim, ?_, depth_performAll (b := empty) hlevel⟩
  rw [hlines]
  exact hend

end CodeBlock

end EntityWeaver
