import EntityWeaver.Proofs.MethodBody.Nesting
import EntityWeaver.Proofs.MethodBody.Return
import Mathlib

/-! Returns behind comments.

    The scan reads a comment as it reads code. An apostrophe in it opens a literal, and a brace behind
    an arrow the body of a lambda; what the comment does not close is open behind it:

        // that's what's left            return;      two quotes: code again, replaced
        // don't stop                    return;      one quote: the rest is a literal, kept
        /* each(u -> { .. */             return;      a brace: the rest is the body of a lambda, kept

    Nothing else of the comment matters. As the statement behind the return has neither quotes nor
    braces, it is written as on its own behind a return that is replaced, and is kept with one that is
    not. -/

namespace EntityWeaver.MethodBody

open Text

/-- A comment, with what sets it apart from what is behind it. -/
inductive Comment : List Char → Prop
  | line {text : List Char} (h : '\n' ∉ text) : Comment ("//".toList ++ (text ++ ['\n']))
  | block {text : List Char} (h : ¬"*/".toList <:+: text) :
    Comment ("/*".toList ++ (text ++ "*/ ".toList))

namespace Mode

theorem pass_ne_code {m : Mode} (h : m.Delimited) (hcode : m ≠ .code) {c : Char}
    (hc : ¬isQuote c = true) : m.pass c ≠ .code := by
  cases m with
  | code => exact absurd rfl hcode
  | literal q =>
    have hne : c ≠ q := fun heq => hc (heq ▸ h)
    rw [pass, if_neg hne]
    split_ifs <;> simp
  | escaped q => simp [pass]
  | replaced n => exact h.elim

end Mode

namespace Scan

variable {s t : Scan}

theorem settled_of_delimited (h : s.mode.Delimited) : s.Settled := by
  intro n hn
  rw [hn] at h
  exact h

theorem delimited_passAll (h : s.mode.Delimited) (xs : List Char) : (s.passAll xs).mode.Delimited := by
  rw [mode_passAll (settled_of_delimited h)]
  exact List.foldlRecOn xs Mode.pass h fun m hm c _ => hm.pass c

/-- Where nothing is nested, text without quotes and braces is scanned alike behind any two states of
    code, if a word can follow both or neither. -/
theorem run_congr (hs : s.mode = .code) (ht : t.mode = .code) (hsnested : s.nested = [])
    (htnested : t.nested = []) (hword : atWordStart s.before = atWordStart t.before)
    {xs : List Char} (hxs : ∀ c ∈ xs, isPlain c = true) : s.run xs = t.run xs := by
  refine run_induction (motive := fun s xs => ∀ t : Scan, s.mode = .code → t.mode = .code →
    s.nested = [] → t.nested = [] → atWordStart s.before = atWordStart t.before →
    (∀ c ∈ xs, isPlain c = true) → s.run xs = t.run xs) ?nil ?stop ?keep s (settled_of_code hs) xs t
    hs ht hsnested htnested hword hxs
  case nil => exact fun _ _ _ _ _ _ _ _ => rfl
  case stop =>
    intro s blanks xs hstops hblanks ih t hs ht hsnested htnested hword hxs
    have hplain := isPlain_of_mem_bareReturn hblanks
    have hs' := passAll_of_isPlain hs hplain
    have ht' := passAll_of_isPlain ht hplain
    have hstops' : t.Stops := ⟨ht, htnested, hword ▸ hstops.word⟩
    rw [run_bareReturn hstops hblanks, run_bareReturn hstops' hblanks]
    refine congrArg _ (ih _ ?_ ?_ ?_ ?_ ?_ (List.forall_mem_append.1 hxs).2)
    · rw [hs', hs]
    · rw [ht', ht]
    · rw [hs', hsnested]
    · rw [ht', htnested]
    · rw [hs', ht', bareReturn_def, ← List.append_assoc, List.reverse_append]
      rfl
  case keep =>
    intro s c xs _ hstop ih t hs ht hsnested htnested hword hxs
    obtain ⟨hc, hxs⟩ := List.forall_mem_cons.1 hxs
    have hs' := pass_of_isPlain hs hc
    have ht' := pass_of_isPlain ht hc
    rw [run_cons (settled_of_code hs) hstop,
      run_cons (settled_of_code ht) fun h => hstop ⟨hs, hsnested, hword ▸ h.word⟩]
    refine congrArg _ (ih _ ?_ ?_ ?_ ?_ ?_ hxs)
    · rw [hs', hs]
    · rw [ht', ht]
    · rw [hs', hsnested]
    · rw [ht', htnested]
    · rw [hs', ht']
      rfl

/-- Behind an open literal or body, text without quotes and braces is written as it is. -/
theorem run_of_open (hs : s.mode.Delimited) (hopen : s.mode ≠ .code ∨ s.nested ≠ [])
    {xs : List Char} (hxs : ∀ c ∈ xs, isPlain c = true) : s.run xs = xs := by
  induction xs generalizing s with
  | nil => rfl
  | cons c xs ih =>
    obtain ⟨hc, hxs⟩ := List.forall_mem_cons.1 hxs
    have hsettled := settled_of_delimited hs
    have hmode := mode_pass hsettled c
    have hstop : s.Stops → bareReturn? (c :: xs) = none := fun hstops =>
      absurd hopen (not_or.2 ⟨not_not.2 hstops.code, not_not.2 hstops.own⟩)
    rw [run_cons hsettled hstop, ih (hmode ▸ hs.pass c) ?_ hxs]
    by_cases hcode : s.mode = .code
    · rw [pass_of_isPlain hcode hc]
      exact hopen
    · exact .inl (hmode ▸ Mode.pass_ne_code hs hcode (not_isQuote_of_isPlain hc))

/-- A return is replaced where nothing is open, and the text behind it is written as on its own. -/
theorem run_return (hs : s.mode.Delimited) (hword : atWordStart s.before = true) {xs : List Char}
    (hxs : ∀ c ∈ xs, isPlain c = true) :
    s.run (bareReturn [] ++ xs) = if s.mode = .code ∧ s.nested = [] then
      "return false;".toList ++ signalReturns xs else bareReturn [] ++ xs := by
  have hblanks : Blanks [] := List.forall_mem_nil _
  have hreturn := isPlain_of_mem_bareReturn hblanks
  split_ifs with hclear
  · have hstops : s.Stops := ⟨hclear.1, hclear.2, hword⟩
    have hpass := passAll_of_isPlain hstops.code hreturn
    have hmode : (s.passAll (bareReturn [])).mode = .code := by rw [hpass, hstops.code]
    have hnested : (s.passAll (bareReturn [])).nested = [] := by rw [hpass, hstops.own]
    have hbehind : atWordStart (s.passAll (bareReturn [])).before = atWordStart [] := by
      rw [hpass]
      rfl
    rw [run_bareReturn hstops hblanks, signalReturns,
      run_congr (t := {}) hmode rfl hnested rfl hbehind hxs]
  · exact run_of_open hs (not_and_or.1 hclear) (List.forall_mem_append.2 ⟨hreturn, hxs⟩)

end Scan

variable {comment statement : List Char}

theorem Comment.exists_concat (h : Comment comment) :
    ∃ xs c, comment = xs ++ [c] ∧ c ∉ "self()".toList ∧ isWordChar c = false := by
  cases h with
  | @line text _ => exact ⟨"//".toList ++ text, '\n', by simp, by decide, by decide⟩
  | @block text _ => exact ⟨"/*".toList ++ (text ++ "*/".toList), ' ', by simp, by decide, by decide⟩

/-- A word can follow a comment. -/
theorem Comment.atWordStart (h : Comment comment) :
    atWordStart (Scan.passAll {} (replaceSelf comment)).before = true := by
  obtain ⟨xs, c, rfl, hcall, hc⟩ := h.exists_concat
  rw [Scan.before_passAll Scan.settled_empty, replaceSelf_append_cons hcall, List.reverse_append]
  show (!isWordChar c) = true
  rw [hc]
  rfl

/-- A return behind a comment is replaced if the comment, read as code, leaves no literal open and no
    body of a lambda or a class; what follows is then written as on its own. Else both are kept. -/
theorem statements?_comment (hcomment : Comment comment)
    (hstatement : ∀ c ∈ statement, isPlain c = true) :
    statements? (String.ofList (comment ++ (bareReturn [] ++ statement))) .signal =
      some (String.ofList (signalReturns (replaceSelf comment) ++
        if OutsideLiterals comment ∧ ClosesBodies (replaceSelf comment) then
          "return false;".toList ++ signalReturns (replaceSelf statement)
        else bareReturn [] ++ replaceSelf statement)) := by
  have hcut : Parted comment (bareReturn [] ++ statement) := parted_cons (by decide)
  have hsplit : replaceSelf (comment ++ (bareReturn [] ++ statement)) =
      replaceSelf comment ++ (bareReturn [] ++ replaceSelf statement) := by
    rw [replaceSelf_append hcut, replaceSelf_append_of_not_mem (by decide)]
  have hstatement' : ∀ c ∈ replaceSelf statement, isPlain c = true :=
    forall_mem_replaceSelf (List.all_eq_true.1 (by rfl)) hstatement
  have hbehind := Scan.run_return (Scan.delimited_passAll (s := {}) trivial (replaceSelf comment))
    hcomment.atWordStart hstatement'
  simp only [Scan.code_passAll_replaceSelf_iff, ← closesBodies_iff] at hbehind
  rw [statements?_signal (c := 'r') (by simp [bareReturn_eq]) (by decide), hsplit, signalReturns,
    Scan.run_append_bareReturn Scan.settled_empty, hbehind]
  rfl

/-- The apostrophes pair up, so that what is between them is read as a literal; and the brace opens no
    body. -/
theorem statements?_comment_paired :
    Comment "// it's what's left \x7b\n".toList ∧ (∀ c ∈ " gone();".toList, isPlain c = true) ∧
      statements? (String.ofList ("// it's what's left \x7b\n".toList ++
          (bareReturn [] ++ " gone();".toList))) .signal =
        some "// it's what's left \x7b\nreturn false; gone();" := by
  have hcomment : Comment "// it's what's left \x7b\n".toList :=
    @Comment.line " it's what's left \x7b".toList (by decide)
  have hstatement : ∀ c ∈ " gone();".toList, isPlain c = true := List.all_eq_true.1 (by decide)
  have hclear : OutsideLiterals "// it's what's left \x7b\n".toList ∧
      ClosesBodies (replaceSelf "// it's what's left \x7b\n".toList) := by decide
  refine ⟨hcomment, hstatement, ?_⟩
  rw [statements?_comment hcomment hstatement, if_pos hclear]
  decide

/-- An apostrophe opens a literal, and an arrow in front of a brace the body of a lambda. -/
theorem exists_hidden :
    (Comment "// don't stop\n".toList ∧
        statements? "// don't stop\nreturn;" .signal = some "// don't stop\nreturn;") ∧
      Comment "/* each(u -> \x7b */ ".toList ∧
        statements? "/* each(u -> \x7b */ return;" .signal =
          some "/* each(u -> \x7b */ return;" := by
  exact ⟨⟨@Comment.line " don't stop".toList (by decide), by decide⟩,
    @Comment.block " each(u -> \x7b ".toList (by decide), by decide⟩

end EntityWeaver.MethodBody
