import EntityWeaver.Proofs.MethodBody.Scan

/-! Literals of a text.

    A literal is a quote, characters and escapes, and the same quote again. Behind a text one is
    outside of literals when the text is made of whole literals and of characters between them; a
    literal that nothing closes runs to the end, so that nothing behind its quote is outside. That
    is what the mode of the scan says. -/

namespace EntityWeaver.MethodBody

/-- What stands between the quotes of a literal. -/
inductive LiteralText (q : Char) : List Char → Prop
  | nil : LiteralText q []
  | char {c : Char} {xs : List Char} (hquote : c ≠ q) (hbackslash : c ≠ '\\')
      (h : LiteralText q xs) : LiteralText q (c :: xs)
  | escape {c : Char} {xs : List Char} (h : LiteralText q xs) : LiteralText q ('\\' :: c :: xs)

/-- Behind the text one is outside of literals: it has whole literals and characters between them. -/
inductive OutsideLiterals : List Char → Prop
  | nil : OutsideLiterals []
  | char {c : Char} {xs : List Char} (hc : ¬isQuote c = true) (h : OutsideLiterals xs) :
      OutsideLiterals (c :: xs)
  | literal {q : Char} {body xs : List Char} (hq : isQuote q = true) (hbody : LiteralText q body)
      (h : OutsideLiterals xs) : OutsideLiterals (q :: (body ++ q :: xs))

namespace Mode

/-- Text without quotes opens no literal. -/
theorem foldl_pass_of_not_isQuote {xs : List Char} (h : ∀ c ∈ xs, ¬isQuote c = true) :
    xs.foldl pass .code = .code := by
  induction xs with
  | nil => rfl
  | cons c xs ih =>
    obtain ⟨hc, hxs⟩ := List.forall_mem_cons.1 h
    rw [List.foldl_cons, pass, if_neg hc, ih hxs]

theorem foldl_pass_literal {q : Char} {body : List Char} (hq : isQuote q = true)
    (hbody : LiteralText q body) (xs : List Char) :
    (body ++ q :: xs).foldl pass (.literal q) = xs.foldl pass .code := by
  induction hbody with
  | nil =>
    have hbackslash : q ≠ '\\' := by
      rintro rfl
      exact absurd hq (by decide)
    rw [List.nil_append, List.foldl_cons, pass, if_neg hbackslash, if_pos rfl]
  | char hquote hbackslash _ ih =>
    rw [List.cons_append, List.foldl_cons, pass, if_neg hbackslash, if_neg hquote, ih]
  | escape _ ih =>
    rw [List.cons_append, List.cons_append, List.foldl_cons, pass, if_pos rfl, List.foldl_cons, pass,
      ih]

theorem exists_literalText {q : Char} : ∀ {xs : List Char}, xs.foldl pass (.literal q) = .code →
    ∃ body rest, LiteralText q body ∧ xs = body ++ q :: rest ∧ rest.foldl pass .code = .code
  | [], h => nomatch h
  | [c], h => by
    rw [List.foldl_cons, pass] at h
    split_ifs at h with hbackslash hquote
    · cases h
    · exact ⟨[], [], .nil, by rw [hquote]; rfl, rfl⟩
    · cases h
  | c :: d :: xs, h => by
    rw [List.foldl_cons, pass] at h
    split_ifs at h with hbackslash hquote
    · rw [List.foldl_cons, pass] at h
      obtain ⟨body, rest, hbody, rfl, hrest⟩ := exists_literalText h
      exact ⟨_, rest, .escape hbody, by rw [hbackslash]; rfl, hrest⟩
    · exact ⟨[], d :: xs, .nil, by rw [hquote]; rfl, h⟩
    · obtain ⟨body, rest, hbody, heq, hrest⟩ := exists_literalText h
      exact ⟨c :: body, rest, .char hquote hbackslash hbody, by rw [heq]; rfl, hrest⟩

/-- The scan is in code exactly where it is outside of literals. -/
theorem foldl_pass_eq_code_iff (xs : List Char) :
    xs.foldl pass .code = .code ↔ OutsideLiterals xs := by
  constructor
  · intro h
    match xs with
    | [] => exact .nil
    | c :: xs =>
      rw [List.foldl_cons, pass] at h
      split_ifs at h with hc
      · obtain ⟨body, rest, hbody, heq, hrest⟩ := exists_literalText h
        have hlength : rest.length < xs.length := by
          rw [heq, List.length_append, List.length_cons]
          omega
        rw [heq]
        exact .literal hc hbody ((foldl_pass_eq_code_iff rest).1 hrest)
      · exact .char hc ((foldl_pass_eq_code_iff xs).1 h)
  · intro h
    induction h with
    | nil => rfl
    | char hc _ ih => rwa [List.foldl_cons, pass, if_neg hc]
    | literal hq hbody _ ih => rwa [List.foldl_cons, pass, if_pos hq, foldl_pass_literal hq hbody]
termination_by xs.length
decreasing_by
  · rw [List.length_cons]
    omega
  · simp

end Mode

instance decidableOutsideLiterals (xs : List Char) : Decidable (OutsideLiterals xs) :=
  decidable_of_iff (xs.foldl Mode.pass .code = .code) (Mode.foldl_pass_eq_code_iff xs)

end EntityWeaver.MethodBody
