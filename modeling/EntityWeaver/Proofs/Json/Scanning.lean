import EntityWeaver.Json.Value
import Mathlib.Data.List.Basic

/-! Printed JSON is cut into the tokens that it is printed from.

    A cut is described from its end: in front of a text with known tokens stands a blank, which adds
    none, or one more token. So the text of a value is followed from the back to the front:

        ts          the tokens of what follows
        ]  ts       ... with the bracket
        v  ]  ts    ... with the last item, and so on

    Only a number needs to know what follows it, because a digit, a point or an exponent mark would
    belong to it. -/

namespace EntityWeaver.Json

/-- A text is cut into tokens. -/
inductive Scans : List Char → List Token → Prop where
  | nil : Scans [] []
  | blank {c : Char} {s : List Char} {ts : List Token} (hblank : isSpace c = true)
      (hrest : Scans s ts) : Scans (c :: s) ts
  | token {c : Char} {s after : List Char} {t : Token} {ts : List Token}
      (hblank : isSpace c = false) (htoken : scanToken (c :: s) = some (t, after))
      (hshort : after.length ≤ s.length) (hrest : Scans after ts) : Scans (c :: s) (t :: ts)

namespace Scans

variable {s rest : List Char} {ts : List Token}

/-- The cut is found in as many steps as the text has characters, or more. -/
theorem scanWithin_eq (h : Scans s ts) :
    ∀ {room : Nat}, s.length ≤ room → scanWithin room s = some ts := by
  induction h with
  | nil =>
    intro room _
    unfold scanWithin
    rfl
  | @blank c s ts hblank _ ih =>
    intro room hroom
    have hskip : scanWithin room (c :: s) = scanWithin room s := by
      unfold scanWithin
      rw [List.dropWhile_cons_of_pos hblank]
    rw [hskip]
    exact ih (Nat.le_of_succ_le hroom)
  | @token c s after t ts hblank htoken hshort _ ih =>
    intro room hroom
    obtain ⟨room, rfl⟩ : ∃ k, room = k + 1 := Nat.exists_eq_succ_of_ne_zero (by simp at hroom; omega)
    unfold scanWithin
    rw [List.dropWhile_cons_of_neg (by simp [hblank])]
    simp only [htoken, Option.bind_eq_bind, Option.bind_some]
    rw [ih (Nat.le_trans hshort (Nat.le_of_succ_le_succ hroom))]
    rfl

theorem scan_eq (h : Scans s ts) : scan (String.ofList s) = some ts := by
  rw [scan, String.toList_ofList]
  exact h.scanWithin_eq (by simp)

theorem blanks {blanks : List Char} (hblanks : ∀ c ∈ blanks, isSpace c = true) (h : Scans rest ts) :
    Scans (blanks ++ rest) ts := by
  induction blanks with
  | nil => exact h
  | cons c blanks ih =>
    obtain ⟨hc, hblanks⟩ := List.forall_mem_cons.1 hblanks
    exact .blank hc (ih hblanks)

/-- A token that is read off the front of a text and not blank there. -/
theorem word {c : Char} {cs : List Char} {t : Token} (hblank : isSpace c = false)
    (htoken : scanToken (c :: cs ++ rest) = some (t, rest)) (h : Scans rest ts) :
    Scans (c :: cs ++ rest) (t :: ts) :=
  .token hblank htoken (by simp) h

end Scans

/-! ### Strings -/

/-- A hexadecimal digit is read as its value. -/
theorem hexDigit?_digitChar : ∀ d < 16, hexDigit? (Nat.digitChar d) = some d := by decide

/-- The number of a control character is read back. -/
theorem codeUnit?_control {n : Nat} (h : n < 0x20) :
    codeUnit? '0' '0' (Nat.digitChar (n / 16)) (Nat.digitChar (n % 16)) = some n := by
  have hzero : hexDigit? '0' = some 0 := rfl
  rw [codeUnit?, hzero, hexDigit?_digitChar (n / 16) (by omega),
    hexDigit?_digitChar (n % 16) (by omega)]
  simp only [Option.bind_eq_bind, Option.bind_some, Option.pure_def, Option.some.injEq]
  omega

/-- A character of a string is written with an escape of its own, by its number, or as it is. -/
theorem escape_cases (c : Char) :
    (∃ e, escape c = ['\\', e] ∧ e ≠ 'u' ∧ escaped? e = some c) ∨
    (c.toNat < 0x20 ∧ escape c = ['\\', 'u', '0', '0', Nat.digitChar (c.toNat / 16),
      Nat.digitChar (c.toNat % 16)]) ∨
    (¬c.toNat < 0x20 ∧ c ≠ '"' ∧ c ≠ '\\' ∧ escape c = [c]) := by
  unfold escape
  split
  iterate 7 exact .inl ⟨_, rfl, by decide, rfl⟩
  next hquote hbackslash _ _ _ _ _ =>
    split
    · next hcontrol => exact .inr (.inl ⟨hcontrol, rfl⟩)
    · next hcontrol => exact .inr (.inr ⟨hcontrol, hquote, hbackslash, rfl⟩)

/-- What a character of a string is read as. -/
def Piece.Spells (p : Piece) (c : Char) : Prop := p = .char c ∨ p = .unit c.toNat ∧ c.toNat < 0x20

/-- A written character is read as one piece. -/
theorem exists_scanString_escape (c : Char) : ∃ p : Piece, p.Spells c ∧ ∀ rest,
    scanString (escape c ++ rest) = (scanString rest).map fun (ps, after) => (p :: ps, after) := by
  rcases escape_cases c with ⟨e, hescape, hu, hescaped⟩ | ⟨hcontrol, hescape⟩ |
    ⟨hcontrol, hquote, hbackslash, hescape⟩
  · refine ⟨.char c, .inl rfl, fun rest => ?_⟩
    simp only [hescape, List.cons_append, List.nil_append]
    rw [scanString]
    · rw [hescaped]
      cases scanString rest <;> rfl
    · exact fun _ _ _ _ _ he => absurd he hu
  · refine ⟨.unit c.toNat, .inr ⟨rfl, hcontrol⟩, fun rest => ?_⟩
    simp only [hescape, List.cons_append, List.nil_append]
    rw [scanString, codeUnit?_control hcontrol]
    cases scanString rest <;> rfl
  · refine ⟨.char c, .inl rfl, fun rest => ?_⟩
    rw [hescape, List.singleton_append, scanString]
    · rw [if_neg (by simp [hcontrol, hbackslash])]
      cases scanString rest <;> rfl
    · exact hquote
    · exact fun _ _ _ _ _ hc => absurd hc hbackslash
    · exact fun _ _ hc => absurd hc hbackslash

/-- Pieces that are read for characters spell them. -/
theorem spell?_eq_some {cs : List Char} {ps : List Piece} (h : List.Forall₂ Piece.Spells ps cs) :
    spell? ps = some cs := by
  induction h with
  | nil => rfl
  | @cons p c ps cs hp _ ih =>
    rcases hp with rfl | ⟨rfl, hcontrol⟩
    · rw [spell?, ih]
      rfl
    · have hhigh : isHighSurrogate c.toNat = false := by
        simp only [isHighSurrogate, Bool.and_eq_false_iff, decide_eq_false_iff_not]
        omega
      have hlow : isLowSurrogate c.toNat = false := by
        simp only [isLowSurrogate, Bool.and_eq_false_iff, decide_eq_false_iff_not]
        omega
      have hrest : spell? (.unit c.toNat :: ps) = (spell? ps).map (Char.ofNat c.toNat :: ·) := by
        cases ps with
        | nil => simp [spell?, hhigh, hlow]
        | cons q qs => cases q <;> simp [spell?, hhigh, hlow]
      rw [hrest, ih, Char.ofNat_toNat]
      rfl

/-- The characters of a string are read up to the closing quote. -/
theorem exists_scanString (cs rest : List Char) : ∃ ps, List.Forall₂ Piece.Spells ps cs ∧
    scanString (cs.flatMap escape ++ '"' :: rest) = some (ps, rest) := by
  induction cs with
  | nil => exact ⟨[], .nil, by rw [List.flatMap_nil, List.nil_append, scanString]⟩
  | cons c cs ih =>
    obtain ⟨p, hp, hscan⟩ := exists_scanString_escape c
    obtain ⟨ps, hps, hrest⟩ := ih
    refine ⟨p :: ps, .cons hp hps, ?_⟩
    rw [List.flatMap_cons, List.append_assoc, hscan, hrest]
    rfl

namespace Scans

variable {s rest : List Char} {ts : List Token}

/-- A string is one token. -/
theorem quote (content : String) (h : Scans rest ts) :
    Scans (Json.quote content ++ rest) (.text content :: ts) := by
  obtain ⟨ps, hps, hscan⟩ := exists_scanString content.toList rest
  have htoken : scanToken ('"' :: (content.toList.flatMap escape ++ ['"'] ++ rest)) =
      some (.text content, rest) := by
    rw [scanToken, List.append_assoc, List.singleton_append, hscan]
    simp [Token.ofPieces, spell?_eq_some hps]
  have hshort : rest.length ≤ (content.toList.flatMap escape ++ ['"'] ++ rest).length := by
    rw [List.length_append]
    exact Nat.le_add_left _ _
  exact .token rfl htoken hshort h

end Scans

/-! ### Numbers -/

/-- Nothing that could go on with a number stands in front of a text. -/
def Apart (rest : List Char) : Prop :=
  ∀ c ∈ rest.head?, c.isDigit = false ∧ c ≠ '.' ∧ c ≠ 'e' ∧ c ≠ 'E'

/-- Only zero is written with a zero in front. -/
theorem head?_toDigits_ne {n : Nat} (h : n ≠ 0) : (Nat.toDigits 10 n).head? ≠ some '0' := by
  induction n using Nat.base_induction 10 (by decide) with
  | single m hm =>
    rw [Nat.toDigits_of_lt_base hm]
    simpa using h
  | digit m k hk hm ih =>
    rw [← Nat.toDigits_append_toDigits (by decide) hm hk,
      List.head?_append_of_ne_nil _ Nat.toDigits_ne_nil]
    exact ih (Nat.pos_iff_ne_zero.1 hm)

section Digits

variable {rest : List Char}

theorem takeWhole_digits (n : Nat) (h : Apart rest) :
    takeWhole (Nat.toDigits 10 n ++ rest) = some (Nat.toDigits 10 n, rest) := by
  by_cases hn : n = 0
  · subst hn
    rw [Nat.toDigits_zero]
    rfl
  have hdigits : ∀ c ∈ Nat.toDigits 10 n, c.isDigit = true := fun c hc =>
    Nat.isDigit_of_mem_toDigits (by decide) (by decide) hc
  have hrest : rest.takeWhile Char.isDigit = [] ∧ rest.dropWhile Char.isDigit = rest := by
    cases rest with
    | nil => exact ⟨rfl, rfl⟩
    | cons c cs =>
      have hc : ¬c.isDigit = true := by simp [(h c rfl).1]
      exact ⟨List.takeWhile_cons_of_neg hc, List.dropWhile_cons_of_neg hc⟩
  have htake : takeDigits (Nat.toDigits 10 n ++ rest) = (Nat.toDigits 10 n, rest) := by
    rw [takeDigits, List.takeWhile_append_of_pos hdigits, List.dropWhile_append_of_pos hdigits,
      hrest.1, hrest.2, List.append_nil]
  have hhead := head?_toDigits_ne hn
  cases hds : Nat.toDigits 10 n with
  | nil => exact absurd hds Nat.toDigits_ne_nil
  | cons d ds =>
    rw [hds] at htake hhead
    rw [List.cons_append] at htake ⊢
    rw [takeWhole, htake]
    exact fun _ hzero => hhead (congrArg some (List.cons.inj hzero).1)

/-- An integer without a sign is read up to where it ends. -/
theorem scanNumber_digits (n : Nat) (h : Apart rest) :
    scanNumber (Nat.toDigits 10 n ++ rest) = some (Nat.toDigits 10 n, rest) := by
  have hfraction : takeFraction rest = some ([], rest) := by
    cases rest with
    | nil => rfl
    | cons c cs =>
      rw [takeFraction]
      exact fun _ hpoint => (h c rfl).2.1 (List.cons.inj hpoint).1
  have hpower : takeExponent rest = some ([], rest) := by
    cases rest with
    | nil => rfl
    | cons c cs =>
      obtain ⟨-, -, he, hE⟩ := h c rfl
      rw [takeExponent, if_neg (by simp [he, hE])]
  rw [scanNumber, takeWhole_digits n h]
  simp only [Option.bind_eq_bind, Option.bind_some, hfraction, hpower, List.append_nil]

end Digits

/-- A digit begins no other token. -/
theorem scanToken_digit {c : Char} (h : c.isDigit = true) (s : List Char) :
    scanToken (c :: s) =
      (scanNumber (c :: s)).map fun (literal, after) => (.number (String.ofList literal), after) := by
  have hne : ∀ d : Char, d.isDigit = false → c ≠ d := by
    rintro _ hd rfl
    rw [h] at hd
    cases hd
  rw [scanToken]
  all_goals exact fun _ hc => absurd (List.cons.inj hc).1 (hne _ rfl)

theorem isSpace_digit {c : Char} (h : c.isDigit = true) : isSpace c = false := by
  have hne : ∀ d : Char, d.isDigit = false → (c == d) = false := by
    intro d hd
    refine beq_eq_false_iff_ne.2 ?_
    rintro rfl
    rw [h] at hd
    cases hd
  rw [isSpace, hne ' ' rfl, hne '\t' rfl, hne '\n' rfl, hne '\r' rfl]
  rfl

/-- An integer is one token. -/
theorem Scans.integer {rest : List Char} {ts : List Token} (n : Int) (hapart : Apart rest)
    (h : Scans rest ts) :
    Scans ((Text.signed n).toList ++ rest) (.number (Text.signed n) :: ts) := by
  cases n with
  | ofNat n =>
    have htext : (Text.signed (.ofNat n)).toList = Nat.toDigits 10 n := String.toList_ofList
    have hscan := scanNumber_digits n hapart
    rw [← htext] at hscan
    cases hds : (Text.signed (.ofNat n)).toList with
    | nil => exact absurd (htext.symm.trans hds) Nat.toDigits_ne_nil
    | cons d ds =>
      have hmem : d ∈ Nat.toDigits 10 n := by
        rw [← htext, hds]
        exact List.mem_cons_self
      have hd : d.isDigit = true := Nat.isDigit_of_mem_toDigits (by decide) (by decide) hmem
      have htoken : scanToken (d :: ds ++ rest) = some (.number (Text.signed (.ofNat n)), rest) := by
        rw [hds, List.cons_append] at hscan
        rw [List.cons_append, scanToken_digit hd, hscan, Option.map_some, ← hds]
        dsimp only
        rw [String.ofList_toList]
      exact .word (isSpace_digit hd) htoken h
  | negSucc n =>
    have htext : (Text.signed (.negSucc n)).toList = '-' :: Nat.toDigits 10 (n + 1) := by
      simp [Text.signed, Text.digits]
    have htoken : scanToken ('-' :: Nat.toDigits 10 (n + 1) ++ rest) =
        some (.number (Text.signed (.negSucc n)), rest) := by
      rw [List.cons_append, scanToken, scanNumber_digits (n + 1) hapart, Option.map_some]
      dsimp only
      rw [← htext, String.ofList_toList]
    rw [htext]
    exact .word rfl htoken h

end EntityWeaver.Json
