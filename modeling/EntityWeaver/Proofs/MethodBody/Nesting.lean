import EntityWeaver.Proofs.MethodBody.ClassBody
import Mathlib

/-! What is open behind a text.

    The scan keeps a stack of the depths at which the body of a lambda or a class was opened. Seen from
    the text, that a depth is on the stack means that the braces behind its own brace have not closed
    more than they opened:

        each(u -> {  if(x) {  a(); }  b(); }  c();
                  0         1      0      -1            the climb behind the first brace

    So nothing is open just when behind every brace of code that opens such a body the climb goes below
    zero. The proof goes through the text from the front: a step takes its character from the text that
    is left and puts what it opens on the stack. -/

namespace EntityWeaver.MethodBody

open Text

/-- What one character makes of the depth: braces count in code only. -/
def Mode.rise : Mode → Char → Int
  | .code, c => if c = '\x7b' then 1 else if c = '\x7d' then -1 else 0
  | _, _ => 0

/-- The braces of code that a text opens, less those that it closes. -/
def Mode.climb (m : Mode) : List Char → Int
  | [] => 0
  | c :: xs => m.rise c + (m.pass c).climb xs

/-- Somewhere in the text more braces of code have been closed than opened. -/
def ClosesBelow (xs : List Char) : Prop := ∃ ps, ps <+: xs ∧ Mode.code.climb ps < 0

/-- Every brace of code that opens the body of a lambda or a class is closed again. -/
def ClosesBodies (xs : List Char) : Prop :=
  ∀ us vs, xs = us ++ '\x7b' :: vs → OutsideLiterals us → opensNested us.reverse = true →
    ClosesBelow vs

namespace Scan

variable {s : Scan}

/-- A character is a brace of code, or it leaves the depth and what is nested alone. -/
theorem pass_cases (hs : s.Settled) (c : Char) :
    s.mode = .code ∧ c = '\x7b' ∨ s.mode = .code ∧ c = '\x7d' ∨
      (s.pass c).depth = s.depth ∧ (s.pass c).nested = s.nested ∧ s.mode.rise c = 0 ∧
        ¬(s.mode = .code ∧ c = '\x7b') := by
  cases hmode : s.mode with
  | code =>
    have hrise : c ≠ '\x7b' → c ≠ '\x7d' → Mode.code.rise c = 0 := fun hopen hclose => by
      rw [Mode.rise, if_neg hopen, if_neg hclose]
    by_cases hopen : c = '\x7b'
    · exact .inl ⟨rfl, hopen⟩
    by_cases hclose : c = '\x7d'
    · exact .inr (.inl ⟨rfl, hclose⟩)
    refine .inr (.inr ?_)
    rcases code_cases c with hc | hc | hc | hc
    · rw [pass_of_quote hmode hc]
      exact ⟨rfl, rfl, hrise hopen hclose, fun h => hopen h.2⟩
    · exact absurd hc hopen
    · exact absurd hc hclose
    · rw [pass_of_isPlain hmode hc]
      exact ⟨rfl, rfl, hrise hopen hclose, fun h => hopen h.2⟩
  | literal q =>
    rw [pass_of_literal hmode]
    exact .inr (.inr ⟨rfl, rfl, rfl, fun h => nomatch h.1⟩)
  | escaped q =>
    rw [pass_of_escaped hmode]
    exact .inr (.inr ⟨rfl, rfl, rfl, fun h => nomatch h.1⟩)
  | replaced n => exact absurd hmode (hs n)

theorem depth_pass (hs : s.Settled) (c : Char) : (s.pass c).depth = s.depth + s.mode.rise c := by
  rcases pass_cases hs c with ⟨hmode, rfl⟩ | ⟨hmode, rfl⟩ | ⟨hdepth, -, hrise, -⟩
  · rw [pass_open hmode, hmode]
    rfl
  · rw [pass_close hmode, hmode]
    rfl
  · rw [hdepth, hrise, add_zero]

/-- The scan of the text comes back to that depth. -/
def Reaches (s : Scan) (e : Int) (xs : List Char) : Prop :=
  ∃ ps, ps <+: xs ∧ s.depth + s.mode.climb ps ≤ e

/-- Where it has to come down yet, it does so behind the next character. -/
theorem reaches_cons (hs : s.Settled) {e : Int} (he : e < s.depth) (c : Char) (xs : List Char) :
    s.Reaches e (c :: xs) ↔ (s.pass c).Reaches e xs := by
  have hstep : ∀ ps, (s.pass c).depth + (s.pass c).mode.climb ps = s.depth + s.mode.climb (c :: ps) := by
    intro ps
    rw [depth_pass hs, mode_pass hs, Mode.climb, add_assoc]
  constructor
  · rintro ⟨ps, hps, hle⟩
    cases ps with
    | nil => exact absurd hle (by simpa [Mode.climb] using he)
    | cons d ps =>
      obtain ⟨rfl, hps'⟩ := List.cons_prefix_cons.1 hps
      exact ⟨ps, hps', (hstep ps).trans_le hle⟩
  · rintro ⟨ps, hps, hle⟩
    exact ⟨c :: ps, List.cons_prefix_cons.2 ⟨rfl, hps⟩, (hstep ps).symm.trans_le hle⟩

theorem reaches_of_le {e : Int} (he : s.depth ≤ e) (xs : List Char) : s.Reaches e xs :=
  ⟨[], List.nil_prefix, by simpa [Mode.climb] using he⟩

/-- Behind the state, every body that the text opens is closed in it. -/
def ClosesOpened (s : Scan) (xs : List Char) : Prop :=
  ∀ us vs, xs = us ++ '\x7b' :: vs → us.foldl Mode.pass s.mode = .code →
    opensNested (us.reverse ++ s.before) = true → ClosesBelow vs

theorem closesOpened_cons (hs : s.Settled) (c : Char) (xs : List Char) :
    s.ClosesOpened (c :: xs) ↔
      (c = '\x7b' → s.mode = .code → opensNested s.before = true → ClosesBelow xs) ∧
        (s.pass c).ClosesOpened xs := by
  have hbehind : ∀ us : List Char, us.foldl Mode.pass (s.pass c).mode =
      (c :: us).foldl Mode.pass s.mode ∧
      us.reverse ++ (s.pass c).before = (c :: us).reverse ++ s.before := by
    intro us
    rw [mode_pass hs, before_pass hs]
    simp
  constructor
  · intro h
    refine ⟨fun hc hmode hopens => h [] xs (by rw [hc]; rfl) hmode hopens,
      fun us vs hxs hmode hopens => ?_⟩
    rw [(hbehind us).1] at hmode
    rw [(hbehind us).2] at hopens
    exact h (c :: us) vs (by rw [hxs]; rfl) hmode hopens
  · rintro ⟨hfront, hrest⟩ us vs hxs hmode hopens
    cases us with
    | nil =>
      obtain ⟨rfl, rfl⟩ := List.cons.inj hxs
      exact hfront rfl hmode hopens
    | cons d us =>
      obtain ⟨rfl, hxs'⟩ := List.cons.inj hxs
      refine hrest us vs hxs' ?_ ?_
      · rw [(hbehind us).1]
        exact hmode
      · rw [(hbehind us).2]
        exact hopens

/-- What is nested behind a character is what was nested before, and a body that it opens; what it
    closes has been reached. -/
theorem reaches_nested_pass (hs : s.Settled) (c : Char) (xs : List Char) :
    (∀ e ∈ (s.pass c).nested, (s.pass c).Reaches e xs) ↔
      (∀ e ∈ s.nested, (s.pass c).Reaches e xs) ∧
        (c = '\x7b' → s.mode = .code → opensNested s.before = true → ClosesBelow xs) := by
  rcases pass_cases hs c with ⟨hmode, rfl⟩ | ⟨hmode, rfl⟩ | ⟨-, hnested, -, hopens⟩
  · have hbelow : (s.pass '\x7b').Reaches s.depth xs ↔ ClosesBelow xs := by
      rw [pass_open hmode]
      refine exists_congr fun ps => and_congr_right fun _ => ?_
      show s.depth + 1 + s.mode.climb ps ≤ s.depth ↔ _
      rw [hmode]
      omega
    have hnested : (s.pass '\x7b').nested =
        if opensNested s.before then s.depth :: s.nested else s.nested := by rw [pass_open hmode]
    rw [hnested]
    split_ifs with hopens
    · rw [List.forall_mem_cons, hbelow, and_comm]
      exact and_congr_right fun _ => ⟨fun h _ _ _ => h, fun h => h rfl hmode hopens⟩
    · exact (and_iff_left fun _ _ h => absurd h hopens).symm
  · rw [and_iff_left fun hc => absurd hc (by decide)]
    have hnested : (s.pass '\x7d').nested =
        if s.nested.head? = some (s.depth - 1) then s.nested.tail else s.nested := by
      rw [pass_close hmode]
    rw [hnested]
    split_ifs with htop
    · obtain ⟨outer, houter⟩ := List.head?_eq_some_iff.1 htop
      have hreached : (s.pass '\x7d').Reaches (s.depth - 1) xs :=
        reaches_of_le (by rw [pass_close hmode]) xs
      rw [houter, List.tail_cons, List.forall_mem_cons, and_iff_right hreached]
    · rfl
  · rw [hnested, and_iff_left fun hc hmode => absurd ⟨hmode, hc⟩ hopens]

/-- Nothing is nested behind a text that closes all that is open in front of it and all it opens. -/
theorem nested_passAll_eq_nil_iff (hs : s.Settled) (h : s.Stacked) (xs : List Char) :
    (s.passAll xs).nested = [] ↔ (∀ e ∈ s.nested, s.Reaches e xs) ∧ s.ClosesOpened xs := by
  have hinside : ∀ e ∈ s.nested, e < s.depth := (List.pairwise_cons.1 h).1
  induction xs generalizing s with
  | nil =>
    have hopened : s.ClosesOpened [] := fun us vs hxs => by simp at hxs
    rw [and_iff_left hopened]
    show s.nested = [] ↔ _
    constructor
    · rintro hnil e he
      exact absurd he (hnil ▸ List.not_mem_nil)
    · refine fun hreaches => List.eq_nil_iff_forall_not_mem.2 fun e he => ?_
      obtain ⟨ps, hps, hle⟩ := hreaches e he
      obtain rfl := List.prefix_nil.1 hps
      have hlt := hinside e he
      simp only [Mode.climb] at hle
      omega
  | cons c xs ih =>
    have hstacked := h.pass hs c
    calc ((s.pass c).passAll xs).nested = []
      _ ↔ (∀ e ∈ (s.pass c).nested, (s.pass c).Reaches e xs) ∧ (s.pass c).ClosesOpened xs :=
        ih (hs.pass c) hstacked (List.pairwise_cons.1 hstacked).1
      _ ↔ (∀ e ∈ s.nested, (s.pass c).Reaches e xs) ∧ s.ClosesOpened (c :: xs) := by
        rw [reaches_nested_pass hs, closesOpened_cons hs, and_assoc]
      _ ↔ (∀ e ∈ s.nested, s.Reaches e (c :: xs)) ∧ s.ClosesOpened (c :: xs) :=
        and_congr_left fun _ => forall₂_congr fun e he => (reaches_cons hs (hinside e he) c xs).symm

end Scan

theorem closesBodies_iff (xs : List Char) :
    ClosesBodies xs ↔ (Scan.passAll {} xs).nested = [] := by
  rw [Scan.nested_passAll_eq_nil_iff Scan.settled_empty Scan.stacked_empty,
    and_iff_right (List.forall_mem_nil _)]
  refine forall₃_congr fun us vs _ => ?_
  rw [← Mode.foldl_pass_eq_code_iff]
  show _ ↔ (_ → opensNested (us.reverse ++ []) = true → _)
  rw [List.append_nil]

instance decidableClosesBodies (xs : List Char) : Decidable (ClosesBodies xs) :=
  decidable_of_iff _ (closesBodies_iff xs).symm

end EntityWeaver.MethodBody
