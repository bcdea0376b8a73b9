import EntityWeaver.MethodBody
import Mathlib

/-! The scan for bare returns, one piece of text at a time.

    Where a bare return is to be replaced, the scan writes the replacement at its first character and
    goes over the others in a mode of its own. Seen from outside it does one of two things, and no
    proof about it needs a third:

        s ──c──▶ s.pass c                 c is written,             `run_cons`
        s ──bareReturn──▶ s.passAll ..    `return false;` is        `run_bareReturn`

    `run_induction` is the induction that goes with them. What a character does to the state is the
    same whether it is written or not, so the state behind a text is a fold over its characters, and
    the mode in it a fold that looks at nothing else. -/

namespace EntityWeaver.MethodBody

open Text

/-- A text of blanks. -/
def Blanks (xs : List Char) : Prop := ∀ c ∈ xs, isBlank c = true

instance decidableBlanks (xs : List Char) : Decidable (Blanks xs) :=
  decidable_of_iff (xs.all isBlank = true) List.all_eq_true

theorem Blanks.not_mem {xs : List Char} {c : Char} (h : Blanks xs) (hc : isBlank c = false) : c ∉ xs :=
  fun hmem => absurd (h c hmem) (by simp [hc])

/-- The text of a bare return, with what stands before its semicolon. -/
def bareReturn (blanks : List Char) : List Char := "return".toList ++ (blanks ++ [';'])

variable {blanks rest : List Char}

theorem bareReturn_def (blanks : List Char) :
    bareReturn blanks = "return".toList ++ (blanks ++ [';']) := rfl

theorem bareReturn_eq (blanks : List Char) :
    bareReturn blanks = 'r' :: 'e' :: 't' :: 'u' :: 'r' :: 'n' :: (blanks ++ [';']) := rfl

theorem bareReturn_append (blanks rest : List Char) : bareReturn blanks ++ rest =
    'r' :: (['e', 't', 'u', 'r', 'n'] ++ (blanks ++ ';' :: rest)) := by
  simp [bareReturn_eq]

theorem not_mem_bareReturn {c : Char} (hblanks : Blanks blanks) (hc : isBlank c = false)
    (hform : c ∉ "return;".toList) : c ∉ bareReturn blanks := by
  intro h
  rcases (List.mem_append.1 h).imp_right List.mem_append.1 with h | h | h
  · exact hform (List.mem_append_left [';'] h)
  · exact hblanks.not_mem hc h
  · exact hform (List.mem_append_right "return".toList h)

/-- Behind `retur` a bare return has no letter but the last one. -/
theorem not_mem_end {c : Char} (hblanks : Blanks blanks) (hc : isBlank c = false)
    (hform : c ∉ "n;".toList) : c ∉ 'n' :: (blanks ++ [';']) := by
  intro h
  rcases (List.mem_cons.1 h).imp_right List.mem_append.1 with rfl | h | h
  · exact hform List.mem_cons_self
  · exact hblanks.not_mem hc h
  · exact hform (List.mem_cons_of_mem 'n' h)

/-- Behind its first letter a bare return has no `r` but that of `rn`. -/
theorem tail_of_bareReturn_eq {us tail : List Char} (hblanks : Blanks blanks) (hne : us ≠ [])
    (h : bareReturn blanks = us ++ 'r' :: tail) : tail = 'n' :: (blanks ++ [';']) := by
  obtain ⟨c, us, rfl⟩ := List.exists_cons_of_ne_nil hne
  have hend := not_mem_end hblanks (c := 'r') (by decide) (by decide)
  have hform : ['e', 't', 'u'] ++ 'r' :: 'n' :: (blanks ++ [';']) = us ++ 'r' :: tail :=
    (List.cons.inj h).2
  obtain ⟨-, -, rfl⟩ := (List.append_cons_inj_of_notMem (by decide) hend).1 hform
  rfl

theorem afterStart?_eq_some {w s after : List Char} :
    afterStart? w s = some after ↔ s = w ++ after := by
  rw [afterStart?]
  split
  · next h =>
    obtain ⟨t, rfl⟩ := List.isPrefixOf_iff_prefix.1 h
    simp [eq_comm]
  · next h =>
    constructor
    · rintro ⟨⟩
    · rintro rfl
      exact absurd (List.isPrefixOf_iff_prefix.2 (List.prefix_append w after)) h

/-- A bare return is the word, blanks and a semicolon. -/
theorem bareReturn?_eq_some {s : List Char} {n : Nat} :
    bareReturn? s = some n ↔ ∃ blanks rest, Blanks blanks ∧ s = bareReturn blanks ++ rest ∧
      n = (bareReturn blanks).length := by
  have hreturn : "return".length = 6 := rfl
  rw [bareReturn?]
  simp only [Option.bind_eq_bind, Option.bind_eq_some_iff, afterStart?_eq_some]
  constructor
  · rintro ⟨after, rfl, h⟩
    split at h
    · next rest hrest =>
      cases h
      refine ⟨after.takeWhile isBlank, rest, fun c hc => List.mem_takeWhile_imp hc, ?_, ?_⟩
      · rw [bareReturn_def, List.append_assoc, List.append_assoc, List.singleton_append, ← hrest,
          List.takeWhile_append_dropWhile]
      · simp [bareReturn_def, hreturn]
        omega
    · cases h
  · rintro ⟨blanks, rest, hblanks, rfl, rfl⟩
    refine ⟨blanks ++ ';' :: rest, by simp [bareReturn_def], ?_⟩
    have hsemicolon : isBlank ';' = false := by decide
    rw [List.dropWhile_append_of_pos hblanks, List.takeWhile_append_of_pos hblanks,
      List.dropWhile_cons_of_neg (by simp [hsemicolon]),
      List.takeWhile_cons_of_neg (by simp [hsemicolon])]
    simp [bareReturn_def, hreturn]
    omega

theorem bareReturn?_bareReturn (h : Blanks blanks) :
    bareReturn? (bareReturn blanks ++ rest) = some (bareReturn blanks).length :=
  bareReturn?_eq_some.2 ⟨blanks, rest, h, rfl, rfl⟩

/-- There is no bare return where none of its forms stands. -/
theorem bareReturn?_eq_none {s : List Char} :
    bareReturn? s = none ↔ ∀ blanks, Blanks blanks → ¬bareReturn blanks <+: s := by
  rw [Option.eq_none_iff_forall_ne_some]
  constructor
  · rintro h blanks hblanks ⟨rest, rfl⟩
    exact h _ (bareReturn?_bareReturn hblanks)
  · intro h n hn
    obtain ⟨blanks, rest, hblanks, rfl, _⟩ := bareReturn?_eq_some.1 hn
    exact h blanks hblanks (List.prefix_append _ rest)

theorem bareReturn?_singleton (c : Char) : bareReturn? [c] = none := by
  rw [Option.eq_none_iff_forall_ne_some]
  rintro n h
  obtain ⟨blanks, rest, _, h, _⟩ := bareReturn?_eq_some.1 h
  simp [bareReturn_def] at h

theorem bareReturn?_cons_of_ne {c : Char} (h : c ≠ 'r') : bareReturn? (c :: rest) = none := by
  rw [Option.eq_none_iff_forall_ne_some]
  rintro n hn
  obtain ⟨_, _, _, heq, _⟩ := bareReturn?_eq_some.1 hn
  exact h (List.cons.inj heq).1

/-- What delimits a literal. -/
def isQuote (c : Char) : Bool := c == '"' || c == '\''

/-- A character of code that opens and closes nothing. -/
def isPlain (c : Char) : Bool := !(isQuote c || c == '\x7b' || c == '\x7d')

theorem isPlain_of_isBlank {c : Char} (h : isBlank c = true) : isPlain c = true := by
  simp only [isPlain, isQuote, Bool.not_eq_true', Bool.or_eq_false_iff, beq_eq_false_iff_ne]
  refine ⟨⟨⟨?_, ?_⟩, ?_⟩, ?_⟩ <;> rintro rfl <;> exact absurd h (by decide)

theorem isPlain_of_mem_bareReturn (h : Blanks blanks) :
    ∀ c ∈ bareReturn blanks, isPlain c = true := by
  intro c hc
  simp only [bareReturn_def, List.mem_append, List.mem_singleton] at hc
  rcases hc with hc | hc | rfl
  · have hword : "return".toList.all isPlain = true := by decide
    exact List.all_eq_true.1 hword c hc
  · exact isPlain_of_isBlank (h c hc)
  · decide

theorem not_isQuote_of_isPlain {c : Char} (h : isPlain c = true) : ¬isQuote c = true := by
  intro hquote
  simp [isPlain, hquote] at h

/-- What one character makes of being in code or in a literal. -/
def Mode.pass : Mode → Char → Mode
  | .code, c => if isQuote c then .literal c else .code
  | .literal q, c => if c = '\\' then .escaped q else if c = q then .code else .literal q
  | .escaped q, _ => .literal q
  | .replaced n, _ => .replaced n

namespace Scan

variable {s : Scan} {c : Char}

/-- The state behind a character that starts no bare return. -/
def pass (s : Scan) (c : Char) : Scan := (s.step c []).1

/-- The state behind a text. -/
def passAll (s : Scan) (xs : List Char) : Scan := xs.foldl pass s

/-- A bare return that starts here is to be replaced. -/
structure Stops (s : Scan) : Prop where
  code : s.mode = .code
  own : s.nested = []
  word : atWordStart s.before = true

/-- No part of a bare return is being skipped. -/
def Settled (s : Scan) : Prop := ∀ n, s.mode ≠ .replaced n

theorem passAll_cons (xs : List Char) : s.passAll (c :: xs) = (s.pass c).passAll xs := rfl

theorem passAll_append (xs ys : List Char) : s.passAll (xs ++ ys) = (s.passAll xs).passAll ys :=
  List.foldl_append

/-! ### One character -/

theorem pass_of_quote (h : s.mode = .code) (hc : isQuote c = true) :
    s.pass c = { s with before := c :: s.before, mode := .literal c } := by
  have hquote : c = '"' ∨ c = '\'' := by simpa [isQuote] using hc
  rw [pass, step, h]
  exact congrArg Prod.fst (if_pos hquote)

theorem pass_open (h : s.mode = .code) :
    s.pass '\x7b' = { s with
      before := '\x7b' :: s.before, depth := s.depth + 1,
      nested := if opensNested s.before then s.depth :: s.nested else s.nested } := by
  obtain ⟨before, depth, nested, mode⟩ := s
  cases h
  rfl

theorem pass_close (h : s.mode = .code) :
    s.pass '\x7d' = { s with
      before := '\x7d' :: s.before, depth := s.depth - 1,
      nested := if s.nested.head? = some (s.depth - 1) then s.nested.tail else s.nested } := by
  obtain ⟨before, depth, nested, mode⟩ := s
  cases h
  rfl

theorem pass_of_isPlain (h : s.mode = .code) (hc : isPlain c = true) :
    s.pass c = { s with before := c :: s.before } := by
  simp only [isPlain, isQuote, Bool.not_eq_true', Bool.or_eq_false_iff, beq_eq_false_iff_ne] at hc
  obtain ⟨⟨hquote, hopen⟩, hclose⟩ := hc
  obtain ⟨before, depth, nested, mode⟩ := s
  cases h
  rw [pass, step]
  simp only [code, hquote, hopen, hclose, bareReturn?_singleton, or_self, if_false, ite_self]

theorem pass_of_literal {q : Char} (h : s.mode = .literal q) :
    s.pass c = { s with before := c :: s.before, mode := Mode.pass (.literal q) c } := by
  rw [pass, step, h]
  rfl

theorem pass_of_escaped {q : Char} (h : s.mode = .escaped q) :
    s.pass c = { s with before := c :: s.before, mode := .literal q } := by
  rw [pass, step, h]

/-- A character of code is a quote, a brace or plain. -/
theorem code_cases (c : Char) :
    isQuote c = true ∨ c = '\x7b' ∨ c = '\x7d' ∨ isPlain c = true := by
  simp only [isPlain, Bool.not_eq_true', Bool.or_eq_false_iff, beq_eq_false_iff_ne]
  grind

theorem before_pass (hs : s.Settled) (c : Char) : (s.pass c).before = c :: s.before := by
  cases hmode : s.mode with
  | code =>
    rcases code_cases c with hc | rfl | rfl | hc
    · rw [pass_of_quote hmode hc]
    · rw [pass_open hmode]
    · rw [pass_close hmode]
    · rw [pass_of_isPlain hmode hc]
  | literal q => rw [pass_of_literal hmode]
  | escaped q => rw [pass_of_escaped hmode]
  | replaced n => exact absurd hmode (hs n)

theorem mode_pass (hs : s.Settled) (c : Char) : (s.pass c).mode = s.mode.pass c := by
  cases hmode : s.mode with
  | code =>
    rcases code_cases c with hc | rfl | rfl | hc
    · rw [pass_of_quote hmode hc, Mode.pass, if_pos hc]
    · rw [pass_open hmode]
      exact hmode
    · rw [pass_close hmode]
      exact hmode
    · rw [pass_of_isPlain hmode hc, Mode.pass, if_neg (not_isQuote_of_isPlain hc)]
      exact hmode
  | literal q => rw [pass_of_literal hmode]
  | escaped q => rw [pass_of_escaped hmode, Mode.pass]
  | replaced n => exact absurd hmode (hs n)

theorem Settled.pass (hs : s.Settled) (c : Char) : (s.pass c).Settled := by
  intro n h
  rw [mode_pass hs] at h
  cases hmode : s.mode with
  | replaced n => exact hs n hmode
  | _ =>
    rw [hmode, Mode.pass] at h
    first | cases h | split_ifs at h

theorem Settled.passAll (hs : s.Settled) (xs : List Char) : (s.passAll xs).Settled := by
  induction xs generalizing s with
  | nil => exact hs
  | cons c xs ih => exact ih (hs.pass c)

theorem settled_of_code (h : s.mode = .code) : s.Settled := by
  intro n hn
  rw [h] at hn
  cases hn

theorem settled_empty : ({} : Scan).Settled := settled_of_code rfl

theorem before_passAll (hs : s.Settled) (xs : List Char) :
    (s.passAll xs).before = xs.reverse ++ s.before := by
  induction xs generalizing s with
  | nil => rfl
  | cons c xs ih =>
    rw [passAll_cons, ih (hs.pass c), before_pass hs, List.reverse_cons, List.append_assoc,
      List.singleton_append]

theorem mode_passAll (hs : s.Settled) (xs : List Char) :
    (s.passAll xs).mode = xs.foldl Mode.pass s.mode := by
  induction xs generalizing s with
  | nil => rfl
  | cons c xs ih => rw [passAll_cons, ih (hs.pass c), mode_pass hs, List.foldl_cons]

/-- Plain characters of code change nothing but the text passed. -/
theorem passAll_of_isPlain (h : s.mode = .code) {xs : List Char}
    (hxs : ∀ c ∈ xs, isPlain c = true) : s.passAll xs = { s with before := xs.reverse ++ s.before } := by
  induction xs generalizing s with
  | nil => rfl
  | cons c xs ih =>
    obtain ⟨hc, hxs⟩ := List.forall_mem_cons.1 hxs
    have hpass := pass_of_isPlain h hc
    rw [passAll_cons, hpass, ih (by exact h) hxs, List.reverse_cons, List.append_assoc,
      List.singleton_append]

/-! ### What is written -/

/-- Away from bare returns a character is written as it is. -/
theorem step_eq (hs : s.Settled) (hstop : s.Stops → bareReturn? (c :: rest) = none) :
    s.step c rest = (s.pass c, [c]) := by
  obtain ⟨before, depth, nested, mode⟩ := s
  cases mode with
  | literal q => rfl
  | escaped q => rfl
  | replaced n => exact absurd rfl (hs n)
  | code =>
    by_cases hown : nested = [] ∧ atWordStart before = true
    · have hnone := hstop ⟨rfl, hown.1, hown.2⟩
      simp only [pass, step, code, hnone, bareReturn?_singleton]
      split_ifs <;> rfl
    · simp only [pass, step, code, if_neg hown]
      split_ifs <;> rfl

/-- A character that starts no bare return of its own is written as it is. -/
theorem run_cons (hs : s.Settled) (hstop : s.Stops → bareReturn? (c :: rest) = none) :
    s.run (c :: rest) = c :: (s.pass c).run rest := by
  rw [run, step_eq hs hstop]
  rfl

/-- What is left of a bare return is not written. -/
theorem run_replaced (xs rest before : List Char) (depth : Int) (nested : List Int) :
    run ⟨before, depth, nested, .replaced xs.length⟩ (xs ++ rest) =
      run ⟨xs.reverse ++ before, depth, nested, .code⟩ rest := by
  induction xs generalizing before with
  | nil => cases rest <;> rfl
  | cons c xs ih =>
    have hnext := ih (c :: before)
    rw [List.reverse_cons, List.append_assoc, List.singleton_append, ← hnext]
    rfl

/-- A bare return of the text's own is replaced. -/
theorem run_bareReturn (hs : s.Stops) (h : Blanks blanks) (rest : List Char) :
    s.run (bareReturn blanks ++ rest) =
      "return false;".toList ++ (s.passAll (bareReturn blanks)).run rest := by
  obtain ⟨before, depth, nested, mode⟩ := s
  obtain ⟨rfl, rfl, hword⟩ := hs
  obtain ⟨tail, htail⟩ : ∃ tail, bareReturn blanks = 'r' :: tail := ⟨_, rfl⟩
  have hfind : bareReturn? (bareReturn blanks ++ rest) = some (bareReturn blanks).length :=
    bareReturn?_bareReturn h
  rw [passAll_of_isPlain rfl (isPlain_of_mem_bareReturn h), htail, List.reverse_cons,
    List.append_assoc, List.singleton_append, ← run_replaced]
  rw [htail, List.cons_append] at hfind
  rw [List.cons_append, run, step, code, if_neg (by decide), if_neg (by decide), if_neg (by decide),
    if_pos ⟨rfl, hword⟩, hfind]
  rfl

/-- Texts without the letter that bare returns start with are written as they are. -/
theorem run_append_of_ne (hs : s.Settled) {xs : List Char} (hxs : ∀ c ∈ xs, c ≠ 'r')
    (rest : List Char) : s.run (xs ++ rest) = xs ++ (s.passAll xs).run rest := by
  induction xs generalizing s with
  | nil => rfl
  | cons c xs ih =>
    obtain ⟨hc, hxs⟩ := List.forall_mem_cons.1 hxs
    rw [List.cons_append, run_cons hs fun _ => bareReturn?_cons_of_ne hc, ih (hs.pass c) hxs]
    rfl

/-- Texts are run through one bare return or one character at a time. -/
theorem run_induction {motive : Scan → List Char → Prop} (nil : ∀ s, motive s [])
    (stop : ∀ s blanks rest, s.Stops → Blanks blanks →
      motive (s.passAll (bareReturn blanks)) rest → motive s (bareReturn blanks ++ rest))
    (keep : ∀ s c rest, s.Settled → (s.Stops → bareReturn? (c :: rest) = none) →
      motive (s.pass c) rest → motive s (c :: rest))
    (s : Scan) (hs : s.Settled) (xs : List Char) : motive s xs := by
  match xs with
  | [] => exact nil s
  | c :: rest =>
    by_cases hstop : s.Stops → bareReturn? (c :: rest) = none
    · exact keep s c rest hs hstop (run_induction nil stop keep _ (hs.pass c) rest)
    · obtain ⟨hstops, hsome⟩ := Classical.not_imp.1 hstop
      obtain ⟨n, hn⟩ := Option.ne_none_iff_exists'.1 hsome
      obtain ⟨blanks, after, hblanks, heq, _⟩ := bareReturn?_eq_some.1 hn
      have hlength := congrArg List.length heq
      rw [heq]
      exact stop s blanks after hstops hblanks
        (run_induction nil stop keep _ (hs.passAll _) after)
termination_by xs.length
decreasing_by
  · simp
  · simp only [List.length_cons, List.length_append, bareReturn_def] at hlength ⊢
    omega

/-- Texts are scanned one after the other if no bare return goes across the cut between them. -/
theorem run_append (hs : s.Settled) (hcut : ∀ blanks us vs, Blanks blanks →
    bareReturn blanks = us ++ vs → us ≠ [] → vs <+: rest → vs = []) (xs : List Char) :
    s.run (xs ++ rest) = s.run xs ++ (s.passAll xs).run rest := by
  refine run_induction (motive := fun s xs =>
    s.run (xs ++ rest) = s.run xs ++ (s.passAll xs).run rest) ?nil ?stop ?keep s hs xs
  case nil => exact fun s => rfl
  case stop =>
    intro s blanks xs hstops hblanks ih
    rw [List.append_assoc, run_bareReturn hstops hblanks, run_bareReturn hstops hblanks, ih,
      passAll_append, List.append_assoc]
  case keep =>
    intro s d xs hs hstop ih
    have hstop' : s.Stops → bareReturn? (d :: (xs ++ rest)) = none := by
      refine fun hstops => bareReturn?_eq_none.2 fun blanks hblanks hpre => ?_
      refine bareReturn?_eq_none.1 (hstop hstops) blanks hblanks ?_
      have hfront := List.prefix_append (d :: xs) rest
      rcases List.prefix_or_prefix_of_prefix hpre hfront with hin | ⟨vs, hvs⟩
      · exact hin
      · rw [← List.cons_append, ← hvs, List.prefix_append_right_inj] at hpre
        obtain rfl := hcut blanks _ vs hblanks hvs.symm (List.cons_ne_nil d xs) hpre
        rw [← hvs, List.append_nil]
    rw [List.cons_append, run_cons hs hstop', run_cons hs hstop, ih]
    rfl

/-- What no bare return can contain sets apart what is written before it. -/
theorem run_append_cons (hs : s.Settled) (hc : ∀ blanks, Blanks blanks → c ∉ bareReturn blanks)
    (xs rest : List Char) :
    s.run (xs ++ c :: rest) = s.run xs ++ (s.passAll xs).run (c :: rest) := by
  refine run_append hs (fun blanks us vs hblanks heq _ hvs => ?_) xs
  cases vs with
  | nil => rfl
  | cons d vs =>
    obtain rfl : d = c := (List.cons_prefix_cons.1 hvs).1
    exact absurd (by simp [heq]) (hc blanks hblanks)

/-- A bare return sets apart what is written before it. -/
theorem run_append_bareReturn (hs : s.Settled) (xs rest : List Char) :
    s.run (xs ++ (bareReturn blanks ++ rest)) =
      s.run xs ++ (s.passAll xs).run (bareReturn blanks ++ rest) := by
  refine run_append hs (fun blanks' us vs hblanks heq hne hvs => ?_) xs
  cases vs with
  | nil => rfl
  | cons c vs =>
    rw [bareReturn_eq, List.cons_append] at hvs
    obtain ⟨rfl, htail⟩ := List.cons_prefix_cons.1 hvs
    obtain rfl := tail_of_bareReturn_eq hblanks hne heq
    exact absurd (List.cons_prefix_cons.1 htail).1 (by decide)

end Scan

end EntityWeaver.MethodBody
