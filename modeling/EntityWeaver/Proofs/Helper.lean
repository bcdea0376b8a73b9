import EntityWeaver.MethodPlan
import EntityWeaver.Proofs.ComponentName
import EntityWeaver.Proofs.MethodBody.Literal
import EntityWeaver.Proofs.MethodBody.Utf8
import EntityWeaver.Proofs.Text.Lines
import Mathlib

/-! The end of a helper that signals.

    Such a helper returns true at its end, unless its last statement leaves it: what stands behind that
    one would be unreachable. Whether it does is read off the text:

        a ("x; y") ;  throw new E("gone;  see log") ;   ▏ blanks
                      └────── the last ──────────┘
                                          └─ read ┘

    Read is what stands behind the last semicolon or brace, be it in a literal or in brackets; and a
    keyword is seen there if a blank, a parenthesis or nothing follows it. For a statement without
    semicolons and braces that is the statement itself, so the only keyword it misses is one with
    another sign behind it. In a statement with a break, either answer can be wrong. -/

namespace EntityWeaver.Helper

open Text MethodBody

/-! ### Statements -/

def opensBracket (c : Char) : Bool := c == '(' || c == '[' || c == '\x7b'

def closesBracket (c : Char) : Bool := c == ')' || c == ']' || c == '\x7d'

/-- Whether no semicolon of the text ends a statement, with so many brackets open in front of it: they
    all stand in literals or in brackets, and both are closed at the end. -/
def runsOn : Mode → Nat → List Char → Bool
  | .code, depth, [] => depth == 0
  | _, _, [] => false
  | .code, depth, c :: rest =>
    let depth' := if opensBracket c then depth + 1 else if closesBracket c then depth - 1 else depth
    (c != ';' || depth != 0) && runsOn (Mode.code.pass c) depth' rest
  | mode, depth, c :: rest => runsOn (mode.pass c) depth rest

/-- Whether a text is one statement, without the semicolon behind it. -/
def isStatement (s : List Char) : Bool := runsOn .code 0 s

/-- The body is these statements, each with a semicolon behind it. -/
structure MakesUp (statements : List (List Char)) (body : String) : Prop where
  each : ∀ s ∈ statements, isStatement s = true
  whole : ∃ blanks, Blanks blanks ∧ body.toList = statements.flatMap (· ++ [';']) ++ blanks

/-- Behind one statement a text goes on like a new one. -/
theorem runsOn_append {mode : Mode} {depth : Nat} {xs : List Char} (h : runsOn mode depth xs = true)
    (ys : List Char) : runsOn mode depth (xs ++ ys) = runsOn .code 0 ys := by
  induction xs generalizing mode depth with
  | nil =>
    cases mode with
    | code =>
      obtain rfl : depth = 0 := by simpa [runsOn] using h
      rfl
    | _ => cases h
  | cons c xs ih =>
    cases mode with
    | code =>
      rw [runsOn, Bool.and_eq_true] at h
      rw [List.cons_append, runsOn, h.1, Bool.true_and, ih h.2]
    | _ => exact ih h

/-- No semicolon stands where one statement ends and another goes on. -/
theorem eq_nil_of_isStatement {s us xs ys : List Char} (hs : isStatement s = true)
    (ht : isStatement (s ++ us) = true) (h : us ++ xs = ';' :: ys) : us = [] := by
  cases us with
  | nil => rfl
  | cons c us =>
    obtain rfl : c = ';' := (List.cons.inj h).1
    exact absurd ((runsOn_append hs _).symm.trans ht) (by simp [runsOn])

/-- The first statement of a text ends in one place. -/
theorem isStatement_unique {s t xs ys : List Char} (hs : isStatement s = true)
    (ht : isStatement t = true) (h : s ++ ';' :: xs = t ++ ';' :: ys) : s = t ∧ xs = ys := by
  rcases List.append_eq_append_iff.1 h with ⟨us, rfl, heq⟩ | ⟨us, rfl, heq⟩
  · obtain rfl := eq_nil_of_isStatement hs ht heq.symm
    exact ⟨(List.append_nil s).symm, (List.cons.inj heq).2⟩
  · obtain rfl := eq_nil_of_isStatement ht hs heq.symm
    exact ⟨List.append_nil t, (List.cons.inj heq).2.symm⟩

/-- A body is made up of statements in one way. -/
theorem MakesUp.unique {statements statements' : List (List Char)} {body : String}
    (h : MakesUp statements body) (h' : MakesUp statements' body) : statements = statements' := by
  obtain ⟨heach, blanks, hblanks, hbody⟩ := h
  obtain ⟨heach', blanks', hblanks', hbody'⟩ := h'
  have heq := hbody.symm.trans hbody'
  clear hbody hbody'
  induction statements generalizing statements' with
  | nil =>
    cases statements' with
    | nil => rfl
    | cons t ts =>
      have hmem : ';' ∈ blanks := by
        have hform : blanks = _ := heq
        simp [hform]
      exact absurd hmem (hblanks.not_mem (by decide))
  | cons s ss ih =>
    cases statements' with
    | nil =>
      have hmem : ';' ∈ blanks' := by
        have hform : _ = blanks' := heq
        simp [← hform]
      exact absurd hmem (hblanks'.not_mem (by decide))
    | cons t ts =>
      obtain ⟨hs, hss⟩ := List.forall_mem_cons.1 heach
      obtain ⟨ht, hts⟩ := List.forall_mem_cons.1 heach'
      obtain ⟨rfl, hrest⟩ := isStatement_unique hs ht (by simpa using heq)
      rw [ih hss hts hrest]

/-! ### Leaving -/

/-- The keywords of the statements that leave a method. -/
def exitWords : List (List Char) := ["return".toList, "throw".toList]

/-- The text starts with such a keyword, and behind it there is nothing or one of these characters. -/
def StartsExit (ends : Char → Bool) (s : List Char) : Prop :=
  ∃ word ∈ exitWords, ∃ rest, s = word ++ rest ∧ rest.head?.all ends = true

/-- The statement leaves the method, by what an identifier can contain. -/
def Leaves (ident : Char → Bool) (s : List Char) : Prop := StartsExit (!ident ·) (trimStart s)

/-- What is read as the end of a keyword. -/
def isPause (c : Char) : Bool := isBlank c || c == '('

/-- The text behind the last semicolon or brace. -/
def behindBreak (s : List Char) : List Char := (s.reverse.takeWhile (!isStatementBreak ·)).reverse

/-- What is read of the statement is a keyword that leaves. -/
def ShowsExit (s : List Char) : Prop := StartsExit isPause (trimStart (behindBreak s))

theorem startsExit_iff {ends : Char → Bool} {s : List Char} : StartsExit ends s ↔
    (exitWords.any fun word => (afterStart? word s).any (·.head?.all ends)) = true := by
  simp only [StartsExit, List.any_eq_true, Option.any_eq_true, afterStart?_eq_some]

instance decidableStartsExit (ends : Char → Bool) (s : List Char) : Decidable (StartsExit ends s) :=
  decidable_of_iff _ startsExit_iff.symm

instance decidableLeaves (ident : Char → Bool) (s : List Char) : Decidable (Leaves ident s) :=
  decidableStartsExit _ _

instance decidableShowsExit (s : List Char) : Decidable (ShowsExit s) := decidableStartsExit _ _

theorem StartsExit.imp {p q : Char → Bool} {s : List Char} (hpq : ∀ c, p c = true → q c = true)
    (h : StartsExit p s) : StartsExit q s := by
  obtain ⟨word, hword, rest, rfl, hrest⟩ := h
  refine ⟨word, hword, rest, rfl, ?_⟩
  cases rest with
  | nil => rfl
  | cons c rest => exact hpq c hrest

theorem startsWithWord_iff {word : String} {s : List Char} :
    startsWithWord word s = true ↔ ∃ rest, s = word.toList ++ rest ∧ rest.head?.all isPause = true := by
  unfold startsWithWord
  constructor
  · intro h
    split at h
    · cases h
    · next hafter => exact ⟨[], afterStart?_eq_some.1 hafter, rfl⟩
    · next c rest hafter => exact ⟨c :: rest, afterStart?_eq_some.1 hafter, h⟩
  · rintro ⟨rest, heq, hrest⟩
    rw [afterStart?_eq_some.2 heq]
    cases rest with
    | nil => rfl
    | cons c rest => exact hrest

theorem startsExit_isPause_iff {s : List Char} : StartsExit isPause s ↔
    (startsWithWord "return" s || startsWithWord "throw" s) = true := by
  rw [Bool.or_eq_true, startsWithWord_iff, startsWithWord_iff]
  simp [StartsExit, exitWords]

/-- No two of the keywords start alike. -/
theorem exitWords_apart {word word' rest rest' : List Char} (hword : word ∈ exitWords)
    (hword' : word' ∈ exitWords) (h : word ++ rest = word' ++ rest') : rest = rest' := by
  simp only [exitWords, List.mem_cons, List.not_mem_nil, or_false] at hword hword'
  rcases hword with rfl | rfl <;> rcases hword' with rfl | rfl
  · exact List.append_cancel_left h
  · exact absurd (List.cons.inj h).1 (by decide)
  · exact absurd (List.cons.inj h).1 (by decide)
  · exact List.append_cancel_left h

/-! ### What is read of a body -/

theorem behindBreak_eq_self {s : List Char} (h : ∀ c ∈ s, isStatementBreak c = false) :
    behindBreak s = s := by
  have hall : ∀ c ∈ s.reverse, (!isStatementBreak c) = true := fun c hc => by
    simp [h c (List.mem_reverse.1 hc)]
  rw [behindBreak, List.takeWhile_eq_self_iff.2 hall, List.reverse_reverse]

/-- What stands in front of a break is not read. -/
theorem behindBreak_append_cons {c : Char} (hc : isStatementBreak c = true) (xs ys : List Char) :
    behindBreak (xs ++ c :: ys) = behindBreak ys := by
  have hstop : (c :: xs.reverse).takeWhile (!isStatementBreak ·) = [] :=
    List.takeWhile_cons_of_neg (by simp [hc])
  rw [behindBreak, behindBreak, List.reverse_append, List.reverse_cons, List.append_assoc,
    List.singleton_append, List.takeWhile_append, hstop, List.append_nil]
  split_ifs with hall
  · rw [(List.takeWhile_prefix _).eq_of_length hall]
  · rfl

/-- What is read behind statements is read of the last one. -/
theorem behindBreak_flatMap (init : List (List Char)) (last : List Char) :
    behindBreak (init.flatMap (· ++ [';']) ++ last) = behindBreak last := by
  rcases List.eq_nil_or_concat init with rfl | ⟨init, s, rfl⟩
  · rfl
  · have hform : (init.concat s).flatMap (· ++ [';']) ++ last =
        (init.flatMap (· ++ [';']) ++ s) ++ ';' :: last := by simp
    rw [hform, behindBreak_append_cons (by rfl)]

variable {statements : List (List Char)} {body : String}

/-- Of a body the last statement is read. -/
theorem lastStatement?_eq (h : MakesUp statements body) :
    lastStatement? body = statements.getLast?.map fun s => trimStart (behindBreak s) := by
  obtain ⟨blanks, hblanks, hbody⟩ := h.whole
  have hread : lastStatement? body =
      (beforeEnd? [';'] (trimEnd body.toList)).map fun text => trimStart (behindBreak text) := rfl
  rcases List.eq_nil_or_concat statements with rfl | ⟨init, last, rfl⟩
  · have hbody' : body.toList = blanks := hbody
    rw [hread, hbody', trimEnd_eq_nil_iff.2 hblanks]
    rfl
  · have hform : body.toList = (init.flatMap (· ++ [';']) ++ last) ++ [';'] ++ blanks := by
      simpa using hbody
    rw [hread, hform, trimEnd_append (by decide) hblanks, beforeEnd?_append, Option.map_some,
      behindBreak_flatMap, List.concat_eq_append, List.getLast?_append]
    rfl

theorem endsAbruptly_iff (h : MakesUp statements body) :
    endsAbruptly body = true ↔ ∃ s ∈ statements.getLast?, ShowsExit s := by
  rw [endsAbruptly, lastStatement?_eq h]
  cases statements.getLast? with
  | none => simp
  | some s =>
    rw [Option.map_some, Option.any_some, ← startsExit_isPause_iff]
    simp [ShowsExit]

/-! ### Which statements are misread -/

/-- What is read of the statement is not what it says, by what an identifier can contain. -/
inductive Misread (ident : Char → Bool) (s : List Char) : Prop
  /-- It leaves, with a sign right behind the keyword, as in `return!dead`. -/
  | sign {word rest : List Char} {c : Char} (hflat : ∀ d ∈ s, isStatementBreak d = false)
      (hword : word ∈ exitWords) (hs : trimStart s = word ++ c :: rest) (hident : ident c = false)
      (hpause : isPause c = false)
  /-- It leaves, but there is a break in a literal or in brackets and no keyword is behind that. -/
  | hidden {d : Char} (hd : d ∈ s) (hbreak : isStatementBreak d = true) (hleaves : Leaves ident s)
      (hshows : ¬ShowsExit s)
  /-- It goes on, but a keyword is behind a break in a literal or in brackets. -/
  | seeming {d : Char} (hd : d ∈ s) (hbreak : isStatementBreak d = true) (hleaves : ¬Leaves ident s)
      (hshows : ShowsExit s)

variable {ident : Char → Bool} {s : List Char}

/-- A flat statement is misread just if a sign follows its keyword. -/
theorem misread_iff (hident : ∀ c, isPause c = true → ident c = false) :
    Misread ident s ↔ ¬(Leaves ident s ↔ ShowsExit s) := by
  constructor
  · rintro (⟨hflat, hword, hs, hc, hpause⟩ | ⟨_, _, hleaves, hshows⟩ | ⟨_, _, hleaves, hshows⟩) hiff
    · have hleaves : Leaves ident s := ⟨_, hword, _, hs, by simp [hc]⟩
      obtain ⟨word, hword', rest, heq, hrest⟩ := hiff.1 hleaves
      rw [behindBreak_eq_self hflat, hs] at heq
      rw [← exitWords_apart hword hword' heq] at hrest
      exact absurd hrest (by simp [hpause])
    · exact hshows (hiff.1 hleaves)
    · exact hleaves (hiff.2 hshows)
  · intro hiff
    by_cases hflat : ∀ d ∈ s, isStatementBreak d = false
    · have hseen : ShowsExit s → Leaves ident s := by
        intro hshows
        rw [ShowsExit, behindBreak_eq_self hflat] at hshows
        exact hshows.imp fun c hc => by simp [hident c hc]
      by_cases hshows : ShowsExit s
      · exact absurd (iff_of_true (hseen hshows) hshows) hiff
      · have hleaves : Leaves ident s := by
          by_contra hnot
          exact hiff (iff_of_false hnot hshows)
        rw [ShowsExit, behindBreak_eq_self hflat] at hshows
        obtain ⟨word, hword, rest, hs, hrest⟩ := hleaves
        cases rest with
        | nil => exact absurd ⟨word, hword, [], hs, rfl⟩ hshows
        | cons c rest =>
          refine .sign hflat hword hs (by simpa using hrest) ?_
          by_contra hpause
          exact hshows ⟨word, hword, c :: rest, hs, by simpa using hpause⟩
    · push Not at hflat
      obtain ⟨d, hd, hbreak⟩ := hflat
      have hbreak' : isStatementBreak d = true := by simpa using hbreak
      by_cases hleaves : Leaves ident s
      · exact .hidden hd hbreak' hleaves fun hshows => hiff (iff_of_true hleaves hshows)
      · refine .seeming hd hbreak' hleaves ?_
        by_contra hshows
        exact hiff (iff_of_false hleaves hshows)

/-! ### The method of a helper -/

/-- The method of the helper is its body, and behind that `return true;` unless nothing gets there. -/
def Closes (h : Helper) (leaves : Prop) : Prop :=
  ∃ code method, CodeBlock.empty.raw? h.body = some code ∧ h.toSource? = some method ∧
    (leaves → method.body = some code) ∧
    (¬leaves → method.body = some (code.statement "return true"))

theorem statement_ne (code : CodeBlock) (text : String) : code.statement text ≠ code := by
  intro h
  have hlength := congrArg (fun b : CodeBlock => b.lines.length) h
  simp [CodeBlock.statement, CodeBlock.line] at hlength

/-- The method is as it should be if what is read of the body is what it does. -/
theorem closes_iff_endsAbruptly {h : Helper} (hsignal : h.signal = true) {leaves : Prop} :
    h.Closes leaves ↔
      (CodeBlock.verbatim? h.body).isSome = true ∧ (leaves ↔ endsAbruptly h.body = true) := by
  cases hlines : CodeBlock.verbatim? h.body with
  | none =>
    have hraw : CodeBlock.empty.raw? h.body = none := by rw [CodeBlock.raw?, hlines]; rfl
    simp [Closes, hraw]
  | some lines =>
    obtain ⟨code, hraw⟩ : ∃ code, CodeBlock.empty.raw? h.body = some code :=
      ⟨_, by rw [CodeBlock.raw?, hlines]; rfl⟩
    obtain ⟨method, hmethod, hbody⟩ : ∃ method, h.toSource? = some method ∧ method.body =
        some (if endsAbruptly h.body then code else code.statement "return true") := by
      refine ⟨_, by rw [toSource?, hraw]; rfl, ?_⟩
      cases hends : endsAbruptly h.body <;> simp [hsignal]
    constructor
    · rintro ⟨code', method', hraw', hmethod', hleaves, hgoes⟩
      obtain rfl : code = code' := Option.some.inj (hraw.symm.trans hraw')
      obtain rfl : method = method' := Option.some.inj (hmethod.symm.trans hmethod')
      refine ⟨rfl, fun hl => ?_, fun hends => ?_⟩
      · by_contra hends
        rw [hleaves hl, if_neg hends] at hbody
        exact statement_ne code _ (Option.some.inj hbody).symm
      · by_contra hl
        rw [hgoes hl, if_pos hends] at hbody
        exact statement_ne code _ (Option.some.inj hbody)
    · rintro ⟨-, hiff⟩
      exact ⟨code, method, hraw, hmethod, fun hl => by rw [hbody, if_pos (hiff.1 hl)],
        fun hl => by rw [hbody, if_neg fun hends => hl (hiff.2 hends)]⟩

/-- A body is made up of statements in one way, so it has one last statement. What is appended to it is
    what that one calls for, just if it is not misread; only a body whose margin cuts through a
    character has no method. -/
theorem closes_iff (hident : ∀ c, isPause c = true → ident c = false) {h : Helper}
    (hsignal : h.signal = true) (hbody : MakesUp statements h.body) :
    (∀ others, MakesUp others h.body ↔ others = statements) ∧
      (h.Closes (∃ s ∈ statements.getLast?, Leaves ident s) ↔
        (CodeBlock.verbatim? h.body).isSome = true ∧
          ∀ s ∈ statements.getLast?, ¬Misread ident s) := by
  refine ⟨fun others => ⟨fun hothers => hothers.unique hbody, fun h => h ▸ hbody⟩, ?_⟩
  rw [closes_iff_endsAbruptly hsignal, endsAbruptly_iff hbody]
  refine and_congr_right fun _ => ?_
  cases statements.getLast? with
  | none => simp
  | some s => simp [misread_iff hident]

theorem isWordChar_of_isPause (c : Char) (h : isPause c = true) : isWordChar c = false := by
  rw [Bool.eq_false_iff]
  intro hword
  have hrange := (Utf8.isWordChar_iff c).1 hword
  rcases Bool.or_eq_true_iff.1 h with hblank | hparenthesis
  · simp [isBlank] at hblank
    omega
  · obtain rfl : c = '(' := by simpa using hparenthesis
    exact absurd hword (by decide)

/-- A helper that signals, with that body. -/
def signaling (body : String) : Helper :=
  { name := "update__ai", component := "AiComp", params := [], body, signal := true }

/-- The lines of the method of a helper. -/
def texts? (h : Helper) : Option (List String) := (h.toSource?.bind (·.body)).map (·.texts)

theorem closes_iff_gone :
    MakesUp ["say(\"x; y\")".toList, "\nthrow new Gone(\"see log\")".toList]
        "say(\"x; y\");\nthrow new Gone(\"see log\");" ∧
      (signaling "say(\"x; y\");\nthrow new Gone(\"see log\");").Closes
        (∃ s ∈ ["say(\"x; y\")".toList, "\nthrow new Gone(\"see log\")".toList].getLast?,
          Leaves isWordChar s) := by
  have hbody : MakesUp ["say(\"x; y\")".toList, "\nthrow new Gone(\"see log\")".toList]
      "say(\"x; y\");\nthrow new Gone(\"see log\");" :=
    ⟨by decide, [], List.forall_mem_nil _, by decide⟩
  refine ⟨hbody, (closes_iff (h := signaling _) isWordChar_of_isPause rfl hbody).2.2
    ⟨by decide, fun s hs => ?_⟩⟩
  obtain rfl : "\nthrow new Gone(\"see log\")".toList = s := Option.some.inj hs
  rw [misread_iff isWordChar_of_isPause, not_not]
  exact iff_of_true (by decide) (by decide)

/-- A semicolon in a literal hides the `throw` in front of it; behind one a word of the literal is taken
    for the keyword; and a keyword with a sign right behind it is not seen. -/
theorem exists_misclosed :
    (MakesUp ["throw new Gone(\"dead; stop\")".toList] "throw new Gone(\"dead; stop\");" ∧
        Leaves isWordChar "throw new Gone(\"dead; stop\")".toList ∧
        (signaling "throw new Gone(\"dead; stop\");").texts? =
          some ["throw new Gone(\"dead; stop\");", "return true;"]) ∧
      (MakesUp ["say(\"gone; throw it away\")".toList] "say(\"gone; throw it away\");" ∧
        ¬Leaves isWordChar "say(\"gone; throw it away\")".toList ∧
        (signaling "say(\"gone; throw it away\");").texts? = some ["say(\"gone; throw it away\");"]) ∧
      MakesUp ["return!dead".toList] "return!dead;" ∧ Leaves isWordChar "return!dead".toList ∧
        (signaling "return!dead;").texts? = some ["return!dead;", "return true;"] :=
  ⟨⟨⟨by decide, [], List.forall_mem_nil _, by decide⟩, by decide, by decide⟩,
    ⟨⟨by decide, [], List.forall_mem_nil _, by decide⟩, by decide, by decide⟩,
    ⟨by decide, [], List.forall_mem_nil _, by decide⟩, by decide, by decide⟩

end EntityWeaver.Helper
