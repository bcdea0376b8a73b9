import EntityWeaver.Proofs.MethodBody.Creation
import EntityWeaver.Proofs.MethodBody.SelfCall
import Mathlib

/-! Returns in the bodies of anonymous classes.

        pre  new Type(args)  { body }  post
             └──────┬─────┘  ▲
         is this a creation? │
                             └ if so, the depth in front of it is nested until the brace that closes it

    While anything nested is open, text is written as it is; and what is open stays so as long as no
    brace goes below it. A body with balanced braces is therefore left alone if its own brace opens
    something nested, or if something nested was open in front of it. Otherwise its returns are
    replaced with those around it. -/

namespace EntityWeaver.MethodBody

open Text

/-- An instance creation, up to the body of the class. -/
def creation (gap type args : List Char) : List Char :=
  "new".toList ++ gap ++ type ++ '(' :: (args ++ [')'])

variable {pre gap type args space : List Char}

theorem creation_def : creation gap type args =
    "new".toList ++ gap ++ type ++ '(' :: (args ++ [')']) := rfl

/-- Behind closed parentheses it is the words in front of them that tell whether a class is opened. -/
theorem opensNested_parentheses (hargs : Balanced '(' ')' args) (hspace : Blanks space)
    (before : List Char) :
    opensNested (space.reverse ++ ')' :: (args.reverse ++ '(' :: before)) =
      ((words before)[1]? == some "new".toList.reverse) := by
  have htrim : trimStart (space.reverse ++ ')' :: (args.reverse ++ '(' :: before)) =
      ')' :: (args.reverse ++ '(' :: before) := by
    rw [trimStart, List.dropWhile_append_of_pos fun c hc => hspace c (List.mem_reverse.1 hc)]
    rfl
  have hopening : beforeOpening? 1 (args.reverse ++ '(' :: before) = some before :=
    beforeOpening?_reverse_append le_rfl hargs ('(' :: before)
  rw [opensNested, htrim]
  show opensClass (')' :: (args.reverse ++ '(' :: before)) = _
  rw [opensClass, beforeOpening?, hopening]
  rfl

/-- A creation is seen if its type is one word and its keyword stands behind a word break. -/
theorem opensNested_creation_iff (hgap : gap ≠ []) (hblanks : Blanks gap) (htype : ClassType type)
    (hargs : Balanced '(' ')' args) (hspace : Blanks space) :
    opensNested (pre ++ creation gap type args ++ space).reverse = true ↔
      (∀ c ∈ type, isWordBreak c = false) ∧ pre.getLast?.all isWordBreak = true := by
  have hreverse : (pre ++ creation gap type args ++ space).reverse = space.reverse ++ ')' ::
      (args.reverse ++ '(' ::
        (type.reverse ++ (gap.reverse ++ ("new".toList.reverse ++ pre.reverse)))) := by
    simp [creation_def]
  rw [hreverse, opensNested_parentheses hargs hspace, beq_iff_eq,
    words_creation_iff hgap hblanks htype, List.head?_reverse]

/-! ### The creation behind the replacement of calls -/

/-- Brackets are open behind both spellings as they are in front. -/
theorem openBehind?_replaceSelf {o k : Char}
    (hcall : ∀ n, openBehind? o k n "this".toList = openBehind? o k n "self()".toList) (n : Nat)
    (xs : List Char) : openBehind? o k n (replaceSelf xs) = openBehind? o k n xs := by
  refine replaceSelf_induction (motive := fun xs => ∀ n,
    openBehind? o k n (replaceSelf xs) = openBehind? o k n xs) ?nil ?call ?keep xs n
  case nil => exact fun _ => rfl
  case call =>
    intro rest ih n
    rw [replaceSelf_call, openBehind?_append, openBehind?_append, hcall]
    simp only [ih]
  case keep =>
    intro c rest hc ih n
    rw [replaceSelf_cons hc]
    simp only [openBehind?, ih]

theorem balanced_parentheses_replaceSelf (h : Balanced '(' ')' args) :
    Balanced '(' ')' (replaceSelf args) :=
  (openBehind?_replaceSelf (fun _ => rfl) 0 args).trans h

theorem balanced_braces_replaceSelf {body : List Char} (h : Balanced '\x7b' '\x7d' body) :
    Balanced '\x7b' '\x7d' (replaceSelf body) :=
  (openBehind?_replaceSelf (fun _ => rfl) 0 body).trans h

theorem not_balanced_cons {o k : Char} (hne : k ≠ o) (xs : List Char) : ¬Balanced o k (k :: xs) := by
  intro h
  rw [Balanced, openBehind?, if_neg hne, if_pos rfl, if_pos rfl] at h
  cases h

/-- A call goes into the parentheses of a creation only if the name of its type ends like one. -/
theorem parted_type (hargs : Balanced '(' ')' args) (hself : ¬(args = [] ∧ "self".toList <:+ type))
    (rest : List Char) : Parted type ('(' :: (args ++ ')' :: rest)) := by
  intro us vs heq hus hvs
  rcases vs with _ | ⟨c, vs⟩
  · exact .inr rfl
  · obtain ⟨rfl, htail⟩ := List.cons_prefix_cons.1 hvs
    obtain ⟨rfl, -, rfl⟩ : "self".toList = us ∧ '(' = '(' ∧ [')'] = vs :=
      (List.append_cons_inj_of_notMem (by decide) (by decide)).1 heq.symm
    refine absurd ⟨?_, hus⟩ hself
    cases args with
    | nil => rfl
    | cons c args =>
      obtain ⟨rfl, _⟩ := List.cons_prefix_cons.1 htail
      exact absurd hargs (not_balanced_cons (by decide) args)

theorem parted_args (hargs : Balanced '(' ')' args) (rest : List Char) :
    Parted args (')' :: rest) := by
  intro us vs heq hus hvs
  rcases vs with _ | ⟨c, vs⟩
  · exact .inr rfl
  · obtain ⟨rfl, _⟩ := List.cons_prefix_cons.1 hvs
    obtain ⟨rfl, -⟩ : "self(".toList = us ∧ ')' = ')' ∧ [] = vs :=
      (List.append_cons_inj_of_notMem (by decide) (by decide)).1 heq.symm
    obtain ⟨init, rfl⟩ := hus
    have hopen : init ++ "self(".toList = (init ++ "self".toList) ++ ['('] := by simp
    exact absurd (hopen ▸ hargs) (not_balanced_concat _)

/-- A creation stays one, unless a call is read into it. -/
theorem replaceSelf_creation (hblanks : Blanks gap) (htype : ClassType type)
    (hargs : Balanced '(' ')' args) (hself : ¬(args = [] ∧ "self".toList <:+ type))
    (hspace : Blanks space) :
    replaceSelf (pre ++ creation gap type args ++ space) =
      replaceSelf pre ++ creation gap type (replaceSelf args) ++ space := by
  have hnew : 's' ∉ "new".toList ++ gap := by
    rw [List.mem_append, not_or]
    exact ⟨by decide, hblanks.not_mem (by decide)⟩
  have hclosing : replaceSelf (')' :: space) = ')' :: space := by
    refine replaceSelf_eq_self fun h => ?_
    rcases List.mem_cons.1 (h.subset (a := 's') (by decide)) with heq | hmem
    · exact absurd heq (by decide)
    · exact hspace.not_mem (by decide) hmem
  have hcall : ¬"self()".toList <:+: type := fun h =>
    (htype.plain '(' (h.subset (by decide))).2.1 rfl
  have hparentheses : replaceSelf ('(' :: (args ++ ')' :: space)) =
      '(' :: (replaceSelf args ++ ')' :: space) := by
    rw [replaceSelf_cons (by simp [List.cons_prefix_cons]),
      replaceSelf_append (parted_args hargs space), hclosing]
  calc replaceSelf (pre ++ creation gap type args ++ space)
    _ = replaceSelf (pre ++ (("new".toList ++ gap) ++ (type ++ '(' :: (args ++ ')' :: space)))) := by
      simp [creation_def]
    _ = replaceSelf pre ++
          (("new".toList ++ gap) ++ replaceSelf (type ++ '(' :: (args ++ ')' :: space))) := by
      rw [← replaceSelf_append_of_not_mem hnew]
      exact replaceSelf_append (parted_cons (by decide))
    _ = replaceSelf pre ++
          (("new".toList ++ gap) ++ (type ++ '(' :: (replaceSelf args ++ ')' :: space))) := by
      rw [replaceSelf_append (parted_type hargs hself space), replaceSelf_eq_self hcall, hparentheses]
    _ = replaceSelf pre ++ creation gap type (replaceSelf args) ++ space := by
      simp [creation_def]

/-- A creation without arguments whose type ends like the name of the call loses its parentheses. -/
theorem opensNested_replaceSelf_self (hself : "self".toList <:+ type) (hspace : Blanks space) :
    opensNested (replaceSelf (pre ++ creation gap type [] ++ space)).reverse = false := by
  obtain ⟨name, rfl⟩ := hself
  have hspelled : pre ++ creation gap (name ++ "self".toList) [] ++ space =
      (pre ++ "new".toList ++ gap ++ name) ++ ("self()".toList ++ space) := by
    simp [creation_def]
  have hblank : replaceSelf space = space := replaceSelf_eq_self fun h =>
    hspace.not_mem (c := 's') (by decide) (h.subset (by decide))
  have hcut : Parted (pre ++ "new".toList ++ gap ++ name) ("self()".toList ++ space) :=
    parted_cons (by decide)
  have htrim : ∃ rest, trimStart (replaceSelf (pre ++ creation gap (name ++ "self".toList) [] ++
      space)).reverse = 's' :: rest := by
    rw [hspelled, replaceSelf_append hcut, replaceSelf_call, hblank, List.reverse_append,
      List.reverse_append, List.append_assoc, trimStart,
      List.dropWhile_append_of_pos fun c hc => hspace c (List.mem_reverse.1 hc)]
    exact ⟨_, rfl⟩
  obtain ⟨rest, hrest⟩ := htrim
  rw [opensNested, hrest]
  rfl

/-- Whether the brace behind a creation opens a class body. -/
theorem opensNested_replaceSelf_iff (hgap : gap ≠ []) (hblanks : Blanks gap) (htype : ClassType type)
    (hargs : Balanced '(' ')' args) (hspace : Blanks space) :
    opensNested (replaceSelf (pre ++ creation gap type args ++ space)).reverse = true ↔
      (∀ c ∈ type, isWordBreak c = false) ∧ pre.getLast?.all isWordBreak = true ∧
        ¬(args = [] ∧ "self".toList <:+ type) := by
  by_cases hself : args = [] ∧ "self".toList <:+ type
  · obtain ⟨rfl, hsuffix⟩ := hself
    rw [opensNested_replaceSelf_self hsuffix hspace]
    exact iff_of_false Bool.false_ne_true fun h => h.2.2 ⟨rfl, hsuffix⟩
  · have hlast : (replaceSelf pre).getLast?.all isWordBreak = pre.getLast?.all isWordBreak := by
      have h := congrArg (Option.all id) (getLast?_replaceSelf (p := isWordBreak) (by decide) pre)
      rwa [Option.all_map, Option.all_map] at h
    rw [replaceSelf_creation hblanks htype hargs hself hspace, opensNested_creation_iff hgap hblanks
      htype (balanced_parentheses_replaceSelf hargs) hspace, hlast, and_iff_left hself]

/-! ### What is open while a body is scanned -/

namespace Scan

/-- What is nested was opened one inside the other, and all of it outside of where the scan is. -/
def Stacked (s : Scan) : Prop := (s.depth :: s.nested).Pairwise (· > ·)

theorem Stacked.pass {s : Scan} (hs : s.Settled) (h : s.Stacked) (c : Char) : (s.pass c).Stacked := by
  obtain ⟨hdepth, hnested⟩ := List.pairwise_cons.1 h
  cases hmode : s.mode with
  | code =>
    rcases code_cases c with hc | rfl | rfl | hc
    · rwa [pass_of_quote hmode hc]
    · have hdeeper : ∀ e ∈ s.nested, s.depth + 1 > e := fun e he => by
        have hlt := hdepth e he
        omega
      rw [pass_open hmode, Stacked]
      dsimp only
      split_ifs
      · exact List.pairwise_cons.2 ⟨List.forall_mem_cons.2 ⟨by omega, hdeeper⟩, h⟩
      · exact List.pairwise_cons.2 ⟨hdeeper, hnested⟩
    · rw [pass_close hmode, Stacked]
      dsimp only
      cases htop : s.nested with
      | nil => simp
      | cons e outer =>
        rw [htop] at hdepth hnested
        obtain ⟨hlower, houter⟩ := List.pairwise_cons.1 hnested
        have hlt := hdepth e List.mem_cons_self
        split_ifs with heq
        · have heq' : e = s.depth - 1 := Option.some.inj heq
          rw [← heq']
          exact hnested
        · have hne : e ≠ s.depth - 1 := fun h => heq (congrArg some h)
          refine List.pairwise_cons.2 ⟨List.forall_mem_cons.2 ⟨by omega, fun f hf => ?_⟩, hnested⟩
          have hflt := hlower f hf
          omega
    · rwa [pass_of_isPlain hmode hc]
  | literal q => rwa [pass_of_literal hmode]
  | escaped q => rwa [pass_of_escaped hmode]
  | replaced n => exact absurd hmode (hs n)

theorem stacked_empty : Stacked {} := List.pairwise_singleton _ _

theorem stacked_passAll {s : Scan} (hs : s.Settled) (h : s.Stacked) (xs : List Char) :
    (s.passAll xs).Stacked := by
  induction xs generalizing s with
  | nil => exact h
  | cons c xs ih => exact ih (hs.pass c) (h.pass hs c)

/-- While something is open that no brace closes, text without quotes is written as it is. -/
theorem run_of_nested {s : Scan} (hcode : s.mode = .code) {n m : Nat} {e : Int} (he : e ∈ s.nested)
    (hbelow : e < s.depth - n) {xs : List Char} (hquote : ∀ c ∈ xs, ¬isQuote c = true)
    (hxs : openBehind? '\x7b' '\x7d' n xs = some m) (rest : List Char) :
    s.run (xs ++ rest) = xs ++ (s.passAll xs).run rest := by
  induction xs generalizing s n with
  | nil => rfl
  | cons c xs ih =>
    have hs := settled_of_code hcode
    obtain ⟨hc, htail⟩ := List.forall_mem_cons.1 hquote
    have hcode' : (s.pass c).mode = .code := by
      rw [mode_pass hs, hcode, Mode.pass, if_neg hc]
    have hstop : s.Stops → bareReturn? (c :: (xs ++ rest)) = none := fun hstops =>
      absurd he (hstops.own ▸ List.not_mem_nil)
    rw [List.cons_append, run_cons hs hstop]
    refine congrArg (c :: ·) ?_
    rcases openBehind?_cons hxs with ⟨rfl, hxs⟩ | ⟨_, rfl, p, rfl, hxs⟩ | ⟨hopen, hclose, hxs⟩
    · refine ih hcode' ?_ ?_ htail hxs
      · rw [pass_open hcode]
        split_ifs
        · exact List.mem_cons_of_mem _ he
        · exact he
      · rw [pass_open hcode]
        dsimp only
        omega
    · refine ih hcode' ?_ ?_ htail hxs
      · rw [pass_close hcode]
        split_ifs with htop
        · -- What the brace closes was opened further inside.
          obtain ⟨outer, hnested⟩ := List.head?_eq_some_iff.1 htop
          rw [hnested] at he ⊢
          refine (List.mem_cons.1 he).resolve_left ?_
          omega
        · exact he
      · rw [pass_close hcode]
        dsimp only
        omega
    · have hplain : isPlain c = true := by
        rcases code_cases c with h | h | h | h
        · exact absurd h hc
        · exact absurd h hopen
        · exact absurd h hclose
        · exact h
      have hpass := pass_of_isPlain hcode hplain
      refine ih hcode' ?_ ?_ htail hxs
      · rwa [hpass]
      · rwa [hpass]

end Scan

/-! ### The body behind a text -/

/-- The text opens a class whose body is left alone: whatever body with balanced braces it goes on
    with, and whatever follows that, the body is written as it is. -/
def LeavesBody (text : List Char) : Prop :=
  ∀ body post, Balanced '\x7b' '\x7d' body → (∀ c ∈ body, ¬isQuote c = true) → ∃ out,
    statements? (String.ofList (text ++ '\x7b' :: (body ++ '\x7d' :: post))) .signal =
      some (String.ofList
        (signalReturns (replaceSelf text) ++ '\x7b' :: (replaceSelf body ++ '\x7d' :: out)))

theorem statements?_signal {text : List Char} {c : Char} (hc : c ∈ text)
    (hblank : isBlank c = false) : statements? (String.ofList text) .signal =
      some (String.ofList (signalReturns (replaceSelf text))) := by
  have hsome : isBlankText (String.ofList text) = false := by
    rw [isBlankText, String.toList_ofList, List.all_eq_false]
    exact ⟨c, hc, by simp [hblank]⟩
  rw [statements?, hsome, String.toList_ofList]
  rfl

/-- The text up to the brace of a body and the body behind it are written one after the other. -/
theorem statements?_body (text body post : List Char) :
    statements? (String.ofList (text ++ '\x7b' :: (body ++ '\x7d' :: post))) .signal =
      some (String.ofList (signalReturns (replaceSelf text) ++
        (Scan.passAll {} (replaceSelf text)).run
          ('\x7b' :: (replaceSelf body ++ '\x7d' :: replaceSelf post)))) := by
  have hbrace : ∀ blanks, Blanks blanks → '\x7b' ∉ bareReturn blanks := fun blanks hblanks h =>
    absurd (isPlain_of_mem_bareReturn hblanks _ h) (by decide)
  rw [statements?_signal (c := '\x7b') (by simp) (by decide), replaceSelf_append_cons (by decide),
    replaceSelf_append_cons (by decide), signalReturns,
    Scan.run_append_cons Scan.settled_empty hbrace]
  rfl

/-- Behind the brace of a body that is left alone something is nested that its own brace closes. -/
theorem exists_nested_pass {s : Scan} (hcode : s.mode = .code) (hstacked : s.Stacked)
    (h : opensNested s.before = true ∨ s.nested ≠ []) :
    ∃ e ∈ (s.pass '\x7b').nested, e < (s.pass '\x7b').depth := by
  rw [Scan.pass_open hcode]
  dsimp only
  by_cases hopens : opensNested s.before = true
  · rw [if_pos hopens]
    exact ⟨s.depth, List.mem_cons_self, by omega⟩
  · obtain ⟨e, outer, houter⟩ := List.exists_cons_of_ne_nil (h.resolve_left hopens)
    have he : e ∈ s.nested := houter ▸ List.mem_cons_self
    have hlt := (List.pairwise_cons.1 hstacked).1 e he
    rw [if_neg hopens]
    exact ⟨e, he, by omega⟩

/-- Where nothing is nested, a bare return at the start of a body is replaced. -/
theorem run_returning_body {s : Scan} (hcode : s.mode = .code) (hopens : ¬opensNested s.before = true)
    (hnested : s.nested = []) (rest : List Char) :
    ∃ out, s.run ('\x7b' :: (bareReturn [] ++ rest)) = '\x7b' :: ("return false;".toList ++ out) := by
  have hs := Scan.settled_of_code hcode
  have hstops : (s.pass '\x7b').Stops := by
    rw [Scan.pass_open hcode, if_neg hopens]
    exact ⟨hcode, hnested, by rfl⟩
  rw [Scan.run_cons hs fun _ => bareReturn?_cons_of_ne (by decide),
    Scan.run_bareReturn hstops (List.forall_mem_nil _)]
  exact ⟨_, rfl⟩

theorem leavesBody_iff {text : List Char} (hcode : (Scan.passAll {} (replaceSelf text)).mode = .code) :
    LeavesBody text ↔
      opensNested (replaceSelf text).reverse = true ∨
        (Scan.passAll {} (replaceSelf text)).nested ≠ [] := by
  have hstacked :=
    Scan.stacked_passAll Scan.settled_empty Scan.stacked_empty (replaceSelf text)
  have hbefore := Scan.before_passAll Scan.settled_empty (replaceSelf text)
  rw [show ({} : Scan).before = [] from rfl, List.append_nil] at hbefore
  rw [← hbefore]
  constructor
  · intro hleaves
    by_contra hnot
    obtain ⟨hopens, hnested⟩ := not_or.1 hnot
    obtain ⟨out, hout⟩ := hleaves (bareReturn []) [] rfl fun c hc =>
      not_isQuote_of_isPlain (isPlain_of_mem_bareReturn (List.forall_mem_nil _) c hc)
    obtain ⟨out', hrun⟩ := run_returning_body hcode hopens (not_not.1 hnested) ['\x7d']
    have hsame := (statements?_body text _ _).symm.trans hout
    have htext := List.append_cancel_left (String.ofList_injective (Option.some.inj hsame))
    have hwritten := htext.symm.trans hrun
    have hsemicolon : (';' :: '\x7d' :: out) = ' ' :: ("false;".toList ++ out') :=
      (List.append_right_inj ('\x7b' :: "return".toList)).1 hwritten
    exact absurd (List.cons.inj hsemicolon).1 (by decide)
  · intro h body post hbalanced hquote
    obtain ⟨e, he, hlt⟩ := exists_nested_pass hcode hstacked h
    have hs := Scan.settled_empty.passAll (replaceSelf text)
    have hcode' : ((Scan.passAll {} (replaceSelf text)).pass '\x7b').mode = .code := by
      rw [Scan.pass_open hcode]
      exact hcode
    have hquote' : ∀ c ∈ replaceSelf body, ¬isQuote c = true := forall_mem_replaceSelf
      (fun c hc => not_isQuote_of_isPlain
        (List.all_eq_true.1 (show "this".toList.all isPlain by rfl) c hc)) hquote
    have hs' := (hs.pass '\x7b').passAll (replaceSelf body)
    rw [statements?_body, Scan.run_cons hs fun _ => bareReturn?_cons_of_ne (by decide),
      Scan.run_of_nested hcode' he (by simpa using hlt) hquote' (balanced_braces_replaceSelf hbalanced),
      Scan.run_cons hs' fun _ => bareReturn?_cons_of_ne (by decide)]
    exact ⟨_, rfl⟩

/-- The body of a class behind an instance creation is left alone in just these cases: the type is one
    word, the keyword stands behind a word break and no call is read into the creation; or something
    nested is open around it. -/
theorem creation_leavesBody_iff (hpre : OutsideLiterals pre) (hgap : gap ≠ []) (hblanks : Blanks gap)
    (htype : ClassType type) (hargs : Balanced '(' ')' args) (hquote : ∀ c ∈ args, ¬isQuote c = true)
    (hspace : Blanks space) :
    LeavesBody (pre ++ creation gap type args ++ space) ↔
      (∀ c ∈ type, isWordBreak c = false) ∧ pre.getLast?.all isWordBreak = true ∧
          ¬(args = [] ∧ "self".toList <:+ type) ∨
        (Scan.passAll {} (replaceSelf (pre ++ creation gap type args ++ space))).nested ≠ [] := by
  have hblank : ∀ xs : List Char, Blanks xs → ∀ c ∈ xs, ¬isQuote c = true := fun xs hxs c hc =>
    not_isQuote_of_isPlain (isPlain_of_isBlank (hxs c hc))
  have hplain : ∀ c ∈ creation gap type args ++ space, ¬isQuote c = true := by
    intro c hc
    simp only [creation_def, List.mem_append, List.mem_cons, List.not_mem_nil, or_false] at hc
    rcases hc with ((((hc | hc) | hc) | rfl | hc | rfl) | hc)
    · exact not_isQuote_of_isPlain (List.all_eq_true.1 (show "new".toList.all isPlain by rfl) c hc)
    · exact hblank gap hblanks c hc
    · exact not_isQuote_of_isPlain (htype.plain c hc).1
    · decide
    · exact hquote c hc
    · decide
    · exact hblank space hspace c hc
  have hcode : (Scan.passAll {}
      (replaceSelf (pre ++ creation gap type args ++ space))).mode = .code := by
    rw [Scan.mode_passAll Scan.settled_empty, Mode.foldl_pass_replaceSelf (m := .code) trivial,
      List.append_assoc, List.foldl_append, (Mode.foldl_pass_eq_code_iff pre).2 hpre,
      Mode.foldl_pass_of_not_isQuote hplain]
  rw [leavesBody_iff hcode, opensNested_replaceSelf_iff hgap hblanks htype hargs hspace]

theorem creation_leavesBody_iff_task :
    ClassType "Task".toList ∧
      LeavesBody ("x = ".toList ++ creation [' '] "Task".toList "build(a), self()".toList ++ [' ']) ∧
      ¬LeavesBody ("x = 1;".toList ++ creation [' '] "Task".toList [] ++ [' ']) := by
  have htype : ClassType "Task".toList :=
    ⟨⟨'T', rfl, rfl⟩, ⟨'k', rfl, rfl⟩, by simp [isPlain, isQuote], by decide⟩
  refine ⟨htype, ?_, fun h => ?_⟩
  · exact (creation_leavesBody_iff (by decide) (by decide) (by decide) htype (by decide)
      (by simp [isQuote]) (by decide)).2 (.inl ⟨by simp [isWordBreak, isBlank], rfl, by decide⟩)
  · rcases (creation_leavesBody_iff (by decide) (by decide) (by decide) htype (by decide)
      (by simp) (by decide)).1 h with ⟨_, hkeyword, _⟩ | hnested
    · exact absurd hkeyword (by decide)
    · exact hnested rfl

/-- The type has a blank, so the second word in front of the parentheses is part of it; and a keyword
    right behind a semicolon is no word of its own. -/
theorem exists_returning_class :
    ClassType "HashMap<String, Integer>".toList ∧
      Balanced '\x7b' '\x7d' " void f() \x7b return; \x7d ".toList ∧
      statements? (String.ofList ("x = ".toList ++
          creation [' '] "HashMap<String, Integer>".toList [] ++ [' '] ++
          '\x7b' :: (" void f() \x7b return; \x7d ".toList ++ ['\x7d', ';']))) .signal =
        some "x = new HashMap<String, Integer>() \x7b void f() \x7b return false; \x7d \x7d;" ∧
      statements? (String.ofList ("x = 1;".toList ++ creation [' '] "Task".toList [] ++ [' '] ++
          '\x7b' :: (" void f() \x7b return; \x7d ".toList ++ ['\x7d', ';']))) .signal =
        some "x = 1;new Task() \x7b void f() \x7b return false; \x7d \x7d;" := by
  refine ⟨⟨⟨'H', rfl, rfl⟩, ⟨'>', rfl, rfl⟩, by simp [isPlain, isQuote], by decide⟩, rfl, ?_, ?_⟩
  · decide +kernel
  · decide +kernel

end EntityWeaver.MethodBody
