import EntityWeaver.Proofs.MethodBody.Edit
import EntityWeaver.Proofs.MethodBody.SelfCall
import Mathlib

/-! What is edited in a body.

    The two replacements are made one after the other, the second in what the first has written. Seen
    from the body they are one way to revise it, from its start to its end:

        body        ..  self()  ..  return ;  ..
        replaced    ..  this    ..  return ;  ..        every call
        scanned     ..  this    ..  return false; ..    where the scan of what is replaced stops

    No call goes across a place at which the two meet, and the first replacement makes no bare return.
    Of the bare returns the scan leaves out those in literals and behind word characters; the calls
    are replaced wherever they stand. -/

namespace EntityWeaver.MethodBody

open Text

/-- What is written for text that calls are replaced in, behind a state of the scan. -/
def Exit.write (exit : Exit) (s : Scan) (text : List Char) : List Char :=
  match exit with
  | .keep => text
  | .signal => s.run text

/-- Behind the text before, the scan of what is replaced in it would replace a bare return. -/
def StopsBehind (before : List Char) : Prop := (Scan.passAll {} (replaceSelf before)).Stops

/-- The edits that are made. -/
def Makes (exit : Exit) (before : List Char) (e : Edit) (rest : List Char) : Prop :=
  match e with
  | .keep c => ¬"self()".toList <+: c :: rest ∧
      (exit = .signal → StopsBehind before → bareReturn? (c :: rest) = none)
  | .self => True
  | .stop _ _ => exit = .signal ∧ StopsBehind before

/-- The replacement of calls puts in `this` and nothing else. -/
theorem putsIn_replaceSelf (before xs : List Char) :
    Revises (fun _ e _ => e.PutsIn 't' 'h') before xs (replaceSelf xs) := by
  refine replaceSelf_induction (motive := fun xs => ∀ before,
    Revises (fun _ e _ => e.PutsIn 't' 'h') before xs (replaceSelf xs)) ?nil ?call ?keep xs before
  case nil => exact fun _ => .done
  case call =>
    intro rest ih before
    rw [replaceSelf_call]
    exact .edit (e := .self) (.inr ⟨_, rfl⟩) (ih _)
  case keep =>
    intro c rest hc ih before
    rw [replaceSelf_cons hc]
    exact .edit (e := .keep c) (.inl rfl) (ih _)

/-- Where a bare return stands behind the replacement of calls, one stood before. -/
theorem bareReturn_prefix_of_replaceSelf {blanks xs : List Char} (hblanks : Blanks blanks)
    (h : bareReturn blanks <+: replaceSelf xs) : bareReturn blanks <+: xs := by
  refine (putsIn_replaceSelf [] xs).prefix_of_written (fun us vs heq => ?_) h
  have hend : 't' ∉ 'n' :: (blanks ++ [';']) := not_mem_end hblanks (by decide) (by decide)
  have htail : 't' ∉ 'u' :: 'r' :: 'n' :: (blanks ++ [';']) :=
    List.not_mem_cons_of_ne_of_not_mem (by decide)
      (List.not_mem_cons_of_ne_of_not_mem (by decide) hend)
  have hform : ['r', 'e'] ++ 't' :: 'u' :: 'r' :: 'n' :: (blanks ++ [';']) = us ++ 't' :: vs :=
    (bareReturn_eq blanks).symm.trans heq
  obtain ⟨-, -, rfl⟩ := (List.append_cons_inj_of_notMem (by decide) htail).1 hform
  exact ⟨'u', _, rfl, by decide⟩

theorem passAll_replaceSelf {before old new : List Char} (hcut : Parted before old)
    (hnew : replaceSelf old = new) : Scan.passAll {} (replaceSelf (before ++ old)) =
      (Scan.passAll {} (replaceSelf before)).passAll new := by
  rw [replaceSelf_append hcut, hnew, Scan.passAll_append]

section Write

variable {exit : Exit} {s : Scan}

theorem write_call (hs : s.Settled) (text : List Char) :
    exit.write s ("this".toList ++ text) =
      "this".toList ++ exit.write (s.passAll "this".toList) text := by
  cases exit with
  | keep => rfl
  | signal => exact Scan.run_append_of_ne hs (by simp) text

theorem write_cons {c : Char} {text : List Char} (hs : s.Settled)
    (hstop : exit = .signal → s.Stops → bareReturn? (c :: text) = none) :
    exit.write s (c :: text) = c :: exit.write (s.pass c) text := by
  cases exit with
  | keep => rfl
  | signal => exact Scan.run_cons hs (hstop rfl)

end Write

/-- The two replacements together are one way to revise a text. -/
theorem revises_write (exit : Exit) {before rest : List Char} (h : Parted before rest) :
    Revises (Makes exit) before rest
      (exit.write (Scan.passAll {} (replaceSelf before)) (replaceSelf rest)) := by
  have hs := Scan.settled_empty.passAll (replaceSelf before)
  match rest with
  | [] =>
    cases exit with
    | _ => exact .done
  | c :: tail =>
    by_cases hcall : "self()".toList <+: c :: tail
    · obtain ⟨after, hafter⟩ := hcall
      rw [← hafter] at h ⊢
      have hstate := passAll_replaceSelf (h.of_prefix (List.prefix_append _ after)) (by rfl)
      have htail := revises_write exit (parted_call before after)
      rw [hstate] at htail
      rw [replaceSelf_call, write_call hs]
      exact .edit (e := .self) trivial htail
    · by_cases hstop : exit = .signal → StopsBehind before → bareReturn? (c :: tail) = none
      · have hone : replaceSelf [c] = [c] := replaceSelf_eq_self fun hin => by
          simpa using hin.length_le
        have hstate := passAll_replaceSelf (h.of_prefix (List.prefix_append [c] tail)) hone
        have htail := revises_write exit (h.concat hcall)
        rw [hstate] at htail
        rw [replaceSelf_cons hcall, write_cons hs]
        · exact .edit (e := .keep c) ⟨hcall, hstop⟩ htail
        · intro hexit hstops
          refine bareReturn?_eq_none.2 fun blanks hblanks hpre => ?_
          rw [← replaceSelf_cons hcall] at hpre
          exact bareReturn?_eq_none.1 (hstop hexit hstops) blanks hblanks
            (bareReturn_prefix_of_replaceSelf hblanks hpre)
      · obtain ⟨rfl, hstops, hsome⟩ :
            exit = .signal ∧ StopsBehind before ∧ bareReturn? (c :: tail) ≠ none := by
          simpa using hstop
        obtain ⟨n, hn⟩ := Option.ne_none_iff_exists'.1 hsome
        obtain ⟨blanks, after, hblanks, heq, _⟩ := bareReturn?_eq_some.1 hn
        have hletter : 's' ∉ bareReturn blanks := not_mem_bareReturn hblanks (by decide) (by decide)
        rw [heq] at h ⊢
        have hstate := passAll_replaceSelf (h.of_prefix (List.prefix_append _ after))
          (replaceSelf_eq_self fun hin => hletter (hin.subset (by decide)))
        have htail := revises_write .signal (parted_bareReturn before blanks after)
        rw [hstate] at htail
        rw [replaceSelf_append_of_not_mem hletter]
        show Revises _ _ _ (Scan.run _ _)
        rw [Scan.run_bareReturn hstops hblanks]
        exact .edit (e := .stop blanks hblanks) ⟨rfl, hstops⟩ htail
termination_by rest.length
decreasing_by
  · rw [← hafter, List.length_append]
    exact Nat.lt_add_of_pos_left (by decide)
  · exact Nat.lt_succ_self _
  · rw [heq, List.length_append]
    exact Nat.lt_add_of_pos_left (List.length_pos_of_ne_nil (List.cons_ne_nil _ _))

/-! ### Which edits are lawful -/

/-- The edits that alter no literal and no identifier, by what an identifier can contain: those of a
    call of its own and, where returns are to signal, of a bare return. -/
def Lawful (ident : Char → Bool) (exit : Exit) (before : List Char) (e : Edit) (_rest : List Char) :
    Prop :=
  match e with
  | .keep _ => True
  | .self => OutsideLiterals before ∧ ¬EndsIn ident before
  | .stop _ _ => exit = .signal ∧ OutsideLiterals before ∧ ¬EndsIn ident before

variable {ident : Char → Bool} {exit : Exit} {body text : List Char}

/-- A scan stops in code only, and code is where it was. -/
theorem outsideLiterals_of_stopsBehind {before : List Char} (h : StopsBehind before) :
    OutsideLiterals before :=
  (Scan.code_passAll_replaceSelf_iff before).1 h.code

/-- Behind the start of an edit no call starts. -/
theorem call_apart (e : Edit) {us tail : List Char} (hne : us ≠ []) : e.old ≠ us ++ 's' :: tail := by
  obtain ⟨c, us, rfl⟩ := List.exists_cons_of_ne_nil hne
  intro hold
  have hmem : ∀ {xs : List Char}, xs = us ++ 's' :: tail → 's' ∈ xs := by
    rintro _ rfl
    simp
  cases e with
  | keep d => exact absurd (hmem (List.cons.inj hold).2) List.not_mem_nil
  | self =>
    have htail : "elf()".toList = us ++ 's' :: tail := (List.cons.inj hold).2
    exact absurd (hmem htail) (by decide)
  | stop blanks hblanks =>
    have hform : 's' ∈ bareReturn blanks := List.mem_cons_of_mem 'r' (hmem (List.cons.inj hold).2)
    exact not_mem_bareReturn hblanks (by decide) (by decide) hform

/-- Behind the start of an edit no bare return starts. -/
theorem return_apart (e : Edit) {us tail : List Char} (hne : us ≠ [])
    (hold : e.old = us ++ 'r' :: tail) : ∃ d tail', tail = d :: tail' ∧ d ≠ 'e' := by
  cases e with
  | keep d =>
    have hlength : [d].length = (us ++ 'r' :: tail).length := congrArg List.length hold
    have hpos := List.length_pos_of_ne_nil hne
    simp only [List.length_append, List.length_cons, List.length_nil] at hlength
    omega
  | self =>
    have hmem : 'r' ∈ us ++ 'r' :: tail := by simp
    exact absurd (hold ▸ hmem) (by decide)
  | stop blanks hblanks =>
    obtain rfl := tail_of_bareReturn_eq hblanks hne hold
    exact ⟨'n', _, rfl, by decide⟩

/-- A lawful revision replaces no call in a literal or behind an identifier. -/
theorem lawful_call (hmade : Revises (Makes exit) [] body text)
    (hlawful : Revises (Lawful ident exit) [] body text) {before rest : List Char}
    (heq : body = before ++ ("self()".toList ++ rest)) :
    OutsideLiterals before ∧ ¬EndsIn ident before := by
  obtain ⟨e, r, ⟨hmay, hmay'⟩, hform⟩ := (hmade.and hlawful).exists_edit
    (fun e _ _ hne hold => absurd hold (call_apart e hne)) heq
  cases e with
  | keep c => exact absurd ⟨rest, hform.symm⟩ hmay.1
  | self => exact hmay'
  | stop blanks _ => exact absurd (List.cons.inj hform).1 (by decide)

/-- A lawful revision replaces no bare return behind an identifier. -/
theorem lawful_return (hmade : Revises (Makes .signal) [] body text)
    (hlawful : Revises (Lawful ident .signal) [] body text) {before blanks rest : List Char}
    (hblanks : Blanks blanks) (heq : body = before ++ (bareReturn blanks ++ rest))
    (hstops : StopsBehind before) : ¬EndsIn ident before := by
  have hspelled := bareReturn_append blanks rest
  rw [hspelled] at heq
  obtain ⟨e, r, ⟨hmay, hmay'⟩, hform⟩ := (hmade.and hlawful).exists_edit
    (fun e _ _ hne hold => return_apart e hne hold) heq
  cases e with
  | keep c =>
    have hfound : bareReturn? (c :: r) = some (bareReturn blanks).length := by
      rw [show c :: r = bareReturn blanks ++ rest from hform.trans hspelled.symm]
      exact bareReturn?_bareReturn hblanks
    exact absurd ((hmay.2 rfl hstops).symm.trans hfound) (Option.some_ne_none _).symm
  | self => exact absurd (List.cons.inj hform).1 (by decide)
  | stop blanks _ => exact hmay'.2.2

theorem revises_statements {body text : String} (h : statements? body exit = some text) :
    Revises (Makes exit) [] body.toList text.toList := by
  have hcut : Parted [] body.toList := fun us vs _ hus _ => .inl (List.suffix_nil.1 hus)
  have hmade := revises_write exit hcut
  rw [statements?] at h
  split_ifs at h
  cases exit with
  | _ =>
    cases h
    rwa [String.toList_ofList]

/-- All that is edited in a body is its calls and, of its bare returns, those that the scan stops at.
    The edits are lawful just when no call stands in a literal or behind an identifier, and the scan
    stops behind no identifier. -/
theorem statements?_lawful_iff {body text : String} (h : statements? body exit = some text) :
    Revises (Makes exit) [] body.toList text.toList ∧
      (Revises (Lawful ident exit) [] body.toList text.toList ↔
        (∀ before rest, body.toList = before ++ ("self()".toList ++ rest) →
          OutsideLiterals before ∧ ¬EndsIn ident before) ∧
        (exit = .signal → ∀ before blanks rest, Blanks blanks →
          body.toList = before ++ (bareReturn blanks ++ rest) → StopsBehind before →
            ¬EndsIn ident before)) := by
  have hmade := revises_statements h
  refine ⟨hmade, fun hlawful => ⟨fun before rest heq => lawful_call hmade hlawful heq, ?_⟩, ?_⟩
  · rintro rfl before blanks rest hblanks heq hstops
    exact lawful_return hmade hlawful hblanks heq hstops
  · rintro ⟨hcall, hreturn⟩
    refine hmade.imp fun before e rest heq hmay => ?_
    cases e with
    | keep c => trivial
    | self => exact hcall before rest heq
    | stop blanks hblanks =>
      obtain ⟨hexit, hstops⟩ := hmay
      exact ⟨hexit, outsideLiterals_of_stopsBehind hstops,
        hreturn hexit before blanks rest hblanks heq hstops⟩

theorem statements?_lawful_iff_retreat :
    statements? "if(dead) return; add(self());" .signal = some "if(dead) return false; add(this);" ∧
      Revises (Makes .signal) [] "if(dead) return; add(self());".toList
        "if(dead) return false; add(this);".toList ∧
      Revises (Lawful isWordChar .signal) [] "if(dead) return; add(self());".toList
        "if(dead) return false; add(this);".toList := by
  have hrun : statements? "if(dead) return; add(self());" .signal =
      some "if(dead) return false; add(this);" := by decide
  obtain ⟨hmade, hlawful⟩ := @statements?_lawful_iff isWordChar _ _ _ hrun
  refine ⟨hrun, hmade, hlawful.2 ⟨fun before rest heq => ?_, fun _ before blanks rest _ heq _ => ?_⟩⟩
  · have hcut : "if(dead) return; add(".toList ++ 's' :: "elf());".toList =
        before ++ 's' :: ("elf()".toList ++ rest) := heq
    obtain ⟨rfl, -⟩ := (List.append_cons_inj_of_notMem (by decide) (by decide)).1 hcut
    exact ⟨by decide, by decide⟩
  · rw [bareReturn_append] at heq
    have hcut : "if(dead) ret".toList ++ 'u' :: "rn; add(self());".toList =
        (before ++ "ret".toList) ++ 'u' :: ('r' :: 'n' :: (blanks ++ ';' :: rest)) := by
      simpa using heq
    obtain ⟨hfront, -⟩ := (List.append_cons_inj_of_notMem (by decide) (by decide)).1 hcut
    obtain rfl : "if(dead) ".toList = before :=
      List.append_cancel_right (hfront.symm.trans (by rfl)).symm
    decide

/-- A call is replaced in the name of another method, and in a literal. -/
theorem exists_altered :
    (statements? "myself();" .keep = some "mythis;" ∧
        ¬Revises (Lawful isWordChar .keep) [] "myself();".toList "mythis;".toList) ∧
      statements? "log(\"self()\");" .keep = some "log(\"this\");" ∧
        ¬Revises (Lawful isWordChar .keep) [] "log(\"self()\");".toList "log(\"this\");".toList := by
  have hname : statements? "myself();" .keep = some "mythis;" := by decide
  have hliteral : statements? "log(\"self()\");" .keep = some "log(\"this\");" := by decide
  refine ⟨⟨hname, fun hlawful => ?_⟩, hliteral, fun hlawful => ?_⟩
  · have heq : "myself();".toList = "my".toList ++ ("self()".toList ++ [';']) := rfl
    exact absurd (lawful_call (revises_statements hname) hlawful heq).2 (by decide)
  · have heq : "log(\"self()\");".toList =
        "log(\"".toList ++ ("self()".toList ++ ['"', ')', ';']) := rfl
    exact absurd (lawful_call (revises_statements hliteral) hlawful heq).1 (by decide)

end EntityWeaver.MethodBody
