import EntityWeaver.Proofs.MethodBody.Creation
import EntityWeaver.Proofs.MethodBody.Edit
import EntityWeaver.Proofs.MethodBody.Literal
import EntityWeaver.Proofs.MethodBody.Utf8
import Mathlib

/-! Bare returns of a flat text.

    In a text with no sign of a lambda or of an instance creation nothing nested is ever open, however
    its braces stand. There the scan is a rule about places in the text: a bare return is replaced
    where the text in front of it is outside of literals and ends in no word character, and all else
    is kept. The text written is flat again, and what is put for a bare return is none itself, nor is
    one made by what stands around it; so a second scan finds nothing to do. -/

namespace EntityWeaver.MethodBody

open Text

/-- Behind the text before, a bare return of code stands at the front of the text. -/
def ReturnsAt (before text : List Char) : Prop :=
  OutsideLiterals before ∧ ¬EndsIn isWordChar before ∧
    ∃ blanks, Blanks blanks ∧ bareReturn blanks <+: text

/-- Bare returns are replaced, and all else is kept. -/
def SignalsReturns (before : List Char) (e : Edit) (rest : List Char) : Prop :=
  match e with
  | .keep c => ¬ReturnsAt before (c :: rest)
  | .self => False
  | .stop blanks _ => ReturnsAt before (bareReturn blanks ++ rest)

/-- A text with no sign of a lambda or of an instance creation. -/
structure Flat (s : List Char) : Prop where
  arrow : ¬"->".toList <:+: s
  new : ¬"new".toList <:+: s

theorem Flat.of_append {xs ys : List Char} (h : Flat (xs ++ ys)) : Flat xs where
  arrow := fun harrow => h.arrow (harrow.trans (List.prefix_append xs ys).isInfix)
  new := fun hnew => h.new (hnew.trans (List.prefix_append xs ys).isInfix)

namespace Scan

theorem atWordStart_reverse (xs : List Char) :
    atWordStart xs.reverse = true ↔ ¬EndsIn isWordChar xs := by
  simp [atWordStart, EndsIn]

theorem nested_pass_of_flat {s : Scan} (hs : s.Settled) (hflat : Flat s.before.reverse)
    (h : s.nested = []) (c : Char) : (s.pass c).nested = [] := by
  cases hmode : s.mode with
  | code =>
    rcases code_cases c with hc | rfl | rfl | hc
    · rw [pass_of_quote hmode hc, h]
    · have hopens : ¬opensNested s.before = true := fun hopens =>
        (infix_of_opensNested hopens).elim hflat.arrow hflat.new
      rw [pass_open hmode, if_neg hopens, h]
    · simp only [pass_close hmode, h, List.tail_nil, ite_self]
    · rw [pass_of_isPlain hmode hc, h]
  | literal q => rw [pass_of_literal hmode, h]
  | escaped q => rw [pass_of_escaped hmode, h]
  | replaced n => exact absurd hmode (hs n)

/-- Where nothing has the sign of a lambda or a class, nothing nested is open. -/
theorem nested_passAll_of_flat {s : Scan} (hs : s.Settled) {xs : List Char}
    (hflat : Flat (s.before.reverse ++ xs)) (h : s.nested = []) : (s.passAll xs).nested = [] := by
  induction xs generalizing s with
  | nil => exact h
  | cons c xs ih =>
    refine ih (hs.pass c) ?_ (nested_pass_of_flat hs hflat.of_append h c)
    rw [before_pass hs, List.reverse_cons, List.append_assoc, List.singleton_append]
    exact hflat

theorem stops_passAll_iff {xs : List Char} (h : Flat xs) :
    (passAll {} xs).Stops ↔ OutsideLiterals xs ∧ ¬EndsIn isWordChar xs := by
  have hbefore : (passAll {} xs).before = xs.reverse := by
    rw [before_passAll settled_empty]
    exact List.append_nil _
  have hmode := mode_passAll settled_empty xs
  constructor
  · rintro ⟨hcode, -, hword⟩
    rw [hmode] at hcode
    rw [hbefore] at hword
    exact ⟨(Mode.foldl_pass_eq_code_iff xs).1 hcode, (atWordStart_reverse xs).1 hword⟩
  · rintro ⟨hcode, hword⟩
    refine ⟨hmode.trans ((Mode.foldl_pass_eq_code_iff xs).2 hcode),
      nested_passAll_of_flat settled_empty h rfl, ?_⟩
    rw [hbefore]
    exact (atWordStart_reverse xs).2 hword

/-- The scan puts in `return false;` and nothing else. -/
theorem putsIn_run {s : Scan} (hs : s.Settled) (before xs : List Char) :
    Revises (fun _ e _ => e.PutsIn 'r' 'e') before xs (s.run xs) := by
  refine run_induction (motive := fun s xs => ∀ before,
    Revises (fun _ e _ => e.PutsIn 'r' 'e') before xs (s.run xs)) ?nil ?stop ?keep s hs xs before
  case nil => exact fun _ _ => .done
  case stop =>
    intro s blanks xs hstops hblanks ih before
    rw [run_bareReturn hstops hblanks]
    exact .edit (e := .stop blanks hblanks) (.inr ⟨_, rfl⟩) (ih _)
  case keep =>
    intro s c xs hs hstop ih before
    rw [run_cons hs hstop]
    exact .edit (e := .keep c) (.inl rfl) (ih _)

/-- Where a bare return is written, one is read. -/
theorem bareReturn_prefix_of_run {s : Scan} (hs : s.Settled) {c : Char} {xs : List Char}
    (hblanks : Blanks blanks) (h : bareReturn blanks <+: c :: s.run xs) :
    bareReturn blanks <+: c :: xs := by
  rw [bareReturn_eq] at h ⊢
  obtain ⟨rfl, htail⟩ := List.cons_prefix_cons.1 h
  refine List.cons_prefix_cons.2
    ⟨rfl, (putsIn_run hs [] xs).prefix_of_written (fun us vs heq => ?_) htail⟩
  obtain rfl := tail_of_bareReturn_eq hblanks (List.cons_ne_nil 'r' us) (congrArg ('r' :: ·) heq)
  exact ⟨'n', _, rfl, by decide⟩

/-- A text without the letters of a replacement is read wherever it is written. -/
theorem infix_of_infix_run {w : List Char} (hletter : 'r' ∉ w)
    (hapart : ∀ xs, w <:+: "return false;".toList ++ xs → w <:+: xs) {s : Scan} (hs : s.Settled)
    {xs : List Char} (h : w <:+: s.run xs) : w <:+: xs := by
  refine run_induction (motive := fun s xs => w <:+: s.run xs → w <:+: xs) ?nil ?stop ?keep s hs xs h
  case nil => exact fun s h => h
  case stop =>
    intro s blanks xs hstops hblanks ih h
    rw [run_bareReturn hstops hblanks] at h
    exact (ih (hapart _ h)).trans (List.suffix_append _ xs).isInfix
  case keep =>
    intro s c xs hs hstop ih h
    have hfront : w <+: s.run (c :: xs) → w <+: c :: xs :=
      (putsIn_run hs [] (c :: xs)).prefix_of_written fun us vs heq =>
        absurd (by simp [heq]) hletter
    rw [run_cons hs hstop] at h hfront
    rcases List.infix_cons_iff.1 h with h | h
    · exact (hfront h).isInfix
    · exact (ih h).trans (List.suffix_cons c xs).isInfix

theorem flat_run {s : Scan} (hs : s.Settled) {xs : List Char} (h : Flat xs) : Flat (s.run xs) where
  arrow := fun harrow => h.arrow (infix_of_infix_run (by decide)
    (fun xs h => by simpa [List.infix_cons_iff, List.cons_prefix_cons] using h) hs harrow)
  new := fun hnew => h.new (infix_of_infix_run (by decide)
    (fun xs h => by simpa [List.infix_cons_iff, List.cons_prefix_cons] using h) hs hnew)

/-- What is put for a bare return holds none. -/
theorem run_refusal {s : Scan} (hs : s.Settled) (rest : List Char) :
    s.run ("return false;".toList ++ rest) =
      "return false;".toList ++ (s.passAll "return false;".toList).run rest := by
  let tail : List Char := ['n', ' ', 'f', 'a', 'l', 's', 'e', ';']
  have hfirst : bareReturn? ('r' :: (['e', 't', 'u'] ++ 'r' :: (tail ++ rest))) = none := rfl
  have hsecond : bareReturn? ('r' :: (tail ++ rest)) = none := rfl
  have hs' := (hs.pass 'r').passAll ['e', 't', 'u']
  calc s.run ('r' :: (['e', 't', 'u'] ++ 'r' :: (tail ++ rest)))
    _ = 'r' :: (['e', 't', 'u'] ++
          ((s.pass 'r').passAll ['e', 't', 'u']).run ('r' :: (tail ++ rest))) := by
      rw [run_cons hs fun _ => hfirst, run_append_of_ne (hs.pass _) (by simp)]
    _ = 'r' :: (['e', 't', 'u'] ++ 'r' :: (tail ++ (s.passAll "return false;".toList).run rest)) := by
      rw [run_cons hs' fun _ => hsecond, run_append_of_ne (hs'.pass _) (by simp [tail])]
      rfl

/-- What has been written is written again as it is, where the two scans have passed text that ends
    alike and nothing nested is open. -/
theorem run_run {s t : Scan} (hs : s.Settled) (ht : t.Settled) {xs : List Char}
    (hmode : t.mode = s.mode) (hword : atWordStart t.before = atWordStart s.before)
    (hsnested : s.nested = []) (htnested : t.nested = []) (hsflat : Flat (s.before.reverse ++ xs))
    (htflat : Flat (t.before.reverse ++ s.run xs)) : t.run (s.run xs) = s.run xs := by
  refine run_induction (motive := fun s xs => ∀ t : Scan, t.Settled → t.mode = s.mode →
    atWordStart t.before = atWordStart s.before → s.nested = [] → t.nested = [] →
    Flat (s.before.reverse ++ xs) → Flat (t.before.reverse ++ s.run xs) →
    t.run (s.run xs) = s.run xs) ?nil ?stop ?keep s hs xs t ht hmode hword hsnested htnested
    hsflat htflat
  case nil => exact fun _ _ _ _ _ _ _ _ _ => rfl
  case stop =>
    intro s blanks xs hstops hblanks ih t ht hmode _ _ htnested hsflat htflat
    have hcode := hmode.trans hstops.code
    have hplain : ∀ c ∈ "return false;".toList, isPlain c = true :=
      List.all_eq_true.1 (by decide)
    rw [run_bareReturn hstops hblanks] at htflat ⊢
    rw [run_refusal ht]
    have hread := passAll_of_isPlain hstops.code (isPlain_of_mem_bareReturn hblanks)
    have hwritten := passAll_of_isPlain hcode hplain
    refine congrArg _ (ih _ (ht.passAll _) ?_ ?_ ?_ ?_ ?_ ?_)
    · rw [hread, hwritten, hmode]
    · rw [hread, hwritten, bareReturn_def, ← List.append_assoc, List.reverse_append]
      rfl
    · rw [hread, hstops.own]
    · rw [hwritten, htnested]
    · rw [hread, List.reverse_append, List.reverse_reverse, List.append_assoc]
      exact hsflat
    · rw [hwritten, List.reverse_append, List.reverse_reverse, List.append_assoc]
      exact htflat
  case keep =>
    intro s c xs hs hstop ih t ht hmode hword hsnested htnested hsflat htflat
    rw [run_cons hs hstop] at htflat ⊢
    have hagain : t.Stops → bareReturn? (c :: (s.pass c).run xs) = none := fun hstops =>
      bareReturn?_eq_none.2 fun blanks hblanks hpre =>
        bareReturn?_eq_none.1
          (hstop ⟨hmode ▸ hstops.code, hsnested, hword ▸ hstops.word⟩) blanks hblanks
          (bareReturn_prefix_of_run (hs.pass c) hblanks hpre)
    rw [run_cons ht hagain]
    refine congrArg _ (ih _ (ht.pass c) ?_ ?_ ?_ ?_ ?_ ?_)
    · rw [mode_pass ht, mode_pass hs, hmode]
    · rw [before_pass ht, before_pass hs]
      rfl
    · exact nested_pass_of_flat hs hsflat.of_append hsnested c
    · exact nested_pass_of_flat ht htflat.of_append htnested c
    · rw [before_pass hs, List.reverse_cons, List.append_assoc]
      exact hsflat
    · rw [before_pass ht, List.reverse_cons, List.append_assoc]
      exact htflat

end Scan

/-- Text before a position of a flat text decides what is done there. -/
theorem eq_run_of_revises {before rest out : List Char} (h : Revises SignalsReturns before rest out)
    (hflat : Flat (before ++ rest)) : out = (Scan.passAll {} before).run rest := by
  induction h with
  | done => rfl
  | @edit before rest out e hmay _ ih =>
    have hstops := Scan.stops_passAll_iff hflat.of_append
    have hsettled := Scan.settled_empty.passAll before
    rw [← List.append_assoc] at hflat
    have hrest := ih hflat
    rw [Scan.passAll_append] at hrest
    cases e with
    | self => exact hmay.elim
    | keep c =>
      refine .trans (congrArg (c :: ·) hrest) (Scan.run_cons hsettled fun hs => ?_).symm
      obtain ⟨hout, hword⟩ := hstops.1 hs
      exact bareReturn?_eq_none.2 fun blanks hblanks hpre =>
        hmay ⟨hout, hword, blanks, hblanks, hpre⟩
    | stop blanks hblanks =>
      obtain ⟨hout, hword, _⟩ := hmay
      exact .trans (congrArg ("return false;".toList ++ ·) hrest)
        (Scan.run_bareReturn (hstops.2 ⟨hout, hword⟩) hblanks rest).symm

theorem revises_run {before rest : List Char} (hflat : Flat (before ++ rest)) :
    Revises SignalsReturns before rest ((Scan.passAll {} before).run rest) := by
  refine Scan.run_induction (motive := fun s rest => ∀ before, s = Scan.passAll {} before →
    Flat (before ++ rest) → Revises SignalsReturns before rest (s.run rest))
    ?nil ?stop ?keep _ (Scan.settled_empty.passAll before) rest before rfl hflat
  case nil => exact fun _ _ _ _ => .done
  case stop =>
    rintro _ blanks rest hstops hblanks ih before rfl hflat
    obtain ⟨hout, hword⟩ := (Scan.stops_passAll_iff hflat.of_append).1 hstops
    rw [Scan.run_bareReturn hstops hblanks]
    have htail := ih (before ++ bareReturn blanks) (Scan.passAll_append _ _).symm
      (by rwa [List.append_assoc])
    exact .edit (e := .stop blanks hblanks)
      ⟨hout, hword, blanks, hblanks, List.prefix_append _ rest⟩ htail
  case keep =>
    rintro _ c rest hs hstop ih before rfl hflat
    rw [Scan.run_cons hs hstop]
    have htail := ih (before ++ [c]) (Scan.passAll_append before [c]).symm (by simpa using hflat)
    refine .edit (e := .keep c) ?_ htail
    rintro ⟨hout, hword, blanks, hblanks, hpre⟩
    exact bareReturn?_eq_none.1
      (hstop ((Scan.stops_passAll_iff hflat.of_append).2 ⟨hout, hword⟩)) blanks hblanks hpre

/-- The scan of a flat text has an answer by byte offsets, which is the text with its bare returns
    replaced and nothing else changed; and there is nothing left to replace in it. -/
theorem signalReturns_exact {s : List Char} (harrow : ¬"->".toList <:+: s)
    (hnew : ¬"new".toList <:+: s) :
    Utf8.signalReturns? s = some (signalReturns s) ∧
      (∀ out, Revises SignalsReturns [] s out ↔ out = signalReturns s) ∧
      signalReturns (signalReturns s) = signalReturns s := by
  have hflat : Flat s := ⟨harrow, hnew⟩
  refine ⟨Utf8.signalReturns?_eq s, fun out => ⟨fun h => eq_run_of_revises h hflat, ?_⟩, ?_⟩
  · rintro rfl
    exact revises_run hflat
  · exact Scan.run_run Scan.settled_empty Scan.settled_empty rfl rfl rfl rfl hflat
      (Scan.flat_run Scan.settled_empty hflat)

/-- A literal that ends behind an escaped quote, a bare return with a wide blank, a word that starts
    like one, and a literal that nothing closes. -/
def patrol : List Char :=
  "if(é) \x7b say(\"\\\"return;\"); return\u00a0; \x7d returned = 'ü return;".toList

theorem signalReturns_exact_patrol :
    (¬"->".toList <:+: patrol ∧ ¬"new".toList <:+: patrol) ∧
      Utf8.signalReturns? patrol = some
        "if(é) \x7b say(\"\\\"return;\"); return false; \x7d returned = 'ü return;".toList ∧
      Revises SignalsReturns [] patrol
        "if(é) \x7b say(\"\\\"return;\"); return false; \x7d returned = 'ü return;".toList := by
  have harrow : ¬"->".toList <:+: patrol := by decide
  have hnew : ¬"new".toList <:+: patrol := by decide
  have hrun : signalReturns patrol =
      "if(é) \x7b say(\"\\\"return;\"); return false; \x7d returned = 'ü return;".toList := by decide
  obtain ⟨hbytes, hexact, _⟩ := signalReturns_exact harrow hnew
  exact ⟨⟨harrow, hnew⟩, hbytes.trans (congrArg some hrun), (hexact _).2 hrun.symm⟩

end EntityWeaver.MethodBody
