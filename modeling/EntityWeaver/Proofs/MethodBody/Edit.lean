import EntityWeaver.Proofs.MethodBody.Scan
import Mathlib

/-! Edits of a text, made from its start to its end.

    A text is cut into pieces, most of them single characters that stay, and each other piece is a
    form that something else is put for. Which edits may be made is a matter of what stands in front
    of the piece and of what follows it:

        before │ old │ rest          a piece is judged where it stands,
               ▼     ▼
        · · ·  │ new │ · · ·         and what is put there is joined to what the others give

    The edits can be read off the two texts: a text that is kept never reads like one that is put for
    another. So two ways to revise a text that give the same result make the same edits. -/

namespace EntityWeaver.MethodBody

/-- The last character of a text is of a kind. -/
def EndsIn (p : Char → Bool) (xs : List Char) : Prop := xs.getLast?.any p = true

instance decidableEndsIn (p : Char → Bool) (xs : List Char) : Decidable (EndsIn p xs) :=
  inferInstanceAs (Decidable (xs.getLast?.any p = true))

/-- What is done to a piece of text. -/
inductive Edit where
  | keep (c : Char)
  | self
  | stop (blanks : List Char) (h : Blanks blanks)

namespace Edit

/-- The piece as it stands. -/
def old : Edit → List Char
  | .keep c => [c]
  | .self => "self()".toList
  | .stop blanks _ => bareReturn blanks

/-- What is put there. -/
def new : Edit → List Char
  | .keep c => [c]
  | .self => "this".toList
  | .stop _ _ => "return false;".toList

/-- What is put in, if it is not what stood there, starts with two characters. -/
def PutsIn (a b : Char) (e : Edit) : Prop := e.new = e.old ∨ ∃ tail, e.new = a :: b :: tail

end Edit

/-- Behind the text before, the rest of a text is revised to another by edits that may be made. -/
inductive Revises (may : List Char → Edit → List Char → Prop) :
    List Char → List Char → List Char → Prop
  | done {before : List Char} : Revises may before [] []
  | edit {before rest out : List Char} {e : Edit} (h : may before e rest)
      (htail : Revises may (before ++ e.old) rest out) :
      Revises may before (e.old ++ rest) (e.new ++ out)

namespace Revises

variable {may may' : List Char → Edit → List Char → Prop} {before rest out : List Char}

/-- Edits of a text may be judged by another rule that allows them where they stand in it. -/
theorem imp (h : Revises may before rest out)
    (himp : ∀ b e r, before ++ rest = b ++ (e.old ++ r) → may b e r → may' b e r) :
    Revises may' before rest out := by
  induction h with
  | done => exact .done
  | edit hmay _ ih =>
    refine .edit (himp _ _ _ rfl hmay) (ih fun b e r heq => himp b e r ?_)
    rwa [← List.append_assoc]

theorem inv (h : Revises may before rest out) :
    (rest = [] ∧ out = []) ∨ ∃ e r o, rest = Edit.old e ++ r ∧ out = e.new ++ o ∧ may before e r ∧
      Revises may (before ++ e.old) r o := by
  cases h with
  | done => exact .inl ⟨rfl, rfl⟩
  | edit hmay htail => exact .inr ⟨_, _, _, rfl, rfl, hmay, htail⟩

/-- Text in which nothing that is put in can start is in front of what is read if it is in front of what
    is written. -/
theorem prefix_of_written {a b : Char} (h : Revises (fun _ e _ => e.PutsIn a b) before rest out)
    {w : List Char} (hw : ∀ us vs, w = us ++ a :: vs → ∃ d vs', vs = d :: vs' ∧ d ≠ b)
    (hpre : w <+: out) : w <+: rest := by
  induction h generalizing w with
  | done => exact hpre
  | @edit before rest out e hmay _ ih =>
    rcases hmay with hsame | ⟨tail, hnew⟩
    · rw [hsame] at hpre
      rcases List.prefix_or_prefix_of_prefix hpre (List.prefix_append e.old out) with hin | ⟨w, rfl⟩
      · exact hin.trans (List.prefix_append _ rest)
      · rw [List.prefix_append_right_inj] at hpre ⊢
        exact ih (fun us vs heq => hw (e.old ++ us) vs (by rw [heq, List.append_assoc])) hpre
    · rcases w with _ | ⟨c, w⟩
      · exact List.nil_prefix
      · rw [hnew] at hpre
        obtain ⟨rfl, htail⟩ := List.cons_prefix_cons.1 hpre
        obtain ⟨d, w, rfl, hne⟩ := hw [] w rfl
        exact absurd (List.cons_prefix_cons.1 htail).1 hne

/-- What starts like no form is kept. -/
theorem of_keep {c : Char} (hcall : ¬"self()".toList <+: c :: rest)
    (hreturn : ∀ blanks, Blanks blanks → ¬bareReturn blanks <+: c :: rest)
    (h : Revises may before (c :: rest) out) :
    ∃ out', out = c :: out' ∧ may before (.keep c) rest ∧ Revises may (before ++ [c]) rest out' := by
  rcases h.inv with ⟨hnil, _⟩ | ⟨e, r, o, htext, rfl, hmay, htail⟩
  · exact absurd hnil (List.cons_ne_nil _ _)
  · cases e with
    | keep d =>
      obtain ⟨rfl, rfl⟩ := List.cons.inj htext
      exact ⟨o, rfl, hmay, htail⟩
    | self => exact absurd ⟨r, htext.symm⟩ hcall
    | stop blanks hblanks => exact absurd ⟨r, htext.symm⟩ (hreturn blanks hblanks)

/-- A text with neither of the letters that forms start with is kept. -/
theorem of_append {xs : List Char} (hcall : 's' ∉ xs) (hreturn : 'r' ∉ xs)
    (h : Revises may before (xs ++ rest) out) :
    ∃ out', out = xs ++ out' ∧ Revises may (before ++ xs) rest out' := by
  induction xs generalizing before out with
  | nil => exact ⟨out, rfl, by rwa [List.append_nil]⟩
  | cons c xs ih =>
    obtain ⟨hs, hcall⟩ := not_or.1 (List.mem_cons.not.1 hcall)
    obtain ⟨hr, hreturn⟩ := not_or.1 (List.mem_cons.not.1 hreturn)
    obtain ⟨out', rfl, _, htail⟩ := of_keep (fun hpre => hs (List.cons_prefix_cons.1 hpre).1)
      (fun _ _ hpre => hr (List.cons_prefix_cons.1 hpre).1) h
    obtain ⟨out'', rfl, hrest⟩ := ih hcall hreturn htail
    exact ⟨out'', rfl, by rwa [List.append_assoc] at hrest⟩

/-- A bare return that is kept does not read like one that is replaced. -/
theorem not_kept {blanks : List Char} (hblanks : Blanks blanks)
    (h : Revises may before (['e', 't', 'u', 'r', 'n'] ++ (blanks ++ ';' :: rest))
      ("eturn false;".toList ++ out)) : False := by
  -- The second letter of the second half tells it from the front of a bare return.
  let half : List Char := 'n' :: (blanks ++ [';'])
  have htext : ['e', 't', 'u', 'r', 'n'] ++ (blanks ++ ';' :: rest) =
      ['e', 't', 'u'] ++ 'r' :: (half ++ rest) := by
    simp [half]
  rw [htext] at h
  obtain ⟨out₁, hout₁, h₁⟩ := of_append (by decide) (by decide) h
  obtain rfl : 'r' :: 'n' :: ' ' :: ("false;".toList ++ out) = out₁ :=
    (List.append_right_inj ['e', 't', 'u']).1 hout₁
  have hreturn : ∀ blanks, Blanks blanks → ¬bareReturn blanks <+: 'r' :: (half ++ rest) := by
    intro blanks _ hpre
    rw [bareReturn_eq] at hpre
    have heq : 'e' = 'n' := (List.cons_prefix_cons.1 (List.cons_prefix_cons.1 hpre).2).1
    exact absurd heq (by decide)
  obtain ⟨out₂, hout₂, _, h₂⟩ := of_keep (by simp [List.cons_prefix_cons]) hreturn h₁
  obtain rfl := (List.cons.inj hout₂).2
  obtain ⟨out₃, hout₃, _⟩ := of_append (not_mem_end hblanks (by decide) (by decide))
    (not_mem_end hblanks (by decide) (by decide)) h₂
  have hblank : ' ' :: 'f' :: ("alse;".toList ++ out) = blanks ++ ';' :: out₃ := by
    simpa [half] using hout₃
  rcases blanks with _ | ⟨b, _ | ⟨d, blanks⟩⟩
  · exact absurd (List.cons.inj hblank).1 (by decide)
  · exact absurd (List.cons.inj (List.cons.inj hblank).2).1 (by decide)
  · obtain rfl : 'f' = d := (List.cons.inj (List.cons.inj hblank).2).1
    exact absurd (hblanks 'f' (by simp)) (by decide)

/-- An edit can be read off what it was made of and what it made. -/
theorem edit_eq {e e' : Edit} {r o : List Char} (hold : e.old ++ rest = e'.old ++ r)
    (hnew : e.new ++ out = e'.new ++ o) (h : Revises may (before ++ e.old) rest out)
    (h' : Revises may' (before ++ e'.old) r o) : e = e' ∧ rest = r ∧ out = o := by
  cases e with
  | keep c =>
    cases e' with
    | keep d =>
      obtain ⟨rfl, rfl⟩ := List.cons.inj hold
      exact ⟨rfl, rfl, (List.cons.inj hnew).2⟩
    | self =>
      obtain rfl : c = 's' := (List.cons.inj hold).1
      exact absurd (List.cons.inj hnew).1 (by decide)
    | stop blanks hblanks =>
      obtain rfl := (List.cons.inj (hold.trans (bareReturn_append blanks r))).2
      obtain rfl : out = "eturn false;".toList ++ o := (List.cons.inj hnew).2
      exact (h.not_kept hblanks).elim
  | self =>
    cases e' with
    | keep d =>
      obtain rfl : 's' = d := (List.cons.inj hold).1
      exact absurd (List.cons.inj hnew).1 (by decide)
    | self => exact ⟨rfl, List.append_cancel_left hold, List.append_cancel_left hnew⟩
    | stop blanks _ => exact absurd (List.cons.inj hold).1 (by decide)
  | stop blanks hblanks =>
    cases e' with
    | keep d =>
      obtain rfl := (List.cons.inj ((bareReturn_append blanks rest).symm.trans hold)).2
      obtain rfl : "eturn false;".toList ++ out = o := (List.cons.inj hnew).2
      exact (h'.not_kept hblanks).elim
    | self => exact absurd (List.cons.inj hold).1 (by decide)
    | stop blanks' hblanks' =>
      have hfound : bareReturn? (bareReturn blanks ++ rest) = some (bareReturn blanks').length := by
        rw [show bareReturn blanks ++ rest = bareReturn blanks' ++ r from hold]
        exact bareReturn?_bareReturn hblanks'
      have hlength := Option.some.inj ((bareReturn?_bareReturn hblanks).symm.trans hfound)
      obtain ⟨hform, rfl⟩ := List.append_inj hold hlength
      obtain rfl : blanks = blanks' :=
        List.append_cancel_right (List.append_cancel_left hform)
      exact ⟨rfl, rfl, List.append_cancel_left hnew⟩

/-- Two ways to revise a text to the same result make the same edits. -/
theorem and (h : Revises may before rest out) (h' : Revises may' before rest out) :
    Revises (fun b e r => may b e r ∧ may' b e r) before rest out := by
  induction h with
  | done => exact .done
  | @edit before rest out e hmay htail ih =>
    rcases h'.inv with ⟨hnil, _⟩ | ⟨e', r, o, hold, hnew, hmay', htail'⟩
    · cases e with
      | _ => exact absurd hnil (List.cons_ne_nil _ _)
    · obtain ⟨rfl, rfl, rfl⟩ := edit_eq hold hnew htail htail'
      exact .edit ⟨hmay, hmay'⟩ (ih htail')

/-- Where a text stands into which no edit goes across its start, an edit is made. -/
theorem exists_edit {a b : Char}
    (hapart : ∀ (e : Edit) us tail, us ≠ [] → e.old = us ++ a :: tail →
      ∃ d tail', tail = d :: tail' ∧ d ≠ b)
    (h : Revises may before rest out) {us vs : List Char} (heq : rest = us ++ a :: b :: vs) :
    ∃ e r, may (before ++ us) e r ∧ e.old ++ r = a :: b :: vs := by
  induction h generalizing us with
  | done => simp at heq
  | @edit before rest out e hmay _ ih =>
    rcases List.append_eq_append_iff.1 heq with ⟨tail, rfl, hrest⟩ | ⟨tail, hold, hrest⟩
    · obtain ⟨e', r, hmay', heq'⟩ := ih hrest
      exact ⟨e', r, by rwa [List.append_assoc] at hmay', heq'⟩
    · rcases us with _ | ⟨c, us⟩
      · exact ⟨e, rest, by rwa [List.append_nil], by rw [hold, List.nil_append, hrest]⟩
      · rcases tail with _ | ⟨x, tail⟩
        · obtain ⟨e', r, hmay', heq'⟩ := ih (show rest = [] ++ a :: b :: vs from hrest.symm)
          rw [List.append_nil, hold, List.append_nil] at hmay'
          exact ⟨e', r, hmay', heq'⟩
        · obtain ⟨rfl, htail⟩ := List.cons.inj hrest
          obtain ⟨d, tail', rfl, hne⟩ := hapart e _ tail (List.cons_ne_nil _ _) hold
          exact absurd (List.cons.inj htail).1.symm hne

end Revises

end EntityWeaver.MethodBody
