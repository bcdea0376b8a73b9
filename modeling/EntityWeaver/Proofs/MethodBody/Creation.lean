import EntityWeaver.Proofs.MethodBody.Scan
import Mathlib

/-! The signs of lambdas and of instance creations.

    A brace opens a body of its own behind an arrow, or behind the parentheses of an instance
    creation. The creation is found from its end: back over the parentheses, then word by word, and
    the second word must be `new`. A word is a piece of the text between two word breaks, so that
    the signs stand in the text wherever the scan sees them. -/

namespace EntityWeaver.MethodBody

open Text

/-- A text has no separator, or is cut at its first one. -/
theorem splitOnP_cases {α : Type} (p : α → Bool) (xs : List α) :
    ((∀ x ∈ xs, p x = false) ∧ xs.splitOnP p = [xs]) ∨
      ∃ us b vs, xs = us ++ b :: vs ∧ (∀ x ∈ us, p x = false) ∧ p b = true ∧
        xs.splitOnP p = us :: vs.splitOnP p := by
  induction xs with
  | nil => exact .inl ⟨List.forall_mem_nil _, List.splitOnP_nil⟩
  | cons x xs ih =>
    by_cases hx : p x = true
    · exact .inr ⟨[], x, xs, rfl, List.forall_mem_nil _, hx,
        by simp [List.splitOnP_cons_eq_if_modifyHead, hx]⟩
    · have hx' : p x = false := Bool.eq_false_iff.2 hx
      rcases ih with ⟨hxs, hsplit⟩ | ⟨us, b, vs, rfl, hus, hb, hsplit⟩
      · have hall : ∀ y ∈ x :: xs, p y = false := List.forall_mem_cons.2 ⟨hx', hxs⟩
        exact .inl ⟨hall, List.splitOnP_eq_singleton hall⟩
      · refine .inr ⟨x :: us, b, vs, rfl, List.forall_mem_cons.2 ⟨hx', hus⟩, hb, ?_⟩
        rw [List.splitOnP_cons_eq_if_modifyHead, if_neg hx, hsplit]
        rfl

/-- A piece stands between two separators, or at an end of the text. -/
theorem mem_splitOnP_iff {α : Type} {p : α → Bool} {w xs : List α} :
    w ∈ xs.splitOnP p ↔ (∀ x ∈ w, p x = false) ∧
      ∃ us vs, xs = us ++ w ++ vs ∧ us.getLast?.all p = true ∧ vs.head?.all p = true := by
  constructor
  · intro h
    induction hn : xs.length using Nat.strong_induction_on generalizing xs with
    | h n ih =>
      rcases splitOnP_cases p xs with ⟨hxs, hsplit⟩ | ⟨first, b, rest, rfl, hfirst, hb, hsplit⟩
      · rw [hsplit, List.mem_singleton] at h
        exact ⟨h ▸ hxs, [], [], by simp [h], rfl, rfl⟩
      · rw [hsplit, List.mem_cons] at h
        rcases h with rfl | h
        · exact ⟨hfirst, [], b :: rest, rfl, rfl, hb⟩
        · have hlength : rest.length < n := by
            rw [← hn, List.length_append, List.length_cons]
            omega
          obtain ⟨hw, us, vs, rfl, hus, hvs⟩ := ih _ hlength h rfl
          refine ⟨hw, first ++ b :: us, vs, by simp, ?_, hvs⟩
          rw [List.getLast?_append_cons]
          cases us with
          | nil => exact hb
          | cons c us => exact hus
  · rintro ⟨hw, us, vs, rfl, hus, hvs⟩
    have hfront : w ∈ (w ++ vs).splitOnP p := by
      cases vs with
      | nil => rw [List.append_nil, List.splitOnP_eq_singleton hw, List.mem_singleton]
      | cons b vs =>
        rw [List.splitOnP_append_cons w vs hvs, List.splitOnP_eq_singleton hw]
        exact List.mem_cons_self
    rcases List.eq_nil_or_concat us with rfl | ⟨us, b, rfl⟩
    · exact hfront
    · have hb : p b = true := by simpa using hus
      rw [List.concat_eq_append, List.append_assoc, List.append_assoc, List.singleton_append,
        List.splitOnP_append_cons us (w ++ vs) hb]
      exact List.mem_append_right _ hfront

theorem reverse_mem_splitOnP {α : Type} {p : α → Bool} {w xs : List α}
    (h : w ∈ xs.reverse.splitOnP p) : w.reverse ∈ xs.splitOnP p := by
  obtain ⟨hw, us, vs, heq, hus, hvs⟩ := mem_splitOnP_iff.1 h
  have hw' : ∀ x ∈ w.reverse, p x = false := fun x hx => hw x (List.mem_reverse.1 hx)
  refine mem_splitOnP_iff.2 ⟨hw', vs.reverse, us.reverse, ?_, ?_, ?_⟩
  · rw [← List.reverse_reverse xs, heq, List.reverse_append, List.reverse_append, List.append_assoc]
  · rwa [List.getLast?_reverse]
  · rwa [List.head?_reverse]

/-! ### Words -/

/-- The words of a text, as an instance creation is found by them. -/
def words (xs : List Char) : List (List Char) := (xs.splitOnP isWordBreak).filter (· ≠ [])

variable {xs ys : List Char}

theorem words_append_cons {b : Char} (hb : isWordBreak b = true) (xs ys : List Char) :
    words (xs ++ b :: ys) = words xs ++ words ys := by
  rw [words, List.splitOnP_append_cons xs ys hb, List.filter_append, words, words]

theorem words_eq_singleton (hxs : ∀ c ∈ xs, isWordBreak c = false) (hne : xs ≠ []) :
    words xs = [xs] := by
  rw [words, List.splitOnP_eq_singleton hxs]
  exact List.filter_cons_of_pos (decide_eq_true hne)

/-- Word breaks in front of a text add no word. -/
theorem words_breaks_append {breaks : List Char} (h : ∀ c ∈ breaks, isWordBreak c = true) :
    words (breaks ++ ys) = words ys := by
  induction breaks with
  | nil => rfl
  | cons b breaks ih =>
    obtain ⟨hb, hbreaks⟩ := List.forall_mem_cons.1 h
    exact (words_append_cons hb [] (breaks ++ ys)).trans (ih hbreaks)

theorem words_append_breaks {breaks : List Char} (h : ∀ c ∈ breaks, isWordBreak c = true)
    (hne : breaks ≠ []) : words (xs ++ (breaks ++ ys)) = words xs ++ words ys := by
  obtain ⟨b, breaks, rfl⟩ := List.exists_cons_of_ne_nil hne
  obtain ⟨hb, hbreaks⟩ := List.forall_mem_cons.1 h
  rw [List.cons_append, words_append_cons hb, words_breaks_append hbreaks]

theorem words_ne_nil {c : Char} (hc : c ∈ xs) (hword : isWordBreak c = false) : words xs ≠ [] := by
  induction hn : xs.length using Nat.strong_induction_on generalizing xs with
  | h n ih =>
    rcases splitOnP_cases isWordBreak xs with ⟨hxs, _⟩ | ⟨us, b, vs, rfl, hus, hb, _⟩
    · rw [words_eq_singleton hxs (List.ne_nil_of_mem hc)]
      exact List.cons_ne_nil _ _
    · rw [words_append_cons hb]
      rcases List.mem_append.1 hc with hus' | hvs
      · rw [words_eq_singleton hus (List.ne_nil_of_mem hus')]
        exact List.cons_ne_nil _ _
      · have hlength : vs.length < n := by
          rw [← hn, List.length_append, List.length_cons]
          omega
        rcases List.mem_cons.1 hvs with rfl | hvs
        · exact absurd hb (by simp [hword])
        · exact fun h => ih _ hlength hvs rfl (List.append_eq_nil_iff.1 h).2

/-- A type as an instance creation names it: it neither starts nor ends between two words, has no
    bracket or quote but those around type arguments, and the keyword is none of its words. -/
structure ClassType (t : List Char) : Prop where
  start : ∃ c ∈ t.head?, isWordBreak c = false
  stop : ∃ c ∈ t.getLast?, isWordBreak c = false
  plain : ∀ c ∈ t, isPlain c = true ∧ c ≠ '(' ∧ c ≠ ')'
  keyword : "new".toList ∉ t.splitOnP isWordBreak

/-- A word is whole if it is followed by a word break, or by nothing. -/
theorem getElem?_words_append_iff {w : List Char} (hw : ∀ c ∈ w, isWordBreak c = false)
    (hne : w ≠ []) : (words (w ++ ys))[0]? = some w ↔ ys.head?.all isWordBreak = true := by
  rcases splitOnP_cases isWordBreak ys with ⟨hys, _⟩ | ⟨us, b, vs, rfl, hus, hb, _⟩
  · rw [words_eq_singleton (List.forall_mem_append.2 ⟨hw, hys⟩)
      (List.append_ne_nil_of_left_ne_nil hne ys)]
    cases ys with
    | nil => simp
    | cons c ys => simp [hys c List.mem_cons_self]
  · rw [← List.append_assoc, words_append_cons hb, words_eq_singleton
      (List.forall_mem_append.2 ⟨hw, hus⟩) (List.append_ne_nil_of_left_ne_nil hne us)]
    cases us with
    | nil => simp [hb]
    | cons c us => simp [hus c List.mem_cons_self]

/-- The second word, read from the end, is the keyword if the type is one word and the keyword stands
    behind a word break. -/
theorem words_creation_iff {before gap type : List Char} (hgap : gap ≠ []) (hblanks : Blanks gap)
    (htype : ClassType type) :
    (words (type.reverse ++ (gap.reverse ++ ("new".toList.reverse ++ before))))[1]? =
        some "new".toList.reverse ↔
      (∀ c ∈ type, isWordBreak c = false) ∧ before.head?.all isWordBreak = true := by
  have hbreaks : ∀ c ∈ gap.reverse, isWordBreak c = true := by
    intro c hc
    simp [isWordBreak, hblanks c (List.mem_reverse.1 hc)]
  have hgap' : gap.reverse ≠ [] := by simpa using hgap
  have hnew : ∀ c ∈ "new".toList.reverse, isWordBreak c = false := by simp [isWordBreak, isBlank]
  rw [words_append_breaks hbreaks hgap']
  rcases splitOnP_cases isWordBreak type.reverse with
    ⟨hone, _⟩ | ⟨last, b, init, htext, hlast, hb, hsplit⟩
  · have hone' : ∀ c ∈ type, isWordBreak c = false := fun c hc => hone c (List.mem_reverse.2 hc)
    obtain ⟨c, hc, _⟩ := htype.start
    have hne : type.reverse ≠ [] := by
      rintro h
      rw [List.reverse_eq_nil_iff.1 h] at hc
      cases hc
    rw [words_eq_singleton hone hne]
    exact (getElem?_words_append_iff hnew (List.cons_ne_nil _ _)).trans (and_iff_right hone').symm
  · have hbreak : ¬∀ c ∈ type, isWordBreak c = false := by
      intro h
      have hin : b ∈ type := List.mem_reverse.1 (htext ▸ by simp)
      exact absurd hb (by simp [h b hin])
    obtain ⟨c, hc, hword⟩ := htype.stop
    obtain ⟨d, hd, hword'⟩ := htype.start
    rw [← List.head?_reverse, htext] at hc
    rw [← List.getLast?_reverse, htext] at hd
    have hne : last ≠ [] := by
      rintro rfl
      cases hc
      exact absurd hb (by simp [hword])
    have hd' : d ∈ init := by
      cases init with
      | nil =>
        rw [List.getLast?_append_cons, List.getLast?_singleton] at hd
        cases hd
        exact absurd hb (by simp [hword'])
      | cons c init =>
        rw [List.getLast?_append_cons, List.getLast?_cons_cons] at hd
        exact List.mem_of_getLast? hd
    obtain ⟨w, ws, hws⟩ := List.exists_cons_of_ne_nil (words_ne_nil hd' hword')
    have htypewords : words type.reverse = last :: w :: ws := by
      rw [htext, words_append_cons hb, words_eq_singleton hlast hne, hws, List.singleton_append]
    have hw : w ∈ type.reverse.splitOnP isWordBreak :=
      List.mem_of_mem_filter (htypewords ▸ List.mem_cons_of_mem last List.mem_cons_self)
    rw [htypewords]
    refine ⟨fun h => ?_, fun h => absurd h.1 hbreak⟩
    have heq : w = "new".toList.reverse := Option.some.inj h
    exact absurd (reverse_mem_splitOnP (heq ▸ hw)) htype.keyword

/-! ### Brackets -/

/-- How many brackets are open behind a text with so many open in front of it, if each that is closed
    in it was open. -/
def openBehind? (opening closing : Char) : Nat → List Char → Option Nat
  | n, [] => some n
  | n, c :: rest =>
    if c = opening then openBehind? opening closing (n + 1) rest
    else if c = closing then if n = 0 then none else openBehind? opening closing (n - 1) rest
    else openBehind? opening closing n rest

/-- Brackets that are opened in a text are closed in it, and no others. -/
def Balanced (opening closing : Char) (xs : List Char) : Prop :=
  openBehind? opening closing 0 xs = some 0

instance decidableBalanced (opening closing : Char) (xs : List Char) :
    Decidable (Balanced opening closing xs) :=
  inferInstanceAs (Decidable (openBehind? opening closing 0 xs = some 0))

/-- A bracket is opened, closed or neither, and the rest of the text goes on from there. -/
theorem openBehind?_cons {o k c : Char} {n m : Nat} {rest : List Char}
    (h : openBehind? o k n (c :: rest) = some m) :
    (c = o ∧ openBehind? o k (n + 1) rest = some m) ∨
      (c ≠ o ∧ c = k ∧ ∃ p, n = p + 1 ∧ openBehind? o k p rest = some m) ∨
      (c ≠ o ∧ c ≠ k ∧ openBehind? o k n rest = some m) := by
  rw [openBehind?] at h
  split_ifs at h with hopening hclosing hn
  · exact .inl ⟨hopening, h⟩
  · obtain ⟨p, rfl⟩ := Nat.exists_eq_succ_of_ne_zero hn
    exact .inr (.inl ⟨hopening, hclosing, p, rfl, h⟩)
  · exact .inr (.inr ⟨hopening, hclosing, h⟩)

theorem openBehind?_append {o k : Char} (n : Nat) (xs ys : List Char) :
    openBehind? o k n (xs ++ ys) = (openBehind? o k n xs).bind (openBehind? o k · ys) := by
  induction xs generalizing n with
  | nil => rfl
  | cons c xs ih =>
    rw [List.cons_append, openBehind?, openBehind?]
    split_ifs
    · exact ih (n + 1)
    · rfl
    · exact ih (n - 1)
    · exact ih n

/-- Behind an opening bracket one is open. -/
theorem not_balanced_concat {o k : Char} (xs : List Char) : ¬Balanced o k (xs ++ [o]) := by
  intro h
  rw [Balanced, openBehind?_append, Option.bind_eq_some_iff] at h
  obtain ⟨n, _, h⟩ := h
  rw [openBehind?, if_pos rfl] at h
  cases h

/-- The search for the opening parenthesis goes over text that leaves none of them open. -/
theorem beforeOpening?_reverse_append {n m d : Nat} (hd : 1 ≤ d) {xs : List Char}
    (h : openBehind? '(' ')' n xs = some m) (rest : List Char) :
    beforeOpening? (d + m) (xs.reverse ++ rest) = beforeOpening? (d + n) rest := by
  induction xs generalizing n rest with
  | nil =>
    cases h
    rfl
  | cons c xs ih =>
    rw [List.reverse_cons, List.append_assoc, List.singleton_append]
    rcases openBehind?_cons h with ⟨rfl, h⟩ | ⟨_, rfl, p, rfl, h⟩ | ⟨hopening, hclosing, h⟩
    · rw [ih h, beforeOpening?, if_neg (by omega)]
      rfl
    · rw [ih h, beforeOpening?]
      rfl
    · rw [ih h, beforeOpening?.eq_4 _ _ _ hclosing hopening]

theorem suffix_of_beforeOpening? {head : List Char} : ∀ {depth : Nat} {xs : List Char},
    beforeOpening? depth xs = some head → head <:+ xs
  | depth, [], h => by simp [beforeOpening?] at h
  | depth, c :: rest, h => by
    rw [beforeOpening?.eq_def] at h
    split at h
    · cases h
    · next heq =>
      cases heq
      exact (suffix_of_beforeOpening? h).trans (List.suffix_cons _ _)
    · next heq =>
      cases heq
      split_ifs at h
      · cases h
        exact List.suffix_cons _ _
      · exact (suffix_of_beforeOpening? h).trans (List.suffix_cons _ _)
    · next heq =>
      cases heq
      exact (suffix_of_beforeOpening? h).trans (List.suffix_cons _ _)

/-- What opens a lambda or a class has its sign in front. -/
theorem infix_of_opensNested {before : List Char} (h : opensNested before = true) :
    "->".toList <:+: before.reverse ∨ "new".toList <:+: before.reverse := by
  have htrim : trimStart before <:+ before := List.dropWhile_suffix _
  rw [opensNested] at h
  split at h
  · next rest heq =>
    refine .inl (List.reverse_infix.1 ?_)
    rw [List.reverse_reverse]
    rw [heq] at htrim
    exact (List.prefix_append ['>', '-'] rest).isInfix.trans htrim.isInfix
  · next rest heq =>
    refine .inr (List.reverse_infix.1 ?_)
    rw [List.reverse_reverse]
    rw [heq] at htrim
    rw [opensClass] at h
    split at h
    · cases h
    · next head hhead =>
      have hword := List.mem_of_mem_filter (List.mem_of_getElem? (eq_of_beq h))
      obtain ⟨_, us, vs, hsplit, _⟩ := mem_splitOnP_iff.1 hword
      have hinfix : "new".toList.reverse <:+: head := ⟨us, vs, hsplit.symm⟩
      exact hinfix.trans ((suffix_of_beforeOpening? hhead).trans htrim).isInfix
  · cases h

end EntityWeaver.MethodBody
