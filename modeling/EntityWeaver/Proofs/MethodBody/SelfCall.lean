import EntityWeaver.Proofs.MethodBody.Literal
import Mathlib

/-! The local spelling of `this`.

    `self()` is replaced from the left, wherever it stands. It does not overlap with itself, so a text
    can be cut and its parts replaced on their own unless a call goes across the cut. Neither spelling
    has a quote, a backslash or a brace, and both have as many parentheses open behind them as in
    front: what the replacement changes is neither seen by the literals nor by the brackets around
    it. -/

namespace EntityWeaver.MethodBody

open Text

theorem replaceFrom_append (old new xs rest : List Char) :
    replaceFrom old new xs.length (xs ++ rest) = replaceFrom old new 0 rest := by
  induction xs with
  | nil => rfl
  | cons c xs ih => rw [List.cons_append, List.length_cons, replaceFrom, ih]

theorem replaceSelf_call (rest : List Char) :
    replaceSelf ("self()".toList ++ rest) = "this".toList ++ replaceSelf rest := by
  have htail := replaceFrom_append "self()".toList "this".toList ['e', 'l', 'f', '(', ')'] rest
  exact congrArg ("this".toList ++ ·) htail

theorem replaceSelf_cons {c : Char} {rest : List Char} (h : ¬"self()".toList <+: c :: rest) :
    replaceSelf (c :: rest) = c :: replaceSelf rest := by
  rw [replaceSelf, replace, replaceFrom, if_neg (by rwa [List.isPrefixOf_iff_prefix])]
  rfl

/-- Texts are gone through one call or one character at a time. -/
theorem replaceSelf_induction {motive : List Char → Prop} (nil : motive [])
    (call : ∀ rest, motive rest → motive ("self()".toList ++ rest))
    (keep : ∀ c rest, ¬"self()".toList <+: c :: rest → motive rest → motive (c :: rest))
    (xs : List Char) : motive xs := by
  match xs with
  | [] => exact nil
  | c :: rest =>
    by_cases h : "self()".toList <+: c :: rest
    · obtain ⟨after, hafter⟩ := h
      have hlength := congrArg List.length hafter
      rw [← hafter]
      exact call after (replaceSelf_induction nil call keep after)
    · exact keep c rest h (replaceSelf_induction nil call keep rest)
termination_by xs.length
decreasing_by
  · have hcall : "self()".toList.length = 6 := rfl
    rw [List.length_append, hcall] at hlength
    omega
  · exact Nat.lt_succ_self _

/-- A text without a call stays as it is. -/
theorem replaceSelf_eq_self {xs : List Char} (h : ¬"self()".toList <:+: xs) : replaceSelf xs = xs := by
  induction xs with
  | nil => rfl
  | cons c xs ih =>
    rw [List.infix_cons_iff, not_or] at h
    rw [replaceSelf_cons h.1, ih h.2]

/-! ### Cutting texts -/

/-- No call goes across the cut between two texts. -/
def Parted (xs ys : List Char) : Prop :=
  ∀ us vs, us ++ vs = "self()".toList → us <:+ xs → vs <+: ys → us = [] ∨ vs = []

variable {xs ys : List Char}

theorem Parted.of_suffix {xs' : List Char} (h : Parted xs ys) (hxs : xs' <:+ xs) : Parted xs' ys :=
  fun us vs heq hus hvs => h us vs heq (hus.trans hxs) hvs

theorem Parted.of_prefix {ys' : List Char} (h : Parted xs ys) (hys : ys' <+: ys) : Parted xs ys' :=
  fun us vs heq hus hvs => h us vs heq hus (hvs.trans hys)

/-- Behind its first letter a call has only the others. -/
theorem parted_cons {c : Char} (hc : c ∉ "elf()".toList) : Parted xs (c :: ys) := by
  rintro (_ | ⟨d, us⟩) vs heq _ hvs
  · exact .inl rfl
  · rcases vs with _ | ⟨e, vs⟩
    · exact .inr rfl
    · have htail : us ++ e :: vs = "elf()".toList := (List.cons.inj heq).2
      obtain ⟨rfl, -⟩ := List.cons_prefix_cons.1 hvs
      exact absurd (htail ▸ by simp) hc

/-- In front of its last parenthesis a call has only the other characters. -/
theorem parted_concat {c : Char} (hc : c ∉ "self(".toList) : Parted (xs ++ [c]) ys := by
  intro us vs heq hus _
  rcases List.eq_nil_or_concat vs with rfl | ⟨vs, e, rfl⟩
  · exact .inr rfl
  · rcases List.eq_nil_or_concat us with rfl | ⟨us, d, rfl⟩
    · exact .inl rfl
    · rw [List.concat_eq_append] at heq hus
      rw [List.concat_eq_append, ← List.append_assoc] at heq
      have hinit : us ++ [d] ++ vs = "self(".toList :=
        (List.append_inj' (heq.trans (show _ = "self(".toList ++ [')'] from rfl)) rfl).1
      have hd : d = c := by
        have hlast := hus.getLast (by simp)
        simpa using hlast
      exact absurd (hinit ▸ by simp [hd]) hc

/-- A cut moves over a character that no call starts with. -/
theorem Parted.concat {c : Char} (h : Parted xs (c :: ys)) (hc : ¬"self()".toList <+: c :: ys) :
    Parted (xs ++ [c]) ys := by
  intro us vs heq hus hvs
  rcases List.eq_nil_or_concat us with hnil | ⟨init, d, rfl⟩
  · exact .inl hnil
  · rw [List.concat_eq_append] at heq hus
    obtain ⟨front, hfront⟩ := hus
    rw [← List.append_assoc] at hfront
    obtain ⟨rfl, hd⟩ := List.append_inj' hfront rfl
    obtain rfl : d = c := List.singleton_inj.1 hd
    rw [List.append_assoc, List.singleton_append] at heq
    have hacross : d :: vs <+: d :: ys := List.cons_prefix_cons.2 ⟨rfl, hvs⟩
    rcases h init (d :: vs) heq (List.suffix_append front init) hacross with rfl | hnil
    · exact absurd (heq ▸ hacross) hc
    · exact absurd hnil (List.cons_ne_nil d vs)

/-- A call starts in no other. -/
theorem parted_call (xs ys : List Char) : Parted (xs ++ "self()".toList) ys := by
  have hlast : xs ++ "self()".toList = (xs ++ "self(".toList) ++ [')'] := by simp
  rw [hlast]
  exact parted_concat (by decide)

/-- A call starts in no bare return. -/
theorem parted_bareReturn (xs blanks ys : List Char) : Parted (xs ++ bareReturn blanks) ys := by
  rw [bareReturn_def, ← List.append_assoc, ← List.append_assoc]
  exact parted_concat (by decide)

theorem replaceSelf_append (h : Parted xs ys) :
    replaceSelf (xs ++ ys) = replaceSelf xs ++ replaceSelf ys := by
  refine replaceSelf_induction (motive := fun xs => Parted xs ys →
    replaceSelf (xs ++ ys) = replaceSelf xs ++ replaceSelf ys) ?nil ?call ?keep xs h
  case nil => exact fun _ => rfl
  case call =>
    intro rest ih h
    have hrest := h.of_suffix (List.suffix_append _ rest)
    rw [List.append_assoc, replaceSelf_call, replaceSelf_call, ih hrest, List.append_assoc]
  case keep =>
    intro c rest hc ih h
    have hacross : ¬"self()".toList <+: c :: (rest ++ ys) := by
      intro hpre
      have hfront := List.prefix_append (c :: rest) ys
      rcases List.prefix_or_prefix_of_prefix hpre hfront with hin | ⟨vs, hvs⟩
      · exact hc hin
      · rw [← hvs, ← List.cons_append, List.prefix_append_right_inj] at hpre
        rcases h _ vs hvs (List.suffix_refl _) hpre with hnil | rfl
        · exact List.cons_ne_nil _ _ hnil
        · exact hc (by rw [← hvs, List.append_nil])
    rw [List.cons_append, replaceSelf_cons hacross, replaceSelf_cons hc,
      ih (h.of_suffix (List.suffix_cons c rest)), List.cons_append]

theorem replaceSelf_append_cons {c : Char} (hc : c ∉ "self()".toList) :
    replaceSelf (xs ++ c :: ys) = replaceSelf xs ++ c :: replaceSelf ys := by
  have htail : c ∉ "elf()".toList := fun h => hc (List.mem_cons_of_mem 's' h)
  have hfront : ¬"self()".toList <+: c :: ys := by
    intro h
    have heq : 's' = c := (List.cons_prefix_cons.1 h).1
    exact hc (heq ▸ List.mem_cons_self)
  rw [replaceSelf_append (parted_cons htail), replaceSelf_cons hfront]

/-- Texts without the letter that calls start with stay as they are. -/
theorem replaceSelf_append_of_not_mem (hxs : 's' ∉ xs) (ys : List Char) :
    replaceSelf (xs ++ ys) = xs ++ replaceSelf ys := by
  induction xs with
  | nil => rfl
  | cons c xs ih =>
    obtain ⟨hc, hxs⟩ := not_or.1 (List.mem_cons.not.1 hxs)
    rw [List.cons_append, replaceSelf_cons fun h => hc (List.cons_prefix_cons.1 h).1, ih hxs,
      List.cons_append]

/-! ### What the replacement leaves alone -/

theorem mem_replaceSelf {c : Char} (hc : c ∈ replaceSelf xs) : c ∈ xs ∨ c ∈ "this".toList := by
  refine replaceSelf_induction
    (motive := fun xs => c ∈ replaceSelf xs → c ∈ xs ∨ c ∈ "this".toList) ?nil ?call ?keep xs hc
  case nil => exact fun h => .inl h
  case call =>
    intro rest ih h
    rw [replaceSelf_call, List.mem_append] at h
    exact h.elim .inr fun h => (ih h).imp_left (List.mem_append_right _)
  case keep =>
    intro d rest hd ih h
    rw [replaceSelf_cons hd, List.mem_cons] at h
    exact h.elim (fun h => .inl (h ▸ List.mem_cons_self)) fun h =>
      (ih h).imp_left (List.mem_cons_of_mem d)

/-- What holds of the characters of a text and of the new spelling holds behind the replacement. -/
theorem forall_mem_replaceSelf {p : Char → Prop} (hnew : ∀ c ∈ "this".toList, p c)
    (h : ∀ c ∈ xs, p c) : ∀ c ∈ replaceSelf xs, p c :=
  fun c hc => (mem_replaceSelf hc).elim (h c) (hnew c)

/-- What does not tell the last characters of the two spellings apart sees the same end. -/
theorem getLast?_replaceSelf {p : Char → Bool} (hp : p 's' = p ')') (xs : List Char) :
    (replaceSelf xs).getLast?.map p = xs.getLast?.map p := by
  refine replaceSelf_induction (motive := fun xs =>
    (replaceSelf xs).getLast?.map p = xs.getLast?.map p) ?nil ?call ?keep xs
  case nil => rfl
  case call =>
    intro rest ih
    rw [replaceSelf_call, List.getLast?_append, List.getLast?_append, Option.map_or, Option.map_or, ih]
    exact congrArg _ (congrArg some hp)
  case keep =>
    intro c rest hc ih
    have hlast : ∀ zs, (c :: zs).getLast?.map p = (zs.getLast?.map p).or (some (p c)) := by
      intro zs
      rw [← List.singleton_append, List.getLast?_append, Option.map_or]
      rfl
    rw [replaceSelf_cons hc, hlast, hlast, ih]

namespace Mode

/-- What is open is a literal behind one of the quotes. -/
def Delimited : Mode → Prop
  | .code => True
  | .literal q => isQuote q = true
  | .escaped q => isQuote q = true
  | .replaced _ => False

theorem Delimited.pass {m : Mode} (h : m.Delimited) (c : Char) : (m.pass c).Delimited := by
  cases m with
  | code =>
    rw [Mode.pass]
    split_ifs with hc
    · exact hc
    · trivial
  | literal q =>
    rw [Mode.pass]
    split_ifs
    · exact h
    · trivial
    · exact h
  | escaped q => exact h
  | replaced n => exact h.elim

theorem foldl_pass_call {m : Mode} (h : m.Delimited) :
    "this".toList.foldl pass m = "self()".toList.foldl pass m := by
  cases m with
  | code => rfl
  | literal q =>
    simp only [Delimited, isQuote, Bool.or_eq_true, beq_iff_eq] at h
    rcases h with rfl | rfl <;> rfl
  | escaped q =>
    simp only [Delimited, isQuote, Bool.or_eq_true, beq_iff_eq] at h
    rcases h with rfl | rfl <;> rfl
  | replaced n => exact h.elim

theorem foldl_pass_replaceSelf {m : Mode} (h : m.Delimited) (xs : List Char) :
    (replaceSelf xs).foldl pass m = xs.foldl pass m := by
  refine replaceSelf_induction (motive := fun xs => ∀ m : Mode, m.Delimited →
    (replaceSelf xs).foldl pass m = xs.foldl pass m) ?nil ?call ?keep xs m h
  case nil => exact fun _ _ => rfl
  case call =>
    intro rest ih m h
    have hcall : ("self()".toList.foldl pass m).Delimited :=
      List.foldlRecOn "self()".toList pass h fun m hm c _ => hm.pass c
    rw [replaceSelf_call, List.foldl_append, List.foldl_append, foldl_pass_call h, ih _ hcall]
  case keep =>
    intro c rest hc ih m h
    rw [replaceSelf_cons hc, List.foldl_cons, List.foldl_cons, ih _ (h.pass c)]

end Mode

/-- Literals are where they were. -/
theorem outsideLiterals_replaceSelf (xs : List Char) :
    OutsideLiterals (replaceSelf xs) ↔ OutsideLiterals xs := by
  rw [← Mode.foldl_pass_eq_code_iff, ← Mode.foldl_pass_eq_code_iff,
    Mode.foldl_pass_replaceSelf (m := .code) trivial]

/-- Behind a text in which calls are replaced the scan is in code where the text itself is. -/
theorem Scan.code_passAll_replaceSelf_iff (xs : List Char) :
    (passAll {} (replaceSelf xs)).mode = .code ↔ OutsideLiterals xs := by
  rw [mode_passAll settled_empty, ← outsideLiterals_replaceSelf xs]
  exact Mode.foldl_pass_eq_code_iff _

end EntityWeaver.MethodBody
