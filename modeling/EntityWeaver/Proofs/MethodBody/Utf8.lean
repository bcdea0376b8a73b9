import EntityWeaver.Proofs.MethodBody.Scan
import Mathlib

/-! The scan for bare returns by byte offsets.

    By offsets a text is cut and read at bytes: where a literal ends, whether a word can start, how
    much a bare return takes. An offset inside a character has no answer, nor has one beyond the end:

        if(c) { s = "é;"; return; }
                    └──┘   22 C3 A9 3B 22

    A byte of a character that takes several is never one of a quote, a backslash, a brace, a semicolon
    or a word. So the scan stops in front of whole characters only, has an answer for every text, and
    writes what the scan by characters does. -/

namespace EntityWeaver.MethodBody.Utf8

open Text

/-! ### Texts by byte offsets -/

/-- The bytes of a text. -/
def bytes (s : List Char) : List UInt8 := s.flatMap String.utf8EncodeChar

/-- The text behind a byte offset, if no character goes across it. -/
def dropBytes? : Nat → List Char → Option (List Char)
  | 0, s => some s
  | _ + 1, [] => none
  | n + 1, c :: rest => if c.utf8Size ≤ n + 1 then dropBytes? (n + 1 - c.utf8Size) rest else none

/-- The text in front of a byte offset, if no character goes across it. -/
def takeBytes? : Nat → List Char → Option (List Char)
  | 0, _ => some []
  | _ + 1, [] => none
  | n + 1, c :: rest =>
    if c.utf8Size ≤ n + 1 then (takeBytes? (n + 1 - c.utf8Size) rest).map (c :: ·) else none

/-- The text between two byte offsets. -/
def slice? (i j : Nat) (s : List Char) : Option (List Char) := (takeBytes? j s).bind (dropBytes? i)

/-! ### The scan -/

/-- Where a literal ends, read from an offset in it: behind the next quote that no backslash stands
    in front of, or at the end. -/
def literalEnd (bytes : List UInt8) (quote : UInt8) (i : Nat) : Nat :=
  if h : i < bytes.length then
    if bytes[i] = 0x5C then literalEnd bytes quote (i + 2)
    else if bytes[i] = quote then i + 1
    else literalEnd bytes quote (i + 1)
  else bytes.length
termination_by bytes.length - i

/-- The bytes of the characters that cannot come right before a word. -/
def isWordByte (b : UInt8) : Bool :=
  (0x30 ≤ b && b ≤ 0x39) || (0x41 ≤ b && b ≤ 0x5A) || (0x61 ≤ b && b ≤ 0x7A) || b == 0x5F

/-- Whether a word can start at an offset. -/
def atWordStart? (bytes : List UInt8) : Nat → Option Bool
  | 0 => some true
  | i + 1 => bytes[i]?.map (!isWordByte ·)

/-- How many bytes a bare return at the front of a text takes. -/
def bareReturnSize? (s : List Char) : Option Nat := do
  let after ← afterStart? "return".toList s
  match trimStart after with
  | ';' :: rest => some (byteSize s - byteSize (';' :: rest) + 1)
  | _ => none

/-- A place in the scan of a text. -/
structure Place where
  offset : Nat := 0
  depth : Int := 0
  nested : List Int := []

/-- What is written at a place where a character stands, and the next place. -/
def step? (text : List Char) (p : Place) (c : Char) (rest : List Char) :
    Option (List Char × Place) := do
  let next := p.offset + c.utf8Size
  if c = '"' ∨ c = '\'' then
    let quote ← (bytes text)[p.offset]?
    let stop := literalEnd (bytes text) quote (p.offset + 1)
    return (← slice? p.offset stop text, { p with offset := stop })
  else if c = '\x7b' then
    let head ← takeBytes? p.offset text
    let nested := if opensNested head.reverse then p.depth :: p.nested else p.nested
    return ([c], ⟨next, p.depth + 1, nested⟩)
  else if c = '\x7d' then
    let nested := if p.nested.head? = some (p.depth - 1) then p.nested.tail else p.nested
    return ([c], ⟨next, p.depth - 1, nested⟩)
  else if c = 'r' ∧ p.nested = [] then
    match if ← atWordStart? (bytes text) p.offset then bareReturnSize? (c :: rest) else none with
    | some size => return ("return false;".toList, { p with offset := p.offset + size })
    | none => return ([c], { p with offset := next })
  else return ([c], { p with offset := next })

/-- What the scan of a text writes from a place on; it has no answer if it slices inside a character,
    looks beyond the bytes or does not get ahead. -/
def run? (text : List Char) (p : Place) : Option (List Char) :=
  if p.offset < (bytes text).length then do
    match ← dropBytes? p.offset text with
    | [] => return []
    | c :: rest =>
      let (written, next) ← step? text p c rest
      if p.offset < next.offset then return written ++ (← run? text next) else none
  else some []
termination_by (bytes text).length - p.offset

/-- Bare returns replaced, by byte offsets. -/
def signalReturns? (text : List Char) : Option (List Char) := run? text {}

/-! ### Characters and their bytes -/

theorem bytes_append (xs ys : List Char) : bytes (xs ++ ys) = bytes xs ++ bytes ys :=
  List.flatMap_append

theorem bytes_cons (c : Char) (xs : List Char) :
    bytes (c :: xs) = String.utf8EncodeChar c ++ bytes xs := List.flatMap_cons

theorem byteSize_cons (c : Char) (xs : List Char) :
    byteSize (c :: xs) = c.utf8Size + byteSize xs := rfl

theorem length_bytes (xs : List Char) : (bytes xs).length = byteSize xs := by
  induction xs with
  | nil => rfl
  | cons c xs ih =>
    rw [bytes_cons, List.length_append, String.length_utf8EncodeChar, ih, byteSize_cons]

theorem byteSize_append (xs ys : List Char) : byteSize (xs ++ ys) = byteSize xs + byteSize ys := by
  rw [← length_bytes, ← length_bytes, ← length_bytes, bytes_append, List.length_append]

/-- The bytes of a text are those of its first character and those behind it. -/
theorem exists_byteSize_cons (c : Char) (xs : List Char) : ∃ n, byteSize (c :: xs) = n + 1 ∧
    c.utf8Size ≤ n + 1 ∧ n + 1 - c.utf8Size = byteSize xs := by
  obtain ⟨n, hn⟩ := Nat.exists_eq_succ_of_ne_zero c.utf8Size_pos.ne'
  refine ⟨n + byteSize xs, ?_, by omega, by omega⟩
  rw [byteSize_cons]
  omega

theorem dropBytes?_append (xs ys : List Char) : dropBytes? (byteSize xs) (xs ++ ys) = some ys := by
  induction xs with
  | nil => cases ys <;> rfl
  | cons c xs ih =>
    obtain ⟨n, hsize, hle, hrest⟩ := exists_byteSize_cons c xs
    rw [hsize, List.cons_append, dropBytes?, if_pos hle, hrest, ih]

theorem takeBytes?_append (xs ys : List Char) : takeBytes? (byteSize xs) (xs ++ ys) = some xs := by
  induction xs with
  | nil => cases ys <;> rfl
  | cons c xs ih =>
    obtain ⟨n, hsize, hle, hrest⟩ := exists_byteSize_cons c xs
    rw [hsize, List.cons_append, takeBytes?, if_pos hle, hrest, ih]
    rfl

theorem slice?_append (xs ys zs : List Char) :
    slice? (byteSize xs) (byteSize (xs ++ ys)) (xs ++ (ys ++ zs)) = some ys := by
  rw [slice?, ← List.append_assoc, takeBytes?_append]
  exact dropBytes?_append xs ys

/-- A character is one byte of its own or several that no such character has. -/
theorem utf8EncodeChar_cases (c : Char) :
    (c.toNat < 0x80 ∧ String.utf8EncodeChar c = [UInt8.ofNat c.toNat]) ∨
      (0x80 ≤ c.toNat ∧ ∀ b ∈ String.utf8EncodeChar c, 0x80 ≤ b.toNat) := by
  have hval : c.val.toNat = c.toNat := rfl
  unfold String.utf8EncodeChar
  simp only [hval]
  split_ifs with h1 h2 h3
  · exact .inl ⟨by omega, rfl⟩
  all_goals
    refine .inr ⟨by omega, ?_⟩
    simp only [List.mem_cons, List.not_mem_nil, or_false, forall_eq_or_imp, forall_eq,
      UInt8.toNat_ofNat']
    omega

theorem isWordByte_iff (b : UInt8) : isWordByte b = true ↔
    (0x30 ≤ b.toNat ∧ b.toNat ≤ 0x39) ∨ (0x41 ≤ b.toNat ∧ b.toNat ≤ 0x5A) ∨
      (0x61 ≤ b.toNat ∧ b.toNat ≤ 0x7A) ∨ b.toNat = 0x5F := by
  simp only [isWordByte, Bool.or_eq_true, Bool.and_eq_true, decide_eq_true_eq, beq_iff_eq,
    UInt8.le_iff_toNat_le, ← UInt8.toNat_inj, or_assoc]
  rfl

theorem isWordChar_iff (c : Char) : isWordChar c = true ↔
    (0x30 ≤ c.toNat ∧ c.toNat ≤ 0x39) ∨ (0x41 ≤ c.toNat ∧ c.toNat ≤ 0x5A) ∨
      (0x61 ≤ c.toNat ∧ c.toNat ≤ 0x7A) ∨ c.toNat = 0x5F := by
  have hunderscore : c = '_' ↔ c.toNat = 0x5F := by
    rw [← Char.toNat_inj]
    rfl
  have hval : c.val.toNat = c.toNat := rfl
  simp only [isWordChar, Char.isAlphanum, Char.isAlpha, Char.isUpper, Char.isLower, Char.isDigit,
    Bool.or_eq_true, Bool.and_eq_true, decide_eq_true_eq, beq_iff_eq, UInt32.le_iff_toNat_le,
    ge_iff_le, hunderscore, hval]
  simp
  omega

/-- The last byte of a character tells whether a word can follow. -/
theorem exists_last_byte (c : Char) :
    ∃ bs b, String.utf8EncodeChar c = bs ++ [b] ∧ isWordByte b = isWordChar c := by
  rcases utf8EncodeChar_cases c with ⟨hlt, hbytes⟩ | ⟨hle, hbytes⟩
  · refine ⟨[], _, hbytes, ?_⟩
    have hb : (UInt8.ofNat c.toNat).toNat = c.toNat :=
      UInt8.toNat_ofNat_of_lt' (show c.toNat < 256 by omega)
    rw [Bool.eq_iff_iff, isWordByte_iff, isWordChar_iff, hb]
  · have hne : String.utf8EncodeChar c ≠ [] := by
      rw [← List.length_pos_iff, String.length_utf8EncodeChar]
      exact c.utf8Size_pos
    refine ⟨_, _, (List.dropLast_append_getLast hne).symm, ?_⟩
    have hb := hbytes _ (List.getLast_mem hne)
    rw [Bool.eq_iff_iff, isWordByte_iff, isWordChar_iff]
    omega

theorem atWordStart?_bytes (before rest : List Char) :
    atWordStart? (bytes (before ++ rest)) (byteSize before) = some (atWordStart before.reverse) := by
  rcases List.eq_nil_or_concat before with rfl | ⟨init, c, rfl⟩
  · rfl
  · obtain ⟨bs, b, hc, hb⟩ := exists_last_byte c
    have hbytes : bytes (init ++ [c]) = (bytes init ++ bs) ++ [b] := by
      rw [bytes_append, bytes_cons, hc]
      simp [bytes]
    have hsize : byteSize (init ++ [c]) = (bytes init ++ bs).length + 1 := by
      rw [← length_bytes, hbytes, List.length_append, List.length_singleton]
    rw [List.concat_eq_append, hsize, atWordStart?, bytes_append, hbytes, List.append_assoc,
      List.getElem?_append_right le_rfl, Nat.sub_self, List.reverse_append]
    show some (!isWordByte b) = some (!isWordChar c)
    rw [hb]

/-! ### Literals -/

/-- How many bytes belong to a literal that is open in front of them. -/
def literalLength (quote : UInt8) : List UInt8 → Nat
  | [] => 0
  | [_] => 1
  | b :: b' :: rest =>
    if b = 0x5C then literalLength quote rest + 2
    else if b = quote then 1
    else literalLength quote (b' :: rest) + 1

/-- How many characters belong to a literal that is open in front of them. -/
def literalPart (quote : Char) : List Char → List Char
  | [] => []
  | [c] => [c]
  | c :: d :: rest =>
    if c = '\\' then c :: d :: literalPart quote rest
    else if c = quote then [c]
    else c :: literalPart quote (d :: rest)

theorem literalEnd_append (q : UInt8) (pre post : List UInt8) :
    literalEnd (pre ++ post) q pre.length = pre.length + literalLength q post := by
  match post with
  | [] => rw [literalEnd, dif_neg (by simp), literalLength, List.append_nil, Nat.add_zero]
  | b :: rest =>
    have hinside : pre.length < (pre ++ b :: rest).length := by simp
    have hb : (pre ++ b :: rest)[pre.length] = b := by simp
    rw [literalEnd, dif_pos hinside]
    simp only [hb]
    have hnext : pre ++ b :: rest = (pre ++ [b]) ++ rest := by simp
    have hone : literalEnd (pre ++ b :: rest) q (pre.length + 1) =
        pre.length + 1 + literalLength q rest := by
      have h := literalEnd_append q (pre ++ [b]) rest
      rwa [← hnext, List.length_append, List.length_singleton] at h
    match rest with
    | [] =>
      rw [hone, literalEnd, dif_neg (by simp)]
      simp [literalLength]
    | b' :: rest =>
      have hafter : pre ++ b :: b' :: rest = (pre ++ [b, b']) ++ rest := by simp
      have htwo : literalEnd (pre ++ b :: b' :: rest) q (pre.length + 2) =
          pre.length + 2 + literalLength q rest := by
        have h := literalEnd_append q (pre ++ [b, b']) rest
        rwa [← hafter, List.length_append] at h
      rw [hone, htwo, literalLength]
      split_ifs <;> omega
termination_by post.length

section Literal

variable {q : UInt8} {b : UInt8} {rest : List UInt8}

theorem literalLength_cons (hbackslash : b ≠ 0x5C) (hquote : b ≠ q) :
    literalLength q (b :: rest) = 1 + literalLength q rest := by
  cases rest with
  | nil => rfl
  | cons b' rest => rw [literalLength, if_neg hbackslash, if_neg hquote, Nat.add_comm]

theorem literalLength_quote (hq : q ≠ 0x5C) : literalLength q (q :: rest) = 1 := by
  cases rest with
  | nil => rfl
  | cons b' rest => rw [literalLength, if_neg hq, if_pos rfl]

/-- No byte of a longer character is a quote or a backslash. -/
theorem literalLength_append (hq : q.toNat < 0x80) {bs : List UInt8}
    (hbs : ∀ b ∈ bs, 0x80 ≤ b.toNat) :
    literalLength q (bs ++ rest) = bs.length + literalLength q rest := by
  induction bs with
  | nil => simp
  | cons b bs ih =>
    obtain ⟨hb, hbs⟩ := List.forall_mem_cons.1 hbs
    have hbackslash : b ≠ 0x5C := by
      rintro rfl
      exact absurd hb (by decide)
    have hquote : b ≠ q := by
      rintro rfl
      omega
    rw [List.cons_append, literalLength_cons hbackslash hquote, ih hbs, List.length_cons]
    omega

end Literal

variable {q : Char}

/-- The byte of a character that has one. -/
theorem utf8EncodeChar_of_lt {c : Char} (h : c.toNat < 0x80) :
    String.utf8EncodeChar c = [UInt8.ofNat c.toNat] := by
  rcases utf8EncodeChar_cases c with ⟨_, hbytes⟩ | ⟨hle, _⟩
  · exact hbytes
  · omega

theorem ofNat_toNat_ne {c d : Char} (hc : c.toNat < 0x80) (hd : d.toNat < 0x80) (h : c ≠ d) :
    UInt8.ofNat c.toNat ≠ UInt8.ofNat d.toNat := by
  intro heq
  have hnat := congrArg UInt8.toNat heq
  rw [UInt8.toNat_ofNat_of_lt' (show c.toNat < 256 by omega),
    UInt8.toNat_ofNat_of_lt' (show d.toNat < 256 by omega)] at hnat
  exact h (Char.toNat_inj.1 hnat)

theorem toNat_of_isQuote (hq : isQuote q = true) : q.toNat < 0x80 ∧ q ≠ '\\' := by
  simp only [isQuote, Bool.or_eq_true, beq_iff_eq] at hq
  rcases hq with rfl | rfl <;> decide

theorem literalLength_char (hq : isQuote q = true) {c : Char} (hbackslash : c ≠ '\\') (hquote : c ≠ q)
    (rest : List UInt8) :
    literalLength (UInt8.ofNat q.toNat) (String.utf8EncodeChar c ++ rest) =
      c.utf8Size + literalLength (UInt8.ofNat q.toNat) rest := by
  obtain ⟨hlt, _⟩ := toNat_of_isQuote hq
  rw [← String.length_utf8EncodeChar]
  rcases utf8EncodeChar_cases c with ⟨hc, hbytes⟩ | ⟨_, hbytes⟩
  · rw [hbytes]
    exact literalLength_cons (ofNat_toNat_ne (d := '\\') hc (by decide) hbackslash)
      (ofNat_toNat_ne hc hlt hquote)
  · refine literalLength_append ?_ hbytes
    rwa [UInt8.toNat_ofNat_of_lt' (show q.toNat < 256 by omega)]

/-- A backslash takes the first byte of the next character along, and no other byte of it ends the
    literal. -/
theorem literalLength_escape (hq : isQuote q = true) (d : Char) (rest : List UInt8) :
    literalLength (UInt8.ofNat q.toNat) (0x5C :: (String.utf8EncodeChar d ++ rest)) =
      1 + d.utf8Size + literalLength (UInt8.ofNat q.toNat) rest := by
  obtain ⟨hlt, _⟩ := toNat_of_isQuote hq
  rw [← String.length_utf8EncodeChar]
  rcases utf8EncodeChar_cases d with ⟨_, hbytes⟩ | ⟨_, hbytes⟩
  · rw [hbytes, List.singleton_append, literalLength, if_pos rfl, List.length_singleton]
    omega
  · cases hd : String.utf8EncodeChar d with
    | nil =>
      have hpos := d.utf8Size_pos
      rw [← String.length_utf8EncodeChar, hd] at hpos
      exact absurd hpos (lt_irrefl 0)
    | cons b bs =>
      rw [hd] at hbytes
      have hq' : (UInt8.ofNat q.toNat).toNat < 0x80 := by
        rwa [UInt8.toNat_ofNat_of_lt' (show q.toNat < 256 by omega)]
      rw [List.cons_append, literalLength, if_pos rfl,
        literalLength_append hq' (List.forall_mem_cons.1 hbytes).2, List.length_cons]
      omega

/-- Bytes and characters agree on where a literal ends. -/
theorem literalLength_bytes (hq : isQuote q = true) (xs : List Char) :
    literalLength (UInt8.ofNat q.toNat) (bytes xs) = byteSize (literalPart q xs) := by
  obtain ⟨hlt, hne⟩ := toNat_of_isQuote hq
  have hquote : ∀ rest,
      literalLength (UInt8.ofNat q.toNat) (String.utf8EncodeChar q ++ rest) = q.utf8Size := by
    intro rest
    rw [← String.length_utf8EncodeChar, utf8EncodeChar_of_lt hlt]
    exact literalLength_quote (ofNat_toNat_ne (d := '\\') hlt (by decide) hne)
  fun_induction literalPart q xs with
  | case1 => rfl
  | case2 c =>
    rw [bytes_cons, byteSize_cons]
    by_cases hbackslash : c = '\\'
    · rw [hbackslash]
      rfl
    · by_cases hc : c = q
      · rw [hc, hquote]
        rfl
      · exact literalLength_char hq hbackslash hc _
  | case3 d rest ih =>
    rw [bytes_cons, bytes_cons, byteSize_cons, byteSize_cons, ← ih]
    exact (literalLength_escape hq d (bytes rest)).trans (Nat.add_assoc _ _ _)
  | case4 d rest =>
    rw [bytes_cons, hquote]
    rfl
  | case5 c d rest hbackslash hc ih =>
    rw [bytes_cons, byteSize_cons, ← ih]
    exact literalLength_char hq hbackslash hc _

/-- A literal is written as it is, and behind it is code. -/
theorem run_literal (xs before : List Char) (depth : Int) (nested : List Int) :
    ∃ rest mode, xs = literalPart q xs ++ rest ∧ (rest = [] ∨ mode = .code) ∧
      Scan.run ⟨before, depth, nested, .literal q⟩ xs = literalPart q xs ++
        Scan.run ⟨(literalPart q xs).reverse ++ before, depth, nested, mode⟩ rest := by
  fun_induction literalPart q xs generalizing before with
  | case1 => exact ⟨[], .literal q, rfl, .inl rfl, rfl⟩
  | case2 c => exact ⟨[], .code, rfl, .inl rfl, rfl⟩
  | case3 d rest ih =>
    obtain ⟨after, mode, heq, hmode, hrun⟩ := ih (d :: '\\' :: before)
    refine ⟨after, mode, congrArg (fun xs => '\\' :: d :: xs) heq, hmode, ?_⟩
    have hstep : Scan.run ⟨before, depth, nested, .literal q⟩ ('\\' :: d :: rest) =
        '\\' :: d :: Scan.run ⟨d :: '\\' :: before, depth, nested, .literal q⟩ rest := rfl
    rw [hstep, hrun]
    simp
  | case4 d rest =>
    refine ⟨d :: rest, .code, rfl, .inr rfl, ?_⟩
    rw [Scan.run, Scan.step]
    simp [*]
  | case5 c d rest hbackslash hc ih =>
    obtain ⟨after, mode, heq, hmode, hrun⟩ := ih (c :: before)
    refine ⟨after, mode, congrArg (c :: ·) heq, hmode, ?_⟩
    have hstep : Scan.run ⟨before, depth, nested, .literal q⟩ (c :: d :: rest) =
        c :: Scan.run ⟨c :: before, depth, nested, .literal q⟩ (d :: rest) := by
      rw [Scan.run, Scan.step]
      simp only [hbackslash, hc, if_false]
      rfl
    rw [hstep, hrun]
    simp

/-! ### The scan by byte offsets -/

/-- A bare return takes the bytes of its characters. -/
theorem bareReturnSize?_eq (s : List Char) :
    bareReturnSize? s = (bareReturn? s).map fun n => byteSize (s.take n) := by
  cases h : bareReturn? s with
  | some n =>
    obtain ⟨blanks, rest, hblanks, rfl, rfl⟩ := bareReturn?_eq_some.1 h
    have hafter : afterStart? "return".toList (bareReturn blanks ++ rest) =
        some (blanks ++ ';' :: rest) := afterStart?_eq_some.2 (by simp [bareReturn_def])
    have htrim : trimStart (blanks ++ ';' :: rest) = ';' :: rest := by
      rw [trimStart, List.dropWhile_append_of_pos hblanks]
      rfl
    rw [bareReturnSize?, hafter, Option.bind_eq_bind, Option.bind_some, htrim, Option.map_some,
      List.take_left]
    have hsize := byteSize_append (bareReturn blanks) rest
    have hsemicolon : byteSize (';' :: rest) = 1 + byteSize rest := rfl
    have hword : 1 ≤ byteSize (bareReturn blanks) := by
      rw [bareReturn_eq, byteSize_cons]
      exact Nat.le_add_right 1 _
    show some (byteSize (bareReturn blanks ++ rest) - byteSize (';' :: rest) + 1) = _
    rw [hsize, hsemicolon]
    congr 1
    omega
  | none =>
    rw [Option.map_none, Option.eq_none_iff_forall_ne_some]
    intro k hk
    rw [bareReturnSize?] at hk
    obtain ⟨after, hafter, hk⟩ := Option.bind_eq_some_iff.1 hk
    split at hk
    · next rest hrest =>
      have hsplit : bareReturn (after.takeWhile isBlank) ++ rest = s := by
        rw [afterStart?_eq_some.1 hafter, bareReturn_def, List.append_assoc, List.append_assoc,
          List.singleton_append, ← hrest]
        exact congrArg _ List.takeWhile_append_dropWhile
      exact bareReturn?_eq_none.1 h _ (fun c hc => List.mem_takeWhile_imp hc) ⟨rest, hsplit⟩
    · cases hk

/-- At a place in code, a step of the scan goes over a piece of the text to the next place. -/
structure StepsOver (before : List Char) (s : Scan) (c : Char) (rest piece after written : List Char)
    (s' : Scan) : Prop where
  split : c :: rest = piece ++ after
  ahead : piece ≠ []
  step : step? (before ++ c :: rest) ⟨byteSize before, s.depth, s.nested⟩ c rest =
    some (written, ⟨byteSize (before ++ piece), s'.depth, s'.nested⟩)
  run : s.run (c :: rest) = written ++ s'.run after
  passed : s'.before = (before ++ piece).reverse
  code : after = [] ∨ s'.mode = .code

section Step

variable {s : Scan} {c : Char} {before rest : List Char}

theorem byteSize_concat (before : List Char) (c : Char) :
    byteSize (before ++ [c]) = byteSize before + c.utf8Size := byteSize_append before [c]

/-- Most characters are gone over one by one. -/
theorem stepsOver_one (hbefore : s.before = before.reverse) (hcode : s.mode = .code)
    (hquote : ¬isQuote c = true) (hstop : s.Stops → bareReturn? (c :: rest) = none)
    (hstep : step? (before ++ c :: rest) ⟨byteSize before, s.depth, s.nested⟩ c rest =
      some ([c], ⟨byteSize before + c.utf8Size, (s.pass c).depth, (s.pass c).nested⟩)) :
    StepsOver before s c rest [c] rest [c] (s.pass c) where
  split := rfl
  ahead := List.cons_ne_nil _ _
  step := by rw [hstep, byteSize_concat]
  run := Scan.run_cons (Scan.settled_of_code hcode) hstop
  passed := by
    rw [Scan.before_pass (Scan.settled_of_code hcode), hbefore, List.reverse_append]
    rfl
  code := .inr (by
    rw [Scan.mode_pass (Scan.settled_of_code hcode), hcode, Mode.pass, if_neg hquote])

/-- The first byte of a text behind another. -/
theorem bytes_getElem?_append (hc : c.toNat < 0x80) :
    (bytes (before ++ c :: rest))[byteSize before]? = some (UInt8.ofNat c.toNat) := by
  rw [bytes_append, bytes_cons, utf8EncodeChar_of_lt hc, ← length_bytes,
    List.getElem?_append_right le_rfl, Nat.sub_self]
  rfl

/-- The bytes of a literal are those of its characters, and behind it stands code. -/
theorem exists_stepsOver_quote (hbefore : s.before = before.reverse) (hcode : s.mode = .code)
    (hc : isQuote c = true) :
    ∃ piece after written s', StepsOver before s c rest piece after written s' := by
  obtain ⟨hlt, _⟩ := toNat_of_isQuote hc
  have hquote : c = '"' ∨ c = '\'' := by simpa [isQuote] using hc
  obtain ⟨after, mode, hsplit, hmode, hrun⟩ :=
    run_literal (q := c) rest (c :: s.before) s.depth s.nested
  have hbytes : bytes (before ++ c :: rest) = bytes (before ++ [c]) ++ bytes rest := by
    rw [← bytes_append, List.append_assoc]
    rfl
  have hsize : byteSize before + 1 = (bytes (before ++ [c])).length := by
    rw [length_bytes, byteSize_concat, ← String.length_utf8EncodeChar, utf8EncodeChar_of_lt hlt]
    rfl
  have hstop : literalEnd (bytes (before ++ c :: rest)) (UInt8.ofNat c.toNat) (byteSize before + 1) =
      byteSize (before ++ c :: literalPart c rest) := by
    rw [hbytes, hsize, literalEnd_append, literalLength_bytes hc, length_bytes, ← byteSize_append,
      List.append_assoc]
    rfl
  have hslice : slice? (byteSize before) (byteSize (before ++ c :: literalPart c rest))
      (before ++ c :: rest) = some (c :: literalPart c rest) := by
    have h := slice?_append before (c :: literalPart c rest) after
    rwa [List.cons_append, ← hsplit] at h
  refine ⟨c :: literalPart c rest, after, c :: literalPart c rest,
    ⟨(literalPart c rest).reverse ++ c :: s.before, s.depth, s.nested, mode⟩, ?_⟩
  constructor
  case split => rw [List.cons_append, ← hsplit]
  case ahead => exact List.cons_ne_nil _ _
  case step =>
    rw [step?, if_pos hquote, bytes_getElem?_append hlt]
    dsimp only [Option.bind_eq_bind, Option.bind_some]
    rw [hstop, hslice]
    rfl
  case run =>
    rw [Scan.run_cons (Scan.settled_of_code hcode)
      (fun _ => bareReturn?_cons_of_ne (by rintro rfl; exact absurd hc (by decide))),
      Scan.pass_of_quote hcode hc, hrun]
    rfl
  case passed => simp [hbefore]
  case code => exact hmode

/-- At a character that opens and closes nothing a bare return is looked for. -/
theorem step?_of_isPlain (hbefore : s.before = before.reverse) (hc : isPlain c = true) :
    step? (before ++ c :: rest) ⟨byteSize before, s.depth, s.nested⟩ c rest =
      match if s.nested = [] ∧ atWordStart s.before then bareReturnSize? (c :: rest) else none with
      | some size => some ("return false;".toList, ⟨byteSize before + size, s.depth, s.nested⟩)
      | none => some ([c], ⟨byteSize before + c.utf8Size, s.depth, s.nested⟩) := by
  obtain ⟨⟨hquote, hopen⟩, hclose⟩ :
      (¬(c = '"' ∨ c = '\'') ∧ ¬c = '\x7b') ∧ ¬c = '\x7d' := by
    simpa [isPlain, isQuote] using hc
  have hword := atWordStart?_bytes before (c :: rest)
  rw [← hbefore] at hword
  rw [step?, if_neg hquote, if_neg hopen, if_neg hclose]
  by_cases hr : c = 'r'
  · by_cases hnested : s.nested = []
    · rw [if_pos ⟨hr, hnested⟩, hword]
      dsimp only [Option.bind_eq_bind, Option.bind_some]
      simp only [hnested, true_and]
      split <;> rfl
    · rw [if_neg fun h => hnested h.2, if_neg fun h => hnested h.1]
      rfl
  · rw [if_neg fun h => hr h.1, bareReturnSize?_eq, bareReturn?_cons_of_ne hr, Option.map_none,
      ite_self]
    rfl

/-- A step of the scan goes over a literal, a bare return or one character. -/
theorem exists_stepsOver (c : Char) (rest : List Char) (hbefore : s.before = before.reverse)
    (hcode : s.mode = .code) :
    ∃ piece after written s', StepsOver before s c rest piece after written s' := by
  rcases Scan.code_cases c with hc | rfl | rfl | hc
  · exact exists_stepsOver_quote hbefore hcode hc
  · have hnone : bareReturn? ('\x7b' :: rest) = none := bareReturn?_cons_of_ne (by decide)
    refine ⟨_, _, _, _, stepsOver_one hbefore hcode (by decide) (fun _ => hnone) ?_⟩
    rw [step?, Scan.pass_open hcode, takeBytes?_append, hbefore]
    rfl
  · have hnone : bareReturn? ('\x7d' :: rest) = none := bareReturn?_cons_of_ne (by decide)
    refine ⟨_, _, _, _, stepsOver_one hbefore hcode (by decide) (fun _ => hnone) ?_⟩
    rw [step?, Scan.pass_close hcode]
    rfl
  · by_cases hstop : s.Stops → bareReturn? (c :: rest) = none
    · refine ⟨_, _, _, _, stepsOver_one hbefore hcode (not_isQuote_of_isPlain hc) hstop ?_⟩
      rw [step?_of_isPlain hbefore hc, Scan.pass_of_isPlain hcode hc]
      split_ifs with h
      · rw [bareReturnSize?_eq, hstop ⟨hcode, h.1, h.2⟩]
        rfl
      · rfl
    · obtain ⟨hstops, hsome⟩ := Classical.not_imp.1 hstop
      obtain ⟨n, hn⟩ := Option.ne_none_iff_exists'.1 hsome
      obtain ⟨blanks, after, hblanks, heq, rfl⟩ := bareReturn?_eq_some.1 hn
      have hpass := Scan.passAll_of_isPlain hcode (isPlain_of_mem_bareReturn hblanks)
      refine ⟨bareReturn blanks, after, "return false;".toList, s.passAll (bareReturn blanks), ?_⟩
      constructor
      case split => exact heq
      case ahead => exact List.cons_ne_nil _ _
      case step =>
        rw [step?_of_isPlain hbefore hc, if_pos ⟨hstops.own, hstops.word⟩, bareReturnSize?_eq, hn,
          heq, hpass, byteSize_append, Option.map_some, List.take_left]
      case run => rw [heq, Scan.run_bareReturn hstops hblanks]
      case passed => rw [hpass, hbefore, List.reverse_append]
      case code => exact .inr (by rw [hpass]; exact hcode)

end Step

/-- The byte offsets of a scan are always those of whole characters. -/
theorem run?_eq (before rest : List Char) (s : Scan) (hbefore : s.before = before.reverse)
    (hmode : rest = [] ∨ s.mode = .code) :
    run? (before ++ rest) ⟨byteSize before, s.depth, s.nested⟩ = some (s.run rest) := by
  induction hn : rest.length using Nat.strong_induction_on generalizing before rest s with
  | h n ih =>
    rw [run?]
    cases rest with
    | nil =>
      rw [if_neg]
      · rfl
      · rw [length_bytes, List.append_nil]
        exact lt_irrefl _
    | cons c rest =>
      have hcode := hmode.resolve_left (List.cons_ne_nil c rest)
      obtain ⟨piece, after, written, s', h⟩ := exists_stepsOver c rest hbefore hcode
      have hpiece := List.length_pos_of_ne_nil h.ahead
      have hlength : after.length < n := by
        have hsum := congrArg List.length h.split
        rw [List.length_append] at hsum
        omega
      have htail := ih _ hlength (before ++ piece) after s' h.passed h.code rfl
      rw [List.append_assoc, ← h.split] at htail
      have hahead : byteSize before < byteSize (before ++ piece) := by
        obtain ⟨d, piece, rfl⟩ := List.exists_cons_of_ne_nil h.ahead
        have hpos := d.utf8Size_pos
        rw [byteSize_append, byteSize_cons]
        omega
      have hinside : byteSize before < (bytes (before ++ c :: rest)).length := by
        have hpos := c.utf8Size_pos
        rw [length_bytes, byteSize_append, byteSize_cons]
        omega
      rw [if_pos hinside, dropBytes?_append]
      dsimp only [Option.bind_eq_bind, Option.bind_some]
      rw [h.step]
      dsimp only [Option.bind_some]
      rw [if_pos hahead, htail, h.run]
      rfl

theorem signalReturns?_eq (text : List Char) : signalReturns? text = some (signalReturns text) :=
  run?_eq [] text {} rfl (.inr rfl)

end EntityWeaver.MethodBody.Utf8
