import EntityWeaver.Codec.MessagePack
import Mathlib.Data.List.Forall2
import Mathlib.Tactic.Ring

/-! Written values are read back, whatever follows them.

    A head byte says how many bytes of number or text come behind it, and a written number fills its
    bytes exactly, so a reading stops where the writing did. Only integers change: one that is not
    negative comes back in an unsigned form. Each kind of value has one statement; those of arrays and
    maps are put together from the ones of their items. -/

namespace EntityWeaver.MessagePack

theorem length_bigEndian (width n : Nat) : (bigEndian width n).length = width := by
  induction width with
  | zero => rfl
  | succ width ih => rw [bigEndian, List.length_cons, ih]

theorem foldl_bigEndian (width n start : Nat) :
    (bigEndian width n).foldl (fun n b => n * 256 + b.toNat) start =
      start * 256 ^ width + n % 256 ^ width := by
  induction width generalizing start with
  | zero => simp [bigEndian, Nat.mod_one]
  | succ width ih =>
    have hdigit : (UInt8.ofNat (n >>> (8 * width))).toNat = n / 256 ^ width % 256 := by
      rw [UInt8.toNat_ofNat', Nat.shiftRight_eq_div_pow, Nat.pow_mul]
    rw [bigEndian, List.foldl_cons, ih, hdigit, Nat.pow_succ, Nat.mod_mul]
    ring

/-- A number comes back from as many bytes as it needs. -/
theorem ofBigEndian_bigEndian {width n : Nat} (h : n < 256 ^ width) :
    ofBigEndian (bigEndian width n) = n := by
  rw [ofBigEndian, foldl_bigEndian, Nat.mod_eq_of_lt h, Nat.zero_mul, Nat.zero_add]

theorem split?_append (content rest : Bytes) :
    split? content.length (content ++ rest) = some (content, rest) := by
  simp [split?]

theorem number?_bigEndian {width n : Nat} (h : n < 256 ^ width) (rest : Bytes) :
    number? width (bigEndian width n ++ rest) = some (n, rest) := by
  have hsplit := split?_append (bigEndian width n) rest
  rw [length_bigEndian] at hsplit
  rw [number?, hsplit, Option.map_some]
  dsimp only
  rw [ofBigEndian_bigEndian h]

theorem sized?_bigEndian {width : Nat} {content : Bytes} (h : content.length < 256 ^ width)
    (rest : Bytes) :
    sized? width (bigEndian width content.length ++ (content ++ rest)) = some (content, rest) := by
  rw [sized?, number?_bigEndian h]
  exact split?_append content rest

/-- The bytes of a value are read as another one, whatever follows them. -/
def ReadsAs (depth : Nat) (v w : MessagePack) : Prop :=
  ∀ rest, decodeWithin depth (v.encode ++ rest) = some (w, rest)

variable {depth : Nat}

theorem readsAs_bool (b : Bool) : ReadsAs depth (.bool b) (.bool b) := by
  intro rest
  cases b <;> rw [encode, List.singleton_append, decodeWithin] <;> rfl

theorem readsAs_single (bits : UInt32) : ReadsAs depth (.single bits) (.single bits) := by
  intro rest
  have hfit : bits.toNat < 256 ^ 4 := bits.toNat_lt
  rw [encode, List.cons_append, decodeWithin]
  simp [number?_bigEndian hfit]

theorem readsAs_double (bits : UInt64) : ReadsAs depth (.double bits) (.double bits) := by
  intro rest
  have hfit : bits.toNat < 256 ^ 8 := bits.toNat_lt
  rw [encode, List.cons_append, decodeWithin]
  simp [number?_bigEndian hfit]

theorem readsAs_unsigned {n : Nat} (h : n < 2 ^ 64) :
    ReadsAs depth (.unsigned n) (.unsigned n) := by
  intro rest
  rw [encode, encodeUnsigned]
  split_ifs with hfix h1 h2 h4
  · rw [List.singleton_append, decodeWithin]
    have hn : (UInt8.ofNat n).toNat = n := UInt8.toNat_ofNat_of_lt' (show n < 256 by omega)
    simp [hn, hfix]
  · have hfit : n < 256 ^ 1 := h1
    rw [List.cons_append, decodeWithin]
    simp [number?_bigEndian hfit]
  · have hfit : n < 256 ^ 2 := h2
    rw [List.cons_append, decodeWithin]
    simp [number?_bigEndian hfit]
  · have hfit : n < 256 ^ 4 := h4
    rw [List.cons_append, decodeWithin]
    simp [number?_bigEndian hfit]
  · have hfit : n < 256 ^ 8 := h
    rw [List.cons_append, decodeWithin]
    simp [number?_bigEndian hfit]

/-- A pattern short of all ones by a number below half of the patterns is negative. -/
theorem toSigned_ones_sub {bits ones n : Nat} (hbits : 0 < bits) (hones : 2 ^ bits = ones + 1)
    (h : n < 2 ^ (bits - 1)) : toSigned bits (ones - n) = .negSucc n := by
  have htwice : 2 ^ (bits - 1) * 2 = 2 ^ bits := Nat.two_pow_pred_mul_two hbits
  rw [toSigned, Nat.one_shiftLeft, Nat.one_shiftLeft, if_neg (by omega)]
  omega

theorem readsAs_natural {n : Nat} (h : n < 2 ^ 64) :
    ReadsAs depth (.signed n) (.unsigned n) := by
  rw [ReadsAs, encode_natural]
  exact readsAs_unsigned h

theorem readsAs_negative {n : Nat} (h : n < 2 ^ 63) :
    ReadsAs depth (.signed (.negSucc n)) (.signed (.negSucc n)) := by
  intro rest
  rw [encode, encodeInt]
  split_ifs with hfix h1 h2 h4
  · have hn : (UInt8.ofNat (0xff - n)).toNat = 0xff - n :=
      UInt8.toNat_ofNat_of_lt' (show 0xff - n < 256 by omega)
    rw [List.singleton_append, decodeWithin]
    simp only [hn]
    rw [if_neg (by omega), if_neg (by omega), if_neg (by omega), if_neg (by omega),
      if_pos (by omega)]
    congr 3
    omega
  · have hfit : 0xff - n < 256 ^ 1 := by omega
    rw [List.cons_append, decodeWithin]
    have hsign : toSigned 8 (0xff - n) = .negSucc n :=
      toSigned_ones_sub (by decide) (by decide) h1
    simp [number?_bigEndian hfit, hsign]
  · have hfit : 0xffff - n < 256 ^ 2 := by omega
    rw [List.cons_append, decodeWithin]
    have hsign : toSigned 16 (0xffff - n) = .negSucc n :=
      toSigned_ones_sub (by decide) (by decide) h2
    simp [number?_bigEndian hfit, hsign]
  · have hfit : 0xffffffff - n < 256 ^ 4 := by omega
    rw [List.cons_append, decodeWithin]
    have hsign : toSigned 32 (0xffffffff - n) = .negSucc n :=
      toSigned_ones_sub (by decide) (by decide) h4
    simp [number?_bigEndian hfit, hsign]
  · have hfit : 0xffffffffffffffff - n < 256 ^ 8 := by omega
    rw [List.cons_append, decodeWithin]
    have hsign : toSigned 64 (0xffffffffffffffff - n) = .negSucc n :=
      toSigned_ones_sub (by decide) (by decide) h
    simp [number?_bigEndian hfit, hsign]

theorem readsAs_str {content : Bytes} (h : content.length < 2 ^ 32) :
    ReadsAs depth (.str content) (.str content) := by
  intro rest
  rw [encode, strHead, List.append_assoc]
  split_ifs with hfix h1 h2
  · have hn : (UInt8.ofNat (0xa0 + content.length)).toNat = 0xa0 + content.length :=
      UInt8.toNat_ofNat_of_lt' (show 0xa0 + content.length < 256 by omega)
    rw [List.singleton_append, decodeWithin]
    simp only [hn]
    rw [if_neg (by omega), if_neg (by omega), if_neg (by omega), if_pos (by omega),
      Nat.add_sub_cancel_left, split?_append]
    rfl
  · have hfit : content.length < 256 ^ 1 := h1
    rw [List.cons_append, decodeWithin]
    simp [sized?_bigEndian hfit]
  · have hfit : content.length < 256 ^ 2 := h2
    rw [List.cons_append, decodeWithin]
    simp [sized?_bigEndian hfit]
  · have hfit : content.length < 256 ^ 4 := h
    rw [List.cons_append, decodeWithin]
    simp [sized?_bigEndian hfit]

theorem times?_encodeAll {vs ws : List MessagePack} (h : List.Forall₂ (ReadsAs depth) vs ws)
    (rest : Bytes) :
    times? (decodeWithin depth) vs.length (encodeAll vs ++ rest) = some (ws, rest) := by
  induction h with
  | nil => rw [encodeAll]; rfl
  | cons hv _ ih =>
    rw [encodeAll, List.length_cons, times?, List.append_assoc, hv]
    simp [ih]

theorem readsAs_array {vs ws : List MessagePack} (h : List.Forall₂ (ReadsAs depth) vs ws)
    (hsize : vs.length < 2 ^ 32) : ReadsAs (depth + 1) (.array vs) (.array ws) := by
  intro rest
  rw [encode, arrayHead, List.append_assoc]
  split_ifs with hfix h2
  · have hn : (UInt8.ofNat (0x90 + vs.length)).toNat = 0x90 + vs.length :=
      UInt8.toNat_ofNat_of_lt' (show 0x90 + vs.length < 256 by omega)
    rw [List.singleton_append, decodeWithin]
    simp only [hn]
    rw [if_neg (by omega), if_neg (by omega), if_pos (by omega), Nat.add_sub_cancel_left,
      times?_encodeAll h]
    rfl
  · have hfit : vs.length < 256 ^ 2 := h2
    rw [List.cons_append, decodeWithin]
    simp [number?_bigEndian hfit, times?_encodeAll h]
  · have hfit : vs.length < 256 ^ 4 := hsize
    rw [List.cons_append, decodeWithin]
    simp [number?_bigEndian hfit, times?_encodeAll h]

/-- A map of one entry. -/
theorem readsAs_entry {k v k' v' : MessagePack} (hk : ReadsAs depth k k')
    (hv : ReadsAs depth v v') : ReadsAs (depth + 1) (.map [(k, v)]) (.map [(k', v')]) := by
  intro rest
  have hpair : pair? (decodeWithin depth) (k.encode ++ (v.encode ++ rest)) =
      some ((k', v'), rest) := by
    rw [pair?, hk]
    simp [hv rest]
  rw [encode, encodeEntries, encodeEntries, List.append_nil, List.append_assoc, List.append_assoc]
  have hhead : mapHead [(k, v)].length = [0x81] := rfl
  rw [hhead, List.singleton_append, decodeWithin]
  simp [times?, hpair]

end EntityWeaver.MessagePack
