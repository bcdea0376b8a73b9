import EntityWeaver.TypeName
import Mathlib.Data.List.TakeWhile

/-! What shows of a text: its characters without the blanks.

    Trimming a text and bringing a type into its normal form take blanks away and put spaces in, so both
    keep what shows. The normal form of a type depends on nothing else. -/

namespace EntityWeaver

namespace Text

/-- What shows of a text. -/
def visible (s : List Char) : List Char := s.filter fun c => !isBlank c

theorem visible_append (s t : List Char) : visible (s ++ t) = visible s ++ visible t :=
  List.filter_append ..

theorem visible_eq_nil_iff {s : List Char} : visible s = [] ↔ ∀ c ∈ s, isBlank c = true := by
  simp [visible]

theorem visible_ne_nil_iff {s : List Char} : visible s ≠ [] ↔ ∃ c ∈ s, isBlank c = false := by
  simp [visible]

/-- Trimming at the end takes blanks from there, and nothing else. -/
theorem exists_trimEnd (s : List Char) : ∃ back, s = trimEnd s ++ back ∧ ∀ c ∈ back, isBlank c = true := by
  refine ⟨(s.reverse.takeWhile isBlank).reverse, ?_, fun c hc => ?_⟩
  · rw [trimEnd, ← List.reverse_append, List.takeWhile_append_dropWhile, List.reverse_reverse]
  · exact List.mem_takeWhile_imp (List.mem_reverse.1 hc)

/-- Trimming takes blanks from both ends, and nothing else. -/
theorem exists_trim (s : List Char) : ∃ front back, s = front ++ trim s ++ back ∧
    visible front = [] ∧ visible back = [] := by
  obtain ⟨back, hend, hback⟩ := exists_trimEnd (trimStart s)
  refine ⟨s.takeWhile isBlank, back, ?_, ?_, visible_eq_nil_iff.2 hback⟩
  · rw [List.append_assoc, trim, ← hend, trimStart, List.takeWhile_append_dropWhile]
  · exact visible_eq_nil_iff.2 fun _ hc => List.mem_takeWhile_imp hc

/-- Trimming keeps what shows. -/
@[simp] theorem visible_trim (s : List Char) : visible (trim s) = visible s := by
  obtain ⟨front, back, hs, hfront, hback⟩ := exists_trim s
  have hsplit := congrArg visible hs
  rw [visible_append, visible_append, hfront, hback, List.append_nil, List.nil_append] at hsplit
  exact hsplit.symm

/-- Nothing is left of a text just when nothing shows of it. -/
theorem trim_eq_nil_iff {s : List Char} : trim s = [] ↔ visible s = [] := by
  constructor
  · intro h
    rw [← visible_trim, h]
    rfl
  · intro h
    have hstart : trimStart s = [] := List.dropWhile_eq_nil_iff.2 (visible_eq_nil_iff.1 h)
    rw [trim, hstart, trimEnd_nil]

/-- A text with something that shows at either end is trimmed. -/
theorem trim_eq_self {s : List Char} (hhead : s.head?.all (!isBlank ·) = true)
    (hlast : s.getLast?.all (!isBlank ·) = true) : trim s = s := by
  have hkept : ∀ t : List Char, t.head?.all (!isBlank ·) = true → t.dropWhile isBlank = t := by
    intro t ht
    cases t with
    | nil => rfl
    | cons c rest => exact List.dropWhile_cons_of_neg (by simpa using ht)
  rw [trim, trimStart, hkept s hhead, trimEnd, hkept, List.reverse_reverse]
  rwa [List.head?_reverse]

end Text

/-- The normal form of a type goes by what shows of the type. -/
theorem normalType_congr {a b : String} (h : Text.visible a.toList = Text.visible b.toList) :
    normalType a = normalType b := by
  have hnormal : ∀ type : String, normalType type =
      String.ofList (Text.replace [','] [',', ' '] (Text.visible type.toList)) := fun _ => rfl
  rw [hnormal, hnormal, h]

/-- A type in normal form shows the same. -/
@[simp] theorem visible_normalType (type : String) :
    Text.visible (normalType type).toList = Text.visible type.toList := by
  rw [normalType, String.toList_ofList, Text.visible, filter_not_isBlank_replace_comma,
    List.filter_filter]
  simp only [Bool.and_self]
  rfl

end EntityWeaver
