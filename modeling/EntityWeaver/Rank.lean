/-! Ranks: the order in which components take their turns.

    A turn has a priority, and among equal priorities the name of the component decides. Methods of
    one signature, what they contribute and what is spliced into them all go by rank. -/

namespace EntityWeaver

/-- A place in the order by priority, then by component. -/
structure Rank where
  priority : Int32
  component : String
  deriving Repr, DecidableEq

namespace Rank

/-- Not behind the other. -/
def le (a b : Rank) : Bool :=
  if a.priority = b.priority then a.component ≤ b.component else a.priority ≤ b.priority

/-- Ahead of the other. -/
def Before (a b : Rank) : Prop :=
  a.priority < b.priority ∨ a.priority = b.priority ∧ a.component < b.component

instance (a b : Rank) : Decidable (a.Before b) :=
  inferInstanceAs (Decidable (a.priority < b.priority ∨
    a.priority = b.priority ∧ a.component < b.component))

theorem le_total (a b : Rank) : (a.le b || b.le a) = true := by
  by_cases h : a.priority = b.priority
  · simpa [le, h] using String.le_total a.component b.component
  · simpa [le, h, Ne.symm h] using Int32.le_total a.priority b.priority

theorem le_trans (a b c : Rank) (hab : a.le b = true) (hbc : b.le c = true) : a.le c = true := by
  obtain ⟨p, _⟩ := a
  obtain ⟨q, _⟩ := b
  obtain ⟨r, _⟩ := c
  by_cases hp : p = q
  · subst hp
    by_cases hq : p = r
    · simp only [le, hq, if_true, decide_eq_true_eq] at hab hbc ⊢
      exact String.le_trans hab hbc
    · simpa [le, hq] using hbc
  · by_cases hq : q = r
    · subst hq
      simpa [le, hp] using hab
    · simp only [le, hp, hq, if_false, decide_eq_true_eq] at hab hbc ⊢
      have hr : p ≠ r := fun h => hp (Int32.le_antisymm hab (h ▸ hbc))
      simpa [hr] using Int32.le_trans hab hbc

/-- Of two ranks that are not behind each other neither is ahead. -/
theorem le_antisymm {a b : Rank} (hab : a.le b = true) (hba : b.le a = true) : a = b := by
  obtain ⟨p, m⟩ := a
  obtain ⟨q, n⟩ := b
  by_cases h : p = q
  · simp only [le, h, if_true, decide_eq_true_eq] at hab hba
    rw [h, String.le_antisymm hab hba]
  · simp only [le, h, Ne.symm h, if_false, decide_eq_true_eq] at hab hba
    exact absurd (Int32.le_antisymm hab hba) h

/-- Ahead of the other, or level with it. -/
theorem le_iff {a b : Rank} : a.le b = true ↔
    a.priority < b.priority ∨ a.priority = b.priority ∧ a.component ≤ b.component := by
  unfold le
  split
  next heq => simp [heq, Int32.lt_irrefl]
  next hne =>
    rw [decide_eq_true_iff]
    exact ⟨fun hle => .inl (Int32.lt_of_le_of_ne hle hne),
      fun h => h.elim Int32.le_of_lt fun h => absurd h.1 hne⟩

theorem le_of_before {a b : Rank} (h : a.Before b) : a.le b = true :=
  le_iff.2 (h.imp_right (And.imp_right fun hlt => String.not_lt.1 (String.lt_asymm hlt)))

/-- Of two different ranks the one that is not behind is ahead. -/
theorem before_of_le {a b : Rank} (h : a.le b = true) (hne : a ≠ b) : a.Before b := by
  obtain ⟨p, m⟩ := a
  obtain ⟨q, n⟩ := b
  by_cases hp : p = q
  · simp only [le, hp, if_true, decide_eq_true_eq] at h
    refine .inr ⟨hp, String.not_le.1 fun hn => hne ?_⟩
    rw [hp, String.le_antisymm h hn]
  · simp only [le, hp, if_false, decide_eq_true_eq] at h
    exact .inl (Int32.lt_of_le_of_ne h hp)

end Rank

end EntityWeaver
