import DynamicPrompt.Quantity

/-!
# Counts lie within their bounds

A number drawn from a range lies in it, whatever the words are: the upper half of the product of a
word and the number of values is smaller than that number, and after the last rejected word the
first value counts. A quantity therefore comes to no less than its lower bound, and to no more than
the largest count for the choices available. That count grows with their number.
-/

namespace DynamicPrompt

namespace Random.Stream

/-- A value drawn below a number is smaller than it. -/
theorem belowFrom_lt {count : Nat} (positive : 0 < count) (attempts : Nat) (stream : Stream) :
    (belowFrom count attempts stream).1 < count := by
  induction attempts generalizing stream with
  | zero => exact positive
  | succ attempts inductionHypothesis =>
    rw [belowFrom]
    split
    next word rest _ =>
    dsimp only
    split
    · apply Nat.div_lt_of_lt_mul
      exact Nat.mul_lt_mul_of_pos_right word.toNat_lt_size positive
    · exact inductionHypothesis rest

/-- A number drawn from a range lies in it. -/
theorem within_bounds {low high : Nat} (ordered : low ≤ high) (stream : Stream) :
    low ≤ (stream.within low high).1 ∧ (stream.within low high).1 ≤ high := by
  have offset : (belowFrom (high - low + 1) UInt64.size stream).1 < high - low + 1 :=
    belowFrom_lt (Nat.succ_pos _) UInt64.size stream
  rw [within]
  constructor
  · exact Nat.le_add_right low _
  · dsimp only
    omega

end Random.Stream

namespace Quantity

/-- The largest count is no less than the lower bound. -/
theorem lower_le_most (quantity : Quantity) (available : Nat) :
    quantity.lower ≤ quantity.most available :=
  Nat.le_max_right _ _

/-- With more choices available the largest count is no less. -/
theorem most_mono (quantity : Quantity) {fewer more : Nat} (grows : fewer ≤ more) :
    quantity.most fewer ≤ quantity.most more := by
  rw [most, most]
  cases quantity.upper with
  | none =>
    simp only [Option.getD_none]
    omega
  | some upper => exact Nat.le_refl _

/-- A quantity comes to a count between its lower bound and the largest count. -/
theorem resolve_bounds (quantity : Quantity) (available : Nat) (stream : Random.Stream) :
    quantity.lower ≤ (quantity.resolve available stream).1 ∧
      (quantity.resolve available stream).1 ≤ quantity.most available := by
  have ordered := quantity.lower_le_most available
  rw [resolve]
  split
  · exact ⟨Nat.le_refl _, ordered⟩
  · exact stream.within_bounds ordered

end Quantity

end DynamicPrompt
