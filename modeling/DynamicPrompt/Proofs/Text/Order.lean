import DynamicPrompt.Proofs.Text.Cut

/-!
# Ordered lists of texts

Texts are compared character by character by their code points, a text before its extensions. An
ordered list ascends strictly, so it holds no text twice, and two lists of the same texts are
ordered into one list.
-/

namespace DynamicPrompt.Text

/-- A text compares as smaller exactly if it is smaller in the lexicographic order. -/
theorem compare_eq_lt {left right : Text} : compare left right = .lt ↔ left < right := by
  rw [List.compare_eq_compareLex]
  induction left generalizing right with
  | nil =>
    cases right with
    | nil => simp [List.compareLex_nil_nil]
    | cons d right => simp [List.compareLex_nil_cons]
  | cons c left inductionHypothesis =>
    cases right with
    | nil => simp [List.compareLex_cons_nil]
    | cons d right =>
      have first : compare c d = .lt ↔ c < d := compareOfLessAndEq_eq_lt
      rw [List.compareLex_cons_cons, Ordering.then_eq_lt, List.cons_lt_cons_iff,
        inductionHypothesis, first, Std.LawfulEqOrd.compare_eq_iff_eq]

/-- The larger of two texts is the one to which the other compares as smaller. -/
theorem compare_eq_gt {left right : Text} : compare left right = .gt ↔ right < left := by
  rw [← compare_eq_lt]
  exact Std.OrientedCmp.gt_iff_lt

/-- A text put into its place leaves the list ascending. -/
theorem pairwise_insertOrdered {text : Text} {texts : List Text}
    (ascending : texts.Pairwise (· < ·)) : (insertOrdered text texts).Pairwise (· < ·) := by
  induction texts with
  | nil => exact List.pairwise_singleton _ _
  | cons first rest inductionHypothesis =>
    obtain ⟨smallest, later⟩ := List.pairwise_cons.1 ascending
    rw [insertOrdered]
    split
    · next less =>
      have below : text < first := compare_eq_lt.1 less
      refine List.pairwise_cons.2 ⟨?_, ascending⟩
      rintro other (_ | ⟨_, member⟩)
      · exact below
      · exact List.lt_trans below (smallest other member)
    · exact ascending
    · next greater =>
      have below : first < text := compare_eq_gt.1 greater
      refine List.pairwise_cons.2 ⟨?_, inductionHypothesis later⟩
      intro other member
      rcases mem_insertOrdered.1 member with rfl | among
      · exact below
      · exact smallest other among

/-- Ordering yields a strictly ascending list. -/
theorem pairwise_ordered (texts : List Text) : (ordered texts).Pairwise (· < ·) := by
  induction texts with
  | nil => exact List.Pairwise.nil
  | cons first rest inductionHypothesis => exact pairwise_insertOrdered inductionHypothesis

end DynamicPrompt.Text
