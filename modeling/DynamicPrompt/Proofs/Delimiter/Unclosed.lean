import DynamicPrompt.Delimiter
import Mathlib.Data.List.Infix

/-!
# Openers without a closer

The search for the closer of an opener gives up exactly if there is nothing to find. Whether
there is can be told without searching: a closer balances the opener where the closers first
outnumber the openers, escaped characters not counted. So a text holds a balancing closer if and
only if some beginning of it has more closers than openers.
-/

namespace DynamicPrompt

/-- How often a character stands unescaped in a text, given whether the first character of the
text is escaped. -/
def unescapedCount (c : Char) (escaped : Bool) : Text → Nat
  | [] => 0
  | d :: rest => (if d = c ∧ escaped = false then 1 else 0) + unescapedCount c (escapes escaped d) rest

/-- The text after an opener holds the closer that balances it. -/
def HasCloser (opener closer : Char) (rest : Text) : Prop :=
  ∃ inner ∈ rest.inits, unescapedCount opener false inner < unescapedCount closer false inner

instance (opener closer : Char) (rest : Text) : Decidable (HasCloser opener closer rest) :=
  inferInstanceAs (Decidable (∃ inner ∈ rest.inits, _))

/-- What holds of every beginning of a text holds of the empty one and of those with its first
character. -/
theorem forall_prefix_cons {holds : Text → Prop} {c : Char} {rest : Text} :
    (∀ inner, inner <+: c :: rest → holds inner) ↔
      holds [] ∧ ∀ inner, inner <+: rest → holds (c :: inner) := by
  constructor
  · intro each
    refine ⟨each [] List.nil_prefix, fun inner begins => ?_⟩
    exact each (c :: inner) (List.cons_prefix_cons.2 ⟨rfl, begins⟩)
  · rintro ⟨first, others⟩ inner begins
    rcases List.prefix_cons_iff.1 begins with rfl | ⟨rest', rfl, begins'⟩
    · exact first
    · exact others rest' begins'

/-- The search finds nothing exactly if no beginning of the text has closers enough for the
openers in it and for those open before it. -/
theorem closing?_eq_none_iff {opener closer : Char} (distinct : opener ≠ closer) {depth : Nat}
    {escaped : Bool} {text : Text} :
    closing? opener closer depth escaped text = none ↔
      ∀ inner, inner <+: text →
        unescapedCount closer escaped inner ≤ depth + unescapedCount opener escaped inner := by
  induction text generalizing depth escaped with
  | nil => simp [closing?, unescapedCount]
  | cons c rest inductionHypothesis =>
    rw [forall_prefix_cons, closing?.eq_def]
    simp only [unescapedCount]
    cases escaped with
    | true => simp [inductionHypothesis]
    | false =>
      by_cases closes : c = closer
      · subst closes
        cases depth with
        | zero =>
          -- the closer alone is a beginning with more closers than openers
          have excess : ¬ ∀ inner, inner <+: rest →
              1 + unescapedCount c (escapes false c) inner ≤
                unescapedCount opener (escapes false c) inner := by
            intro each
            have alone := each [] List.nil_prefix
            simp [unescapedCount] at alone
          simpa [Ne.symm distinct] using excess
        | succ outer =>
          have moved (closers openers : Nat) :
              1 + closers ≤ outer + 1 + openers ↔ closers ≤ outer + openers := by omega
          simp [inductionHypothesis, Ne.symm distinct, moved]
      · by_cases opens : c = opener
        · subst opens
          have moved (closers openers : Nat) :
              closers ≤ depth + 1 + openers ↔ closers ≤ depth + (1 + openers) := by omega
          simp [inductionHypothesis, closes, moved]
        · simp [inductionHypothesis, closes, opens]

/-- An opener encloses nothing exactly if the text after it holds no balancing closer. -/
theorem enclosed?_eq_none_iff {opener closer : Char} (distinct : opener ≠ closer) {rest : Text} :
    enclosed? opener closer rest = none ↔ ¬ HasCloser opener closer rest := by
  rw [enclosed?, closing?_eq_none_iff distinct, HasCloser]
  simp

end DynamicPrompt
