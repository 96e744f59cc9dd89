import DynamicPrompt.Proofs.Delimiter.Balanced
import Mathlib.Algebra.Ring.Parity
import Mathlib.Order.Interval.Finset.Nat

/-!
# Closers by their places

The search for a closer runs forward and carries along how many brackets are open and whether the
next character is escaped. What it finds can be told by places alone. A character is escaped if an
odd run of backslashes stands directly before it, and a closer balances an opener if, between the
two, as many closers as openers stand unescaped. The search finds the first closer that balances the
opener, and nothing exactly if there is none.

The run of backslashes may reach back to the opener and beyond it: at its start the search is told
what the text before it escapes.
-/

namespace DynamicPrompt

/-- An odd run of backslashes stands directly before a place. -/
def IsEscapedAt (text : Text) (place : Nat) : Prop :=
  Odd (Text.takeEndWhile (· == '\\') (text.take place)).length

instance (text : Text) : DecidablePred (IsEscapedAt text) := fun place =>
  inferInstanceAs (Decidable (Odd (Text.takeEndWhile (· == '\\') (text.take place)).length))

/-- The parity that readers carry along is that of the run of backslashes that they have just
passed. -/
theorem isEscapedAfter_iff {before : Text} :
    isEscapedAfter before = true ↔ Odd (Text.takeEndWhile (· == '\\') before).length := by
  induction before using List.reverseRecOn with
  | nil => decide
  | append_singleton before c inductionHypothesis =>
    have step : isEscapedAfter (before ++ [c]) = escapes (isEscapedAfter before) c := by
      rw [isEscapedAfter, List.foldl_append, isEscapedAfter, List.foldl_cons, List.foldl_nil]
    rw [step]
    by_cases backslash : c = '\\'
    · subst backslash
      have longer : (Text.takeEndWhile (· == '\\') (before ++ ['\\'])).length =
          (Text.takeEndWhile (· == '\\') before).length + 1 := by
        simp [Text.takeEndWhile]
      rw [longer, Nat.odd_add_one, ← inductionHypothesis]
      simp [escapes]
    · have ended : Text.takeEndWhile (· == '\\') (before ++ [c]) = [] := by
        simp [Text.takeEndWhile, backslash]
      rw [ended]
      simp [escapes, backslash]

/-- The parity carried along the text before a place tells whether the place is escaped. -/
theorem isEscapedAt_iff {text : Text} {place : Nat} :
    IsEscapedAt text place ↔ isEscapedAfter (text.take place) = true := isEscapedAfter_iff.symm

section Counting

variable {text : Text} {c : Char}

/-- The places between two places where a character stands unescaped. -/
def unescapedBetween (text : Text) (c : Char) (left right : Nat) : Finset Nat :=
  (Finset.Ioo left right).filter fun place => text[place]? = some c ∧ ¬ IsEscapedAt text place

/-- Every place behind the first adds itself, if the character stands there unescaped. -/
theorem card_unescapedBetween_succ {left right : Nat} (behind : left < right) :
    (unescapedBetween text c left (right + 1)).card =
      (unescapedBetween text c left right).card +
        if text[right]? = some c ∧ ¬ IsEscapedAt text right then 1 else 0 := by
  have range : Finset.Ioo left (right + 1) = insert right (Finset.Ioo left right) := by
    ext place
    simp only [Finset.mem_Ioo, Finset.mem_insert]
    omega
  rw [unescapedBetween, range, Finset.filter_insert]
  split
  · rw [Finset.card_insert_of_notMem (by simp)]
    rfl
  · rfl

/-- Counting along a text counts the places where the character stands unescaped. -/
theorem unescapedCount_between (left count : Nat) :
    unescapedCount c (isEscapedAfter (text.take (left + 1)))
        ((text.drop (left + 1)).take count) =
      (unescapedBetween text c left (left + 1 + count)).card := by
  induction count with
  | zero =>
    have empty : Finset.Ioo left (left + 1) = ∅ := by
      apply Finset.eq_empty_of_forall_notMem
      intro place member
      have inside := Finset.mem_Ioo.1 member
      omega
    simp [unescapedCount, unescapedBetween, empty]
  | succ count inductionHypothesis =>
    have reached : ((text.drop (left + 1)).take count).foldl escapes
        (isEscapedAfter (text.take (left + 1))) =
          isEscapedAfter (text.take (left + 1 + count)) := by
      rw [isEscapedAfter, ← List.foldl_append, ← List.take_add, isEscapedAfter]
    have single (escaped : Bool) (next : Option Char) : unescapedCount c escaped next.toList =
        if next = some c ∧ ¬ escaped = true then 1 else 0 := by
      cases next <;> simp [unescapedCount]
    rw [List.take_add_one (l := text.drop (left + 1)), unescapedCount_append, inductionHypothesis,
      reached, List.getElem?_drop, single, ← Nat.add_assoc, card_unescapedBetween_succ (by omega)]
    simp only [isEscapedAt_iff]

end Counting

section Searching

variable {opener closer : Char} {text : Text} {left right : Nat}

/-- A closer stands unescaped at a later place, and between the two places as many closers as
openers stand unescaped. -/
structure ClosesAt (opener closer : Char) (text : Text) (left right : Nat) : Prop where
  later : left < right
  here : text[right]? = some closer
  unescaped : ¬ IsEscapedAt text right
  even : (unescapedBetween text closer left right).card =
    (unescapedBetween text opener left right).card

/-- Up to the closer that it finds, the search has never passed more closers than openers. -/
theorem findMatchingClose_along (distinct : opener ≠ closer)
    (found : findMatchingClose text left opener closer = some right) :
    ClosesAt opener closer text left right ∧
      ∀ place, left < place → place ≤ right →
        (unescapedBetween text closer left place).card ≤
          (unescapedBetween text opener left place).card := by
  obtain ⟨⟨inner, after⟩, searched, reached⟩ := Option.map_eq_some_iff.1 found
  obtain ⟨whole, unescaped, closes⟩ := (closing?_eq_some_iff distinct).1 searched
  have between : (text.drop (left + 1)).take inner.length = inner := by
    rw [whole, List.take_left]
  have before : text.take right = text.take (left + 1) ++ inner := by
    rw [← reached, List.take_add, between]
  have counted (c : Char) (count : Nat) (within : count ≤ inner.length) :
      unescapedCount c (isEscapedAfter (text.take (left + 1))) (inner.take count) =
        (unescapedBetween text c left (left + 1 + count)).card := by
    rw [← unescapedCount_between, ← between, List.take_take, Nat.min_eq_left within]
  refine ⟨⟨by omega, ?_, ?_, ?_⟩, ?_⟩
  · rw [← reached, ← List.getElem?_drop, whole]
    simp
  · rw [isEscapedAt_iff, before, isEscapedAfter, List.foldl_append]
    exact Bool.eq_false_iff.1 unescaped
  · have same := closes.whole
    rw [← List.take_length (l := inner), counted closer _ le_rfl, counted opener _ le_rfl,
      Nat.zero_add] at same
    rwa [← reached]
  · intro place behind upTo
    have within : place - (left + 1) ≤ inner.length := by
      rw [← reached] at upTo
      dsimp only at upTo
      omega
    have along := closes.along (inner.take (place - (left + 1))) (List.take_prefix _ _)
    rw [counted closer _ within, counted opener _ within, Nat.zero_add] at along
    have same : left + 1 + (place - (left + 1)) = place := by omega
    rwa [same] at along

/-- Behind a closer that balances, there are more closers than openers. -/
theorem ClosesAt.excess (distinct : opener ≠ closer)
    (closes : ClosesAt opener closer text left right) :
    (unescapedBetween text opener left (right + 1)).card <
      (unescapedBetween text closer left (right + 1)).card := by
  have noOpener : ¬ (text[right]? = some opener ∧ ¬ IsEscapedAt text right) := by
    rintro ⟨here, -⟩
    exact distinct (Option.some.inj (here.symm.trans closes.here))
  rw [card_unescapedBetween_succ closes.later, card_unescapedBetween_succ closes.later,
    if_neg noOpener, if_pos ⟨closes.here, closes.unescaped⟩, closes.even]
  omega

/-- Where the search finds nothing, no closer balances. -/
theorem not_closesAt (distinct : opener ≠ closer)
    (missed : findMatchingClose text left opener closer = none) :
    ¬ ClosesAt opener closer text left right := by
  intro closes
  have along := (closing?_eq_none_iff distinct).1 (Option.map_eq_none_iff.1 missed)
    ((text.drop (left + 1)).take (right - left)) (List.take_prefix _ _)
  have later := closes.later
  have same : left + 1 + (right - left) = right + 1 := by omega
  rw [unescapedCount_between, unescapedCount_between, same, Nat.zero_add] at along
  exact absurd along (Nat.not_le.2 (closes.excess distinct))

/-- The search finds the least place at which a closer balances the opener, and nothing exactly if
there is no such place. Up to the place that it finds, no place has more closers than openers before
it: the text between is balanced, and nothing closes the opener earlier.

Positions are places in the text that is searched. If the search runs over the bytes of a text, each
taken as a character, they are places of bytes; `findMatchingClose_octets` says which. -/
theorem findMatchingClose_exact (distinct : opener ≠ closer) (text : Text) (left : Nat) :
    (∀ right, findMatchingClose text left opener closer = some right ↔
      IsLeast {place | ClosesAt opener closer text left place} right) ∧
    (findMatchingClose text left opener closer = none ↔
      ∀ place, ¬ ClosesAt opener closer text left place) ∧
    ∀ right, findMatchingClose text left opener closer = some right →
      ∀ place, left < place → place ≤ right →
        (unescapedBetween text closer left place).card ≤
          (unescapedBetween text opener left place).card := by
  have least {right : Nat} (found : findMatchingClose text left opener closer = some right) :
      IsLeast {place | ClosesAt opener closer text left place} right := by
    obtain ⟨closes, along⟩ := findMatchingClose_along distinct found
    refine ⟨closes, fun place earlier => ?_⟩
    -- Directly behind an earlier closer that balances, the openers would be outnumbered.
    by_contra before
    exact absurd (along (place + 1) (Nat.lt_succ_of_lt earlier.later) (Nat.not_le.1 before))
      (Nat.not_le.2 (earlier.excess distinct))
  refine ⟨fun right => ⟨least, fun first => ?_⟩, ⟨fun missed place => ?_, fun none => ?_⟩, ?_⟩
  · cases found : findMatchingClose text left opener closer with
    | none => exact absurd first.1 (not_closesAt distinct found)
    | some other => rw [(least found).unique first]
  · exact not_closesAt distinct missed
  · cases found : findMatchingClose text left opener closer with
    | none => rfl
    | some other => exact absurd (least found).1 (none other)
  · exact fun right found => (findMatchingClose_along distinct found).2

/-- The closers that are escaped, or that close an inner opener, are passed. -/
theorem findMatchingClose_exact_escaped :
    '[' ≠ ']' ∧ findMatchingClose "x[a\\][b]c]]" 1 '[' ']' = some 9 ∧
    IsLeast {place | ClosesAt '[' ']' "x[a\\][b]c]]" 1 place} 9 := by
  have distinct : '[' ≠ ']' := by decide
  have found : findMatchingClose "x[a\\][b]c]]" 1 '[' ']' = some 9 := by decide
  exact ⟨distinct, found, ((findMatchingClose_exact distinct "x[a\\][b]c]]" 1).1 9).1 found⟩

end Searching

end DynamicPrompt
