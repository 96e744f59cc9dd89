import DynamicPrompt.Proofs.Choice.Count
import DynamicPrompt.Proofs.Numeral.Word

/-!
# Quantities that are read

A text states a quantity in one of four ways, and each of them gives the two bounds by a rule of its
own. The reader accepts exactly the texts that state a quantity. It takes the first hyphen for the
one that separates, which is no choice, because a numeral has none.

The bounds of a quantity that is read are in order, with one exception. A lower bound that is left out
is one, so an upper bound of zero without a lower bound lies below it. Two bounds are put in order,
a single number is both of them, and an open quantity has no upper bound to miss. A quantity whose
bounds are in order comes to a count between them, whatever the choices and the words are, and no
other quantity does.
-/

namespace DynamicPrompt.Quantity

/-- The quantity that a text without blanks around it states. Blanks may stand beside the hyphen. -/
inductive States : Text → Quantity → Prop
  | number {text : Text} {n : Nat} (numeral : Numeral.word? text = some n) :
    States text (exactly n)
  | upTo {high : Text} {most : Nat} (numeral : Numeral.word? (Text.trim high) = some most) :
    States ('-' :: high) ⟨1, some most⟩
  | atLeast {low : Text} {least : Nat} (numeral : Numeral.word? (Text.trim low) = some least) :
    States (low ++ ['-']) ⟨least, none⟩
  | between {low high : Text} {first second : Nat}
    (front : Numeral.word? (Text.trim low) = some first)
    (back : Numeral.word? (Text.trim high) = some second) :
    States (low ++ '-' :: high) ⟨min first second, some (max first second)⟩

section Reading

variable {text : Text} {quantity : Quantity}

/-- What is read is stated. -/
theorem states_of_ofText? (read : ofText? text = some quantity) :
    States (Text.trim text) quantity := by
  unfold ofText? at read
  dsimp only at read
  split at read
  · obtain ⟨n, numeral, rfl⟩ := Option.map_eq_some_iff.1 read
    exact .number numeral
  · next high cut =>
    obtain ⟨c, hyphen, parts⟩ := Text.cutAt?_append cut
    obtain ⟨most, numeral, same⟩ := Option.bind_eq_some_iff.1 read
    rw [← parts, eq_of_beq hyphen, ← Option.some.inj same]
    exact .upTo numeral
  · next low _ cut =>
    obtain ⟨c, hyphen, parts⟩ := Text.cutAt?_append cut
    obtain ⟨least, numeral, same⟩ := Option.bind_eq_some_iff.1 read
    rw [← parts, eq_of_beq hyphen, ← Option.some.inj same]
    exact .atLeast numeral
  · next low high _ _ cut =>
    obtain ⟨c, hyphen, parts⟩ := Text.cutAt?_append cut
    obtain ⟨first, front, later⟩ := Option.bind_eq_some_iff.1 read
    obtain ⟨second, back, same⟩ := Option.bind_eq_some_iff.1 later
    rw [← parts, eq_of_beq hyphen, ← Option.some.inj same]
    exact .between front back

/-- What is stated is read. -/
theorem ofText?_of_states (states : States (Text.trim text) quantity) :
    ofText? text = some quantity := by
  unfold ofText?
  dsimp only
  generalize Text.trim text = spec at states
  cases states with
  | number numeral =>
    rw [Text.cutAt?_lacking (Numeral.hyphen_not_mem numeral)]
    dsimp only
    rw [numeral]
    rfl
  | @upTo high _ numeral =>
    have cut : Text.cutAt? (· == '-') ('-' :: high) = some ([], high) := rfl
    rw [cut]
    dsimp only
    rw [numeral]
    rfl
  | @atLeast low _ numeral =>
    rw [Text.cutAt?_behind (Numeral.hyphen_not_mem_of_trim numeral)]
    obtain ⟨c, rest, rfl⟩ := List.exists_cons_of_ne_nil (Numeral.ne_nil_of_trim numeral)
    dsimp only
    rw [numeral]
    rfl
  | @between low high _ _ front back =>
    rw [Text.cutAt?_behind (Numeral.hyphen_not_mem_of_trim front)]
    obtain ⟨c, rest, rfl⟩ := List.exists_cons_of_ne_nil (Numeral.ne_nil_of_trim front)
    obtain ⟨d, others, rfl⟩ := List.exists_cons_of_ne_nil (Numeral.ne_nil_of_trim back)
    dsimp only
    rw [front, back]
    rfl

/-- A quantity is read exactly if the text, without the blanks around it, states it. -/
theorem ofText?_eq_some_iff : ofText? text = some quantity ↔ States (Text.trim text) quantity :=
  ⟨states_of_ofText?, ofText?_of_states⟩

end Reading

/-- The lower bound is no larger than the upper one, if there is one. -/
def IsOrdered (quantity : Quantity) : Prop := ∀ upper ∈ quantity.upper, quantity.lower ≤ upper

/-- The count lies between the bounds. -/
structure Admits (quantity : Quantity) (count : Nat) : Prop where
  lower_le : quantity.lower ≤ count
  le_upper : ∀ upper ∈ quantity.upper, count ≤ upper

section Counting

variable {quantity : Quantity}

/-- Bounds with a count between them are in order. -/
theorem Admits.isOrdered {count : Nat} (admits : quantity.Admits count) : quantity.IsOrdered :=
  fun upper stated => Nat.le_trans admits.lower_le (admits.le_upper upper stated)

/-- The largest count is the upper bound, unless the lower one is larger. -/
theorem most_of_mem {upper : Nat} (stated : upper ∈ quantity.upper) (available : Nat) :
    quantity.most available = max upper quantity.lower := by
  rw [most, Option.mem_def.1 stated]
  rfl

/-- The count lies between the bounds exactly if they are in order, whatever the choices and the
words are. -/
theorem admits_resolve_iff (available : Nat) (stream : Random.Stream) :
    quantity.Admits (quantity.resolve available stream).1 ↔ quantity.IsOrdered := by
  refine ⟨Admits.isOrdered, fun ordered => ?_⟩
  obtain ⟨least, largest⟩ := quantity.resolve_bounds available stream
  refine ⟨least, fun upper stated => ?_⟩
  rwa [most_of_mem stated, Nat.max_eq_left (ordered upper stated)] at largest

/-- An upper bound that is no larger than the lower one leaves one count, and no word is taken. -/
theorem resolve_of_le {upper : Nat} (stated : upper ∈ quantity.upper)
    (below : upper ≤ quantity.lower) (available : Nat) (stream : Random.Stream) :
    quantity.resolve available stream = (quantity.lower, stream) := by
  rw [resolve, if_pos]
  rw [most_of_mem stated, Nat.max_eq_right below]

end Counting

/-- An upper bound of zero without a lower bound. -/
def IsUpToZero (text : Text) : Prop :=
  ∃ high, Text.trim text = '-' :: high ∧ Numeral.word? (Text.trim high) = some 0

/-- A quantity that is stated has its bounds in order, unless the upper one is zero and the lower one
is left out. -/
theorem States.isOrdered_or {text : Text} {quantity : Quantity} (states : States text quantity) :
    quantity.IsOrdered ∨ quantity = ⟨1, some 0⟩ := by
  cases states with
  | number _ =>
    left
    rintro upper ⟨⟩
    exact Nat.le_refl _
  | @upTo _ most _ =>
    cases most with
    | zero => exact .inr rfl
    | succ most =>
      left
      rintro upper ⟨⟩
      exact Nat.le_add_left 1 most
  | atLeast _ =>
    left
    rintro upper ⟨⟩
  | @between _ _ first second _ _ =>
    left
    rintro upper ⟨⟩
    exact Nat.le_trans (Nat.min_le_left first second) (Nat.le_max_left first second)

/-- The bounds one and zero are stated by an upper bound of zero alone: a single number is both
bounds, and two bounds are put in order. -/
theorem States.exists_upTo_zero {text : Text} (states : States text ⟨1, some 0⟩) :
    ∃ high, text = '-' :: high ∧ Numeral.word? (Text.trim high) = some 0 := by
  generalize bounds : (⟨1, some 0⟩ : Quantity) = quantity at states
  cases states with
  | number _ =>
    injection bounds with one zero
    exact absurd (one.trans (Option.some.inj zero).symm) Nat.one_ne_zero
  | @upTo high _ numeral =>
    injection bounds with _ zero
    rw [← Option.some.inj zero] at numeral
    exact ⟨high, rfl, numeral⟩
  | atLeast _ =>
    injection bounds with _ zero
    exact absurd zero (Option.some_ne_none 0)
  | @between _ _ first second _ _ =>
    injection bounds with one zero
    have ordered : min first second ≤ max first second :=
      Nat.le_trans (Nat.min_le_left first second) (Nat.le_max_left first second)
    rw [← one, ← Option.some.inj zero] at ordered
    exact absurd ordered (by decide)

/-- The texts of an upper bound of zero alone are those that are read as these bounds. -/
theorem isUpToZero_iff {text : Text} : IsUpToZero text ↔ ofText? text = some ⟨1, some 0⟩ := by
  rw [ofText?_eq_some_iff, IsUpToZero]
  constructor
  · rintro ⟨high, whole, zero⟩
    rw [whole]
    exact .upTo zero
  · exact States.exists_upTo_zero

instance (text : Text) : Decidable (IsUpToZero text) := decidable_of_iff' _ isUpToZero_iff

/-- A quantity that is read has its bounds in order, and comes to a count between them for all choices
and all words, exactly if its text is not that of an upper bound of zero alone. The latter comes to
one, which is above its bound. -/
theorem ofText?_ordered_iff {text : Text} {quantity : Quantity}
    (read : ofText? text = some quantity) :
    (quantity.IsOrdered ↔ ¬ IsUpToZero text) ∧
      (∀ available stream,
        quantity.Admits (quantity.resolve available stream).1 ↔ ¬ IsUpToZero text) ∧
      (IsUpToZero text →
        ∀ available stream, quantity.resolve available stream = (1, stream)) := by
  have zero_eq (zero : IsUpToZero text) : quantity = ⟨1, some 0⟩ := by
    rw [isUpToZero_iff, read] at zero
    exact Option.some.inj zero
  have ordered_iff : quantity.IsOrdered ↔ ¬ IsUpToZero text := by
    constructor
    · intro ordered zero
      rw [zero_eq zero] at ordered
      exact absurd (ordered 0 rfl) (by decide)
    · intro other
      refine (states_of_ofText? read).isOrdered_or.resolve_right ?_
      rintro rfl
      exact other (isUpToZero_iff.2 read)
  refine ⟨ordered_iff, fun available stream => ?_, fun zero available stream => ?_⟩
  · rw [admits_resolve_iff, ordered_iff]
  · rw [zero_eq zero]
    exact resolve_of_le rfl (Nat.zero_le 1) available stream

/-- Two bounds in the wrong order, with a sign and blanks. -/
theorem ofText?_ordered_iff_swapped :
    ofText? " 7 - +3" = some ⟨3, some 7⟩ ∧ IsOrdered ⟨3, some 7⟩ ∧
      ∀ available stream, Admits ⟨3, some 7⟩ (resolve ⟨3, some 7⟩ available stream).1 := by
  have read : ofText? " 7 - +3" = some ⟨3, some 7⟩ := by decide
  have other : ¬ IsUpToZero " 7 - +3" := by decide
  obtain ⟨ordered, admits, -⟩ := ofText?_ordered_iff read
  exact ⟨read, ordered.2 other, fun available stream => (admits available stream).2 other⟩

/-- The bounds of an upper bound of zero alone are not in order, and the count exceeds it. With the
one written out they are put in order. -/
theorem ofText?_upToZero :
    ofText? "-0" = some ⟨1, some 0⟩ ∧ ¬ IsOrdered ⟨1, some 0⟩ ∧
      (resolve ⟨1, some 0⟩ 2 (Random.Stream.ofSeed #[] 0)).1 = 1 ∧
      ofText? "1-0" = some ⟨0, some 1⟩ := by
  refine ⟨by decide, fun ordered => ?_, by decide, by decide⟩
  exact absurd (ordered 0 rfl) (by decide)

end DynamicPrompt.Quantity
