import DynamicPrompt.Numeral.Decimal
import DynamicPrompt.Proofs.Numeral.Word
import DynamicPrompt.Proofs.Text.Lowercase

/-!
# The characters of numbers

Whatever a number is, its text has few characters: digits, a point, a hyphen, and the letters of the
doubles that are no numbers. None of them has a meaning in a line of source syntax. A text that is read
as a number has more of them, in exponents and other spellings, but letters, digits, points and signs
are all there is.
-/

namespace DynamicPrompt.Numeral

/-- The characters of printed numbers. -/
def signs : Text := "0123456789.-infNa"

/-- Within ASCII the digits are among them. -/
theorem mem_signs_ascii : ∀ code < 0x80, (Char.ofNat code).isDigit = true →
    Char.ofNat code ∈ signs := by
  decide +kernel

/-- A run of digits is made of them. -/
theorem subset_signs_of_isDigit {digits : Text} (run : ∀ c ∈ digits, c.isDigit = true) :
    digits ⊆ signs := by
  intro c member
  have digit := run c member
  have bounds : c.toNat < 0x80 := by
    simp only [Char.isDigit, Bool.and_eq_true, decide_eq_true_eq] at digit
    exact Nat.lt_of_le_of_lt (UInt32.le_iff_toNat_le.1 digit.2) (by decide)
  have known := mem_signs_ascii c.toNat bounds
  rw [Char.ofNat_toNat] at known
  exact known digit

/-- The digits of a natural number. -/
theorem ofNat_subset (n : Nat) : Text.ofNat n ⊆ signs :=
  subset_signs_of_isDigit (isDigit_of_mem (isDigits_ofNat n))

/-- A run of zeros before digits. -/
theorem padded_subset (places n : Nat) :
    List.replicate (places + 1 - (Text.ofNat n).length) '0' ++ Text.ofNat n ⊆ signs := by
  refine List.append_subset.2 ⟨fun c member => ?_, ofNat_subset n⟩
  rw [List.eq_of_mem_replicate member]
  decide

/-- Positional notation. -/
theorem positional_subset (d : Decimal) : positional d ⊆ signs := by
  unfold positional
  split
  · exact ofNat_subset _
  · have padded := padded_subset (-d.exponent).toNat d.digits
    have whole (length : Nat) := List.Subset.trans (List.take_subset length _) padded
    have fraction (length : Nat) := List.Subset.trans (List.drop_subset length _) padded
    dsimp only
    split
    · exact whole _
    · refine List.append_subset.2 ⟨whole _, List.cons_subset.2 ⟨by decide, ?_⟩⟩
      exact List.Subset.trans (Text.dropEndWhile_isPrefix _ _).subset (fraction _)

/-- The text of a double. -/
theorem ofFloat_subset (x : Float) : ofFloat x ⊆ signs := by
  unfold ofFloat
  split
  · split
    · decide
    · split
      · decide
      · decide
  · next b _ =>
    have magnitude : (if b.significand == 0 then ['0'] else
        positional (shortest b.significand b.exponent)) ⊆ signs := by
      split
      · decide
      · exact positional_subset _
    dsimp only
    split
    · exact List.cons_subset.2 ⟨by decide, magnitude⟩
    · exact magnitude

/-- The text of a rounded double. -/
theorem toPlaces_subset (places : Nat) (x : Float) : toPlaces places x ⊆ signs := by
  unfold toPlaces
  split
  · exact ofFloat_subset x
  · next b _ =>
    split
    next numerator denominator _ =>
    have padded := padded_subset places (roundHalfEven (numerator * Nat.pow 10 places) denominator)
    have rounded (length : Nat) := List.append_subset.2
      ⟨List.Subset.trans (List.take_subset length _) padded,
        List.cons_subset.2 ⟨show '.' ∈ signs by decide,
          List.Subset.trans (List.drop_subset length _) padded⟩⟩
    dsimp only
    split
    · exact List.cons_subset.2 ⟨by decide, rounded _⟩
    · exact rounded _

section Reading

variable {mark : Char} (other : mark.isAlphanum = false) (unsigned : mark ∉ "+-.".toList)

include other

/-- What is no letter and no digit does not stand among digits. -/
theorem not_mem_of_isDigits {digits : Text} (run : ∀ c ∈ digits, c.isDigit = true) :
    mark ∉ digits := by
  intro member
  rw [Char.isAlphanum, run mark member, Bool.or_true] at other
  exact absurd other.symm Bool.false_ne_true

include unsigned

/-- An exponent consists of digits and a sign. -/
theorem not_mem_of_exponent? {text : Text} {exponent : Int} (read : exponent? text = some exponent) :
    mark ∉ text := by
  have digits {digits : Text} (run : isDigits digits = true) : mark ∉ digits :=
    not_mem_of_isDigits other (isDigit_of_mem run)
  unfold exponent? at read
  split at read
  next negative rest parts =>
  rw [Option.ite_none_right_eq_some] at read
  have last := digits read.1
  split at parts
  · obtain ⟨_, rfl⟩ := Prod.mk.inj parts
    rw [List.mem_cons, not_or]
    exact ⟨fun same => unsigned (same ▸ by decide), last⟩
  · obtain ⟨_, rfl⟩ := Prod.mk.inj parts
    rw [List.mem_cons, not_or]
    exact ⟨fun same => unsigned (same ▸ by decide), last⟩
  · obtain ⟨_, rfl⟩ := Prod.mk.inj parts
    exact last

/-- A magnitude consists of digits, a point and an exponent. -/
theorem not_mem_of_magnitude? {text : Text} {value : Float} (read : magnitude? text = some value) :
    mark ∉ text := by
  have digits {digits : Text} (run : digits.all Char.isDigit = true) : mark ∉ digits :=
    not_mem_of_isDigits other (List.all_eq_true.1 run)
  unfold magnitude? at read
  split at read
  next mantissa exponent parts =>
  dsimp only at read
  rw [Option.ite_none_right_eq_some] at read
  obtain ⟨plain, exponential⟩ := read
  simp only [Bool.and_eq_true] at plain
  have significand : mark ∉ mantissa := by
    cases cut : Text.cutAt? (· == '.') mantissa with
    | none =>
      rw [cut] at plain
      exact digits plain.1.1
    | some halves =>
      rw [cut] at plain
      obtain ⟨point, passes, rfl⟩ := Text.cutAt?_append cut
      obtain rfl : point = '.' := beq_iff_eq.1 passes
      rw [List.mem_append, List.mem_cons, not_or, not_or]
      exact ⟨digits plain.1.1, fun same => unsigned (same ▸ by decide), digits plain.1.2⟩
  split at parts
  · next before after cut =>
    obtain ⟨rfl, rfl⟩ := Prod.mk.inj parts
    obtain ⟨letter, passes, rfl⟩ := Text.cutAt?_append cut
    obtain ⟨power, reads, _⟩ := Option.map_eq_some_iff.1 exponential
    rw [List.mem_append, List.mem_cons, not_or, not_or]
    refine ⟨significand, ?_, not_mem_of_exponent? other unsigned reads⟩
    rintro rfl
    simp only [Bool.or_eq_true, beq_iff_eq] at passes
    rcases passes with rfl | rfl
    · exact absurd other (by decide)
    · exact absurd other (by decide)
  · obtain ⟨rfl, rfl⟩ := Prod.mk.inj parts
    exact significand

/-- A double that is read consists of letters, digits, points and signs. -/
theorem not_mem_of_float? {text : Text} {value : Float} (read : float? text = some value) :
    mark ∉ text := by
  -- The names of special values are read in any case, which other characters do not have.
  have unnamed {rest name : Text} (same : (rest.map Char.toLower == name) = true)
      (letters : ∀ c ∈ name, c.isAlphanum = true) : mark ∉ rest := by
    intro member
    have small : mark.toLower = mark := by
      unfold Char.isAlphanum Char.isAlpha at other
      rw [Bool.or_eq_false_iff, Bool.or_eq_false_iff] at other
      exact toLower_of_not_isUpper (by rw [other.1.1]; exact Bool.false_ne_true)
    have within : mark ∈ name := by
      rw [← beq_iff_eq.1 same, ← small]
      exact List.mem_map_of_mem member
    rw [letters mark within] at other
    exact absurd other.symm Bool.false_ne_true
  unfold float? at read
  split at read
  next negative rest parts =>
  dsimp only at read
  obtain ⟨value, reads, _⟩ := Option.map_eq_some_iff.1 read
  have last : mark ∉ rest := by
    split at reads
    · next named =>
      rw [Bool.or_eq_true] at named
      exact named.elim (unnamed · (by decide)) (unnamed · (by decide))
    · split at reads
      · next named => exact unnamed named (by decide)
      · exact not_mem_of_magnitude? other unsigned reads
  split at parts
  · obtain ⟨_, rfl⟩ := Prod.mk.inj parts
    rw [List.mem_cons, not_or]
    exact ⟨fun same => unsigned (same ▸ by decide), last⟩
  · obtain ⟨_, rfl⟩ := Prod.mk.inj parts
    rw [List.mem_cons, not_or]
    exact ⟨fun same => unsigned (same ▸ by decide), last⟩
  · obtain ⟨_, rfl⟩ := Prod.mk.inj parts
    exact last

end Reading

end DynamicPrompt.Numeral
