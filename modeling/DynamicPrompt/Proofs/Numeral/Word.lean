import DynamicPrompt.Numeral.Word
import DynamicPrompt.Proofs.Text.Cut

/-!
# Reading and writing words

A run of ASCII digits is read as the word it denotes, if it denotes one, whatever zeros it begins
with; and the digits that are written for a word denote it.
-/

namespace DynamicPrompt.Numeral

/-- The digits of a word, without a sign. Zeros may stand before them. -/
structure IsWord (text : Text) : Prop where
  digits : isDigits text = true
  small : digitsValue 0 text < UInt64.size

instance (text : Text) : Decidable (IsWord text) :=
  decidable_of_iff (isDigits text = true ∧ digitsValue 0 text < UInt64.size)
    ⟨fun both => ⟨both.1, both.2⟩, fun word => ⟨word.digits, word.small⟩⟩

/-- Every character of a run of digits is one. -/
theorem isDigit_of_mem {digits : Text} (run : isDigits digits = true) :
    ∀ c ∈ digits, c.isDigit = true := by
  rw [isDigits, Bool.and_eq_true, List.all_eq_true] at run
  exact run.2

/-- A run of digits is not empty. -/
theorem ne_nil_of_isDigits {digits : Text} (run : isDigits digits = true) : digits ≠ [] := by
  rintro rfl
  exact absurd run (by decide)

/-- A digit is no other character. -/
theorem ne_of_isDigit {c d : Char} (digit : c.isDigit = true) (other : d.isDigit = false) :
    c ≠ d := by
  rintro rfl
  rw [digit] at other
  exact Bool.noConfusion other

/-- A digit is no blank. -/
theorem isBlank_of_isDigit {c : Char} (digit : c.isDigit = true) : isBlank c = false :=
  isBlank_of_isAlphanum (by rw [Char.isAlphanum, digit, Bool.or_true])

/-- A run of digits has no blanks around it. -/
theorem trim_of_isDigits {digits : Text} (run : isDigits digits = true) :
    Text.trim digits = digits :=
  Text.trim_unspaced fun c member => isBlank_of_isDigit (isDigit_of_mem run c member)

/-- A digit is its own small letter. -/
theorem toLower_of_isDigit {c : Char} (digit : c.isDigit = true) : c.toLower = c := by
  simp only [Char.isDigit, Bool.and_eq_true, decide_eq_true_eq] at digit
  have noCapital : ¬ (c.val ≥ 'A'.val ∧ c.val ≤ 'Z'.val) := by
    rintro ⟨low, -⟩
    exact absurd (UInt32.le_trans low digit.2) (by decide)
  unfold Char.toLower
  rw [dif_neg noCapital]

/-- A run of digits is read as the number it denotes, if that is a word. -/
theorem word?_of_isDigits {digits : Text} (run : isDigits digits = true) :
    word? digits =
      if digitsValue 0 digits < UInt64.size then some (digitsValue 0 digits) else none := by
  have unsigned : afterPlus digits = digits := by
    rw [afterPlus]
    rintro rest rfl
    exact absurd (isDigit_of_mem run '+' List.mem_cons_self) (by decide)
  simp only [word?, unsigned, run, Bool.true_and, decide_eq_true_eq]

/-- The digits of a word are read as the word. -/
theorem word?_of_isWord {digits : Text} (word : IsWord digits) :
    word? digits = some (digitsValue 0 digits) := by
  rw [word?_of_isDigits word.digits, if_pos word.small]

/-- The digits of a word are read as the word, also where blanks would be taken off. -/
theorem word?_trim_of_isWord {digits : Text} (word : IsWord digits) :
    word? (Text.trim digits) = some (digitsValue 0 digits) := by
  rw [trim_of_isDigits word.digits, word?_of_isWord word]

/-- A numeral has digits and plus signs only. -/
theorem isDigit_or_plus_of_mem {text : Text} {value : Nat} (read : word? text = some value) :
    ∀ c ∈ text, c.isDigit = true ∨ c = '+' := by
  have run : isDigits (afterPlus text) = true := by
    unfold word? at read
    split at read
    · next admitted => exact (Bool.and_eq_true_iff.1 admitted).1
    · exact absurd read.symm (Option.some_ne_none value)
  intro c member
  unfold afterPlus at run
  split at run
  · next digits =>
    rcases List.mem_cons.1 member with plus | later
    · exact .inr plus
    · exact .inl (isDigit_of_mem run c later)
  · exact .inl (isDigit_of_mem run c member)

/-- A numeral has no hyphen. -/
theorem hyphen_not_mem {text : Text} {value : Nat} (read : word? text = some value) :
    '-' ∉ text := by
  intro member
  rcases isDigit_or_plus_of_mem read '-' member with digit | plus
  · exact absurd digit (by decide)
  · exact absurd plus (by decide)

/-- Blanks around a numeral do not hide a hyphen in it. -/
theorem hyphen_not_mem_of_trim {text : Text} {value : Nat}
    (read : word? (Text.trim text) = some value) : '-' ∉ text :=
  fun member => hyphen_not_mem read (Text.mem_trim member (by decide))

/-- Nothing but blanks is no numeral. -/
theorem ne_nil_of_trim {text : Text} {value : Nat} (read : word? (Text.trim text) = some value) :
    text ≠ [] := by
  rintro rfl
  exact absurd read.symm (Option.some_ne_none value)

/-- The digits of a number are digits. -/
theorem isDigits_ofNat (n : Nat) : isDigits (Text.ofNat n) = true := by
  rw [isDigits, Bool.and_eq_true]
  constructor
  · simp [Text.ofNat, Nat.toDigits_ne_nil]
  · rw [List.all_eq_true]
    exact fun c member => Nat.isDigit_of_mem_toDigits (by decide) (by decide) member

/-- The digits of a number denote it. -/
theorem digitsValue_ofNat (n : Nat) : digitsValue 0 (Text.ofNat n) = n := by
  have step : (fun value (digit : Char) => value * 10 + (digit.toNat - 48)) =
      fun value digit => 10 * value + (digit.toNat - '0'.toNat) := by
    funext value digit
    rw [Nat.mul_comm]
    rfl
  rw [digitsValue, step, ← Nat.ofDigitChars_eq_foldl]
  exact Nat.ofDigitChars_ten_toDigits

/-- The digits of a word are read as the word. -/
theorem isWord_ofNat {n : Nat} (small : n < UInt64.size) : IsWord (Text.ofNat n) := by
  refine ⟨isDigits_ofNat n, ?_⟩
  rw [digitsValue_ofNat]
  exact small

end DynamicPrompt.Numeral
