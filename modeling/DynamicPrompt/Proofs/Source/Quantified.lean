import DynamicPrompt.Engine.Directives
import DynamicPrompt.Proofs.Choice.Quantity
import DynamicPrompt.Proofs.Source.Constructless
import DynamicPrompt.Proofs.Source.Plain
import DynamicPrompt.Proofs.Work

/-!
# Quantified variants

A quantified variant has flags, a count, perhaps a separator, and options. It becomes one tag,
whose argument the draw reads as the bounds and the separator that the variant states, and whose
body it parts into the options of the variant. An open count ends one below the number of options,
but never below its lower bound.
-/

namespace DynamicPrompt

/-- The digits and the hyphen, of which counts are made. -/
def isCountCharacter (c : Char) : Bool := c.isDigit || c == '-'

/-- A character of a count is a digit or a hyphen. -/
theorem isCountCharacter_iff {c : Char} :
    isCountCharacter c = true ↔ c.isDigit = true ∨ c = '-' := by
  simp [isCountCharacter]

/-- A character of a count is none that is not. -/
theorem ne_of_isCountCharacter {c d : Char} (counting : isCountCharacter c = true)
    (other : isCountCharacter d = false) : c ≠ d := by
  rintro rfl
  rw [counting] at other
  exact Bool.noConfusion other

/-- A character of a count is no blank. -/
theorem isBlank_of_isCountCharacter {c : Char} (counting : isCountCharacter c = true) :
    isBlank c = false := by
  rcases isCountCharacter_iff.1 counting with digit | rfl
  · exact Numeral.isBlank_of_isDigit digit
  · decide

/-- Digits are characters of counts. -/
theorem isCountCharacter_digits {digits : Text} (run : Numeral.isDigits digits = true) :
    ∀ c ∈ digits, isCountCharacter c = true :=
  fun c member => isCountCharacter_iff.2 (.inl (Numeral.isDigit_of_mem run c member))

/-- Digits with a hyphen between them are characters of counts. -/
theorem isCountCharacter_hyphenated {low high : Text}
    (front : ∀ c ∈ low, isCountCharacter c = true)
    (back : ∀ c ∈ high, isCountCharacter c = true) :
    ∀ c ∈ low ++ '-' :: high, isCountCharacter c = true := by
  intro c member
  rcases List.mem_append.1 member with before | after
  · exact front c before
  · rcases List.mem_cons.1 after with rfl | behind
    · decide
    · exact back c behind

/-- A text of such characters has no blanks around it. -/
theorem trim_of_isCountCharacter {text : Text} (counting : ∀ c ∈ text, isCountCharacter c = true) :
    Text.trim text = text :=
  Text.trim_unspaced fun c member => isBlank_of_isCountCharacter (counting c member)

/-- Two words with a hyphen between them are read as bounds, in either order. -/
theorem Quantity.ofText?_between {low high : Text} (lowWord : Numeral.IsWord low)
    (highWord : Numeral.IsWord high) :
    Quantity.ofText? (low ++ '-' :: high) =
      some ⟨min (Numeral.digitsValue 0 low) (Numeral.digitsValue 0 high),
        some (max (Numeral.digitsValue 0 low) (Numeral.digitsValue 0 high))⟩ := by
  rw [ofText?_eq_some_iff, trim_of_isCountCharacter (isCountCharacter_hyphenated
    (isCountCharacter_digits lowWord.digits) (isCountCharacter_digits highWord.digits))]
  exact .between (Numeral.word?_trim_of_isWord lowWord) (Numeral.word?_trim_of_isWord highWord)

/-- The count before the comma of an argument is read, and what stands behind it is the separator.
Nothing stands for a comma and a space. -/
theorem Quantity.ofArgument_counted {count : Text} {quantity : Quantity}
    (counting : ∀ c ∈ count, isCountCharacter c = true)
    (read : Quantity.ofText? count = some quantity) (separator : Text) :
    Quantity.ofArgument (count ++ ',' :: separator) =
      (quantity, if separator.isEmpty then ", ".toList else separator) := by
  have absent : ',' ∉ count := fun member =>
    ne_of_isCountCharacter (counting ',' member) (by decide) rfl
  rw [ofArgument, Text.cutAt?_behind absent]
  cases separator with
  | nil =>
    dsimp only
    rw [read]
    rfl
  | cons c rest =>
    dsimp only
    rw [read]
    rfl

namespace Source

namespace Count

/-- The count as it is written. -/
def written : Count → Text
  | exactly digits => digits
  | between low high => low ++ '-' :: high
  | upTo high => '-' :: high
  | atLeast low => low ++ ['-']

/-- The numerals of the count are words, and a count without a lower bound does not end before
one. -/
def IsStated : Count → Prop
  | exactly digits => Numeral.IsWord digits
  | between low high => Numeral.IsWord low ∧ Numeral.IsWord high
  | upTo high => Numeral.IsWord high ∧ 1 ≤ Numeral.digitsValue 0 high
  | atLeast low => Numeral.IsWord low

/-- The bounds that the count states when an open count ends at `most`. -/
def quantity (most : Nat) : Count → Quantity
  | exactly digits => .exactly (Numeral.digitsValue 0 digits)
  | between low high =>
    ⟨min (Numeral.digitsValue 0 low) (Numeral.digitsValue 0 high),
      some (max (Numeral.digitsValue 0 low) (Numeral.digitsValue 0 high))⟩
  | upTo high => ⟨1, some (Numeral.digitsValue 0 high)⟩
  | atLeast low =>
    ⟨Numeral.digitsValue 0 low, some (max (Numeral.digitsValue 0 low) most)⟩

end Count

/-- A variant with a count. -/
structure Quantified where
  flags : Text
  count : Count
  separator : Option Text
  options : List Text

namespace Quantified

/-- The separator with the dollar signs after it, if there is one. -/
def separatorText (variant : Quantified) : Text :=
  match variant.separator with
  | some separator => separator ++ ['$', '$']
  | none => []

/-- The text before the options. -/
def head (variant : Quantified) : Text :=
  variant.flags ++ variant.count.written ++ ['$', '$'] ++ variant.separatorText

/-- The line of the variant. -/
def source (variant : Quantified) : Text :=
  '\x7b' :: (variant.head ++ Text.join ['|'] variant.options ++ ['\x7d'])

/-- The text between the options that are drawn. -/
def drawn (variant : Quantified) : Text :=
  match variant.separator with
  | some (c :: rest) => c :: rest
  | _ => ", "

/-- The flags and the count are such, separator and options are plain and have no bars, and there
is an option. The number of options is asked to be a word only where it is written as one. -/
structure Proper (variant : Quantified) : Prop where
  flags : ∀ c ∈ variant.flags, Head.isFlag c = true
  count : variant.count.IsStated
  separator : ∀ text ∈ variant.separator, Plain text ∧ '|' ∉ text
  filled : variant.options ≠ []
  options : ∀ option ∈ variant.options, Plain option ∧ '|' ∉ option
  addressable : ∀ low, variant.count = .atLeast low → variant.options.length ≤ UInt64.size

end Quantified

section Counts

variable {count : Count} {most : Nat}

/-- A count is written with digits and hyphens. -/
theorem Count.written_characters (stated : count.IsStated) :
    ∀ c ∈ count.written, isCountCharacter c = true := by
  cases count with
  | exactly digits => exact isCountCharacter_digits stated.digits
  | between low high =>
    exact isCountCharacter_hyphenated (isCountCharacter_digits stated.1.digits)
      (isCountCharacter_digits stated.2.digits)
  | upTo high =>
    exact isCountCharacter_hyphenated (fun c member => absurd member List.not_mem_nil)
      (isCountCharacter_digits stated.1.digits)
  | atLeast low =>
    exact isCountCharacter_hyphenated (isCountCharacter_digits stated.digits)
      fun c member => absurd member List.not_mem_nil

/-- A count is written with at least one character. -/
theorem Count.written_ne_nil (stated : count.IsStated) : count.written ≠ [] := by
  cases count with
  | exactly digits => exact Numeral.ne_nil_of_isDigits stated.digits
  | between low high => simp [written]
  | upTo high => simp [written]
  | atLeast low => simp [written]

/-- A run of digits ends before what is no digit. -/
theorem decimal_run {digits : Text} (run : digits.all Char.isDigit = true) {d : Char}
    (other : isDecimalDigit d = false) (rest : Text) :
    (digits ++ d :: rest).takeWhile isDecimalDigit = digits ∧
      (digits ++ d :: rest).dropWhile isDecimalDigit = d :: rest := by
  have passing : digits.all isDecimalDigit = true := by
    rw [List.all_eq_true] at run ⊢
    exact fun c member => isDecimalDigit_of_isDigit c (run c member)
  have ends : ∀ c ∈ (d :: rest).head?, isDecimalDigit c = false := by
    intro c head
    obtain rfl : d = c := Option.some.inj head
    exact other
  exact ⟨Text.takeWhile_run passing ends, Text.dropWhile_run passing ends⟩

/-- A count is read up to the two dollar signs after it. -/
theorem Head.count?_written (stated : count.IsStated) (rest : Text) :
    Head.count? (count.written ++ '$' :: '$' :: rest) = some (some count, rest) := by
  have run : ∀ digits, Numeral.isDigits digits = true → digits.all Char.isDigit = true :=
    fun digits digital => List.all_eq_true.2 (Numeral.isDigit_of_mem digital)
  have filled : ∀ digits, Numeral.isDigits digits = true → digits.isEmpty = false :=
    fun digits digital => List.isEmpty_eq_false_iff.2 (Numeral.ne_nil_of_isDigits digital)
  have dollar : isDecimalDigit '$' = false := by decide
  have hyphen : isDecimalDigit '-' = false := by decide
  cases count with
  | exactly digits =>
    obtain ⟨taken, left⟩ := decimal_run (run digits stated.digits) dollar ('$' :: rest)
    rw [Count.written, Head.count?, taken, left]
    simp [filled digits stated.digits]
  | between low high =>
    obtain ⟨takenLow, leftLow⟩ :=
      decimal_run (run low stated.1.digits) hyphen (high ++ '$' :: '$' :: rest)
    obtain ⟨takenHigh, leftHigh⟩ := decimal_run (run high stated.2.digits) dollar ('$' :: rest)
    rw [Count.written, List.append_assoc, List.cons_append, Head.count?, takenLow, leftLow]
    simp only [takenHigh, leftHigh, filled low stated.1.digits, filled high stated.2.digits,
      Bool.false_eq_true, if_false]
  | upTo high =>
    obtain ⟨takenLow, leftLow⟩ :=
      @decimal_run [] List.all_nil '-' hyphen (high ++ '$' :: '$' :: rest)
    obtain ⟨takenHigh, leftHigh⟩ := decimal_run (run high stated.1.digits) dollar ('$' :: rest)
    rw [List.nil_append] at takenLow leftLow
    rw [Count.written, List.cons_append, Head.count?, takenLow, leftLow]
    simp only [takenHigh, leftHigh, filled high stated.1.digits, Bool.false_eq_true, if_false,
      List.isEmpty_nil, if_true]
  | atLeast low =>
    obtain ⟨takenLow, leftLow⟩ := decimal_run (run low stated.digits) hyphen ('$' :: '$' :: rest)
    obtain ⟨takenHigh, leftHigh⟩ := @decimal_run [] List.all_nil '$' dollar ('$' :: rest)
    rw [List.nil_append] at takenHigh leftHigh
    rw [Count.written, List.append_assoc, List.singleton_append, Head.count?, takenLow, leftLow]
    simp only [takenHigh, leftHigh, filled low stated.digits, Bool.false_eq_true, if_false,
      List.isEmpty_nil, if_true]

/-- An open count ends one below the number of options, but not below its lower bound. -/
theorem Head.countText_atLeast {low : Text} (word : Numeral.IsWord low) (most : Nat) :
    Head.countText (.atLeast low) (some most) =
      Text.ofNat (Numeral.digitsValue 0 low) ++
        '-' :: Text.ofNat (max most (Numeral.digitsValue 0 low)) := by
  unfold Head.countText
  simp [Numeral.word?_of_isWord word]

/-- The count in the argument of the tag is written with digits and hyphens, whether an open count is
closed or not. -/
theorem Head.countText_characters {bound : Option Nat} (stated : count.IsStated) :
    ∀ c ∈ Head.countText count bound, isCountCharacter c = true := by
  cases count with
  | exactly digits => exact isCountCharacter_digits stated.digits
  | between low high =>
    rw [Head.countText, List.append_assoc]
    exact isCountCharacter_hyphenated (isCountCharacter_digits stated.1.digits)
      (isCountCharacter_digits stated.2.digits)
  | upTo high =>
    have one : ∀ c ∈ "1".toList, isCountCharacter c = true := by decide
    exact isCountCharacter_hyphenated one (isCountCharacter_digits stated.1.digits)
  | atLeast low =>
    cases bound with
    | none =>
      exact isCountCharacter_hyphenated (isCountCharacter_digits stated.digits)
        fun c member => absurd member List.not_mem_nil
    | some most =>
      rw [Head.countText_atLeast stated]
      exact isCountCharacter_hyphenated (isCountCharacter_digits (Numeral.isDigits_ofNat _))
        (isCountCharacter_digits (Numeral.isDigits_ofNat _))

/-- The count in the argument of the tag is read as the bounds that the variant states. -/
theorem Head.ofText?_countText (stated : count.IsStated)
    (addressable : ∀ low, count = .atLeast low → most < UInt64.size) :
    Quantity.ofText? (Head.countText count (some most)) = some (count.quantity most) := by
  cases count with
  | exactly digits =>
    rw [Head.countText, Quantity.ofText?_eq_some_iff, Numeral.trim_of_isDigits stated.digits]
    exact .number (Numeral.word?_of_isWord stated)
  | between low high =>
    rw [Head.countText, List.append_assoc]
    exact Quantity.ofText?_between stated.1 stated.2
  | upTo high =>
    have one : Numeral.IsWord "1" := by decide
    have read := Quantity.ofText?_between one stated.1
    have value : Numeral.digitsValue 0 "1" = 1 := by decide
    rw [value, Nat.min_eq_left stated.2, Nat.max_eq_right stated.2] at read
    exact read
  | atLeast low =>
    have larger : max most (Numeral.digitsValue 0 low) < UInt64.size :=
      Nat.max_lt.2 ⟨addressable low rfl, stated.small⟩
    have read :=
      Quantity.ofText?_between (Numeral.isWord_ofNat stated.small) (Numeral.isWord_ofNat larger)
    rw [Numeral.digitsValue_ofNat, Numeral.digitsValue_ofNat,
      Nat.min_eq_left (Nat.le_max_right ..), Nat.max_eq_right (Nat.le_max_right ..)] at read
    rw [Head.countText_atLeast stated, Count.quantity, Nat.max_comm (Numeral.digitsValue 0 low)]
    exact read

end Counts

section Heads

/-- There are four flags. -/
theorem Head.mem_of_isFlag {c : Char} (flag : Head.isFlag c = true) : c ∈ "~@ro".toList := by
  simp only [Head.isFlag, Bool.or_eq_true, beq_iff_eq] at flag
  rcases flag with ((rfl | rfl) | rfl) | rfl <;> decide

/-- A count does not begin with a flag. -/
theorem Count.unflagged {count : Count} (stated : count.IsStated) (rest : Text) :
    ∀ c ∈ (count.written ++ rest).head?, Head.isFlag c = false := by
  intro c starts
  obtain ⟨first, others, written⟩ := List.exists_cons_of_ne_nil (Count.written_ne_nil stated)
  rw [written, List.cons_append] at starts
  obtain rfl := Option.some.inj starts
  have counting : isCountCharacter first = true := by
    apply Count.written_characters stated
    rw [written]
    exact List.mem_cons_self
  rw [← Bool.not_eq_true]
  intro flag
  have other : ∀ d ∈ "~@ro".toList, isCountCharacter d = false := by decide
  exact ne_of_isCountCharacter counting (other first (Head.mem_of_isFlag flag)) rfl

/-- A text without dollar signs outside every pair of brackets has no separator before it. -/
theorem Head.separator?_grouped {text : Text}
    (noDollar : Grouped Brackets.tagsAndBraces (· ≠ '$') text) : Head.separator? text = none := by
  have missed : cutTopLevel? ['$', '$'] Brackets.tagsAndBraces text = none :=
    cutTopLevelFrom?_lacking (by decide) noDollar fun _ bare => bare
  unfold Head.separator?
  split
  · rfl
  · next cut => exact absurd (missed.symm.trans cut).symm (Option.some_ne_none _)

/-- A count before a text without a separator is a head of that text. -/
theorem Head.split?_counted {count : Count} {text : Text} (stated : count.IsStated)
    (unseparated : Head.separator? text = none) :
    Head.split? (count.written ++ '$' :: '$' :: text) = some (⟨some count, none⟩, text) := by
  have unflagged := @Text.dropWhile_run Head.isFlag [] _ List.all_nil
    (Count.unflagged stated ('$' :: '$' :: text))
  rw [List.nil_append] at unflagged
  rw [Head.split?, unflagged, Head.count?_written stated]
  dsimp only
  rw [unseparated]

variable {separator body : Text} {options : List Text}

/-- A separator is read up to the two dollar signs after it. -/
theorem Head.separator?_plain (plain : Plain separator) (unbarred : '|' ∉ separator) :
    Head.separator? (separator ++ (['$', '$'] ++ body)) = some (separator, body) := by
  have known : Brackets.tagsAndBraces.Known := .inr (.inl rfl)
  have noDollar : Grouped Brackets.tagsAndBraces (· ≠ '$') separator :=
    plain.grouped known fun c member => plain.ne member (by decide)
  have noBar : Grouped Brackets.tagsAndBraces (· ≠ '|') separator := by
    apply plain.grouped known
    rintro c member rfl
    exact unbarred member
  have found : cutTopLevel? ['$', '$'] Brackets.tagsAndBraces
      (separator ++ (['$', '$'] ++ body)) = some (separator, body) :=
    cutTopLevelFrom?_grouped (by decide) noDollar (fun _ bare => bare) body
  have missed : cutTopLevel? ['|'] Brackets.tagsAndBraces separator = none :=
    cutTopLevelFrom?_lacking (by decide) noBar fun _ bare => bare
  unfold Head.separator?
  split
  · next cut => exact absurd (found.symm.trans cut) (Option.some_ne_none _)
  · next before rest cut =>
    obtain ⟨rfl, rfl⟩ := Prod.mk.inj (Option.some.inj (found.symm.trans cut))
    split
    · next barred => exact absurd (missed ▸ barred : Option.isSome none = true) Bool.false_ne_true
    · rfl

/-- Plain options have no separator before them. -/
theorem Head.separator?_none (plain : ∀ option ∈ options, Plain option) :
    Head.separator? (Text.join ['|'] options) = none := by
  have known : Brackets.tagsAndBraces.Known := .inr (.inl rfl)
  have noDollar : Grouped Brackets.tagsAndBraces (· ≠ '$') (Text.join ['|'] options) := by
    apply Grouped.join (.of_unmentioned (by decide))
    intro option member
    exact (plain option member).grouped known fun c inside =>
      (plain option member).ne inside (by decide)
  exact Head.separator?_grouped noDollar

end Heads

namespace Quantified

variable {variant : Quantified}

/-- The directive that the variant becomes. -/
def tag (variant : Quantified) : Directive :=
  ⟨"random",
    some (Head.countText variant.count (some (variant.options.length - 1)) ++
      ',' :: variant.separator.getD []),
    some (Text.join ['|'] (variant.options.map orEmpty))⟩

/-- The tag as it is printed. -/
theorem print_tag (variant : Quantified) :
    variant.tag.print =
      '<' :: (("random".toList ++ '[' :: ((Head.countText variant.count
        (some (variant.options.length - 1)) ++ ',' :: variant.separator.getD []) ++ ']' :: ':' ::
          Text.join ['|'] (variant.options.map orEmpty))) ++ ['>']) := Template.print_full _ _ _

/-- The text between the braces is read as count, separator and options. -/
theorem split?_source (proper : variant.Proper) :
    Head.split? (variant.head ++ Text.join ['|'] variant.options) =
      some (⟨some variant.count, variant.separator⟩, Text.join ['|'] variant.options) := by
  have plain : ∀ option ∈ variant.options, Plain option :=
    fun option member => (proper.options option member).1
  have flags : variant.flags.all Head.isFlag = true := List.all_eq_true.2 proper.flags
  have counted : Head.count? (List.dropWhile Head.isFlag
      (variant.head ++ Text.join ['|'] variant.options)) =
        some (some variant.count, variant.separatorText ++ Text.join ['|'] variant.options) := by
    rw [head, List.append_assoc, List.append_assoc, List.append_assoc,
      Text.dropWhile_run flags (Count.unflagged proper.count _)]
    exact Head.count?_written proper.count _
  rw [Head.split?, counted]
  dsimp only
  cases given : variant.separator with
  | none =>
    rw [separatorText, given]
    dsimp only
    rw [List.nil_append, Head.separator?_none plain]
  | some separator =>
    obtain ⟨separatorPlain, unbarred⟩ := proper.separator separator given
    rw [separatorText, given]
    dsimp only
    rw [List.append_assoc, Head.separator?_plain separatorPlain unbarred]

/-- The argument of the tag is the count and the separator. -/
theorem argument_source (proper : variant.Proper) (most : Option Nat) :
    Head.argument (some ⟨some variant.count, variant.separator⟩) most =
      pure ("[" ++ Head.countText variant.count most ++ "," ++ variant.separator.getD [] ++
        "]") := by
  cases given : variant.separator with
  | none => rfl
  | some separator =>
    obtain ⟨plain, _⟩ := proper.separator separator given
    have writable : Head.isWritable separator = true := by
      rw [Head.isWritable, List.all_eq_true]
      intro c member
      have noOpener : c ≠ '[' := plain.ne member (by decide)
      have noCloser : c ≠ ']' := plain.ne member (by decide)
      have noEnd : c ≠ '>' := plain.ne member (by decide)
      simp [noOpener, noCloser, noEnd]
    rw [Head.argument]
    simp only [writable, if_true, pure_bind]
    rfl

/-- The text between the braces is written as the tag. -/
theorem write_source (proper : variant.Proper) (transpiler : Transpiler) (levels : Nat) :
    Variant.write ⟨transpiler, transpiler.rewriteWithin (levels + 1)⟩
      (variant.head ++ Text.join ['|'] variant.options) = pure variant.tag.print := by
  have grouped : ∀ option ∈ variant.options, Grouped Brackets.tagsAndBraces (· ≠ '|') option := by
    intro option member
    apply (proper.options option member).1.grouped (.inr (.inl rfl))
    rintro c inside rfl
    exact (proper.options option member).2 inside
  have parted : splitTopLevel "|" Brackets.tagsAndBraces (Text.join ['|'] variant.options) =
      variant.options :=
    splitTopLevel_join proper.filled (by decide) (by decide) grouped fun _ bare => bare
  have filled : variant.options.mapM
      (Pass.filled ⟨transpiler, transpiler.rewriteWithin (levels + 1)⟩) =
      pure (variant.options.map orEmpty) :=
    mapM_eq_pure fun option member => (proper.options option member).1.filled transpiler levels
  unfold Variant.write
  rw [split?_source proper]
  dsimp only
  rw [parted, argument_source proper, pure_bind]
  split
  · -- A plain option is no wildcard tag.
    next text collapsed =>
    split at collapsed
    · next option single =>
      have plain : Plain option := (proper.options option (by simp [single])).1
      unfold Variant.collapse? at collapsed
      split at collapsed
      · exact absurd collapsed.symm (Option.some_ne_none _)
      · split at collapsed
        · next body _ starts _ =>
          have begins := Text.after?_eq_some_iff.1 starts
          have opens : '<' ∈ option := by
            rw [begins]
            exact List.mem_append_left _ (by decide)
          exact absurd opens (plain.absent (by decide))
        · exact absurd collapsed.symm (Option.some_ne_none _)
    · exact absurd collapsed.symm (Option.some_ne_none _)
  · rw [filled, pure_bind, print_tag]
    simp

/-- Of the marks of constructs only dollar signs stand between the braces. -/
theorem markedOnly_source (proper : variant.Proper) :
    MarkedOnly '$' (variant.head ++ Text.join ['|'] variant.options) := by
  have options : MarkedOnly '$' (Text.join ['|'] variant.options) :=
    .join (by decide) fun option member => (proper.options option member).1
  have flags : MarkedOnly '$' variant.flags := by
    have unmarked : ∀ c ∈ "~@ro".toList, c ∉ partMarks := by decide
    intro c member marks
    exact absurd marks (unmarked c (Head.mem_of_isFlag (proper.flags c member)))
  have written : MarkedOnly '$' variant.count.written := by
    have other : ∀ c ∈ partMarks, isCountCharacter c = false := by decide
    intro c member marks
    have counting := Count.written_characters proper.count c member
    exact absurd rfl (ne_of_isCountCharacter counting (other c marks))
  have dollars : MarkedOnly '$' ['$', '$'] := by decide
  have separator : MarkedOnly '$' variant.separatorText := by
    rw [separatorText]
    cases given : variant.separator with
    | none => exact fun c member => absurd member List.not_mem_nil
    | some separator =>
      have plain : Plain separator := (proper.separator separator given).1
      exact (MarkedOnly.of_plain plain).append dollars
  exact (((flags.append written).append dollars).append separator).append options

/-- The line of the variant does not hold the break keyword. -/
theorem unbroken_source (proper : variant.Proper) : Unbroken variant.source := by
  have options : Unbroken (Text.join ['|'] variant.options) :=
    .join (by decide) fun option member => (proper.options option member).1.unbroken
  have flags : ∀ c ∈ variant.flags, c ∉ breakWord := by
    have apart : ∀ c ∈ "~@ro".toList, c ∉ breakWord := by decide
    exact fun c member => apart c (Head.mem_of_isFlag (proper.flags c member))
  have written : ∀ c ∈ variant.count.written, c ∉ breakWord := by
    have other : ∀ c ∈ breakWord, isCountCharacter c = false := by decide
    intro c member within
    have counting := Count.written_characters proper.count c member
    exact ne_of_isCountCharacter counting (other c within) rfl
  have dollars : ∀ c ∈ ['$', '$'], c ∉ breakWord := by decide
  have separated : Unbroken (variant.separatorText ++ Text.join ['|'] variant.options) := by
    rw [separatorText]
    cases given : variant.separator with
    | none => exact options
    | some separator =>
      have behind : Unbroken (['$'] ++ Text.join ['|'] variant.options) :=
        .after (by decide) options
      dsimp only
      rw [List.append_assoc]
      exact (Unbroken.around (by decide)).2 ⟨(proper.separator separator given).1.unbroken, behind⟩
  have content : Unbroken (variant.head ++ Text.join ['|'] variant.options) := by
    rw [head, List.append_assoc, List.append_assoc, List.append_assoc]
    exact .after flags (.after written (.after dollars separated))
  exact (Unbroken.enclosed (by decide) (by decide)).2 ⟨content, .nil⟩

/-- The pass over square brackets finds none in the line of the variant. -/
theorem brackets_source (proper : variant.Proper) (pass : Pass) :
    Rewritten (Bracketed.write pass) '[' ']' none variant.source variant.source := by
  apply Rewritten.of_unmarked
  intro c member
  have other : ∀ mark ∈ "[\\<>".toList, c ≠ mark := by
    have marks : ∀ mark ∈ "[\\<>".toList, mark ∈ partMarks ∧ mark ≠ '$' ∧ mark ≠ '\x7b' ∧
        mark ≠ '\x7d' := by decide
    rintro mark among rfl
    obtain ⟨isMark, differ, noOpener, noCloser⟩ := marks c among
    exact (markedOnly_source proper).absent_line isMark differ noOpener noCloser member
  refine ⟨other '[' (by decide), ?_, other '\\' (by decide), Option.some_ne_none c⟩
  rintro (opens | closes)
  · exact other '<' (by decide) (List.mem_singleton.1 opens)
  · exact other '>' (by decide) (List.mem_singleton.1 closes)

/-- The line of the variant becomes its tag. -/
theorem transpile_source (proper : variant.Proper) {transpiler : Transpiler}
    (nested : 2 ≤ transpiler.limit) :
    transpiler.transpile variant.source = pure variant.tag.print := by
  obtain ⟨levels, limit⟩ := Nat.exists_eq_add_of_le' nested
  have marked := markedOnly_source proper
  have pair : Brackets.tagsAndBraces.Pair '\x7b' '\x7d' := by constructor <;> decide
  have content := marked.grouped (by decide) (.inr (.inl rfl) : Brackets.tagsAndBraces.Known)
  have construct : Rewritten (Variant.write ⟨transpiler, transpiler.rewriteWithin (levels + 1)⟩)
      '\x7b' '\x7d' (some '$') variant.source (variant.tag.print ++ []) :=
    .construct (enclosed?_grouped pair content) (write_source proper transpiler levels) .nil
  rw [List.append_nil] at construct
  exact marked.transpile_construct (by decide) (by decide) limit (brackets_source proper _)
    (markBreaks_of_absent (unbroken_source proper)) construct

/-- The tag of the variant is read as that tag. -/
theorem ofText_tag (proper : variant.Proper) :
    Template.ofText variant.tag.print = [.directive variant.tag] := by
  have head : Template.HasPlainHead "random" variant.tag.argument := by
    constructor
    · decide
    · intro text given
      obtain rfl := Option.some.inj given
      rw [List.all_append, List.all_cons, Bool.and_eq_true, Bool.and_eq_true]
      refine ⟨?_, by decide, ?_⟩
      · rw [List.all_eq_true]
        intro c member
        have counting := Head.countText_characters proper.count c member
        have other : ∀ d ∈ "<>\\[]".toList, isCountCharacter d = false := by decide
        have apart : ∀ d ∈ "<>\\[]".toList, c ≠ d :=
          fun d within => ne_of_isCountCharacter counting (other d within)
        simp [Template.isPlainArgument, Template.isPlain, apart]
      · cases given : variant.separator with
        | none => rfl
        | some separator => exact (proper.separator separator given).1.argument
  apply Template.ofText_directive head.readable
  intro text given
  obtain rfl := Option.some.inj given
  exact readsBack_filled (by decide) fun option member => (proper.options option member).1

/-- The argument of the tag states the bounds and the separator of the variant. -/
theorem ofArgument_tag (proper : variant.Proper) :
    Quantity.ofArgument variant.tag.argumentText =
      (variant.count.quantity (variant.options.length - 1), variant.drawn) := by
  have counted : Quantity.ofText? (Head.countText variant.count
      (some (variant.options.length - 1))) =
        some (variant.count.quantity (variant.options.length - 1)) := by
    apply Head.ofText?_countText proper.count
    intro low given
    have few := proper.addressable low given
    have positive := List.length_pos_iff.2 proper.filled
    omega
  have read : Quantity.ofArgument variant.tag.argumentText = _ :=
    Quantity.ofArgument_counted (Head.countText_characters proper.count) counted
      (variant.separator.getD [])
  rw [read, drawn]
  cases variant.separator with
  | none => rfl
  | some separator =>
    cases separator with
    | nil => rfl
    | cons c rest => rfl

/-- The body of the tag is parted into the options of the variant. -/
theorem options_tag (proper : variant.Proper) :
    Directives.options variant.tag.bodyText = variant.options.map orEmpty := by
  have grouped : ∀ part ∈ variant.options.map orEmpty, Grouped Brackets.tags (· ≠ '|') part :=
    grouped_filled proper.options
  have filled : variant.options.map orEmpty ≠ [] := by
    rw [Ne, List.map_eq_nil_iff]
    exact proper.filled
  exact splitTopLevel_join filled (by decide) (by decide) grouped fun _ bare => bare

end Quantified

/-- What a quantified variant states is what is drawn. A variant with flags, a count, perhaps a
separator, and at least one option, is rewritten without a warning to a text that is read as
exactly one tag. Its argument is read as the bounds of the count, where an open count ends one
below the number of options but never below its lower bound, and as the separator, a comma and a
blank if there is none. Its body is parted into the options in their order, each as it is or as the
mark of the empty text. -/
theorem transpile_quantified (transpiler : Transpiler) (nested : 2 ≤ transpiler.limit)
    (variant : Quantified) (proper : variant.Proper) :
    ∃ text argument body,
      transpiler.transpile variant.source = pure text ∧
      Template.ofText text = [.directive ⟨"random", some argument, some body⟩] ∧
      Quantity.ofArgument argument =
        (variant.count.quantity (variant.options.length - 1), variant.drawn) ∧
      Directives.options body = variant.options.map orEmpty :=
  ⟨variant.tag.print, variant.tag.argumentText, variant.tag.bodyText,
    variant.transpile_source proper nested, variant.ofText_tag proper,
    variant.ofArgument_tag proper, variant.options_tag proper⟩

/-- Three options, one of them empty, at least one of which is drawn, with a comma in the
separator. -/
def bouquet : Quantified :=
  ⟨"~ro", .atLeast "01", some " and, ", ["a rose", [], "it's 2, \x22or\x22"]⟩

/-- The open count ends at two, and the separator is kept with its blanks. -/
theorem transpile_quantified_bouquet :
    2 ≤ Transpiler.standard.limit ∧ bouquet.Proper ∧
      bouquet.source = "\x7b~ro01-$$ and, $$a rose||it's 2, \x22or\x22\x7d".toList ∧
      ∃ text argument body,
        Transpiler.standard.transpile bouquet.source = pure text ∧
        Template.ofText text = [.directive ⟨"random", some argument, some body⟩] ∧
        Quantity.ofArgument argument = (⟨1, some 2⟩, " and, ".toList) ∧
        Directives.options body =
          ["a rose".toList, "<comment:empty>".toList, "it's 2, \x22or\x22".toList] := by
  have nested : 2 ≤ Transpiler.standard.limit := by decide
  have word : Numeral.IsWord "01" := by decide
  have proper : bouquet.Proper :=
    { flags := by decide
      count := word
      separator := by
        rintro text ⟨⟩
        decide +kernel
      filled := List.cons_ne_nil _ _
      options := by decide +kernel
      addressable := fun _ _ => by decide }
  have written : bouquet.source =
      "\x7b~ro01-$$ and, $$a rose||it's 2, \x22or\x22\x7d".toList := by decide +kernel
  have quantity : bouquet.count.quantity (bouquet.options.length - 1) = ⟨1, some 2⟩ := by decide
  have drawn : bouquet.drawn = " and, ".toList := by decide
  have options : bouquet.options.map orEmpty =
      ["a rose".toList, "<comment:empty>".toList, "it's 2, \x22or\x22".toList] := by
    decide +kernel
  have stated := transpile_quantified Transpiler.standard nested bouquet proper
  rw [quantity, drawn, options] at stated
  exact ⟨nested, proper, written, stated⟩

end Source

end DynamicPrompt
