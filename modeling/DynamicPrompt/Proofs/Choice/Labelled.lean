import DynamicPrompt.Proofs.Choice.Clause
import DynamicPrompt.Proofs.Choice.Position
import DynamicPrompt.Proofs.Template.Part
import DynamicPrompt.Proofs.Text.Lowercase

/-!
# What a filter selects

An option of a wildcard is written as a value, perhaps with labels between parentheses before it. A
filter is written as entries between commas. An entry of digits selects the option at that place,
the first place being zero; any other entry selects the options that carry all labels it names and
none of those it excludes by an exclamation mark.

The rewriting counts the places from one before the filter is put into a tag, and the draw numbers
the options from one before it filters them. The two agree, and what is drawn from is what the filter
that was written selects.
-/

namespace DynamicPrompt

/-- An option of a wildcard as it is written: perhaps labels, and a value. -/
structure WrittenOption where
  labels : Option Text
  value : Text

namespace WrittenOption

/-- The line of the option. -/
def line (option : WrittenOption) : Text :=
  match option.labels with
  | none => option.value
  | some labels => '(' :: (labels ++ ')' :: ':' :: ':' :: option.value)

/-- The labels hold nothing that ends them, and a value without labels holds no double colon. -/
structure Proper (option : WrittenOption) : Prop where
  labels : ∀ labels ∈ option.labels,
    (∀ c ∈ labels, c ∉ "()<>\\".toList) ∧ ¬ [':', ':'] <:+: labels
  value : option.labels = none → ¬ [':', ':'] <:+: option.value

instance (option : WrittenOption) : Decidable option.Proper :=
  have : DecidablePred ([':', ':'] <:+: · : Text → Prop) :=
    fun text => List.instDecidableIsInfixOfDecidableEq [':', ':'] text
  decidable_of_iff
    ((∀ labels ∈ option.labels,
      (∀ c ∈ labels, c ∉ "()<>\\".toList) ∧ ¬ [':', ':'] <:+: labels) ∧
        (option.labels = none → ¬ [':', ':'] <:+: option.value))
    ⟨fun both => ⟨both.1, both.2⟩, fun proper => ⟨proper.labels, proper.value⟩⟩

/-- The option has the label, up to blanks around it and the case of its letters. -/
def Carries (option : WrittenOption) (label : Text) : Prop :=
  label ≠ [] ∧ ∃ labels ∈ option.labels, ∃ written ∈ Text.split ',' labels,
    Text.lower (Text.trim written) = label

instance (option : WrittenOption) (label : Text) : Decidable (option.Carries label) :=
  inferInstanceAs (Decidable (label ≠ [] ∧ ∃ labels ∈ option.labels,
    ∃ written ∈ Text.split ',' labels, Text.lower (Text.trim written) = label))

/-- The option as a choice. -/
def choice (option : WrittenOption) : Choice :=
  ⟨option.value, 1.0, (option.labels.map Choice.labelsOf).getD [], none, 0⟩

/-- A choice has the labels that the option carries. -/
theorem mem_choice_labels {option : WrittenOption} {label : Text} :
    label ∈ option.choice.labels ↔ option.Carries label := by
  unfold choice Carries
  cases option.labels with
  | none => simp
  | some labels =>
    simp only [Option.map_some, Option.getD_some, Choice.labelsOf, Text.mem_ordered,
      List.mem_filter, List.mem_map, Option.mem_some_iff, exists_eq_left']
    constructor
    · rintro ⟨⟨written, among, rfl⟩, filled⟩
      exact ⟨by simpa using filled, written, among, rfl⟩
    · rintro ⟨filled, written, among, rfl⟩
      exact ⟨⟨written, among, rfl⟩, by simpa using filled⟩

end WrittenOption

namespace Choice

/-- Labels between parentheses are a clause of their own. -/
theorem clause?_labels {labels : Text} (plain : ∀ c ∈ labels, c ∉ "()<>\\".toList) :
    clause? ('(' :: (labels ++ [')'])) = some ⟨none, labelsOf labels, none⟩ := by
  have inside : ∀ c ∈ labels, c ≠ '(' ∧ c ≠ ')' ∧ c ≠ '\\' := by
    intro c member
    refine ⟨?_, ?_, ?_⟩
    all_goals
      rintro rfl
      exact plain _ member (by decide)
  have read := @clause?_written labels none (by simp) (by simp) inside none
  rwa [weightText, List.append_nil] at read

/-- A text without a double colon states no options. -/
theorem ofText_plain {text : Text} (lacking : ¬ [':', ':'] <:+: text) : ofText text = plain text := by
  have uncut : cutTopLevel? "::" Brackets.tags text = none := by
    cases cut : cutTopLevel? "::" Brackets.tags text with
    | none => rfl
    | some parts =>
      have whole := cutTopLevelFrom?_append (List.cons_ne_nil ':' [':']) cut
      exact absurd ⟨parts.1, parts.2, whole⟩ lacking
  rw [ofText, uncut]
  rfl

/-- The line of an option is read as that option. -/
theorem ofText_line {option : WrittenOption} (proper : option.Proper) :
    ofText option.line = option.choice := by
  cases given : option.labels with
  | none =>
    rw [WrittenOption.line, WrittenOption.choice, given]
    exact ofText_plain (proper.value given)
  | some labels =>
    obtain ⟨plain, lacking⟩ := proper.labels labels given
    have free : ∀ c ∈ '(' :: (labels ++ [')']), c ∉ "<>\\".toList := by
      have wider : ∀ d ∈ "<>\\".toList, d ∈ "()<>\\".toList ∧ d ≠ '(' ∧ d ≠ ')' := by decide
      intro c member excluded
      obtain ⟨noLabel, noOpener, noCloser⟩ := wider c excluded
      simp only [List.mem_cons, List.mem_append, List.not_mem_nil, or_false] at member
      rcases member with opens | inside | closes
      · exact noOpener opens
      · exact plain c inside noLabel
      · exact noCloser closes
    have apart : ¬ [':', ':'] <:+: ('(' :: (labels ++ [')'])) ++ [':'] := by
      rw [List.cons_append, List.append_assoc, List.infix_cons_iff, not_or]
      refine ⟨fun begins => absurd (List.cons_prefix_cons.1 begins).1 (by decide), ?_⟩
      intro inside
      rcases (infix_around (by decide)).1 inside with front | back
      · exact lacking front
      · exact absurd back (by decide)
    have line : option.line = ('(' :: (labels ++ [')'])) ++ ([':', ':'] ++ option.value) := by
      rw [WrittenOption.line, given]
      simp
    rw [line, ofText_clause free apart (clause?_labels plain), WrittenOption.choice, given]
    rfl

/-- The options of a list of lines, in their order. -/
theorem getElem?_ofLines {options : List WrittenOption} (proper : ∀ option ∈ options, option.Proper)
    (place : Nat) :
    (ofLines (options.map WrittenOption.line))[place]? =
      options[place]?.map fun option => { option.choice with position := place + 1 } := by
  rw [ofLines, List.getElem?_mapIdx, List.getElem?_map]
  cases found : options[place]? with
  | none => rfl
  | some option =>
    have read := ofText_line (proper option (List.mem_of_getElem? found))
    simp [read]

end Choice

/-- An option carries the label that a term names, or lacks the one that it excludes. -/
def WrittenOption.Meets (option : WrittenOption) : Text → Prop
  | '!' :: label => ¬ option.Carries (Text.trim label)
  | label => option.Carries label

instance (option : WrittenOption) (term : Text) : Decidable (option.Meets term) :=
  match term with
  | [] => inferInstanceAs (Decidable (option.Carries []))
  | c :: rest =>
    if excluding : c = '!' then
      decidable_of_iff (¬ option.Carries (Text.trim rest)) (by rw [excluding]; rfl)
    else
      decidable_of_iff (option.Carries (c :: rest)) (by
        rw [WrittenOption.Meets]
        rintro label ⟨⟩
        exact excluding rfl)

/-- The terms of an entry: what stands between its plus signs, without the blanks around it. -/
def termsOf (entry : Text) : List Text :=
  ((Text.split '+' (Text.trim entry)).map Text.trim).filter fun term => !term.isEmpty

/-- An entry of a filter selects the option at a place: an entry of digits if the place is the number
it writes, and any other entry if it has terms and the option meets them all. -/
def EntrySelects (entry : Text) (place : Nat) (option : WrittenOption) : Prop :=
  if Numeral.isDigits (Text.trim entry) = true then
    place = Numeral.digitsValue 0 (Text.trim entry)
  else termsOf entry ≠ [] ∧ ∀ term ∈ termsOf entry, option.Meets term

instance (entry : Text) (place : Nat) (option : WrittenOption) :
    Decidable (EntrySelects entry place option) :=
  inferInstanceAs (Decidable (if Numeral.isDigits (Text.trim entry) = true then
      place = Numeral.digitsValue 0 (Text.trim entry)
    else termsOf entry ≠ [] ∧ ∀ term ∈ termsOf entry, option.Meets term))

/-- A filter selects what one of its entries selects. -/
def FilterSelects (filter : Text) (place : Nat) (option : WrittenOption) : Prop :=
  ∃ entry ∈ Text.split ',' filter, EntrySelects entry place option

instance (filter : Text) (place : Nat) (option : WrittenOption) :
    Decidable (FilterSelects filter place option) :=
  inferInstanceAs (Decidable (∃ entry ∈ Text.split ',' filter, EntrySelects entry place option))

/-- A filter of small letters, digits, blanks and the marks of filters that has at least one entry
and no place that cannot be counted from one. -/
structure IsFilter (filter : Text) : Prop where
  characters : ∀ c ∈ filter, c.isLower = true ∨ c.isDigit = true ∨ c ∈ " +!,".toList
  filled : ∃ entry ∈ Text.split ',' filter, termsOf entry ≠ []
  small : ∀ entry ∈ Text.split ',' filter, Numeral.isDigits (Text.trim entry) = true →
    Numeral.digitsValue 0 (Text.trim entry) + 1 < UInt64.size

instance (filter : Text) : Decidable (IsFilter filter) :=
  decidable_of_iff
    ((∀ c ∈ filter, c.isLower = true ∨ c.isDigit = true ∨ c ∈ " +!,".toList) ∧
      (∃ entry ∈ Text.split ',' filter, termsOf entry ≠ []) ∧
      ∀ entry ∈ Text.split ',' filter, Numeral.isDigits (Text.trim entry) = true →
        Numeral.digitsValue 0 (Text.trim entry) + 1 < UInt64.size)
    ⟨fun all => ⟨all.1, all.2.1, all.2.2⟩,
      fun written => ⟨written.characters, written.filled, written.small⟩⟩

section Entries

variable {entry : Text}

/-- Digits are one term. -/
theorem termsOf_digits (digits : Numeral.isDigits (Text.trim entry) = true) :
    termsOf entry = [Text.trim entry] := by
  have digit := Numeral.isDigit_of_mem digits
  have alone : Text.split '+' (Text.trim entry) = [Text.trim entry] := by
    apply Text.split_alone
    exact fun member => absurd (digit '+' member) (by decide)
  have filled : (Text.trim entry).isEmpty = false :=
    List.isEmpty_eq_false_iff.2 (Numeral.ne_nil_of_isDigits digits)
  rw [termsOf, alone, List.map_singleton, Numeral.trim_of_isDigits digits, List.filter_singleton,
    filled]
  rfl

/-- The label that a term demands. -/
def demanded? (term : Text) : Option Text :=
  match term with
  | '!' :: _ => none
  | _ => some (Text.lower term)

/-- The label that a term excludes. -/
def excluded? (term : Text) : Option Text :=
  match term with
  | '!' :: label => some (Text.lower (Text.trim label))
  | _ => none

/-- A term either excludes a label or demands one. -/
theorem demanded?_or_excluded? (term : Text) :
    (∃ label, term = '!' :: label ∧ demanded? term = none ∧
        excluded? term = some (Text.lower (Text.trim label))) ∨
      (∀ label, term ≠ '!' :: label) ∧ demanded? term = some (Text.lower term) ∧
        excluded? term = none := by
  unfold demanded? excluded?
  split
  · next label => exact .inl ⟨label, rfl, rfl, rfl⟩
  · next demands => exact .inr ⟨demands, rfl, rfl⟩

/-- An entry that is no place is the list of the labels that its terms demand and exclude. -/
theorem ofText?_labels (other : ¬ Numeral.isDigits (Text.trim entry) = true) :
    FilterEntry.ofText? entry =
      if termsOf entry = [] then none
      else some (.labels (Text.ordered ((termsOf entry).filterMap demanded?))
        (Text.ordered ((termsOf entry).filterMap excluded?))) := by
  by_cases blank : Text.trim entry = []
  · have empty : termsOf entry = [] := by
      rw [termsOf, blank]
      rfl
    rw [FilterEntry.ofText?, if_pos empty, blank]
    rfl
  · have digitless : ¬ (Text.trim entry).all Char.isDigit = true :=
      fun all => other (all_isDigit_of_filled blank all)
    have unfolded : FilterEntry.ofText? entry =
        if ((termsOf entry).filterMap demanded?).isEmpty &&
            ((termsOf entry).filterMap excluded?).isEmpty then none
        else some (.labels (Text.ordered ((termsOf entry).filterMap demanded?))
          (Text.ordered ((termsOf entry).filterMap excluded?))) := by
      rw [FilterEntry.ofText?]
      dsimp only
      rw [if_neg (by simpa using blank), if_neg digitless]
      rfl
    rw [unfolded]
    cases whole : termsOf entry with
    | nil => rfl
    | cons term terms =>
      -- The first term stands in one of the two lists.
      rw [if_neg (List.cons_ne_nil term terms), if_neg]
      rcases demanded?_or_excluded? term with ⟨label, -, -, some⟩ | ⟨-, some, -⟩
      · simp [List.filterMap_cons_some some]
      · simp [List.filterMap_cons_some some]

/-- A term has only characters of its entry. -/
theorem mem_term {term : Text} (member : term ∈ termsOf entry) : ∀ c ∈ term, c ∈ entry := by
  obtain ⟨piece, among, rfl⟩ := List.mem_map.1 (List.mem_filter.1 member).1
  intro c inside
  have within : c ∈ piece := (Text.trim_infix piece).subset inside
  exact (Text.trim_infix entry).subset (Text.mem_split among c within).1

variable (characters : ∀ c ∈ entry, c.isLower = true ∨ c.isDigit = true ∨ c ∈ " +!,".toList)

include characters

/-- Characters of such an entry are their own lower case. -/
theorem lower_characters {part : Text} (within : ∀ c ∈ part, c ∈ entry) : Text.lower part = part := by
  have marks : ∀ c ∈ " +!,".toList, c.toNat < 0x80 ∧ ¬ c.isUpper = true := by decide
  apply Text.lower_of_small
  intro c member
  rcases characters c (within c member) with small | digit | mark
  · have letter : (c.isUpper || c.isLower) = true := by rw [small, Bool.or_true]
    exact ⟨toNat_of_isAlpha letter, not_isUpper_of_isLower small⟩
  · unfold Char.isDigit at digit
    unfold Char.isUpper
    simp only [Bool.and_eq_true, decide_eq_true_eq, ge_iff_le] at digit ⊢
    have code : c.toNat ≤ 57 := digit.2
    refine ⟨by omega, ?_⟩
    rintro ⟨low, -⟩
    exact absurd (UInt32.le_trans low digit.2) (by decide)
  · exact marks c mark

/-- An option meets a term exactly if the choice that is read from it has the label that the term
demands, if there is one, and lacks the one that it excludes. -/
theorem meets_iff {choice : Choice} {option : WrittenOption}
    (labels : ∀ label, label ∈ choice.labels ↔ option.Carries label) {term : Text}
    (member : term ∈ termsOf entry) :
    option.Meets term ↔ (∀ label ∈ demanded? term, label ∈ choice.labels) ∧
      ∀ label ∈ excluded? term, label ∉ choice.labels := by
  have within := mem_term member
  rcases demanded?_or_excluded? term with ⟨label, rfl, none, some⟩ | ⟨demands, some, none⟩
  · have small : Text.lower (Text.trim label) = Text.trim label := by
      apply lower_characters characters
      intro c inside
      exact within c (List.mem_cons_of_mem '!' ((Text.trim_infix label).subset inside))
    rw [none, some, small, WrittenOption.Meets]
    simp [labels]
  · have small : Text.lower term = term := lower_characters characters within
    have meets : option.Meets term = option.Carries term := by
      rw [WrittenOption.Meets]
      exact fun label same => demands label same
    rw [none, some, small, meets]
    simp [labels]

/-- What an entry without a place demands and excludes admits a choice exactly if the entry selects
the option that the choice is read from. -/
theorem admits_labels (other : ¬ Numeral.isDigits (Text.trim entry) = true)
    (filled : termsOf entry ≠ []) {choice : Choice} {option : WrittenOption}
    (labels : ∀ label, label ∈ choice.labels ↔ option.Carries label) (place : Nat) :
    (FilterEntry.labels (Text.ordered ((termsOf entry).filterMap demanded?))
      (Text.ordered ((termsOf entry).filterMap excluded?))).admits choice = true ↔
        EntrySelects entry place option := by
  rw [EntrySelects, if_neg other, and_iff_right filled, FilterEntry.admits, Bool.and_eq_true,
    List.all_eq_true, List.all_eq_true]
  simp only [Text.mem_ordered, List.mem_filterMap, List.contains_eq_mem, decide_eq_true_eq,
    Bool.not_eq_true', decide_eq_false_iff_not]
  constructor
  · rintro ⟨demands, excludes⟩ term member
    apply (meets_iff characters labels member).2
    constructor
    · exact fun label named => demands label ⟨term, member, named⟩
    · exact fun label named => excludes label ⟨term, member, named⟩
  · intro meets
    constructor
    · rintro label ⟨term, member, named⟩
      exact ((meets_iff characters labels member).1 (meets term member)).1 label named
    · rintro label ⟨term, member, named⟩
      exact ((meets_iff characters labels member).1 (meets term member)).2 label named

/-- An entry is read if it has terms, and what is read, with its position counted from one, admits a
choice exactly if the entry selects the option that the choice is read from. -/
theorem admits_mapPosition
    (small : Numeral.isDigits (Text.trim entry) = true →
      Numeral.digitsValue 0 (Text.trim entry) + 1 < UInt64.size)
    {choice : Choice} {option : WrittenOption} {place : Nat}
    (position : choice.position = place + 1)
    (labels : ∀ label, label ∈ choice.labels ↔ option.Carries label) :
    ((FilterEntry.ofText? entry).isSome = true ↔ termsOf entry ≠ []) ∧
      ((∃ read ∈ FilterEntry.ofText? entry, (read.mapPosition (· + 1)).admits choice = true) ↔
        EntrySelects entry place option) := by
  by_cases digits : Numeral.isDigits (Text.trim entry) = true
  · have word : Numeral.IsWord (Text.trim entry) := ⟨digits, Nat.lt_of_succ_lt (small digits)⟩
    rw [ofText?_digits digits, Numeral.word?_of_isWord word, termsOf_digits digits, EntrySelects,
      if_pos digits]
    constructor
    · simp
    · simp [FilterEntry.mapPosition, FilterEntry.admits, position]
  · rw [ofText?_labels digits]
    by_cases empty : termsOf entry = []
    · rw [if_pos empty, EntrySelects, if_neg digits]
      simp [empty]
    · rw [if_neg empty]
      constructor
      · simp [empty]
      · simp [FilterEntry.mapPosition, admits_labels characters digits empty labels place]

end Entries

/-- What a filter becomes when its positions are counted from one, if none of them overflows. -/
def Source.Reference.movedPositions (filter : Text) : Text := (shiftPositions filter).getD []

section Shifting

variable {filter : Text} (written : IsFilter filter)

include written

/-- In a filter no position overflows. -/
theorem shiftPositions_of_isFilter : Source.Reference.shiftPositions filter =
    some (Source.Reference.movedPositions filter) := by
  cases stops : Source.Reference.shiftPositions filter with
  | some moved => rw [Source.Reference.movedPositions, stops, Option.getD_some]
  | none =>
    obtain ⟨entry, member, read⟩ :=
      List.mem_filterMap.1 (Source.Reference.shiftPositions_eq_none_iff.1 stops)
    have digits : Numeral.isDigits (Text.trim entry) = true := by
      by_contra other
      rw [ofText?_labels other] at read
      split at read
      · cases read
      · cases read
    have small := written.small entry member digits
    rw [ofText?_digits digits, Numeral.word?_of_isWord ⟨digits, Nat.lt_of_succ_lt small⟩] at read
    have value := FilterEntry.position.inj (Option.some.inj read)
    rw [value] at small
    exact absurd small (by decide)

/-- A shifted filter admits a choice exactly if the filter that was written selects the option that
the choice is read from, at the place that the choice is numbered by.

Every entry is shifted and read by itself, so the entries are compared one by one. -/
theorem admits_movedPositions {choice : Choice} {option : WrittenOption} {place : Nat}
    (position : choice.position = place + 1)
    (labels : ∀ label, label ∈ choice.labels ↔ option.Carries label) :
    (Filter.ofText (Source.Reference.movedPositions filter)).admits choice = true ↔
      FilterSelects filter place option := by
  have each : ∀ entry ∈ Text.split ',' filter, _ := fun entry member =>
    admits_mapPosition (fun c inside => written.characters c (Text.mem_split member c inside).1)
      (written.small entry member) position labels
  have filled : (Filter.ofText filter).entries ≠ [] := by
    obtain ⟨entry, member, terms⟩ := written.filled
    obtain ⟨stated, known⟩ := Option.isSome_iff_exists.1 ((each entry member).1.2 terms)
    exact List.ne_nil_of_mem (List.mem_filterMap.2 ⟨entry, member, known⟩)
  have nonempty : ((Filter.ofText filter).mapPositions (· + 1)).entries.isEmpty = false :=
    List.isEmpty_eq_false_iff.2 fun empty => filled (List.map_eq_nil_iff.1 empty)
  rw [Filter.ofText_of_shiftPositions (shiftPositions_of_isFilter written), Filter.admits, nonempty,
    Bool.false_or, List.any_eq_true, FilterSelects]
  constructor
  · rintro ⟨moved, among, admits⟩
    obtain ⟨stated, source, rfl⟩ := List.mem_map.1 among
    obtain ⟨entry, member, known⟩ := List.mem_filterMap.1 source
    exact ⟨entry, member, (each entry member).2.1 ⟨stated, known, admits⟩⟩
  · rintro ⟨entry, member, selects⟩
    obtain ⟨stated, known, admits⟩ := (each entry member).2.2 selects
    exact ⟨_, List.mem_map_of_mem (List.mem_filterMap.2 ⟨entry, member, known⟩), admits⟩

end Shifting

end DynamicPrompt
