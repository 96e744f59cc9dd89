import DynamicPrompt.Expression.Parser
import DynamicPrompt.Proofs.Numeral.Word
import DynamicPrompt.Proofs.Text.Cut

/-!
# Spelling tokens

Names, numerals and quoted texts are written so that each is read as one token before anything that
does not extend it. A text put together from such pieces, with blanks between them or without, is
cut into their tokens, because the bound of the reader counts characters and every piece has one.
-/

namespace DynamicPrompt.Expression

/-- A name of expressions: parts with hyphens between them, the first of which begins with a letter
or an underscore and is no keyword. -/
structure Identifier where
  first : Text
  others : List Text
  starts : first.head?.any startsName = true
  continues : ∀ part ∈ first :: others, part ≠ [] ∧ part.all continuesName = true
  free : keyword? first = none

/-- The name as it is written. -/
def Identifier.text (name : Identifier) : Text :=
  name.first ++ (name.others.map ('-' :: ·)).flatten

/-- Whether a text is a name of expressions. -/
def IsName (text : Text) : Prop := ∃ name : Identifier, name.text = text

/-- A numeral of expressions: digits, digits with a point and decimals, or a point and decimals. -/
structure NumberLiteral where
  whole : Text
  decimals : Option Text
  digits : whole.all Char.isDigit = true
  fraction : ∀ digits ∈ decimals, Numeral.isDigits digits = true
  filled : whole = [] → decimals ≠ none

namespace NumberLiteral

/-- The point and the decimals, if there are any. -/
def fractionText (literal : NumberLiteral) : Text :=
  match literal.decimals with
  | some decimals => '.' :: decimals
  | none => []

/-- The numeral as it is written. -/
def text (literal : NumberLiteral) : Text := literal.whole ++ literal.fractionText

/-- The double nearest to the number that is written. -/
def value (literal : NumberLiteral) : Float :=
  Numeral.ofScientific (Numeral.digitsValue 0 (literal.whole ++ literal.decimals.getD []))
    (-Int.ofNat (literal.decimals.getD []).length)

end NumberLiteral

/-- A text between two quotation marks of one kind, without that mark and without backslashes. -/
structure Quotation where
  quote : Char
  content : Text
  quotes : quote = '\x22' ∨ quote = '\x27'
  inside : ∀ c ∈ content, c ≠ quote ∧ c ≠ '\\'

/-- The text with its quotation marks. -/
def Quotation.text (quotation : Quotation) : Text :=
  quotation.quote :: (quotation.content ++ [quotation.quote])

/-- The characters that extend no name, no word and no numeral. -/
def endsToken (c : Char) : Bool := !continuesName c && c != '-' && c != '.'

section Characters

/-- A character that begins a name may stand inside one. -/
theorem continuesName_of_startsName {c : Char} (starts : startsName c = true) :
    continuesName c = true := by
  simp only [startsName, continuesName, Char.isAlphanum, Bool.or_eq_true, beq_iff_eq] at starts ⊢
  rcases starts with letter | rfl
  · exact .inl (.inl letter)
  · exact .inr rfl

/-- A digit may stand inside a name. -/
theorem continuesName_of_isDigit {c : Char} (digit : c.isDigit = true) :
    continuesName c = true := by
  simp [continuesName, Char.isAlphanum, digit]

/-- A digit begins no name. -/
theorem startsName_of_isDigit {c : Char} (digit : c.isDigit = true) : startsName c = false := by
  have underscore : c ≠ '_' := Numeral.ne_of_isDigit digit (by decide)
  simp only [Char.isDigit, Bool.and_eq_true, decide_eq_true_eq] at digit
  have low : 48 ≤ c.toNat := digit.1
  have high : c.toNat ≤ 57 := digit.2
  have noLetter : c.isAlpha = false := by
    unfold Char.isAlpha Char.isUpper Char.isLower
    rw [← Bool.not_eq_true]
    simp only [Bool.or_eq_true, Bool.and_eq_true, decide_eq_true_eq, ge_iff_le]
    intro letter
    have codes : 65 ≤ c.toNat ∧ c.toNat ≤ 90 ∨ 97 ≤ c.toNat ∧ c.toNat ≤ 122 := letter
    omega
  simp [startsName, noLetter, underscore]

/-- A character of a name is no blank between tokens. -/
theorem isSpace_of_continuesName {c : Char} (continues : continuesName c = true) :
    isSpace c = false := by
  have blanks : ∀ d ∈ " \t\r\n".toList, continuesName d = false := by decide
  have apart : ∀ d ∈ " \t\r\n".toList, c ≠ d := by
    rintro d member rfl
    rw [blanks c member] at continues
    exact Bool.noConfusion continues
  simp [isSpace, apart]

/-- A character of a name is no blank. -/
theorem isBlank_of_continuesName {c : Char} (continues : continuesName c = true) :
    isBlank c = false := by
  rw [continuesName, Bool.or_eq_true, beq_iff_eq] at continues
  rcases continues with alphanumeric | rfl
  · exact isBlank_of_isAlphanum alphanumeric
  · decide

/-- What ends a token ends a run of characters of a name. -/
theorem continuesName_of_endsToken {c : Char} (ends : endsToken c = true) :
    continuesName c = false := by
  simp only [endsToken, Bool.and_eq_true, Bool.not_eq_true'] at ends
  exact ends.1.1

/-- What ends a token is no digit. -/
theorem isDigit_of_endsToken {c : Char} (ends : endsToken c = true) : c.isDigit = false := by
  rw [← Bool.not_eq_true]
  intro digit
  have noName := continuesName_of_endsToken ends
  rw [continuesName_of_isDigit digit] at noName
  exact Bool.noConfusion noName

/-- What ends a token is no hyphen. -/
theorem ne_hyphen_of_endsToken {c : Char} (ends : endsToken c = true) : c ≠ '-' := by
  rintro rfl
  exact absurd ends (by decide)

/-- What ends a token is no point. -/
theorem ne_point_of_endsToken {c : Char} (ends : endsToken c = true) : c ≠ '.' := by
  rintro rfl
  exact absurd ends (by decide)

end Characters

section Names

/-- Where a name may begin, no blank is passed and a word is read. -/
theorem starts_word {front : Text} (starts : front.head?.any startsName = true) :
    front.head?.any (fun c => !isSpace c) = true ∧
      ∀ rest, token? (front ++ rest) = some (word (front ++ rest)) := by
  cases front with
  | nil => exact absurd starts Bool.false_ne_true
  | cons c front =>
    have start : startsName c = true := starts
    constructor
    · simp [isSpace_of_continuesName (continuesName_of_startsName start)]
    · exact fun rest => if_pos start

/-- What follows the first part of a name begins with a hyphen or belongs to the name no more. -/
theorem ends_parts {others : List Text} {rest : Text}
    (ends : ∀ c ∈ rest.head?, endsToken c = true) :
    ∀ c ∈ ((others.map ('-' :: ·)).flatten ++ rest).head?, continuesName c = false := by
  intro c head
  cases others with
  | nil => exact continuesName_of_endsToken (ends c head)
  | cons part others =>
    obtain rfl : '-' = c := by simpa using head
    decide

/-- The further parts of a name are read as long as hyphens follow. -/
theorem hyphenated_parts {rest : Text} (ends : ∀ c ∈ rest.head?, endsToken c = true) :
    ∀ {others : List Text}, (∀ part ∈ others, part ≠ [] ∧ part.all continuesName = true) →
      ∀ {bound : Nat}, others.length ≤ bound →
        hyphenated bound ((others.map ('-' :: ·)).flatten ++ rest) =
          ((others.map ('-' :: ·)).flatten, rest)
  | [], _, bound, _ => by
    have noHyphen : ∀ after, rest ≠ '-' :: after := by
      rintro after rfl
      exact ne_hyphen_of_endsToken (ends '-' rfl) rfl
    cases bound with
    | zero => rfl
    | succ bound =>
      rw [List.map_nil, List.flatten_nil, List.nil_append, hyphenated]
      exact fun _ after _ => noHyphen after
  | part :: others, parts, bound, enough => by
    obtain ⟨bound, rfl⟩ : ∃ fewer, bound = fewer + 1 :=
      Nat.exists_eq_succ_of_ne_zero (by rw [List.length_cons] at enough; omega)
    obtain ⟨filled, continues⟩ := parts part List.mem_cons_self
    have later : hyphenated bound ((others.map ('-' :: ·)).flatten ++ rest) =
        ((others.map ('-' :: ·)).flatten, rest) :=
      hyphenated_parts ends (fun part member => parts part (List.mem_cons_of_mem _ member))
        (Nat.le_of_succ_le_succ enough)
    have nonempty : ¬ part.isEmpty = true := by
      rw [List.isEmpty_iff]
      exact filled
    rw [List.map_cons, List.flatten_cons, List.cons_append, List.cons_append, List.append_assoc,
      hyphenated, Text.takeWhile_run continues (ends_parts ends),
      Text.dropWhile_run continues (ends_parts ends), later]
    dsimp only
    rw [if_neg nonempty, List.cons_append]

/-- Every further part of a name takes a character at least. -/
theorem length_le_parts (others : List Text) :
    others.length ≤ (others.map ('-' :: ·)).flatten.length := by
  induction others with
  | nil => exact Nat.le_refl _
  | cons part others inductionHypothesis =>
    simp only [List.map_cons, List.flatten_cons, List.length_cons, List.length_append]
    omega

/-- A name is made of characters of names and hyphens. -/
theorem Identifier.mem_text (name : Identifier) :
    ∀ c ∈ name.text, continuesName c = true ∨ c = '-' := by
  obtain ⟨first, others, starts, continues, free⟩ := name
  intro c member
  have within : ∀ part ∈ first :: others, c ∈ part → continuesName c = true :=
    fun part among inside => List.all_eq_true.1 (continues part among).2 c inside
  rcases List.mem_append.1 member with front | back
  · exact .inl (within first List.mem_cons_self front)
  · obtain ⟨hyphened, among, inside⟩ := List.mem_flatten.1 back
    obtain ⟨part, later, rfl⟩ := List.mem_map.1 among
    rcases List.mem_cons.1 inside with hyphen | after
    · exact .inr hyphen
    · exact .inl (within part (.tail _ later) after)

/-- A name is not empty. -/
theorem Identifier.text_ne_nil (name : Identifier) : name.text ≠ [] := by
  obtain ⟨first, others, starts, continues, free⟩ := name
  intro empty
  exact (continues first List.mem_cons_self).1 (List.append_eq_nil_iff.1 empty).1

/-- A name begins where a name may begin. -/
theorem Identifier.starts_text (name : Identifier) : name.text.head?.any startsName = true := by
  obtain ⟨first, others, starts, continues, free⟩ := name
  cases first with
  | nil => exact absurd starts Bool.false_ne_true
  | cons c first => exact starts

/-- A name has no blanks. -/
theorem isUnspaced_identifier (name : Identifier) : Text.IsUnspaced name.text where
  filled := name.text_ne_nil
  unspaced := by
    intro c member
    rcases name.mem_text c member with continues | rfl
    · exact isBlank_of_continuesName continues
    · decide

/-- No other character than those of names and hyphens stands in a name. -/
theorem IsName.ne {name : Text} (named : IsName name) {c mark : Char} (member : c ∈ name)
    (other : continuesName mark = false ∧ mark ≠ '-') : c ≠ mark := by
  obtain ⟨identifier, rfl⟩ := named
  rintro rfl
  rcases identifier.mem_text c member with continues | hyphen
  · rw [other.1] at continues
    exact Bool.false_ne_true continues
  · exact other.2 hyphen

/-- A name has no blanks, none around it either. -/
theorem IsName.isUnspaced {name : Text} (named : IsName name) : Text.IsUnspaced name := by
  obtain ⟨identifier, rfl⟩ := named
  exact isUnspaced_identifier identifier

/-- A name is read as one. -/
theorem token?_identifier (name : Identifier) {rest : Text}
    (ends : ∀ c ∈ rest.head?, endsToken c = true) :
    token? (name.text ++ rest) = some (.name name.text, rest) := by
  rw [(starts_word name.starts_text).2]
  obtain ⟨first, others, starts, continues, free⟩ := name
  obtain ⟨-, run⟩ := continues first List.mem_cons_self
  have later : ∀ part ∈ others, part ≠ [] ∧ part.all continuesName = true :=
    fun part member => continues part (List.mem_cons_of_mem first member)
  have enough : others.length ≤ ((others.map ('-' :: ·)).flatten ++ rest).length := by
    rw [List.length_append]
    exact Nat.le_trans (length_le_parts others) (Nat.le_add_right _ _)
  have read : word (first ++ ((others.map ('-' :: ·)).flatten ++ rest)) =
      (.name (first ++ (others.map ('-' :: ·)).flatten), rest) := by
    rw [word, Text.takeWhile_run run (ends_parts ends), Text.dropWhile_run run (ends_parts ends),
      free, hyphenated_parts ends later enough]
  rw [Identifier.text, List.append_assoc, read]

/-- A keyword is read as the token it stands for. -/
theorem token?_keyword {keyword rest : Text} {token : Token} (known : keyword? keyword = some token)
    (starts : keyword.head?.any startsName = true) (continues : keyword.all continuesName = true)
    (ends : ∀ c ∈ rest.head?, endsToken c = true) :
    token? (keyword ++ rest) = some (token, rest) := by
  have after : ∀ c ∈ rest.head?, continuesName c = false :=
    fun c head => continuesName_of_endsToken (ends c head)
  rw [(starts_word starts).2, word, Text.takeWhile_run continues after,
    Text.dropWhile_run continues after, known]

end Names

section Numerals

variable (literal : NumberLiteral)

/-- A numeral is made of digits and points. -/
theorem NumberLiteral.mem_text : ∀ c ∈ literal.text, c.isDigit = true ∨ c = '.' := by
  obtain ⟨whole, decimals, digits, fraction, filled⟩ := literal
  intro c member
  rcases List.mem_append.1 member with before | after
  · exact .inl (List.all_eq_true.1 digits c before)
  · cases decimals with
    | none => exact absurd after List.not_mem_nil
    | some decimals =>
      rcases List.mem_cons.1 after with rfl | later
      · exact .inr rfl
      · exact .inl (Numeral.isDigit_of_mem (fraction decimals rfl) c later)

/-- A numeral is not empty. -/
theorem NumberLiteral.text_ne_nil : literal.text ≠ [] := by
  obtain ⟨whole, decimals, digits, fraction, filled⟩ := literal
  intro empty
  obtain ⟨noWhole, noFraction⟩ := List.append_eq_nil_iff.1 empty
  cases decimals with
  | none => exact filled noWhole rfl
  | some decimals => exact absurd noFraction (List.cons_ne_nil _ _)

/-- Characters other than digits and points do not stand in a numeral. -/
theorem NumberLiteral.ne_of_mem {c d : Char} (member : c ∈ literal.text)
    (other : d.isDigit = false ∧ d ≠ '.') : c ≠ d := by
  rintro rfl
  rcases literal.mem_text c member with digit | point
  · rw [other.1] at digit
    exact Bool.noConfusion digit
  · exact other.2 point

/-- A numeral denotes its value. -/
theorem magnitude?_numeral : Numeral.magnitude? literal.text = some literal.value := by
  have unscaled : Text.cutAt? (fun c => c == 'e' || c == 'E') literal.text = none := by
    refine Text.cutAt?_none fun c member => ?_
    simp [literal.ne_of_mem member (d := 'e') (by decide),
      literal.ne_of_mem member (d := 'E') (by decide)]
  rw [Numeral.magnitude?, unscaled]
  dsimp only
  obtain ⟨whole, decimals, digits, fraction, filled⟩ := literal
  have unpointed : ∀ c ∈ whole, (c == '.') = false := fun c member =>
    beq_false_of_ne (Numeral.ne_of_isDigit (List.all_eq_true.1 digits c member) (by decide))
  cases decimals with
  | none =>
    have text : NumberLiteral.text ⟨whole, none, digits, fraction, filled⟩ = whole :=
      List.append_nil whole
    have nonempty : whole.isEmpty = false := by
      rw [List.isEmpty_eq_false_iff]
      exact fun empty => filled empty rfl
    rw [text, Text.cutAt?_none unpointed]
    simp [NumberLiteral.value, digits, nonempty]
  | some decimals =>
    have text : NumberLiteral.text ⟨whole, some decimals, digits, fraction, filled⟩ =
        whole ++ '.' :: decimals := rfl
    have run := fraction decimals rfl
    have decimal : decimals.all Char.isDigit = true :=
      List.all_eq_true.2 (Numeral.isDigit_of_mem run)
    have nonempty : decimals ≠ [] := Numeral.ne_nil_of_isDigits run
    rw [text, Text.cutAt?_run unpointed (by decide)]
    simp [NumberLiteral.value, digits, decimal, nonempty]

/-- A numeral is read as its value: it has no sign and is no name of a special value. -/
theorem float?_numeral : Numeral.float? literal.text = some literal.value := by
  have apart : ∀ {c d : Char}, c ∈ literal.text → d.isDigit = false ∧ d ≠ '.' → c ≠ d :=
    literal.ne_of_mem
  have small : literal.text.map Char.toLower = literal.text := by
    refine (List.map_congr_left fun c member => ?_).trans (List.map_id _)
    rcases literal.mem_text c member with digit | rfl
    · exact Numeral.toLower_of_isDigit digit
    · rfl
  have unnamed : ∀ {d : Char} {name : Text}, d.isDigit = false ∧ d ≠ '.' → d ∈ name →
      (literal.text == name) = false := by
    intro d name other member
    refine beq_false_of_ne fun same => ?_
    exact apart (same ▸ member) other rfl
  have short : (literal.text == "inf".toList) = false :=
    unnamed (d := 'i') (by decide) List.mem_cons_self
  have long : (literal.text == "infinity".toList) = false :=
    unnamed (d := 'i') (by decide) List.mem_cons_self
  have noNumber : (literal.text == "nan".toList) = false :=
    unnamed (d := 'n') (by decide) List.mem_cons_self
  have read := magnitude?_numeral literal
  unfold Numeral.float?
  -- Neither sign begins the numeral, so it is read as a whole.
  split
  next negative rest parts =>
  split at parts
  · next after same => exact absurd rfl (apart (same ▸ List.mem_cons_self) (d := '-') (by decide))
  · next after same => exact absurd rfl (apart (same ▸ List.mem_cons_self) (d := '+') (by decide))
  · cases parts
    simp only [small, short, long, noNumber, read, Bool.or_self, Bool.false_eq_true, if_false,
      Option.map_some]

/-- A numeral ends where its last digit is followed by no character of a numeral. -/
theorem number?_numeral {rest : Text} (ends : ∀ c ∈ rest.head?, endsToken c = true) :
    number? (literal.text ++ rest) = some (.literal (.number literal.value), rest) := by
  have after : ∀ c ∈ rest.head?, c.isDigit = false :=
    fun c head => isDigit_of_endsToken (ends c head)
  have noPoint : ∀ others, rest ≠ '.' :: others := by
    rintro others rfl
    exact ne_point_of_endsToken (ends '.' rfl) rfl
  have read := float?_numeral literal
  obtain ⟨whole, decimals, digits, fraction, filled⟩ := literal
  cases decimals with
  | none =>
    have text : NumberLiteral.text ⟨whole, none, digits, fraction, filled⟩ = whole :=
      List.append_nil whole
    rw [text] at read ⊢
    unfold number?
    rw [Text.takeWhile_run digits after, Text.dropWhile_run digits after]
    dsimp only
    split
    · exact absurd rfl (noPoint _)
    · rw [List.append_nil, read, Option.map_some]
  | some decimals =>
    have run := fraction decimals rfl
    have decimal : decimals.all Char.isDigit = true :=
      List.all_eq_true.2 (Numeral.isDigit_of_mem run)
    have nonempty : ¬ decimals.isEmpty = true := by
      rw [List.isEmpty_iff]
      exact Numeral.ne_nil_of_isDigits run
    have text : NumberLiteral.text ⟨whole, some decimals, digits, fraction, filled⟩ =
        whole ++ '.' :: decimals := rfl
    have point : ∀ c ∈ ('.' :: (decimals ++ rest)).head?, c.isDigit = false := by
      rintro c head
      obtain rfl : '.' = c := Option.some.inj head
      decide
    rw [text] at read ⊢
    unfold number?
    rw [List.append_assoc, List.cons_append, Text.takeWhile_run digits point,
      Text.dropWhile_run digits point]
    simp only [Text.takeWhile_run decimal after, Text.dropWhile_run decimal after, if_neg nonempty,
      read, Option.map_some]

/-- Where a numeral begins, no blank is passed and a numeral is read. -/
theorem starts_numeral : literal.text.head?.any (fun c => !isSpace c) = true ∧
    ∀ rest, token? (literal.text ++ rest) = number? (literal.text ++ rest) := by
  have characters := literal.mem_text
  cases written : literal.text with
  | nil => exact absurd written literal.text_ne_nil
  | cons c others =>
    rw [written] at characters
    rcases characters c List.mem_cons_self with digit | rfl
    · have noName : startsName c = false := startsName_of_isDigit digit
      constructor
      · simp [isSpace_of_continuesName (continuesName_of_isDigit digit)]
      · intro rest
        simp [token?, noName, digit]
    · exact ⟨rfl, fun _ => rfl⟩

/-- A numeral is read as one token. -/
theorem token?_numeral {rest : Text} (ends : ∀ c ∈ rest.head?, endsToken c = true) :
    token? (literal.text ++ rest) = some (.literal (.number literal.value), rest) := by
  rw [(starts_numeral literal).2, number?_numeral literal ends]

end Numerals

section Quotations

/-- A text without its quotation mark and without backslashes is read up to the mark. -/
theorem quoted?_plain {quote : Char} (unescaped : quote ≠ '\\') {rest : Text} :
    ∀ {content : Text}, (∀ c ∈ content, c ≠ quote ∧ c ≠ '\\') →
      quoted? quote (content ++ quote :: rest) = some (content, rest)
  | [], _ => by
    rw [List.nil_append, quoted?, if_pos rfl]
    exact fun _ _ same _ => unescaped same
  | c :: content, plain => by
    obtain ⟨other, noEscape⟩ := plain c List.mem_cons_self
    have later : quoted? quote (content ++ quote :: rest) = some (content, rest) :=
      quoted?_plain unescaped fun d member => plain d (List.mem_cons_of_mem c member)
    rw [List.cons_append, quoted?, if_neg other, later]
    · rfl
    · exact fun _ _ same _ => noEscape same

/-- What is read up to the closing quotation mark is one token. -/
theorem token?_quoted {quote : Char} (quotes : quote = '\x22' ∨ quote = '\x27')
    {after content rest : Text} (read : quoted? quote after = some (content, rest)) :
    token? (quote :: after) = some (.literal (.text content), rest) := by
  have noName : startsName quote = false := by
    rcases quotes with rfl | rfl <;> decide
  have noNumber : (quote.isDigit || quote = '.') = false := by
    rcases quotes with rfl | rfl <;> decide
  simp only [token?, noName, noNumber, if_pos quotes, read, Bool.false_eq_true, if_false,
    Option.map_some]

/-- A quoted text is read as one token, whatever follows it. -/
theorem token?_quotation (quotation : Quotation) (rest : Text) :
    token? (quotation.text ++ rest) = some (.literal (.text quotation.content), rest) := by
  obtain ⟨quote, content, quotes, inside⟩ := quotation
  have unescaped : quote ≠ '\\' := by
    rcases quotes with rfl | rfl <;> decide
  have read : quoted? quote (content ++ [quote] ++ rest) = some (content, rest) := by
    rw [List.append_assoc]
    exact quoted?_plain unescaped inside
  exact token?_quoted quotes read

end Quotations

section Cutting

variable {text piece rest : Text} {first : Token} {tokens : List Token}

/-- The tokens of a text are found with every bound that is large enough. -/
def Lexes (text : Text) (tokens : List Token) : Prop :=
  ∀ bound, text.length ≤ bound → tokensWithin? bound text = some tokens

/-- The empty text has no tokens. -/
theorem Lexes.nil : Lexes [] [] := by
  intro bound _
  cases bound <;> rfl

/-- A blank between tokens is passed. -/
theorem Lexes.space {c : Char} (blank : isSpace c = true) (lexes : Lexes text tokens) :
    Lexes (c :: text) tokens := by
  intro bound enough
  rw [List.length_cons] at enough
  obtain ⟨bound, rfl⟩ : ∃ fewer, bound = fewer + 1 :=
    Nat.exists_eq_succ_of_ne_zero (by omega)
  have others := lexes (bound + 1) (by omega)
  rw [tokensWithin?] at others ⊢
  rw [List.dropWhile_cons_of_pos blank]
  exact others

/-- A piece that is read as a token is the first of the tokens. -/
theorem Lexes.token (solid : piece.head?.any (fun c => !isSpace c) = true)
    (read : token? (piece ++ rest) = some (first, rest)) (others : Lexes rest tokens) :
    Lexes (piece ++ rest) (first :: tokens) := by
  cases piece with
  | nil => exact absurd solid Bool.false_ne_true
  | cons c piece =>
    intro bound enough
    simp only [List.length_append, List.length_cons] at enough
    obtain ⟨bound, rfl⟩ : ∃ fewer, bound = fewer + 1 :=
      Nat.exists_eq_succ_of_ne_zero (by omega)
    have after := others bound (by omega)
    have begins : ¬ isSpace c = true := by simpa using solid
    rw [List.cons_append] at read ⊢
    rw [tokensWithin?, List.dropWhile_cons_of_neg begins]
    dsimp only
    rw [read]
    simp [after]

/-- A text is cut into tokens, whatever stands after it that does not extend its last token. -/
def Cuts (text : Text) (tokens : List Token) : Prop :=
  ∀ ⦃rest : Text⦄ ⦃others : List Token⦄, (∀ c ∈ rest.head?, endsToken c = true) →
    Lexes rest others → Lexes (text ++ rest) (tokens ++ others)

/-- The text without characters has no tokens. -/
theorem Cuts.nil : Cuts [] [] := fun _ _ _ lexes => lexes

/-- A piece that is read as a token before whatever does not extend it is that token. -/
theorem Cuts.token (solid : piece.head?.any (fun c => !isSpace c) = true)
    (read : ∀ {rest : Text}, (∀ c ∈ rest.head?, endsToken c = true) →
      token? (piece ++ rest) = some (first, rest)) : Cuts piece [first] :=
  fun _ _ ends others => others.token solid (read ends)

/-- A sign is read as its token whatever follows it. -/
theorem Cuts.sign (solid : piece.head?.any (fun c => !isSpace c) = true)
    (read : ∀ rest : Text, token? (piece ++ rest) = some (first, rest)) (cuts : Cuts text tokens) :
    Cuts (piece ++ text) (first :: tokens) := by
  intro rest later ends others
  rw [List.append_assoc]
  exact (cuts ends others).token solid (read _)

/-- A sign that begins no sign of two characters is read as its token. -/
theorem Cuts.single {c : Char} (known : sign? c = some first) (single : ∀ d, pair? c d = none)
    (plain : isSpace c = false ∧ startsName c = false ∧ (c.isDigit || c = '.') = false ∧
      ¬ (c = '\x22' ∨ c = '\x27')) (cuts : Cuts text tokens) :
    Cuts (c :: text) (first :: tokens) := by
  obtain ⟨solid, noName, noNumber, noQuote⟩ := plain
  refine @Cuts.sign text [c] first tokens (by simp [solid]) (fun rest => ?_) cuts
  rw [List.singleton_append]
  cases rest with
  | nil => simp [token?, noName, noNumber, noQuote, known]
  | cons d rest => simp [token?, noName, noNumber, noQuote, known, single]

/-- Two texts one after the other are cut one after the other, if the second does not extend the
last token of the first. -/
theorem Cuts.append {d : Char} {second : Text} {later : List Token} (cuts : Cuts text tokens)
    (apart : endsToken d = true) (others : Cuts (d :: second) later) :
    Cuts (text ++ d :: second) (tokens ++ later) := by
  intro rest after ends lexes
  rw [List.append_assoc, List.append_assoc]
  refine cuts ?_ (others ends lexes)
  intro c head
  obtain rfl : d = c := Option.some.inj head
  exact apart

/-- A blank is passed. -/
theorem Cuts.space (cuts : Cuts text tokens) : Cuts (' ' :: text) tokens :=
  fun _ _ ends lexes => (cuts ends lexes).space (by decide)

/-- The tokens of a whole text. -/
theorem Cuts.tokens? (cuts : Cuts text tokens) : tokens? text = some tokens := by
  have lexes := @cuts [] [] (by simp) Lexes.nil
  rw [List.append_nil, List.append_nil] at lexes
  exact lexes text.length (Nat.le_refl _)

/-- A name is cut off as one token. -/
theorem Cuts.identifier (name : Identifier) : Cuts name.text [.name name.text] :=
  .token (starts_word name.starts_text).1 (token?_identifier name)

/-- A keyword is cut off as the token it stands for. -/
theorem Cuts.keyword {keyword : Text} (known : keyword? keyword = some first)
    (starts : keyword.head?.any startsName = true) (continues : keyword.all continuesName = true) :
    Cuts keyword [first] :=
  .token (starts_word starts).1 (token?_keyword known starts continues)

/-- A numeral is cut off as one token. -/
theorem Cuts.numeral (literal : NumberLiteral) :
    Cuts literal.text [.literal (.number literal.value)] :=
  .token (starts_numeral literal).1 (token?_numeral literal)

/-- A quoted text is cut off as one token. -/
theorem Cuts.quotation (quotation : Quotation) :
    Cuts quotation.text [.literal (.text quotation.content)] := by
  refine .token ?_ fun _ => token?_quotation quotation _
  obtain ⟨quote, content, quotes, inside⟩ := quotation
  rcases quotes with rfl | rfl <;> rfl

end Cutting

end DynamicPrompt.Expression
