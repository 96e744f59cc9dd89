import DynamicPrompt.Text.Basic
import Mathlib.Data.List.Forall2

/-!
# Cutting texts that are known in parts

Readers find out where a part of a text ends. Where a text was put together from parts, they
find exactly the part that was put there, provided that the part has nothing of what ends it
and that what follows begins with it.
-/

namespace DynamicPrompt

/-- A letter or digit of ASCII is no blank. -/
theorem isBlank_of_isAlphanum {c : Char} (alphanumeric : c.isAlphanum = true) :
    isBlank c = false := by
  unfold Char.isAlphanum Char.isAlpha Char.isUpper Char.isLower Char.isDigit at alphanumeric
  simp only [Bool.or_eq_true, Bool.and_eq_true, decide_eq_true_eq, ge_iff_le] at alphanumeric
  have codes : (65 ≤ c.toNat ∧ c.toNat ≤ 90 ∨ 97 ≤ c.toNat ∧ c.toNat ≤ 122) ∨
      48 ≤ c.toNat ∧ c.toNat ≤ 57 := alphanumeric
  cases blank : isBlank c with
  | false => rfl
  | true =>
    simp only [isBlank, blankRanges, List.any_cons, List.any_nil, Bool.or_eq_true,
      Bool.and_eq_true, decide_eq_true_eq, Bool.false_eq_true, or_false] at blank
    omega

namespace Text

/-- A run of passing characters ends where a character that fails follows it. -/
theorem takeWhile_run {test : Char → Bool} {run rest : Text} (passing : run.all test = true)
    (ends : ∀ c ∈ rest.head?, test c = false) : (run ++ rest).takeWhile test = run := by
  rw [List.takeWhile_append_of_pos (by simpa using passing)]
  cases rest with
  | nil => simp
  | cons c rest => simp [ends c rfl]

/-- After a run of passing characters everything is left from the first that fails. -/
theorem dropWhile_run {test : Char → Bool} {run rest : Text} (passing : run.all test = true)
    (ends : ∀ c ∈ rest.head?, test c = false) : (run ++ rest).dropWhile test = rest := by
  rw [List.dropWhile_append_of_pos (by simpa using passing)]
  cases rest with
  | nil => rfl
  | cons c rest => simp [ends c rfl]

/-- A cut is made at the first character that passes the test. -/
theorem cutAt?_run {test : Char → Bool} {run rest : Text} {c : Char}
    (failing : ∀ d ∈ run, test d = false) (passing : test c = true) :
    cutAt? test (run ++ c :: rest) = some (run, rest) := by
  induction run with
  | nil => simp [cutAt?, passing]
  | cons d run inductionHypothesis =>
    have first : test d = false := failing d List.mem_cons_self
    have others := inductionHypothesis fun e member => failing e (List.mem_cons_of_mem d member)
    rw [List.cons_append, cutAt?, others]
    simp [first]

/-- Without a character that passes the test there is no cut. -/
theorem cutAt?_none {test : Char → Bool} {text : Text} (failing : ∀ c ∈ text, test c = false) :
    cutAt? test text = none := by
  induction text with
  | nil => rfl
  | cons c rest inductionHypothesis =>
    have first : test c = false := failing c List.mem_cons_self
    have others := inductionHypothesis fun d member => failing d (List.mem_cons_of_mem c member)
    rw [cutAt?, others]
    simp [first]

/-- A text that lacks a character is not cut at it. -/
theorem cutAt?_lacking {text : Text} {c : Char} (absent : c ∉ text) :
    cutAt? (· == c) text = none := by
  apply cutAt?_none
  intro d member
  rw [beq_eq_false_iff_ne]
  rintro rfl
  exact absent member

/-- A cut at a character is made behind a text that lacks it. -/
theorem cutAt?_behind {run : Text} {c : Char} (absent : c ∉ run) (rest : Text) :
    cutAt? (· == c) (run ++ c :: rest) = some (run, rest) := by
  apply cutAt?_run
  · intro d member
    rw [beq_eq_false_iff_ne]
    rintro rfl
    exact absent member
  · exact beq_self_eq_true c

/-- Nothing is taken off the start of a text exactly if its first character fails the test. -/
theorem dropWhile_eq_self_iff {test : Char → Bool} {text : Text} :
    text.dropWhile test = text ↔ ∀ c ∈ text.head?, test c = false := by
  cases text with
  | nil => simp
  | cons c rest =>
    rw [List.dropWhile_cons, List.head?_cons]
    split
    · next passes =>
      have shorter : rest.dropWhile test ≠ c :: rest := by
        intro same
        have length := (List.dropWhile_suffix (l := rest) test).length_le
        rw [same, List.length_cons] at length
        omega
      simp [shorter, passes]
    · next fails => simp [fails]

/-- Nothing is taken off the end of a text exactly if its last character fails the test. -/
theorem dropEndWhile_eq_self_iff {test : Char → Bool} {text : Text} :
    dropEndWhile test text = text ↔ ∀ c ∈ text.getLast?, test c = false := by
  rw [dropEndWhile, List.reverse_eq_iff, dropWhile_eq_self_iff, List.head?_reverse]

/-- A text without some characters at its end is a beginning of it. -/
theorem dropEndWhile_isPrefix (test : Char → Bool) (text : Text) :
    dropEndWhile test text <+: text := by
  rw [dropEndWhile, ← List.reverse_suffix, List.reverse_reverse]
  exact List.dropWhile_suffix test

/-- A text without some characters at its ends stands together in it. -/
theorem dropBothWhile_infix (test : Char → Bool) (text : Text) :
    dropEndWhile test (text.dropWhile test) <:+: text :=
  (dropEndWhile_isPrefix test _).isInfix.trans (List.dropWhile_suffix test).isInfix

/-- Nothing is taken off either end of a text exactly if the characters there fail the test. -/
theorem dropBothWhile_eq_self_iff {test : Char → Bool} {text : Text} :
    dropEndWhile test (text.dropWhile test) = text ↔
      (∀ c ∈ text.head?, test c = false) ∧ (∀ c ∈ text.getLast?, test c = false) := by
  rw [← dropWhile_eq_self_iff, ← dropEndWhile_eq_self_iff]
  constructor
  · intro kept
    have shorter := dropEndWhile_isPrefix test (text.dropWhile test)
    rw [kept] at shorter
    have front := (List.dropWhile_suffix test).eq_of_length_le shorter.length_le
    rw [front] at kept
    exact ⟨front, kept⟩
  · rintro ⟨front, back⟩
    rw [front, back]

/-- A text that neither begins nor ends with a blank has none to take off. -/
theorem trim_solid {text : Text} (starts : ∀ c ∈ text.head?, isBlank c = false)
    (ends : ∀ c ∈ text.getLast?, isBlank c = false) : trim text = text :=
  dropBothWhile_eq_self_iff.2 ⟨starts, ends⟩

/-- A text without blanks has none to take off. -/
theorem trim_unspaced {text : Text} (unspaced : ∀ c ∈ text, isBlank c = false) :
    trim text = text :=
  trim_solid (fun c head => unspaced c (List.mem_of_mem_head? head))
    (fun c last => unspaced c (List.mem_of_mem_getLast? last))

/-- Not empty, and without blanks. -/
structure IsUnspaced (text : Text) : Prop where
  filled : text ≠ []
  unspaced : ∀ c ∈ text, isBlank c = false

/-- Not empty, and without blanks around it. -/
structure IsSolid (text : Text) : Prop where
  filled : text ≠ []
  starts : ∀ c ∈ text.head?, isBlank c = false
  ends : ∀ c ∈ text.getLast?, isBlank c = false

/-- A text without blanks has none around it. -/
theorem IsUnspaced.solid {text : Text} (word : IsUnspaced text) : IsSolid text where
  filled := word.filled
  starts := fun c head => word.unspaced c (List.mem_of_mem_head? head)
  ends := fun c last => word.unspaced c (List.mem_of_mem_getLast? last)

/-- A word before a text, with a blank between them, leaves the text without blanks around it. -/
theorem IsSolid.after {word rest : Text} (unspaced : IsUnspaced word) (solid : IsSolid rest) :
    IsSolid (word ++ ' ' :: rest) where
  filled := List.append_ne_nil_of_left_ne_nil unspaced.filled _
  starts := by
    intro c head
    rw [List.head?_append_of_ne_nil _ unspaced.filled] at head
    exact unspaced.solid.starts c head
  ends := by
    intro c last
    rw [List.append_cons, List.getLast?_append_of_ne_nil _ solid.filled] at last
    exact solid.ends c last

/-- A text without blanks around it has none to take off. -/
theorem IsSolid.trim {text : Text} (solid : IsSolid text) : trim text = text :=
  trim_solid solid.starts solid.ends

/-- Blanks before a text are taken off with its own. -/
theorem trim_append {spacing : Text} (blank : spacing.all isBlank = true) (text : Text) :
    trim (spacing ++ text) = trim text := by
  rw [trim, trimStart, List.dropWhile_append_of_pos (List.all_eq_true.1 blank)]
  rfl

/-- Trimming takes off the blanks around a text that has none of its own. -/
theorem trim_cons {text : Text} {blank : Char} (spacing : isBlank blank = true)
    (unspaced : ∀ c ∈ text, isBlank c = false) : trim (blank :: text) = text := by
  have alone : trim (blank :: text) = trim text :=
    @trim_append [blank] (by simp [spacing]) text
  rw [alone, trim_unspaced unspaced]

/-- The blanks at the start of a text do not reach beyond its first part, unless that is blank. -/
theorem trimStart_append (text rest : Text) :
    trimStart (text ++ rest) =
      if (trimStart text).isEmpty then trimStart rest else trimStart text ++ rest :=
  List.dropWhile_append

/-- The blanks at the end of a text do not reach back beyond its last part, unless that is
blank. -/
theorem trimEnd_append (text rest : Text) :
    trimEnd (text ++ rest) =
      if (trimEnd rest).isEmpty then trimEnd text else text ++ trimEnd rest := by
  unfold trimEnd dropEndWhile
  rw [List.reverse_append, List.dropWhile_append, List.isEmpty_reverse]
  split
  · rfl
  · rw [List.reverse_append, List.reverse_reverse]

/-- Trimming leaves characters that stand together in the text. -/
theorem trim_infix (text : Text) : trim text <:+: text := dropBothWhile_infix isBlank text

/-- What is taken off the start of a text are blanks. -/
theorem exists_trimStart (text : Text) :
    ∃ spacing, text = spacing ++ trimStart text ∧ spacing.all isBlank = true :=
  ⟨text.takeWhile isBlank, List.takeWhile_append_dropWhile.symm, List.all_takeWhile⟩

/-- What is taken off the end of a text are blanks. -/
theorem exists_trimEnd (text : Text) :
    ∃ spacing, text = trimEnd text ++ spacing ∧ spacing.all isBlank = true := by
  refine ⟨takeEndWhile isBlank text, ?_, ?_⟩
  · rw [trimEnd, dropEndWhile, takeEndWhile, ← List.reverse_append,
      List.takeWhile_append_dropWhile, List.reverse_reverse]
  · rw [takeEndWhile, List.all_reverse]
    exact List.all_takeWhile

/-- A character that is no blank is left when the blanks around a text are taken off. -/
theorem mem_trim {text : Text} {c : Char} (member : c ∈ text) (solid : isBlank c = false) :
    c ∈ trim text := by
  have apart {spacing : Text} (blank : spacing.all isBlank = true) : c ∉ spacing := by
    intro within
    have passes := List.all_eq_true.1 blank c within
    rw [solid] at passes
    exact Bool.noConfusion passes
  obtain ⟨front, started, frontBlank⟩ := exists_trimStart text
  obtain ⟨back, ended, backBlank⟩ := exists_trimEnd (trimStart text)
  rw [started, ended] at member
  rcases List.mem_append.1 member with before | later
  · exact absurd before (apart frontBlank)
  · rcases List.mem_append.1 later with left | behind
    · exact left
    · exact absurd behind (apart backBlank)

/-- What holds of all characters of a text holds of those that trimming its start leaves. -/
theorem all_trimStart {test : Char → Bool} {text : Text} (all : text.all test = true) :
    (trimStart text).all test = true := by
  rw [List.all_eq_true] at all ⊢
  exact fun c member => all c ((List.dropWhile_suffix isBlank).subset member)

/-- What holds of all characters of a text holds of those that trimming its end leaves. -/
theorem all_trimEnd {test : Char → Bool} {text : Text} (all : text.all test = true) :
    (trimEnd text).all test = true := by
  rw [List.all_eq_true] at all ⊢
  intro c member
  have reversed : c ∈ text.reverse :=
    (List.dropWhile_suffix isBlank).subset (List.mem_reverse.1 member)
  exact all c (List.mem_reverse.1 reversed)

/-- Two lists of parts that are related one by one are related when they are joined, if the
relation passes from two texts on each side to the texts with a separator between them. -/
theorem join_related {α : Type} {related : Text → Text → Prop} {separator separator' : Text}
    {left right : α → Text} {items : List α} (nil : related [] [])
    (step : ∀ {first first' rest rest'}, related first first' → related rest rest' →
      related (first ++ separator ++ rest) (first' ++ separator' ++ rest'))
    (each : ∀ item ∈ items, related (left item) (right item)) :
    related (join separator (items.map left)) (join separator' (items.map right)) := by
  induction items with
  | nil => exact nil
  | cons first others inductionHypothesis =>
    have front := each first List.mem_cons_self
    have back :=
      inductionHypothesis fun item member => each item (List.mem_cons_of_mem first member)
    cases others with
    | nil => simpa [join] using front
    | cons second others =>
      rw [List.map_cons, List.map_cons, join, List.intercalate_cons_cons, List.map_cons,
        List.map_cons, join, List.intercalate_cons_cons]
      exact step front back

/-- What holds of every part, and of two texts with the separator between them if it holds of
both, holds of the joined parts. -/
theorem join_of_step {holds : Text → Prop} {separator : Text} {parts : List Text}
    (nil : holds [])
    (step : ∀ {first rest}, holds first → holds rest → holds (first ++ separator ++ rest))
    (each : ∀ part ∈ parts, holds part) : holds (join separator parts) := by
  have whole : holds (join separator (parts.map id)) :=
    @join_related Text (fun text _ => holds text) separator separator id id parts nil step each
  rwa [List.map_id] at whole

/-- What holds of the separator and of every part, and of two texts one after the other if it
holds of both, holds of the joined parts. -/
theorem join_of_parts {holds : Text → Prop} (nil : holds [])
    (append : ∀ {first second}, holds first → holds second → holds (first ++ second))
    {separator : Text} {parts : List Text} (between : holds separator)
    (each : ∀ part ∈ parts, holds part) : holds (join separator parts) :=
  join_of_step nil (fun front back => append (append front between) back) each

/-- Every part stands somewhere in the joined text. -/
theorem infix_join {separator part : Text} {parts : List Text} (member : part ∈ parts) :
    part <:+: join separator parts := by
  induction parts with
  | nil => exact absurd member List.not_mem_nil
  | cons first others inductionHypothesis =>
    cases others with
    | nil =>
      obtain rfl := List.mem_singleton.1 member
      simp [join]
    | cons second others =>
      rw [join, List.intercalate_cons_cons]
      rcases List.mem_cons.1 member with rfl | later
      · exact ⟨[], separator ++ join separator (second :: others), by simp [join]⟩
      · exact List.infix_append_of_infix_right (inductionHypothesis later)

/-- Two parts and more: the separator stands between the first and the others. -/
theorem join_cons_cons (separator first second : Text) (others : List Text) :
    join separator (first :: second :: others) =
      first ++ separator ++ join separator (second :: others) :=
  List.intercalate_cons_cons

/-- A text in front of joined parts belongs to the first of them. -/
theorem append_join (text separator first : Text) (others : List Text) :
    text ++ join separator (first :: others) = join separator ((text ++ first) :: others) := by
  cases others with
  | nil => simp [join]
  | cons second others => rw [join_cons_cons, join_cons_cons, List.append_assoc, List.append_assoc,
      List.append_assoc]

/-- A text without the separator is one piece. -/
theorem split_alone {separator : Char} {text : Text} (apart : separator ∉ text) :
    split separator text = [text] := by
  induction text with
  | nil => rfl
  | cons c rest inductionHypothesis =>
    rw [List.mem_cons, not_or] at apart
    rw [split, if_neg (Ne.symm apart.1), inductionHypothesis apart.2]

/-- A text without the separator is the piece before the separator after it. -/
theorem split_run {separator : Char} {run : Text} (apart : separator ∉ run) (rest : Text) :
    split separator (run ++ separator :: rest) = run :: split separator rest := by
  induction run with
  | nil => rw [List.nil_append, split, if_pos rfl]
  | cons c run inductionHypothesis =>
    rw [List.mem_cons, not_or] at apart
    rw [List.cons_append, split, if_neg (Ne.symm apart.1), inductionHypothesis apart.2]

/-- Parts that are joined by a separator with a text after it are split again; the text then stands
before each of them but the first. -/
theorem split_join {separator : Char} {spacing : Text} (free : separator ∉ spacing)
    {first : Text} {others : List Text} (apart : ∀ part ∈ first :: others, separator ∉ part) :
    split separator (join (separator :: spacing) (first :: others)) =
      first :: others.map (spacing ++ ·) := by
  induction others generalizing first with
  | nil =>
    have alone : join (separator :: spacing) [first] = first := by simp [join]
    rw [alone]
    exact split_alone (apart first List.mem_cons_self)
  | cons second others inductionHypothesis =>
    have later : ∀ part ∈ (spacing ++ second) :: others, separator ∉ part := by
      rintro part member
      rcases List.mem_cons.1 member with rfl | after
      · rw [List.mem_append, not_or]
        exact ⟨free, apart second (.tail _ List.mem_cons_self)⟩
      · exact apart part (.tail _ (.tail _ after))
    rw [join_cons_cons, List.append_assoc, List.cons_append, append_join,
      split_run (apart first List.mem_cons_self), inductionHypothesis later, List.map_cons]

/-- Parts that are joined by a separator alone are split again. -/
theorem split_join_alone {separator : Char} {parts : List Text} (filled : parts ≠ [])
    (apart : ∀ part ∈ parts, separator ∉ part) : split separator (join [separator] parts) = parts := by
  obtain ⟨first, others, rfl⟩ := List.exists_cons_of_ne_nil filled
  rw [split_join List.not_mem_nil apart]
  simp

/-- A text has at least one piece. -/
theorem split_ne_nil (separator : Char) (text : Text) : split separator text ≠ [] := by
  cases text with
  | nil => exact List.cons_ne_nil _ _
  | cons c rest =>
    rw [split]
    split
    · exact List.cons_ne_nil _ _
    · split
      · exact List.cons_ne_nil _ _
      · exact List.cons_ne_nil _ _

/-- The pieces of a text hold characters of the text, but no separator. -/
theorem mem_split {separator : Char} {text piece : Text} (member : piece ∈ split separator text) :
    ∀ c ∈ piece, c ∈ text ∧ c ≠ separator := by
  induction text generalizing piece with
  | nil =>
    obtain rfl := List.mem_singleton.1 member
    exact fun c inside => absurd inside List.not_mem_nil
  | cons d rest inductionHypothesis =>
    have later : ∀ part ∈ split separator rest, ∀ c ∈ part, c ∈ d :: rest ∧ c ≠ separator :=
      fun part among c inside =>
        ⟨List.mem_cons_of_mem d (inductionHypothesis among c inside).1,
          (inductionHypothesis among c inside).2⟩
    rw [split] at member
    split at member
    · rcases List.mem_cons.1 member with rfl | among
      · exact fun c inside => absurd inside List.not_mem_nil
      · exact later piece among
    · next other =>
      split at member
      · obtain rfl := List.mem_singleton.1 member
        intro c inside
        obtain rfl := List.mem_singleton.1 inside
        exact ⟨List.mem_cons_self, other⟩
      · next first pieces whole =>
        rw [whole] at later
        rcases List.mem_cons.1 member with rfl | among
        · intro c inside
          rcases List.mem_cons.1 inside with rfl | within
          · exact ⟨List.mem_cons_self, other⟩
          · exact later first List.mem_cons_self c within
        · exact later piece (List.mem_cons_of_mem first among)

/-- A cut at a character that passes the test keeps what stands before and after it. -/
theorem cutAt?_append {test : Char → Bool} {text before after : Text}
    (cut : cutAt? test text = some (before, after)) :
    ∃ c, test c = true ∧ before ++ c :: after = text := by
  induction text generalizing before with
  | nil => simp [cutAt?] at cut
  | cons c rest inductionHypothesis =>
    unfold cutAt? at cut
    split at cut
    · next passes =>
      obtain ⟨rfl, rfl⟩ := Prod.mk.inj (Option.some.inj cut)
      exact ⟨c, passes, rfl⟩
    · obtain ⟨⟨first, second⟩, inside, same⟩ := Option.map_eq_some_iff.1 cut
      obtain ⟨rfl, rfl⟩ := Prod.mk.inj same
      obtain ⟨mark, passes, whole⟩ := inductionHypothesis inside
      exact ⟨mark, passes, congrArg (c :: ·) whole⟩

/-- So does a cut at the last character that passes. -/
theorem cutAtLast?_append {test : Char → Bool} {text before after : Text}
    (cut : cutAtLast? test text = some (before, after)) :
    ∃ c, test c = true ∧ before ++ c :: after = text := by
  obtain ⟨⟨first, second⟩, reversed, same⟩ := Option.map_eq_some_iff.1 cut
  obtain ⟨rfl, rfl⟩ := Prod.mk.inj same
  obtain ⟨c, passes, whole⟩ := cutAt?_append reversed
  refine ⟨c, passes, ?_⟩
  rw [← List.reverse_reverse text, ← whole]
  simp

/-- A cut around a pattern keeps what stands before and after it. -/
theorem cutAround?_append {pattern text before after : Text}
    (cut : cutAround? pattern text = some (before, after)) : before ++ pattern ++ after = text := by
  induction text generalizing before with
  | nil =>
    unfold cutAround? at cut
    split at cut
    · next empty =>
      obtain ⟨rfl, rfl⟩ := Prod.mk.inj (Option.some.inj cut)
      rw [List.isEmpty_iff.1 empty]
      rfl
    · exact absurd cut (by rintro ⟨⟩)
  | cons c rest inductionHypothesis =>
    unfold cutAround? at cut
    split at cut
    · next found begins =>
      obtain ⟨rfl, rfl⟩ := Prod.mk.inj (Option.some.inj cut)
      exact (after?_eq_some_iff.1 begins).symm
    · obtain ⟨⟨first, second⟩, inside, same⟩ := Option.map_eq_some_iff.1 cut
      obtain ⟨rfl, rfl⟩ := Prod.mk.inj same
      exact congrArg (c :: ·) (inductionHypothesis inside)

/-- The characters of words are characters of the text. -/
theorem mem_of_mem_wordsFrom {word text run : Text} {c : Char} (member : run ∈ wordsFrom word text)
    (inside : c ∈ run) : c ∈ word ∨ c ∈ text := by
  induction text generalizing word with
  | nil =>
    unfold wordsFrom at member
    split at member
    · exact absurd member List.not_mem_nil
    · obtain rfl := List.mem_singleton.1 member
      exact .inl (List.mem_reverse.1 inside)
  | cons first rest inductionHypothesis =>
    unfold wordsFrom at member
    split at member
    · split at member
      · exact (inductionHypothesis member).elim (absurd · List.not_mem_nil) (.inr <| .tail _ ·)
      · rcases List.mem_cons.1 member with rfl | later
        · exact .inl (List.mem_reverse.1 inside)
        · exact (inductionHypothesis later).elim (absurd · List.not_mem_nil) (.inr <| .tail _ ·)
    · rcases inductionHypothesis member with before | after
      · rcases List.mem_cons.1 before with rfl | earlier
        · exact .inr List.mem_cons_self
        · exact .inl earlier
      · exact .inr (.tail _ after)

/-- A run of characters that are no blanks belongs to the word being read. -/
theorem wordsFrom_run {run : Text} (unspaced : ∀ c ∈ run, isBlank c = false) (word rest : Text) :
    wordsFrom word (run ++ rest) = wordsFrom (run.reverse ++ word) rest := by
  induction run generalizing word with
  | nil => rfl
  | cons c run inductionHypothesis =>
    have visible : isBlank c = false := unspaced c List.mem_cons_self
    rw [List.cons_append, wordsFrom, if_neg (by rw [visible]; exact Bool.false_ne_true),
      inductionHypothesis fun d member => unspaced d (.tail c member)]
    simp

/-- Words with a blank before each are told apart. -/
theorem words_spaced {parts : List Text} (each : ∀ part ∈ parts, IsUnspaced part) :
    words (parts.map (' ' :: ·)).flatten = parts := by
  -- The word being read is finished by the blank of the next one or by the end of the text.
  have after : ∀ word : Text, wordsFrom word (parts.map (' ' :: ·)).flatten =
      if word.isEmpty then parts else word.reverse :: parts := by
    induction parts with
    | nil => exact fun word => rfl
    | cons part parts inductionHypothesis =>
      intro word
      have first := each part List.mem_cons_self
      have nonempty : ¬ (part.reverse ++ []).isEmpty = true := by
        simpa using first.filled
      have later : wordsFrom [] (part ++ (parts.map (' ' :: ·)).flatten) = part :: parts := by
        rw [wordsFrom_run first.unspaced, inductionHypothesis fun other member =>
          each other (.tail part member), if_neg nonempty]
        simp
      have blank : isBlank ' ' = true := by decide
      rw [List.map_cons, List.flatten_cons, List.cons_append, wordsFrom, if_pos blank, later]
  exact after []

/-- Putting a text into its place adds it and nothing else. -/
theorem mem_insertOrdered {text other : Text} {texts : List Text} :
    other ∈ insertOrdered text texts ↔ other = text ∨ other ∈ texts := by
  induction texts with
  | nil => simp [insertOrdered]
  | cons first rest inductionHypothesis =>
    rw [insertOrdered]
    split
    · rw [List.mem_cons]
    · next equal =>
      obtain rfl : text = first := Std.LawfulEqCmp.eq_of_compare equal
      rw [List.mem_cons]
      exact (or_iff_right_of_imp Or.inl).symm
    · rw [List.mem_cons, inductionHypothesis, List.mem_cons]
      exact or_left_comm

/-- Ordering texts keeps them all. -/
theorem mem_ordered {text : Text} {texts : List Text} : text ∈ ordered texts ↔ text ∈ texts := by
  induction texts with
  | nil => rfl
  | cons first rest inductionHypothesis =>
    have step : ordered (first :: rest) = insertOrdered first (ordered rest) := rfl
    rw [step, mem_insertOrdered, inductionHypothesis, List.mem_cons]

/-- Parts that are no longer than others one by one are no longer when they are joined. -/
theorem length_join_le {separator : Text} {parts bounds : List Text}
    (each : List.Forall₂ (fun part bound => part.length ≤ bound.length) parts bounds) :
    (join separator parts).length ≤ (join separator bounds).length := by
  induction each with
  | nil => exact Nat.le_refl _
  | cons front rest inductionHypothesis =>
    cases rest with
    | nil => simpa [join] using front
    | cons second others =>
      rw [join_cons_cons, join_cons_cons]
      simp only [List.length_append]
      omega

/-- A text repeated more often is no shorter when it is joined. -/
theorem length_join_replicate_le (separator text : Text) {fewer more : Nat} (grows : fewer ≤ more) :
    (join separator (List.replicate fewer text)).length ≤
      (join separator (List.replicate more text)).length := by
  induction grows with
  | refl => exact Nat.le_refl _
  | @step more _ inductionHypothesis =>
    apply Nat.le_trans inductionHypothesis
    cases more with
    | zero => simp [join]
    | succ more =>
      rw [List.replicate_succ (n := more + 1), List.replicate_succ (n := more), join_cons_cons]
      simp only [List.length_append]
      omega

end Text

end DynamicPrompt
