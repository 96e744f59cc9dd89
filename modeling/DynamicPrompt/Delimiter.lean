import DynamicPrompt.Text.Basic

/-!
# Delimiters

A character is escaped if an odd number of backslashes stands directly before it. Readers
carry that parity along instead of looking back, so each reader is one pass over the rest
of the text: it is told whether the next character is escaped and passes the answer on.

Two searches are built on it. One finds the closer that balances an opener already
passed; the other finds the next occurrence of a separator outside every bracket. Both
return what stands before and after the find, and both give up at the end of the text, so
that an unclosed construct stays literal text. Splitting repeats the second search.

Tags are counted apart from this, without regard to escapes: the depth of angle brackets
tells whether a character stands outside every tag.
-/

namespace DynamicPrompt

/-- Whether the character after `c` is escaped, given whether `c` is: an unescaped
backslash escapes, and every other character ends the run. -/
def escapes (escaped : Bool) (c : Char) : Bool := c == '\\' && !escaped

/-- Whether a character that follows the given text directly is escaped. -/
def isEscapedAfter (before : Text) : Bool := before.foldl escapes false

/-- What stands before and after the closer of an opener already passed. `depth` openers
have been passed since, and `escaped` tells whether the next character is escaped. -/
def closing? (opener closer : Char) (depth : Nat) (escaped : Bool) :
    Text → Option (Text × Text)
  | [] => none
  | c :: rest =>
    let onward (depth : Nat) :=
      (closing? opener closer depth (escapes escaped c) rest).map
        fun parts => (c :: parts.1, parts.2)
    if escaped then onward depth
    else if c = closer then
      match depth with
      | 0 => some ([], rest)
      | outer + 1 => onward outer
    else if c = opener then onward (depth + 1)
    else onward depth

/-- What an opener encloses, and what follows its closer, when the text after the opener
is given. -/
def enclosed? (opener closer : Char) (text : Text) : Option (Text × Text) :=
  closing? opener closer 0 false text

/-- Kinds of brackets, given by their openers and, at the same places, their closers. -/
structure Brackets where
  openers : Text
  closers : Text

namespace Brackets

/-- Angle brackets, which delimit tags. -/
def tags : Brackets := ⟨['<'], ['>']⟩

/-- Angle brackets and braces. -/
def tagsAndBraces : Brackets := ⟨['<', '{'], ['>', '}']⟩

/-- Every kind of bracket. -/
def all : Brackets := ⟨['<', '{', '[', '('], ['>', '}', ']', ')']⟩

/-- The numbers of open brackets before anything has been read. -/
def closed (brackets : Brackets) : List Nat := brackets.openers.map fun _ => 0

/-- The numbers of open brackets after one more unescaped character. A closer without an
opener changes nothing. -/
def step (brackets : Brackets) (depths : List Nat) (c : Char) : List Nat :=
  match brackets.openers.idxOf? c with
  | some kind => depths.modify kind (· + 1)
  | none =>
    match brackets.closers.idxOf? c with
    | some kind => depths.modify kind (· - 1)
    | none => depths

/-- Whether no bracket is open. -/
def isClosed (depths : List Nat) : Bool := depths.all (· == 0)

end Brackets

/-- What stands before the next top-level occurrence of a pattern, and the text from that
occurrence on. -/
def topLevelFrom? (pattern : Text) (brackets : Brackets) (depths : List Nat) (escaped : Bool) :
    Text → Option (Text × Text)
  | [] => none
  | c :: rest =>
    let onward (depths : List Nat) :=
      (topLevelFrom? pattern brackets depths (escapes escaped c) rest).map
        fun parts => (c :: parts.1, parts.2)
    if escaped then onward depths
    else if Brackets.isClosed depths && (Text.after? pattern (c :: rest)).isSome then
      some ([], c :: rest)
    else onward (brackets.step depths c)

/-- What stands before the first top-level occurrence of a separator, and what follows
the separator. An occurrence takes at least one character. -/
def cutTopLevelFrom? (separator : Text) (brackets : Brackets) (escaped : Bool) (text : Text) :
    Option (Text × Text) :=
  (topLevelFrom? separator brackets brackets.closed escaped text).map
    fun parts => (parts.1, parts.2.tail.drop (separator.length - 1))

/-- The cut of a whole text, whose first character is not escaped. -/
def cutTopLevel? (separator : Text) (brackets : Brackets) (text : Text) : Option (Text × Text) :=
  cutTopLevelFrom? separator brackets false text

/-- A search hands back the text it was given, cut in two at the find. -/
theorem topLevelFrom?_append {pattern : Text} {brackets : Brackets} {text before found : Text}
    {depths : List Nat} {escaped : Bool}
    (located : topLevelFrom? pattern brackets depths escaped text = some (before, found)) :
    before ++ found = text ∧ found ≠ [] := by
  induction text generalizing before depths escaped with
  | nil => simp [topLevelFrom?] at located
  | cons c rest inductionHypothesis =>
    have onward : ∀ depths, (topLevelFrom? pattern brackets depths (escapes escaped c) rest).map
        (fun parts => (c :: parts.1, parts.2)) = some (before, found) →
        before ++ found = c :: rest ∧ found ≠ [] := by
      intro depths found
      obtain ⟨⟨first, second⟩, inside, same⟩ := Option.map_eq_some_iff.1 found
      obtain ⟨rfl, rfl⟩ := Prod.mk.inj same
      obtain ⟨whole, filled⟩ := inductionHypothesis inside
      exact ⟨by rw [← whole]; rfl, filled⟩
    unfold topLevelFrom? at located
    split at located
    · exact onward _ located
    · split at located
      · obtain ⟨rfl, rfl⟩ := Prod.mk.inj (Option.some.inj located)
        exact ⟨rfl, List.cons_ne_nil _ _⟩
      · exact onward _ located

/-- What follows a separator is shorter than the text. -/
theorem cutTopLevelFrom?_length {separator : Text} {brackets : Brackets} {escaped : Bool}
    {text before after : Text}
    (cut : cutTopLevelFrom? separator brackets escaped text = some (before, after)) :
    after.length < text.length := by
  obtain ⟨⟨first, second⟩, inside, same⟩ := Option.map_eq_some_iff.1 cut
  obtain ⟨rfl, rfl⟩ := Prod.mk.inj same
  obtain ⟨whole, filled⟩ := topLevelFrom?_append inside
  obtain ⟨c, rest, rfl⟩ := List.exists_cons_of_ne_nil filled
  have total := congrArg List.length whole
  simp only [List.length_append, List.length_cons] at total
  simp only [List.tail_cons, List.length_drop]
  omega

/-- The parts of a text between the top-level occurrences of a separator. Whether the
first character of a later part is escaped depends on the separator alone. -/
def splitTopLevelFrom (separator : Text) (brackets : Brackets) (escaped : Bool) (text : Text) :
    List Text :=
  match _cut : cutTopLevelFrom? separator brackets escaped text with
  | none => [text]
  | some (before, after) =>
    before :: splitTopLevelFrom separator brackets (isEscapedAfter separator) after
termination_by text.length
decreasing_by exact cutTopLevelFrom?_length _cut

/-- The parts of a whole text between the top-level occurrences of a separator. -/
def splitTopLevel (separator : Text) (brackets : Brackets) (text : Text) : List Text :=
  splitTopLevelFrom separator brackets false text

/-- A closer ends the text before it and begins the text after it. -/
theorem closing?_append {opener closer : Char} {depth : Nat} {escaped : Bool}
    {text inner after : Text}
    (found : closing? opener closer depth escaped text = some (inner, after)) :
    inner ++ closer :: after = text := by
  induction text generalizing inner depth escaped with
  | nil => simp [closing?] at found
  | cons c rest inductionHypothesis =>
    have onward : ∀ depth, (closing? opener closer depth (escapes escaped c) rest).map
        (fun parts => (c :: parts.1, parts.2)) = some (inner, after) →
        inner ++ closer :: after = c :: rest := by
      intro depth found
      obtain ⟨⟨first, second⟩, inside, same⟩ := Option.map_eq_some_iff.1 found
      obtain ⟨rfl, rfl⟩ := Prod.mk.inj same
      rw [← inductionHypothesis inside]
      rfl
    unfold closing? at found
    split at found
    · exact onward _ found
    · split at found
      · next same =>
        subst same
        cases depth with
        | zero =>
          obtain ⟨rfl, rfl⟩ := Prod.mk.inj (Option.some.inj found)
          rfl
        | succ outer => exact onward _ found
      · split at found
        · exact onward _ found
        · exact onward _ found

/-- What follows a closer is shorter than the text after the opener. -/
theorem enclosed?_length {opener closer : Char} {text inner after : Text}
    (found : enclosed? opener closer text = some (inner, after)) :
    after.length < text.length := by
  have total := congrArg List.length (closing?_append found)
  simp only [List.length_append, List.length_cons] at total
  omega

/-- The position of the closer that balances the opener at a position. -/
def findMatchingClose (text : Text) (position : Nat) (opener closer : Char) : Option Nat :=
  (closing? opener closer 0 (isEscapedAfter (text.take (position + 1)))
    (text.drop (position + 1))).map fun parts => position + 1 + parts.1.length

/-- The position of the first top-level occurrence of a pattern at or after a position. -/
def findTopLevel (text : Text) (start : Nat) (pattern : Text) (brackets : Brackets) :
    Option Nat :=
  (topLevelFrom? pattern brackets brackets.closed (isEscapedAfter (text.take start))
    (text.drop start)).map fun parts => start + parts.1.length

/-- Whether a character at a given tag depth stands outside every tag. A closing bracket
belongs to the tag it closes and an opening one to the tag it opens. -/
def standsOutside (depth : Nat) (c : Char) : Bool := c != '<' && depth == 0

/-- The tag depth after a character. A closing bracket without a tag changes nothing. -/
def tagDepthAfter (depth : Nat) (c : Char) : Nat :=
  if c = '<' then depth + 1 else if c = '>' then depth - 1 else depth

end DynamicPrompt
