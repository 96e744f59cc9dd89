import DynamicPrompt.Proofs.Source.Command
import DynamicPrompt.Proofs.Source.Settled
import DynamicPrompt.Proofs.Source.Variables

/-!
# Complete texts

A text is complete if every character in it that could begin or end a construct belongs to a whole
construct or a whole tag. Constructs may stand in each other to any depth, and in any order.

The passes treat one kind of construct after the other, each at every depth of the later kinds at once,
while the text inside a construct of its own goes through all passes again. So a text that some of the
passes have gone over is complete again, with tags in the place of the constructs of those passes. The
stage of a text says how many they are. At the last stage nothing but tags is left.
-/

namespace DynamicPrompt

/-- The brackets of tags, variants and square brackets. -/
def Brackets.ofConstructs : Brackets := ⟨"<\x7b[".toList, ">\x7d]".toList⟩

namespace Source

/-- The characters that begin or end a construct, other than the underscore, or escape. -/
def constructMarks : Text := "<>[]\x7b\x7d$\\"

/-- The words that may not stand among the characters of a text: two underscores begin or end a
reference, and the keyword of breaks is marked. -/
def barredWords : List Text := [['_', '_'], breakWord]

/-- The characters of those words behind the first of each. -/
def barredLetters : Text := barredWords.flatMap List.tail

/-- The text begins with none of those words. -/
def Unbarred (text : Text) : Prop := ∀ word ∈ barredWords, ¬ word <+: text

/-- What stands behind a text and cannot be the rest of such a word. -/
def Apart (rest : Text) : Prop := ∀ c ∈ rest.head?, c ∉ barredLetters

/-- The one text may stand where the other does: it begins with no more of such a word. -/
def Replaces (text result : Text) : Prop :=
  ∀ word, word ⊆ barredLetters → word <+: result → word <+: text

/-- A word that a text begins with stands before what begins with other characters. -/
theorem prefix_of_apart {word text rest : Text} (begins : word <+: text ++ rest)
    (other : ∀ c ∈ rest.head?, c ∉ word) : word <+: text := by
  rcases List.prefix_or_prefix_of_prefix begins (List.prefix_append text rest) with
    within | ⟨more, rfl⟩
  · exact within
  · have beyond : more <+: rest := (List.prefix_append_right_inj text).1 begins
    cases more with
    | nil => rw [List.append_nil]
    | cons c more =>
      obtain ⟨others, rfl⟩ := beyond
      exact absurd (List.mem_append_right text List.mem_cons_self) (other c rfl)

namespace Unbarred

variable {c : Char} {text : Text}

/-- A character that begins none of the words. -/
theorem of_first (other : c ∉ "_B".toList) (text : Text) : Unbarred (c :: text) := by
  have letters : '_' ∈ "_B".toList ∧ 'B' ∈ "_B".toList := by decide
  have keyword : breakWord = 'B' :: "REAK".toList := rfl
  intro word barred begins
  rw [barredWords, List.mem_pair, keyword] at barred
  rcases barred with rfl | rfl
  · exact other ((List.cons_prefix_cons.1 begins).1 ▸ letters.1)
  · exact other ((List.cons_prefix_cons.1 begins).1 ▸ letters.2)

/-- Behind the first character another text may take the place. -/
theorem replace (unbarred : Unbarred (c :: text)) {result : Text} (replaces : Replaces text result) :
    Unbarred (c :: result) := by
  have letters : ∀ word ∈ barredWords, word.tail ⊆ barredLetters := by decide
  intro word barred begins
  refine unbarred word barred ?_
  cases word with
  | nil => exact List.nil_prefix
  | cons d word =>
    obtain ⟨rfl, behind⟩ := List.cons_prefix_cons.1 begins
    exact List.cons_prefix_cons.2 ⟨rfl, replaces word (letters _ barred) behind⟩

/-- What stands apart may stand behind the text. -/
theorem before (unbarred : Unbarred (c :: text)) {rest : Text} (apart : Apart rest) :
    Unbarred (c :: (text ++ rest)) :=
  unbarred.replace fun _ letters begins =>
    prefix_of_apart begins fun d first member => apart d first (letters member)

end Unbarred

/-- A text that begins with another character than those of the words may stand anywhere. -/
theorem Replaces.of_apart {text result : Text} (filled : result ≠ []) (apart : Apart result) :
    Replaces text result := by
  intro word letters begins
  cases word with
  | nil => exact List.nil_prefix
  | cons c word =>
    obtain ⟨rest, rfl⟩ := begins
    exact absurd (letters List.mem_cons_self) (apart c rfl)

/-- The end of the line stands apart. -/
theorem Apart.nil : Apart [] := fun _ first => absurd first (Option.not_mem_none _)

/-- What stands apart still does with a text behind it. -/
theorem Apart.append {text : Text} (filled : text ≠ []) (apart : Apart text) (rest : Text) :
    Apart (text ++ rest) := by
  intro c first
  obtain ⟨d, text, rfl⟩ := List.exists_cons_of_ne_nil filled
  exact apart c first

/-- A mark stands neither twice in a row in the text nor at its end. -/
def Undoubled (mark : Char) (text : Text) : Prop := ¬ [mark, mark] <:+: text ++ [mark]

namespace Undoubled

variable {mark : Char} {text rest : Text}

/-- It stands nowhere twice in a row. -/
theorem apart (undoubled : Undoubled mark text) : ¬ [mark, mark] <:+: text :=
  fun inside => undoubled (inside.trans (List.prefix_append text [mark]).isInfix)

/-- The mark stands nowhere. -/
theorem of_absent (absent : mark ∉ text) : Undoubled mark text := by
  induction text with
  | nil => exact fun inside => absurd inside.length_le (by simp)
  | cons c text inductionHypothesis =>
    rw [List.mem_cons, not_or] at absent
    rw [Undoubled, List.cons_append, List.infix_cons_iff, not_or]
    exact ⟨fun begins => absent.1 (List.cons_prefix_cons.1 begins).1, inductionHypothesis absent.2⟩

/-- Texts one after the other. -/
theorem append (front : Undoubled mark text) (back : Undoubled mark rest) :
    Undoubled mark (text ++ rest) := by
  induction text with
  | nil => exact back
  | cons c text inductionHypothesis =>
    rw [Undoubled, List.cons_append, List.infix_cons_iff, not_or] at front
    rw [Undoubled, List.cons_append, List.cons_append, List.infix_cons_iff, not_or]
    refine ⟨fun begins => front.1 ?_, inductionHypothesis front.2⟩
    obtain ⟨rfl, behind⟩ := List.cons_prefix_cons.1 begins
    cases text with
    | nil => exact List.prefix_refl _
    | cons d text =>
      obtain ⟨rfl, _⟩ := List.cons_prefix_cons.1 behind
      exact ⟨text ++ [mark], rfl⟩

/-- It stands nowhere twice in a row, and behind the text stands something else. -/
theorem ended (apart : ¬ [mark, mark] <:+: text) (filled : rest ≠ []) (absent : mark ∉ rest) :
    Undoubled mark (text ++ rest) := by
  induction text with
  | nil => exact of_absent absent
  | cons c text inductionHypothesis =>
    rw [List.infix_cons_iff, not_or] at apart
    rw [Undoubled, List.cons_append, List.cons_append, List.infix_cons_iff, not_or]
    refine ⟨fun begins => apart.1 ?_, inductionHypothesis apart.2⟩
    have shifted : [mark, mark] <+: c :: text ++ (rest ++ [mark]) := by
      simpa using begins
    refine prefix_of_apart shifted fun d first member => ?_
    obtain ⟨e, rest, rfl⟩ := List.exists_cons_of_ne_nil filled
    obtain rfl : e = d := Option.some.inj first
    have same : e = mark := by simpa using member
    exact absent (same ▸ List.mem_cons_self)

/-- The mark before another character. -/
theorem before {c : Char} (other : c ≠ mark) : Undoubled mark [mark, c] := by
  rw [Undoubled, List.cons_append, List.infix_cons_iff, not_or]
  refine ⟨fun begins => ?_, of_absent (by simpa using other.symm)⟩
  exact other (List.cons_prefix_cons.1 (List.cons_prefix_cons.1 begins).2).1.symm

end Undoubled

/-- A text that may stand in a tag whatever stands around the tag: its brackets are nested pairs, and
neither a variable nor a command begins in it. -/
structure Sealed (content : Text) : Prop where
  grouped : Grouped Brackets.ofConstructs (fun _ => True) content
  undollared : '$' ∉ content
  quiet : Quiet content

/-- The pairs of the brackets. -/
theorem pairs_ofConstructs : Brackets.ofConstructs.Pair '<' '>' ∧
    Brackets.ofConstructs.Pair '[' ']' ∧ Brackets.ofConstructs.Pair '\x7b' '\x7d' := by
  refine ⟨?_, ?_, ?_⟩ <;> constructor <;> decide

/-- A text without marks of constructs is grouped by their brackets. -/
theorem grouped_of_free {content : Text} (free : ∀ c ∈ content, c ∉ constructMarks) :
    Grouped Brackets.ofConstructs (fun _ => True) content := by
  have marks : ∀ d, Brackets.ofConstructs.Mentions d → d ∈ constructMarks := by
    have every : ∀ d ∈ Brackets.ofConstructs.openers ++ Brackets.ofConstructs.closers,
        d ∈ constructMarks := by decide
    exact fun d mentioned => every d (List.mem_append.2 mentioned)
  refine .of_unmentioned fun c member =>
    ⟨trivial, fun mentioned => free c member (marks c mentioned), ?_⟩
  rintro rfl
  exact free '\\' member (by decide)

namespace Sealed

variable {content rest : Text}

/-- The empty text. -/
theorem nil : Sealed [] := ⟨.nil, List.not_mem_nil, .nil⟩

/-- Texts one after the other. -/
theorem append (front : Sealed content) (back : Sealed rest) : Sealed (content ++ rest) where
  grouped := front.grouped.append back.grouped
  undollared := by
    rw [List.mem_append, not_or]
    exact ⟨front.undollared, back.undollared⟩
  quiet := front.quiet.append back.quiet

/-- A text without marks of constructs. -/
theorem of_free (free : ∀ c ∈ content, c ∉ constructMarks) : Sealed content where
  grouped := grouped_of_free free
  undollared member := free '$' member (by decide)
  quiet := .of_absent fun member => free '<' member (by decide)

/-- Texts with a separator between them. -/
theorem join {separator : Text} {parts : List Text} (between : Sealed separator)
    (each : ∀ part ∈ parts, Sealed part) : Sealed (Text.join separator parts) :=
  Text.join_of_parts nil append between each

/-- A character that is no mark may be replaced by one that is none and no letter of a command. -/
theorem replace {old new : Char} (unmarked : old ∉ constructMarks) (other : new ∉ constructMarks)
    (harmless : sameLetter 'p' new = false) (held : Sealed content) :
    Sealed (content.map fun c => if c = old then new else c) := by
  have kept {c : Char} (marked : c ∈ constructMarks) : (if c = old then new else c) = c := by
    rw [if_neg]
    rintro rfl
    exact unmarked marked
  have changed {mark : Char} (marked : mark ∈ constructMarks) {c : Char} :
      (if c = old then new else c) = mark ↔ c = mark := by
    split
    · next same =>
      refine ⟨?_, ?_⟩
      · rintro rfl
        exact absurd marked other
      · rintro rfl
        exact absurd (same ▸ marked) unmarked
    · rfl
  have marks : ∀ c, Brackets.ofConstructs.Mentions c → c ∈ constructMarks := by
    have every : ∀ c ∈ Brackets.ofConstructs.openers ++ Brackets.ofConstructs.closers,
        c ∈ constructMarks := by decide
    exact fun c mentioned => every c (List.mem_append.2 mentioned)
  refine ⟨held.grouped.map (fun c mentioned => kept (marks c mentioned)) ?_, ?_, ?_⟩
  · intro c unmentioned unescaping
    refine ⟨fun mentioned => unmentioned ?_, fun same => unescaping ((changed (by decide)).1 same)⟩
    rw [← (changed (marks _ mentioned)).1 rfl] at mentioned
    exact mentioned
  · intro member
    obtain ⟨c, inside, same⟩ := List.mem_map.1 member
    exact held.undollared ((changed (by decide)).1 same ▸ inside)
  · refine held.quiet.map (fun c => changed (by decide)) fun c first => ?_
    split
    · exact harmless
    · exact first

/-- A text in square brackets. -/
theorem squared (inside : Sealed content) (others : Sealed rest) :
    Sealed ('[' :: (content ++ ']' :: rest)) where
  grouped := .group pairs_ofConstructs.2.1 inside.grouped others.grouped
  undollared := by
    simp only [List.mem_cons, List.mem_append, not_or]
    exact ⟨by decide, inside.undollared, by decide, others.undollared⟩
  quiet := .plain (by decide) (inside.quiet.append (.plain (by decide) others.quiet))

/-- A tag whose name begins with no letter of a command, with text after it. -/
theorem tag {name : Text} (harmless : name.head?.map (sameLetter 'p') = some false)
    (free : ∀ c ∈ name, c ∉ constructMarks) (inside : Sealed content) (others : Sealed rest) :
    Sealed ('<' :: ((name ++ content) ++ '>' :: rest)) where
  grouped := .group pairs_ofConstructs.1 ((of_free free).append inside).grouped others.grouped
  undollared := by
    have named := ((of_free free).append inside).undollared
    simp only [List.mem_cons, List.mem_append, not_or] at named ⊢
    exact ⟨by decide, named, by decide, others.undollared⟩
  quiet := .tag harmless (fun member => free '<' member (by decide)) inside.quiet others.quiet

end Sealed

/-- A kind of construct, with what stands in it apart from the texts that are rewritten. -/
inductive Construct where
  | reference (filter : Option (Char × Text))
  | read (name : Text)
  | use (name : Text) (operator : VariableUse.Operator)
  | set (arguments : Text)
  | echo (arguments : Text)
  | choose (condition : Text) (others : List (Option Text))
  | negative (arguments : Text)
  | squares
  | braces

/-- An operator of a variable as it is written. -/
def VariableUse.Operator.sign : VariableUse.Operator → Text
  | .fallback => ":"
  | .assign mode => mode.sign

/-- A filter as it stands behind the name of a reference: labels between quotation marks. -/
def quotedFilter : Option (Char × Text) → Text
  | some (quote, labels) => quote :: (labels ++ [quote])
  | none => []

/-- The marker of a branch: of a further condition, or of the last resort. -/
def branchMarker : Option Text → Text
  | some condition => commandTag "elif" condition
  | none => commandTag "else" []

namespace Construct

/-- The number of the pass that rewrites such constructs. -/
def pass : Construct → Nat
  | reference _ => 0
  | read _ | use _ _ => 1
  | set _ | echo _ | choose _ _ | negative _ => 2
  | squares => 3
  | braces => 4

/-- What stands before the first text in the construct. -/
def opener : Construct → Text
  | reference _ => ['_', '_']
  | read name => variableLine name
  | use name operator => '$' :: '\x7b' :: (name ++ operator.sign)
  | set arguments => commandTag "set" arguments
  | echo arguments => commandTag "echo" arguments
  | choose condition _ => commandTag "if" condition
  | negative arguments => commandTag "stn" arguments
  | squares => ['[']
  | braces => ['\x7b']

/-- What stands behind each of the texts in the construct. -/
def closers : Construct → List Text
  | reference filter => [quotedFilter filter ++ ['_', '_']]
  | read _ => []
  | use _ _ | braces => [['\x7d']]
  | set _ => [closerOf "set"]
  | echo _ => [closerOf "echo"]
  | choose _ others => others.map branchMarker ++ [closerOf "if"]
  | negative _ => [closerOf "stn"]
  | squares => [[']']]

/-- Texts with what stands behind each of them. -/
def closed : List Text → List Text → Text
  | part :: parts, closer :: closers => part ++ (closer ++ closed parts closers)
  | _, _ => []

/-- There are five passes. -/
theorem pass_lt (construct : Construct) : construct.pass < 5 := by
  unfold pass
  split <;> decide

/-- The last two passes are those over square brackets and braces. -/
theorem eq_of_le_pass {construct : Construct} (late : 3 ≤ construct.pass) :
    construct = squares ∧ construct.pass = 3 ∨ construct = braces ∧ construct.pass = 4 := by
  unfold pass at late
  split at late
  · exact absurd late (by decide)
  · exact absurd late (by decide)
  · exact absurd late (by decide)
  · exact absurd late (by decide)
  · exact absurd late (by decide)
  · exact absurd late (by decide)
  · exact absurd late (by decide)
  · exact .inl ⟨rfl, rfl⟩
  · exact .inr ⟨rfl, rfl⟩

/-- A construct begins with a mark or with an underscore. -/
theorem exists_opener (construct : Construct) :
    ∃ first opener, construct.opener = first :: opener ∧
      (first ∈ constructMarks ∨ first = '_') := by
  cases construct with
  | reference filter => exact ⟨'_', ['_'], rfl, .inr rfl⟩
  | read name => exact ⟨'$', _, rfl, .inl (by decide)⟩
  | use name operator => exact ⟨'$', _, rfl, .inl (by decide)⟩
  | set arguments => exact ⟨'<', _, rfl, .inl (by decide)⟩
  | echo arguments => exact ⟨'<', _, rfl, .inl (by decide)⟩
  | choose condition others => exact ⟨'<', _, rfl, .inl (by decide)⟩
  | negative arguments => exact ⟨'<', _, rfl, .inl (by decide)⟩
  | squares => exact ⟨'[', [], rfl, .inl (by decide)⟩
  | braces => exact ⟨'\x7b', [], rfl, .inl (by decide)⟩

/-- Constructs other than references stand apart. -/
theorem apart_opener {construct : Construct} (later : 0 < construct.pass) : Apart construct.opener := by
  obtain ⟨first, opener, opens, marked | rfl⟩ := construct.exists_opener
  · have marks : ∀ c ∈ constructMarks, c ∉ barredLetters := by decide
    rw [opens]
    rintro c ⟨⟩
    exact marks first marked
  · cases construct with
    | reference filter => exact absurd later (Nat.lt_irrefl 0)
    | _ =>
      obtain ⟨same, _⟩ := List.cons.inj opens
      exact absurd same (by decide)

/-- So does what stands behind the texts in them. -/
theorem apart_closers {construct : Construct} (later : 0 < construct.pass) :
    ∀ closer ∈ construct.closers, closer ≠ [] ∧ Apart closer := by
  have first {c : Char} (marked : c ∈ constructMarks) (text : Text) :
      c :: text ≠ [] ∧ Apart (c :: text) := by
    have marks : ∀ c ∈ constructMarks, c ∉ barredLetters := by decide
    refine ⟨List.cons_ne_nil c text, ?_⟩
    rintro d ⟨⟩
    exact marks c marked
  have single {c : Char} (marked : c ∈ constructMarks) (text : Text) :
      ∀ closer ∈ [c :: text], closer ≠ [] ∧ Apart closer :=
    List.forall_mem_singleton.2 (first marked text)
  cases construct with
  | reference filter => exact absurd later (Nat.lt_irrefl 0)
  | read name => exact List.forall_mem_nil _
  | use name operator => exact single (by decide) _
  | set arguments => exact single (by decide) _
  | echo arguments => exact single (by decide) _
  | negative arguments => exact single (by decide) _
  | squares => exact single (by decide) _
  | braces => exact single (by decide) _
  | choose condition others =>
    refine List.forall_mem_append.2 ⟨?_, single (by decide) _⟩
    rw [List.forall_mem_map]
    intro other _
    cases other with
    | none => exact first (by decide) _
    | some condition => exact first (by decide) _

/-- The construct with these texts in it. -/
def write (construct : Construct) (parts : List Text) : Text :=
  construct.opener ++ closed parts construct.closers

/-- The keyword of a block that ends at the first closer. No block of that keyword can stand in it. -/
def keyword? : Construct → Option Text
  | set _ => some "set"
  | echo _ => some "echo"
  | _ => none

end Construct

/-- Arguments of a command: behind a blank, and without marks of constructs. -/
structure AreArguments (arguments : Text) : Prop where
  separated : ∀ c ∈ arguments.head?, c = ' '
  free : ∀ c ∈ arguments, c ∉ constructMarks

/-- A name of a variable that is read whole, without marks of constructs. -/
structure IsVariableName (name : Text) : Prop where
  whole : VariableUse.IsWhole name
  free : ∀ c ∈ name, c ∉ constructMarks
  apart : ¬ ['_', '_'] <:+: name

/-- Labels between quotation marks. -/
structure IsQuoted (quote : Char) (labels : Text) : Prop where
  quotes : quote = '\x22' ∨ quote = '\x27'
  plain : Plain labels

/-- The name of a wildcard in a reference, which may hold constructs in braces: it is trimmed, and
neither a quotation mark nor the end of the reference stands in it. -/
structure IsReferenceName (name : Text) : Prop where
  trimmed : Reference.isTrimmed name = true
  unquoted : ∀ c ∈ name, c ∉ "\x22\x27".toList
  undoubled : Undoubled '_' name

namespace Construct

/-- What stands in the construct apart from the texts is in order. -/
def Proper : Construct → Prop
  | reference filter => ∀ quoted ∈ filter, IsQuoted quoted.1 quoted.2
  | read name | use name _ => IsVariableName name
  | set arguments =>
    AreArguments arguments ∧ (Block.readSet arguments (closerOf "set")).1.isSome = true
  | echo arguments => AreArguments arguments ∧ Text.trim arguments ≠ []
  | choose condition others =>
    AreArguments condition ∧ (∀ other ∈ others, ∀ arguments ∈ other, AreArguments arguments) ∧
      (Condition.compile condition).1.isSome = true ∧
        (Condition.compileAll others).1.isSome = true
  | negative arguments =>
    AreArguments arguments ∧ ∀ c ∈ (Text.trimStart arguments).head?, sameLetter 'i' c = false
  | squares | braces => True

/-- A text may stand in the construct. -/
def Admits : Construct → Text → Prop
  | reference _, part => IsReferenceName part
  | _, _ => True

end Construct

/-- Texts of whole constructs, whole tags and other characters, of which the given number of passes has
gone over all constructs of theirs. No block stands in blocks of the given keywords, and constructs are
nested no deeper than that depth. -/
inductive Complete (stage : Nat) : List Text → Nat → Text → Prop where
  | nil {within : List Text} {depth : Nat} : Complete stage within depth []
  | char {within : List Text} {depth : Nat} {c : Char} {rest : Text} (free : c ∉ constructMarks)
      (unbarred : Unbarred (c :: rest)) (others : Complete stage within depth rest) :
      Complete stage within depth (c :: rest)
  | tag {within : List Text} {depth : Nat} {name content rest : Text}
      (harmless : name.head?.map (sameLetter 'p') = some false)
      (free : ∀ c ∈ name, c ∉ constructMarks) (inside : Sealed content)
      (others : Complete stage within depth rest) :
      Complete stage within depth ('<' :: ((name ++ content) ++ '>' :: rest))
  | construct {within : List Text} {depth : Nat} {construct : Construct} {parts : List Text}
      {rest : Text} (proper : construct.Proper) (later : stage ≤ construct.pass)
      (allowed : ∀ keyword ∈ construct.keyword?, keyword ∉ within)
      (paired : parts.length = construct.closers.length)
      (admitted : ∀ part ∈ parts, construct.Admits part)
      (each : ∀ part ∈ parts, Complete stage (construct.keyword?.toList ++ within) depth part)
      (others : Complete stage within (depth + 1) rest) :
      Complete stage within (depth + 1) (construct.write parts ++ rest)

/-- A tag of a command, opening or closing: nothing in it begins or ends a construct. -/
def IsCommandTag (text : Text) : Prop :=
  ∃ inner : Text, text = '<' :: (inner ++ ['>']) ∧ ∀ c ∈ inner, c ∉ constructMarks

/-- No other mark stands in it than the angle brackets. -/
theorem IsCommandTag.absent {text : Text} {mark : Char} (command : IsCommandTag text)
    (marked : mark ∈ constructMarks) (other : mark ∉ "<>".toList) : mark ∉ text := by
  obtain ⟨inner, rfl, free⟩ := command
  rw [List.mem_cons, List.mem_append, not_or, not_or]
  refine ⟨?_, fun member => free mark member marked, ?_⟩
  · rintro rfl
    exact other (by decide)
  · intro member
    exact other (List.mem_singleton.1 member ▸ by decide)

/-- An opening tag of a command. -/
theorem isCommandTag_commandTag {keyword arguments : Text} (proper : IsKeyword keyword)
    (given : AreArguments arguments) : IsCommandTag (commandTag keyword arguments) := by
  have start : ∀ c ∈ "ppp:".toList, c ∉ constructMarks := by decide
  have wordless : ∀ c ∈ constructMarks, c.isAlpha = false := by decide
  refine ⟨"ppp:".toList ++ keyword ++ arguments, commandTag_eq keyword arguments, ?_⟩
  intro c member marked
  simp only [List.mem_append] at member
  rcases member with (begins | letter) | argument
  · exact start c begins marked
  · exact proper.absent (wordless c marked) letter
  · exact given.free c argument marked

/-- The closer of a keyword. -/
theorem isCommandTag_closerOf {keyword : Text} (proper : IsKeyword keyword) :
    IsCommandTag (closerOf keyword) := by
  have start : ∀ c ∈ "ppp:/".toList, c ∉ constructMarks := by decide
  have wordless : ∀ c ∈ constructMarks, c.isAlpha = false := by decide
  refine ⟨"ppp:/".toList ++ keyword, closerOf_eq keyword, ?_⟩
  intro c member marked
  rcases List.mem_append.1 member with begins | letter
  · exact start c begins marked
  · exact proper.absent (wordless c marked) letter

/-- Nothing is given to a command without arguments. -/
theorem areArguments_nil : AreArguments [] :=
  ⟨fun _ member => absurd member (Option.not_mem_none _), List.forall_mem_nil _⟩

/-- A marker of a branch. -/
theorem isCommandTag_branchMarker {condition : Option Text}
    (given : ∀ arguments ∈ condition, AreArguments arguments) :
    IsCommandTag (branchMarker condition) := by
  cases condition with
  | none => exact isCommandTag_commandTag (by decide) areArguments_nil
  | some condition => exact isCommandTag_commandTag (by decide) (given condition rfl)

namespace Construct

variable {construct : Construct} {parts : List Text}

/-- A block stands between tags of commands. -/
theorem commandTags (proper : construct.Proper) (block : construct.pass = 2) :
    IsCommandTag construct.opener ∧ ∀ closer ∈ construct.closers, IsCommandTag closer := by
  cases construct with
  | reference filter => cases block
  | read name => cases block
  | use name operator => cases block
  | squares => cases block
  | braces => cases block
  | set arguments =>
    exact ⟨isCommandTag_commandTag (by decide) proper.1,
      List.forall_mem_singleton.2 (isCommandTag_closerOf (by decide))⟩
  | echo arguments =>
    exact ⟨isCommandTag_commandTag (by decide) proper.1,
      List.forall_mem_singleton.2 (isCommandTag_closerOf (by decide))⟩
  | negative arguments =>
    exact ⟨isCommandTag_commandTag (by decide) proper.1,
      List.forall_mem_singleton.2 (isCommandTag_closerOf (by decide))⟩
  | choose condition others =>
    refine ⟨isCommandTag_commandTag (by decide) proper.1, ?_⟩
    intro closer member
    rcases List.mem_append.1 member with marker | last
    · obtain ⟨other, among, rfl⟩ := List.mem_map.1 marker
      exact isCommandTag_branchMarker (proper.2.1 other among)
    · rw [List.mem_singleton.1 last]
      exact isCommandTag_closerOf (by decide)

/-- What is closed has a property that texts one after the other have. -/
theorem closed_of_parts {holds : Text → Prop} (nil : holds [])
    (append : ∀ {front back}, holds front → holds back → holds (front ++ back))
    {closers : List Text} (each : ∀ part ∈ parts, holds part)
    (between : ∀ closer ∈ closers, holds closer) : holds (closed parts closers) := by
  induction parts generalizing closers with
  | nil => exact nil
  | cons part parts inductionHypothesis =>
    cases closers with
    | nil => exact nil
    | cons closer closers =>
      rw [List.forall_mem_cons] at each between
      exact append each.1 (append between.1 (inductionHypothesis each.2 between.2))

/-- One text stands before one closer. -/
theorem exists_part {closer : Text} (paired : parts.length = [closer].length) :
    ∃ part, parts = [part] ∧ closed parts [closer] = part ++ closer := by
  obtain ⟨part, rfl⟩ := List.length_eq_one_iff.1 paired
  exact ⟨part, rfl, by simp [closed]⟩

/-- A filter has no marks of constructs and no underscores. -/
theorem free_filter {filter : Option (Char × Text)}
    (proper : ∀ quoted ∈ filter, IsQuoted quoted.1 quoted.2) :
    ∀ c ∈ quotedFilter filter, c ∉ '_' :: constructMarks := by
  cases filter with
  | none => exact List.forall_mem_nil _
  | some quoted =>
    obtain ⟨quote, labels⟩ := quoted
    obtain ⟨quotes, plain⟩ := proper (quote, labels) rfl
    have marks : ∀ d ∈ '_' :: constructMarks, d ∈ partMarks := by decide
    have other : quote ∉ '_' :: constructMarks := by
      rcases quotes with same | same <;> rw [show quote = _ from same] <;> decide
    intro c member
    rw [quotedFilter, List.mem_cons, List.mem_append, List.mem_singleton] at member
    rcases member with rfl | inside | rfl
    · exact other
    · exact fun marked => plain.unmarked c inside (marks c marked)
    · exact other

/-- A tag of a command is grouped. -/
theorem grouped_commandTag {tag : Text} (command : IsCommandTag tag) :
    Grouped Brackets.ofConstructs (fun _ => True) tag := by
  obtain ⟨inner, rfl, free⟩ := command
  exact .group pairs_ofConstructs.1 (grouped_of_free free) .nil

/-- Constructs of the passes after that over variables stand between tags of commands, or between two
brackets. -/
theorem delimiters (proper : construct.Proper) (late : 2 ≤ construct.pass) :
    (IsCommandTag construct.opener ∧ ∀ closer ∈ construct.closers, IsCommandTag closer) ∨
      ∃ first last, construct.opener = [first] ∧ construct.closers = [[last]] ∧
        first ∈ "[\x7b".toList ∧ last ∈ "]\x7d".toList := by
  by_cases later : 3 ≤ construct.pass
  · rcases eq_of_le_pass later with ⟨rfl, _⟩ | ⟨rfl, _⟩
    · exact .inr ⟨'[', ']', rfl, rfl, by decide, by decide⟩
    · exact .inr ⟨'\x7b', '\x7d', rfl, rfl, by decide, by decide⟩
  · exact .inl (commandTags proper (Nat.le_antisymm (Nat.le_of_lt_succ (Nat.lt_of_not_le later)) late))

/-- A construct of grouped texts is grouped. -/
theorem grouped (proper : construct.Proper) (paired : parts.length = construct.closers.length)
    (each : ∀ part ∈ parts, Grouped Brackets.ofConstructs (fun _ => True) part) :
    Grouped Brackets.ofConstructs (fun _ => True) (construct.write parts) := by
  have block (second : construct.pass = 2) :
      Grouped Brackets.ofConstructs (fun _ => True) (construct.write parts) := by
    obtain ⟨first, others⟩ := commandTags proper second
    exact (grouped_commandTag first).append (closed_of_parts .nil .append each
      fun closer member => grouped_commandTag (others closer member))
  have braced {content : Text} (inside : Grouped Brackets.ofConstructs (fun _ => True) content) :
      Grouped Brackets.ofConstructs (fun _ => True) ('\x7b' :: (content ++ ['\x7d'])) :=
    .group pairs_ofConstructs.2.2 inside .nil
  have dollar {text : Text} (others : Grouped Brackets.ofConstructs (fun _ => True) text) :
      Grouped Brackets.ofConstructs (fun _ => True) ('$' :: text) :=
    .char trivial (by decide) (by decide) others
  cases construct with
  | reference filter =>
    have ends : ∀ c ∈ ['_', '_'], c ∉ constructMarks := by decide
    refine (grouped_of_free ends).append (closed_of_parts .nil .append each ?_)
    exact List.forall_mem_singleton.2
      ((grouped_of_free fun c member marked => free_filter proper c member (.tail _ marked)).append
        (grouped_of_free ends))
  | read name =>
    obtain rfl := List.eq_nil_of_length_eq_zero paired
    have line : (read name).write [] = variableLine name := List.append_nil _
    rw [line]
    exact dollar (braced (grouped_of_free proper.free))
  | use name operator =>
    obtain ⟨part, rfl, written⟩ := exists_part paired
    have sign : ∀ c ∈ operator.sign, c ∉ constructMarks := by
      rcases operator with _ | _ | _ | _ <;> decide
    have inside := ((grouped_of_free proper.free).append (grouped_of_free sign)).append
      (each part List.mem_cons_self)
    have line : (use name operator).write [part] =
        '$' :: '\x7b' :: (((name ++ operator.sign) ++ part) ++ ['\x7d']) := by
      rw [write, opener, closers, written]
      simp
    rw [line]
    exact dollar (braced inside)
  | set arguments => exact block rfl
  | echo arguments => exact block rfl
  | choose condition others => exact block rfl
  | negative arguments => exact block rfl
  | squares =>
    obtain ⟨part, rfl, written⟩ := exists_part paired
    rw [write, closers, written]
    exact .group pairs_ofConstructs.2.1 (each part List.mem_cons_self) .nil
  | braces =>
    obtain ⟨part, rfl, written⟩ := exists_part paired
    rw [write, closers, written]
    exact braced (each part List.mem_cons_self)

end Construct

namespace Complete

variable {stage : Nat} {within : List Text} {depth : Nat} {text : Text}

/-- A text is complete at earlier stages, too, inside fewer blocks and with constructs nested
deeper. -/
theorem weaken (complete : Complete stage within depth text) {stage' : Nat} {within' : List Text}
    {depth' : Nat} (earlier : stage' ≤ stage) (fewer : within' ⊆ within) (deeper : depth ≤ depth') :
    Complete stage' within' depth' text := by
  induction complete generalizing within' depth' with
  | nil => exact .nil
  | char free unbarred _ inductionHypothesis =>
    exact .char free unbarred (inductionHypothesis fewer deeper)
  | tag harmless free inside _ inductionHypothesis =>
    exact .tag harmless free inside (inductionHypothesis fewer deeper)
  | construct proper later allowed paired admitted _ _ inside inductionHypothesis =>
    obtain ⟨depth', rfl⟩ := Nat.exists_eq_add_of_le' (Nat.le_trans (Nat.le_add_left 1 _) deeper)
    refine .construct proper (Nat.le_trans earlier later)
      (fun keyword member among => allowed keyword member (fewer among)) paired admitted ?_
      (inductionHypothesis fewer deeper)
    exact fun part member => inside part member (List.append_subset.2
      ⟨List.subset_append_left _ _, List.subset_append_of_subset_right _ fewer⟩)
      (Nat.le_of_succ_le_succ deeper)

/-- A property of characters, tags and constructs that texts one after the other have as well is one of
complete texts. -/
theorem of_parts {holds : Text → Prop} (nil : holds [])
    (append : ∀ {front back}, holds front → holds back → holds (front ++ back))
    (char : ∀ c, c ∉ constructMarks → holds [c])
    (tag : ∀ name content : Text, name.head?.map (sameLetter 'p') = some false →
      (∀ c ∈ name, c ∉ constructMarks) → Sealed content →
      holds ('<' :: ((name ++ content) ++ ['>'])))
    (construct : ∀ (construct : Construct) (parts : List Text), construct.Proper →
      stage ≤ construct.pass → (∀ keyword ∈ construct.keyword?, keyword ∉ within) →
      parts.length = construct.closers.length → (∀ part ∈ parts, construct.Admits part) →
      (∀ part ∈ parts, holds part) → holds (construct.write parts))
    (complete : Complete stage within depth text) : holds text := by
  -- The texts in a block stand inside it as well as inside all blocks around it.
  generalize inside : within = within' at complete
  replace inside : within ⊆ within' := inside ▸ List.Subset.refl within
  induction complete with
  | nil => exact nil
  | @char _ _ c rest free _ _ inductionHypothesis =>
    exact append (char c free) (inductionHypothesis inside)
  | @tag _ _ name content rest harmless free held _ inductionHypothesis =>
    have whole := append (tag name content harmless free held) (inductionHypothesis inside)
    rwa [List.cons_append, List.append_assoc] at whole
  | @construct _ _ kind parts rest proper later allowed paired admitted _ _ each others =>
    refine append (construct kind parts proper later
      (fun keyword member among => allowed keyword member (inside among)) paired admitted ?_)
      (others inside)
    exact fun part member => each part member (List.subset_append_of_subset_right _ inside)

/-- Its brackets are nested pairs. -/
theorem grouped (complete : Complete stage within depth text) :
    Grouped Brackets.ofConstructs (fun _ => True) text := by
  have single : ∀ {c}, c ∉ constructMarks → Grouped Brackets.ofConstructs (fun _ => True) [c] :=
    fun free => grouped_of_free (List.forall_mem_singleton.2 free)
  refine complete.of_parts .nil .append (fun c free => single free) ?_ ?_
  · intro name content _ free held
    exact .group pairs_ofConstructs.1 ((grouped_of_free free).append held.grouped) .nil
  · intro construct parts proper _ _ paired _ each
    exact construct.grouped proper paired each

/-- Behind the pass over variables no dollar sign is left. -/
theorem undollared (reached : 2 ≤ stage) (complete : Complete stage within depth text) :
    '$' ∉ text := by
  have append {front back : Text} (first : '$' ∉ front) (second : '$' ∉ back) : '$' ∉ front ++ back := by
    rw [List.mem_append, not_or]
    exact ⟨first, second⟩
  refine @of_parts stage within depth text (fun text => '$' ∉ text) List.not_mem_nil append ?_ ?_ ?_
    complete
  · rintro c free member
    exact free (List.mem_singleton.1 member ▸ by decide)
  · intro name content _ free held
    have inside := ((Sealed.of_free free).append held).undollared
    rw [List.mem_cons, not_or]
    exact ⟨by decide, append inside (by decide)⟩
  · intro kind parts proper later _ paired _ each
    have enclosed {opener closer : Char} (others : opener ≠ '$' ∧ closer ≠ '$')
        (opens : kind.opener = [opener]) (closes : kind.closers = [[closer]]) :
        '$' ∉ kind.write parts := by
      rw [closes] at paired
      obtain ⟨part, rfl, written⟩ := Construct.exists_part paired
      rw [Construct.write, opens, closes, written]
      have closer : '$' ∉ [closer] := by simpa using others.2.symm
      have opener : '$' ∉ [opener] := by simpa using others.1.symm
      exact append opener (append (each part List.mem_cons_self) closer)
    by_cases late : 3 ≤ kind.pass
    · rcases Construct.eq_of_le_pass late with ⟨rfl, _⟩ | ⟨rfl, _⟩
      · exact enclosed (by decide) rfl rfl
      · exact enclosed (by decide) rfl rfl
    · have tag {tag : Text} (command : IsCommandTag tag) : '$' ∉ tag :=
        command.absent (by decide) (by decide)
      obtain ⟨opener, closers⟩ := Construct.commandTags proper (by omega)
      exact append (tag opener) (@Construct.closed_of_parts parts (fun text => '$' ∉ text)
        List.not_mem_nil append kind.closers each fun closer member => tag (closers closer member))

/-- Complete texts one after the other, if the second stands apart. -/
theorem append (front : Complete stage within depth text) {rest : Text}
    (back : Complete stage within depth rest) (apart : Apart rest) :
    Complete stage within depth (text ++ rest) := by
  induction front with
  | nil => exact back
  | char free unbarred _ inductionHypothesis =>
    exact .char free (unbarred.before apart) (inductionHypothesis back)
  | tag harmless free inside _ inductionHypothesis =>
    rw [List.cons_append, List.append_assoc, List.cons_append]
    exact .tag harmless free inside (inductionHypothesis back)
  | construct proper later allowed paired admitted each _ _ inductionHypothesis =>
    rw [List.append_assoc]
    exact .construct proper later allowed paired admitted each (inductionHypothesis back)

/-- Characters that begin neither a construct nor a keyword. -/
theorem run {front : Text} (free : ∀ c ∈ front, c ∉ constructMarks ∧ c ∉ "_B".toList)
    (others : Complete stage within depth text) : Complete stage within depth (front ++ text) := by
  induction front with
  | nil => exact others
  | cons c front inductionHypothesis =>
    rw [List.forall_mem_cons] at free
    exact .char free.1.1 (.of_first free.1.2 _) (inductionHypothesis free.2)

/-- A construct with one text in it that is no block ending at the first closer. -/
theorem single (kind : Construct) (depth : Nat) {part rest : Text} (proper : kind.Proper)
    (later : stage ≤ kind.pass) (paired : kind.closers.length = 1) (keyword : kind.keyword? = none)
    (admitted : kind.Admits part) (inside : Complete stage within depth part)
    (others : Complete stage within (depth + 1) rest) :
    Complete stage within (depth + 1) (kind.write [part] ++ rest) := by
  refine .construct proper later ?_ paired.symm (List.forall_mem_singleton.2 admitted)
    (List.forall_mem_singleton.2 ?_) others
  · rw [keyword]
    exact fun _ none => absurd none (Option.not_mem_none _)
  · rwa [keyword]

/-- A character that is no mark and no underscore begins no construct. -/
theorem behind {c : Char} (free : c ∉ constructMarks) (other : c ≠ '_')
    (complete : Complete stage within depth (c :: text)) : Complete stage within depth text := by
  generalize whole : c :: text = line at complete
  cases complete with
  | nil => cases whole
  | char _ _ others =>
    obtain ⟨rfl, rfl⟩ := List.cons.inj whole
    exact others
  | tag =>
    obtain rfl := (List.cons.inj whole).1
    exact absurd (by decide) free
  | @construct _ _ kind parts rest =>
    obtain ⟨d, opener, opens, among⟩ := kind.exists_opener
    rw [Construct.write, opens] at whole
    obtain rfl : c = d := (List.cons.inj whole).1
    rcases among with marked | rfl
    · exact absurd marked free
    · exact absurd rfl other

section Last

variable (last : 5 ≤ stage) (complete : Complete stage within depth text)

include last complete

/-- Without constructs neither the stage nor the blocks around nor the depth matter. -/
theorem anywhere {stage' : Nat} {within' : List Text} {depth' : Nat} :
    Complete stage' within' depth' text := by
  induction complete generalizing depth' with
  | nil => exact .nil
  | char free unbarred _ inductionHypothesis => exact .char free unbarred inductionHypothesis
  | tag harmless free inside _ inductionHypothesis =>
    exact .tag harmless free inside inductionHypothesis
  | @construct _ _ kind _ _ _ later =>
    exact absurd (Nat.lt_of_le_of_lt (Nat.le_trans last later) kind.pass_lt) (Nat.lt_irrefl 5)

/-- Without constructs a complete text may stand in a tag. -/
theorem isSealed : Sealed text := by
  refine complete.of_parts .nil .append ?_ ?_ ?_
  · exact fun c free => .of_free (List.forall_mem_singleton.2 free)
  · exact fun name content harmless free inside => .tag harmless free inside .nil
  · intro kind parts _ later
    exact absurd (Nat.lt_of_le_of_lt (Nat.le_trans last later) kind.pass_lt) (Nat.lt_irrefl 5)

/-- Without constructs nothing stands outside the tags of a complete text that a pass looks for. -/
theorem bare : Bare text := by
  induction complete with
  | nil => exact .nil
  | @char _ _ c rest free unbarred _ inductionHypothesis =>
    have marks : ∀ d ∈ '\\' :: bareMarks, d ∈ constructMarks := by decide
    refine .char (fun marked => free (marks c (.tail _ marked))) ?_ ?_ inductionHypothesis
    · rintro rfl
      exact free (by decide)
    · rintro rfl first
      obtain ⟨rest, rfl⟩ := List.head?_eq_some_iff.1 first
      exact unbarred ['_', '_'] (by decide) ⟨rest, rfl⟩
  | @tag _ _ name content rest _ free inside _ inductionHypothesis =>
    have grouped := (grouped_of_free free).append inside.grouped
    exact .tag (.of_grouped (grouped.single pairs_ofConstructs.1)) inductionHypothesis
  | @construct _ _ kind _ _ _ later =>
    exact absurd (Nat.lt_of_le_of_lt (Nat.le_trans last later) kind.pass_lt) (Nat.lt_irrefl 5)

end Last

end Complete

/-- A text that may stand for a construct, whatever complete text stands behind it. -/
structure Emitted (text : Text) : Prop where
  filled : text ≠ []
  apart : Apart text
  before {stage : Nat} {within : List Text} {depth : Nat} {rest : Text}
    (others : Complete stage within depth rest) : Complete stage within depth (text ++ rest)

namespace Emitted

variable {text : Text}

/-- A tag whose name begins with no letter of a command. -/
theorem tag {name content : Text} (harmless : name.head?.map (sameLetter 'p') = some false)
    (free : ∀ c ∈ name, c ∉ constructMarks) (inside : Sealed content) :
    Emitted ('<' :: ((name ++ content) ++ ['>'])) where
  filled := List.cons_ne_nil _ _
  apart := by
    rintro c ⟨⟩
    decide
  before others := by
    rw [List.cons_append, List.append_assoc, List.singleton_append]
    exact .tag harmless free inside others

/-- Such texts one after the other. -/
theorem append {rest : Text} (front : Emitted text) (back : Emitted rest) :
    Emitted (text ++ rest) where
  filled := List.append_ne_nil_of_left_ne_nil front.filled rest
  apart := front.apart.append front.filled rest
  before others := by
    rw [List.append_assoc]
    exact front.before (back.before others)

/-- By itself it is complete at the last stage. -/
theorem complete (emitted : Emitted text) : Complete 5 [] 0 text := by
  have alone : Complete 5 [] 0 (text ++ []) := emitted.before .nil
  rwa [List.append_nil] at alone

/-- It may stand in a tag. -/
theorem isSealed (emitted : Emitted text) : Sealed text := emitted.complete.isSealed (Nat.le_refl 5)

end Emitted

namespace Complete

variable {stage : Nat} {within : List Text} {depth : Nat} {text : Text}

/-- No two dollar signs stand beside each other: behind each of them a brace opens. -/
theorem undoubled (complete : Complete stage within depth text) : Undoubled '$' text := by
  have free {text : Text} (free : ∀ c ∈ text, c ∉ constructMarks) : Undoubled '$' text :=
    .of_absent fun member => free '$' member (by decide)
  have command {tag : Text} (command : IsCommandTag tag) : Undoubled '$' tag :=
    .of_absent (command.absent (by decide) (by decide))
  have brace : Undoubled '$' ['\x7d'] := .of_absent (by decide)
  refine complete.of_parts (.of_absent List.not_mem_nil) .append ?_ ?_ ?_
  · exact fun c unmarked => free (List.forall_mem_singleton.2 unmarked)
  · intro name content harmless unmarked inside
    exact .of_absent (Emitted.tag harmless unmarked inside).isSealed.undollared
  · intro kind parts proper _ _ _ _ each
    have closers {closers : List Text} (between : ∀ closer ∈ closers, Undoubled '$' closer) :
        Undoubled '$' (Construct.closed parts closers) :=
      Construct.closed_of_parts (.of_absent List.not_mem_nil) .append each between
    by_cases late : 2 ≤ kind.pass
    · rcases Construct.delimiters proper late with
        ⟨opener, commands⟩ | ⟨first, last, opens, closes, among⟩
      · exact (command opener).append
          (closers fun closer member => command (commands closer member))
      · have others : ∀ c ∈ "[\x7b]\x7d".toList, Undoubled '$' [c] := fun c member =>
          .of_absent fun same => by
            rw [← List.mem_singleton.1 same] at member
            exact absurd member (by decide)
        rw [Construct.write, opens, closes]
        refine (others first ?_).append (closers (List.forall_mem_singleton.2 (others last ?_)))
        · exact List.mem_append_left "]\x7d".toList among.1
        · exact List.mem_append_right "[\x7b".toList among.2
    · cases kind with
      | reference filter =>
        have ends : Undoubled '$' ['_', '_'] := .of_absent (by decide)
        refine ends.append (closers (List.forall_mem_singleton.2 (.append (free ?_) ends)))
        exact fun c member marked => Construct.free_filter proper c member (.tail _ marked)
      | read name =>
        exact ((Undoubled.before (by decide)).append ((free proper.free).append brace)).append
          (closers (List.forall_mem_nil _))
      | use name operator =>
        have sign : Undoubled '$' operator.sign := by
          refine .of_absent ?_
          rcases operator with _ | _ | _ | _ <;> decide
        exact ((Undoubled.before (by decide)).append ((free proper.free).append sign)).append
          (closers (List.forall_mem_singleton.2 brace))
      | _ => exact absurd (by simp [Construct.pass]) late

end Complete

end Source

end DynamicPrompt
