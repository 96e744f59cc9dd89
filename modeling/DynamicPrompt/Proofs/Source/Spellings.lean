import DynamicPrompt.Proofs.Delimiter.Balanced
import DynamicPrompt.Proofs.Source.Command
import DynamicPrompt.Proofs.Source.Inert
import DynamicPrompt.Proofs.Source.Variables

/-!
# Two spellings of one language

A variable is set and read by block commands or by a dollar sign with braces. The two are recognised
by different passes and end differently: a block at the first closer of its keyword, a construct in
braces at the brace that balances the first. Where a value has no angle bracket, no dollar sign, no
backslash and no reference in it and its braces are balanced, both end at the same place, and both are
written as the same directives of the same rewritten value.

What is written for a construct in braces still goes through the pass over block commands. It finds
nothing there, because the rewritten value is inert like the value itself. From then on the two lines
are one.
-/

namespace DynamicPrompt.Source

/-- What an assignment by a block may be told to do: to fix its text at once, to add it, or to leave a
variable that is set alone. -/
inductive Modifier where
  | evaluate
  | add
  | ifUndefined
deriving DecidableEq, Repr

/-- A modifier as it is written. -/
def Modifier.word : Modifier → Text
  | evaluate => "evaluate"
  | add => "add"
  | ifUndefined => "ifundefined"

/-- How an assignment with these modifiers combines with what the variable holds. -/
def modeOf (modifiers : List Modifier) : AssignMode :=
  if .add ∈ modifiers then .add
  else if .ifUndefined ∈ modifiers then .ifUndefined
  else .set

/-- The arguments of a block that sets a variable: its name and its modifiers, a blank before each. -/
def setArguments (name : Text) (modifiers : List Modifier) : Text :=
  ((name :: modifiers.map Modifier.word).map (' ' :: ·)).flatten

/-- The line of a block that sets a variable. -/
def setBlock (name : Text) (modifiers : List Modifier) (value : Text) : Text :=
  "<ppp:set" ++ setArguments name modifiers ++ ">" ++ value ++ "<ppp:/set>"

/-- The line of a block that reads a variable with a text to fall back to. -/
def echoBlock (name value : Text) : Text :=
  "<ppp:echo " ++ name ++ ">" ++ value ++ "<ppp:/echo>"

/-- The characters that divide a name or end it, in one spelling or in the other. -/
def nameMarks : Text := "<>\x7b\x7d$\\:=+?"

/-- A name that is read whole in either spelling: without blanks, without those characters, and with
no two underscores in a row. -/
structure IsSharedName (name : Text) : Prop where
  filled : name ≠ []
  bare : ∀ c ∈ name, isBlank c = false ∧ c ∉ nameMarks
  apart : ¬ ['_', '_'] <:+: name

/-- A value that is read whole in either spelling. -/
structure IsSharedValue (value : Text) : Prop where
  bare : ∀ c ∈ value, c ∉ "<$\\".toList
  apart : ¬ ['_', '_'] <:+: value
  balanced : IsBalanced '\x7b' '\x7d' value

namespace IsSharedName

variable {name : Text}

/-- Letters and digits are read whole. -/
theorem of_isAlphanum (filled : name ≠ []) (letters : ∀ c ∈ name, c.isAlphanum = true) :
    IsSharedName name where
  filled := filled
  bare := by
    intro c member
    have marks : ∀ mark ∈ nameMarks, mark.isAlphanum = false := by decide
    refine ⟨isBlank_of_isAlphanum (letters c member), fun among => ?_⟩
    have other := marks c among
    rw [letters c member] at other
    exact absurd other.symm Bool.false_ne_true
  apart := Reference.apart_of_absent fun member =>
    absurd (letters '_' member) (by decide)

variable (shared : IsSharedName name)

include shared

/-- None of the characters stands in the name. -/
theorem absent {mark : Char} (marks : mark ∈ nameMarks) : mark ∉ name :=
  fun member => (shared.bare mark member).2 marks

/-- The name is a word. -/
theorem isUnspaced : Text.IsUnspaced name :=
  ⟨shared.filled, fun c member => (shared.bare c member).1⟩

/-- A variable construct reads it whole. -/
theorem isWhole : VariableUse.IsWhole name where
  filled := shared.filled
  trim := Text.trim_unspaced shared.isUnspaced.unspaced
  undivided := by
    have signs : ∀ c ∈ ":=+?".toList, c ∈ nameMarks := by decide
    exact fun c member among => shared.absent (signs c among) member

/-- Nothing can begin in it. -/
theorem inert : Inert name := by
  refine .of_apart (fun c member => ⟨?_, ?_⟩) shared.apart
  · rintro rfl
    exact shared.absent (by decide) member
  · rintro rfl
    exact shared.absent (by decide) member

end IsSharedName

namespace IsSharedValue

variable {value : Text} (shared : IsSharedValue value)

include shared

/-- Nothing can begin in it. -/
theorem inert : Inert value := by
  refine .of_apart (fun c member => ⟨?_, ?_⟩) shared.apart
  · rintro rfl
    exact shared.bare '$' member (by decide)
  · rintro rfl
    exact shared.bare '<' member (by decide)

/-- Behind characters that are no braces and no backslashes it ends before the brace that closes
it. -/
theorem enclosed? {front : Text} (plain : ∀ c ∈ front, c ∉ "\x7b\x7d\\".toList) :
    enclosed? '\x7b' '\x7d' ((front ++ value) ++ ['\x7d']) = some (front ++ value, []) := by
  have unescaped : '\\' ∉ front ++ value := by
    rw [List.mem_append, not_or]
    exact ⟨fun member => plain '\\' member (by decide),
      fun member => shared.bare '\\' member (by decide)⟩
  have free : ∀ c ∈ front, c ≠ '\x7b' ∧ c ≠ '\x7d' ∧ c ≠ '\\' := by
    intro c member
    refine ⟨?_, ?_, ?_⟩ <;>
    · rintro rfl
      exact plain _ member (by decide)
  rw [enclosed?_eq_some_iff (by decide) unescaped]
  exact ⟨rfl, (closes_behind free).2 shared.balanced⟩

end IsSharedValue

section Reading

/-- A closer is found where no other command begins before it. -/
theorem cutAround?_closer {text : Text} (plain : '<' ∉ text) (keyword : Text) :
    Text.cutAround? (closerOf keyword) (text ++ closerOf keyword) = some (text, []) := by
  induction text with
  | nil =>
    have begins : Text.after? (closerOf keyword) (closerOf keyword) = some [] := by
      rw [Text.after?_eq_some_iff, List.append_nil]
    rw [List.nil_append]
    -- Only the text that is searched is taken apart, not what is searched for.
    conv_lhs => arg 2; rw [closerOf_eq]
    rw [Text.cutAround?, ← closerOf_eq, begins]
  | cons c text inductionHypothesis =>
    rw [List.mem_cons, not_or] at plain
    rw [List.cons_append, Text.cutAround?, after?_closer_plain (Ne.symm plain.1),
      inductionHypothesis plain.2]
    rfl

/-- The words of modifiers name them, and no others. -/
theorem modifiersOf_words (modifiers : List Modifier) :
    Block.modifiersOf (modifiers.map Modifier.word) =
      (⟨decide (.evaluate ∈ modifiers), decide (.add ∈ modifiers),
        decide (.ifUndefined ∈ modifiers)⟩, []) := by
  induction modifiers with
  | nil => rfl
  | cons first others inductionHypothesis =>
    have small : Text.lower first.word = first.word := by
      cases first with
      | evaluate => decide +kernel
      | add => decide +kernel
      | ifUndefined => decide +kernel
    rw [List.map_cons, Block.modifiersOf, inductionHypothesis]
    dsimp only
    rw [small]
    cases first with
    | evaluate =>
      rw [if_pos (show Modifier.evaluate.word = "evaluate".toList from rfl)]
      simp
    | add =>
      rw [if_neg (show Modifier.add.word ≠ "evaluate".toList by decide),
        if_pos (show Modifier.add.word = "add".toList from rfl)]
      simp
    | ifUndefined =>
      rw [if_neg (show Modifier.ifUndefined.word ≠ "evaluate".toList by decide),
        if_neg (show Modifier.ifUndefined.word ≠ "add".toList by decide),
        if_pos (show Modifier.ifUndefined.word = "ifundefined".toList from rfl)]
      simp

variable {name value : Text} {modifiers : List Modifier}

/-- What a block that sets a variable says. Adding and leaving alone do not go together. -/
theorem readSet_arguments (named : IsSharedName name) (shared : IsSharedValue value)
    (exclusive : ¬ (.add ∈ modifiers ∧ .ifUndefined ∈ modifiers)) :
    Block.readSet (setArguments name modifiers) (value ++ closerOf "set") =
      (some (.set name (modeOf modifiers) (decide (.evaluate ∈ modifiers)) value, []), []) := by
  have each : ∀ part ∈ name :: modifiers.map Modifier.word, Text.IsUnspaced part := by
    rw [List.forall_mem_cons, List.forall_mem_map]
    refine ⟨named.isUnspaced, fun modifier _ => ?_⟩
    cases modifier <;> constructor <;> decide
  have plain : '<' ∉ value := fun member => shared.bare '<' member (by decide)
  rw [Block.readSet, setArguments, Text.words_spaced each]
  dsimp only
  rw [modifiersOf_words, cutAround?_closer plain]
  dsimp only
  rw [if_neg (by simpa using exclusive)]
  simp only [modeOf, decide_eq_true_eq, Option.map_some]

/-- What a block that reads a variable says. -/
theorem readEcho_arguments (named : IsSharedName name) (shared : IsSharedValue value) :
    Block.readEcho (' ' :: name) (value ++ closerOf "echo") =
      (some (.echo name (some value), []), []) := by
  have plain : '<' ∉ value := fun member => shared.bare '<' member (by decide)
  have alone : Text.occursIn "<ppp:echo" value = false := by
    rw [Text.occursIn]
    cases found : Text.cutAround? "<ppp:echo" value with
    | none => rfl
    | some parts =>
      have whole := Text.cutAround?_append found
      exact absurd (by rw [← whole]; simp) plain
  have trimmed : Text.trim (' ' :: name) = name :=
    Text.trim_cons (by decide) named.isUnspaced.unspaced
  rw [Block.readEcho, trimmed, if_neg (by simpa using named.filled), cutAround?_closer plain]
  dsimp only
  rw [if_neg (by rw [alone]; exact Bool.false_ne_true)]

end Reading

section Blocks

/-- The line of a block: its opening tag, its value and its closer. -/
def blockLine (keyword arguments value : Text) : Text :=
  commandTag keyword arguments ++ (value ++ closerOf keyword)

/-- The line of a block that sets a variable. -/
theorem setBlock_eq (name : Text) (modifiers : List Modifier) (value : Text) :
    setBlock name modifiers value = blockLine "set" (setArguments name modifiers) value := by
  have opening : "<ppp:set".toList = commandStart ++ "set".toList := rfl
  have between : ">".toList = ['>'] := rfl
  have closing : "<ppp:/set>".toList = closerOf "set" := rfl
  unfold setBlock blockLine commandTag
  simp only [opening, between, closing, List.append_assoc]

/-- The line of a block that reads a variable. -/
theorem echoBlock_eq (name value : Text) :
    echoBlock name value = blockLine "echo" (' ' :: name) value := by
  have opening : "<ppp:echo ".toList = commandStart ++ "echo".toList ++ [' '] := rfl
  have between : ">".toList = ['>'] := rfl
  have closing : "<ppp:/echo>".toList = closerOf "echo" := rfl
  unfold echoBlock blockLine commandTag
  simp only [opening, between, closing, List.append_assoc, List.cons_append, List.nil_append]

/-- Arguments behind a blank, without characters that something else could begin or end with. -/
structure AreBare (arguments : Text) : Prop where
  separated : ∀ c ∈ arguments.head?, c = ' '
  bare : ∀ c ∈ arguments, c ∉ "<>$".toList
  apart : ¬ ['_', '_'] <:+: arguments

/-- Such arguments may stand in a tag. -/
theorem AreBare.separate {arguments : Text} (given : AreBare arguments) : Separate arguments where
  separated := given.separated
  unopened member := given.bare '<' member (by decide)
  unclosed member := given.bare '>' member (by decide)

/-- A name behind a blank. -/
theorem IsSharedName.areBare {name : Text} (named : IsSharedName name) : AreBare (' ' :: name) where
  separated := by
    rintro c ⟨⟩
    rfl
  bare := by
    have marks : ∀ c ∈ "<>$".toList, c ∈ nameMarks := by decide
    refine List.forall_mem_cons.2 ⟨by decide, fun c member among => ?_⟩
    exact named.absent (marks c among) member
  apart := Reference.apart_cons (by decide) named.apart

/-- Arguments behind arguments. -/
theorem AreBare.append {front back : Text} (first : AreBare front) (second : AreBare back) :
    AreBare (front ++ back) where
  separated := by
    cases front with
    | nil => exact second.separated
    | cons c front => exact first.separated
  bare := by
    intro c member
    rcases List.mem_append.1 member with before | after
    · exact first.bare c before
    · exact second.bare c after
  apart := by
    refine Reference.apart_append first.apart second.apart fun begins => ?_
    exact absurd (second.separated '_' begins) (by decide)

/-- A name with its modifiers. -/
theorem IsSharedName.areBare_set {name : Text} (named : IsSharedName name)
    (modifiers : List Modifier) : AreBare (setArguments name modifiers) := by
  rw [setArguments, List.map_cons, List.flatten_cons]
  refine named.areBare.append ?_
  induction modifiers with
  | nil => exact ⟨by simp, by simp, by simp⟩
  | cons modifier modifiers inductionHypothesis =>
    rw [List.map_cons, List.map_cons, List.flatten_cons]
    refine AreBare.append ?_ inductionHypothesis
    cases modifier with
    | evaluate => exact ⟨by simp, by decide, by decide⟩
    | add => exact ⟨by simp, by decide, by decide⟩
    | ifUndefined => exact ⟨by simp, by decide, by decide⟩

variable {keyword arguments value : Text}

/-- No reference begins in the line of a block. -/
theorem apart_blockLine (proper : IsKeyword keyword) (separate : AreBare arguments)
    (shared : IsSharedValue value) : ¬ ['_', '_'] <:+: blockLine keyword arguments value := by
  have opening : '_' ∉ commandStart ++ keyword := by
    have start : '_' ∉ commandStart := by decide
    simp [start, proper.absent (show '_'.isAlpha = false by decide)]
  have closer : '_' ∉ closerOf keyword := proper.absent_closer (by decide) (by decide)
  have ended : ¬ ['_', '_'] <:+: value ++ closerOf keyword := by
    refine Reference.apart_append shared.apart (Reference.apart_of_absent closer) ?_
    rintro ⟨⟩
  have given : ¬ ['_', '_'] <:+: arguments ++ '>' :: (value ++ closerOf keyword) :=
    Reference.apart_append separate.apart (Reference.apart_cons (by decide) ended) (by simp)
  have begins : (arguments ++ '>' :: (value ++ closerOf keyword)).head? ≠ some '_' := by
    cases arguments with
    | nil => simp
    | cons c arguments =>
      rintro ⟨⟩
      exact absurd (separate.separated '_' rfl) (by decide)
  have whole := Reference.apart_append (Reference.apart_of_absent opening) given begins
  simp only [List.append_assoc] at whole
  simpa only [blockLine, commandTag, List.append_assoc, List.singleton_append] using whole

/-- No variable begins in the line of a block. -/
theorem undollared_blockLine (proper : IsKeyword keyword) (separate : AreBare arguments)
    (shared : IsSharedValue value) : '$' ∉ blockLine keyword arguments value := by
  have start : '$' ∉ commandStart := by decide
  have letters : '$' ∉ keyword := proper.absent (by decide)
  have given : '$' ∉ arguments := fun member => separate.bare '$' member (by decide)
  have inside : '$' ∉ value := fun member => shared.bare '$' member (by decide)
  have closer : '$' ∉ closerOf keyword := proper.absent_closer (by decide) (by decide)
  simp [blockLine, commandTag, start, letters, given, inside, closer]

/-- No other command begins in the line of a block. -/
theorem absent_blockLine (proper : IsKeyword keyword) (separate : AreBare arguments)
    (shared : IsSharedValue value)
    (other : ∀ rest, foldedAfter? "stn" (keyword ++ rest) = none) :
    Absent "<ppp:stn" (blockLine keyword arguments value) := by
  have letters : '<' ∉ keyword := proper.absent (by decide)
  have front : '<' ∉ "ppp:".toList ++ keyword ++ arguments ++ ['>'] ++ value := by
    have unopened : '<' ∉ arguments := fun member => separate.bare '<' member (by decide)
    have unopened' : '<' ∉ value := fun member => shared.bare '<' member (by decide)
    simp [letters, unopened, unopened']
  have back : '<' ∉ "ppp:/".toList ++ keyword ++ ['>'] := by simp [letters]
  have closer : Absent "<ppp:stn" (closerOf keyword) := by
    have alone : Absent "<ppp:stn" ("ppp:/".toList ++ keyword ++ ['>'] ++ []) :=
      .run back (.nil '<' _)
    rw [List.append_nil] at alone
    rw [closerOf_eq]
    exact .cons rfl alone
  have shape : blockLine keyword arguments value =
      '<' :: (("ppp:".toList ++ keyword ++ arguments ++ ['>'] ++ value) ++ closerOf keyword) := by
    rw [blockLine, commandTag_eq, List.cons_append, List.append_assoc _ value]
  rw [shape]
  -- An insertion point begins like a block, so it is the keywords that tell them apart.
  refine .cons ?_ (.run front closer)
  have behind : "ppp:".toList ++ keyword ++ arguments ++ ['>'] ++ value ++ closerOf keyword =
      "ppp:".toList ++ (keyword ++ (arguments ++ ['>'] ++ value ++ closerOf keyword)) := by simp
  rw [behind]
  exact other _

/-- The line of a block is written as what the block says and then goes through the passes after
block commands. -/
theorem transpile_blockLine {transpiler : Transpiler} {levels : Nat} {block : Block}
    (limit : transpiler.limit = levels + 1) (proper : IsKeyword keyword)
    (separate : AreBare arguments) (shared : IsSharedValue value)
    (other : ∀ rest, foldedAfter? "stn" (keyword ++ rest) = none)
    (reading : Block.read ⟨keyword, arguments, commandTag keyword arguments⟩
      (value ++ closerOf keyword) = (some (block, []), [])) :
    transpiler.transpile (blockLine keyword arguments value) =
      block.write ⟨transpiler, transpiler.rewriteWithin levels⟩ >>=
        afterBlocks ⟨transpiler, transpiler.rewriteWithin levels⟩ := by
  have unlabelled : clauseLabels (blockLine keyword arguments value) =
      blockLine keyword arguments value := by
    apply clauseLabels_of_first
    rintro c ⟨⟩
    decide
  have opens : opener? (blockLine keyword arguments value) =
      some (⟨keyword, arguments, commandTag keyword arguments⟩, value ++ closerOf keyword) :=
    opener?_command proper separate.separate _
  have written (pass : Pass) : Block.rewrite pass (blockLine keyword arguments value) =
      block.write pass := by
    rw [Block.rewrite, withoutMarkers_of_absent (absent_blockLine proper separate shared other)]
    dsimp only
    rw [Block.pieces_found opens reading, List.map_nil, List.nil_append, Block.pieces, writePieces]
    simp [writePieces]
  rw [Transpiler.transpile, unlabelled, limit, Transpiler.rewriteWithin, Transpiler.passes,
    Reference.rewrite_of_apart _ (apart_blockLine proper separate shared), pure_bind,
    VariableUse.rewrite_of_absent _ (undollared_blockLine proper separate shared), pure_bind, written]
  rfl

end Blocks

section Directives

/-- The tag that adds to a macro. -/
def addTag (name value : Text) : Directive := ⟨"wcaddmacro", some name, some (", " ++ value)⟩

/-- The tag of what is done where a macro is empty. -/
def unlessSetTag (name text : Text) : Directive :=
  ⟨"wcmatch", none, some (fallbackCase name text).print⟩

/-- An addition that fixes nothing is a tag. -/
theorem assignDirectives_add (name value : Text) :
    assignDirectives name value .add false = (addTag name value).print := by
  have opening : "<wcaddmacro[".toList = '<' :: ("wcaddmacro".toList ++ ['[']) := rfl
  have between : "]:, ".toList = ']' :: ':' :: ", ".toList := rfl
  have closing : ">".toList = ['>'] := rfl
  unfold assignDirectives addTag
  simp only [Template.print_full, opening, between, closing, List.append_assoc, List.cons_append,
    List.nil_append]

/-- An addition that fixes its text at once replaces the variable by what it holds and the text. -/
theorem assignDirectives_add_immediate (name value : Text) :
    assignDirectives name value .add true =
      setDirectives name ((macroTag name).print ++ ", " ++ value) true := by
  have opening : "<macro:".toList = '<' :: ("macro".toList ++ [':']) := rfl
  have between : ">, ".toList = '>' :: ", ".toList := rfl
  unfold assignDirectives macroTag
  simp only [Template.print_bodied, opening, between, List.append_assoc, List.cons_append,
    List.nil_append]

/-- An assignment that leaves a set variable alone is a match with one case. -/
theorem assignDirectives_ifUndefined (name value : Text) (immediate : Bool) :
    assignDirectives name value .ifUndefined immediate =
      (unlessSetTag name (setDirectives name value immediate)).print := by
  have opening : "<wcmatch:<wccase[length(".toList =
      '<' :: ("wcmatch".toList ++ ':' :: '<' :: ("wccase".toList ++ '[' :: "length(".toList)) := rfl
  have asking : ") eq 0]:".toList = ") eq 0".toList ++ [']', ':'] := rfl
  have closing : ">>".toList = ['>', '>'] := rfl
  cases immediate <;>
  · unfold assignDirectives unlessSetTag fallbackCase isEmptyCondition
    simp only [Template.print_full, Template.print_bodied, opening, asking, closing,
      List.append_assoc, List.cons_append, List.nil_append]

variable {name value : Text} (named : Inert name)

include named

/-- The tag that reads a macro may be put between any inert texts. -/
theorem insertable_macroTag : Insertable (macroTag name).print :=
  insertable_bodied (show Inert ('<' :: "macro".toList) by decide) named

/-- So may the tag that reads a variable. -/
theorem insertable_varTag : Insertable (varTag name).print :=
  insertable_bodied (show Inert ('<' :: "var".toList) by decide) named

variable (inert : Inert value)

include inert

/-- So may a tag that sets something to an inert text. -/
theorem insertable_setting {keyword : Text} (initial : Inert ('<' :: keyword)) :
    Insertable (Directive.print ⟨keyword, some (name ++ ",false"), some value⟩) := by
  have argument : Inert (name ++ ",false") :=
    (inert_around (by decide)).2 ⟨named, show Inert "false" by decide⟩
  exact insertable_full initial argument inert

/-- So may the case of an inert text to fall back to. -/
theorem insertable_fallbackCase : Insertable (fallbackCase name value).print := by
  have condition : Inert (isEmptyCondition name) := by
    have asking : Inert "length" ∧ Inert " eq 0" := by decide
    rw [isEmptyCondition_eq, inert_around (by decide), inert_around (by decide)]
    exact ⟨asking.1, named, asking.2⟩
  exact insertable_full (show Inert ('<' :: "wccase".toList) by decide) condition inert

/-- The directives that replace a variable by an inert text may be put between any others. -/
theorem insertable_setDirectives (immediate : Bool) :
    Insertable (setDirectives name value immediate) := by
  have initials : Inert ('<' :: "setvar".toList) ∧ Inert ('<' :: "setmacro".toList) := by decide
  cases immediate with
  | true =>
    rw [setDirectives_immediate]
    exact (insertable_setting named inert initials.1).append
      (insertable_setting named (insertable_varTag named).inert initials.2)
  | false =>
    rw [setDirectives_delayed]
    exact insertable_setting named inert initials.2

/-- The directives of any assignment of an inert text are inert. -/
theorem inert_assignDirectives (mode : AssignMode) (immediate : Bool) :
    Inert (assignDirectives name value mode immediate) := by
  have behind (text : Text) : Inert (text ++ ", " ++ value) ↔ Inert text ∧ Inert value := by
    rw [List.append_assoc]
    exact (inert_around (by decide)).trans (and_congr_right' (inert_cons (by decide)))
  cases mode with
  | set =>
    rw [assignDirectives_set]
    exact (insertable_setDirectives named inert immediate).inert
  | add =>
    cases immediate with
    | true =>
      rw [assignDirectives_add_immediate]
      have held := (insertable_macroTag named).inert
      exact (insertable_setDirectives named ((behind _).2 ⟨held, inert⟩) true).inert
    | false =>
      rw [assignDirectives_add]
      have added : Inert (", " ++ value) := (behind []).2 ⟨inert_nil, inert⟩
      exact (insertable_full (show Inert ('<' :: "wcaddmacro".toList) by decide) named added).inert
  | ifUndefined =>
    rw [assignDirectives_ifUndefined]
    have assigned := (insertable_setDirectives named inert immediate).inert
    exact (insertable_bodied (show Inert ('<' :: "wcmatch".toList) by decide)
      (insertable_fallbackCase named assigned).inert).inert

/-- The directives of a reading that falls back to an inert text are inert. -/
theorem inert_readDirectives : Inert (readDirectives name value) := by
  by_cases empty : value = []
  · rw [empty, readDirectives_nil]
    exact (insertable_macroTag named).inert
  · rw [readDirectives_filled name empty]
    have reading : Insertable (readCase name).print :=
      insertable_bodied (show Inert ('<' :: "wccase".toList) by decide)
        (insertable_macroTag named).inert
    have branches := (insertable_fallbackCase named inert).append reading
    exact (insertable_bodied (show Inert ('<' :: "wcmatch".toList) by decide) branches.inert).inert

end Directives

section Constructs

variable {transpiler : Transpiler} {levels : Nat} {name value : Text}

/-- A construct in braces with an operator between its name and its value is written as what it says,
and then goes through the passes after block commands. -/
theorem transpile_construct {operator : Text} {use : VariableUse}
    (limit : transpiler.limit = levels + 1) (named : IsSharedName name) (shared : IsSharedValue value)
    (signs : ∀ c ∈ operator, c ∈ ":=+?!".toList) (filled : operator ≠ [])
    (meant : VariableUse.ofText? (name ++ (operator ++ value)) = some use)
    (quiet : Reports Quiet (use.write ⟨transpiler, transpiler.rewriteWithin levels⟩)) :
    transpiler.transpile (variableLine (name ++ (operator ++ value))) =
      use.write ⟨transpiler, transpiler.rewriteWithin levels⟩ >>=
        afterBlocks ⟨transpiler, transpiler.rewriteWithin levels⟩ := by
  have underscored : '_' ∉ operator := fun member => absurd (signs '_' member) (by decide)
  have apart : ¬ ['_', '_'] <:+: variableLine (name ++ (operator ++ value)) := by
    have content : ¬ ['_', '_'] <:+: name ++ (operator ++ value) := by
      refine Reference.apart_append named.apart (Reference.apart_behind underscored shared.apart) ?_
      cases operator with
      | nil => exact absurd rfl filled
      | cons c operator =>
        rintro ⟨⟩
        exact underscored List.mem_cons_self
    have closed := Reference.apart_append content
      (Reference.apart_of_absent (show '_' ∉ ['\x7d'] by decide)) (by decide)
    exact Reference.apart_cons (by decide) (Reference.apart_cons (by decide) closed)
  have plain : ∀ c ∈ name ++ operator, c ∉ "\x7b\x7d\\".toList := by
    intro c member
    rcases List.mem_append.1 member with before | after
    · have marks : ∀ c ∈ "\x7b\x7d\\".toList, c ∈ nameMarks := by decide
      exact fun among => named.absent (marks c among) before
    · have apart : ∀ c ∈ ":=+?!".toList, c ∉ "\x7b\x7d\\".toList := by decide
      exact apart c (signs c after)
  have closes := shared.enclosed? plain
  rw [List.append_assoc name] at closes
  exact transpile_variable limit apart closes meant (quiet.mono fun _ quiet => quiet.absent)

variable (limit : transpiler.limit = levels + 1) (named : IsSharedName name)
  (shared : IsSharedValue value)

include limit named shared

/-- Setting a variable by a block and in braces comes to the same. -/
theorem transpile_setBlock {modifiers : List Modifier}
    (exclusive : ¬ (.add ∈ modifiers ∧ .ifUndefined ∈ modifiers))
    (delayed : .evaluate ∉ modifiers → value.head? ≠ some '!') :
    transpiler.transpile (setBlock name modifiers value) =
      transpiler.transpile (variableLine
        (assignment name (modeOf modifiers) (decide (.evaluate ∈ modifiers)) value)) := by
  have keeps : Pass.KeepsInert ⟨transpiler, transpiler.rewriteWithin levels⟩ :=
    fun _ => transpiler.rewriteWithin_inert levels
  have quiet : Reports Quiet (VariableUse.write ⟨transpiler, transpiler.rewriteWithin levels⟩
      (.assign name (modeOf modifiers) (decide (.evaluate ∈ modifiers)) value)) :=
    (keeps.filled shared.inert).bind fun _ written =>
      .pure (inert_assignDirectives named.inert written _ _).quiet
  have meant : VariableUse.ofText?
      (assignment name (modeOf modifiers) (decide (.evaluate ∈ modifiers)) value) =
        some (.assign name (modeOf modifiers) (decide (.evaluate ∈ modifiers)) value) :=
    VariableUse.ofText?_assign named.isWhole fun late => delayed (of_decide_eq_false late)
  have shape : assignment name (modeOf modifiers) (decide (.evaluate ∈ modifiers)) value =
      name ++ (((modeOf modifiers).sign ++
        if decide (.evaluate ∈ modifiers) then ['!'] else []) ++ value) := by
    rw [assignment, List.append_assoc]
  have signs : ∀ mode : AssignMode, ∀ immediate : Bool,
      (∀ c ∈ mode.sign ++ (if immediate then ['!'] else []), c ∈ ":=+?!".toList) ∧
        mode.sign ++ (if immediate then ['!'] else []) ≠ [] := by
    intro mode immediate
    cases mode <;> cases immediate <;> decide
  obtain ⟨among, filled⟩ := signs (modeOf modifiers) (decide (.evaluate ∈ modifiers))
  rw [shape] at meant ⊢
  -- Both sides are now the same directives, written by two passes.
  rw [setBlock_eq, transpile_blockLine limit (show IsKeyword "set" by decide)
      (named.areBare_set modifiers) shared (fun _ => rfl) (readSet_arguments named shared exclusive),
    transpile_construct limit named shared among filled meant quiet]
  rfl

/-- Reading a variable by a block and in braces comes to the same. -/
theorem transpile_echoBlock :
    transpiler.transpile (echoBlock name value) =
      transpiler.transpile (variableLine (name ++ ':' :: value)) := by
  have quiet : Reports Quiet (VariableUse.write ⟨transpiler, transpiler.rewriteWithin levels⟩
      (.fallback name value)) :=
    (transpiler.rewriteWithin_inert levels shared.inert).bind fun _ written =>
      .pure (inert_readDirectives named.inert written).quiet
  have construct : transpiler.transpile (variableLine (name ++ ([':'] ++ value))) = _ :=
    transpile_construct limit named shared (by decide) (List.cons_ne_nil ':' [])
      (VariableUse.ofText?_fallback named.isWhole value) quiet
  rw [List.singleton_append] at construct
  rw [echoBlock_eq, transpile_blockLine limit (show IsKeyword "echo" by decide) named.areBare
    shared (fun _ => rfl) (readEcho_arguments named shared), construct]
  rfl

end Constructs

/-- Setting and reading a variable by block commands and in braces are two spellings of one language.
Each modifier of a block stands for a part of the operator in braces, in whatever order and how often
the modifiers are written; those to add and to leave alone do not go together. A value that is not
fixed at once must not begin with the mark of that, which would be read as part of the operator.

Both lines raise the same warnings, too. Only with no level left, where no line is rewritten, they
remain different. -/
theorem transpile_spellings {transpiler : Transpiler} (positive : 0 < transpiler.limit)
    {name value : Text} (named : IsSharedName name) (shared : IsSharedValue value) :
    (∀ modifiers : List Modifier, ¬ (.add ∈ modifiers ∧ .ifUndefined ∈ modifiers) →
      (.evaluate ∉ modifiers → value.head? ≠ some '!') →
        transpiler.transpile (setBlock name modifiers value) =
          transpiler.transpile (variableLine
            (assignment name (modeOf modifiers) (decide (.evaluate ∈ modifiers)) value))) ∧
    transpiler.transpile (echoBlock name value) =
      transpiler.transpile (variableLine (name ++ ':' :: value)) := by
  obtain ⟨levels, limit⟩ := Nat.exists_eq_succ_of_ne_zero positive.ne'
  exact ⟨fun _ exclusive delayed => transpile_setBlock limit named shared exclusive delayed,
    transpile_echoBlock limit named shared⟩

/-- With a variant that holds an alternation, and a keyword behind it. -/
theorem transpile_spellings_mood :
    0 < Transpiler.standard.limit ∧ IsSharedName "mood" ∧
      IsSharedValue "\x7bglad|[calm|grave]\x7d BREAK" ∧
      Transpiler.standard.transpile
          "<ppp:set mood evaluate add>\x7bglad|[calm|grave]\x7d BREAK<ppp:/set>" =
        Transpiler.standard.transpile "$\x7bmood+=!\x7bglad|[calm|grave]\x7d BREAK\x7d" ∧
      Transpiler.standard.transpile "<ppp:echo mood>\x7bglad|[calm|grave]\x7d BREAK<ppp:/echo>" =
        Transpiler.standard.transpile "$\x7bmood:\x7bglad|[calm|grave]\x7d BREAK\x7d" := by
  have positive : 0 < Transpiler.standard.limit := by decide
  have named : IsSharedName "mood" := .of_isAlphanum (by decide) (by decide)
  have shared : IsSharedValue "\x7bglad|[calm|grave]\x7d BREAK" :=
    ⟨by decide, by decide, by decide⟩
  obtain ⟨sets, reads⟩ := transpile_spellings positive named shared
  exact ⟨positive, named, shared, sets [.evaluate, .add] (by decide) (by decide), reads⟩

end DynamicPrompt.Source
