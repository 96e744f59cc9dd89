import DynamicPrompt.Proofs.Choice.Labelled
import DynamicPrompt.Proofs.Source.Naming

/-!
# Filtered references

A reference may state a filter between quotation marks at its end: labels of its own, or after a
circumflex the name of a wildcard whose remembered filter it takes over. It becomes three tags. The
first remembers the filter in a macro named after the wildcard, the second draws with it, and the
third ends what the first began.

A line of filtered references with plain texts between them becomes those texts with the tags in the
places of the references, and it is read back as just these pieces.
-/

namespace DynamicPrompt.Source

/-- A tag with the text before it. -/
structure Tagged where
  before : Text
  tag : Directive

namespace Tagged

/-- The tag with the text before it, as they are written. -/
def text (tagged : Tagged) : Text := tagged.before ++ tagged.tag.print

/-- The pieces that are read, before those that follow. -/
def pieces (tagged : Tagged) (rest : Template) : Template :=
  tagged.before.foldr Template.consChar (.directive tagged.tag :: rest)

/-- No pass rewrites the text or the tag, and the tag is read as it is printed. -/
structure Proper (tagged : Tagged) : Prop where
  before : Plain tagged.before
  harmless : tagged.tag.name.head?.map (sameLetter 'p') = some false
  letters : ∀ c ∈ tagged.tag.name, c ∉ tagMarks
  held : Held (Template.printArgument tagged.tag.argument ++ Template.printBody tagged.tag.body)
  head : Template.HasReadableHead tagged.tag.name tagged.tag.argument
  body : ∀ body ∈ tagged.tag.body, Template.ReadsBack body

variable {parts : List Tagged} {last : Text}

/-- Tags with plain texts around them are settled. -/
theorem settled (proper : ∀ tagged ∈ parts, tagged.Proper) (plain : Plain last) :
    Settled (parts.flatMap text ++ last) := by
  induction parts with
  | nil => exact .plain plain
  | cons tagged others inductionHypothesis =>
    have first := proper tagged List.mem_cons_self
    have rest := inductionHypothesis fun other member => proper other (List.mem_cons_of_mem _ member)
    have whole : (tagged :: others).flatMap text ++ last =
        tagged.before ++ '<' :: ((tagged.tag.name ++
          (Template.printArgument tagged.tag.argument ++ Template.printBody tagged.tag.body)) ++
            '>' :: (others.flatMap text ++ last)) := by
      simp [text, Template.print_parts]
    rw [whole]
    exact .tag first.before first.harmless first.letters first.held rest

/-- Tags with plain texts around them are read as these pieces. -/
theorem template_ofText (proper : ∀ tagged ∈ parts, tagged.Proper) (plain : Plain last) :
    Template.ofText (parts.flatMap text ++ last) =
      parts.foldr pieces (last.foldr Template.consChar []) := by
  have each : ∀ bound, (parts.flatMap text ++ last).length ≤ bound →
      Template.piecesWithin bound (parts.flatMap text ++ last) =
        parts.foldr pieces (last.foldr Template.consChar []) := by
    induction parts with
    | nil =>
      intro bound enough
      rw [List.flatMap_nil, List.nil_append] at enough ⊢
      obtain ⟨fewer, rfl⟩ := Nat.exists_eq_add_of_le enough
      have whole := Template.piecesWithin_allPlain fewer [] plain.literal
      rw [List.append_nil] at whole
      rw [Nat.add_comm, whole]
      cases fewer <;> rfl
    | cons tagged others inductionHypothesis =>
      intro bound enough
      have first := proper tagged List.mem_cons_self
      have rest := inductionHypothesis fun other member =>
        proper other (List.mem_cons_of_mem _ member)
      have whole : (tagged :: others).flatMap text ++ last =
          tagged.before ++ (tagged.tag.print ++ (others.flatMap text ++ last)) := by
        simp [text]
      rw [whole, List.length_append] at enough
      obtain ⟨fewer, rfl⟩ := Nat.exists_eq_add_of_le (Nat.le_of_add_right_le enough)
      have tail : (tagged.tag.print ++ (others.flatMap text ++ last)).length ≤ fewer := by omega
      rw [whole, Nat.add_comm, Template.piecesWithin_allPlain fewer _ first.before.literal,
        Template.piecesWithin_tagFirst first.head first.body rest tail]
      rfl
  exact each _ (Nat.le_refl _)

end Tagged

/-- What a reference asks of the options: a filter, or the filter that is remembered for another
wildcard. -/
inductive Asked where
  | select (filter : Text)
  | inherit (source : Text)

namespace Asked

/-- What is asked as it is written between the quotation marks. -/
def written : Asked → Text
  | select filter => filter
  | inherit source => '^' :: source

/-- What is asked as directive text. -/
def remembered (transpiler : Transpiler) : Asked → Text
  | select filter => Reference.movedPositions filter
  | inherit source => Reference.readMacro (transpiler.inFolder source)

/-- The filter is one, or the name is one. -/
def Proper : Asked → Prop
  | select filter => IsFilter filter
  | inherit source => IsName source ∧ source ≠ breakWord

end Asked

/-- A reference with a filter as it is written. -/
def filteredLine (name filter : Text) : Text :=
  '_' :: '_' :: (name ++ '\x27' :: (filter ++ ['\x27', '_', '_']))

/-- A reference with a filter, and the text before it. -/
structure Filtered where
  before : Text
  name : Text
  asked : Asked

namespace Filtered

/-- The reference as it is written. -/
def mention (reference : Filtered) : Mention :=
  ⟨reference.before, reference.name ++ '\x27' :: (reference.asked.written ++ ['\x27'])⟩

/-- The reference stands behind the text before it. -/
theorem text_mention (reference : Filtered) :
    reference.mention.text =
      reference.before ++ filteredLine reference.name reference.asked.written := by
  simp [mention, Mention.text, filteredLine]

/-- The text before the reference is plain, and what it names and asks is rewritten to itself. -/
structure Proper (reference : Filtered) : Prop where
  before : Plain reference.before
  name : IsName reference.name
  unbroken : reference.name ≠ breakWord
  asked : reference.asked.Proper

end Filtered

/-- The tag that remembers a filter. -/
def pushTag (reference remembered : Text) : Directive :=
  ⟨"wcpushmacro", some (Reference.filterMacro reference), some remembered⟩

/-- The tag that draws with a filter. -/
def drawTag (reference remembered : Text) : Directive :=
  ⟨"wcwildcard", none, some (reference ++ ':' :: remembered)⟩

/-- The tag that ends what was remembered. -/
def popTag (reference : Text) : Directive :=
  ⟨"wcpopmacro", none, some (Reference.filterMacro reference)⟩

/-- The tags of a filtered reference. -/
def Filtered.tags (transpiler : Transpiler) (reference : Filtered) : List Tagged :=
  let written := transpiler.inFolder reference.name
  let remembered := reference.asked.remembered transpiler
  [⟨reference.before, pushTag written remembered⟩, ⟨[], drawTag written remembered⟩,
    ⟨[], popTag written⟩]

section Filters

variable {filter : Text}

/-- Whether a character is one of filters. -/
def isFilterCharacter (c : Char) : Bool := c.isLower || c.isDigit || " +!,".toList.contains c

/-- Filters are made of characters of filters. -/
theorem isFilterCharacter_of_isFilter (written : IsFilter filter) :
    ∀ c ∈ filter, isFilterCharacter c = true := by
  intro c member
  rcases written.characters c member with small | digit | mark
  · simp [isFilterCharacter, small]
  · simp [isFilterCharacter, digit]
  · rw [isFilterCharacter, List.contains_eq_mem, decide_eq_true mark, Bool.or_true]

/-- A filter with its positions counted from one is made of such characters, too. -/
theorem isFilterCharacter_movedPositions (written : IsFilter filter) :
    ∀ c ∈ Reference.movedPositions filter, isFilterCharacter c = true := by
  intro c member
  rcases Reference.mem_shiftPositions (shiftPositions_of_isFilter written) c member with
    inside | digit | rfl
  · exact isFilterCharacter_of_isFilter written c inside
  · simp [isFilterCharacter, digit]
  · decide

/-- A text of characters of filters is plain. -/
theorem plain_of_isFilterCharacter (made : ∀ c ∈ filter, isFilterCharacter c = true) :
    Plain filter where
  unmarked := by
    have other : ∀ mark ∈ partMarks, isFilterCharacter mark = false := by decide
    intro c member marks
    exact absurd (made c member) (by rw [other c marks]; exact Bool.false_ne_true)
  unbroken := by
    intro broken
    have first : 'B' ∈ filter := broken.subset (by decide)
    exact absurd (made 'B' first) (by decide)

end Filters

namespace MarkedOnly

variable {text : Text}

/-- A text without marks has none but underscores. -/
theorem of_unmarked {mark : Char} (unmarked : ∀ c ∈ text, c ∉ partMarks) : MarkedOnly mark text :=
  fun c member marks => absurd marks (unmarked c member)

/-- Underscores may stand in a tag. -/
theorem held (marked : MarkedOnly '_' text) : Held text := by
  have marks : ∀ mark ∈ tagMarks, mark ∈ partMarks ∧ mark ≠ '_' := by decide
  apply Held.of_free
  intro c member inside
  exact (marks c inside).2 (marked c member (marks c inside).1)

/-- Underscores may stand in an argument. -/
theorem argument (marked : MarkedOnly '_' text) : text.all Template.isPlainArgument = true := by
  have other : ∀ {c mark : Char}, c ∈ text → mark ∈ partMarks ∧ mark ≠ '_' → c ≠ mark := by
    rintro c mark member ⟨marks, differ⟩ rfl
    exact differ (marked c member marks)
  rw [List.all_eq_true]
  intro c member
  have noOpener : c ≠ '<' := other member (by decide)
  have noCloser : c ≠ '>' := other member (by decide)
  have unescaping : c ≠ '\\' := other member (by decide)
  have noLeft : c ≠ '[' := other member (by decide)
  have noRight : c ≠ ']' := other member (by decide)
  simp [Template.isPlainArgument, Template.isPlain, noOpener, noCloser, unescaping, noLeft, noRight]

/-- Underscores may stand in a body. -/
theorem literal (marked : MarkedOnly '_' text) : text.all Template.isPlain = true := by
  have argument := List.all_eq_true.1 marked.argument
  rw [List.all_eq_true]
  intro c member
  have plain := argument c member
  rw [Template.isPlainArgument, Bool.and_eq_true, Bool.and_eq_true] at plain
  exact plain.1.1

end MarkedOnly

section Tags

variable {transpiler : Transpiler}

/-- A name in a plain folder is without marks. -/
theorem unmarked_inFolder (plainFolder : HasPlainFolder transpiler) {name : Text} (named : IsName name) :
    ∀ c ∈ transpiler.inFolder name, c ∉ partMarks := by
  rw [Transpiler.inFolder]
  split
  · next folder given =>
    have slash : ∀ c ∈ "/".toList, c ∉ partMarks := by decide
    exact List.forall_mem_append.2
      ⟨List.forall_mem_append.2 ⟨plainFolder folder given, slash⟩, named.unmarked⟩
  · exact named.unmarked

/-- The macro of a reference without marks is named by a text with underscores at most. -/
theorem markedOnly_filterMacro {reference : Text} (unmarked : ∀ c ∈ reference, c ∉ partMarks) :
    MarkedOnly '_' (Reference.filterMacro reference) := by
  have start : MarkedOnly '_' "wcfilter_" := by decide
  apply start.append
  rw [MarkedOnly, List.forall_mem_map]
  intro c member marks
  split at marks
  · next slash => rw [if_pos slash]
  · exact absurd marks (unmarked c member)

/-- The reading of a remembered filter is one tag. -/
theorem readMacro_eq_print (source : Text) :
    Reference.readMacro source =
      Directive.print ⟨"wcmacro", none, some (Reference.filterMacro source)⟩ := by
  rw [Template.print_bodied]
  unfold Reference.readMacro
  generalize Reference.filterMacro source = holder
  simp only [List.append_assoc]
  rfl

/-- What is remembered may stand in a tag, and is read back there. -/
theorem Asked.remembered_inert (plainFolder : HasPlainFolder transpiler) {asked : Asked}
    (proper : asked.Proper) :
    Held (asked.remembered transpiler) ∧ Template.ReadsBack (asked.remembered transpiler) := by
  cases asked with
  | select filter =>
    have plain := plain_of_isFilterCharacter (isFilterCharacter_movedPositions proper)
    have whole := Template.readsBack_literal plain.literal Template.readsBack_nil
    rw [List.append_nil] at whole
    exact ⟨.of_unmarked plain.unmarked, whole⟩
  | inherit source =>
    have marked := markedOnly_filterMacro (unmarked_inFolder plainFolder proper.1)
    rw [remembered, readMacro_eq_print]
    generalize Reference.filterMacro (transpiler.inFolder source) = holder at marked
    constructor
    · have letters : ∀ c ∈ "wcmacro".toList, c ∉ tagMarks := by decide
      have colon : Held [':'] := .of_free (by decide)
      rw [Template.print_bodied]
      exact .tag (by decide) letters (colon.append marked.held) .nil
    · have head : Template.HasPlainHead "wcmacro" none := ⟨by decide, by simp⟩
      have inside : ∀ body ∈ some holder, Template.ReadsBack body := by
        rintro body ⟨⟩
        have whole := Template.readsBack_literal marked.literal Template.readsBack_nil
        rwa [List.append_nil] at whole
      have whole := Template.readsBack_directive head.readable inside Template.readsBack_nil
      rwa [List.append_nil] at whole

/-- A tag with a plain head is rewritten to itself and read back if its body is. -/
theorem Tagged.Proper.of_parts {before name body : Text} {argument : Option Text}
    (plain : Plain before) (named : Template.isTagName name = true)
    (harmless : name.head?.map (sameLetter 'p') = some false) (letters : ∀ c ∈ name, c ∉ tagMarks)
    (marked : ∀ text ∈ argument, MarkedOnly '_' text) (held : Held body)
    (readsBack : Template.ReadsBack body) :
    Tagged.Proper ⟨before, ⟨name, argument, some body⟩⟩ where
  before := plain
  harmless := harmless
  letters := letters
  held := by
    have colon : Held [':'] := .of_free (by decide)
    apply Held.append _ (colon.append held)
    cases argument with
    | none => exact .nil
    | some text =>
      have opener : Held ['['] := .of_free (by decide)
      have closer : Held [']'] := .of_free (by decide)
      exact (opener.append (marked text rfl).held).append closer
  head := Template.HasPlainHead.readable ⟨named, fun text given => (marked text given).argument⟩
  body := by
    rintro text ⟨⟩
    exact readsBack

/-- The tags of a filtered reference are rewritten to themselves and read back. -/
theorem Filtered.proper_tags (plainFolder : HasPlainFolder transpiler) {reference : Filtered}
    (proper : reference.Proper) : ∀ tagged ∈ reference.tags transpiler, tagged.Proper := by
  have unmarked := unmarked_inFolder plainFolder proper.name
  have named : MarkedOnly '_' (transpiler.inFolder reference.name) := .of_unmarked unmarked
  have holder := markedOnly_filterMacro unmarked
  have holderBack := Template.readsBack_literal holder.literal Template.readsBack_nil
  rw [List.append_nil] at holderBack
  obtain ⟨held, readsBack⟩ := Asked.remembered_inert plainFolder proper.asked
  have colon : Held [':'] := .of_free (by decide)
  have between : [':'].all Template.isPlain = true := by decide
  have nothing : Plain [] := by decide
  have holding : ∀ text ∈ some (Reference.filterMacro (transpiler.inFolder reference.name)),
      MarkedOnly '_' text := by
    rintro text ⟨⟩
    exact holder
  have push : Tagged.Proper ⟨reference.before,
      pushTag (transpiler.inFolder reference.name) (reference.asked.remembered transpiler)⟩ :=
    .of_parts proper.before (by decide) (by decide) (by decide) holding held readsBack
  have draw : Tagged.Proper ⟨[],
      drawTag (transpiler.inFolder reference.name) (reference.asked.remembered transpiler)⟩ :=
    .of_parts nothing (by decide) (by decide) (by decide)
      (fun _ none => absurd none (Option.not_mem_none _))
      (named.held.append (colon.append held))
      (Template.readsBack_literal named.literal (Template.readsBack_literal between readsBack))
  have pop : Tagged.Proper ⟨[], popTag (transpiler.inFolder reference.name)⟩ :=
    .of_parts nothing (by decide) (by decide) (by decide)
      (fun _ none => absurd none (Option.not_mem_none _)) holder.held holderBack
  simp only [tags, List.forall_mem_cons]
  exact ⟨push, draw, pop, fun _ none => absurd none List.not_mem_nil⟩

end Tags

section Writing

variable {transpiler : Transpiler}

/-- What is asked is grouped, and holds neither underscores nor dollar signs nor backslashes. -/
theorem Asked.written_grouped {asked : Asked} (proper : asked.Proper) :
    Grouped Brackets.tagsAndBraces (· ≠ '_') asked.written ∧
      (∀ c ∈ asked.written, c ≠ '$' ∧ c ≠ '\\') := by
  have known : Brackets.tagsAndBraces.Known := .inr (.inl rfl)
  have unmarked : ∀ c ∈ asked.written, c ∉ partMarks := by
    cases asked with
    | select filter =>
      exact (plain_of_isFilterCharacter (isFilterCharacter_of_isFilter proper)).unmarked
    | inherit source =>
      intro c member
      rcases List.mem_cons.1 member with rfl | later
      · decide
      · exact proper.1.unmarked c later
  have marks : ∀ d ∈ "<>[]\x7b\x7d()".toList, d ∈ partMarks := by decide
  constructor
  · apply Grouped.of_unmentioned
    intro c member
    refine ⟨?_, fun mentioned => unmarked c member (marks c (known.mentions mentioned)), ?_⟩
    · rintro rfl
      exact unmarked '_' member (by decide)
    · rintro rfl
      exact unmarked '\\' member (by decide)
  · intro c member
    constructor
    · rintro rfl
      exact unmarked '$' member (by decide)
    · rintro rfl
      exact unmarked '\\' member (by decide)

/-- What the filter of the reference is read as. -/
def Asked.filter (transpiler : Transpiler) : Asked → ReferenceFilter
  | select filter => .use (Reference.movedPositions filter)
  | inherit source => .inherit (transpiler.inFolder source)

/-- What is asked is read as it is written. -/
theorem Asked.readFilter_written {asked : Asked} (proper : asked.Proper) (levels : Nat) :
    Reference.readFilter ⟨transpiler, transpiler.rewriteWithin (levels + 1)⟩ asked.written =
      pure (asked.filter transpiler) := by
  cases asked with
  | select filter =>
    have plain := plain_of_isFilterCharacter (isFilterCharacter_of_isFilter proper)
    have nested : transpiler.rewriteWithin (levels + 1) filter = pure filter := by
      rw [Transpiler.rewriteWithin, plain.passes]
    have noCircumflex : '^' ∉ filter := fun member =>
      absurd (isFilterCharacter_of_isFilter proper '^' member) (by decide)
    have noHash : '#' ∉ filter := fun member =>
      absurd (isFilterCharacter_of_isFilter proper '#' member) (by decide)
    rw [written, Reference.readFilter]
    · dsimp only
      rw [nested, pure_bind, shiftPositions_of_isFilter proper]
      rfl
    · rintro rest rfl
      exact noCircumflex List.mem_cons_self
    · rintro rest rfl
      exact noHash List.mem_cons_self
  | inherit source =>
    have trimmed : Text.trim source = source := Text.trim_unspaced proper.1.unspaced.unspaced
    rw [written, Reference.readFilter]
    dsimp only
    rw [trimmed, proper.1.rewriteWithin proper.2, pure_bind]
    rfl

/-- The directives of a filtered reference are its tags. -/
theorem Asked.directives_eq_print (reference : Text) (asked : Asked) :
    Reference.directives reference [] (some (asked.filter transpiler)) =
      (pushTag reference (asked.remembered transpiler)).print ++
        ((drawTag reference (asked.remembered transpiler)).print ++ (popTag reference).print) := by
  have push : "<wcpushmacro[".toList = '<' :: ("wcpushmacro".toList ++ ['[']) := rfl
  have pop : "<wcpopmacro:".toList = '<' :: ("wcpopmacro".toList ++ [':']) := rfl
  have between : "]:".toList = [']', ':'] := rfl
  have colon : ":".toList = [':'] := rfl
  have closing : ">".toList = ['>'] := rfl
  unfold pushTag drawTag popTag
  cases asked with
  | select filter =>
    unfold Asked.filter Asked.remembered Reference.directives
    simp only [Template.print_full, Template.print_bodied, Reference.drawDirective_eq, push, pop,
      between, colon, closing, List.append_assoc, List.cons_append, List.nil_append]
  | inherit source =>
    unfold Asked.filter Asked.remembered Reference.directives
    simp only [Template.print_full, Template.print_bodied, Reference.drawDirective_eq, push, pop,
      between, colon, closing, List.append_assoc, List.cons_append, List.nil_append]

namespace Filtered

variable {reference : Filtered} (proper : reference.Proper)

include proper

/-- The characters between the underscores are no dollar signs. -/
theorem undollared : '$' ∉ reference.mention.content := by
  have inside := (Asked.written_grouped proper.asked).2
  rw [mention]
  simp only [List.mem_append, List.mem_cons, List.not_mem_nil, or_false, not_or]
  exact ⟨fun member => proper.name.unmarked '$' member (by decide), by decide,
    fun member => (inside '$' member).1 rfl, by decide⟩

/-- The underscores are those of the reference. -/
theorem proper_mention : reference.mention.Proper where
  before := by
    intro c member
    exact ⟨proper.before.ne member (by decide), proper.before.unmentioned (.inl rfl) member,
      proper.before.ne member (by decide)⟩
  solid := by
    have filled := proper.name.unspaced.filled
    refine ⟨List.append_ne_nil_of_left_ne_nil filled _, ?_, ?_⟩
    · intro c first
      rw [mention, List.head?_append_of_ne_nil _ filled] at first
      exact proper.name.unspaced.unspaced c (List.mem_of_mem_head? first)
    · intro c last
      have whole : reference.mention.content =
          (reference.name ++ '\x27' :: reference.asked.written) ++ ['\x27'] := by
        simp [mention]
      rw [whole, List.getLast?_concat] at last
      obtain rfl := Option.some.inj last
      decide
  grouped := by
    have known : Brackets.tagsAndBraces.Known := .inr (.inl rfl)
    have quote : Grouped Brackets.tagsAndBraces (· ≠ '_') ['\x27'] := by
      apply Grouped.of_unmentioned
      intro c member
      obtain rfl := List.mem_singleton.1 member
      exact ⟨by decide, by decide, by decide⟩
    have named : Grouped Brackets.tagsAndBraces (· ≠ '_') reference.name := by
      apply proper.name.grouped known
      rintro c member rfl
      exact proper.name.unmarked '_' member (by decide)
    exact named.append (quote.append ((Asked.written_grouped proper.asked).1.append quote))

/-- A filtered reference is written as its tags. -/
theorem write_mention {transpiler : Transpiler} (levels : Nat) :
    (do
      let first ← Reference.write ⟨transpiler, transpiler.rewriteWithin (levels + 1)⟩
        reference.mention.counted.2
      return reference.mention.counted.1 ++ first) =
        pure ((reference.tags transpiler).flatMap Tagged.text) := by
  have counted : reference.mention.counted = (reference.before, reference.mention.content) :=
    Mention.counted_none (Reference.leadingCount?_of_apart fun inside =>
      proper.before.absent (by decide) (inside.subset List.mem_cons_self))
  have headless : Head.split? reference.mention.content = none :=
    Head.split?_of_absent (undollared proper)
  have unescaping : '\\' ∉ reference.asked.written :=
    fun member => ((Asked.written_grouped proper.asked).2 '\\' member).2 rfl
  have parts : Reference.splitFilter reference.mention.content =
      (reference.name, some reference.asked.written) := by
    refine Reference.splitFilter_quoted (.inr rfl) (proper.name.grouped (.inr (.inl rfl)) ?_) unescaping
    rintro c member rfl
    exact proper.name.unquoted '\x27' member (by decide)
  have tags : (reference.tags transpiler).flatMap Tagged.text = reference.before ++
      Reference.directives (transpiler.inFolder reference.name) []
        (some (reference.asked.filter transpiler)) := by
    rw [Asked.directives_eq_print]
    simp [Filtered.tags, Tagged.text]
  rw [counted, Reference.write, headless]
  dsimp only
  rw [Head.argument, pure_bind, parts]
  dsimp only
  rw [proper.name.rewriteWithin proper.unbroken, pure_bind, Asked.readFilter_written proper.asked,
    map_pure, pure_bind, Reference.isGlob_name proper.name (.inl rfl), Bool.false_and,
    if_neg Bool.false_ne_true, pure_bind, tags]

end Filtered

/-- A line of filtered references becomes the texts and the tags, without a warning. -/
theorem transpile_filtered {transpiler : Transpiler} {levels : Nat}
    (room : transpiler.limit = levels + 2) (plainFolder : HasPlainFolder transpiler)
    {references : List Filtered} {last : Text} (proper : ∀ reference ∈ references, reference.Proper)
    (plain : Plain last)
    (unlabelled : ∀ quote ∈
      (Text.trimStart (mentioning (references.map Filtered.mention) last)).head?,
        quote ≠ '\x22' ∧ quote ≠ '\x27') :
    transpiler.transpile (mentioning (references.map Filtered.mention) last) =
      pure ((references.flatMap (Filtered.tags transpiler)).flatMap Tagged.text ++ last) := by
  have mentions : ∀ mention ∈ references.map Filtered.mention, mention.Proper := by
    rw [List.forall_mem_map]
    exact fun reference member => Filtered.proper_mention (proper reference member)
  have apart : ¬ ['_', '_'] <:+: last :=
    fun inside => plain.absent (by decide) (inside.subset List.mem_cons_self)
  have texts : ((references.map Filtered.mention).mapM fun mention => do
      let first ← Reference.write ⟨transpiler, transpiler.rewriteWithin (levels + 1)⟩
        mention.counted.2
      return mention.counted.1 ++ first) =
        pure (references.map fun reference => (reference.tags transpiler).flatMap Tagged.text) := by
    rw [List.mapM_map]
    exact mapM_eq_pure fun reference member =>
      Filtered.write_mention (proper reference member) levels
  have tags : ∀ tagged ∈ references.flatMap (Filtered.tags transpiler), tagged.Proper := by
    intro tagged member
    obtain ⟨reference, among, inside⟩ := List.mem_flatMap.1 member
    exact Filtered.proper_tags plainFolder (proper reference among) tagged inside
  have settled := Tagged.settled tags plain
  rw [List.flatMap_assoc] at settled ⊢
  rw [Transpiler.transpile, clauseLabels_of_unlabelled unlabelled, room, Transpiler.rewriteWithin,
    passes_eq_references, Reference.rewrite_mentioning _ mentions apart, texts, pure_bind, pure_bind]
  exact settled.afterReferences _

end Writing

end DynamicPrompt.Source
