import DynamicPrompt.Proofs.Source.Draft
import DynamicPrompt.Proofs.Work

/-!
# Nested choices

Variants and alternations may be nested in each other to any depth. The pass over square
brackets runs before the pass over braces and reaches the brackets at every depth of braces at
once, while the text inside each construct goes through all passes again. All the same a draft
becomes the directives of its constructs, each put together from the meanings of its options.

The square brackets of a draft are taken to the mixture, and the braces of the mixture to the
meaning. A text inside a construct is either a draft in source syntax or a mixture, so the two
are rewritten to the same meaning at every level, which carries the induction on the levels.
-/

namespace DynamicPrompt.Source

section Parts

/-- An ordinary character is no bracket. -/
theorem unmentioned_ordinary {brackets : Brackets} (known : brackets.Known) (c : Ordinary) :
    ¬ brackets.Mentions c.val := by
  intro mentioned
  have marks : ∀ d ∈ "<>[]\x7b\x7d()".toList, d ∈ choiceMarks := by decide
  exact c.property (marks _ (known.mentions mentioned))

/-- An ordinary character is no mark. -/
theorem ordinary_ne (c : Ordinary) {mark : Char} (member : mark ∈ choiceMarks) : c.val ≠ mark :=
  fun same => c.property (same ▸ member)

/-- Names of tags and separators have no bracket of a set in use and no backslash. -/
theorem grouped_of_names {brackets : Brackets} (known : brackets.Known) {text : Text}
    (names : ∀ c ∈ text, c ∉ "<>[]\x7b\x7d()\\".toList) :
    Grouped brackets (fun _ => True) text := by
  refine .of_unmentioned fun c member => ⟨trivial, fun mentioned => ?_, ?_⟩
  · have marks : ∀ d ∈ "<>[]\x7b\x7d()".toList, d ∈ "<>[]\x7b\x7d()\\".toList := by decide
    exact names c member (marks _ (known.mentions mentioned))
  · rintro rfl
    exact names '\\' member (by decide)

/-- The renderings are grouped; outside every pair stand characters that pass the given test if
ordinary characters do. -/
theorem fits_grouped {brackets : Brackets} (known : brackets.Known) {bare : Char → Prop}
    (usual : ∀ c : Ordinary, bare c.val) :
    Fits (Grouped brackets (fun _ => True)) (Grouped brackets bare) where
  weaken _ grouped := grouped.anywhere
  join separator parts which each := by
    apply Grouped.join _ each
    rcases which with rfl | rfl <;> exact grouped_of_names known (by decide)
  nil := .nil
  ordinary c rest others :=
    .char (usual c) (unmentioned_ordinary known c) (ordinary_ne c (by decide)) others
  tag name body rest member inside others := by
    have plain : ∀ name ∈ tagNames, ∀ c ∈ name, c ∉ "<>[]\x7b\x7d()\\".toList := by decide
    have front := grouped_of_names known (plain name member)
    exact .group known.angle (front.append inside) others
  empty := grouped_of_names known (by decide)

/-- In the renderings every tag begins with a name that is no command. -/
theorem fits_quiet : Fits Quiet Quiet where
  weaken _ quiet := quiet
  join separator parts which each := by
    refine Text.join_of_parts .nil .append (.of_absent ?_) each
    rcases which with rfl | rfl <;> decide
  nil := .nil
  ordinary c rest others := .plain (ordinary_ne c (by decide)) others
  tag name body rest member inside others := by
    have names : ∀ name ∈ tagNames,
        name.head?.map (sameLetter 'p') = some false ∧ '<' ∉ name := by decide
    exact .tag (names name member).1 (names name member).2 inside others
  empty := .of_absent (by decide)

/-- A mark that no construct uses stands nowhere in the renderings. -/
theorem fits_absent {mark : Char} (excluded : mark ∈ choiceMarks)
    (unused : mark ∉ "|<>random:alternate:comment:empty".toList) :
    Fits (mark ∉ ·) (mark ∉ ·) where
  weaken _ absent := absent
  join separator parts which each := by
    refine Text.join_of_parts List.not_mem_nil ?_ ?_ each
    · intro first second front back
      rw [List.mem_append, not_or]
      exact ⟨front, back⟩
    · have bar : mark ≠ '|' := by
        rintro rfl
        exact unused (by decide)
      rcases which with rfl | rfl <;> simp [bar]
  nil := List.not_mem_nil
  ordinary c rest others := by
    rw [List.mem_cons, not_or]
    exact ⟨fun same => ordinary_ne c excluded same.symm, others⟩
  tag name body rest member inside others := by
    have letters : ∀ name ∈ tagNames, ∀ c ∈ '<' :: '>' :: name,
        c ∈ "|<>random:alternate:comment:empty".toList := by decide
    have free : ∀ c ∈ '<' :: '>' :: name, mark ≠ c := by
      rintro c within rfl
      exact unused (letters name member mark within)
    have nameless : mark ∉ name := fun within => free mark (by simp [within]) rfl
    simp only [List.mem_cons, List.mem_append, not_or]
    exact ⟨free '<' (by simp), ⟨nameless, inside⟩, free '>' (by simp), others⟩
  empty := by
    intro within
    have letters : ∀ c ∈ "empty".toList, c ∈ "|<>random:alternate:comment:empty".toList := by decide
    exact unused (letters mark within)

/-- Two brackets that are no mark keep it away. -/
theorem encloses_absent {mark opener closer : Char} (noOpener : mark ≠ opener)
    (noCloser : mark ≠ closer) : Encloses (mark ∉ ·) (mark ∉ ·) opener closer := by
  intro body rest inside others
  simp only [List.mem_cons, List.mem_append, not_or]
  exact ⟨noOpener, inside, noCloser, others⟩

/-- A mark that no construct uses stands neither in a draft nor in its mixture. -/
theorem absent_renderings {mark : Char} (excluded : mark ∈ choiceMarks)
    (unused : mark ∉ "|<>random:alternate:comment:empty".toList)
    (unbracketed : mark ∉ "[]\x7b\x7d".toList) (draft : Draft) :
    mark ∉ draft.source ∧ mark ∉ draft.mixture := by
  have fits := fits_absent excluded unused
  have apart : ∀ c ∈ "[]\x7b\x7d".toList, mark ≠ c := by
    rintro c member rfl
    exact unbracketed member
  have braces := encloses_absent (apart '\x7b' (by decide)) (apart '\x7d' (by decide))
  have brackets := encloses_absent (apart '[' (by decide)) (apart ']' (by decide))
  exact ⟨fits.source braces brackets draft, fits.mixture braces draft⟩

/-- Two brackets other than angle brackets keep a text quiet. -/
theorem encloses_quiet {opener closer : Char} (noOpener : opener ≠ '<') (noCloser : closer ≠ '<') :
    Encloses Quiet Quiet opener closer :=
  fun _ _ inside others => .plain noOpener (inside.append (.plain noCloser others))

/-- Two brackets of one kind group what they enclose. -/
theorem encloses_grouped {brackets : Brackets} {bare : Char → Prop} {opener closer : Char}
    (pair : brackets.Pair opener closer) :
    Encloses (Grouped brackets (fun _ => True)) (Grouped brackets bare) opener closer :=
  fun _ _ inside others => .group pair inside others

end Parts

section Options

variable {α : Type} {pass : Pass} {items : List α} {written option : α → Text}

/-- The options of a construct, filled one by one. -/
theorem mapM_filled (each : ∀ item ∈ items, pass.filled (written item) = pure (option item)) :
    (items.map written).mapM pass.filled = pure (items.map option) := by
  rw [List.mapM_map]
  exact mapM_eq_pure each

/-- The text between square brackets that has a bar and no colon outside every inner bracket is
an alternation of the options between the bars. -/
theorem Bracketed.ofText_options (several : 2 ≤ items.length)
    (grouped : ∀ item ∈ items,
      Grouped Brackets.all (fun c => c ≠ '|' ∧ c ≠ ':') (written item)) :
    Bracketed.ofText (Text.join ['|'] (items.map written)) =
      .alternate (items.map written) := by
  have whole : Grouped Brackets.all (· ≠ ':') (Text.join ['|'] (items.map written)) := by
    apply Grouped.join (.of_unmentioned (by decide))
    rw [List.forall_mem_map]
    intro item member
    exact (grouped item member).mono fun _ bare => bare.2
  have noEdit : splitTopLevel ":" Brackets.all (Text.join ['|'] (items.map written)) =
      [Text.join ['|'] (items.map written)] :=
    splitTopLevel_alone (by decide) (by decide) whole fun _ bare => bare
  have parted : splitTopLevel "|" Brackets.all (Text.join ['|'] (items.map written)) =
      items.map written := by
    refine splitTopLevel_join ?_ (by decide) (by decide) (List.forall_mem_map.2 grouped)
      fun _ bare => bare.1
    intro none
    rw [List.map_eq_nil_iff.1 none] at several
    simp at several
  unfold Bracketed.ofText
  rw [noEdit, parted]
  match items, several with
  | first :: second :: others, _ => rfl

/-- The options between square brackets are filled and alternated. -/
theorem Bracketed.write_options (several : 2 ≤ items.length)
    (grouped : ∀ item ∈ items,
      Grouped Brackets.all (fun c => c ≠ '|' ∧ c ≠ ':') (written item))
    (each : ∀ item ∈ items, pass.filled (written item) = pure (option item)) :
    Bracketed.write pass (Text.join ['|'] (items.map written)) =
      pure (alternateTag (items.map option)) := by
  rw [Bracketed.write, Bracketed.ofText_options several grouped]
  dsimp only
  rw [mapM_filled each]
  rfl

/-- The options between braces are filled and drawn from. -/
theorem Variant.write_options (filled : items ≠ [])
    (absent : '$' ∉ Text.join ['|'] (items.map written))
    (grouped : ∀ item ∈ items, Grouped Brackets.tagsAndBraces (· ≠ '|') (written item))
    (each : ∀ item ∈ items, pass.filled (written item) = pure (option item)) :
    Variant.write pass (Text.join ['|'] (items.map written)) =
      pure (randomTag (items.map option)) := by
  have parted : splitTopLevel "|" Brackets.tagsAndBraces (Text.join ['|'] (items.map written)) =
      items.map written :=
    splitTopLevel_join (fun none => filled (List.map_eq_nil_iff.1 none)) (by decide) (by decide)
      (List.forall_mem_map.2 grouped) fun _ bare => bare
  unfold Variant.write
  rw [Head.split?_of_absent absent]
  dsimp only
  rw [parted, Head.argument, pure_bind]
  split
  · -- Only the argument of a head can be taken over by a single option.
    next text collapsed =>
    split at collapsed
    · simp [collapse?] at collapsed
    · simp at collapsed
  · rw [mapM_filled each]
    rfl

end Options

section Passes

variable {pass : Pass} {levels : Nat}

/-- The text inside a construct, as a draft or as a mixture, is rewritten to its meaning. -/
structure Converts (pass : Pass) (draft : Draft) : Prop where
  source : pass.nested draft.source = pure draft.directive
  mixture : pass.nested draft.mixture = pure draft.directive

/-- An option in source syntax is filled with its meaning. -/
theorem Converts.filled_source {draft : Draft} (converts : Converts pass draft) :
    pass.filled draft.source = pure draft.option := by
  rw [Pass.filled, converts.source, pure_bind, Draft.orEmpty_directive]

/-- A mixed option is filled with its meaning. -/
theorem Converts.filled_mixture {draft : Draft} (converts : Converts pass draft) :
    pass.filled draft.mixture = pure draft.option := by
  rw [Pass.filled, converts.mixture, pure_bind, Draft.orEmpty_directive]

/-- The drafts that are rewritten while so many levels are left: they are not nested as deep, and
the keyword of breaks is not in them. -/
structure Draft.Fitting (draft : Draft) (levels : Nat) : Prop where
  shallow : draft.depth < levels
  unbroken : Unbroken draft.source

namespace Draft.Fitting

/-- The rest of a line after an ordinary character. -/
theorem ordinary {c : Ordinary} {rest : Draft} (fitting : (Draft.ordinary c rest).Fitting levels) :
    rest.Fitting levels :=
  ⟨fitting.shallow, fitting.unbroken.part (List.suffix_cons _ _).isInfix⟩

/-- The options of a variant, one level deeper, and the rest of the line. -/
theorem variant {options : DraftOptions} {rest : Draft}
    (fitting : (Draft.variant options rest).Fitting (levels + 1)) :
    (∀ option ∈ options.toList, option.Fitting levels) ∧ rest.Fitting (levels + 1) := by
  obtain ⟨shallow, unbroken⟩ := fitting
  rw [Draft.depth, Nat.max_lt] at shallow
  rw [Draft.source_variant, Unbroken.enclosed (by decide) (by decide)] at unbroken
  have each := List.forall_mem_map.1 unbroken.1.parts
  refine ⟨fun option member => ⟨?_, each option member⟩, shallow.2, unbroken.2⟩
  have below := options.depth_le option member
  omega

/-- The options of an alternation, one level deeper, and the rest of the line. -/
theorem alternation {first : Draft} {others : DraftOptions} {rest : Draft}
    (fitting : (Draft.alternation first others rest).Fitting (levels + 1)) :
    (∀ option ∈ first :: others.toList, option.Fitting levels) ∧ rest.Fitting (levels + 1) := by
  obtain ⟨shallow, unbroken⟩ := fitting
  rw [Draft.depth, Nat.max_lt] at shallow
  rw [Draft.source_alternation, Unbroken.enclosed (by decide) (by decide)] at unbroken
  have each := List.forall_mem_map.1 unbroken.1.parts
  refine ⟨fun option member => ⟨?_, each option member⟩, shallow.2, unbroken.2⟩
  rcases List.mem_cons.1 member with rfl | later
  · omega
  · have below := others.depth_le option later
    omega

/-- A draft that fits fits with more levels. -/
theorem succ {draft : Draft} (fitting : draft.Fitting levels) : draft.Fitting (levels + 1) :=
  ⟨Nat.lt_succ_of_lt fitting.shallow, fitting.unbroken⟩

end Draft.Fitting

/-- The text of an alternation's tag is grouped. -/
theorem grouped_alternate (drafts : List Draft) :
    Grouped Brackets.tags (fun _ => True)
      ("alternate:".toList ++ Text.join ['|', '|'] (drafts.map Draft.option)) := by
  have known : Brackets.tags.Known := .inl rfl
  have fits : Fits (Grouped Brackets.tags fun _ => True) (Grouped Brackets.tags fun _ => True) :=
    fits_grouped known fun _ => trivial
  apply (grouped_of_names known (by decide)).append
  apply fits.join _ _ (.inr rfl)
  rw [List.forall_mem_map]
  intro option _
  exact fits.option (fits.directive option)

/-- A character outside every construct is kept if it is no mark of the pass. -/
theorem rewritten_ordinary {write : Text → Reporting Text} {opener closer : Char}
    {barred : Option Char} (c : Ordinary) {rest result : Text} (marked : opener ∈ choiceMarks)
    (unbarring : ∀ mark ∈ barred, mark ∈ choiceMarks)
    (others : Rewritten write opener closer barred rest result) :
    Rewritten write opener closer barred (c.val :: rest) (c.val :: result) := by
  refine .plain (ordinary_ne c marked) (unmentioned_ordinary (.inl rfl) c)
    (ordinary_ne c (by decide)) ?_ others
  rintro rfl
  exact c.property (unbarring c.val rfl)

/-- The pass over square brackets keeps the braces and bars of a variant and works on its options
one by one. -/
theorem brackets_variant {options : List Draft} {written result : Draft → Text}
    {rest restResult : Text}
    (each : ∀ option ∈ options,
      Rewritten (Bracketed.write pass) '[' ']' none (written option) (result option))
    (others : Rewritten (Bracketed.write pass) '[' ']' none rest restResult) :
    Rewritten (Bracketed.write pass) '[' ']' none
      ('\x7b' :: (Text.join ['|'] (options.map written) ++ '\x7d' :: rest))
      ('\x7b' :: (Text.join ['|'] (options.map result) ++ '\x7d' :: restResult)) := by
  have bar : Rewritten (Bracketed.write pass) '[' ']' none ['|'] ['|'] :=
    .plain (by decide) (by decide) (by decide) (by decide) .nil
  have closed : Rewritten (Bracketed.write pass) '[' ']' none ('\x7d' :: rest)
      ('\x7d' :: restResult) :=
    .plain (by decide) (by decide) (by decide) (by decide) others
  exact .plain (by decide) (by decide) (by decide) (by decide)
    ((Rewritten.join bar each).append closed)

/-- The options of a construct between their bars are grouped as each of them is. -/
theorem grouped_options {brackets : Brackets} {bare : Char → Prop} {written : Draft → Text}
    (known : brackets.Known) (grouped : ∀ option : Draft, Grouped brackets bare (written option))
    (options : List Draft) :
    Grouped brackets (fun _ => True) (Text.join ['|'] (options.map written)) := by
  apply Grouped.join (grouped_of_names known (by decide))
  rw [List.forall_mem_map]
  intro option _
  exact (grouped option).anywhere

/-- The pass over square brackets takes a draft to its mixture. -/
theorem brackets_source (nested : ∀ option : Draft, option.Fitting levels → Converts pass option)
    (draft : Draft) (fitting : draft.Fitting (levels + 1)) :
    Rewritten (Bracketed.write pass) '[' ']' none draft.source draft.mixture := by
  induction draft with
  | done => exact .nil
  | ordinary c rest inductionHypothesis =>
    exact rewritten_ordinary c (by decide) (by simp) (inductionHypothesis fitting.ordinary)
  | variant options rest each others =>
    obtain ⟨inner, outer⟩ := fitting.variant
    rw [Draft.source_variant, Draft.mixture_variant]
    exact brackets_variant (fun option member => each option member (inner option member).succ)
      (others outer)
  | alternation first options rest _ others =>
    obtain ⟨inner, outer⟩ := fitting.alternation
    have known : Brackets.all.Known := .inr (.inr rfl)
    have pair : Brackets.all.Pair '[' ']' := by constructor <;> decide
    have braces : Brackets.all.Pair '\x7b' '\x7d' := by constructor <;> decide
    have grouped : ∀ option : Draft,
        Grouped Brackets.all (fun c => c ≠ '|' ∧ c ≠ ':') option.source :=
      (fits_grouped known fun c => ⟨ordinary_ne c (by decide), ordinary_ne c (by decide)⟩).source
        (encloses_grouped braces) (encloses_grouped pair)
    have content := grouped_options known grouped (first :: options.toList)
    have several : 2 ≤ (first :: options.toList).length := by
      have filled := List.length_pos_iff.2 options.toList_ne_nil
      rw [List.length_cons]
      omega
    rw [Draft.source_alternation, Draft.mixture_alternation]
    exact .construct (enclosed?_grouped pair content)
      (Bracketed.write_options several (fun option _ => grouped option)
        fun option member => (nested option (inner option member)).filled_source) (others outer)

/-- The pass over square brackets leaves a mixture alone, whose brackets are gone. -/
theorem brackets_mixture (draft : Draft) :
    Rewritten (Bracketed.write pass) '[' ']' none draft.mixture draft.mixture := by
  induction draft with
  | done => exact .nil
  | ordinary c rest inductionHypothesis =>
    exact rewritten_ordinary c (by decide) (by simp) inductionHypothesis
  | variant options rest each others =>
    rw [Draft.mixture_variant]
    exact brackets_variant each others
  | alternation first options rest _ others =>
    rw [Draft.mixture_alternation, alternateTag_append]
    exact .tag (grouped_alternate (first :: options.toList)) others

/-- The pass over braces takes a mixture to the meaning of the draft. -/
theorem braces_mixture (nested : ∀ option : Draft, option.Fitting levels → Converts pass option)
    (draft : Draft) (fitting : draft.Fitting (levels + 1)) :
    Rewritten (Variant.write pass) '\x7b' '\x7d' (some '$') draft.mixture draft.directive := by
  induction draft with
  | done => exact .nil
  | ordinary c rest inductionHypothesis =>
    exact rewritten_ordinary c (by decide) (by simp; decide) (inductionHypothesis fitting.ordinary)
  | variant options rest _ others =>
    obtain ⟨inner, outer⟩ := fitting.variant
    have known : Brackets.tagsAndBraces.Known := .inr (.inl rfl)
    have pair : Brackets.tagsAndBraces.Pair '\x7b' '\x7d' := by constructor <;> decide
    have grouped : ∀ option : Draft,
        Grouped Brackets.tagsAndBraces (· ≠ '|') option.mixture :=
      (fits_grouped known fun c => ordinary_ne c (by decide)).mixture (encloses_grouped pair)
    have content := grouped_options known grouped options.toList
    have headless : '$' ∉ Text.join ['|'] (options.toList.map Draft.mixture) := by
      have fits : Fits ('$' ∉ ·) ('$' ∉ ·) := fits_absent (by decide) (by decide)
      apply fits.join _ _ (.inl rfl)
      rw [List.forall_mem_map]
      intro option _
      exact (absent_renderings (by decide) (by decide) (by decide) option).2
    rw [Draft.mixture_variant, Draft.directive_variant]
    exact .construct (enclosed?_grouped pair content)
      (Variant.write_options options.toList_ne_nil headless (fun option _ => grouped option)
        fun option member => (nested option (inner option member)).filled_mixture) (others outer)
  | alternation first options rest _ others =>
    obtain ⟨_, outer⟩ := fitting.alternation
    rw [Draft.mixture_alternation, Draft.directive_alternation, alternateTag_append,
      alternateTag_append]
    exact .tag (grouped_alternate (first :: options.toList)) (others outer)

end Passes

section Keyword

/-- A tag of the renderings adds no keyword to the texts around it and inside it. -/
theorem unbroken_tag {front name body rest : Text} (member : name ∈ tagNames)
    (before : Unbroken front) (inside : Unbroken body) (behind : Unbroken rest) :
    Unbroken (front ++ '<' :: ((name ++ body) ++ '>' :: rest)) := by
  have letters : ∀ name ∈ tagNames, ∀ c ∈ name, c ∉ breakWord := by decide
  rw [Unbroken.around (by decide), Unbroken.around (by decide)]
  exact ⟨before, inside.after (letters name member), behind⟩

/-- The meaning of an option has no keyword if that of its draft has none. -/
theorem unbroken_option {draft : Draft} (unbroken : Unbroken draft.directive) :
    Unbroken draft.option := by
  cases draft with
  | done =>
    have inside : Unbroken ("empty".toList ++ []) := .after (by decide) .nil
    have whole : Unbroken ([] ++ '<' :: (("comment:".toList ++ ("empty".toList ++ [])) ++ ['>'])) :=
      unbroken_tag (by decide) .nil inside .nil
    exact whole
  | ordinary c rest => exact unbroken
  | variant options rest => exact unbroken
  | alternation first others rest => exact unbroken

/-- A draft in source syntax without the keyword has none in its meaning and in its mixture
either, whatever ordinary characters stand before it.

The text before the draft takes up one ordinary character after the other until the next
construct, whose marks the keyword does not have. -/
theorem unbroken_renderings (draft : Draft) (front : Text)
    (unbroken : Unbroken (front ++ draft.source)) :
    Unbroken (front ++ draft.directive) ∧ Unbroken (front ++ draft.mixture) := by
  induction draft generalizing front with
  | done => exact ⟨unbroken, unbroken⟩
  | ordinary c rest inductionHypothesis =>
    have longer := inductionHypothesis (front ++ [c.val])
    simp only [List.append_assoc, List.singleton_append] at longer
    exact longer unbroken
  | variant options rest each others =>
    rw [Draft.source_variant, Unbroken.around (by decide), Unbroken.around (by decide)] at unbroken
    obtain ⟨before, inside, behind⟩ := unbroken
    have behind := others [] behind
    have options_unbroken : ∀ option ∈ options.toList,
        Unbroken option.directive ∧ Unbroken option.mixture := by
      intro option member
      exact each option member [] (List.forall_mem_map.1 inside.parts option member)
    constructor
    · rw [Draft.directive_variant, randomTag_append]
      apply unbroken_tag (by decide) before _ behind.1
      apply Unbroken.join (by decide)
      rw [List.forall_mem_map]
      intro option member
      exact unbroken_option (options_unbroken option member).1
    · rw [Draft.mixture_variant, Unbroken.around (by decide), Unbroken.around (by decide)]
      refine ⟨before, ?_, behind.2⟩
      apply Unbroken.join (by decide)
      rw [List.forall_mem_map]
      intro option member
      exact (options_unbroken option member).2
  | alternation first options rest each others =>
    rw [Draft.source_alternation, Unbroken.around (by decide), Unbroken.around (by decide)]
      at unbroken
    obtain ⟨before, inside, behind⟩ := unbroken
    have behind := others [] behind
    have options_unbroken : ∀ option ∈ first :: options.toList, Unbroken option.option := by
      intro option member
      have written : Unbroken option.source := List.forall_mem_map.1 inside.parts option member
      exact unbroken_option (each option member [] written).1
    have body : Unbroken (Text.join ['|', '|'] ((first :: options.toList).map Draft.option)) := by
      apply Unbroken.join (by decide)
      rw [List.forall_mem_map]
      exact options_unbroken
    rw [Draft.directive_alternation, Draft.mixture_alternation, alternateTag_append,
      alternateTag_append]
    exact ⟨unbroken_tag (by decide) before body behind.1,
      unbroken_tag (by decide) before body behind.2⟩

end Keyword

/-- While more levels are left than a draft is nested deep, the draft and its mixture are
rewritten to its meaning, without a warning.

The induction is on the levels: the texts inside constructs are drafts or mixtures again and
are rewritten with one level less. -/
theorem converts_of_fitting (transpiler : Transpiler) (levels : Nat) (draft : Draft)
    (fitting : draft.Fitting levels) :
    Converts ⟨transpiler, transpiler.rewriteWithin levels⟩ draft := by
  induction levels generalizing draft with
  | zero => exact absurd fitting.shallow (Nat.not_lt_zero _)
  | succ levels inductionHypothesis =>
    have unbroken : Unbroken draft.mixture := (unbroken_renderings draft [] fitting.unbroken).2
    have unmarked : markBreaks Cursor.start draft.mixture = draft.mixture :=
      markBreaks_of_absent unbroken
    have braces := braces_mixture inductionHypothesis draft fitting
    have noUnderscore : '_' ∉ draft.source ∧ '_' ∉ draft.mixture :=
      absent_renderings (by decide) (by decide) (by decide) draft
    have noDollar : '$' ∉ draft.source ∧ '$' ∉ draft.mixture :=
      absent_renderings (by decide) (by decide) (by decide) draft
    constructor
    · have quiet : Quiet draft.source :=
        fits_quiet.source (encloses_quiet (by decide) (by decide))
          (encloses_quiet (by decide) (by decide)) draft
      exact passes_parts (Reference.apart_of_absent noUnderscore.1)
        (VariableUse.rewrite_of_absent _ noDollar.1) (Block.rewrite_of_absent _ quiet.absent)
        (brackets_source inductionHypothesis draft fitting) unmarked braces
    · have quiet : Quiet draft.mixture :=
        fits_quiet.mixture (encloses_quiet (by decide) (by decide)) draft
      exact passes_parts (Reference.apart_of_absent noUnderscore.2)
        (VariableUse.rewrite_of_absent _ noDollar.2) (Block.rewrite_of_absent _ quiet.absent)
        (brackets_mixture draft) unmarked braces

/-- Nested variants and alternations are rewritten compositionally. A line of ordinary
characters, variants in braces and alternations in square brackets, nested less deep than the
limit and without the break keyword, becomes the directives of its constructs, each made of the
meanings of its options in their order, and no warning is raised. -/
theorem transpile_draft (transpiler : Transpiler) (draft : Draft)
    (shallow : draft.depth < transpiler.limit) (unbroken : ¬ breakWord <:+: draft.source) :
    transpiler.transpile draft.source = pure draft.directive := by
  have unlabelled : clauseLabels draft.source = draft.source :=
    clauseLabels_of_absent (absent_renderings (by decide) (by decide) (by decide) draft).1
      (absent_renderings (by decide) (by decide) (by decide) draft).1
  rw [Transpiler.transpile, unlabelled]
  exact (converts_of_fitting transpiler transpiler.limit draft ⟨shallow, unbroken⟩).source

/-- A variant with an alternation inside, which has a variant with an empty option inside. -/
def nestedDraft : Draft :=
  let inner := Draft.variant
    (.more (.ordinary ⟨'c', by decide⟩ .done) (.last .done)) .done
  let middle := Draft.alternation (.ordinary ⟨'b', by decide⟩ .done) (.last inner) .done
  .variant (.more (.ordinary ⟨'a', by decide⟩ .done) (.last middle)) .done

/-- Three constructs inside each other become three directives inside each other. -/
theorem transpile_draft_nested :
    nestedDraft.depth < Transpiler.standard.limit ∧ ¬ breakWord <:+: nestedDraft.source ∧
      nestedDraft.source = "\x7ba|[b|\x7bc|\x7d]\x7d".toList ∧
      Transpiler.standard.transpile nestedDraft.source =
        pure "<random:a|<alternate:b||<random:c|<comment:empty>>>>".toList := by
  have shallow : nestedDraft.depth < Transpiler.standard.limit := by decide
  have written : nestedDraft.source = "\x7ba|[b|\x7bc|\x7d]\x7d".toList := by decide +kernel
  have meaning : nestedDraft.directive =
      "<random:a|<alternate:b||<random:c|<comment:empty>>>>".toList := by decide +kernel
  have unbroken : ¬ breakWord <:+: nestedDraft.source := by decide +kernel
  refine ⟨shallow, unbroken, written, ?_⟩
  rw [transpile_draft Transpiler.standard nestedDraft shallow unbroken, meaning]

end DynamicPrompt.Source
