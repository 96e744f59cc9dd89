import DynamicPrompt.Proofs.Source.Break
import DynamicPrompt.Proofs.Source.Enclosure

/-!
# Drafts of nested choices

A draft is a line made of ordinary characters, variants and alternations, whose options are
drafts again. It is written in source syntax, and its meaning is directive text that is put
together option by option. In between stands a mixture, with the alternations written as
directives already and the variants still in braces, because one pass treats every square
bracket of a line before the next treats the braces.

The three renderings are built from few parts. What holds of the parts holds of all of them,
which is stated once and used for every property of the renderings.
-/

namespace DynamicPrompt.Source

/-- The characters with a meaning of their own among choices. -/
def choiceMarks : Text := "<>[]\x7b\x7d()|:$_\\\x27\x22"

/-- A character without a meaning of its own. -/
abbrev Ordinary := { c : Char // c ∉ choiceMarks }

mutual

/-- A line of ordinary characters, variants in braces and alternations in square brackets.
An alternation has at least two options. -/
inductive Draft where
  | done
  | ordinary (c : Ordinary) (rest : Draft)
  | variant (options : DraftOptions) (rest : Draft)
  | alternation (first : Draft) (others : DraftOptions) (rest : Draft)

/-- At least one option, each a draft. -/
inductive DraftOptions where
  | last (option : Draft)
  | more (option : Draft) (others : DraftOptions)

end

/-- The options in order. -/
def DraftOptions.toList : DraftOptions → List Draft
  | .last option => [option]
  | .more option others => option :: others.toList

mutual

/-- The draft in source syntax. -/
def Draft.source : Draft → Text
  | .done => []
  | .ordinary c rest => c.val :: rest.source
  | .variant options rest => "\x7b" ++ Text.join "|" options.sources ++ "\x7d" ++ rest.source
  | .alternation first others rest =>
    "[" ++ Text.join "|" (first.source :: others.sources) ++ "]" ++ rest.source

/-- The options in source syntax. -/
def DraftOptions.sources : DraftOptions → List Text
  | .last option => [option.source]
  | .more option others => option.source :: others.sources

end

/-- What stands for the draft as an option, given its meaning: the mark of the empty text if the
draft is empty. -/
def Draft.orMark : Draft → Text → Text
  | .done, _ => "<comment:empty>"
  | _, meaning => meaning

/-- The directive that draws one of several texts. -/
def randomTag (options : List Text) : Text := "<random:" ++ Text.join "|" options ++ ">"

/-- The directive that alternates between several texts. -/
def alternateTag (options : List Text) : Text := "<alternate:" ++ Text.join "||" options ++ ">"

mutual

/-- The meaning of the draft: a random draw for each variant and an alternation of texts for
each alternation, of the meanings of the options in their order. -/
def Draft.directive : Draft → Text
  | .done => []
  | .ordinary c rest => c.val :: rest.directive
  | .variant options rest => randomTag options.directives ++ rest.directive
  | .alternation first others rest =>
    alternateTag (first.orMark first.directive :: others.directives) ++ rest.directive

/-- The meanings of the options. An empty option is marked as such. -/
def DraftOptions.directives : DraftOptions → List Text
  | .last option => [option.orMark option.directive]
  | .more option others => option.orMark option.directive :: others.directives

end

mutual

/-- How deep variants and alternations are nested in the draft. -/
def Draft.depth : Draft → Nat
  | .done => 0
  | .ordinary _ rest => rest.depth
  | .variant options rest => max (options.depth + 1) rest.depth
  | .alternation first others rest => max (max first.depth others.depth + 1) rest.depth

/-- How deep variants and alternations are nested in the options. -/
def DraftOptions.depth : DraftOptions → Nat
  | .last option => option.depth
  | .more option others => max option.depth others.depth

end

mutual

/-- The draft with its alternations written as directives and its variants in braces. -/
def Draft.mixture : Draft → Text
  | .done => []
  | .ordinary c rest => c.val :: rest.mixture
  | .variant options rest => "\x7b" ++ Text.join "|" options.mixtures ++ "\x7d" ++ rest.mixture
  | .alternation first others rest =>
    alternateTag (first.orMark first.directive :: others.directives) ++ rest.mixture

/-- The options of a variant with their own alternations written as directives. -/
def DraftOptions.mixtures : DraftOptions → List Text
  | .last option => [option.mixture]
  | .more option others => option.mixture :: others.mixtures

end

/-- The meaning of an option: that of its draft, or the mark of the empty text. -/
def Draft.option (draft : Draft) : Text := draft.orMark draft.directive

namespace DraftOptions

/-- There is always an option. -/
theorem toList_ne_nil (options : DraftOptions) : options.toList ≠ [] := by
  cases options <;> simp [toList]

/-- The options are written one by one. -/
theorem sources_eq : ∀ options : DraftOptions, options.sources = options.toList.map Draft.source
  | .last _ => rfl
  | .more option others => congrArg (option.source :: ·) (sources_eq others)

/-- The options are mixed one by one. -/
theorem mixtures_eq : ∀ options : DraftOptions, options.mixtures = options.toList.map Draft.mixture
  | .last _ => rfl
  | .more option others => congrArg (option.mixture :: ·) (mixtures_eq others)

/-- The options have their meanings one by one. -/
theorem directives_eq :
    ∀ options : DraftOptions, options.directives = options.toList.map Draft.option
  | .last _ => rfl
  | .more option others => congrArg (option.option :: ·) (directives_eq others)

/-- No option is nested deeper than the options together. -/
theorem depth_le : ∀ (options : DraftOptions), ∀ option ∈ options.toList,
    option.depth ≤ options.depth
  | .last option => by
    intro other member
    obtain rfl := List.mem_singleton.1 member
    exact Nat.le_refl _
  | .more option others => by
    intro other member
    rcases List.mem_cons.1 member with rfl | later
    · exact Nat.le_max_left _ _
    · exact Nat.le_trans (depth_le others other later) (Nat.le_max_right _ _)

end DraftOptions

mutual

/-- Induction over drafts: what holds of a construct if it holds of each option and of the rest
of the line holds of every draft. -/
@[elab_as_elim, induction_eliminator]
theorem Draft.induct {motive : Draft → Prop} (done : motive .done)
    (ordinary : ∀ c rest, motive rest → motive (.ordinary c rest))
    (variant : ∀ options rest, (∀ option ∈ options.toList, motive option) → motive rest →
      motive (.variant options rest))
    (alternation : ∀ first others rest, (∀ option ∈ first :: others.toList, motive option) →
      motive rest → motive (.alternation first others rest)) : ∀ draft, motive draft
  | .done => done
  | .ordinary c rest => ordinary c rest (rest.induct done ordinary variant alternation)
  | .variant options rest =>
    variant options rest (options.induct done ordinary variant alternation)
      (rest.induct done ordinary variant alternation)
  | .alternation first others rest =>
    alternation first others rest
      (List.forall_mem_cons.2 ⟨first.induct done ordinary variant alternation,
        others.induct done ordinary variant alternation⟩)
      (rest.induct done ordinary variant alternation)

/-- The part of the induction that goes through the options. -/
theorem DraftOptions.induct {motive : Draft → Prop} (done : motive .done)
    (ordinary : ∀ c rest, motive rest → motive (.ordinary c rest))
    (variant : ∀ options rest, (∀ option ∈ options.toList, motive option) → motive rest →
      motive (.variant options rest))
    (alternation : ∀ first others rest, (∀ option ∈ first :: others.toList, motive option) →
      motive rest → motive (.alternation first others rest)) :
    ∀ options : DraftOptions, ∀ option ∈ options.toList, motive option
  | .last option =>
    List.forall_mem_singleton.2 (option.induct done ordinary variant alternation)
  | .more option others =>
    List.forall_mem_cons.2 ⟨option.induct done ordinary variant alternation,
      others.induct done ordinary variant alternation⟩

end

namespace Draft

section Shapes

variable (options others : DraftOptions) (first rest : Draft)

/-- A variant in source syntax: its options in braces. -/
theorem source_variant : (variant options rest).source =
    '\x7b' :: (Text.join ['|'] (options.toList.map source) ++ '\x7d' :: rest.source) := by
  simp [source, DraftOptions.sources_eq]

/-- An alternation in source syntax: its options in square brackets. -/
theorem source_alternation : (alternation first others rest).source =
    '[' :: (Text.join ['|'] ((first :: others.toList).map source) ++ ']' :: rest.source) := by
  simp [source, DraftOptions.sources_eq]

/-- A variant in the mixture: its mixed options in braces. -/
theorem mixture_variant : (variant options rest).mixture =
    '\x7b' :: (Text.join ['|'] (options.toList.map mixture) ++ '\x7d' :: rest.mixture) := by
  simp [mixture, DraftOptions.mixtures_eq]

/-- An alternation in the mixture is its directive. -/
theorem mixture_alternation : (alternation first others rest).mixture =
    alternateTag ((first :: others.toList).map option) ++ rest.mixture := by
  simp [mixture, DraftOptions.directives_eq, option]

/-- The meaning of a variant: a random draw of the meanings of its options. -/
theorem directive_variant : (variant options rest).directive =
    randomTag (options.toList.map option) ++ rest.directive := by
  simp [directive, DraftOptions.directives_eq]

/-- The meaning of an alternation: an alternation of the meanings of its options. -/
theorem directive_alternation : (alternation first others rest).directive =
    alternateTag ((first :: others.toList).map option) ++ rest.directive := by
  simp [directive, DraftOptions.directives_eq, option]

end Shapes

/-- An empty draft has an empty meaning, and it is the only one. -/
theorem orEmpty_directive (draft : Draft) : orEmpty draft.directive = draft.option := by
  cases draft with
  | done => rfl
  | ordinary c rest => rfl
  | variant options rest => rfl
  | alternation first others rest => rfl

end Draft

/-- A random draw before the rest of a line is a tag. -/
theorem randomTag_append (options : List Text) (rest : Text) :
    randomTag options ++ rest =
      '<' :: (("random:".toList ++ Text.join ['|'] options) ++ '>' :: rest) := by
  unfold randomTag
  simp

/-- An alternation of texts before the rest of a line is a tag. -/
theorem alternateTag_append (options : List Text) (rest : Text) :
    alternateTag options ++ rest =
      '<' :: (("alternate:".toList ++ Text.join ['|', '|'] options) ++ '>' :: rest) := by
  unfold alternateTag
  simp

/-- The names with which the tags of the renderings begin. -/
def tagNames : List Text := ["random:", "alternate:", "comment:"]

/-- What stands inside two brackets and what follows them may be put together. -/
def Encloses (inside outside : Text → Prop) (opener closer : Char) : Prop :=
  ∀ body rest, inside body → outside rest → outside (opener :: (body ++ closer :: rest))

/-- What the parts of the renderings have in common: one property of the text inside a construct
and one of the text outside, which everything that the renderings put together passes on. -/
structure Fits (inside outside : Text → Prop) : Prop where
  weaken : ∀ text, outside text → inside text
  join : ∀ separator parts, separator = ['|'] ∨ separator = ['|', '|'] →
    (∀ part ∈ parts, inside part) → inside (Text.join separator parts)
  nil : outside []
  ordinary : ∀ (c : Ordinary) rest, outside rest → outside (c.val :: rest)
  tag : ∀ name body rest, name ∈ tagNames → inside body → outside rest →
    outside ('<' :: ((name ++ body) ++ '>' :: rest))
  empty : inside "empty"

namespace Fits

variable {inside outside : Text → Prop}

/-- The meaning of an option is fit to stand inside a construct. -/
theorem option (fits : Fits inside outside) {draft : Draft} (whole : outside draft.directive) :
    inside draft.option := by
  cases draft with
  | done => exact fits.weaken _ (fits.tag "comment:" _ _ (by decide) fits.empty fits.nil)
  | ordinary c rest => exact fits.weaken _ whole
  | variant options rest => exact fits.weaken _ whole
  | alternation first others rest => exact fits.weaken _ whole

/-- A tag around joined options is fit if the options are. -/
theorem tag_joined (fits : Fits inside outside) {name separator rest : Text} {options : List Draft}
    {written : Draft → Text} (named : name ∈ tagNames)
    (between : separator = ['|'] ∨ separator = ['|', '|'])
    (each : ∀ option ∈ options, inside (written option)) (others : outside rest) :
    outside ('<' :: ((name ++ Text.join separator (options.map written)) ++ '>' :: rest)) := by
  apply fits.tag _ _ _ named _ others
  apply fits.join _ _ between
  rw [List.forall_mem_map]
  exact each

/-- Brackets around joined options are fit if the options are. -/
theorem enclosed (fits : Fits inside outside) {opener closer : Char} {rest : Text}
    {options : List Draft} {written : Draft → Text}
    (encloses : Encloses inside outside opener closer)
    (each : ∀ option ∈ options, outside (written option)) (others : outside rest) :
    outside (opener :: (Text.join ['|'] (options.map written) ++ closer :: rest)) := by
  apply encloses _ _ _ others
  apply fits.join _ _ (.inl rfl)
  rw [List.forall_mem_map]
  intro option member
  exact fits.weaken _ (each option member)

/-- The meaning of every draft is fit. -/
theorem directive (fits : Fits inside outside) (draft : Draft) : outside draft.directive := by
  induction draft with
  | done => exact fits.nil
  | ordinary c rest others => exact fits.ordinary c _ others
  | variant options rest each others =>
    rw [Draft.directive_variant, randomTag_append]
    apply fits.tag_joined (by decide) (.inl rfl) _ others
    intro option member
    exact fits.option (each option member)
  | alternation first options rest each others =>
    rw [Draft.directive_alternation, alternateTag_append]
    apply fits.tag_joined (by decide) (.inr rfl) _ others
    intro option member
    exact fits.option (each option member)

/-- Every mixture is fit. -/
theorem mixture (fits : Fits inside outside) (braces : Encloses inside outside '\x7b' '\x7d')
    (draft : Draft) : outside draft.mixture := by
  induction draft with
  | done => exact fits.nil
  | ordinary c rest others => exact fits.ordinary c _ others
  | variant options rest each others =>
    rw [Draft.mixture_variant]
    exact fits.enclosed braces each others
  | alternation first options rest _ others =>
    rw [Draft.mixture_alternation, alternateTag_append]
    apply fits.tag_joined (by decide) (.inr rfl) _ others
    intro option _
    exact fits.option (fits.directive option)

/-- Every draft in source syntax is fit. -/
theorem source (fits : Fits inside outside) (braces : Encloses inside outside '\x7b' '\x7d')
    (brackets : Encloses inside outside '[' ']') (draft : Draft) : outside draft.source := by
  induction draft with
  | done => exact fits.nil
  | ordinary c rest others => exact fits.ordinary c _ others
  | variant options rest each others =>
    rw [Draft.source_variant]
    exact fits.enclosed braces each others
  | alternation first options rest each others =>
    rw [Draft.source_alternation]
    exact fits.enclosed brackets each others

end Fits

end DynamicPrompt.Source
