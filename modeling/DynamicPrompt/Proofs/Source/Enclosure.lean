import DynamicPrompt.Proofs.Numeral.Signs
import DynamicPrompt.Proofs.Source.Tag
import DynamicPrompt.Proofs.Source.Untouched

/-!
# Passes over enclosed constructs

The passes over square brackets and over braces read a line in the same way: outside tags they
look for an opener with its closer, and inside tags they pass everything. A line put together
from characters, whole tags and whole constructs is therefore rewritten part by part. The
relation between such a line and what becomes of it is stated here without cursors, and one law
says that both passes obey it.
-/

namespace DynamicPrompt.Source

/-- A cursor outside every tag from which a construct may begin. -/
structure Cursor.Ready (cursor : Cursor) (barred : Option Char) : Prop where
  outside : cursor.depth = 0
  unescaped : cursor.escaped = false
  unbarred : barred = none ∨ cursor.last ≠ barred

/-- A line begins outside every tag. -/
theorem Cursor.ready_start (barred : Option Char) : Cursor.start.Ready barred := by
  refine ⟨rfl, rfl, ?_⟩
  cases barred with
  | none => exact .inl rfl
  | some c => exact .inr (Option.some_ne_none c).symm

/-- A character that begins no tag, ends none and escapes nothing leaves a cursor ready, unless it
is barred itself. -/
theorem Cursor.Ready.after {cursor : Cursor} {barred : Option Char} {c : Char}
    (ready : cursor.Ready barred) (unmentioned : ¬ Brackets.tags.Mentions c) (unescaping : c ≠ '\\')
    (unbarred : barred = none ∨ some c ≠ barred) : (cursor.after c).Ready barred where
  outside := (tagDepthAfter_unmentioned unmentioned cursor.depth).trans ready.outside
  unescaped := by simp [Cursor.after, escapes, unescaping]
  unbarred := unbarred

/-- What a pass makes of a line of which every opener belongs to a whole construct. Characters
are kept and so is everything inside tags; a construct becomes what is written for it. -/
inductive Rewritten (write : Text → Reporting Text) (opener closer : Char)
    (barred : Option Char) : Text → Text → Prop where
  | nil : Rewritten write opener closer barred [] []
  | plain {c : Char} {rest result : Text} (noOpener : c ≠ opener)
      (unmentioned : ¬ Brackets.tags.Mentions c) (unescaping : c ≠ '\\')
      (unbarred : some c ≠ barred)
      (others : Rewritten write opener closer barred rest result) :
      Rewritten write opener closer barred (c :: rest) (c :: result)
  | tag {inner rest result : Text} (grouped : Grouped Brackets.tags (fun _ => True) inner)
      (others : Rewritten write opener closer barred rest result) :
      Rewritten write opener closer barred ('<' :: (inner ++ '>' :: rest))
        ('<' :: (inner ++ '>' :: result))
  | construct {inner text rest result : Text}
      (closes : ∀ after, enclosed? opener closer (inner ++ closer :: after) = some (inner, after))
      (written : write inner = pure text)
      (others : Rewritten write opener closer barred rest result) :
      Rewritten write opener closer barred (opener :: (inner ++ closer :: rest)) (text ++ result)

namespace Rewritten

variable {write : Text → Reporting Text} {opener closer : Char} {barred : Option Char}

/-- Lines one after the other are rewritten one after the other. -/
theorem append {first firstResult second secondResult : Text}
    (front : Rewritten write opener closer barred first firstResult)
    (back : Rewritten write opener closer barred second secondResult) :
    Rewritten write opener closer barred (first ++ second) (firstResult ++ secondResult) := by
  induction front with
  | nil => exact back
  | plain noOpener unmentioned unescaping unbarred _ inductionHypothesis =>
    exact .plain noOpener unmentioned unescaping unbarred inductionHypothesis
  | tag grouped _ inductionHypothesis =>
    rw [List.cons_append, List.append_assoc, List.cons_append, List.cons_append,
      List.append_assoc, List.cons_append]
    exact .tag grouped inductionHypothesis
  | construct closes written _ inductionHypothesis =>
    rw [List.cons_append, List.append_assoc, List.cons_append, List.append_assoc]
    exact .construct closes written inductionHypothesis

/-- Lines between separators that are kept are rewritten one by one. -/
theorem join {α : Type} {source result : α → Text} {separator : Text} {items : List α}
    (kept : Rewritten write opener closer barred separator separator)
    (each : ∀ item ∈ items, Rewritten write opener closer barred (source item) (result item)) :
    Rewritten write opener closer barred (Text.join separator (items.map source))
      (Text.join separator (items.map result)) :=
  Text.join_related .nil (fun front back => (front.append kept).append back) each

end Rewritten

/-- The marks of a pass over constructs are told apart from tags, and neither the end of a
construct nor the end of a tag bars the next opener. -/
structure Marks (opener closer : Char) (barred : Option Char) : Prop where
  noTag : opener ≠ '<'
  afterConstruct : some closer ≠ barred
  afterTag : some '>' ≠ barred

section Passing

variable {opener closer : Char} {barred : Option Char}

/-- A character that is no opener, or inside a tag, or escaped, is passed. -/
theorem enclosures_passed {cursor : Cursor} {c : Char}
    (passed : c ≠ opener ∨ cursor.isFree c = false) (rest : Text) :
    enclosures opener closer barred cursor (c :: rest) =
      .plain c :: enclosures opener closer barred (cursor.after c) rest := by
  rw [enclosures, if_neg]
  rintro ⟨same, free, _⟩
  rcases passed with different | held
  · exact different same
  · rw [held] at free
    exact Bool.false_ne_true free

/-- Constructs begin only where a character is free. -/
theorem enclosures_keepsHeld :
    KeepsHeld (enclosures opener closer barred) Piece.plain :=
  fun _ _ rest held => enclosures_passed (.inr held) rest

/-- A line of whole tags and whole constructs is rewritten part by part, and no warning is
raised. The cursor need not be at the start of the line, which carries the induction over the
parts. -/
theorem writePieces_enclosures {write : Text → Reporting Text} {text result : Text}
    (marks : Marks opener closer barred)
    (rewritten : Rewritten write opener closer barred text result) {cursor : Cursor}
    (ready : cursor.Ready barred) :
    writePieces write (enclosures opener closer barred cursor text) = pure result := by
  induction rewritten generalizing cursor with
  | nil => rw [enclosures, writePieces]
  | @plain c rest result noOpener unmentioned unescaping unbarred _ inductionHypothesis =>
    have onward : (cursor.after c).Ready barred :=
      ready.after unmentioned unescaping (.inr unbarred)
    rw [enclosures_passed (.inl noOpener), writePieces, inductionHypothesis onward]
    rfl
  | @tag inner rest result grouped _ inductionHypothesis =>
    have onward : Cursor.Ready ⟨0, false, some '>'⟩ barred := ⟨rfl, rfl, .inr marks.afterTag⟩
    rw [enclosures_keepsHeld.tag (.of_grouped grouped) ready.outside, writePieces_passed,
      inductionHypothesis onward, map_pure]
    simp
  | @construct inner text rest result closes written _ inductionHypothesis =>
    have free : cursor.isFree opener = true := by
      simp [Cursor.isFree, standsOutside, marks.noTag, ready.outside, ready.unescaped]
    have onward : (cursor.past closer).Ready barred :=
      ⟨ready.outside, rfl, .inr marks.afterConstruct⟩
    rw [enclosures, if_pos ⟨rfl, free, ready.unbarred⟩]
    split
    · next inner' after found =>
      obtain ⟨rfl, rfl⟩ := Prod.mk.inj (Option.some.inj ((closes rest).symm.trans found))
      rw [writePieces, written, inductionHypothesis onward]
      rfl
    · next missed => simp [closes rest] at missed

end Passing

namespace Bracketed

/-- What is said in square brackets consists of texts with a property. -/
def Consists (holds : Text → Prop) : Bracketed → Prop
  | edit first second step => holds first ∧ holds second ∧ holds step
  | alternate options => ∀ option ∈ options, holds option
  | lower content => holds content

/-- It consists of the parts between colons or between bars, or it is the whole. -/
theorem consists_ofText {holds : Text → Prop} {content : Text} (whole : holds content)
    (colons : ∀ part ∈ splitTopLevel ":" Brackets.all content, holds part)
    (bars : ∀ part ∈ splitTopLevel "|" Brackets.all content, holds part) :
    (ofText content).Consists holds := by
  unfold ofText
  split
  · next first second step parts =>
    rw [parts] at colons
    simpa [Consists] using colons
  · split
    · next first second others parts =>
      rw [parts] at bars
      exact bars
    · exact whole

/-- A weighted group begins with its text, and a colon follows that. No tag ends behind the colon. -/
theorem weighted?_eq {text content : Text} {weight : Float}
    (weighted : weighted? text = some (content, weight)) :
    ∃ rest, text = '(' :: (content ++ ':' :: rest) ∧ '>' ∉ rest := by
  unfold weighted? at weighted
  split at weighted
  · split at weighted
    · next rest inner found =>
      obtain ⟨⟨before, after⟩, cut, weighted⟩ := Option.bind_eq_some_iff.1 weighted
      obtain ⟨factor, read, same⟩ := Option.bind_eq_some_iff.1 weighted
      obtain ⟨rfl, rfl⟩ := Prod.mk.inj (Option.some.inj same)
      obtain ⟨colon, passes, rfl⟩ := Text.cutAtLast?_append cut
      obtain rfl : colon = ':' := beq_iff_eq.1 passes
      refine ⟨after ++ [')'], ?_, ?_⟩
      · rw [← closing?_append found]
        simp
      · rw [List.mem_append, not_or]
        exact ⟨Numeral.not_mem_of_float? (by decide) (by decide) read, by decide⟩
    · exact absurd weighted (by rintro ⟨⟩)
  · exact absurd weighted (by rintro ⟨⟩)

/-- A weight is written like any other number. -/
theorem weightText_subset (weight : Float) : weightText weight ⊆ Numeral.signs :=
  List.Subset.trans (Text.dropEndWhile_isPrefix _ _).subset
    (List.Subset.trans (Text.dropEndWhile_isPrefix _ _).subset (Numeral.toPlaces_subset 3 weight))

/-- Lowered attention is written as a group: a text with a weight behind it. The text is all that there
is, or what stands in a group that has a weight already. -/
theorem lowered_eq (text : Text) :
    ∃ content weight, lowered text = '(' :: (content ++ ':' :: (weight ++ [')'])) ∧
      weight ⊆ Numeral.signs ∧
        (text = content ∨ ∃ rest, text = '(' :: (content ++ ':' :: rest) ∧ '>' ∉ rest) := by
  have group (content weight : Text) : "(" ++ content ++ ":" ++ weight ++ ")" =
      '(' :: (content ++ ':' :: (weight ++ [')'])) := by
    simp only [List.append_assoc]
    rfl
  unfold lowered
  split
  · next content weight weighted =>
    exact ⟨content, _, group content _, weightText_subset _, .inr (weighted?_eq weighted)⟩
  · exact ⟨text, _, group text _, Numeral.ofFloat_subset attention, .inl rfl⟩

/-- The pass over square brackets works part by part. -/
theorem rewrite_parts {pass : Pass} {text result : Text}
    (rewritten : Rewritten (write pass) '[' ']' none text result) :
    rewrite pass text = pure result := by
  have marks : Marks '[' ']' none := by constructor <;> decide
  exact writePieces_enclosures marks rewritten (Cursor.ready_start none)

end Bracketed

/-- Without dollar signs a variant has no head, and all its options are texts of their own. -/
theorem Variant.write_of_absent (pass : Pass) {content : Text} (absent : '$' ∉ content) :
    Variant.write pass content = do
      let options ← (splitTopLevel "|" Brackets.tagsAndBraces content).mapM pass.filled
      return '<' :: (("random".toList ++ ':' :: Text.join "|" options) ++ ['>']) := by
  rw [Variant.write, Head.split?_of_absent absent]
  dsimp only
  rw [Head.argument, pure_bind]
  split
  · next text collapsed =>
    split at collapsed
    · exact absurd collapsed (by rintro ⟨⟩)
    · exact absurd collapsed (by rintro ⟨⟩)
  · rfl

/-- The pass over braces works part by part. -/
theorem Variant.rewrite_parts {pass : Pass} {text result : Text}
    (rewritten : Rewritten (Variant.write pass) '\x7b' '\x7d' (some '$') text result) :
    Variant.rewrite pass text = pure result := by
  have marks : Marks '\x7b' '\x7d' (some '$') := by constructor <;> decide
  exact writePieces_enclosures marks rewritten (Cursor.ready_start (some '$'))

/-- The passes that follow the one over block commands. -/
def afterBlocks (pass : Pass) (text : Text) : Reporting Text := do
  let text ← Bracketed.rewrite pass text
  Variant.rewrite pass (markBreaks Cursor.start text)

/-- Where a text has no references and no variables, the passes together do what those over blocks,
square brackets and braces do one after the other. -/
theorem passes_parts {pass : Pass} {text written between result : Text}
    (apart : ¬ ['_', '_'] <:+: text) (kept : VariableUse.rewrite pass text = pure text)
    (blocks : Block.rewrite pass text = pure written)
    (brackets : Rewritten (Bracketed.write pass) '[' ']' none written between)
    (unbroken : markBreaks Cursor.start between = between)
    (braces : Rewritten (Variant.write pass) '\x7b' '\x7d' (some '$') between result) :
    Transpiler.passes pass text = pure result := by
  rw [Transpiler.passes, Reference.rewrite_of_apart pass apart, pure_bind,
    kept, pure_bind, blocks, pure_bind,
    Bracketed.rewrite_parts brackets, pure_bind, unbroken, Variant.rewrite_parts braces]

end DynamicPrompt.Source
