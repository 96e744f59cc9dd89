import DynamicPrompt.Choice.Basic
import DynamicPrompt.Engine.Directives
import DynamicPrompt.Proofs.Delimiter.Splitting
import DynamicPrompt.Proofs.Template.RoundTrip

/-!
# Tags that a text holds

Directives do not expand their whole argument or body at once but the options, the pairs and the
names in it. Whatever they expand is a part of the text that begins at a character which is not
escaped, since what stands before it is a bracket, a bar or a colon. So a tag that comes to be
expanded can be read from such a part, however deep it is: the text holds it.

Reading a part of a text need not find the tags that reading the whole text finds, because a tag
ends where what follows allows it to. That is why a text holds every tag that can be read from a
part of it, and not just those that stand in each other when the whole text is read.
-/

namespace DynamicPrompt

/-- A character that is no backslash escapes nothing. -/
theorem isEscapedAfter_concat (before : Text) {c : Char} (other : c ≠ '\\') :
    isEscapedAfter (before ++ [c]) = false := by
  simp [isEscapedAfter, escapes, other]

/-- After an unescaped place only what follows it decides what is escaped. -/
theorem isEscapedAfter_append {before : Text} (unescaped : isEscapedAfter before = false)
    (after : Text) : isEscapedAfter (before ++ after) = isEscapedAfter after := by
  rw [isEscapedAfter, List.foldl_append]
  rw [isEscapedAfter] at unescaped
  rw [unescaped, isEscapedAfter]

/-- A text stands in another and begins at a character that is not escaped there. -/
def HasPart (text part : Text) : Prop :=
  ∃ before after, before ++ part ++ after = text ∧ isEscapedAfter before = false

namespace HasPart

variable {text part : Text}

/-- A text is a part of itself. -/
theorem refl (text : Text) : HasPart text text := ⟨[], [], by simp, rfl⟩

/-- A part of a part is a part. -/
theorem trans {inner : Text} (outside : HasPart text part) (inside : HasPart part inner) :
    HasPart text inner := by
  obtain ⟨before, after, rfl, unescaped⟩ := outside
  obtain ⟨before', after', rfl, unescaped'⟩ := inside
  refine ⟨before ++ before', after' ++ after, by simp, ?_⟩
  rw [isEscapedAfter_append unescaped, unescaped']

/-- What a text begins with is a part of it. -/
theorem start (part after : Text) : HasPart (part ++ after) part := ⟨[], after, by simp, rfl⟩

/-- What follows a character that is no backslash is a part, and so is anything that it begins
with. -/
theorem follows {c : Char} (before part after : Text) (other : c ≠ '\\') :
    HasPart (before ++ c :: (part ++ after)) part :=
  ⟨before ++ [c], after, by simp, isEscapedAfter_concat before other⟩

end HasPart

section Splitting

variable (init : Text) (last : Char) {brackets : Brackets} {text part : Text}

/-- What stands before and after a separator that does not end with a backslash are parts. -/
theorem hasPart_cut {before after : Text} {escaped : Bool} (ends : last ≠ '\\')
    (cut : cutTopLevelFrom? (init ++ [last]) brackets escaped text = some (before, after)) :
    HasPart text before ∧ HasPart text after := by
  have whole := cutTopLevelFrom?_append (by simp) cut
  constructor
  · rw [← whole, List.append_assoc]
    exact .start before _
  · have split : before ++ (init ++ [last]) ++ after = (before ++ init) ++ last :: (after ++ []) := by
      simp
    rw [← whole, split]
    exact .follows _ after [] ends

/-- What stands between separators that do not end with a backslash are parts. -/
theorem hasPart_splitTopLevel (ends : last ≠ '\\')
    (member : part ∈ splitTopLevel (init ++ [last]) brackets text) : HasPart text part := by
  rw [splitTopLevel] at member
  generalize false = escaped at member
  fun_induction splitTopLevelFrom (init ++ [last]) brackets escaped text with
  | case1 escaped text =>
    rw [List.mem_singleton.1 member]
    exact .refl text
  | case2 escaped text before after cut inductionHypothesis =>
    obtain ⟨first, rest⟩ := hasPart_cut init last ends cut
    rcases List.mem_cons.1 member with rfl | later
    · exact first
    · exact rest.trans (inductionHypothesis later)

end Splitting

namespace Template

/-- A tag can be read from some part of the text. -/
def Holds (text : Text) (tag : Directive) : Prop :=
  ∃ (bound : Nat) (inside rest : Text), HasPart text ('<' :: inside) ∧
    tag? bound inside = some (tag, rest)

/-- What a part holds the text holds. -/
theorem Holds.of_part {text part : Text} {tag : Directive} (within : HasPart text part)
    (holds : Holds part tag) : Holds text tag := by
  obtain ⟨bound, inside, rest, has, read⟩ := holds
  exact ⟨bound, inside, rest, within.trans has, read⟩

/-- A literal character in front adds no tag. -/
theorem directive_mem_consChar {c : Char} {template : Template} {tag : Directive} :
    Node.directive tag ∈ consChar c template ↔ Node.directive tag ∈ template := by
  unfold consChar
  split <;> simp

/-- The tags of the pieces of a part are held. Where a piece begins, no character is escaped. -/
theorem holds_of_mem_piecesWithin {bound : Nat} {text part : Text} {tag : Directive}
    (has : ∃ before, before ++ part = text ∧ isEscapedAfter before = false)
    (member : Node.directive tag ∈ piecesWithin bound part) : Holds text tag := by
  induction bound generalizing part with
  | zero => simp [piecesWithin] at member
  | succ bound inductionHypothesis =>
    obtain ⟨before, whole, unescaped⟩ := has
    cases part with
    | nil => simp [piecesWithin] at member
    | cons c rest =>
      rcases escape_or c rest with ⟨d, rest, rfl, rfl⟩ | free
      · rw [piecesWithin_escaped, directive_mem_consChar, directive_mem_consChar] at member
        refine inductionHypothesis ⟨before ++ ['\\', d], by simpa using whole, ?_⟩ member
        rw [isEscapedAfter_append unescaped]
        simp [isEscapedAfter, escapes]
      · rw [piecesWithin_unescaped free] at member
        split at member
        · next directive after found =>
          obtain ⟨rfl, read⟩ := Option.ite_none_right_eq_some.1 found
          rcases List.mem_cons.1 member with same | later
          · obtain rfl := Node.directive.inj same
            exact ⟨bound, rest, after, ⟨before, [], by simpa using whole, unescaped⟩, read⟩
          · have passed := (keeps bound).tag rest directive after read
            refine inductionHypothesis ⟨before ++ directive.print, ?_, ?_⟩ later
            · rw [List.append_assoc, passed, whole]
            · rw [print_parts, ← List.append_assoc]
              exact isEscapedAfter_concat _ (by decide)
        · rw [directive_mem_consChar] at member
          by_cases backslash : c = '\\'
          · rw [free backslash] at member
            cases bound <;> simp [piecesWithin] at member
          · exact inductionHypothesis
              ⟨before ++ [c], by simpa using whole, isEscapedAfter_concat before backslash⟩ member

/-- The top-level tags of a text are held. -/
theorem holds_of_mem_directives {text : Text} {tag : Directive}
    (member : tag ∈ (ofText text).directives) : Holds text tag := by
  obtain ⟨node, present, same⟩ := List.mem_filterMap.1 member
  cases node with
  | literal content => simp at same
  | directive other =>
    obtain rfl := Option.some.inj same
    exact holds_of_mem_piecesWithin ⟨[], rfl, rfl⟩ present

/-- The name of a tag has only characters of names. -/
theorem tag?_name {bound : Nat} {text rest : Text} {tag : Directive}
    (read : tag? bound text = some (tag, rest)) : tag.name.all continuesTagName = true := by
  cases bound with
  | zero => simp [tag?] at read
  | succ bound =>
    cases text with
    | nil => simp [tag?] at read
    | cons c text =>
      rw [tag?_cons] at read
      split at read
      · next starts =>
        have first : continuesTagName c = true := by
          simp [continuesTagName, Char.isAlphanum, show c.isAlpha = true from starts]
        dsimp only at read
        split at read
        · obtain ⟨rfl, rfl⟩ := Prod.mk.inj (Option.some.inj read)
          rw [List.all_cons, first, Bool.true_and]
          exact List.all_takeWhile
        · cases read
      · cases read

section Held

variable {text : Text} {tag : Directive} (held : Holds text tag)

include held

/-- A text that holds a tag holds its print. -/
theorem Holds.hasPart_print : HasPart text tag.print := by
  obtain ⟨bound, inside, rest, has, read⟩ := held
  have passed := (keeps bound).tag inside tag rest read
  refine has.trans ?_
  rw [← passed]
  exact .start tag.print rest

/-- The argument of a tag is a part of the text that holds the tag. -/
theorem Holds.hasPart_argument : HasPart text tag.argumentText := by
  refine held.hasPart_print.trans ?_
  rw [print_parts, Directive.argumentText]
  cases tag.argument with
  | none => exact ⟨[], _, rfl, rfl⟩
  | some argument =>
    have whole : '<' :: tag.name ++ printArgument (some argument) ++ printBody tag.body ++ ['>'] =
        ('<' :: tag.name) ++ '[' :: (argument ++ (']' :: printBody tag.body ++ ['>'])) := by
      simp [printArgument]
    rw [whole]
    exact .follows _ argument _ (by decide)

/-- The body of a tag is a part of the text that holds the tag. -/
theorem Holds.hasPart_body : HasPart text tag.bodyText := by
  refine held.hasPart_print.trans ?_
  rw [print_parts, Directive.bodyText]
  cases tag.body with
  | none => exact ⟨[], _, rfl, rfl⟩
  | some body =>
    have whole : '<' :: tag.name ++ printArgument tag.argument ++ printBody (some body) ++ ['>'] =
        ('<' :: tag.name ++ printArgument tag.argument) ++ ':' :: (body ++ ['>']) := by
      simp [printBody]
    rw [whole]
    exact .follows _ body _ (by decide)

/-- Where a tag begins its name is all that could be a name, and its body stands behind. -/
theorem Holds.begins : ∃ before rest, before ++ '<' :: rest = text ∧
    rest.takeWhile continuesTagName = tag.name ∧ tag.bodyText <:+: rest := by
  obtain ⟨bound, inside, rest, ⟨before, after, whole, -⟩, read⟩ := held
  have passed := (keeps bound).tag inside tag rest read
  rw [print_parts] at passed
  simp only [List.cons_append, List.append_assoc, List.nil_append, List.cons.injEq,
    true_and] at passed
  refine ⟨before, inside ++ after, by simpa using whole, ?_, ?_⟩
  · rw [← passed, List.append_assoc, List.append_assoc, List.append_assoc, List.cons_append]
    exact Text.takeWhile_run (tag?_name read)
      (head_afterName tag.argument tag.body (rest ++ after))
  · have stands : printBody tag.body <:+: inside :=
      ⟨tag.name ++ printArgument tag.argument, '>' :: rest, by simpa using passed⟩
    refine List.IsInfix.trans ?_ (stands.trans (List.prefix_append inside after).isInfix)
    rw [Directive.bodyText]
    cases tag.body with
    | none => exact List.nil_infix
    | some body => exact (List.suffix_cons ':' body).isInfix

end Held

/-- Text in which no bracket opens a tag has no tags. -/
theorem directives_unopened {text : Text} (unopened : '<' ∉ text) :
    (ofText text).directives = [] := by
  rw [List.eq_nil_iff_forall_not_mem]
  intro tag member
  obtain ⟨before, rest, whole, -⟩ := (holds_of_mem_directives member).begins
  apply unopened
  rw [← whole]
  simp

end Template

/-- The options of a body are parts of it. -/
theorem Directives.hasPart_options {body option : Text} (member : option ∈ options body) :
    HasPart body option :=
  hasPart_splitTopLevel [] '|' (by decide) member

/-- The parts of an edit or an alternation are parts of its body. -/
theorem Directives.hasPart_parts {body part : Text} (member : part ∈ parts body) :
    HasPart body part :=
  hasPart_splitTopLevel ['|'] '|' (by decide) member

/-- The name of a wildcard is a part of the body that states it. -/
theorem Directives.hasPart_name (body : Text) : HasPart body (nameAndFilter body).1 := by
  rw [nameAndFilter]
  split
  · next cut => exact (hasPart_cut [] ':' (by decide) cut).1
  · exact .refl body

/-- The value of a choice is a part of the text that the choice is written as. -/
theorem Choice.hasPart_value (text : Text) : HasPart text (ofText text).value := by
  rw [ofText]
  cases cut : cutTopLevel? "::" Brackets.tags text with
  | none => exact .refl text
  | some sides =>
    obtain ⟨options, value⟩ := sides
    cases read : clause? options with
    | none =>
      simp only [Option.bind_eq_bind, Option.bind_some, read, Option.bind_none, Option.getD_none]
      exact .refl text
    | some clause =>
      simp only [Option.bind_eq_bind, Option.bind_some, read, Option.pure_def, Option.getD_some]
      exact (hasPart_cut [':'] ':' (by decide) cut).2

end DynamicPrompt
