import DynamicPrompt.Proofs.Delimiter.Grouped

/-!
# Separators in texts without brackets

A separator of several characters may be found earlier than where it was put. It may occur in the
text before it, or begin there and end with characters of the separator that was put; in both
cases it occurs in that text with the separator's characters but the last behind it. Where it does
not, splitting finds the separator that was put and nothing before it.
-/

namespace DynamicPrompt

section Texts

variable {separator text : Text}

/-- A text with all characters of a separator but the last is the start of the text with the
separator and whatever follows it. -/
theorem prefix_dropLast (separator text after : Text) :
    text ++ separator.dropLast <+: text ++ (separator ++ after) := by
  rw [List.prefix_append_right_inj]
  exact (List.dropLast_prefix separator).trans (List.prefix_append separator after)

/-- A text in which a separator occurs has a first occurrence, before which none even begins. -/
theorem exists_first_occurrence (filled : separator ≠ []) (occurs : separator <:+: text) :
    ∃ before after, before ++ (separator ++ after) = text ∧
      ¬ separator <:+: before ++ separator.dropLast := by
  have shorter : separator.dropLast.length < separator.length := by
    rw [List.length_dropLast]
    have positive := List.length_pos_iff.2 filled
    omega
  induction text with
  | nil => exact absurd (List.infix_nil.1 occurs) filled
  | cons c rest inductionHypothesis =>
    by_cases begins : separator <+: c :: rest
    · obtain ⟨after, whole⟩ := begins
      refine ⟨[], after, whole, ?_⟩
      intro inside
      exact Nat.not_lt.2 inside.length_le shorter
    · have later : separator <:+: rest := (List.infix_cons_iff.1 occurs).resolve_left begins
      obtain ⟨before, after, rfl, first⟩ := inductionHypothesis later
      refine ⟨c :: before, after, rfl, ?_⟩
      intro inside
      rcases List.infix_cons_iff.1 inside with starts | within
      · exact begins (starts.trans (prefix_dropLast separator (c :: before) after))
      · exact first within

/-- A text that does not begin with a pattern has nothing after it. -/
theorem Text.after?_eq_none {pattern : Text} (other : ¬ pattern <+: text) :
    after? pattern text = none := by
  cases found : after? pattern text with
  | none => rfl
  | some rest => exact absurd ⟨rest, (after?_eq_some_iff.1 found).symm⟩ other

end Texts

section Splitting

variable {brackets : Brackets} {mark : Char} {more text : Text}

/-- The search finds no separator where none occurs. -/
theorem topLevelFrom?_lacking (free : ∀ c ∈ text, ¬ brackets.Mentions c ∧ c ≠ '\\')
    (lacking : ¬ mark :: more <:+: text) :
    topLevelFrom? (mark :: more) brackets brackets.closed false text = none := by
  induction text with
  | nil => rw [topLevelFrom?]
  | cons c rest inductionHypothesis =>
    obtain ⟨unmentioned, unescaping⟩ := free c List.mem_cons_self
    have missed : Text.after? (mark :: more) (c :: rest) = none :=
      Text.after?_eq_none fun begins => lacking begins.isInfix
    rw [topLevelFrom?_onward unescaping fun _ => missed, step_unmentioned unmentioned,
      inductionHypothesis (fun d member => free d (List.mem_cons_of_mem c member))
        fun inside => lacking (List.infix_cons inside)]
    rfl

variable {bare : Char → Prop} (unmentioned : ¬ brackets.Mentions mark)
  (grouped : Grouped brackets bare text)
  (apart : ¬ mark :: more <:+: text ++ (mark :: more).dropLast) (after : Text)

include unmentioned grouped apart

/-- The search passes a grouped text in which no separator even begins before the one that was
put. -/
theorem topLevelFrom?_apart :
    topLevelFrom? (mark :: more) brackets brackets.closed false (text ++ (mark :: more ++ after)) =
      some (text, mark :: more ++ after) := by
  induction grouped with
  | nil => exact topLevelFrom?_here after
  | @char _ c rest _ plain unescaping _ inductionHypothesis =>
    have missed : Text.after? (mark :: more) (c :: (rest ++ (mark :: more ++ after))) = none := by
      apply Text.after?_eq_none
      intro begins
      -- The occurrence is over before the last character of the separator that was put.
      have within : mark :: more <+: c :: (rest ++ (mark :: more).dropLast) := by
        apply List.prefix_of_prefix_length_le begins (prefix_dropLast _ (c :: rest) after)
        simp only [List.length_cons, List.length_append, List.length_dropLast]
        omega
      exact apart within.isInfix
    rw [List.cons_append, topLevelFrom?_onward unescaping fun _ => missed, step_unmentioned plain,
      inductionHypothesis fun inside => apart (List.infix_cons inside)]
    rfl
  | @group _ opener closer inner rest pair inside _ _ passRest =>
    have counted : brackets.closed.length = brackets.openers.length := List.length_map ..
    have pairs : Grouped brackets (fun _ => False) (opener :: (inner ++ [closer])) :=
      .group pair inside .nil
    have whole : opener :: (inner ++ closer :: rest) = (opener :: (inner ++ [closer])) ++ rest := by
      simp
    rw [whole, List.append_assoc] at apart ⊢
    rw [topLevelFrom?_grouped counted unmentioned pairs fun _ _ impossible => impossible.elim,
      passRest fun inside => apart (inside.trans (List.suffix_append _ _).isInfix)]
    rfl

/-- The text before a separator is cut off if no separator even begins in it. -/
theorem cutTopLevelFrom?_apart :
    cutTopLevelFrom? (mark :: more) brackets false (text ++ (mark :: more ++ after)) =
      some (text, after) := by
  rw [cutTopLevelFrom?, topLevelFrom?_apart unmentioned grouped apart]
  simp

omit unmentioned grouped apart in
/-- Splitting yields at least one part. -/
theorem splitTopLevelFrom_ne_nil (separator : Text) (brackets : Brackets) (escaped : Bool)
    (text : Text) : splitTopLevelFrom separator brackets escaped text ≠ [] := by
  cases cut : cutTopLevelFrom? separator brackets escaped text with
  | none =>
    rw [splitTopLevelFrom_missed cut]
    exact List.cons_ne_nil _ _
  | some parts =>
    rw [splitTopLevelFrom_found cut]
    exact List.cons_ne_nil _ _

end Splitting

end DynamicPrompt
