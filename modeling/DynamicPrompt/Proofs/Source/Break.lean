import DynamicPrompt.Proofs.Source.Tag
import DynamicPrompt.Proofs.Source.Untouched

/-!
# Texts without the break keyword

Putting a text together from parts makes a keyword only if the keyword has a character of what
stands between the parts. The marks of the other constructs are no such characters, so a text
made of constructs is free of the keyword exactly if its parts are.
-/

namespace DynamicPrompt

/-- A word at the start of a text ends before a character that it does not have. -/
theorem prefix_before {word front back : Text} {c : Char} (absent : c ∉ word)
    (begins : word <+: front ++ c :: back) : word <+: front := by
  by_cases short : word.length ≤ front.length
  · exact List.prefix_of_prefix_length_le begins (List.prefix_append front _) short
  · have whole : front ++ [c] <+: word := by
      refine List.prefix_of_prefix_length_le ⟨back, by simp⟩ begins ?_
      rw [List.length_append, List.length_singleton]
      omega
    exact absurd (whole.subset (by simp)) absent

/-- A character that a word does not have keeps the texts on its two sides apart. -/
theorem infix_around {word front back : Text} {c : Char} (absent : c ∉ word) :
    word <:+: front ++ c :: back ↔ word <:+: front ∨ word <:+: back := by
  constructor
  · intro inside
    induction front with
    | nil =>
      rcases List.infix_cons_iff.1 inside with begins | later
      · have starts : word <+: [] ++ c :: back := begins
        exact .inl (prefix_before absent starts).isInfix
      · exact .inr later
    | cons first front inductionHypothesis =>
      rcases List.infix_cons_iff.1 inside with begins | later
      · have starts : word <+: (first :: front) ++ c :: back := begins
        exact .inl (prefix_before absent starts).isInfix
      · rcases inductionHypothesis later with before | after
        · exact .inl (List.infix_cons before)
        · exact .inr after
  · rintro (before | after)
    · exact List.infix_append_of_infix_left before
    · exact List.infix_append_of_infix_right (List.infix_cons after)

namespace Source

/-- The keyword stands nowhere in the text, not even as a part of a word. -/
def Unbroken (text : Text) : Prop := ¬ breakWord <:+: text

instance (text : Text) : Decidable (Unbroken text) :=
  @instDecidableNot _ (List.instDecidableIsInfixOfDecidableEq breakWord text)

namespace Unbroken

/-- The empty text has no keyword. -/
theorem nil : Unbroken [] := by
  unfold Unbroken
  decide

/-- No part of a text without the keyword has it. -/
theorem part {text whole : Text} (unbroken : Unbroken whole) (inside : text <:+: whole) :
    Unbroken text := fun broken => unbroken (broken.trans inside)

/-- A character that the keyword does not have keeps the texts on its two sides apart. -/
theorem around {front back : Text} {c : Char} (absent : c ∉ breakWord) :
    Unbroken (front ++ c :: back) ↔ Unbroken front ∧ Unbroken back := by
  unfold Unbroken
  rw [infix_around absent, not_or]

/-- Characters that the keyword does not have add no keyword to the text after them. -/
theorem after {front back : Text} (absent : ∀ c ∈ front, c ∉ breakWord) (unbroken : Unbroken back) :
    Unbroken (front ++ back) := by
  induction front with
  | nil => exact unbroken
  | cons c front inductionHypothesis =>
    have others := inductionHypothesis fun d member => absent d (List.mem_cons_of_mem c member)
    have apart : Unbroken ([] ++ c :: (front ++ back)) ↔ Unbroken [] ∧ Unbroken (front ++ back) :=
      around (absent c List.mem_cons_self)
    exact apart.2 ⟨nil, others⟩

/-- Two brackets keep the keyword out of what they enclose and out of the rest, or do not. -/
theorem enclosed {opener closer : Char} {body rest : Text} (noOpener : opener ∉ breakWord)
    (noCloser : closer ∉ breakWord) :
    Unbroken (opener :: (body ++ closer :: rest)) ↔ Unbroken body ∧ Unbroken rest := by
  have front : Unbroken ([] ++ opener :: (body ++ closer :: rest)) ↔
      Unbroken [] ∧ Unbroken (body ++ closer :: rest) := around noOpener
  rw [List.nil_append] at front
  rw [front, around noCloser]
  exact and_iff_right nil

/-- The parts of a joined text without the keyword do not have it. -/
theorem parts {separator : Text} {parts : List Text}
    (unbroken : Unbroken (Text.join separator parts)) : ∀ part ∈ parts, Unbroken part :=
  fun _ member => unbroken.part (Text.infix_join member)

/-- Texts without the keyword have none when they are joined by a separator that shares no
character with it. -/
theorem join {c : Char} {separator : Text} {parts : List Text}
    (absent : ∀ d ∈ c :: separator, d ∉ breakWord) (each : ∀ part ∈ parts, Unbroken part) :
    Unbroken (Text.join (c :: separator) parts) := by
  apply Text.join_of_step nil _ each
  intro first rest front back
  rw [List.append_assoc, List.cons_append]
  apply (around (absent c List.mem_cons_self)).2
  constructor
  · exact front
  · exact after (fun d member => absent d (List.mem_cons_of_mem c member)) back

end Unbroken

/-- The keyword is marked only where it is free. -/
theorem markBreaks_keepsHeld : KeepsHeld markBreaks id := by
  intro cursor c rest held
  rw [markBreaks]
  split
  · rfl
  · rw [if_neg (by simp [held])]
    rfl

/-- Characters without the keyword are kept if what follows them cannot complete one, and they
leave the tag depth as it is if they are no angle brackets. -/
theorem markBreaks_run {run rest : Text} (unbroken : Unbroken run)
    (plain : ∀ c ∈ run, ¬ Brackets.tags.Mentions c) (apart : ∀ c ∈ rest.head?, c ∉ breakWord)
    (cursor : Cursor) :
    ∃ cursor', Cursor.depth cursor' = cursor.depth ∧
      markBreaks cursor (run ++ rest) = run ++ markBreaks cursor' rest := by
  induction run generalizing cursor with
  | nil => exact ⟨cursor, rfl, rfl⟩
  | cons c run inductionHypothesis =>
    have others := unbroken.part (List.suffix_cons c run).isInfix
    obtain ⟨cursor', depth, kept⟩ := inductionHypothesis others
      (fun d member => plain d (List.mem_cons_of_mem c member)) (cursor.after c)
    have still : (cursor.after c).depth = cursor.depth :=
      tagDepthAfter_unmentioned (plain c List.mem_cons_self) cursor.depth
    refine ⟨cursor', depth.trans still, ?_⟩
    rw [List.cons_append, markBreaks]
    split
    · rw [kept]
      rfl
    · next after begins =>
      have starts : breakWord <+: (c :: run) ++ rest :=
        ⟨after, (Text.after?_eq_some_iff.1 begins).symm⟩
      have within : breakWord <+: c :: run := by
        cases rest with
        | nil => rwa [List.append_nil] at starts
        | cons d rest => exact prefix_before (apart d rfl) starts
      exact absurd within.isInfix unbroken

end Source

end DynamicPrompt
