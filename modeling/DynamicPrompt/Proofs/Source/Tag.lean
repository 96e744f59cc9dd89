import DynamicPrompt.Proofs.Delimiter.Grouped
import DynamicPrompt.Source.Basic

/-!
# Readers that skip tags

Several passes read a line under a cursor and keep every character at which nothing is free.
Inside a tag nothing is free, whatever the reader looks for, so every such reader passes a whole
tag character by character and is outside again behind it. The laws speak of any reader that
keeps the characters at which nothing is free.
-/

namespace DynamicPrompt.Source

/-- A reader keeps every character at which nothing is free. -/
def KeepsHeld {α : Type} (read : Cursor → Text → List α) (keep : Char → α) : Prop :=
  ∀ cursor c rest, Cursor.isFree cursor c = false →
    read cursor (c :: rest) = keep c :: read (cursor.after c) rest

/-- Inside a tag nothing is free. -/
theorem isFree_inside (depth : Nat) (escaped : Bool) (last : Option Char) (c : Char) :
    Cursor.isFree ⟨depth + 1, escaped, last⟩ c = false := by
  simp [Cursor.isFree, standsOutside]

/-- The start of a tag is never free. -/
theorem isFree_opening (cursor : Cursor) : cursor.isFree '<' = false := rfl

/-- A character that is no angle bracket leaves the tag depth as it is. -/
theorem tagDepthAfter_unmentioned {c : Char} (unmentioned : ¬ Brackets.tags.Mentions c)
    (depth : Nat) : tagDepthAfter depth c = depth := by
  have noOpener : c ≠ '<' := fun same => unmentioned (.inl (by simp [same, Brackets.tags]))
  have noCloser : c ≠ '>' := fun same => unmentioned (.inr (by simp [same, Brackets.tags]))
  rw [tagDepthAfter, if_neg noOpener, if_neg noCloser]

/-- Texts whose angle brackets are nested pairs. The readers count them without regard to escapes. -/
inductive Angled : Text → Prop where
  | nil : Angled []
  | char {c : Char} {rest : Text} (noOpener : c ≠ '<') (noCloser : c ≠ '>')
      (others : Angled rest) : Angled (c :: rest)
  | pair {inner rest : Text} (inside : Angled inner) (others : Angled rest) :
      Angled ('<' :: (inner ++ '>' :: rest))

/-- In a grouped text the angle brackets are nested pairs. -/
theorem Angled.of_grouped {bare : Char → Prop} {text : Text}
    (grouped : Grouped Brackets.tags bare text) : Angled text := by
  induction grouped with
  | nil => exact .nil
  | char _ unmentioned _ _ inductionHypothesis =>
    exact .char (fun same => unmentioned (.inl (by simp [same, Brackets.tags])))
      (fun same => unmentioned (.inr (by simp [same, Brackets.tags]))) inductionHypothesis
  | group pair _ _ inside others =>
    obtain rfl := List.mem_singleton.1 pair.opens
    obtain rfl := ((Brackets.Known.angle (.inl rfl)).unique pair).1 rfl
    exact .pair inside others

section Readers

variable {α : Type} {read : Cursor → Text → List α} {keep : Char → α} {inner : Text}

/-- Inside a tag every character is kept, and behind nested pairs the same tags are open. -/
theorem KeepsHeld.inside (keeps : KeepsHeld read keep) (angled : Angled inner) (depth : Nat)
    (escaped : Bool) (last : Option Char) (rest : Text) :
    ∃ escaped' last', read ⟨depth + 1, escaped, last⟩ (inner ++ rest) =
      inner.map keep ++ read ⟨depth + 1, escaped', last'⟩ rest := by
  induction angled generalizing depth escaped last rest with
  | nil => exact ⟨escaped, last, rfl⟩
  | @char c _ noOpener noCloser _ inductionHypothesis =>
    obtain ⟨escaped', last', passed⟩ :=
      inductionHypothesis depth (escapes escaped c) (some c) rest
    have after : Cursor.after ⟨depth + 1, escaped, last⟩ c =
        ⟨depth + 1, escapes escaped c, some c⟩ := by
      simp [Cursor.after, tagDepthAfter, noOpener, noCloser]
    refine ⟨escaped', last', ?_⟩
    rw [List.cons_append, keeps _ _ _ (isFree_inside ..), after, passed]
    rfl
  | @pair inner others _ _ passInner passOthers =>
    obtain ⟨held, last', passed⟩ :=
      passInner (depth + 1) false (some '<') ('>' :: (others ++ rest))
    obtain ⟨escaped', last'', passed'⟩ := passOthers depth false (some '>') rest
    have deeper : Cursor.after ⟨depth + 1, escaped, last⟩ '<' =
        ⟨depth + 1 + 1, false, some '<'⟩ := rfl
    have back : Cursor.after ⟨depth + 1 + 1, held, last'⟩ '>' = ⟨depth + 1, false, some '>'⟩ :=
      rfl
    refine ⟨escaped', last'', ?_⟩
    rw [List.cons_append, List.append_assoc, List.cons_append, keeps _ _ _ (isFree_inside ..),
      deeper, passed, keeps _ _ _ (isFree_inside ..), back, passed']
    simp

/-- A whole tag is kept as it stands, and behind it the reader is outside every tag. -/
theorem KeepsHeld.tag (keeps : KeepsHeld read keep) (angled : Angled inner) {cursor : Cursor}
    (outside : cursor.depth = 0) (rest : Text) :
    read cursor ('<' :: (inner ++ '>' :: rest)) =
      ('<' :: (inner ++ ['>'])).map keep ++ read ⟨0, false, some '>'⟩ rest := by
  obtain ⟨escaped, last, passed⟩ := keeps.inside angled 0 false (some '<') ('>' :: rest)
  have opened : cursor.after '<' = ⟨0 + 1, false, some '<'⟩ := by
    simp [Cursor.after, tagDepthAfter, escapes, outside]
  have closed : Cursor.after ⟨0 + 1, escaped, last⟩ '>' = ⟨0, false, some '>'⟩ := rfl
  rw [keeps _ _ _ (isFree_opening cursor), opened, passed, keeps _ _ _ (isFree_inside ..), closed]
  simp

end Readers

end DynamicPrompt.Source
