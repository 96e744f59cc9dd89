import DynamicPrompt.Report

/-!
# Command tags

A block command stands in tags of its own: an opener `<ppp:keyword arguments>` and a closer
`<ppp:/keyword>`. Keywords of openers are read in any case, closers are written in small
letters only.

Two scans run over the text after an opener. One looks for the closer that balances it,
counting the openers of the same keyword. The other cuts the inside of a conditional block
at the branch markers that belong to it, skipping those of the blocks inside.
-/

namespace DynamicPrompt.Source

/-- The start of every command. -/
def commandStart : Text := "<ppp:"

/-- The closer of a keyword. -/
def closerOf (keyword : Text) : Text := "<ppp:/" ++ keyword ++ ">"

/-- A closer takes at least the characters around its keyword. -/
theorem closerOf_length (keyword : Text) : (closerOf keyword).length = keyword.length + 7 := by
  have parts : closerOf keyword = "<ppp:/".toList ++ (keyword ++ ">".toList) :=
    List.append_assoc _ _ _
  have front : "<ppp:/".toList.length = 6 := rfl
  have back : ">".toList.length = 1 := rfl
  rw [parts, List.length_append, List.length_append, front, back]
  omega

/-- The opening tag of a command: its keyword in small letters, its arguments with the
blank before them, and the tag as it was written. -/
structure Opener where
  keyword : Text
  arguments : Text
  written : Text
deriving DecidableEq, Repr

/-- The opening tag that a text begins with, and what follows it. A blank separates the
arguments from the keyword. -/
def opener? (text : Text) : Option (Opener × Text) :=
  match Text.after? commandStart text with
  | none => none
  | some inside =>
    let keyword := inside.takeWhile Char.isAlpha
    match Text.cutAt? (· == '>') (inside.dropWhile Char.isAlpha) with
    | none => none
    | some (arguments, rest) =>
      let separated := match arguments with
        | [] => true
        | c :: _ => isBlank c
      if !keyword.isEmpty && separated then
        some (⟨keyword.map Char.toLower, arguments,
          commandStart ++ keyword ++ arguments ++ ['>']⟩, rest)
      else none

/-- A cut keeps everything but the character at which it was made. -/
theorem cutAt?_length {test : Char → Bool} {text before after : Text}
    (cut : Text.cutAt? test text = some (before, after)) : after.length < text.length := by
  induction text generalizing before with
  | nil => simp [Text.cutAt?] at cut
  | cons c rest inductionHypothesis =>
    unfold Text.cutAt? at cut
    split at cut
    · obtain ⟨rfl, rfl⟩ := Prod.mk.inj (Option.some.inj cut)
      exact Nat.lt_succ_self _
    · obtain ⟨⟨first, second⟩, inside, same⟩ := Option.map_eq_some_iff.1 cut
      obtain ⟨rfl, rfl⟩ := Prod.mk.inj same
      exact Nat.lt_succ_of_lt (inductionHypothesis inside)

/-- What follows an opening tag is shorter than the text that begins with it. -/
theorem opener?_length {text rest : Text} {opener : Opener}
    (opens : opener? text = some (opener, rest)) : rest.length < text.length := by
  unfold opener? at opens
  split at opens
  · simp at opens
  · next inside begins =>
    split at opens
    · simp at opens
    · next arguments others cut =>
      simp only [Option.ite_none_right_eq_some, Option.some.injEq, Prod.mk.injEq] at opens
      obtain ⟨_, _, rfl⟩ := opens
      have shorter := cutAt?_length cut
      have dropped := (List.dropWhile_sublist (l := inside) Char.isAlpha).length_le
      rw [Text.after?_eq_some_iff.1 begins, List.length_append]
      omega

/-- What a text is cut into by the closer that balances an opener already passed, `depth`
openers of the keyword having been passed since. -/
def balanced? (keyword : Text) (depth : Nat) : Text → Option (Text × Text)
  | [] => none
  | c :: rest =>
    match _closes : Text.after? (closerOf keyword) (c :: rest) with
    | some after =>
      match depth with
      | 0 => some ([], after)
      | outer + 1 =>
        (balanced? keyword outer after).map fun parts => (closerOf keyword ++ parts.1, parts.2)
    | none =>
      match _opens : opener? (c :: rest) with
      | some (opener, after) =>
        if opener.keyword = keyword then
          (balanced? keyword (depth + 1) after).map fun parts =>
            (opener.written ++ parts.1, parts.2)
        else (balanced? keyword depth rest).map fun parts => (c :: parts.1, parts.2)
      | none => (balanced? keyword depth rest).map fun parts => (c :: parts.1, parts.2)
termination_by text => text.length
decreasing_by
  · rw [Text.after?_eq_some_iff.1 _closes, List.length_append, closerOf_length]
    omega
  · exact opener?_length _opens
  · exact Nat.lt_succ_self _
  · exact Nat.lt_succ_self _

/-- The text up to the first branch marker of a conditional block, and for each of its
markers the condition, missing in the last resort, with the text up to the next marker.
Markers of blocks inside, `depth` of which are open, belong to those. -/
def branches (depth : Nat) : Text → Text × List (Option Text × Text)
  | [] => ([], [])
  | c :: rest =>
    match _opens : opener? (c :: rest) with
    | some (opener, after) =>
      if depth = 0 ∧ (opener.keyword = "elif".toList ∨ opener.keyword = "else".toList) then
        let (text, others) := branches 0 after
        let condition :=
          if opener.keyword = "elif".toList then some opener.arguments else none
        ([], (condition, text) :: others)
      else
        let inside := if opener.keyword = "if".toList then depth + 1 else depth
        let (text, others) := branches inside after
        (opener.written ++ text, others)
    | none =>
      let closes := (Text.after? (closerOf "if") (c :: rest)).isSome
      let (text, others) := branches (if closes then depth - 1 else depth) rest
      (c :: text, others)
termination_by text => text.length
decreasing_by
  · exact opener?_length _opens
  · exact opener?_length _opens
  · exact Nat.lt_succ_self _

end DynamicPrompt.Source
