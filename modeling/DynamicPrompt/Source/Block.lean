import DynamicPrompt.Numeral.Word
import DynamicPrompt.Source.Command
import DynamicPrompt.Source.Condition
import DynamicPrompt.Source.Marker
import DynamicPrompt.Source.Variable

/-!
# Block commands

A block command sets a variable, reads one with a fallback, chooses between branches or adds
to the negative prompt. Conditional and negative blocks end at the closer that balances the
openers of their own keyword; the other two end at the first closer. A block that is not
complete, or whose arguments cannot be read, stays as it is, and the reading goes on after
its opening tag.
-/

namespace DynamicPrompt.Source

/-- A block command that is complete. -/
inductive Block where
  | set (name : Text) (mode : AssignMode) (immediate : Bool) (value : Text)
  | echo (name : Text) (fallback : Option Text)
  | choose (branches : List (Option Text × Text))
  | negative (atEnd : Bool) (content : Text)
deriving DecidableEq, Repr

namespace Block

/-- The modifiers of an assignment: at once, adding, only if undefined. -/
structure Modifiers where
  evaluate : Bool
  add : Bool
  ifUndefined : Bool

/-- The modifiers that some words name, and a warning for each other word. -/
def modifiersOf : List Text → Modifiers × Warnings
  | [] => (⟨false, false, false⟩, [])
  | word :: words =>
    let (others, warnings) := modifiersOf words
    let word := Text.lower word
    if word = "evaluate".toList then ({ others with evaluate := true }, warnings)
    else if word = "add".toList then ({ others with add := true }, warnings)
    else if word = "ifundefined".toList then ({ others with ifUndefined := true }, warnings)
    else (others, .unknownModifier word :: warnings)

/-- What reading a block yields: the block with the text after it, if it is complete, and
the warnings raised. -/
abbrev Reading := Option (Block × Text) × Warnings

/-- The reading of an assignment. -/
def readSet (arguments rest : Text) : Reading :=
  match Text.words arguments with
  | [] => (none, [])
  | name :: words =>
    let (modifiers, warnings) := modifiersOf words
    if modifiers.add && modifiers.ifUndefined then
      (none, warnings ++ [.addAndIfUndefined name])
    else
      let mode := if modifiers.add then AssignMode.add
        else if modifiers.ifUndefined then AssignMode.ifUndefined
        else AssignMode.set
      let found := (Text.cutAround? (closerOf "set") rest).map fun parts =>
        (Block.set name mode modifiers.evaluate parts.1, parts.2)
      (found, warnings)

/-- The reading of a variable's reading. Without a closer of its own it has no fallback and
ends with its opening tag. -/
def readEcho (arguments rest : Text) : Reading :=
  let name := Text.trim arguments
  if name.isEmpty then (none, [])
  else
    match Text.cutAround? (closerOf "echo") rest with
    | none => (some (.echo name none, rest), [])
    | some (fallback, after) =>
      if Text.occursIn "<ppp:echo" fallback then (some (.echo name none, rest), [])
      else (some (.echo name (some fallback), after), [])

/-- The reading of a conditional block. The conditions after the first are looked at only
if the block is complete. -/
def readIf (arguments rest : Text) : Reading :=
  match Condition.compile arguments with
  | (none, warnings) => (none, warnings)
  | (some condition, warnings) =>
    match balanced? "if" 0 rest with
    | none => (none, warnings)
    | some (body, after) =>
      let (first, others) := branches 0 body
      let (conditions, further) := Condition.compileAll (others.map (·.1))
      let found := conditions.map fun conditions =>
        (Block.choose ((some condition, first) :: conditions.zip (others.map (·.2))), after)
      (found, warnings ++ further)

/-- Whether a position names an insertion point. -/
def isInsertionPoint : Text → Bool
  | 'p' :: digits => Numeral.isDigits digits
  | _ => false

/-- The reading of an addition to the negative prompt. -/
def readNegative (arguments rest : Text) : Reading :=
  match balanced? "stn" 0 rest with
  | none => (none, [])
  | some (content, after) =>
    let position := Text.lower (Text.trim arguments)
    if position = [] ∨ position = ['s'] then (some (.negative false content, after), [])
    else if position = ['e'] then (some (.negative true content, after), [])
    else if isInsertionPoint position then
      (some (.negative true content, after), [.insertionPoint position])
    else (some (.negative false content, after), [.unknownPosition position])

/-- The reading of the block that an opening tag begins. -/
def read (opener : Opener) (rest : Text) : Reading :=
  if opener.keyword = "set".toList then readSet opener.arguments rest
  else if opener.keyword = "echo".toList then readEcho opener.arguments rest
  else if opener.keyword = "if".toList then readIf opener.arguments rest
  else if opener.keyword = "stn".toList then readNegative opener.arguments rest
  else (none, [])

/-- What follows a pattern found in a text is no longer than the text. -/
theorem cutAround?_length {pattern text before after : Text}
    (cut : Text.cutAround? pattern text = some (before, after)) :
    after.length ≤ text.length := by
  induction text generalizing before with
  | nil =>
    unfold Text.cutAround? at cut
    split at cut
    · obtain ⟨rfl, rfl⟩ := Prod.mk.inj (Option.some.inj cut)
      exact Nat.le_refl _
    · simp at cut
  | cons c rest inductionHypothesis =>
    unfold Text.cutAround? at cut
    split at cut
    · next found begins =>
      obtain ⟨rfl, rfl⟩ := Prod.mk.inj (Option.some.inj cut)
      rw [Text.after?_eq_some_iff.1 begins, List.length_append]
      omega
    · obtain ⟨⟨first, second⟩, inside, same⟩ := Option.map_eq_some_iff.1 cut
      obtain ⟨rfl, rfl⟩ := Prod.mk.inj same
      exact Nat.le_succ_of_le (inductionHypothesis inside)

/-- What follows the balancing closer is no longer than the text. -/
theorem balanced?_length {keyword text inner after : Text} {depth : Nat}
    (found : balanced? keyword depth text = some (inner, after)) :
    after.length ≤ text.length := by
  induction size : text.length using Nat.strongRecOn generalizing text depth inner with
  | ind size' inductionHypothesis =>
    subst size
    have onward : ∀ (front : Text) {depth : Nat} {shorter : Text},
        shorter.length < text.length →
        (balanced? keyword depth shorter).map (fun parts => (front ++ parts.1, parts.2)) =
          some (inner, after) → after.length ≤ text.length := by
      intro front depth shorter less mapped
      obtain ⟨⟨first, second⟩, inside, same⟩ := Option.map_eq_some_iff.1 mapped
      obtain ⟨rfl, rfl⟩ := Prod.mk.inj same
      exact Nat.le_trans (inductionHypothesis _ less inside rfl) (Nat.le_of_lt less)
    cases text with
    | nil => simp [balanced?] at found
    | cons c rest =>
      have stepped : rest.length < (c :: rest).length := Nat.lt_succ_self _
      unfold balanced? at found
      split at found
      · next beyond closes =>
        have less : beyond.length < (c :: rest).length := by
          rw [Text.after?_eq_some_iff.1 closes, List.length_append, closerOf_length]
          omega
        split at found
        · obtain ⟨rfl, rfl⟩ := Prod.mk.inj (Option.some.inj found)
          exact Nat.le_of_lt less
        · exact onward _ less found
      · split at found
        · next opener beyond opens =>
          split at found
          · exact onward _ (opener?_length opens) found
          · exact onward [c] stepped found
        · exact onward [c] stepped found

/-- What follows a block is no longer than the text after its opening tag. -/
theorem read_length {opener : Opener} {rest after : Text} {block : Block}
    (complete : (read opener rest).1 = some (block, after)) : after.length ≤ rest.length := by
  unfold read at complete
  split at complete
  · unfold readSet at complete
    split at complete
    · simp at complete
    · dsimp only at complete
      split at complete
      · simp at complete
      · obtain ⟨⟨first, second⟩, inside, same⟩ := Option.map_eq_some_iff.1 complete
        obtain ⟨_, rfl⟩ := Prod.mk.inj same
        exact cutAround?_length inside
  · split at complete
    · unfold readEcho at complete
      dsimp only at complete
      split at complete
      · simp at complete
      · split at complete
        · obtain ⟨_, rfl⟩ := Prod.mk.inj (Option.some.inj complete)
          exact Nat.le_refl _
        · next fallback beyond cut =>
          split at complete
          · obtain ⟨_, rfl⟩ := Prod.mk.inj (Option.some.inj complete)
            exact Nat.le_refl _
          · obtain ⟨_, rfl⟩ := Prod.mk.inj (Option.some.inj complete)
            exact cutAround?_length cut
    · split at complete
      · unfold readIf at complete
        split at complete
        · simp at complete
        · split at complete
          · simp at complete
          · next body beyond found =>
            obtain ⟨conditions, _, same⟩ := Option.map_eq_some_iff.1 complete
            obtain ⟨_, rfl⟩ := Prod.mk.inj same
            exact balanced?_length found
      · split at complete
        · unfold readNegative at complete
          split at complete
          · simp at complete
          · next content beyond found =>
            have same : after = beyond := by
              dsimp only at complete
              split at complete
              · exact (Prod.mk.inj (Option.some.inj complete)).2.symm
              · split at complete
                · exact (Prod.mk.inj (Option.some.inj complete)).2.symm
                · split at complete
                  · exact (Prod.mk.inj (Option.some.inj complete)).2.symm
                  · exact (Prod.mk.inj (Option.some.inj complete)).2.symm
            rw [same]
            exact balanced?_length found
        · simp at complete

/-- A text left as it is. -/
def plainPieces (text : Text) : List (Piece Block) := text.map Piece.plain

/-- The pieces of a line with its complete blocks. The opening tag of a block that is not
complete is passed as a whole. -/
def pieces : Text → List (Piece Block)
  | [] => []
  | c :: rest =>
    match _opens : opener? (c :: rest) with
    | none => .plain c :: pieces rest
    | some (opener, inside) =>
      let reading := read opener inside
      reading.2.map Piece.notice ++
        match _complete : reading.1 with
        | some (block, after) => .found block :: pieces after
        | none => plainPieces opener.written ++ pieces inside
termination_by text => text.length
decreasing_by
  · exact Nat.lt_succ_self _
  · exact Nat.lt_of_le_of_lt (read_length _complete) (opener?_length _opens)
  · exact opener?_length _opens

/-- The directive of one branch, whose condition is missing in the last resort. -/
def caseDirective (condition : Option Text) (text : Text) : Text :=
  match condition with
  | some condition => "<wccase[" ++ condition ++ "]:" ++ text ++ ">"
  | none => "<wccase:" ++ text ++ ">"

/-- The directives of a block. -/
def write (pass : Pass) : Block → Reporting Text
  | set name mode evaluate value => return assignDirectives name (← pass.filled value) mode evaluate
  | echo name none => pure (readDirectives name [])
  | echo name (some fallback) => return readDirectives name (← pass.nested fallback)
  | choose branches => do
    let cases ← branches.mapM fun branch => return caseDirective branch.1 (← pass.filled branch.2)
    return "<wcmatch:".toList ++ cases.flatten ++ ">".toList
  | negative true content => return "<wcnegative:, " ++ (← pass.nested content) ++ ">"
  | negative false content => return "<wcnegative[prepend]:" ++ (← pass.nested content) ++ ", >"

end Block

/-- The line with its block commands rewritten. -/
def Block.rewrite (pass : Pass) (line : Text) : Reporting Text := do
  let (text, markers) := withoutMarkers line
  markers.forM fun marker => warn (.markerRemoved marker)
  writePieces (Block.write pass) (Block.pieces text)

end DynamicPrompt.Source
