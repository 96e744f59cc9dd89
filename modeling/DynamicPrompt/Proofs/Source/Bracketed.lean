import DynamicPrompt.Proofs.Source.Choices
import DynamicPrompt.Proofs.Source.Constructless
import DynamicPrompt.Proofs.Source.Plain

/-!
# Edits and alternations of plain parts

Square brackets around plain parts become one tag, which the passes after that over square
brackets leave alone. The tag is read back as the parts that were put into it: the step of an edit
is its argument, and the other parts stand in its body between double bars, whatever bars they
have themselves.
-/

namespace DynamicPrompt.Source

/-- The line of an edit from one text to another at a step. -/
def editLine (first second step : Text) : Text :=
  "[" ++ first ++ ":" ++ second ++ ":" ++ step ++ "]"

/-- The line of an alternation of some texts. -/
def alternationLine (options : List Text) : Text := "[" ++ Text.join "|" options ++ "]"

/-- The tag of an edit. -/
def editTag (first second step : Text) : Directive :=
  ⟨"fromto", some (orEmpty step), some (orEmpty first ++ "||".toList ++ orEmpty second)⟩

/-- The tag of an alternation. -/
def alternationTag (options : List Text) : Directive :=
  ⟨"alternate", none, some (Text.join "||" (options.map orEmpty))⟩

/-- A line in square brackets of which only colons are marks becomes the tag that is written for
what stands between the brackets.

The brackets are one construct, and the tag is passed by what follows. -/
theorem transpile_bracketed {transpiler : Transpiler} {levels : Nat} {content inner : Text}
    (limit : transpiler.limit = levels + 1)
    (marked : MarkedOnly ':' content)
    (written : Bracketed.write ⟨transpiler, transpiler.rewriteWithin levels⟩ content =
      pure ('<' :: (inner ++ ['>'])))
    (grouped : Grouped Brackets.tags (fun _ => True) inner) :
    transpiler.transpile ('[' :: (content ++ [']'])) = pure ('<' :: (inner ++ ['>'])) := by
  have pair : Brackets.all.Pair '[' ']' := by constructor <;> decide
  have contentGrouped : Grouped Brackets.all (fun _ => True) content :=
    marked.grouped (by decide) (.inr (.inr rfl))
  have construct : Rewritten (Bracketed.write ⟨transpiler, transpiler.rewriteWithin levels⟩)
      '[' ']' none ('[' :: (content ++ [']'])) ('<' :: (inner ++ ['>']) ++ []) :=
    .construct (enclosed?_grouped pair contentGrouped) written .nil
  rw [List.append_nil] at construct
  have unbroken : markBreaks Cursor.start ('<' :: (inner ++ ['>'])) = '<' :: (inner ++ ['>']) := by
    rw [markBreaks_keepsHeld.tag (.of_grouped grouped) rfl, markBreaks, List.map_id, List.append_nil]
  exact marked.transpile_construct (by decide) (by decide) limit construct unbroken
    (.tag grouped .nil)

/-- The text between double bars is grouped if it stands for plain parts. -/
theorem grouped_parts {parts : List Text} (each : ∀ part ∈ parts, Plain part) :
    Grouped Brackets.tags (fun _ => True) (Text.join "||" (parts.map orEmpty)) := by
  apply Grouped.join (.of_unmentioned (by decide))
  rw [List.forall_mem_map]
  exact fun part member => (each part member).grouped_orEmpty (.inl rfl) fun _ _ => trivial

/-- The tag of an edit as it is printed. -/
theorem print_editTag (first second step : Text) :
    (editTag first second step).print =
      '<' :: (("fromto".toList ++ '[' :: (orEmpty step ++ ']' :: ':' ::
        (orEmpty first ++ "||".toList ++ orEmpty second))) ++ ['>']) :=
  Template.print_full _ _ _

/-- The tag of an alternation as it is printed. -/
theorem print_alternationTag (options : List Text) :
    (alternationTag options).print =
      '<' :: (("alternate".toList ++ ':' :: Text.join "||" (options.map orEmpty)) ++ ['>']) :=
  Template.print_bodied _ _

section Edits

variable {first second step : Text}

/-- What is said of two texts and a step is said of each of them. -/
theorem forall_mem_edit {holds : Text → Prop} (ofFirst : holds first) (ofSecond : holds second)
    (ofStep : holds step) : ∀ part ∈ [first, second, step], holds part := by
  intro part member
  simp only [List.mem_cons, List.not_mem_nil, or_false] at member
  rcases member with rfl | rfl | rfl <;> assumption

/-- The body of an edit's tag is put together from its two texts. -/
theorem editTag_body (first second : Text) :
    orEmpty first ++ "||".toList ++ orEmpty second =
      Text.join "||" ([first, second].map orEmpty) := by
  simp [Text.join, List.intercalate_cons_cons]

/-- The text between square brackets that consists of three plain parts and the colons between
them is an edit. -/
theorem Bracketed.write_edit (plainFirst : Plain first) (plainSecond : Plain second)
    (plainStep : Plain step) (transpiler : Transpiler) (levels : Nat) :
    Bracketed.write ⟨transpiler, transpiler.rewriteWithin (levels + 1)⟩
      (Text.join ":" [first, second, step]) = pure (editTag first second step).print := by
  have grouped : ∀ part ∈ [first, second, step], Grouped Brackets.all (· ≠ ':') part := by
    intro part member
    have plain : Plain part := forall_mem_edit plainFirst plainSecond plainStep part member
    exact plain.grouped (.inr (.inr rfl)) fun c inside => plain.ne inside (by decide)
  have parted : splitTopLevel ":" Brackets.all (Text.join ":" [first, second, step]) =
      [first, second, step] :=
    splitTopLevel_join (List.cons_ne_nil _ _) (by decide) (by decide) grouped fun _ bare => bare
  have edit : Bracketed.ofText (Text.join ":" [first, second, step]) =
      .edit first second step := by
    rw [Bracketed.ofText, parted]
  rw [Bracketed.write, edit]
  dsimp only
  rw [plainFirst.filled, pure_bind, plainSecond.filled, pure_bind, plainStep.filled, pure_bind,
    print_editTag]
  simp

/-- The line of an edit of plain parts becomes its tag. -/
theorem transpile_editLine {transpiler : Transpiler} (nested : 2 ≤ transpiler.limit)
    (plainFirst : Plain first) (plainSecond : Plain second) (plainStep : Plain step) :
    transpiler.transpile (editLine first second step) = pure (editTag first second step).print := by
  obtain ⟨levels, limit⟩ := Nat.exists_eq_add_of_le' nested
  have each := forall_mem_edit plainFirst plainSecond plainStep
  have halves : ∀ part ∈ [first, second], Plain part := by
    intro part member
    exact each part (List.mem_append_left [step] member)
  have line : editLine first second step =
      '[' :: (Text.join ":" [first, second, step] ++ [']']) := by
    simp [editLine, Text.join, List.intercalate_cons_cons]
  have grouped : Grouped Brackets.tags (fun _ => True)
      ("fromto".toList ++ '[' :: (orEmpty step ++ ']' :: ':' :: (orEmpty first ++ "||".toList ++
        orEmpty second))) := by
    have name : Grouped Brackets.tags (fun _ => True) ("fromto".toList ++ ['[']) :=
      .of_unmentioned (by decide)
    have closed : Grouped Brackets.tags (fun _ => True) [']', ':'] := .of_unmentioned (by decide)
    have argument : Grouped Brackets.tags (fun _ => True) (orEmpty step) :=
      plainStep.grouped_orEmpty (.inl rfl) fun _ _ => trivial
    have body := grouped_parts halves
    rw [← editTag_body] at body
    have whole := ((name.append argument).append closed).append body
    rwa [List.append_assoc, List.append_assoc, List.append_assoc] at whole
  have written := Bracketed.write_edit plainFirst plainSecond plainStep transpiler levels
  rw [print_editTag] at written ⊢
  rw [line]
  exact transpile_bracketed limit (.join (by decide) each) written grouped

/-- The tag of an edit of plain parts is read as that tag. -/
theorem ofText_editTag (plainFirst : Plain first) (plainSecond : Plain second)
    (plainStep : Plain step) :
    Template.ofText (editTag first second step).print =
      [.directive (editTag first second step)] := by
  have head : Template.HasReadableHead "fromto" (some (orEmpty step)) := by
    constructor
    · decide
    · intro text given
      obtain rfl := Option.some.inj given
      exact plainStep.readsBackArgument_orEmpty
  apply Template.ofText_directive head
  intro text given
  obtain rfl := Option.some.inj given
  rw [editTag_body]
  apply readsBack_filled (by decide)
  rintro part (_ | ⟨_, _ | ⟨_, _ | _⟩⟩)
  · exact plainFirst
  · exact plainSecond

end Edits

section Alternations

variable {options : List Text}

/-- The line of an alternation of plain options without bars becomes its tag. -/
theorem transpile_alternationLine {transpiler : Transpiler} (nested : 2 ≤ transpiler.limit)
    (several : 2 ≤ options.length) (plain : ∀ option ∈ options, Plain option)
    (unbarred : ∀ option ∈ options, '|' ∉ option) :
    transpiler.transpile (alternationLine options) = pure (alternationTag options).print := by
  obtain ⟨levels, limit⟩ := Nat.exists_eq_add_of_le' nested
  have line : alternationLine options = '[' :: (Text.join ['|'] options ++ [']']) := by
    simp [alternationLine]
  have name : Grouped Brackets.tags (fun _ => True) ("alternate".toList ++ [':']) :=
    .of_unmentioned (by decide)
  have whole := name.append (grouped_parts plain)
  rw [List.append_assoc] at whole
  have grouped : ∀ option ∈ options,
      Grouped Brackets.all (fun c => c ≠ '|' ∧ c ≠ ':') (id option) := by
    intro option member
    apply (plain option member).grouped (.inr (.inr rfl))
    intro c inside
    constructor
    · rintro rfl
      exact unbarred option member inside
    · exact (plain option member).ne inside (by decide)
  have written : Bracketed.write ⟨transpiler, transpiler.rewriteWithin (levels + 1)⟩
      (Text.join ['|'] (options.map id)) = pure (alternateTag (options.map orEmpty)) :=
    Bracketed.write_options several grouped fun option member =>
      (plain option member).filled transpiler levels
  rw [List.map_id] at written
  rw [line, print_alternationTag]
  apply transpile_bracketed limit (.join (by decide) plain) _ whole
  have tag := alternateTag_append (options.map orEmpty) []
  rw [List.append_nil] at tag
  rw [written, tag]
  simp

/-- The tag of an alternation of plain options is read as that tag. -/
theorem ofText_alternationTag (plain : ∀ option ∈ options, Plain option) :
    Template.ofText (alternationTag options).print = [.directive (alternationTag options)] := by
  have head : Template.HasPlainHead "alternate" none := ⟨by decide, by simp⟩
  apply Template.ofText_directive head.readable
  intro text given
  obtain rfl := Option.some.inj given
  exact readsBack_filled (by decide) plain

end Alternations

end DynamicPrompt.Source
