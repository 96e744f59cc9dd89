import DynamicPrompt.Proofs.Source.Filtered
import DynamicPrompt.Proofs.Source.Line.Basic
import DynamicPrompt.Proofs.Source.Scan.Variables

/-!
# Complete texts and references

The pass over references comes first, and in a complete text every two underscores in a row begin or end
a whole reference. No count stands before one of them, since every dollar sign is followed by a brace, so
what is written for a reference does not depend on the text before it.

What is written for a reference names it in tags, the matches of a glob among the known names, and in
macros. Folder and known names belong to the transpiler and may not bring in marks of constructs.
-/

namespace DynamicPrompt

/-- Neither the folder nor a known name has marks of constructs. -/
structure Transpiler.HasUnmarkedNames (transpiler : Transpiler) : Prop where
  folder : ∀ folder ∈ transpiler.folder, ∀ c ∈ folder, c ∉ Source.constructMarks
  known : ∀ name ∈ transpiler.known, ∀ c ∈ name, c ∉ Source.constructMarks

namespace Source

/-- A reference that may stand in a tag may stand there with the folder before it. -/
theorem sealed_inFolder {transpiler : Transpiler} (unmarked : transpiler.HasUnmarkedNames)
    {reference : Text} (held : Sealed reference) : Sealed (transpiler.inFolder reference) := by
  rw [Transpiler.inFolder]
  split
  · next folder given =>
    have slash : Sealed "/" := .of_free (by decide)
    exact ((Sealed.of_free (unmarked.folder folder given)).append slash).append held
  · exact held

namespace Reference

/-- The name of the macro that remembers a filter may stand in a tag. -/
theorem sealed_filterMacro {reference : Text} (held : Sealed reference) :
    Sealed (filterMacro reference) := by
  have first : Sealed "wcfilter_" := .of_free (by decide)
  exact first.append (held.replace (by decide) (by decide) (by decide))

/-- The reading of a remembered filter may stand for a construct. -/
theorem emitted_readMacro {source : Text} (held : Sealed source) : Emitted (readMacro source) := by
  rw [readMacro_eq_print]
  exact emitted_bodied (by decide) (by decide) (sealed_filterMacro held)

/-- The directive of a draw may stand for a construct. -/
theorem emitted_drawDirective {argument reference suffix : Text} (given : Sealed argument)
    (named : Sealed reference) (followed : Sealed suffix) :
    Emitted (drawDirective argument reference suffix) := by
  have colon : Sealed [':'] := .of_free (by decide)
  rw [drawDirective_eq]
  exact .tag (by decide) (by decide) (given.append (colon.append (named.append followed)))

/-- What a filter states may stand in a tag. -/
def StatesSealed : ReferenceFilter → Prop
  | .use text | .inherit text | .define text => Sealed text

/-- What follows the name in the directives of a glob's matches may stand in a tag. -/
theorem sealed_globSuffix {filter : Option ReferenceFilter}
    (stated : ∀ stating ∈ filter, StatesSealed stating) : Sealed (globSuffix filter) := by
  have colon : Sealed ":" := .of_free (by decide)
  unfold globSuffix
  split
  · exact colon.append (stated _ rfl)
  · exact colon.append (emitted_readMacro (stated _ rfl)).isSealed
  · exact .nil
  · exact .nil

/-- The directives of a glob may stand for it. -/
theorem writeGlob_emitted {transpiler : Transpiler} (unmarked : transpiler.HasUnmarkedNames)
    {pattern argument : Text} {filter : Option ReferenceFilter} (named : Sealed pattern)
    (given : Sealed argument) (stated : ∀ stating ∈ filter, StatesSealed stating) :
    Reports Emitted (writeGlob transpiler pattern argument filter) := by
  have suffix := sealed_globSuffix stated
  have resolved : ∀ reference ∈ (Glob.resolve pattern transpiler.known).map transpiler.inFolder,
      Sealed reference := by
    intro reference member
    obtain ⟨name, among, rfl⟩ := List.mem_map.1 member
    have known := (List.mem_filter.1 (Text.mem_ordered.1 among)).1
    exact sealed_inFolder unmarked (.of_free (unmarked.known name known))
  unfold writeGlob
  dsimp only
  split
  · have notice : Emitted "<comment:no glob matches>" :=
      .tag (show "comment".toList.head?.map (sameLetter 'p') = some false by decide) (by decide)
        (.of_free (show ∀ c ∈ ":no glob matches".toList, c ∉ constructMarks by decide))
    have same : "<wcwildcard:" ++ transpiler.inFolder pattern ++ "><comment:no glob matches>" =
        drawDirective [] (transpiler.inFolder pattern) [] ++ "<comment:no glob matches>".toList := by
      have opening : "<wcwildcard:".toList = "<wcwildcard".toList ++ ":".toList := rfl
      have closing : "><comment:no glob matches>".toList =
        ">".toList ++ "<comment:no glob matches>".toList := rfl
      unfold drawDirective
      rw [opening, closing]
      simp only [List.append_assoc, List.nil_append]
    rw [same]
    exact (Reports.warn _).bind fun _ _ =>
      .pure ((emitted_drawDirective .nil (sealed_inFolder unmarked named) .nil).append notice)
  · next reference single =>
    have held := resolved reference (by rw [single]; exact List.mem_cons_self)
    exact .pure (emitted_drawDirective given held suffix)
  · refine .pure ?_
    have bar : Sealed "|" := .of_free (by decide)
    have colon : Sealed [':'] := .of_free (by decide)
    have options : Sealed (Text.join "|" (((Glob.resolve pattern transpiler.known).map
        transpiler.inFolder).map fun reference => drawDirective [] reference (globSuffix filter))) := by
      refine .join bar fun option member => ?_
      obtain ⟨reference, among, rfl⟩ := List.mem_map.1 member
      exact (emitted_drawDirective .nil (resolved reference among) suffix).isSealed
    have whole : Emitted ('<' :: (("random".toList ++ (argument ++ (':' :: Text.join "|"
        (((Glob.resolve pattern transpiler.known).map transpiler.inFolder).map
          fun reference => drawDirective [] reference (globSuffix filter))))) ++ ['>'])) :=
      .tag (by decide) (by decide) (given.append (colon.append options))
    simpa using whole

/-- What remembers a filter while a reference is drawn may stand for the reference. -/
theorem emitted_during {reference remembered draw : Text} (named : Sealed reference)
    (held : Sealed remembered) (draws : Emitted draw) :
    Emitted ("<wcpushmacro[" ++ filterMacro reference ++ "]:" ++ remembered ++ ">" ++ draw ++
      "<wcpopmacro:" ++ filterMacro reference ++ ">") := by
  have holder := sealed_filterMacro named
  have push : Emitted (pushTag reference remembered).print :=
    emitted_full (by decide) (by decide) holder held
  have pop : Emitted (popTag reference).print := emitted_bodied (by decide) (by decide) holder
  have opening : "<wcpushmacro[".toList = '<' :: ("wcpushmacro".toList ++ ['[']) := rfl
  have closing : "<wcpopmacro:".toList = '<' :: ("wcpopmacro".toList ++ [':']) := rfl
  have between : "]:".toList = [']', ':'] := rfl
  have last : ">".toList = ['>'] := rfl
  have whole := push.append (draws.append pop)
  unfold pushTag popTag at whole
  generalize filterMacro reference = name at whole ⊢
  simp only [Template.print_full, Template.print_bodied, opening, closing, between, last,
    List.append_assoc, List.cons_append, List.nil_append] at whole ⊢
  exact whole

/-- The directives of a reference may stand for it. -/
theorem emitted_directives {reference argument : Text} {filter : Option ReferenceFilter}
    (named : Sealed reference) (given : Sealed argument)
    (stated : ∀ stating ∈ filter, StatesSealed stating) :
    Emitted (directives reference argument filter) := by
  have colon : Sealed ":" := .of_free (by decide)
  unfold directives
  split
  · exact emitted_drawDirective given named .nil
  · exact emitted_during named (stated _ rfl) (emitted_drawDirective given named .nil)
  · next labels =>
    have held : Sealed labels := stated _ rfl
    exact emitted_during named held (emitted_drawDirective given named (colon.append held))
  · next source =>
    have held := (emitted_readMacro (stated _ rfl : Sealed source)).isSealed
    exact emitted_during named held (emitted_drawDirective given named (colon.append held))

variable {pass : Pass} {levels : Nat}

/-- The scan of the pass, if no count belongs to a reference. -/
def scan (pass : Pass) : Scan where
  State := Cursor
  Ready cursor := cursor.Ready none
  run cursor text := writePieces (write pass) (pieces cursor text)

/-- At the end of the line nothing is left to do. -/
theorem run_nil (pass : Pass) (cursor : Cursor) : (scan pass).run cursor [] = pure [] := by
  have ended : pieces cursor [] = [] := by rw [pieces]
  exact congrArg (writePieces (write pass)) ended

/-- Without two neighbouring dollar signs no count belongs to a reference, so the references of a line
are written where they stand.

The text that is held back stands before the rest of the line, which carries the induction. -/
theorem writeAll_of_apart (pass : Pass) {cursor : Cursor} {held text : Text}
    (apart : ¬ ['$', '$'] <:+: held.reverse ++ text) :
    writeAll pass held (pieces cursor text) =
      (held.reverse ++ ·) <$> writePieces (write pass) (pieces cursor text) := by
  have longer (held : Text) (c : Char) (text : Text) :
      held.reverse ++ c :: text = (c :: held).reverse ++ text := by simp
  fun_induction pieces cursor text generalizing held with
  | case1 => simp [writeAll, writePieces]
  | case2 cursor rest free content after cut trimmed inductionHypothesis =>
    have whole := cutTopLevelFrom?_append (List.cons_ne_nil '_' ['_']) cut
    have before : ¬ ['$', '$'] <:+: held.reverse :=
      fun inside => apart (inside.trans (List.prefix_append _ _).isInfix)
    have behind : ¬ ['$', '$'] <:+: ([] : Text).reverse ++ after := by
      intro inside
      rw [← whole] at apart
      refine apart (inside.trans ⟨held.reverse ++ '_' :: '_' :: (content ++ "__".toList), [], ?_⟩)
      simp
    rw [writeAll, writePieces, leadingCount?_of_apart before, ite_self, inductionHypothesis behind]
    simp
  | case3 cursor rest free content after cut untrimmed inductionHypothesis =>
    rw [longer, longer] at apart
    rw [writeAll, writeAll, writePieces, writePieces, inductionHypothesis apart]
    simp
  | case4 cursor rest free missed inductionHypothesis =>
    rw [longer, longer] at apart
    rw [writeAll, writeAll, writePieces, writePieces, inductionHypothesis apart]
    simp
  | case5 cursor rest held' inductionHypothesis =>
    rw [longer] at apart
    rw [writeAll, writePieces, inductionHypothesis apart]
    simp
  | case6 cursor c rest other inductionHypothesis =>
    rw [longer] at apart
    rw [writeAll, writePieces, inductionHypothesis apart]
    simp

/-- A character is kept before anything with which it does not begin a reference. -/
theorem pieces_passed {c : Char} {rest : Text} (apart : ¬ ['_', '_'] <+: c :: rest) (cursor : Cursor) :
    pieces cursor (c :: rest) = .plain c :: pieces (cursor.after c) rest := by
  rw [pieces]
  rintro following rfl rfl
  exact apart ⟨following, rfl⟩

/-- A text is kept in which no two underscores are neighbours and that does not end with one. -/
theorem turns_kept (pass : Pass) {text : Text} (undoubled : Undoubled '_' text)
    (plain : ∀ c ∈ text, ¬ Brackets.tags.Mentions c ∧ c ≠ '\\') :
    (scan pass).Turns Anything text (· = text) := by
  have passed {cursor : Cursor} (ready : cursor.Ready none) :
      ∃ cursor' : Cursor, cursor'.Ready none ∧ ∀ rest,
        pieces cursor (text ++ rest) = text.map Piece.plain ++ pieces cursor' rest := by
    induction text generalizing cursor with
    | nil => exact ⟨cursor, ready, fun rest => rfl⟩
    | cons c text inductionHypothesis =>
      rw [List.forall_mem_cons] at plain
      rw [Undoubled, List.cons_append, List.infix_cons_iff, not_or] at undoubled
      obtain ⟨cursor', ready', kept⟩ :=
        inductionHypothesis undoubled.2 plain.2 (ready.after plain.1.1 plain.1.2 (.inl rfl))
      refine ⟨cursor', ready', fun rest => ?_⟩
      rw [List.cons_append, pieces_passed ?_ cursor, kept rest]
      · rfl
      · intro begins
        refine undoubled.1 ?_
        obtain ⟨rfl, behind⟩ := List.cons_prefix_cons.1 begins
        cases text with
        | nil => exact List.prefix_refl _
        | cons d text =>
          obtain ⟨rfl, _⟩ := List.cons_prefix_cons.1 behind
          exact ⟨text ++ ['_'], rfl⟩
  refine .kept fun (cursor : Cursor) ready => ?_
  obtain ⟨cursor', ready', kept⟩ := passed ready
  refine ⟨cursor', ready', fun rest _ => ?_⟩
  exact (congrArg (writePieces (write pass)) (kept rest)).trans (writePieces_passed _ text _)

/-- A bracket other than those of tags is kept. -/
theorem turns_bracket (pass : Pass) :
    ∀ c ∈ "[\x7b]\x7d".toList, (scan pass).Turns Anything [c] (· = [c]) := by
  have others : ∀ c ∈ "[\x7b]\x7d".toList, '_' ∉ [c] ∧
      ∀ d ∈ [c], ¬ Brackets.tags.Mentions d ∧ d ≠ '\\' := by decide
  exact fun c member => turns_kept pass (.of_absent (others c member).1) (others c member).2

/-- The beginning of a variable is kept, up to something behind its name. -/
theorem turns_variable (pass : Pass) {name ending : Text} (named : IsVariableName name)
    (filled : ending ≠ []) (absent : '_' ∉ ending)
    (plain : ∀ c ∈ ending, ¬ Brackets.tags.Mentions c ∧ c ≠ '\\') :
    (scan pass).Turns Anything ('$' :: '\x7b' :: (name ++ ending))
      (· = '$' :: '\x7b' :: (name ++ ending)) := by
  have opening : Undoubled '_' ['$', '\x7b'] := .of_absent (by decide)
  refine turns_kept pass (opening.append (.ended named.apart filled absent)) ?_
  have first : ∀ c ∈ ['$', '\x7b'], ¬ Brackets.tags.Mentions c ∧ c ≠ '\\' := by decide
  exact List.forall_mem_append.2 ⟨first, List.forall_mem_append.2
    ⟨fun c member => unmentioned_of_free (named.free c member), plain⟩⟩

/-- A tag is kept. -/
theorem turns_tag (pass : Pass) {inner : Text} (angled : Angled inner) :
    (scan pass).Turns Anything ('<' :: (inner ++ ['>'])) (· = '<' :: (inner ++ ['>'])) := by
  refine .kept fun (cursor : Cursor) ready =>
    ⟨(⟨0, false, some '>'⟩ : Cursor), ⟨rfl, rfl, .inl rfl⟩, fun rest _ => ?_⟩
  have kept := pieces_keepsHeld.tag angled ready.outside rest
  have whole : '<' :: (inner ++ ['>']) ++ rest = '<' :: (inner ++ '>' :: rest) := by simp
  rw [whole]
  exact (congrArg (writePieces (write pass)) kept).trans
    (writePieces_passed _ ('<' :: (inner ++ ['>'])) _)

/-- A tag of a command is kept. -/
theorem turns_command (pass : Pass) {tag : Text} (command : IsCommandTag tag) :
    (scan pass).Turns Anything tag (· = tag) := by
  obtain ⟨inner, rfl, free⟩ := command
  exact turns_tag pass (.of_grouped ((grouped_of_free free).single pairs_ofConstructs.1))

/-- The angle brackets and braces of a text are nested pairs if its square brackets are, too. -/
theorem grouped_tagsAndBraces {bare : Char → Prop} {text : Text}
    (grouped : Grouped Brackets.ofConstructs bare text) :
    Grouped Brackets.tagsAndBraces (fun _ => True) text := by
  obtain ⟨angles, squares, braces⟩ := pairs_ofConstructs
  have marks : ∀ c ∈ Brackets.tagsAndBraces.openers ++ Brackets.tagsAndBraces.closers,
      Brackets.ofConstructs.Mentions c := by decide
  apply grouped.fewer fun c mentioned => marks c (List.mem_append.2 mentioned)
  intro opener closer pair
  have among : opener = '<' ∨ opener = '\x7b' ∨ opener = '[' := by
    simpa [Brackets.ofConstructs] using pair.opens
  rcases among with rfl | rfl | rfl
  · obtain rfl := (angles.unique pair).1 rfl
    exact .inl (by constructor <;> decide)
  · obtain rfl := (braces.unique pair).1 rfl
    exact .inl (by constructor <;> decide)
  · obtain rfl := (squares.unique pair).1 rfl
    exact .inr (by decide)

section Complete

variable (unmarked : pass.transpiler.HasUnmarkedNames) (completes : pass.Completes levels)

include unmarked completes

/-- What quoted labels state may stand in a tag. -/
theorem readFilter_sealed {raw : Text} (plain : Plain raw) :
    Reports StatesSealed (readFilter pass raw) := by
  have marks : ∀ c ∈ constructMarks, c ∈ partMarks := by decide
  have digits : ∀ c ∈ constructMarks, c.isDigit = false := by decide
  have shifted {labels : Text} (plain : Plain labels) :
      Reports Sealed (checked (shiftPositions labels)) := by
    refine .checked fun shifted done => .of_free fun c member marked => ?_
    rcases mem_shiftPositions done c member with inside | digit | rfl
    · exact plain.unmarked c inside (marks c marked)
    · exact absurd digit (by rw [digits c marked]; exact Bool.false_ne_true)
    · exact absurd marked (by decide)
  have stated {labels : Text} (plain : Plain labels) :
      Reports Sealed (pass.nested labels >>= fun labels => checked (shiftPositions labels)) :=
    (completes.plain plain).bind fun _ same => shifted (same ▸ plain)
  have part {labels : Text} (part : labels <:+: raw) : Plain labels :=
    ⟨fun c member => plain.unmarked c (part.subset member),
      fun broken => plain.unbroken (broken.trans part)⟩
  unfold readFilter
  split
  · next source =>
    have trimmed : Plain (Text.trim source) :=
      part ((Text.trim_infix source).trans (List.suffix_cons '^' source).isInfix)
    refine (completes.plain trimmed).bind fun _ same => .pure ?_
    rw [same]
    exact sealed_inFolder unmarked
      (.of_free fun c member marked => trimmed.unmarked c member (marks c marked))
  · next labels =>
    rw [← bind_assoc]
    exact (stated (part (List.suffix_cons '#' labels).isInfix)).bind fun _ held => .pure held
  · rw [← bind_assoc]
    exact (stated plain).bind fun _ held => .pure held

/-- The directives of a reference may stand for it. -/
theorem write_emitted {name : Text} {filter : Option (Char × Text)} (named : IsReferenceName name)
    (complete : Complete 0 [] levels name) (proper : (Construct.reference filter).Proper) :
    Reports Emitted (write pass (name ++ quotedFilter filter)) := by
  have undollared : '$' ∉ quotedFilter filter :=
    fun member => Construct.free_filter proper '$' member (by decide)
  have headless : Head.split? (name ++ quotedFilter filter) = none :=
    Head.split?_of_apart (complete.undoubled.append (.of_absent undollared)).apart
  have parted : splitFilter (name ++ quotedFilter filter) = (name, filter.map (·.2)) := by
    cases filter with
    | none =>
      rw [quotedFilter, List.append_nil]
      exact splitFilter_unquoted named.unquoted
    | some quoted =>
      obtain ⟨quote, labels⟩ := quoted
      obtain ⟨quotes, plain⟩ := proper (quote, labels) rfl
      have other : ∀ c ∈ name, c ≠ quote := by
        rintro c member rfl
        refine named.unquoted c member ?_
        rcases quotes with same | same <;> rw [show c = _ from same] <;> decide
      exact splitFilter_quoted quotes ((grouped_tagsAndBraces complete.grouped).of_all other)
        (plain.absent (by decide))
  rw [write, headless]
  dsimp only
  rw [Head.argument, pure_bind, parted]
  refine (completes.complete complete).bind fun written named => ?_
  have held := named.isSealed (Nat.le_refl 5)
  have written (filter : Option ReferenceFilter) (stated : ∀ stating ∈ filter, StatesSealed stating) :
      Reports Emitted (if isGlob written && !written.contains '<' then
          writeGlob pass.transpiler written [] filter
        else pure (directives (pass.transpiler.inFolder written) [] filter)) := by
    split
    · exact writeGlob_emitted unmarked held .nil stated
    · exact .pure (emitted_directives (sealed_inFolder unmarked held) .nil stated)
  cases filter with
  | none =>
    rw [Option.map_none]
    exact written none fun _ none => absurd none (Option.not_mem_none _)
  | some quoted =>
    rw [Option.map_some]
    dsimp only
    rw [map_eq_pure_bind, bind_assoc]
    refine (readFilter_sealed unmarked completes (proper quoted rfl).plain).bind fun stating stated => ?_
    rw [pure_bind]
    refine written (some stating) ?_
    rintro _ ⟨⟩
    exact stated

omit unmarked completes in
/-- The name and the filter of a reference end before its last underscores, and no two underscores
stand beside each other in them. -/
theorem undoubled_content {name : Text} {filter : Option (Char × Text)} (named : IsReferenceName name)
    (proper : (Construct.reference filter).Proper) : Undoubled '_' (name ++ quotedFilter filter) :=
  named.undoubled.append (.of_absent fun member =>
    Construct.free_filter proper '_' member List.mem_cons_self)

omit unmarked completes in
/-- Neither the name nor the filter of a reference is surrounded by blanks. -/
theorem isTrimmed_content {name : Text} {filter : Option (Char × Text)} (named : IsReferenceName name)
    (proper : (Construct.reference filter).Proper) :
    isTrimmed (name ++ quotedFilter filter) = true := by
  have trimmed := named.trimmed
  cases filter with
  | none => rwa [quotedFilter, List.append_nil]
  | some quoted =>
    obtain ⟨quote, labels⟩ := quoted
    have visible : isBlank quote = false := by
      rcases (proper (quote, labels) rfl).quotes with same | same <;>
        rw [show quote = _ from same] <;> decide
    have whole : name ++ quotedFilter (some (quote, labels)) = (name ++ quote :: labels) ++ [quote] := by
      simp [quotedFilter]
    cases name with
    | nil => exact absurd trimmed (by decide)
    | cons c name =>
      rw [isTrimmed] at trimmed ⊢
      rw [whole, List.getLast?_concat]
      cases last : (c :: name).getLast? with
      | none => exact absurd (List.getLast?_eq_none_iff.1 last) (List.cons_ne_nil c name)
      | some d =>
        rw [last] at trimmed
        simp only [List.head?_cons, List.cons_append, Bool.and_eq_true, Bool.not_eq_true'] at trimmed ⊢
        exact ⟨trimmed.1, visible⟩

/-- A reference turns into its directives. -/
theorem turns_reference {name : Text} {filter : Option (Char × Text)} (named : IsReferenceName name)
    (complete : Complete 0 [] levels name) (proper : (Construct.reference filter).Proper) :
    (scan pass).Turns Anything ('_' :: '_' :: ((name ++ quotedFilter filter) ++ ['_', '_'])) Emitted := by
  have trimmed := isTrimmed_content named proper
  have grouped := grouped_tagsAndBraces (complete.grouped.append
    (grouped_of_free fun c member marked => Construct.free_filter proper c member (.tail _ marked)))
  have cut (rest : Text) : cutTopLevel? "__" Brackets.tagsAndBraces
      ((name ++ quotedFilter filter) ++ ('_' :: '_' :: rest)) =
        some (name ++ quotedFilter filter, rest) :=
    cutTopLevelFrom?_apart (by decide) grouped (undoubled_content named proper) rest
  refine ⟨write pass (name ++ quotedFilter filter), fun (cursor : Cursor) ready => ?_,
    write_emitted unmarked completes named complete proper⟩
  refine ⟨cursor.past '_', ⟨ready.outside, rfl, .inl rfl⟩, fun rest _ => ?_⟩
  have whole : '_' :: '_' :: ((name ++ quotedFilter filter) ++ ['_', '_']) ++ rest =
      '_' :: '_' :: ((name ++ quotedFilter filter) ++ ('_' :: '_' :: rest)) := by simp
  rw [whole]
  exact congrArg (writePieces (write pass)) (pieces_found trimmed (cut rest) ready)

/-- The scan of the pass. -/
theorem handles : (scan pass).Handles 0 1 levels where
  char {c} free := by
    obtain ⟨unmentioned, unescaping⟩ := unmentioned_of_free free
    refine .kept fun (cursor : Cursor) ready =>
      ⟨cursor.after c, ready.after unmentioned unescaping (.inl rfl), fun rest unbarred => ?_⟩
    have passed := pieces_passed (unbarred ['_', '_'] (by decide)) cursor
    exact (congrArg (writePieces (write pass)) passed).trans (writePieces_passed _ [c] _)
  tag _ free inside := turns_tag pass (inside.angled free)
  opener {construct} proper later := by
    by_cases late : 2 ≤ construct.pass
    · rcases Construct.delimiters proper late with ⟨command, _⟩ | ⟨first, last, opens, _, among, _⟩
      · exact turns_command pass command
      · rw [opens]
        exact turns_bracket pass first (List.mem_append_left "]\x7d".toList among)
    · cases construct with
      | reference filter => exact absurd later (Nat.not_succ_le_zero 0)
      | read name => exact turns_variable pass proper (List.cons_ne_nil _ _) (by decide) (by decide)
      | use name operator =>
        have sign : operator.sign ≠ [] ∧ '_' ∉ operator.sign ∧
            ∀ c ∈ operator.sign, ¬ Brackets.tags.Mentions c ∧ c ≠ '\\' := by
          rcases operator with _ | _ | _ | _ <;> decide
        exact turns_variable pass proper sign.1 sign.2.1 sign.2.2
      | _ => exact absurd (by simp [Construct.pass]) late
  closers {construct} proper later := by
    by_cases late : 2 ≤ construct.pass
    · rcases Construct.delimiters proper late with ⟨_, commands⟩ | ⟨first, last, _, closes, _, among⟩
      · exact fun closer member => turns_command pass (commands closer member)
      · rw [closes]
        exact List.forall_mem_singleton.2
          (turns_bracket pass last (List.mem_append_right "[\x7b".toList among))
    · cases construct with
      | reference filter => exact absurd later (Nat.not_succ_le_zero 0)
      | read name => exact List.forall_mem_nil _
      | use name operator =>
        exact List.forall_mem_singleton.2 (turns_bracket pass '\x7d' (by decide))
      | _ => exact absurd (by simp [Construct.pass]) late
  own {kind parts within depth} proper reached _ _ paired admitted each shallow := by
    cases kind with
    | reference filter =>
      obtain ⟨name, rfl, written⟩ := Construct.exists_part paired
      have complete := (each name List.mem_cons_self).weaken (Nat.le_refl 0) (List.nil_subset _) shallow
      have turns := turns_reference unmarked completes (admitted name List.mem_cons_self) complete proper
      have line : (Construct.reference filter).write [name] =
          '_' :: '_' :: ((name ++ quotedFilter filter) ++ ['_', '_']) := by
        rw [Construct.write, Construct.opener, Construct.closers, written]
        simp
      rw [line]
      exact turns
    | _ => exact absurd reached (by simp [Construct.pass])

/-- The pass goes into the text of a later construct. -/
theorem rewrite_construct {kind : Construct} {part : Text} {depth : Nat} (proper : kind.Proper)
    (later : 1 ≤ kind.pass) (paired : [part].length = kind.closers.length)
    (complete : Complete 0 [] depth part) (shallow : depth ≤ levels + 1)
    (apart : ¬ ['$', '$'] <:+: kind.write [part]) :
    Reports (fun result => ∃ part', result = kind.write [part'] ∧ Complete 1 [] depth part')
      (rewrite pass (kind.write [part])) := by
  have inside := complete.turns (handles unmarked completes) (by decide) shallow
  have turns := (handles unmarked completes).turns_construct (by decide) proper later paired
    (List.forall_mem_singleton.2 (inside.mono fun _ known => known.1))
  rw [rewrite, writeAll_of_apart pass apart]
  refine (turns.reports (Cursor.ready_start none) (run_nil pass) trivial).map ?_
  rintro _ ⟨parts', rfl, paired', known⟩
  obtain ⟨part', rfl⟩ := List.length_eq_one_iff.1 (paired'.trans paired.symm)
  exact ⟨part', rfl, known part' List.mem_cons_self⟩

/-- The pass makes complete texts of complete texts. -/
theorem rewrite_complete {text : Text} (complete : Complete 0 [] (levels + 1) text) :
    Reports (Complete 1 [] (levels + 1)) (rewrite pass text) := by
  have turns := complete.turns (handles unmarked completes) (by decide) (Nat.le_refl _)
  have apart : ¬ ['$', '$'] <:+: ([] : Text).reverse ++ text := complete.undoubled.apart
  rw [rewrite, writeAll_of_apart pass apart]
  exact (turns.reports (Cursor.ready_start none) (run_nil pass) .nil).map fun _ known => known.1

end Complete

end Reference

end Source

end DynamicPrompt
