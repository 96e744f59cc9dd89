import DynamicPrompt.Proofs.Delimiter.Separator
import DynamicPrompt.Proofs.Engine.Drawing
import DynamicPrompt.Proofs.Source.Bracketed
import DynamicPrompt.Proofs.Template.Part

/-!
# Edits and alternations through rewriting and expansion

A line of plain parts in square brackets is rewritten to a tag, and the expansion of the tag writes
the line again. An alternation always comes back as it was, since no option has a bar. An edit
comes back unless the double bar that the rewriting puts between its two texts is not the only one
that the expansion finds: the texts may have bars, and nothing tells them from those of the tag.
-/

namespace DynamicPrompt

open Source

namespace Engine

/-- An engine with the standard directives for what square brackets become and for the mark of the
empty text, and with room for what stands between the brackets. -/
structure HandlesBrackets (engine : Engine) : Prop where
  edits : (engine.handler? "fromto").map Handler.expand = some Directives.fromTo
  alternations : (engine.handler? "alternate").map Handler.expand = some Directives.alternate
  marks : (engine.handler? "comment").map Handler.expand = some Directives.comment
  nested : 2 ≤ engine.settings.transpiler.limit
  room : 2 ≤ engine.settings.limit

variable {engine : Engine} {line text : Text} {stream : Random.Stream}

/-- A text that only yields another expands to that one and nothing else. -/
theorem expand_eq_ofText {result : Text}
    (yields : engine.expandWithin engine.settings.limit text = pure result) :
    engine.expand text stream = (some (.ok (.ofText result)), stream) := by
  rw [expand, room]
  dsimp only
  rw [yields]
  rfl

/-- While levels are left, what stands for a plain part expands to that part. -/
theorem expandWithin_orEmpty (handles : engine.HandlesBrackets) {part : Text} (plain : Plain part)
    (levels : Nat) : engine.expandWithin (levels + 1) (orEmpty part) = pure part := by
  cases part with
  | nil =>
    have read : Template.ofText emptyMark = [.directive emptyTag] :=
      print_emptyTag ▸ Template.ofText_directive emptyTag_head.readable emptyTag_body
    exact expandWithin_directive_eq_pure read handles.marks rfl
  | cons c rest =>
    rw [orEmpty, List.isEmpty_cons, if_neg Bool.false_ne_true]
    exact expandWithin_unopened levels (plain.absent (by decide))

/-- Alternation survives both halves. In every engine with the standard directives for it and
with room, the line of an alternation of at least two options, each empty or not and without bars,
marks of constructs and the break keyword, is rewritten and expanded to itself: no warning is
raised, no random word is taken, and nothing is added to the negative prompt or to the variables.

Every option is filled in for itself, so the double bars of the tag are those between the
options. -/
theorem expandSource_alternationLine (engine : Engine) (handles : engine.HandlesBrackets)
    (options : List Text) (several : 2 ≤ options.length)
    (plain : ∀ option ∈ options, Plain option) (unbarred : ∀ option ∈ options, '|' ∉ option)
    (stream : Random.Stream) :
    engine.expandSource (alternationLine options) stream =
      (some (.ok (.ofText (alternationLine options))), stream) := by
  obtain ⟨levels, room⟩ := Nat.exists_eq_add_of_le' handles.room
  have parted : Directives.parts (alternationTag options).bodyText = options.map orEmpty := by
    have grouped : ∀ part ∈ options.map orEmpty, Grouped Brackets.tags (· ≠ '|') part :=
      grouped_filled fun option member => ⟨plain option member, unbarred option member⟩
    have filled : options.map orEmpty ≠ [] := by
      rw [Ne, List.map_eq_nil_iff]
      rintro rfl
      exact absurd several (by decide)
    exact splitTopLevel_join filled (by decide) (by decide) grouped fun _ bare => bare
  have yields : Directives.alternate ⟨engine.settings, engine.expandWithin (levels + 1)⟩
      (alternationTag options) = pure (alternationLine options) := by
    have each : ∀ option ∈ options,
        (engine.expandWithin (levels + 1) ∘ orEmpty) option = pure option :=
      fun option member => expandWithin_orEmpty handles (plain option member) levels
    rw [Directives.alternate, parted, List.mapM_map]
    dsimp only
    rw [mapM_eq_pure each, pure_bind, List.map_id']
    rfl
  rw [expandSource_eq_expand (transpile_alternationLine handles.nested several plain unbarred)]
  apply expand_eq_ofText
  rw [room]
  exact expandWithin_directive_eq_pure (ofText_alternationTag plain) handles.alternations yields

/-- The standard engine handles square brackets. -/
theorem handlesBrackets_standard : standard.HandlesBrackets where
  edits := rfl
  alternations := rfl
  marks := rfl
  nested := by decide
  room := by decide

/-- Options of which the first, the last and two neighbours are empty. -/
def gaps : List Text := [[], "a cow", [], [], "it's 2, \x22or\x22", []]

/-- Every empty option comes back in its place. -/
theorem expandSource_alternationLine_gaps :
    standard.HandlesBrackets ∧ 2 ≤ gaps.length ∧ (∀ option ∈ gaps, Plain option) ∧
      (∀ option ∈ gaps, '|' ∉ option) ∧
      alternationLine gaps = "[|a cow|||it's 2, \x22or\x22|]".toList ∧
      standard.expandSource (alternationLine gaps) (Random.Stream.ofSeed #[] 0) =
        (some (.ok (.ofText (alternationLine gaps))), Random.Stream.ofSeed #[] 0) := by
  have several : 2 ≤ gaps.length := by decide
  have plain : ∀ option ∈ gaps, Plain option := by decide +kernel
  have unbarred : ∀ option ∈ gaps, '|' ∉ option := by decide
  exact ⟨handlesBrackets_standard, several, plain, unbarred, by decide,
    expandSource_alternationLine standard handlesBrackets_standard gaps several plain unbarred _⟩

section Edits

variable {first second step : Text}

/-- What stands for a plain text is cut off before a double bar, if none begins in the text. -/
theorem cut_orEmpty (plain : Plain first) (apart : ¬ ['|', '|'] <:+: first ++ ['|'])
    (after : Text) :
    cutTopLevelFrom? ['|', '|'] Brackets.tags false (orEmpty first ++ (['|', '|'] ++ after)) =
      some (orEmpty first, after) := by
  cases first with
  | nil =>
    have grouped : Grouped Brackets.tags (· ≠ '|') emptyMark :=
      plain.grouped_orEmpty (.inl rfl) fun c member => absurd member List.not_mem_nil
    exact cutTopLevelFrom?_grouped (by decide) grouped (fun _ bare => bare) after
  | cons c rest =>
    exact cutTopLevelFrom?_apart (by decide) (plain.grouped (.inl rfl) fun _ _ => trivial) apart after

/-- What stands for a plain text without double bars is one part. -/
theorem split_orEmpty (plain : Plain second) (lacking : ¬ ['|', '|'] <:+: second) :
    splitTopLevelFrom ['|', '|'] Brackets.tags false (orEmpty second) = [orEmpty second] := by
  cases second with
  | nil =>
    have grouped : Grouped Brackets.tags (· ≠ '|') emptyMark :=
      plain.grouped_orEmpty (.inl rfl) fun c member => absurd member List.not_mem_nil
    exact splitTopLevel_alone (by decide) (by decide) grouped fun _ bare => bare
  | cons c rest =>
    have free : ∀ d ∈ c :: rest, ¬ Brackets.tags.Mentions d ∧ d ≠ '\\' :=
      fun d member => ⟨plain.unmentioned (.inl rfl) member, plain.ne member (by decide)⟩
    apply splitTopLevelFrom_missed
    rw [orEmpty, List.isEmpty_cons, if_neg Bool.false_ne_true, cutTopLevelFrom?,
      topLevelFrom?_lacking free lacking]
    rfl

/-- The body of an edit is parted where a double bar begins first. -/
theorem parts_of_first {before after : Text}
    (cut : cutTopLevelFrom? ['|', '|'] Brackets.tags false (editTag first second step).bodyText =
      some (before, after)) :
    Directives.parts (editTag first second step).bodyText =
      before :: splitTopLevelFrom ['|', '|'] Brackets.tags false after :=
  splitTopLevelFrom_found cut

/-- The body of an edit is the text that stands for its first text, the double bar and the text
that stands for its second. -/
theorem bodyText_editTag (first second step : Text) :
    (editTag first second step).bodyText = orEmpty first ++ (['|', '|'] ++ orEmpty second) := by
  rw [← List.append_assoc]
  rfl

/-- Without a double bar too early or too late the parts are the two texts. -/
theorem parts_editTag (plainFirst : Plain first) (plainSecond : Plain second)
    (apart : ¬ ['|', '|'] <:+: first ++ ['|']) (lacking : ¬ ['|', '|'] <:+: second) :
    Directives.parts (editTag first second step).bodyText = [orEmpty first, orEmpty second] := by
  have cut := cut_orEmpty plainFirst apart (orEmpty second)
  rw [← bodyText_editTag first second step] at cut
  rw [parts_of_first cut, split_orEmpty plainSecond lacking]

/-- A double bar that begins in the first text ends the first part too early. -/
theorem parts_editTag_early (plain : Plain first) (early : ['|', '|'] <:+: first ++ ['|']) :
    ∃ before others, Directives.parts (editTag first second step).bodyText = before :: others ∧
      before.length < first.length ∧ '<' ∉ before ∧ ':' ∉ before := by
  obtain ⟨before, after, whole, apart⟩ := exists_first_occurrence (by decide) early
  have shorter : before.length < first.length := by
    have total := congrArg List.length whole
    simp only [List.length_append, List.length_cons, List.length_nil] at total
    omega
  have inside : ∀ c ∈ before, c ∉ partMarks := by
    intro c member
    have within : c ∈ first ++ ['|'] := whole ▸ List.mem_append_left _ member
    rcases List.mem_append.1 within with here | bar
    · exact plain.unmarked c here
    · obtain rfl := List.mem_singleton.1 bar
      decide
  have front : Plain before := by
    refine ⟨inside, plain.unbroken.part ?_⟩
    have starts : before <+: first ++ ['|'] := ⟨_, whole⟩
    exact (List.prefix_of_prefix_length_le starts (List.prefix_append first _)
      (Nat.le_of_lt shorter)).isInfix
  have filled : orEmpty first = first := by
    cases first with
    | nil => exact absurd shorter (Nat.not_lt_zero _)
    | cons c rest => rfl
  have body : (editTag first second step).bodyText =
      before ++ (['|', '|'] ++ (after ++ '|' :: orEmpty second)) := by
    have longer := congrArg (· ++ '|' :: orEmpty second) whole
    simp only [List.append_assoc] at longer
    rw [bodyText_editTag, filled, longer]
    rfl
  have grouped : Grouped Brackets.tags (fun _ => True) before :=
    front.grouped (.inl rfl) fun _ _ => trivial
  have cut := cutTopLevelFrom?_apart (by decide) grouped apart (after ++ '|' :: orEmpty second)
  rw [← body] at cut
  exact ⟨before, _, parts_of_first cut, shorter, front.absent (by decide), front.absent (by decide)⟩

/-- A double bar in the second text leaves more than two parts. -/
theorem parts_editTag_late (plainFirst : Plain first) (plainSecond : Plain second)
    (apart : ¬ ['|', '|'] <:+: first ++ ['|']) (late : ['|', '|'] <:+: second) :
    ∃ before other others,
      Directives.parts (editTag first second step).bodyText =
        orEmpty first :: before :: other :: others := by
  obtain ⟨before, after, whole, nearer⟩ := exists_first_occurrence (by decide) late
  have filled : orEmpty second = second := by
    cases second with
    | nil => exact absurd (congrArg List.length whole) (by simp)
    | cons c rest => rfl
  have grouped : Grouped Brackets.tags (fun _ => True) before := by
    refine .of_unmentioned fun c member => ?_
    have within : c ∈ second := whole ▸ List.mem_append_left _ member
    exact ⟨trivial, plainSecond.unmentioned (.inl rfl) within, plainSecond.ne within (by decide)⟩
  have cut := cut_orEmpty plainFirst apart (orEmpty second)
  rw [← bodyText_editTag first second step] at cut
  have cutSecond := cutTopLevelFrom?_apart (by decide) grouped nearer after
  rw [whole, ← filled] at cutSecond
  obtain ⟨other, others, rest⟩ := List.exists_cons_of_ne_nil
    (splitTopLevelFrom_ne_nil ['|', '|'] Brackets.tags (isEscapedAfter ['|', '|']) after)
  exact ⟨before, other, others, by rw [parts_of_first cut, splitTopLevelFrom_found cutSecond, rest]⟩

/-- If the text of one tag expands to a text and nothing else, its handler has yielded that text. -/
theorem yields_of_expand_eq_ofText {d : Directive} {handle : Room → Directive → Eval Text}
    {levels : Nat} {result : Text} {rest : Random.Stream}
    (room : engine.settings.limit = levels + 1) (read : Template.ofText text = [.directive d])
    (handled : (engine.handler? d.name).map Handler.expand = some handle)
    (expanded : engine.expand text stream = (some (.ok (.ofText result)), rest)) :
    ∃ after, (handle ⟨engine.settings, engine.expandWithin levels⟩ d).run.run.run
      (State.start stream) = (some (.ok result), after) := by
  rw [expand_directive room read handled] at expanded
  split at expanded
  · next found after yielded =>
    have same := Except.ok.inj (Option.some.inj (congrArg Prod.fst expanded))
    have texts : found = result := congrArg Expansion.text same
    exact ⟨after, texts ▸ yielded⟩
  · next cause after failed =>
    -- A failure leaves a warning.
    have same := Except.ok.inj (Option.some.inj (congrArg Prod.fst expanded))
    have warnings := congrArg Expansion.warnings same
    simp [finish, State.warned, Expansion.ofText] at warnings
  · cases congrArg Prod.fst expanded

/-- If the parts of an edit begin with a text without tags, what it yields begins with that text
and a colon. -/
theorem fromTo_ensures_start {settings : Settings} {d : Directive} {before : Text}
    {others : List Text} (levels : Nat) (parts : Directives.parts d.bodyText = before :: others)
    (unopened : '<' ∉ before) :
    Ensures (fun result => ∃ rest, result = '[' :: (before ++ ':' :: rest))
      (Directives.fromTo ⟨settings, engine.expandWithin (levels + 1)⟩ d) := by
  rw [Directives.fromTo]
  split
  · next first second pair =>
    obtain ⟨rfl, -⟩ := List.cons.inj (pair.symm.trans parts)
    dsimp only
    rw [expandWithin_unopened levels unopened, pure_bind]
    refine .last fun second => .last fun step => .pure ?_
    exact ⟨second ++ ':' :: (Text.trim step ++ [']']), by simp⟩
  · exact .throw _

/-- The text before the first colon is known. -/
theorem eq_of_append_colon {front front' rest rest' : Text} (absent : ':' ∉ front)
    (absent' : ':' ∉ front') (same : front ++ ':' :: rest = front' ++ ':' :: rest') :
    front = front' := by
  have cut : Text.cutAt? (· == ':') (front ++ ':' :: rest) = some (front, rest) :=
    Text.cutAt?_behind absent rest
  rw [same, Text.cutAt?_behind absent'] at cut
  exact (Prod.mk.inj (Option.some.inj cut)).1.symm

/-- An edit survives both halves exactly if the double bar of its tag is the only one. In every
engine with the standard directives for it and with room, the line of an edit of two texts at a
step, each empty or not and without marks of constructs and the break keyword, is rewritten and
expanded to itself, with the blanks around the step dropped and without a warning, if and only if
no double bar begins in the first text, with the bar after it, and none stands in the second.

The rewriting joins the two texts by a double bar and leaves their own bars as they are, and the
expansion parts them at the first double bar that it finds. -/
theorem expandSource_editLine_iff (engine : Engine) (handles : engine.HandlesBrackets)
    (first second step : Text) (plainFirst : Plain first) (plainSecond : Plain second)
    (plainStep : Plain step) (stream : Random.Stream) :
    engine.expandSource (editLine first second step) stream =
        (some (.ok (.ofText (editLine first second (Text.trim step)))), stream) ↔
      ¬ ['|', '|'] <:+: first ++ ['|'] ∧ ¬ ['|', '|'] <:+: second := by
  obtain ⟨levels, room⟩ := Nat.exists_eq_add_of_le' handles.room
  have read := ofText_editTag plainFirst plainSecond plainStep
  rw [expandSource_eq_expand (transpile_editLine handles.nested plainFirst plainSecond plainStep)]
  constructor
  · intro expanded
    obtain ⟨after, yielded⟩ := yields_of_expand_eq_ofText room read handles.edits expanded
    have apart : ¬ ['|', '|'] <:+: first ++ ['|'] := by
      intro early
      obtain ⟨before, others, parts, shorter, unopened, uncolonned⟩ :=
        parts_editTag_early plainFirst early
      obtain ⟨rest, starts⟩ := fromTo_ensures_start levels parts unopened _ _ _ yielded
      have line : editLine first second (Text.trim step) =
          '[' :: (first ++ ':' :: (second ++ ':' :: (Text.trim step ++ [']']))) := by
        simp [editLine]
      have same : first = before :=
        eq_of_append_colon (plainFirst.absent (by decide)) uncolonned
          (List.cons.inj (line.symm.trans starts)).2
      exact Nat.lt_irrefl _ (same ▸ shorter)
    refine ⟨apart, ?_⟩
    intro late
    obtain ⟨before, other, others, parts⟩ := parts_editTag_late plainFirst plainSecond apart late
    rw [Directives.fromTo, parts] at yielded
    exact absurd yielded (by rintro ⟨⟩)
  · rintro ⟨apart, lacking⟩
    have parts := @parts_editTag first second step plainFirst plainSecond apart lacking
    have yields : Directives.fromTo ⟨engine.settings, engine.expandWithin (levels + 1)⟩
        (editTag first second step) = pure (editLine first second (Text.trim step)) := by
      rw [Directives.fromTo, parts]
      dsimp only
      rw [expandWithin_orEmpty handles plainFirst, pure_bind,
        expandWithin_orEmpty handles plainSecond, pure_bind]
      have argument : (editTag first second step).argumentText = orEmpty step := rfl
      rw [argument, expandWithin_orEmpty handles plainStep, pure_bind]
      rfl
    apply expand_eq_ofText
    rw [room]
    exact expandWithin_directive_eq_pure read handles.edits yields

/-- Single bars inside both texts and around the second, and blanks around the step. -/
theorem expandSource_editLine_iff_bars :
    standard.HandlesBrackets ∧ Plain "a|b" ∧ Plain "|c|" ∧ Plain " 1 " ∧
      standard.expandSource (editLine "a|b" "|c|" " 1 ") (Random.Stream.ofSeed #[] 0) =
        (some (.ok (.ofText "[a|b:|c|:1]")), Random.Stream.ofSeed #[] 0) := by
  have plainFirst : Plain "a|b" := by decide
  have plainSecond : Plain "|c|" := by decide
  have plainStep : Plain " 1 " := by decide
  have single : ¬ ['|', '|'] <:+: "a|b".toList ++ ['|'] ∧ ¬ ['|', '|'] <:+: "|c|".toList := by
    decide
  have line : editLine "a|b" "|c|" (Text.trim " 1 ") = "[a|b:|c|:1]".toList := by decide
  have expanded := (expandSource_editLine_iff standard handlesBrackets_standard "a|b" "|c|" " 1 "
    plainFirst plainSecond plainStep (Random.Stream.ofSeed #[] 0)).2 single
  rw [line] at expanded
  exact ⟨handlesBrackets_standard, plainFirst, plainSecond, plainStep, expanded⟩

/-- The bar at the end of the first text comes to stand at the start of the second. -/
theorem expandSource_editLine_moves_bar :
    Plain "a|" ∧ Plain "b" ∧ Plain "1" ∧
      Expansion.text?
        (standard.expandSource (editLine "a|" "b" "1") (Random.Stream.ofSeed #[] 0)).1 =
          some "[a:|b:1]".toList ∧
      "[a:|b:1]".toList ≠ editLine "a|" "b" (Text.trim "1") := by
  refine ⟨by decide, by decide, by decide, by decide +kernel, by decide⟩

end Edits

end Engine

end DynamicPrompt
