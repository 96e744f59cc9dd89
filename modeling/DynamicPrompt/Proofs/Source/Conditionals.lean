import DynamicPrompt.Proofs.Source.Enclosure
import DynamicPrompt.Proofs.Source.Script
import DynamicPrompt.Proofs.Work

/-!
# Nested conditional blocks

Conditional blocks may be nested in each other to any depth. Each branch marker and each closer
belongs to the block that was opened last, so a script becomes the matches of its blocks, each
with the meanings of its own branches in their order.

A block is read by cutting its inside at its own branch markers; the branches are scripts and
are rewritten one level deeper. What the block pass writes has brackets only inside tags, and
the passes after it leave that alone.
-/

namespace DynamicPrompt.Source

section Reading

/-- A single name is a condition by itself. -/
theorem compile_name (condition : ConditionName) :
    Condition.compile (' ' :: condition.val) = (some condition.val, []) := by
  obtain ⟨name, filled, usual⟩ := condition
  have unspaced : ∀ c ∈ name, isBlank c = false := fun c member => (usual c member).2
  have trimmed : Text.trim (' ' :: name) = name := Text.trim_cons (by decide) unspaced
  have word : Condition.firstWord name = (name, []) := by
    rw [Condition.firstWord, Text.cutAt?_none unspaced]
  have nonempty : ¬ name.isEmpty = true := by
    rw [List.isEmpty_iff]
    exact filled
  unfold Condition.compile
  rw [trimmed]
  dsimp only
  rw [word]
  dsimp only
  rw [if_neg nonempty, if_pos List.isEmpty_nil]

/-- The conditions of the branches of a block are read one by one. -/
theorem compileAll_names (branches : List (Option ConditionName × Script)) :
    Condition.compileAll (branches.map fun branch => branch.1.map (' ' :: ·.val)) =
      (some (branches.map fun branch => branch.1.map (·.val)), []) := by
  induction branches with
  | nil => rfl
  | cons first others inductionHypothesis =>
    obtain ⟨condition, branch⟩ := first
    cases condition with
    | none =>
      rw [List.map_cons, Option.map_none, Condition.compileAll, inductionHypothesis]
      rfl
    | some condition =>
      rw [List.map_cons, Option.map_some, Condition.compileAll, compile_name, inductionHypothesis]
      rfl

/-- Cutting at branch markers passes a script, whose markers all belong to its blocks. -/
theorem branches_script (script : Script) (rest : Text) :
    branches 0 (script.source ++ rest) =
      (script.source ++ (branches 0 rest).1, (branches 0 rest).2) :=
  branches_closed script.source_closed (fun outside => absurd outside Bool.false_ne_true) rest

/-- The branch markers of a block are those that stand outside the blocks in its branches. -/
theorem branches_source (others : Branches) :
    branches 0 others.source =
      ([], others.toList.map fun branch => (branch.1.map (' ' :: ·.val), branch.2.source)) := by
  induction others with
  | none =>
    rw [Branches.source, branches]
    rfl
  | otherwise branch =>
    have passed := branches_script branch []
    rw [List.append_nil, branches, List.append_nil] at passed
    rw [Branches.source, elseTag_eq, branches_marker (.inr rfl) Arguments.nil.separate, passed]
    rfl
  | elseIf condition branch others inductionHypothesis =>
    rw [Branches.source, elifTag_eq, branches_marker (.inl rfl) condition.arguments.separate,
      branches_script, inductionHypothesis, List.append_nil]
    rfl

/-- What a block says: its conditions with their branches, and no warning. -/
theorem readIf_source (condition : ConditionName) (branch : Script) (others : Branches)
    (rest : Text) :
    Block.readIf (' ' :: condition.val) ((branch.source ++ others.source) ++ (endTag ++ rest)) =
      (some (.choose ((some condition.val, branch.source) ::
        others.toList.map fun branch => (branch.1.map (·.val), branch.2.source)), rest), []) := by
  have inner : Closed true (branch.source ++ others.source) :=
    branch.source_closed.inside.append others.source_closed
  have body : balanced? "if" 0 ((branch.source ++ others.source) ++ (endTag ++ rest)) =
      some (branch.source ++ others.source, rest) := by
    rw [balanced?_closed inner, endTag_eq, balanced?_closes]
    simp
  have cut : branches 0 (branch.source ++ others.source) =
      (branch.source,
        others.toList.map fun branch => (branch.1.map (' ' :: ·.val), branch.2.source)) := by
    rw [branches_script, branches_source, List.append_nil]
  have named : Condition.compileAll ((others.toList.map fun branch =>
      (branch.1.map (' ' :: ·.val), branch.2.source)).map (·.1)) =
        (some (others.toList.map fun branch => branch.1.map (·.val)), []) := by
    rw [List.map_map]
    exact compileAll_names others.toList
  unfold Block.readIf
  rw [compile_name]
  dsimp only
  rw [body]
  dsimp only
  rw [cut]
  dsimp only
  rw [named, List.map_map]
  dsimp only
  rw [Option.map_some, List.zip_map']
  rfl

/-- Characters that begin no command are passed. -/
theorem Block.pieces_run {run : Text} (plain : '<' ∉ run) (rest : Text) :
    Block.pieces (run ++ rest) = run.map Piece.plain ++ Block.pieces rest := by
  induction run with
  | nil => rfl
  | cons c run inductionHypothesis =>
    rw [List.mem_cons, not_or] at plain
    rw [List.cons_append, Block.pieces]
    split
    · rw [inductionHypothesis plain.2]
      rfl
    · next opener inside opens =>
      cases (opener?_plain (Ne.symm plain.1) _).symm.trans opens

/-- A conditional block that is read without a warning is one piece of the line. -/
theorem Block.pieces_if {arguments inside after : Text} {block : Block}
    (separate : Arguments arguments)
    (reading : readIf arguments inside = (some (block, after), [])) :
    Block.pieces (commandTag "if" arguments ++ inside) = .found block :: Block.pieces after := by
  have proper : IsKeyword "if" := by decide
  exact Block.pieces_found (opener?_command proper separate.separate inside) reading

end Reading

section Writing

variable {pass : Pass} {levels : Nat}

/-- An empty script has an empty meaning, and it is the only one. -/
theorem orEmpty_script (script : Script) : orEmpty script.directive = script.option := by
  cases script with
  | text words =>
    obtain ⟨words, plain⟩ := words
    cases words with
    | nil => rfl
    | cons c rest => rfl
  | block before condition branch others rest =>
    obtain ⟨before, plain⟩ := before
    cases before with
    | nil => rfl
    | cons c letters => rfl

/-- The cases of the branches, one by one. -/
theorem cases_eq (others : Branches) :
    (others.toList.map fun branch =>
      Block.caseDirective (branch.1.map (·.val)) branch.2.option).flatten = others.cases := by
  induction others with
  | none => rfl
  | otherwise branch =>
    rw [Branches.toList, List.map_singleton, List.flatten_singleton]
    rfl
  | elseIf condition branch others inductionHypothesis =>
    rw [Branches.toList, List.map_cons, List.flatten_cons, inductionHypothesis]
    rfl

/-- A block whose branches are filled with their meanings is written as its match. -/
theorem Block.write_choose (condition : ConditionName) (branch : Script) (others : Branches)
    (first : pass.filled branch.source = pure branch.option)
    (further : ∀ entry ∈ others.toList, pass.filled entry.2.source = pure entry.2.option) :
    Block.write pass (.choose ((some condition.val, branch.source) ::
        others.toList.map fun entry => (entry.1.map (·.val), entry.2.source))) =
      pure (matchTag (caseTag condition.val branch.option ++ others.cases)) := by
  have each : ∀ entry ∈ (some condition, branch) :: others.toList,
      (do return caseDirective (entry.1.map (·.val)) (← pass.filled entry.2.source)) =
        (pure (caseDirective (entry.1.map (·.val)) entry.2.option) : Reporting Text) := by
    intro entry member
    rcases List.mem_cons.1 member with rfl | later
    · rw [first, pure_bind]
    · rw [further entry later, pure_bind]
  have cases_written := mapM_eq_pure each
  have entries : (some condition.val, branch.source) ::
      others.toList.map (fun entry => (entry.1.map (·.val), entry.2.source)) =
        ((some condition, branch) :: others.toList).map
          fun entry => (entry.1.map (·.val), entry.2.source) := rfl
  rw [entries, Block.write, List.mapM_map, Function.comp_def, cases_written, pure_bind,
    List.map_cons, List.flatten_cons, cases_eq]
  rfl

/-- No branch is nested deeper than the branches together. -/
theorem depth_le (others : Branches) :
    ∀ entry ∈ others.toList, entry.2.depth ≤ others.depth := by
  intro entry member
  induction others with
  | none => exact absurd member List.not_mem_nil
  | otherwise branch =>
    obtain rfl := List.mem_singleton.1 member
    exact Nat.le_refl _
  | elseIf condition branch others inductionHypothesis =>
    rcases List.mem_cons.1 member with rfl | later
    · exact Nat.le_max_left _ _
    · exact Nat.le_trans (inductionHypothesis later) (Nat.le_max_right _ _)

/-- Plain text begins no command. -/
theorem plain_unopened (words : PlainText) : '<' ∉ words.val :=
  fun member => words.property.1 '<' member (by decide)

/-- A script one level deeper than its nested scripts are rewritten is written as its meaning,
block by block. -/
theorem write_script
    (nested : ∀ script : Script, script.depth < levels →
      pass.nested script.source = pure script.directive) :
    ∀ script : Script, script.depth < levels + 1 →
      writePieces (Block.write pass) (Block.pieces script.source) = pure script.directive
  | .text words, _ => by
    have pieces := Block.pieces_run (plain_unopened words) []
    rw [List.append_nil, Block.pieces, List.append_nil] at pieces
    rw [Script.source, pieces, writePieces_plain]
    rfl
  | .block before condition branch others rest, shallow => by
    rw [Script.depth, Nat.max_lt] at shallow
    have filled : ∀ script : Script, script.depth < levels →
        pass.filled script.source = pure script.option := by
      intro script below
      rw [Pass.filled, nested script below, pure_bind, orEmpty_script]
    have first := filled branch (by omega)
    have further : ∀ entry ∈ others.toList,
        pass.filled entry.2.source = pure entry.2.option := by
      intro entry member
      have below := depth_le others entry member
      exact filled entry.2 (by omega)
    rw [Script.source, Block.pieces_run (plain_unopened before), ifTag_eq,
      Block.pieces_if condition.arguments (readIf_source condition branch others rest.source),
      writePieces_passed, writePieces, Block.write_choose condition branch others first further,
      pure_bind, write_script nested rest shallow.2, pure_bind, map_pure]
    rfl

/-- The pass over blocks takes a script to its meaning. -/
theorem rewrite_script
    (nested : ∀ script : Script, script.depth < levels →
      pass.nested script.source = pure script.directive)
    (script : Script) (shallow : script.depth < levels + 1) :
    Block.rewrite pass script.source = pure script.directive := by
  have unmarked : Absent "<ppp:stn" (script.source ++ []) :=
    script.source_closed.unmarked (Absent.nil '<' _)
  rw [List.append_nil] at unmarked
  rw [Block.rewrite, withoutMarkers_of_absent unmarked]
  exact write_script nested script shallow

end Writing

section Meanings

variable {write : Text → Reporting Text} {opener closer : Char} {barred : Option Char}

/-- An unmarked character is no angle bracket. -/
theorem unmentioned_of_unmarked {c : Char} (unmarked : c ∉ blockMarks) :
    ¬ Brackets.tags.Mentions c := by
  rintro (opens | closes)
  · obtain rfl := List.mem_singleton.1 opens
    exact unmarked (by decide)
  · obtain rfl := List.mem_singleton.1 closes
    exact unmarked (by decide)

/-- Unmarked text is grouped. -/
theorem grouped_of_unmarked {text : Text} (unmarked : ∀ c ∈ text, c ∉ blockMarks) :
    Grouped Brackets.tags (fun _ => True) text := by
  refine .of_unmentioned fun c member => ⟨trivial, unmentioned_of_unmarked (unmarked c member), ?_⟩
  rintro rfl
  exact unmarked '\\' member (by decide)

/-- The case of a condition is grouped if its text is. -/
theorem grouped_caseTag (condition : ConditionName) {body rest : Text}
    (inside : Grouped Brackets.tags (fun _ => True) body)
    (others : Grouped Brackets.tags (fun _ => True) rest) :
    Grouped Brackets.tags (fun _ => True) (caseTag condition.val body ++ rest) := by
  have name : Grouped Brackets.tags (fun _ => True) "wccase[".toList := .of_unmentioned (by decide)
  have colon : Grouped Brackets.tags (fun _ => True) "]:".toList := .of_unmentioned (by decide)
  have unmarked := grouped_of_unmarked fun c member => (condition.property.2 c member).1
  rw [caseTag_append]
  exact .group (Brackets.Known.angle (.inl rfl))
    (name.append (unmarked.append (colon.append inside))) others

/-- The meaning of a branch is grouped if that of its script is. -/
theorem grouped_option {script : Script}
    (whole : Grouped Brackets.tags (fun _ => True) script.directive) :
    Grouped Brackets.tags (fun _ => True) script.option := by
  cases script with
  | text words =>
    obtain ⟨words, plain⟩ := words
    cases words with
    | nil =>
      have inner : Grouped Brackets.tags (fun _ => True) "comment:empty".toList :=
        .of_unmentioned (by decide)
      exact .group (Brackets.Known.angle (.inl rfl)) inner .nil
    | cons c rest => exact whole
  | block before condition branch others rest =>
    obtain ⟨before, plain⟩ := before
    cases before with
    | nil => exact whole
    | cons c letters => exact whole

mutual

/-- In the meaning of a script every tag is closed. -/
theorem Script.grouped : ∀ script : Script,
    Grouped Brackets.tags (fun _ => True) script.directive
  | .text words => grouped_of_unmarked words.property.1
  | .block before condition branch others rest => by
    have name : Grouped Brackets.tags (fun _ => True) "wcmatch:".toList :=
      .of_unmentioned (by decide)
    have cases_grouped := grouped_caseTag condition (grouped_option branch.grouped) others.grouped
    rw [Script.directive, matchTag_append]
    exact (grouped_of_unmarked before.property.1).append
      (.group (Brackets.Known.angle (.inl rfl)) (name.append cases_grouped) rest.grouped)

/-- In the cases of some branches every tag is closed. -/
theorem Branches.grouped : ∀ others : Branches,
    Grouped Brackets.tags (fun _ => True) others.cases
  | .none => .nil
  | .otherwise branch => by
    have name : Grouped Brackets.tags (fun _ => True) "wccase:".toList :=
      .of_unmentioned (by decide)
    have shape := lastCaseTag_append branch.option []
    rw [List.append_nil] at shape
    have last : Branches.cases (.otherwise branch) = lastCaseTag branch.option := rfl
    rw [last, shape]
    exact .group (Brackets.Known.angle (.inl rfl)) (name.append (grouped_option branch.grouped))
      .nil
  | .elseIf condition branch others =>
    grouped_caseTag condition (grouped_option branch.grouped) others.grouped

end

/-- Unmarked text is kept by the passes over brackets and braces. -/
theorem rewritten_unmarked {text rest result : Text} (unmarked : ∀ c ∈ text, c ∉ blockMarks)
    (marked : opener ∈ blockMarks) (barring : ∀ mark ∈ barred, mark ∈ blockMarks)
    (others : Rewritten write opener closer barred rest result) :
    Rewritten write opener closer barred (text ++ rest) (text ++ result) := by
  induction text with
  | nil => exact others
  | cons c text inductionHypothesis =>
    have plain : c ∉ blockMarks := unmarked c List.mem_cons_self
    have different : ∀ mark ∈ blockMarks, c ≠ mark := by
      rintro mark member rfl
      exact plain member
    have unbarred : some c ≠ barred := by
      rintro rfl
      exact plain (barring c rfl)
    exact .plain (different _ marked) (unmentioned_of_unmarked plain) (different '\\' (by decide))
      unbarred (inductionHypothesis fun d member => unmarked d (List.mem_cons_of_mem c member))

/-- The text of a block's match is grouped. -/
theorem grouped_match (condition : ConditionName) (branch : Script) (others : Branches) :
    Grouped Brackets.tags (fun _ => True)
      ("wcmatch:".toList ++ (caseTag condition.val branch.option ++ others.cases)) := by
  have name : Grouped Brackets.tags (fun _ => True) "wcmatch:".toList :=
    .of_unmentioned (by decide)
  exact name.append (grouped_caseTag condition (grouped_option branch.grouped) others.grouped)

/-- A block before the rest of a line becomes a tag before the meaning of the rest. -/
theorem directive_block (before : PlainText) (condition : ConditionName) (branch : Script)
    (others : Branches) (rest : Script) :
    (Script.block before condition branch others rest).directive = before.val ++
      '<' :: (("wcmatch:".toList ++ (caseTag condition.val branch.option ++ others.cases)) ++
        '>' :: rest.directive) := by
  rw [Script.directive, matchTag_append]
  rfl

/-- The passes over brackets and braces leave the meaning of a script alone. -/
theorem rewritten_script (marked : opener ∈ blockMarks)
    (barring : ∀ mark ∈ barred, mark ∈ blockMarks) : ∀ script : Script,
    Rewritten write opener closer barred script.directive script.directive
  | .text words => by
    have kept : Rewritten write opener closer barred (words.val ++ []) (words.val ++ []) :=
      rewritten_unmarked words.property.1 marked barring .nil
    rwa [List.append_nil] at kept
  | .block before condition branch others rest => by
    rw [directive_block]
    exact rewritten_unmarked before.property.1 marked barring
      (.tag (grouped_match condition branch others) (rewritten_script marked barring rest))

/-- The meaning of a script has no keyword of breaks outside its tags. -/
theorem markBreaks_script : ∀ (script : Script) (cursor : Cursor), cursor.depth = 0 →
    markBreaks cursor script.directive = script.directive
  | .text words, cursor, _ => by
    have plain : ∀ c ∈ words.val, ¬ Brackets.tags.Mentions c :=
      fun c member => unmentioned_of_unmarked (words.property.1 c member)
    have ends : ∀ c ∈ ([] : Text).head?, c ∉ breakWord := by simp
    obtain ⟨cursor', _, kept⟩ := markBreaks_run words.property.2 plain ends cursor
    rw [List.append_nil, markBreaks, List.append_nil] at kept
    exact kept
  | .block before condition branch others rest, cursor, outside => by
    have plain : ∀ c ∈ before.val, ¬ Brackets.tags.Mentions c :=
      fun c member => unmentioned_of_unmarked (before.property.1 c member)
    have opens : ∀ tag : Text, ∀ c ∈ ('<' :: tag).head?, c ∉ breakWord := by
      intro tag c starts
      obtain rfl : '<' = c := by simpa using starts
      decide
    rw [directive_block]
    obtain ⟨cursor', depth, kept⟩ := markBreaks_run before.property.2 plain (opens _) cursor
    rw [kept, markBreaks_keepsHeld.tag (.of_grouped (grouped_match condition branch others))
      (depth.trans outside), markBreaks_script rest _ rfl]
    simp

end Meanings

/-- While more levels are left than blocks are nested deep in a script, the script is rewritten
to its meaning, without a warning. The induction is on the levels: the branches are scripts and
are rewritten with one level less. -/
theorem rewriteWithin_script (transpiler : Transpiler) (levels : Nat) (script : Script)
    (shallow : script.depth < levels) :
    transpiler.rewriteWithin levels script.source = pure script.directive := by
  induction levels generalizing script with
  | zero => exact absurd shallow (Nat.not_lt_zero _)
  | succ levels inductionHypothesis =>
    have noUnderscore : '_' ∉ script.source := script.source_closed.absent (by decide) (by decide)
    have noDollar : '$' ∉ script.source := script.source_closed.absent (by decide) (by decide)
    exact passes_parts (Reference.apart_of_absent noUnderscore)
      (VariableUse.rewrite_of_absent _ noDollar)
      (rewrite_script inductionHypothesis script shallow)
      (rewritten_script (by decide) (by simp) script) (markBreaks_script script _ rfl)
      (rewritten_script (by decide) (by simp; decide) script)

/-- Nested conditional blocks are attributed to the block that was opened last. A script, nested
less deep than the limit, becomes the matches of its blocks: each has one case for each of its
own conditions in their order and one for its last resort, with the meanings of the branches
written there, and no warning is raised. -/
theorem transpile_script (transpiler : Transpiler) (script : Script)
    (shallow : script.depth < transpiler.limit) :
    transpiler.transpile script.source = pure script.directive := by
  have unlabelled : clauseLabels script.source = script.source :=
    clauseLabels_of_absent (script.source_closed.absent (by decide) (by decide))
      (script.source_closed.absent (by decide) (by decide))
  rw [Transpiler.transpile, unlabelled]
  exact rewriteWithin_script transpiler transpiler.limit script shallow

/-- A block whose first branch is a block with a last resort, and which has a further condition
and no last resort. -/
def nestedScript : Script :=
  let words (text : Text) (plain : (∀ c ∈ text, c ∉ blockMarks) ∧ ¬ breakWord <:+: text) :=
    Script.text ⟨text, plain⟩
  let nothing := words [] (by decide)
  let inner := Script.block ⟨['v'], by decide⟩ (.ofAlphanumeric ['b'] (by decide)) nothing
    (.otherwise (words ['y'] (by decide))) nothing
  .block ⟨[], by decide⟩ (.ofAlphanumeric ['a'] (by decide)) inner
    (.elseIf (.ofAlphanumeric ['c'] (by decide)) (words ['z'] (by decide)) .none)
    (words ['w'] (by decide))

/-- The last resort belongs to the inner block and the further condition to the outer one. -/
theorem transpile_script_nested :
    nestedScript.depth < Transpiler.standard.limit ∧
      nestedScript.source =
        "<ppp:if a>v<ppp:if b><ppp:else>y<ppp:/if><ppp:elif c>z<ppp:/if>w".toList ∧
      Transpiler.standard.transpile nestedScript.source =
        pure ("<wcmatch:<wccase[a]:v<wcmatch:<wccase[b]:<comment:empty>><wccase:y>>>" ++
          "<wccase[c]:z>>w").toList := by
  have shallow : nestedScript.depth < Transpiler.standard.limit := by decide
  have written : nestedScript.source =
      "<ppp:if a>v<ppp:if b><ppp:else>y<ppp:/if><ppp:elif c>z<ppp:/if>w".toList := by
    decide +kernel
  have meaning : nestedScript.directive =
      ("<wcmatch:<wccase[a]:v<wcmatch:<wccase[b]:<comment:empty>><wccase:y>>>" ++
        "<wccase[c]:z>>w").toList := by decide +kernel
  refine ⟨shallow, written, ?_⟩
  rw [transpile_script Transpiler.standard nestedScript shallow, meaning]

end DynamicPrompt.Source
