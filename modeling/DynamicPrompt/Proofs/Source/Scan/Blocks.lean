import DynamicPrompt.Proofs.Source.Line.Condition
import DynamicPrompt.Proofs.Source.Scan.Commands
import DynamicPrompt.Proofs.Source.Scan.Variables

/-!
# Complete texts and blocks

The pass over blocks reads them from their tags, and in a complete text each block ends at the closer
that was written for it: those that end at the first closer hold no block of their own keyword, and
around the others the blocks inside are balanced. What is written for a block is a tag, or a few of them.
-/

namespace DynamicPrompt.Source

/-- Warnings of a reading are raised before what stands behind them is written. -/
theorem writePieces_notices {α : Type} (write : α → Reporting Text) (warnings : Warnings)
    (pieces : List (Piece α)) :
    writePieces write (warnings.map Piece.notice ++ pieces) =
      warnings.forM warn >>= fun _ => writePieces write pieces := by
  induction warnings with
  | nil => rfl
  | cons warning warnings inductionHypothesis =>
    rw [List.map_cons, List.cons_append, writePieces, inductionHypothesis, ← bind_assoc]
    rfl

namespace Block

/-- The scan of the pass. -/
def scan (pass : Pass) : Scan where
  State := Unit
  Ready _ := True
  run _ text := writePieces (write pass) (pieces text)

/-- A text in which no block begins is kept. -/
theorem turns_passed (pass : Pass) {text : Text} (passes : blockScan.Passes text) :
    (scan pass).Turns Anything text (· = text) :=
  .kept fun _ _ => ⟨(), trivial, fun rest _ =>
    (congrArg (writePieces (write pass)) (passes rest)).trans (writePieces_passed _ text _)⟩

/-- A block that is read turns into what is written for it. -/
theorem turns_read {pass : Pass} {keyword arguments inside : Text} {block : Block}
    {warnings : Warnings} {holds : Text → Prop} (proper : IsKeyword keyword)
    (given : AreArguments arguments)
    (reads : ∀ rest, read ⟨keyword, arguments, commandTag keyword arguments⟩
      (inside ++ (closerOf keyword ++ rest)) = (some (block, rest), warnings))
    (reports : Reports holds (write pass block)) :
    (scan pass).Turns Anything (commandTag keyword arguments ++ (inside ++ closerOf keyword)) holds := by
  refine ⟨warnings.forM warn >>= fun _ => write pass block,
    fun _ _ => ⟨(), trivial, fun rest _ => ?_⟩, ?_⟩
  · have whole : commandTag keyword arguments ++ (inside ++ closerOf keyword) ++ rest =
        commandTag keyword arguments ++ (inside ++ (closerOf keyword ++ rest)) := by
      rw [List.append_assoc, List.append_assoc]
    have found := pieces_found (opener?_command proper given.separate _) (reads rest)
    have written := writePieces_notices (write pass) warnings (.found block :: pieces rest)
    rw [bind_assoc, whole]
    exact (congrArg (writePieces (write pass)) found).trans written
  · exact (Reports.forM warnings fun warning => .warn warning).bind fun _ _ => reports

section Reading

variable {arguments : Text}

/-- What a block that sets a variable says. -/
theorem readSet_readable (proper : (Construct.set arguments).Proper) :
    ∃ name mode immediate warnings, Sealed name ∧ ∀ text, readSet arguments text =
      ((Text.cutAround? (closerOf "set") text).map fun parts =>
        (.set name mode immediate parts.1, parts.2), warnings) := by
  obtain ⟨given, readable⟩ := proper
  unfold readSet at readable ⊢
  split at readable
  · cases readable
  · next name words separated =>
    have among : name ∈ Text.words arguments := by
      rw [separated]
      exact List.mem_cons_self
    have free : ∀ c ∈ name, c ∉ constructMarks := fun c member =>
      given.free c ((Text.mem_of_mem_wordsFrom among member).resolve_left List.not_mem_nil)
    dsimp only at readable
    split at readable
    · cases readable
    · next exclusive => exact ⟨name, _, _, _, .of_free free, fun text => if_neg exclusive⟩

/-- What a block that reads a variable says. -/
theorem readEcho_complete (proper : (Construct.echo arguments).Proper) {within : List Text} {depth : Nat}
    {fallback : Text} (complete : Complete 2 ("echo".toList :: within) depth fallback) (rest : Text) :
    readEcho arguments (fallback ++ (closerOf "echo" ++ rest)) =
      (some (.echo (Text.trim arguments) (some fallback), rest), []) := by
  rw [readEcho, if_neg (fun empty => proper.2 (List.isEmpty_iff.1 empty)),
    complete.cutAround?_closer (Nat.le_refl 2) (.inr rfl) List.mem_cons_self]
  dsimp only
  rw [complete.occursIn_echo (Nat.le_refl 2) List.mem_cons_self, if_neg Bool.false_ne_true]

/-- A balanced text ends at the closer behind it. -/
theorem balanced?_ended {keyword text : Text} (passes : (balanceScan keyword 0).Passes text)
    (rest : Text) : balanced? keyword 0 (text ++ (closerOf keyword ++ rest)) = some (text, rest) := by
  have kept : keepFound text (some ([], rest)) = some (text, rest) := by simp [keepFound]
  have closed : balanced? keyword 0 (closerOf keyword ++ rest) = some ([], rest) :=
    balanced?_closes 0 rest
  exact (passes (closerOf keyword ++ rest)).trans ((congrArg (keepFound text) closed).trans kept)

/-- What an addition to the negative prompt says. -/
theorem readNegative_complete (arguments : Text) : ∃ atEnd warnings,
    ∀ {within : List Text} {depth : Nat} {content : Text}, Complete 2 within depth content → ∀ rest,
      readNegative arguments (content ++ (closerOf "stn" ++ rest)) =
        (some (.negative atEnd content, rest), warnings) := by
  have read {within : List Text} {depth : Nat} {content : Text}
      (complete : Complete 2 within depth content) (rest : Text) :
      balanced? "stn" 0 (content ++ (closerOf "stn" ++ rest)) = some (content, rest) :=
    balanced?_ended (complete.passes_balance (Nat.le_refl 2) (.inr rfl) 0) rest
  by_cases first : Text.lower (Text.trim arguments) = [] ∨ Text.lower (Text.trim arguments) = ['s']
  · refine ⟨false, [], fun complete rest => ?_⟩
    rw [readNegative, read complete]
    exact if_pos first
  · by_cases last : Text.lower (Text.trim arguments) = ['e']
    · refine ⟨true, [], fun complete rest => ?_⟩
      rw [readNegative, read complete]
      exact (if_neg first).trans (if_pos last)
    · by_cases point : isInsertionPoint (Text.lower (Text.trim arguments)) = true
      · refine ⟨true, [.insertionPoint (Text.lower (Text.trim arguments))], fun complete rest => ?_⟩
        rw [readNegative, read complete]
        exact (if_neg first).trans ((if_neg last).trans (if_pos point))
      · refine ⟨false, [.unknownPosition (Text.lower (Text.trim arguments))], fun complete rest => ?_⟩
        rw [readNegative, read complete]
        exact (if_neg first).trans ((if_neg last).trans (if_neg point))

/-- The branches of a conditional block are the texts between its markers. -/
theorem branches_inside {others : List (Option Text)} {first : Text} {parts : List Text}
    (each : ∀ part ∈ first :: parts, (branchScan 0).Passes part)
    (paired : parts.length = others.length)
    (given : ∀ other ∈ others, ∀ arguments ∈ other, AreArguments arguments) :
    branches 0 (Construct.inside others (first :: parts)) = (first, others.zip parts) := by
  induction others generalizing first parts with
  | nil =>
    obtain rfl := List.eq_nil_of_length_eq_zero paired
    have whole : Construct.inside [] [first] = first ++ [] := by
      simp [Construct.inside, Construct.closed]
    have ended : branches 0 [] = ([], []) := by rw [branches]
    have passed : branches 0 (first ++ []) = (first ++ (branches 0 []).1, (branches 0 []).2) :=
      each first List.mem_cons_self []
    rw [whole, passed, ended, List.append_nil, List.zip_nil_left]
  | cons other others inductionHypothesis =>
    obtain ⟨second, parts, rfl⟩ := List.exists_cons_of_length_eq_add_one paired
    rw [List.forall_mem_cons] at each given
    have behind := inductionHypothesis each.2 (Nat.succ.inj paired) given.2
    have whole : Construct.inside (other :: others) (first :: second :: parts) =
        first ++ (branchMarker other ++ Construct.inside others (second :: parts)) := rfl
    have marked : branches 0 (branchMarker other ++ Construct.inside others (second :: parts)) =
        ([], (other, second) :: others.zip parts) := by
      cases other with
      | none =>
        rw [branchMarker, branches_marker (.inr rfl) areArguments_nil.separate, behind]
        rfl
      | some condition =>
        rw [branchMarker, branches_marker (.inl rfl) (given.1 condition rfl).separate, behind]
        rfl
    have passed : branches 0 (first ++ (branchMarker other ++
        Construct.inside others (second :: parts))) = (first ++ (branches 0 (branchMarker other ++
          Construct.inside others (second :: parts))).1, (branches 0 (branchMarker other ++
            Construct.inside others (second :: parts))).2) := each.1 _
    rw [whole, passed, marked, List.append_nil]
    rfl

/-- What a conditional block says: its conditions, which have no marks of constructs, with their
branches. -/
theorem readIf_complete {condition : Text} {others : List (Option Text)}
    (proper : (Construct.choose condition others).Proper) :
    ∃ (compiled : Text) (conditions : List (Option Text)) (warnings : Warnings), Sealed compiled ∧
      (∀ other ∈ conditions, ∀ compiled ∈ other, Sealed compiled) ∧
        ∀ {within : List Text} {depth : Nat} {first : Text} {parts : List Text},
          (∀ part ∈ first :: parts, Complete 2 within depth part) → parts.length = others.length →
            ∀ rest, readIf condition
                (Construct.inside others (first :: parts) ++ (closerOf "if" ++ rest)) =
              (some (.choose ((some compiled, first) :: conditions.zip parts), rest), warnings) := by
  obtain ⟨given, marked, readable, readables⟩ := proper
  have foreign : ∀ mark ∈ constructMarks, Condition.IsForeign mark := by decide
  obtain ⟨compiled, first⟩ := Option.isSome_iff_exists.1 readable
  obtain ⟨conditions, further⟩ := Option.isSome_iff_exists.1 readables
  refine ⟨compiled, conditions, (Condition.compile condition).2 ++ (Condition.compileAll others).2,
    .of_free fun c member mark => ?_, fun other among text stated => .of_free fun c member mark => ?_,
    fun {within depth text parts} each paired rest => ?_⟩
  · exact Condition.not_mem_compile (foreign c mark) (fun inside => given.free c inside mark) first member
  · exact Condition.not_mem_compileAll (foreign c mark)
      (fun other among text stated inside => (marked other among text stated).free c inside mark)
      further other among text stated member
  · have markers : ∀ other ∈ others, (balanceScan "if" 0).Passes (branchMarker other) := by
      intro other among
      cases other with
      | none => exact balanced?_other (by decide) (by decide) areArguments_nil.separate 0
      | some condition =>
        exact balanced?_other (by decide) (by decide) (marked _ among condition rfl).separate 0
    have balanced : (balanceScan "if" 0).Passes (Construct.inside others (text :: parts)) :=
      Construct.passes_inside (fun part member =>
        (each part member).passes_balance (Nat.le_refl 2) (.inl rfl) 0) markers
    have cut := branches_inside (fun part member =>
      (each part member).passes_branches (Nat.le_refl 2) 0) paired marked
    have whole : Condition.compile condition = (some compiled, (Condition.compile condition).2) :=
      Prod.ext first rfl
    have wholes : Condition.compileAll others = (some conditions, (Condition.compileAll others).2) :=
      Prod.ext further rfl
    rw [readIf, whole]
    dsimp only
    rw [balanced?_ended balanced]
    dsimp only
    rw [cut]
    dsimp only
    rw [List.map_fst_zip (Nat.le_of_eq paired.symm), List.map_snd_zip (Nat.le_of_eq paired), wholes]
    rfl

end Reading

section Writing

variable {pass : Pass} {levels : Nat}

/-- The directive of a branch may stand for a construct. -/
theorem emitted_caseDirective {condition : Option Text} {text : Text}
    (given : ∀ stated ∈ condition, Sealed stated) (inside : Sealed text) :
    Emitted (caseDirective condition text) := by
  have colon : Sealed [':'] := .of_free (by decide)
  have harmless : "wccase".toList.head?.map (sameLetter 'p') = some false := by decide
  have closing : ">".toList = ['>'] := rfl
  cases condition with
  | none =>
    have opening : "<wccase:".toList = '<' :: ("wccase".toList ++ [':']) := rfl
    have whole := Emitted.tag harmless (by decide) (colon.append inside)
    unfold caseDirective
    simp only [opening, closing, List.append_assoc, List.cons_append, List.nil_append] at whole ⊢
    exact whole
  | some condition =>
    have opening : "<wccase[".toList = '<' :: ("wccase".toList ++ ['[']) := rfl
    have asking : "]:".toList = [']', ':'] := rfl
    have whole := Emitted.tag harmless (by decide) ((given condition rfl).squared (colon.append inside))
    unfold caseDirective
    simp only [opening, asking, closing, List.append_assoc, List.cons_append,
      List.nil_append] at whole ⊢
    exact whole

/-- Texts that may stand in a tag may stand there one after the other. -/
theorem sealed_flatten {texts : List Text} (each : ∀ text ∈ texts, Sealed text) :
    Sealed texts.flatten := by
  induction texts with
  | nil => exact .nil
  | cons first rest inductionHypothesis =>
    rw [List.forall_mem_cons] at each
    exact each.1.append (inductionHypothesis each.2)

variable (completes : pass.Completes levels)

include completes

/-- The directives of branches may stand for a conditional block. -/
theorem write_choose_emitted {branches : List (Option Text × Text)}
    (each : ∀ branch ∈ branches, (∀ stated ∈ branch.1, Sealed stated) ∧
      Complete 0 [] levels branch.2) : Reports Emitted (write pass (.choose branches)) := by
  refine (Reports.mapM fun branch member => (completes.filled (each branch member).2).bind
    fun written complete => .pure (emitted_caseDirective (each branch member).1
      (complete.isSealed (Nat.le_refl 5)))).bind fun written known => .pure ?_
  have colon : Sealed [':'] := .of_free (by decide)
  have inside : Sealed written.flatten := sealed_flatten fun text member => (known text member).isSealed
  have opening : "<wcmatch:".toList = '<' :: ("wcmatch".toList ++ [':']) := rfl
  have closing : ">".toList = ['>'] := rfl
  have harmless : "wcmatch".toList.head?.map (sameLetter 'p') = some false := by decide
  have whole := Emitted.tag harmless (by decide) (colon.append inside)
  simp only [opening, closing, List.append_assoc, List.cons_append, List.nil_append] at whole ⊢
  exact whole

/-- The directive of an addition to the negative prompt may stand for the block. -/
theorem write_negative_emitted (atEnd : Bool) {content : Text} (complete : Complete 0 [] levels content) :
    Reports Emitted (write pass (.negative atEnd content)) := by
  have comma : Sealed ", " := .of_free (by decide)
  have colon : Sealed [':'] := .of_free (by decide)
  have harmless : "wcnegative".toList.head?.map (sameLetter 'p') = some false := by decide
  cases atEnd with
  | true =>
    refine (completes.complete complete).bind fun written known => .pure ?_
    have opening : "<wcnegative:, ".toList = '<' :: ("wcnegative".toList ++ ':' :: ", ".toList) := rfl
    have closing : ">".toList = ['>'] := rfl
    have whole := Emitted.tag harmless (by decide)
      (colon.append (comma.append (known.isSealed (Nat.le_refl 5))))
    simp only [opening, closing, List.append_assoc, List.cons_append, List.nil_append] at whole ⊢
    exact whole
  | false =>
    refine (completes.complete complete).bind fun written known => .pure ?_
    have opening : "<wcnegative[prepend]:".toList =
      '<' :: ("wcnegative".toList ++ '[' :: ("prepend".toList ++ [']', ':'])) := rfl
    have closing : ", >".toList = ", ".toList ++ ['>'] := rfl
    have word : Sealed "prepend" := .of_free (by decide)
    have whole := Emitted.tag harmless (by decide)
      (word.squared (colon.append ((known.isSealed (Nat.le_refl 5)).append comma)))
    simp only [opening, closing, List.append_assoc, List.cons_append, List.nil_append] at whole ⊢
    exact whole

/-- The scan of the pass. -/
theorem handles : (scan pass).Handles 2 3 levels where
  char {c} free := by
    have absent : '<' ∉ [c] := fun member => free (List.mem_singleton.1 member ▸ by decide)
    exact (turns_passed pass (.quiet (.of_absent absent))).before_mono fun _ _ => trivial
  tag harmless free inside :=
    turns_passed pass (.quiet (Emitted.tag harmless free inside).isSealed.quiet)
  opener _ later := by
    rcases Construct.eq_of_le_pass later with ⟨rfl, _⟩ | ⟨rfl, _⟩
    · exact turns_passed pass (.quiet (.of_absent (by decide)))
    · exact turns_passed pass (.quiet (.of_absent (by decide)))
  closers _ later := by
    rcases Construct.eq_of_le_pass later with ⟨rfl, _⟩ | ⟨rfl, _⟩
    · exact List.forall_mem_singleton.2 (turns_passed pass (.quiet (.of_absent (by decide))))
    · exact List.forall_mem_singleton.2 (turns_passed pass (.quiet (.of_absent (by decide))))
  own {kind parts within depth} proper reached later allowed paired _ each shallow := by
    have inner : ∀ part ∈ parts, Complete 0 [] levels part := fun part member =>
      (each part member).weaken (Nat.zero_le 2) (List.nil_subset _) shallow
    cases kind with
    | set arguments =>
      obtain ⟨value, rfl, written⟩ := Construct.exists_part paired
      obtain ⟨name, mode, immediate, warnings, named, reads⟩ := readSet_readable proper
      have complete := each value List.mem_cons_self
      have reading (rest : Text) : read ⟨"set", arguments, commandTag "set" arguments⟩
          (value ++ (closerOf "set" ++ rest)) =
            (some (.set name mode immediate value, rest), warnings) := by
        have found := reads (value ++ (closerOf "set" ++ rest))
        rwa [complete.cutAround?_closer (Nat.le_refl 2) (.inl rfl) List.mem_cons_self] at found
      rw [Construct.write, Construct.closers, written]
      exact turns_read (by decide) proper.1 reading
        ((completes.filled (inner value List.mem_cons_self)).bind fun text known =>
          .pure (emitted_assignDirectives named (known.isSealed (Nat.le_refl 5)) mode immediate))
    | echo arguments =>
      obtain ⟨fallback, rfl, written⟩ := Construct.exists_part paired
      have named : Sealed (Text.trim arguments) := .of_free fun c member =>
        proper.1.free c ((Text.trim_infix arguments).subset member)
      rw [Construct.write, Construct.closers, written]
      exact turns_read (by decide) proper.1 (readEcho_complete proper (each fallback List.mem_cons_self))
        ((completes.complete (inner fallback List.mem_cons_self)).bind fun text known =>
          .pure (emitted_readDirectives named (known.isSealed (Nat.le_refl 5))))
    | choose condition others =>
      have counted : parts.length = (others.map branchMarker).length + 1 := by
        rw [paired, Construct.closers, List.length_append]
        rfl
      obtain ⟨first, parts, rfl⟩ := List.exists_cons_of_length_eq_add_one counted
      have shared : parts.length = others.length := by
        rw [List.length_cons, List.length_map] at counted
        exact Nat.succ.inj counted
      obtain ⟨compiled, conditions, warnings, stated, others', reads⟩ := readIf_complete proper
      rw [Construct.write, Construct.closers, Construct.closed_last counted]
      refine turns_read (by decide) proper.1 (reads each shared) (write_choose_emitted completes ?_)
      rw [List.forall_mem_cons] at inner ⊢
      refine ⟨⟨?_, inner.1⟩, fun branch member => ?_⟩
      · rintro _ ⟨⟩
        exact stated
      · obtain ⟨condition, text⟩ := branch
        have among := List.of_mem_zip member
        exact ⟨others' condition among.1, inner.2 text among.2⟩
    | negative arguments =>
      obtain ⟨content, rfl, written⟩ := Construct.exists_part paired
      obtain ⟨atEnd, warnings, reads⟩ := readNegative_complete arguments
      rw [Construct.write, Construct.closers, written]
      exact turns_read (by decide) proper.1 (reads (each content List.mem_cons_self))
        (write_negative_emitted completes atEnd (inner content List.mem_cons_self))
    | reference filter => exact absurd later (by simp [Construct.pass])
    | read name => exact absurd later (by simp [Construct.pass])
    | use name operator => exact absurd later (by simp [Construct.pass])
    | _ => exact absurd reached (by simp [Construct.pass])

/-- The pass makes complete texts of complete texts. -/
theorem rewrite_complete {text : Text} (complete : Complete 2 [] (levels + 1) text) :
    Reports (Complete 3 [] (levels + 1)) (rewrite pass text) := by
  have turns := complete.turns (handles completes) (by decide) (Nat.le_refl _)
  have ended : pieces [] = [] := by rw [pieces]
  rw [rewrite, complete.withoutMarkers_eq (Nat.le_refl 2)]
  exact (turns.reports (show (scan pass).Ready () from trivial)
    (fun _ => congrArg (writePieces (write pass)) ended) .nil).mono fun _ known => known.1

end Writing

end Block

end DynamicPrompt.Source
