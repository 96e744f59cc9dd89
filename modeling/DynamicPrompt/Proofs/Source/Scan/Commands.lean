import DynamicPrompt.Proofs.Source.Scan

/-!
# Complete texts and commands

When the pass over blocks begins, every command in a complete text is the tag of a whole block. The scans
for a first closer, for a balancing closer and for the markers of branches all step over what begins no
command, and they pass the tags of a block together. So each of them passes a complete text as a whole,
whatever stands behind it.
-/

namespace DynamicPrompt.Source

/-- Arguments of a block may stand in a tag. -/
theorem AreArguments.separate {arguments : Text} (given : AreArguments arguments) :
    Separate arguments where
  separated := given.separated
  unopened member := given.free '<' member (by decide)
  unclosed member := given.free '>' member (by decide)

/-- No command begins in a quiet text, whatever stands behind it. -/
theorem Quiet.first {c : Char} {text : Text} (quiet : Quiet (c :: text)) (rest : Text) :
    foldedAfter? commandStart (c :: (text ++ rest)) = none := by
  have shape : commandStart = '<' :: 'p' :: "pp:".toList := rfl
  cases quiet with
  | plain different _ => rw [shape, foldedAfter?, if_neg fun same => different (sameLetter_angle same)]
  | opening harmless _ =>
    rw [shape, List.cons_append, foldedAfter?, foldedAfter?, harmless]
    simp

/-- The rest of a quiet text is quiet. -/
theorem Quiet.tail {c : Char} {text : Text} (quiet : Quiet (c :: text)) : Quiet text := by
  cases quiet with
  | plain _ others => exact others
  | opening _ others => exact others

/-- Where no command begins, no pattern begins that begins like every command. -/
theorem after?_of_absent {more text : Text} (absent : foldedAfter? commandStart text = none) :
    Text.after? (commandStart ++ more) text = none := by
  cases begins : Text.after? (commandStart ++ more) text with
  | none => rfl
  | some after =>
    have folded := foldedAfter?_of_after? begins
    rw [foldedAfter?_append absent] at folded
    cases folded

/-- A scan that steps over what begins no command and keeps it before what it finds behind it. -/
structure CommandScan (α : Type) where
  scan : Text → α
  keep : Text → α → α
  keep_nil : ∀ found, keep [] found = found
  keep_append : ∀ front back found, keep (front ++ back) found = keep front (keep back found)
  step : ∀ c rest, foldedAfter? commandStart (c :: rest) = none →
    scan (c :: rest) = keep [c] (scan rest)

namespace CommandScan

variable {α : Type} {scan : CommandScan α} {text rest : Text}

/-- The scan keeps the text, whatever stands behind it. -/
def Passes (scan : CommandScan α) (text : Text) : Prop :=
  ∀ rest, scan.scan (text ++ rest) = scan.keep text (scan.scan rest)

/-- Nothing is passed. -/
theorem Passes.nil : scan.Passes [] := fun _ => (scan.keep_nil _).symm

/-- Texts are passed one after the other. -/
theorem Passes.append (front : scan.Passes text) (back : scan.Passes rest) :
    scan.Passes (text ++ rest) := by
  intro more
  rw [List.append_assoc, front, back, scan.keep_append]

/-- A quiet text is passed. -/
theorem Passes.quiet (quiet : Quiet text) : scan.Passes text := by
  induction text with
  | nil => exact .nil
  | cons c text inductionHypothesis =>
    intro rest
    rw [List.cons_append, scan.step c _ (quiet.first rest), inductionHypothesis quiet.tail rest,
      ← scan.keep_append]
    rfl

/-- A tag is passed if the scan steps over its first character. -/
theorem Passes.tag (absent : '<' ∉ text)
    (steps : ∀ rest, scan.scan ('<' :: (text ++ rest)) = scan.keep ['<'] (scan.scan (text ++ rest))) :
    scan.Passes ('<' :: text) := by
  intro rest
  rw [List.cons_append, steps rest, Passes.quiet (.of_absent absent) rest, ← scan.keep_append]
  rfl

end CommandScan

/-- What is found behind a text that is kept. -/
def keepFound {α : Type} (text : Text) (found : Option (Text × α)) : Option (Text × α) :=
  found.map fun parts => (text ++ parts.1, parts.2)

/-- Nothing is kept before what is found. -/
theorem keepFound_nil {α : Type} (found : Option (Text × α)) : keepFound [] found = found := by
  cases found <;> rfl

/-- Texts are kept one after the other. -/
theorem keepFound_append {α : Type} (front back : Text) (found : Option (Text × α)) :
    keepFound (front ++ back) found = keepFound front (keepFound back found) := by
  cases found with
  | none => rfl
  | some parts => exact congrArg some (Prod.ext (List.append_assoc ..) rfl)

section Steps

variable {c : Char} {rest : Text}

/-- Where the pattern does not begin, the search for it goes on behind one character. -/
theorem cutAround?_step {pattern : Text} (missed : Text.after? pattern (c :: rest) = none) :
    Text.cutAround? pattern (c :: rest) = keepFound [c] (Text.cutAround? pattern rest) := by
  rw [Text.cutAround?, missed]
  rfl

/-- Where no marker of an insertion point begins, one character is kept. -/
theorem withoutMarkers_step (unmarked : afterMarker? (c :: rest) = none) :
    withoutMarkers (c :: rest) = (c :: (withoutMarkers rest).1, (withoutMarkers rest).2) := by
  rw [withoutMarkers]
  split
  · next after marks => cases unmarked.symm.trans marks
  · rfl

/-- Where neither the closer nor a tag begins, the search for the closer goes on behind one
character. -/
theorem balanced?_step {keyword : Text} (unclosed : Text.after? (closerOf keyword) (c :: rest) = none)
    (unopened : opener? (c :: rest) = none) (depth : Nat) :
    balanced? keyword depth (c :: rest) = keepFound [c] (balanced? keyword depth rest) := by
  rw [balanced?]
  split
  · next after closes => cases unclosed.symm.trans closes
  · split
    · next opener after opens => cases unopened.symm.trans opens
    · rfl

/-- Where neither the closer of a conditional block nor a tag begins, one character is kept in the
branch. -/
theorem branches_step (unclosed : Text.after? (closerOf "if") (c :: rest) = none)
    (unopened : opener? (c :: rest) = none) (depth : Nat) :
    branches depth (c :: rest) = (c :: (branches depth rest).1, (branches depth rest).2) := by
  rw [branches]
  split
  · next opener after opens => cases unopened.symm.trans opens
  · rw [unclosed]
    rfl

end Steps

/-- The search for the first occurrence of a pattern that begins like every command. -/
def firstScan (more : Text) : CommandScan (Option (Text × Text)) where
  scan := Text.cutAround? (commandStart ++ more)
  keep := keepFound
  keep_nil := keepFound_nil
  keep_append := keepFound_append
  step _ _ absent := cutAround?_step (after?_of_absent absent)

/-- The removal of the markers of insertion points. -/
def markerScan : CommandScan (Text × List Text) where
  scan := withoutMarkers
  keep text found := (text ++ found.1, found.2)
  keep_nil _ := rfl
  keep_append _ _ _ := Prod.ext (List.append_assoc ..) rfl
  step c rest absent := by
    have start : foldedAfter? "<ppp:stn" (c :: rest) = none := foldedAfter?_append absent
    exact withoutMarkers_step (by rw [afterMarker?, start])

/-- The search for the closer that balances an opener. -/
def balanceScan (keyword : Text) (depth : Nat) : CommandScan (Option (Text × Text)) where
  scan := balanced? keyword depth
  keep := keepFound
  keep_nil := keepFound_nil
  keep_append := keepFound_append
  step _ _ absent := balanced?_step (after?_of_absent absent) (opener?_of_absent absent) depth

/-- The search for the markers of branches. -/
def branchScan (depth : Nat) : CommandScan (Text × List (Option Text × Text)) where
  scan := branches depth
  keep text found := (text ++ found.1, found.2)
  keep_nil _ := rfl
  keep_append _ _ _ := Prod.ext (List.append_assoc ..) rfl
  step _ _ absent := branches_step (after?_of_absent absent) (opener?_of_absent absent) depth

/-- The reading of the blocks of a line. -/
def blockScan : CommandScan (List (Piece Block)) where
  scan := Block.pieces
  keep text found := text.map Piece.plain ++ found
  keep_nil _ := rfl
  keep_append front back found := by rw [List.map_append, List.append_assoc]
  step c rest absent := by
    rw [Block.pieces]
    split
    · rfl
    · next opener inside opens => cases (opener?_of_absent absent).symm.trans opens

/-- The keywords of blocks. -/
def constructKeywords : List Text := ["set", "echo", "if", "stn"]

/-- Keywords of blocks are keywords, and neither is one of a marker of a branch. -/
theorem isKeyword_of_construct : ∀ keyword ∈ constructKeywords,
    IsKeyword keyword ∧ ¬ (keyword = "elif" ∨ keyword = "else") := by decide

/-- A block stands between an opening tag and the closer of its keyword. Branches of a conditional block
stand between markers, too, and an addition to the negative prompt names no insertion point. -/
structure Construct.IsBlock (construct : Construct) (keyword arguments : Text)
    (others : List (Option Text)) : Prop where
  opens : construct.opener = commandTag keyword arguments
  closes : construct.closers = others.map branchMarker ++ [closerOf keyword]
  known : keyword ∈ constructKeywords
  given : AreArguments arguments
  marked : ∀ other ∈ others, ∀ arguments ∈ other, AreArguments arguments
  unmarked : keyword ≠ "if" → others = []
  first : keyword = "set" ∨ keyword = "echo" → construct.keyword? = some keyword
  uninserted : keyword = "stn" → ∀ c ∈ (Text.trimStart arguments).head?, sameLetter 'i' c = false

namespace Construct

variable {construct : Construct} {parts : List Text}

/-- Constructs of the pass over blocks are blocks. -/
theorem exists_isBlock (proper : construct.Proper) (block : construct.pass = 2) :
    ∃ keyword arguments others, construct.IsBlock keyword arguments others := by
  have unmarked {keyword : Text} : keyword ≠ "if" → ([] : List (Option Text)) = [] := fun _ => rfl
  have uninserted {keyword : Text} (other : keyword ≠ "stn") {holds : Prop} :
      keyword = "stn" → holds := fun same => absurd same other
  have first {keyword : Text} (other : ¬ (keyword = "set" ∨ keyword = "echo")) {holds : Prop} :
      keyword = "set" ∨ keyword = "echo" → holds := fun same => absurd same other
  cases construct with
  | reference filter => cases block
  | read name => cases block
  | use name operator => cases block
  | squares => cases block
  | braces => cases block
  | set arguments =>
    exact ⟨"set", arguments, [], rfl, rfl, by decide, proper.1, List.forall_mem_nil _, unmarked,
      fun _ => rfl, uninserted (by decide)⟩
  | echo arguments =>
    exact ⟨"echo", arguments, [], rfl, rfl, by decide, proper.1, List.forall_mem_nil _, unmarked,
      fun _ => rfl, uninserted (by decide)⟩
  | choose condition others =>
    exact ⟨"if", condition, others, rfl, rfl, by decide, proper.1, proper.2.1,
      fun differs => absurd rfl differs, first (by decide), uninserted (by decide)⟩
  | negative arguments =>
    exact ⟨"stn", arguments, [], rfl, rfl, by decide, proper.1, List.forall_mem_nil _, unmarked,
      first (by decide), fun _ => proper.2⟩

/-- What stands behind the last text stands behind them all. -/
theorem closed_last {between : List Text} (paired : parts.length = between.length + 1) (last : Text) :
    closed parts (between ++ [last]) = closed parts (between ++ [[]]) ++ last := by
  induction between generalizing parts with
  | nil =>
    obtain ⟨part, rfl⟩ := List.length_eq_one_iff.1 paired
    simp [closed]
  | cons marker between inductionHypothesis =>
    obtain ⟨part, parts, rfl⟩ := List.exists_cons_of_length_eq_add_one paired
    rw [List.cons_append, List.cons_append, closed, closed,
      inductionHypothesis (Nat.succ.inj paired), List.append_assoc, List.append_assoc]

/-- What stands in a block: its texts, with the markers of branches between them. -/
def inside (others : List (Option Text)) (parts : List Text) : Text :=
  closed parts (others.map branchMarker ++ [[]])

/-- A block as it is written. -/
theorem IsBlock.write_eq {keyword arguments : Text} {others : List (Option Text)}
    (block : construct.IsBlock keyword arguments others)
    (paired : parts.length = construct.closers.length) :
    construct.write parts =
      commandTag keyword arguments ++ (inside others parts ++ closerOf keyword) := by
  have counted : parts.length = (others.map branchMarker).length + 1 := by
    rw [paired, block.closes, List.length_append]
    rfl
  rw [write, block.opens, block.closes, closed_last counted]
  rfl

/-- What stands in a block is passed if its texts and its markers are. -/
theorem passes_inside {α : Type} {scan : CommandScan α} {others : List (Option Text)}
    (each : ∀ part ∈ parts, scan.Passes part)
    (markers : ∀ other ∈ others, scan.Passes (branchMarker other)) :
    scan.Passes (inside others parts) := by
  refine closed_of_parts .nil .append each ?_
  rw [List.forall_mem_append, List.forall_mem_map]
  exact ⟨markers, List.forall_mem_singleton.2 .nil⟩

end Construct

namespace Complete

variable {α ι : Type} {stage depth : Nat} {within : List Text} {text : Text}

/-- Scans that pass every block whose texts they pass, pass a complete text. -/
theorem passes {scans : ι → CommandScan α} (reached : 2 ≤ stage)
    (complete : Complete stage within depth text)
    (blocks : ∀ {construct : Construct} {keyword arguments : Text} {others : List (Option Text)}
      {parts : List Text}, construct.IsBlock keyword arguments others →
        (∀ word ∈ construct.keyword?, word ∉ within) →
          (∀ part ∈ parts, ∀ index, (scans index).Passes part) → ∀ index, (scans index).Passes
            (commandTag keyword arguments ++ (Construct.inside others parts ++ closerOf keyword))) :
    ∀ index, (scans index).Passes text := by
  refine @of_parts stage within depth text (fun text => ∀ index, (scans index).Passes text)
    (fun _ => .nil) (fun front back index => (front index).append (back index)) ?_ ?_ ?_ complete
  · intro c free index
    exact .quiet (.of_absent fun member => free (List.mem_singleton.1 member ▸ by decide))
  · intro name content harmless free inside index
    exact .quiet (Emitted.tag harmless free inside).isSealed.quiet
  · intro kind parts proper later allowed paired _ each index
    by_cases late : 3 ≤ kind.pass
    · have enclosed {opener closer : Char} (others : opener ≠ '<' ∧ closer ≠ '<')
          (opens : kind.opener = [opener]) (closes : kind.closers = [[closer]]) :
          (scans index).Passes (kind.write parts) := by
        rw [closes] at paired
        obtain ⟨part, rfl, written⟩ := Construct.exists_part paired
        rw [Construct.write, opens, closes, written]
        have closer : '<' ∉ [closer] := by simpa using others.2.symm
        have opener : '<' ∉ [opener] := by simpa using others.1.symm
        have inside := each part List.mem_cons_self index
        exact (CommandScan.Passes.quiet (.of_absent opener)).append
          (inside.append (.quiet (.of_absent closer)))
      rcases Construct.eq_of_le_pass late with ⟨rfl, _⟩ | ⟨rfl, _⟩
      · exact enclosed (by decide) rfl rfl
      · exact enclosed (by decide) rfl rfl
    · obtain ⟨keyword, arguments, others, block⟩ :=
        Construct.exists_isBlock proper (show kind.pass = 2 by omega)
      rw [block.write_eq paired]
      exact blocks block allowed each index

/-- A scan that passes every tag of a block passes a complete text. -/
theorem passes_tags {scan : CommandScan α} (reached : 2 ≤ stage)
    (complete : Complete stage within depth text)
    (tags : ∀ {construct : Construct} {keyword arguments : Text} {others : List (Option Text)},
      construct.IsBlock keyword arguments others → (∀ word ∈ construct.keyword?, word ∉ within) →
        scan.Passes (commandTag keyword arguments) ∧ scan.Passes (closerOf keyword))
    (markers : ∀ other : Option Text, (∀ arguments ∈ other, AreArguments arguments) →
      scan.Passes (branchMarker other)) : scan.Passes text := by
  refine @passes α Unit stage depth within text (fun _ => scan) reached complete ?_ ()
  intro construct keyword arguments others parts block allowed each _
  obtain ⟨opener, closer⟩ := tags block allowed
  exact opener.append ((Construct.passes_inside (fun part member => each part member ())
    fun other member => markers other (block.marked other member)).append closer)

end Complete

/-- The closer of one keyword is not that of another. -/
theorem after?_closer_other {keyword other : Text} (proper : IsKeyword keyword)
    (proper' : IsKeyword other) (different : other ≠ keyword) (rest : Text) :
    Text.after? (closerOf keyword) (closerOf other ++ rest) = none := by
  cases begins : Text.after? (closerOf keyword) (closerOf other ++ rest) with
  | none => rfl
  | some after =>
    have parts (word rest : Text) :
        closerOf word ++ rest = "<ppp:/".toList ++ (word ++ '>' :: rest) := by
      have shape : closerOf word = "<ppp:/".toList ++ word ++ ['>'] := rfl
      rw [shape, List.append_assoc, List.append_assoc]
      rfl
    have whole := Text.after?_eq_some_iff.1 begins
    rw [parts, parts] at whole
    have first := Text.cutAt?_behind (proper'.absent (show Char.isAlpha '>' = false by decide)) rest
    rw [List.append_cancel_left whole,
      Text.cutAt?_behind (proper.absent (show Char.isAlpha '>' = false by decide))] at first
    exact absurd (Prod.mk.inj (Option.some.inj first)).1.symm different

/-- Nothing but the first character of a tag begins a command. -/
theorem IsCommandTag.behind {tag : Text} (command : IsCommandTag tag) :
    ∃ inner, tag = '<' :: inner ∧ '<' ∉ inner := by
  obtain ⟨inner, rfl, free⟩ := command
  refine ⟨inner ++ ['>'], rfl, ?_⟩
  rw [List.mem_append, not_or]
  exact ⟨fun member => free '<' member (by decide), by decide⟩

/-- An addition to the negative prompt that names no insertion point is no marker of one. -/
theorem afterMarker?_negative {arguments : Text}
    (uninserted : ∀ c ∈ (Text.trimStart arguments).head?, sameLetter 'i' c = false) (rest : Text) :
    afterMarker? (commandTag "stn" arguments ++ rest) = none := by
  have begins : foldedAfter? "<ppp:stn" (commandTag "stn" arguments ++ rest) =
      some (arguments ++ '>' :: rest) := by
    refine foldedAfter?_of_after? (Text.after?_eq_some_iff.2 ?_)
    have start : "<ppp:stn".toList = commandStart ++ "stn".toList := rfl
    rw [start]
    simp [commandTag]
  obtain ⟨i, after, blanks, harmless⟩ : ∃ i after,
      (arguments ++ '>' :: rest).dropWhile isBlank = i :: after ∧ sameLetter 'i' i = false := by
    rw [List.dropWhile_append]
    cases trimmed : arguments.dropWhile isBlank with
    | nil => exact ⟨'>', rest, rfl, by decide⟩
    | cons i others => exact ⟨i, others ++ '>' :: rest, rfl, uninserted i (congrArg List.head? trimmed)⟩
  rw [afterMarker?, begins]
  dsimp only
  rw [blanks]
  split
  · next blank j others first same =>
    obtain ⟨rfl, rfl⟩ := List.cons.inj same
    split
    · simp [harmless]
    · rfl
  · rfl

section First

variable {more tag : Text}

/-- The search for a pattern passes a tag that does not begin with it. -/
theorem firstScan_tag (command : IsCommandTag tag)
    (missed : ∀ rest, Text.after? (commandStart ++ more) (tag ++ rest) = none) :
    (firstScan more).Passes tag := by
  obtain ⟨inner, rfl, absent⟩ := command.behind
  exact .tag absent fun rest => cutAround?_step (missed rest)

end First

namespace Complete

variable {stage depth : Nat} {within : List Text} {text : Text} (reached : 2 ≤ stage)
  (complete : Complete stage within depth text)

include reached complete

/-- In a block that ends at the first closer of its keyword stands no such closer. -/
theorem cutAround?_closer {keyword : Text} (first : keyword = "set" ∨ keyword = "echo")
    (inside : keyword ∈ within) (rest : Text) :
    Text.cutAround? (closerOf keyword) (text ++ (closerOf keyword ++ rest)) = some (text, rest) := by
  have proper : IsKeyword keyword := by
    rcases first with rfl | rfl <;> decide
  have passed : (firstScan ('/' :: (keyword ++ ['>']))).Passes text := by
    refine complete.passes_tags reached ?_ ?_
    · intro construct other arguments others block allowed
      have proper' := (isKeyword_of_construct other block.known).1
      have different : other ≠ keyword := by
        rintro rfl
        exact allowed other (block.first first) inside
      exact ⟨firstScan_tag (isCommandTag_commandTag proper' block.given)
          (after?_closer_tag proper' keyword arguments),
        firstScan_tag (isCommandTag_closerOf proper') (after?_closer_other proper proper' different)⟩
    · intro other given
      refine firstScan_tag (isCommandTag_branchMarker given) ?_
      cases other with
      | none => exact after?_closer_tag (by decide) keyword []
      | some arguments => exact after?_closer_tag (by decide) keyword arguments
  have here : Text.cutAround? (closerOf keyword) (closerOf keyword ++ rest) = some ([], rest) := by
    have begins : Text.after? (closerOf keyword) (closerOf keyword ++ rest) = some rest :=
      Text.after?_eq_some_iff.2 rfl
    rw [closerOf_append] at begins ⊢
    rw [Text.cutAround?, begins]
  have kept : keepFound text (some ([], rest)) = some (text, rest) := by simp [keepFound]
  exact (passed (closerOf keyword ++ rest)).trans ((congrArg (keepFound text) here).trans kept)

/-- In a block that reads a variable no other one begins. -/
theorem occursIn_echo (inside : "echo".toList ∈ within) : Text.occursIn "<ppp:echo" text = false := by
  have passed : (firstScan "echo".toList).Passes text := by
    refine complete.passes_tags reached ?_ ?_
    · intro construct other arguments others block allowed
      have proper := (isKeyword_of_construct other block.known).1
      refine ⟨firstScan_tag (isCommandTag_commandTag proper block.given) fun rest => ?_,
        firstScan_tag (isCommandTag_closerOf proper) fun rest => rfl⟩
      have known := block.known
      simp only [constructKeywords, List.mem_cons, List.not_mem_nil, or_false] at known
      rcases known with rfl | rfl | rfl | rfl
      · rfl
      · exact absurd inside (allowed "echo".toList (block.first (.inr rfl)))
      · rfl
      · rfl
    · intro other given
      refine firstScan_tag (isCommandTag_branchMarker given) fun rest => ?_
      cases other with
      | none => rfl
      | some arguments => rfl
  have missed := passed []
  rw [List.append_nil] at missed
  exact congrArg Option.isSome missed

/-- No insertion point is marked. -/
theorem withoutMarkers_eq : withoutMarkers text = (text, []) := by
  have passed : markerScan.Passes text := by
    have other {tag : Text} (command : IsCommandTag tag)
        (unmarked : ∀ rest, afterMarker? (tag ++ rest) = none) : markerScan.Passes tag := by
      obtain ⟨inner, rfl, absent⟩ := command.behind
      exact .tag absent fun rest => withoutMarkers_step (unmarked rest)
    refine complete.passes_tags reached ?_ ?_
    · intro construct word arguments others block allowed
      have proper := (isKeyword_of_construct word block.known).1
      refine ⟨other (isCommandTag_commandTag proper block.given) fun rest => ?_,
        other (isCommandTag_closerOf proper) fun rest => rfl⟩
      have known := block.known
      simp only [constructKeywords, List.mem_cons, List.not_mem_nil, or_false] at known
      rcases known with rfl | rfl | rfl | rfl
      · rfl
      · rfl
      · rfl
      · exact afterMarker?_negative (block.uninserted rfl) rest
    · intro condition given
      refine other (isCommandTag_branchMarker given) fun rest => ?_
      cases condition with
      | none => rfl
      | some arguments => rfl
  have missed := passed []
  rw [List.append_nil] at missed
  have ended : withoutMarkers [] = ([], []) := by rw [withoutMarkers]
  have whole : withoutMarkers text = (text ++ (withoutMarkers []).1, (withoutMarkers []).2) := missed
  rw [whole, ended, List.append_nil]

/-- The search for a balancing closer passes the text. -/
theorem passes_balance {keyword : Text} (balancing : keyword = "if" ∨ keyword = "stn") :
    ∀ depth, (balanceScan keyword depth).Passes text := by
  refine complete.passes reached ?_
  intro construct other arguments others parts block _ each depth
  have proper := (isKeyword_of_construct other block.known).1
  have markers (depth : Nat) : ∀ condition ∈ others,
      (balanceScan keyword depth).Passes (branchMarker condition) := by
    have different : "elif".toList ≠ keyword ∧ "else".toList ≠ keyword := by
      rcases balancing with rfl | rfl <;> decide
    intro condition member
    have given := block.marked condition member
    cases condition with
    | none => exact balanced?_other (by decide) different.2 areArguments_nil.separate depth
    | some condition => exact balanced?_other (by decide) different.1 (given condition rfl).separate depth
  by_cases same : other = keyword
  · subst same
    intro rest
    have inside : (balanceScan other (depth + 1)).Passes (Construct.inside others parts) :=
      Construct.passes_inside (fun part member => each part member (depth + 1)) (markers (depth + 1))
    have opened := balanced?_opener proper block.given.separate depth
      (Construct.inside others parts ++ (closerOf other ++ rest))
    have closed : balanced? other (depth + 1) (closerOf other ++ rest) =
        keepFound (closerOf other) (balanced? other depth rest) := balanced?_closes (depth + 1) rest
    have passed : balanced? other (depth + 1)
        (Construct.inside others parts ++ (closerOf other ++ rest)) =
          keepFound (Construct.inside others parts ++ closerOf other) (balanced? other depth rest) := by
      rw [keepFound_append, ← closed]
      exact inside _
    rw [passed] at opened
    rw [List.append_assoc, List.append_assoc]
    exact opened.trans (keepFound_append _ _ _).symm
  · have opener : (balanceScan keyword depth).Passes (commandTag other arguments) :=
      balanced?_other proper same block.given.separate depth
    have closer : (balanceScan keyword depth).Passes (closerOf other) := by
      have balancer : IsKeyword keyword := by
        rcases balancing with rfl | rfl <;> decide
      obtain ⟨inner, shape, absent⟩ := (isCommandTag_closerOf proper).behind
      have unclosed := after?_closer_other balancer proper same
      have unopened := opener?_closer other
      rw [shape] at unclosed unopened ⊢
      exact .tag absent fun rest => balanced?_step (unclosed rest) (unopened rest) depth
    exact opener.append ((Construct.passes_inside (fun part member => each part member depth)
      (markers depth)).append closer)

/-- The search for the markers of branches passes the text. -/
theorem passes_branches : ∀ depth, (branchScan depth).Passes text := by
  refine complete.passes reached ?_
  intro construct keyword arguments others parts block _ each depth
  obtain ⟨proper, noMarker⟩ := isKeyword_of_construct keyword block.known
  by_cases conditional : keyword = "if"
  · subst conditional
    intro rest
    have markers : ∀ condition ∈ others, (branchScan (depth + 1)).Passes (branchMarker condition) := by
      intro condition member
      have given := block.marked condition member
      cases condition with
      | none => exact branches_inner (.inr rfl) areArguments_nil.separate depth
      | some condition => exact branches_inner (.inl rfl) (given condition rfl).separate depth
    have inside : (branchScan (depth + 1)).Passes (Construct.inside others parts) :=
      Construct.passes_inside (fun part member => each part member (depth + 1)) markers
    have opened := branches_opener block.given.separate depth
      (Construct.inside others parts ++ (closerOf "if" ++ rest))
    have closed := branches_closer (depth + 1) rest
    rw [Nat.add_sub_cancel] at closed
    have passed : branches (depth + 1) (Construct.inside others parts ++ (closerOf "if" ++ rest)) =
        (Construct.inside others parts ++ (branches (depth + 1) (closerOf "if" ++ rest)).1,
          (branches (depth + 1) (closerOf "if" ++ rest)).2) := inside (closerOf "if" ++ rest)
    rw [passed, closed] at opened
    rw [List.append_assoc, List.append_assoc]
    refine opened.trans (Prod.ext ?_ rfl)
    rw [← List.append_assoc (Construct.inside others parts),
      ← List.append_assoc (commandTag "if" arguments)]
    rfl
  · have alone := block.unmarked conditional
    subst alone
    have opener : (branchScan depth).Passes (commandTag keyword arguments) := by
      intro rest
      have opened := branches_tag proper block.given.separate depth rest
      rwa [if_neg fun marks => noMarker marks.2, if_neg conditional] at opened
    have closer : (branchScan depth).Passes (closerOf keyword) := by
      obtain ⟨inner, shape, absent⟩ := (isCommandTag_closerOf proper).behind
      have unclosed := after?_closer_other (show IsKeyword "if" by decide) proper conditional
      have unopened := opener?_closer keyword
      rw [shape] at unclosed unopened ⊢
      exact .tag absent fun rest => branches_step (unclosed rest) (unopened rest) depth
    exact opener.append ((Construct.passes_inside (fun part member => each part member depth)
      (List.forall_mem_nil _)).append closer)

end Complete

end DynamicPrompt.Source
