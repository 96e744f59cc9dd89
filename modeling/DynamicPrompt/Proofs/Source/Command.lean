import DynamicPrompt.Proofs.Source.Untouched
import DynamicPrompt.Proofs.Text.Cut

/-!
# The scans over commands

Two scans run over the inside of a conditional block and count its nested blocks by themselves:
one looks for the closer, the other for the branch markers. Both pass a text in which every
block is closed as a whole, at any depth and whatever follows it, so they attribute closers and
markers to the same blocks.

A closer and an opening tag begin alike, and a scan that does not want a tag steps over its
first character only. The laws are therefore stated tag by tag before they are put together.
-/

namespace DynamicPrompt.Source

/-- The characters with a meaning of their own among conditional blocks. -/
def blockMarks : Text := "<>[]\x7b\x7d$_|\\\x27\x22"

/-- An opening tag as it is written. -/
def commandTag (keyword arguments : Text) : Text := commandStart ++ keyword ++ arguments ++ ['>']

/-- The keywords of conditional blocks. -/
def blockKeywords : List Text := ["if", "elif", "else"]

/-- A branch marker is a tag of a conditional block. -/
theorem known_marker {keyword : Text} (marks : keyword = "elif" ∨ keyword = "else") :
    keyword ∈ blockKeywords := by
  rcases marks with rfl | rfl <;> decide

/-- A branch marker opens no block. -/
theorem marker_ne_if {keyword : Text} (marks : keyword = "elif" ∨ keyword = "else") :
    keyword ≠ "if" := by
  rcases marks with rfl | rfl <;> decide

/-- Arguments that stand apart from their keyword and have no mark. -/
structure Arguments (arguments : Text) : Prop where
  separated : ∀ c ∈ arguments.head?, c = ' '
  unmarked : ∀ c ∈ arguments, c ∉ blockMarks

/-- Arguments that stand apart from their keyword and neither begin nor end a tag. -/
structure Separate (arguments : Text) : Prop where
  separated : ∀ c ∈ arguments.head?, c = ' '
  unopened : '<' ∉ arguments
  unclosed : '>' ∉ arguments

/-- No angle bracket is without a mark. -/
theorem Arguments.separate {arguments : Text} (given : Arguments arguments) : Separate arguments where
  separated := given.separated
  unopened member := given.unmarked '<' member (by decide)
  unclosed member := given.unmarked '>' member (by decide)

/-- A tag begins with the character that begins every command. -/
theorem commandTag_eq (keyword arguments : Text) :
    commandTag keyword arguments = '<' :: ("ppp:".toList ++ keyword ++ arguments ++ ['>']) := rfl

/-- The keyword of a command: small letters, one at least. -/
structure IsKeyword (keyword : Text) : Prop where
  filled : keyword ≠ []
  letters : ∀ c ∈ keyword, c.isAlpha = true ∧ c.toLower = c

instance (keyword : Text) : Decidable (IsKeyword keyword) :=
  decidable_of_iff (keyword ≠ [] ∧ ∀ c ∈ keyword, c.isAlpha = true ∧ c.toLower = c)
    ⟨fun both => ⟨both.1, both.2⟩, fun proper => ⟨proper.filled, proper.letters⟩⟩

/-- No other character than letters stands in a keyword. -/
theorem IsKeyword.absent {keyword : Text} (proper : IsKeyword keyword) {mark : Char}
    (wordless : mark.isAlpha = false) : mark ∉ keyword := by
  intro member
  rw [(proper.letters mark member).1] at wordless
  exact absurd wordless.symm Bool.false_ne_true

/-- The keywords of conditional blocks are keywords. -/
theorem isKeyword_of_known : ∀ keyword ∈ blockKeywords, IsKeyword keyword := by decide

/-- An opening tag is read as such if a blank separates its arguments from its keyword. -/
theorem opener?_command {keyword arguments : Text} (proper : IsKeyword keyword)
    (separate : Separate arguments) (rest : Text) :
    opener? (commandTag keyword arguments ++ rest) =
      some (⟨keyword, arguments, commandTag keyword arguments⟩, rest) := by
  have alphabetic : keyword.all Char.isAlpha = true :=
    List.all_eq_true.2 fun c member => (proper.letters c member).1
  have filled : keyword.isEmpty = false := List.isEmpty_eq_false_iff.2 proper.filled
  have small : keyword.map Char.toLower = keyword := by
    conv_rhs => rw [← List.map_id keyword]
    exact List.map_congr_left fun c member => (proper.letters c member).2
  have begins : Text.after? commandStart (commandTag keyword arguments ++ rest) =
      some (keyword ++ (arguments ++ '>' :: rest)) := by
    rw [Text.after?_eq_some_iff]
    simp [commandTag]
  have ends : ∀ c ∈ (arguments ++ '>' :: rest).head?, Char.isAlpha c = false := by
    intro c member
    cases arguments with
    | nil =>
      obtain rfl : '>' = c := by simpa using member
      decide
    | cons d others =>
      obtain rfl : d = c := by simpa using member
      rw [separate.separated d rfl]
      decide
  unfold opener?
  rw [begins]
  dsimp only
  rw [Text.takeWhile_run alphabetic ends, Text.dropWhile_run alphabetic ends,
    Text.cutAt?_behind separate.unclosed]
  dsimp only
  rw [filled, small]
  cases arguments with
  | nil => rfl
  | cons d others =>
    have blank : isBlank d = true := by
      rw [separate.separated d rfl]
      decide
    rw [if_pos (by simp [blank])]
    rfl

/-- A block that is read is one piece of the line, behind the warnings of its reading. -/
theorem Block.pieces_found {text inside after : Text} {opener : Opener} {block : Block}
    {warnings : Warnings} (opens : opener? text = some (opener, inside))
    (reading : read opener inside = (some (block, after), warnings)) :
    Block.pieces text = warnings.map Piece.notice ++ .found block :: Block.pieces after := by
  cases text with
  | nil => exact absurd opens (by rintro ⟨⟩)
  | cons c rest =>
    rw [Block.pieces]
    split
    · next missed => cases opens.symm.trans missed
    · next opener' beyond found =>
      obtain ⟨rfl, rfl⟩ := Prod.mk.inj (Option.some.inj (opens.symm.trans found))
      dsimp only
      rw [reading]

/-- A character other than the first of a command begins no tag. -/
theorem opener?_plain {c : Char} (plain : c ≠ '<') (rest : Text) : opener? (c :: rest) = none := by
  have missed : Text.after? commandStart (c :: rest) = none := by
    have different : ¬ '<' = c := fun same => plain same.symm
    have shape : commandStart = '<' :: "ppp:".toList := rfl
    rw [shape, Text.after?, if_neg different]
  rw [opener?, missed]

/-- A closer is no opening tag. -/
theorem opener?_closer (keyword rest : Text) : opener? (closerOf keyword ++ rest) = none := by
  have begins : Text.after? commandStart (closerOf keyword ++ rest) =
      some ('/' :: (keyword ++ '>' :: rest)) := by
    rw [Text.after?_eq_some_iff]
    unfold closerOf commandStart
    simp
  have wordless : ('/' :: (keyword ++ '>' :: rest)).takeWhile Char.isAlpha = [] := by
    rw [List.takeWhile_cons_of_neg (by decide)]
  unfold opener?
  rw [begins]
  dsimp only
  rw [wordless]
  split
  · rfl
  · rfl

/-- A closer as it is written. -/
theorem closerOf_eq (keyword : Text) :
    closerOf keyword = '<' :: ("ppp:/".toList ++ keyword ++ ['>']) := rfl

/-- No other characters stand in a closer than in its keyword and around that. -/
theorem IsKeyword.absent_closer {keyword : Text} (proper : IsKeyword keyword) {mark : Char}
    (wordless : mark.isAlpha = false) (outside : mark ∉ "<ppp:/>".toList) :
    mark ∉ closerOf keyword := by
  rw [closerOf_eq]
  simpa [proper.absent wordless] using outside

/-- A character other than the first of a command begins no closer. -/
theorem after?_closer_plain {c : Char} (plain : c ≠ '<') (keyword rest : Text) :
    Text.after? (closerOf keyword) (c :: rest) = none := by
  have different : ¬ '<' = c := fun same => plain same.symm
  rw [closerOf_eq, Text.after?, if_neg different]

/-- An opening tag is no closer. -/
theorem after?_closer_tag {keyword : Text} (proper : IsKeyword keyword)
    (closed arguments rest : Text) :
    Text.after? (closerOf closed) (commandTag keyword arguments ++ rest) = none := by
  have noSlash : '/' ∉ keyword := proper.absent (by decide)
  have filled := proper.filled
  cases keyword with
  | nil => exact absurd rfl filled
  | cons c letters =>
    have different : c ≠ '/' := by
      rintro rfl
      exact noSlash List.mem_cons_self
    cases found : Text.after? (closerOf closed) (commandTag (c :: letters) arguments ++ rest) with
    | none => rfl
    | some after =>
      rw [Text.after?_eq_some_iff] at found
      unfold commandTag closerOf commandStart at found
      simp [different] at found

/-- A tag of a command begins with an angle bracket and holds no other. -/
theorem absent_name {keyword arguments : Text} (proper : IsKeyword keyword)
    (separate : Separate arguments) : '<' ∉ "ppp:".toList ++ keyword ++ arguments ++ ['>'] := by
  have letters : '<' ∉ keyword := proper.absent (by decide)
  simp [letters, separate.unopened]

/-- Texts of conditional blocks in which every block is closed. Whether branch markers may stand
outside every block depends on whether the text is the inside of one. -/
inductive Closed : Bool → Text → Prop where
  | nil {inside : Bool} : Closed inside []
  | plain {inside : Bool} {c : Char} {rest : Text} (unmarked : c ∉ blockMarks)
      (others : Closed inside rest) : Closed inside (c :: rest)
  | marker {keyword arguments rest : Text} (known : keyword = "elif" ∨ keyword = "else")
      (separate : Arguments arguments) (others : Closed true rest) :
      Closed true (commandTag keyword arguments ++ rest)
  | block {inside : Bool} {arguments body rest : Text} (separate : Arguments arguments)
      (nested : Closed true body) (others : Closed inside rest) :
      Closed inside (commandTag "if" arguments ++ (body ++ (closerOf "if" ++ rest)))

namespace Closed

/-- Texts with all blocks closed may follow each other. -/
theorem append {inside : Bool} {first second : Text} (front : Closed inside first)
    (back : Closed inside second) : Closed inside (first ++ second) := by
  induction front with
  | nil => exact back
  | plain unmarked _ inductionHypothesis => exact .plain unmarked (inductionHypothesis back)
  | marker known separate _ inductionHypothesis =>
    rw [List.append_assoc]
    exact .marker known separate (inductionHypothesis back)
  | block separate nested _ _ inductionHypothesis =>
    rw [List.append_assoc, List.append_assoc, List.append_assoc]
    exact .block separate nested (inductionHypothesis back)

/-- Text without marks has no blocks to close. -/
theorem of_unmarked {inside : Bool} {text : Text} (unmarked : ∀ c ∈ text, c ∉ blockMarks) :
    Closed inside text := by
  induction text with
  | nil => exact .nil
  | cons c rest inductionHypothesis =>
    exact .plain (unmarked c List.mem_cons_self)
      (inductionHypothesis fun d member => unmarked d (List.mem_cons_of_mem c member))

/-- A mark that no tag uses stands nowhere in the text. -/
theorem absent {inside : Bool} {text : Text} {mark : Char} (closed : Closed inside text)
    (marked : mark ∈ blockMarks) (unused : mark ∉ "<ppp:/elifs >".toList) : mark ∉ text := by
  have tag_free : ∀ keyword ∈ blockKeywords, ∀ arguments, Arguments arguments →
      mark ∉ commandTag keyword arguments := by
    intro keyword known arguments separate member
    have letters : ∀ keyword ∈ blockKeywords, ∀ c ∈ commandStart ++ keyword ++ ['>'],
        c ∈ "<ppp:/elifs >".toList := by decide
    simp only [commandTag, List.mem_append] at member
    rcases member with ((start | word) | argument) | last
    · exact unused (letters keyword known mark (by simp [start]))
    · exact unused (letters keyword known mark (by simp [word]))
    · exact separate.unmarked mark argument marked
    · exact unused (letters keyword known mark (List.mem_append.2 (.inr last)))
  have closer_free : mark ∉ closerOf "if" := by
    intro member
    have letters : ∀ c ∈ closerOf "if", c ∈ "<ppp:/elifs >".toList := by decide
    exact unused (letters mark member)
  induction closed with
  | nil => exact List.not_mem_nil
  | @plain _ c _ unmarked _ inductionHypothesis =>
    rw [List.mem_cons, not_or]
    refine ⟨?_, inductionHypothesis⟩
    rintro rfl
    exact unmarked marked
  | @marker keyword _ _ known separate _ inductionHypothesis =>
    rw [List.mem_append, not_or]
    exact ⟨tag_free _ (known_marker known) _ separate, inductionHypothesis⟩
  | block separate _ _ bodyFree restFree =>
    simp only [List.mem_append, not_or]
    exact ⟨tag_free _ (by decide) _ separate, bodyFree, closer_free, restFree⟩

/-- A tag that is no addition to the negative prompt begins no marker of an insertion point. -/
theorem foldedAfter?_marker {c : Char} (harmless : sameLetter 's' c = false) (rest : Text) :
    foldedAfter? "<ppp:stn" ('<' :: ("ppp:".toList ++ c :: rest)) = none := by
  have shape : "<ppp:stn".toList = '<' :: 'p' :: 'p' :: 'p' :: ':' :: 's' :: "tn".toList := rfl
  have same : ∀ letter ∈ "<p:".toList, sameLetter letter letter = true := by decide
  rw [shape]
  simp [foldedAfter?, harmless, same]

/-- A tag that is no addition to the negative prompt adds no marker to the text after it. -/
theorem unmarked_tag {c : Char} {letters rest : Text} (harmless : sameLetter 's' c = false)
    (plain : '<' ∉ "ppp:".toList ++ c :: letters) (others : Absent "<ppp:stn" rest) :
    Absent "<ppp:stn" ('<' :: (("ppp:".toList ++ c :: letters) ++ rest)) := by
  have first := foldedAfter?_marker harmless (letters ++ rest)
  have behind : Absent "<ppp:stn" (("ppp:".toList ++ c :: letters) ++ rest) := .run plain others
  apply Absent.cons _ behind
  rw [List.append_assoc]
  exact first

/-- No marker of an insertion point stands among conditional blocks. -/
theorem unmarked {inside : Bool} {text rest : Text} (closed : Closed inside text)
    (others : Absent "<ppp:stn" rest) : Absent "<ppp:stn" (text ++ rest) := by
  have tag_unmarked : ∀ keyword ∈ blockKeywords, ∀ arguments, Arguments arguments → ∀ rest,
      Absent "<ppp:stn" rest → Absent "<ppp:stn" (commandTag keyword arguments ++ rest) := by
    intro keyword known arguments separate rest others
    have heads : ∀ keyword ∈ blockKeywords, keyword.head?.map (sameLetter 's') = some false := by
      decide
    have first := heads keyword known
    have plain := absent_name (isKeyword_of_known keyword known) separate.separate
    cases keyword with
    | nil => simp at first
    | cons c letters =>
      have harmless : sameLetter 's' c = false := Option.some.inj first
      have name : "ppp:".toList ++ (c :: letters) ++ arguments ++ ['>'] =
          "ppp:".toList ++ c :: (letters ++ arguments ++ ['>']) := by simp
      rw [commandTag_eq, List.cons_append]
      rw [name] at plain ⊢
      exact unmarked_tag harmless plain others
  have closer_unmarked : ∀ rest, Absent "<ppp:stn" rest →
      Absent "<ppp:stn" (closerOf "if" ++ rest) := by
    intro rest others
    have slash : sameLetter 's' '/' = false := by decide
    have plain : '<' ∉ "ppp:".toList ++ '/' :: "if>".toList := by decide
    exact unmarked_tag slash plain others
  induction closed generalizing rest with
  | nil => exact others
  | @plain _ c _ unmarked _ inductionHypothesis =>
    have different : c ≠ '<' := by
      rintro rfl
      exact unmarked (by decide)
    exact .plain different (inductionHypothesis others)
  | @marker keyword _ _ known separate _ inductionHypothesis =>
    rw [List.append_assoc]
    exact tag_unmarked keyword (known_marker known) _ separate _ (inductionHypothesis others)
  | block separate _ _ passBody passRest =>
    rw [List.append_assoc, List.append_assoc, List.append_assoc]
    have behind := closer_unmarked _ (passRest others)
    exact tag_unmarked _ (by decide) _ separate _ (passBody behind)

/-- Where markers may not stand, they may also be allowed. -/
theorem inside {outside : Bool} {text : Text} (closed : Closed outside text) :
    Closed true text := by
  induction closed with
  | nil => exact .nil
  | plain unmarked _ inductionHypothesis => exact .plain unmarked inductionHypothesis
  | marker known separate others _ => exact .marker known separate others
  | block separate nested _ _ inductionHypothesis =>
    exact .block separate nested inductionHypothesis

end Closed

section Closer

variable {keyword : Text}

/-- The search for a closer passes a character that begins no command. -/
theorem balanced?_plain {c : Char} (plain : c ≠ '<') (depth : Nat) (rest : Text) :
    balanced? keyword depth (c :: rest) =
      (balanced? keyword depth rest).map fun parts => (c :: parts.1, parts.2) := by
  rw [balanced?]
  split
  · next after closes => simp [after?_closer_plain plain] at closes
  · split
    · next opener after opens => simp [opener?_plain plain] at opens
    · rfl

/-- The search for a closer passes characters that begin no command. -/
theorem balanced?_run {run : Text} (plain : '<' ∉ run) (depth : Nat) (rest : Text) :
    balanced? keyword depth (run ++ rest) =
      (balanced? keyword depth rest).map fun parts => (run ++ parts.1, parts.2) := by
  induction run with
  | nil => simp
  | cons c run inductionHypothesis =>
    rw [List.mem_cons, not_or] at plain
    rw [List.cons_append, balanced?_plain (Ne.symm plain.1), inductionHypothesis plain.2,
      Option.map_map]
    rfl

/-- A closer begins like every command. -/
theorem closerOf_append (keyword rest : Text) :
    closerOf keyword ++ rest = '<' :: ("ppp:/".toList ++ keyword ++ ['>'] ++ rest) := rfl

/-- The closer that is met first at the outermost depth is the one searched for, and a closer
further in closes one block. -/
theorem balanced?_closes (depth : Nat) (rest : Text) :
    balanced? keyword depth (closerOf keyword ++ rest) =
      match depth with
      | 0 => some ([], rest)
      | inner + 1 =>
        (balanced? keyword inner rest).map fun parts => (closerOf keyword ++ parts.1, parts.2) := by
  have closes : Text.after? (closerOf keyword) (closerOf keyword ++ rest) = some rest :=
    Text.after?_eq_some_iff.2 rfl
  rw [closerOf_append] at closes ⊢
  rw [balanced?]
  split
  · next after found =>
    obtain rfl := Option.some.inj (closes.symm.trans found)
    cases depth with
    | zero => rfl
    | succ inner => rfl
  · next missed => cases closes.symm.trans missed

/-- At a tag the search goes on behind it, one block further in, if the tag opens a block of the
keyword. At any other tag it goes on behind the first character. -/
theorem balanced?_tag {other arguments : Text} (proper : IsKeyword other)
    (separate : Separate arguments) (depth : Nat) (rest : Text) :
    balanced? keyword depth (commandTag other arguments ++ rest) =
      if other = keyword then
        (balanced? keyword (depth + 1) rest).map
          fun parts => (commandTag other arguments ++ parts.1, parts.2)
      else
        (balanced? keyword depth (("ppp:".toList ++ other ++ arguments ++ ['>']) ++ rest)).map
          fun parts => ('<' :: parts.1, parts.2) := by
  have opens := opener?_command proper separate rest
  have unclosed := after?_closer_tag proper keyword arguments rest
  rw [commandTag_eq, List.cons_append] at opens unclosed ⊢
  rw [balanced?]
  split
  · next after closes => cases unclosed.symm.trans closes
  · split
    · next opener after found =>
      obtain ⟨rfl, rfl⟩ := Prod.mk.inj (Option.some.inj (opens.symm.trans found))
      rfl
    · next missed => cases opens.symm.trans missed

/-- An opening tag of the keyword opens one block more. -/
theorem balanced?_opener (proper : IsKeyword keyword) {arguments : Text}
    (separate : Separate arguments) (depth : Nat) (rest : Text) :
    balanced? keyword depth (commandTag keyword arguments ++ rest) =
      (balanced? keyword (depth + 1) rest).map
        fun parts => (commandTag keyword arguments ++ parts.1, parts.2) := by
  rw [balanced?_tag proper separate, if_pos rfl]

/-- The tag of another keyword counts for nothing. -/
theorem balanced?_other {other : Text} (proper : IsKeyword other) (different : other ≠ keyword)
    {arguments : Text} (separate : Separate arguments) (depth : Nat) (rest : Text) :
    balanced? keyword depth (commandTag other arguments ++ rest) =
      (balanced? keyword depth rest).map
        fun parts => (commandTag other arguments ++ parts.1, parts.2) := by
  rw [balanced?_tag proper separate, if_neg different,
    balanced?_run (absent_name proper separate), Option.map_map]
  rfl

/-- The search for the closer of a conditional block passes a text in which every block is
closed, and with it every branch marker. -/
theorem balanced?_closed {inside : Bool} {text : Text} (closed : Closed inside text) (depth : Nat)
    (rest : Text) :
    balanced? "if" depth (text ++ rest) =
      (balanced? "if" depth rest).map fun parts => (text ++ parts.1, parts.2) := by
  induction closed generalizing depth rest with
  | nil => simp
  | @plain _ c _ unmarked _ inductionHypothesis =>
    have plain : c ≠ '<' := by
      rintro rfl
      exact unmarked (by decide)
    rw [List.cons_append, balanced?_plain plain, inductionHypothesis, Option.map_map]
    rfl
  | @marker word arguments _ known separate _ inductionHypothesis =>
    rw [List.append_assoc, balanced?_other (isKeyword_of_known _ (known_marker known))
      (marker_ne_if known) separate.separate, inductionHypothesis, Option.map_map]
    simp [Function.comp_def]
  | block separate _ _ passBody passRest =>
    rw [List.append_assoc, List.append_assoc, List.append_assoc,
      balanced?_opener (by decide) separate.separate, passBody, balanced?_closes]
    dsimp only
    rw [passRest]
    simp [Function.comp_def]

end Closer

section Branches

/-- The search for branch markers passes a character that begins no command. -/
theorem branches_plain {c : Char} (plain : c ≠ '<') (depth : Nat) (rest : Text) :
    branches depth (c :: rest) = (c :: (branches depth rest).1, (branches depth rest).2) := by
  rw [branches]
  split
  · next opener after opens => cases (opener?_plain plain rest).symm.trans opens
  · rw [after?_closer_plain plain]
    rfl

/-- The search for branch markers passes characters that begin no command. -/
theorem branches_run {run : Text} (plain : '<' ∉ run) (depth : Nat) (rest : Text) :
    branches depth (run ++ rest) = (run ++ (branches depth rest).1, (branches depth rest).2) := by
  induction run with
  | nil => rfl
  | cons c run inductionHypothesis =>
    rw [List.mem_cons, not_or] at plain
    rw [List.cons_append, branches_plain (Ne.symm plain.1), inductionHypothesis plain.2]
    rfl

/-- A closer ends the block that was opened last, if there is one. -/
theorem branches_closer (depth : Nat) (rest : Text) :
    branches depth (closerOf "if" ++ rest) =
      (closerOf "if" ++ (branches (depth - 1) rest).1, (branches (depth - 1) rest).2) := by
  have closes : Text.after? (closerOf "if") (closerOf "if" ++ rest) = some rest :=
    Text.after?_eq_some_iff.2 rfl
  have unopened := opener?_closer "if" rest
  have letters : '<' ∉ "ppp:/".toList ++ "if".toList ++ ['>'] := by decide
  have passed := branches_run letters (depth - 1) rest
  rw [closerOf_append] at closes unopened ⊢
  rw [branches]
  split
  · next opener after opens => cases unopened.symm.trans opens
  · rw [closes, Option.isSome_some]
    dsimp only
    rw [if_pos rfl, passed]
    rfl

/-- At a tag outside every block the search ends a branch, if the tag is a branch marker. At any
other tag it goes on, one block further in behind an opening tag. -/
theorem branches_tag {keyword arguments : Text} (proper : IsKeyword keyword)
    (separate : Separate arguments) (depth : Nat) (rest : Text) :
    branches depth (commandTag keyword arguments ++ rest) =
      if depth = 0 ∧ (keyword = "elif" ∨ keyword = "else") then
        ([], (if keyword = "elif".toList then some arguments else none, (branches 0 rest).1) ::
          (branches 0 rest).2)
      else
        let further := branches (if keyword = "if".toList then depth + 1 else depth) rest
        (commandTag keyword arguments ++ further.1, further.2) := by
  have opens := opener?_command proper separate rest
  rw [commandTag_eq, List.cons_append] at opens
  rw [commandTag_eq, List.cons_append, branches]
  split
  · next opener after found =>
    obtain ⟨rfl, rfl⟩ := Prod.mk.inj (Option.some.inj (opens.symm.trans found))
    rfl
  · next missed => cases opens.symm.trans missed

/-- An opening tag of a conditional block opens one block more. -/
theorem branches_opener {arguments : Text} (separate : Separate arguments) (depth : Nat)
    (rest : Text) :
    branches depth (commandTag "if" arguments ++ rest) =
      (commandTag "if" arguments ++ (branches (depth + 1) rest).1,
        (branches (depth + 1) rest).2) := by
  have noMarker : ¬ ("if".toList = "elif".toList ∨ "if".toList = "else".toList) := by decide
  rw [branches_tag (by decide) separate, if_neg fun marks => noMarker marks.2, if_pos rfl]

/-- A branch marker of a block further in is passed. -/
theorem branches_inner {keyword arguments : Text} (marks : keyword = "elif" ∨ keyword = "else")
    (separate : Separate arguments) (depth : Nat) (rest : Text) :
    branches (depth + 1) (commandTag keyword arguments ++ rest) =
      (commandTag keyword arguments ++ (branches (depth + 1) rest).1,
        (branches (depth + 1) rest).2) := by
  rw [branches_tag (isKeyword_of_known _ (known_marker marks)) separate,
    if_neg fun marked => Nat.succ_ne_zero depth marked.1, if_neg (marker_ne_if marks)]

/-- A branch marker of the block itself ends a branch and begins the next. -/
theorem branches_marker {keyword arguments : Text} (marks : keyword = "elif" ∨ keyword = "else")
    (separate : Separate arguments) (rest : Text) :
    branches 0 (commandTag keyword arguments ++ rest) =
      ([], (if keyword = "elif".toList then some arguments else none, (branches 0 rest).1) ::
        (branches 0 rest).2) := by
  rw [branches_tag (isKeyword_of_known _ (known_marker marks)) separate, if_pos ⟨rfl, marks⟩]

/-- The search for branch markers passes a text in which every block is closed, as long as the
markers outside them belong to a block further out. -/
theorem branches_closed {inside : Bool} {text : Text} (closed : Closed inside text) {depth : Nat}
    (nested : inside = true → depth ≠ 0) (rest : Text) :
    branches depth (text ++ rest) =
      (text ++ (branches depth rest).1, (branches depth rest).2) := by
  induction closed generalizing depth rest with
  | nil => rfl
  | @plain _ c _ unmarked _ inductionHypothesis =>
    have plain : c ≠ '<' := by
      rintro rfl
      exact unmarked (by decide)
    rw [List.cons_append, branches_plain plain, inductionHypothesis nested]
    rfl
  | marker known separate _ inductionHypothesis =>
    obtain ⟨outer, rfl⟩ := Nat.exists_eq_succ_of_ne_zero (nested rfl)
    rw [List.append_assoc, branches_inner known separate.separate, inductionHypothesis nested,
      List.append_assoc]
  | block separate _ _ passBody passRest =>
    rw [List.append_assoc, List.append_assoc, List.append_assoc, branches_opener separate.separate,
      passBody fun _ => Nat.succ_ne_zero depth, branches_closer, Nat.succ_sub_one,
      passRest nested]
    simp

end Branches

end DynamicPrompt.Source
