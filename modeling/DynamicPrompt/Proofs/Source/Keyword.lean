import DynamicPrompt.Proofs.Source.Break
import DynamicPrompt.Proofs.Source.Enclosure
import Mathlib.Data.List.SplitBy

/-!
# The break keyword as a token

A line falls into runs: the longest stretches without blanks and commas, and between them each blank
and each comma by itself. The pass over keywords looks for the letters of the keyword at every place
and then at the two characters around them. In a line without tags and escapes that finds exactly
the runs that are the keyword.

A run is read after a border, which may be the start of the line. Its first letter is therefore the
only place in it where a keyword could begin, and one that begins there ends at a border only where
the run ends.
-/

namespace DynamicPrompt.Source

/-- Neither a blank nor a comma. -/
def isOrdinary (c : Char) : Bool := !(isBlank c || c == ',')

/-- The longest stretches of ordinary characters, and every other character by itself. -/
def breakRuns (line : Text) : List Text :=
  line.splitBy fun left right => isOrdinary left && isOrdinary right

/-- A run with the mark of the empty text in place of the keyword. -/
def markRun (run : Text) : Text := if run = breakWord then emptyMark else run

/-- Exactly the characters that are not ordinary border a keyword. -/
theorem bordersBreak_eq_not (c : Char) : bordersBreak (some c) = !isOrdinary c :=
  (Bool.not_not _).symm

/-- Characters that begin no tag, end none and escape nothing leave a cursor ready. -/
theorem Cursor.Ready.along {cursor : Cursor} {run : Text} (ready : cursor.Ready none)
    (plain : ∀ c ∈ run, ¬ Brackets.tags.Mentions c ∧ c ≠ '\\') :
    (run.foldl Cursor.after cursor).Ready none := by
  induction run generalizing cursor with
  | nil => exact ready
  | cons c run inductionHypothesis =>
    obtain ⟨unmentioned, unescaping⟩ := plain c List.mem_cons_self
    exact inductionHypothesis (ready.after unmentioned unescaping (.inl rfl))
      fun d member => plain d (List.mem_cons_of_mem c member)

/-- Behind an ordinary character no keyword begins before the next border. -/
theorem markBreaks_inside {cursor : Cursor} {run rest : Text}
    (last : bordersBreak cursor.last = false) (ordinary : ∀ c ∈ run, isOrdinary c = true) :
    markBreaks cursor (run ++ rest) =
      run ++ markBreaks (run.foldl Cursor.after cursor) rest := by
  induction run generalizing cursor with
  | nil => rfl
  | cons c run inductionHypothesis =>
    have inner : bordersBreak (cursor.after c).last = false := by
      rw [Cursor.after, bordersBreak_eq_not, ordinary c List.mem_cons_self, Bool.not_true]
    have others := inductionHypothesis inner fun d member =>
      ordinary d (List.mem_cons_of_mem c member)
    rw [List.cons_append, markBreaks]
    split
    · rw [others]
      rfl
    · rw [if_neg (by simp [last]), others]
      rfl

/-- A character that is not ordinary is kept. -/
theorem markBreaks_border (cursor : Cursor) {c : Char} (border : isOrdinary c = false)
    (rest : Text) : markBreaks cursor (c :: rest) = c :: markBreaks (cursor.after c) rest := by
  have other : c ≠ 'B' := by
    rintro rfl
    exact absurd border (by decide)
  rw [markBreaks]
  split
  · rfl
  · next after begins =>
    have starts : c :: rest = breakWord ++ after := Text.after?_eq_some_iff.1 begins
    exact absurd (List.cons.inj starts).1 other

/-- A text divides in one way only into ordinary characters and what a border begins. -/
theorem run_eq_of_append_eq {run run' rest rest' : Text}
    (ordinary : ∀ c ∈ run, isOrdinary c = true) (ordinary' : ∀ c ∈ run', isOrdinary c = true)
    (border : bordersBreak rest.head? = true) (border' : bordersBreak rest'.head? = true)
    (same : run ++ rest = run' ++ rest') : run = run' := by
  have ends (text : Text) (borders : bordersBreak text.head? = true) :
      ∀ c ∈ text.head?, isOrdinary c = false := by
    intro c first
    rw [Option.mem_def.1 first, bordersBreak_eq_not] at borders
    simpa using borders
  have taken := Text.takeWhile_run (List.all_eq_true.2 ordinary) (ends rest border)
  rw [same, Text.takeWhile_run (List.all_eq_true.2 ordinary') (ends rest' border')] at taken
  exact taken.symm

/-- Ordinary characters between two borders are read as a whole: they become the mark of the empty
text if they are the keyword, and are kept otherwise. -/
theorem markBreaks_between {cursor : Cursor} {run rest : Text} (ready : cursor.Ready none)
    (filled : run ≠ []) (ordinary : ∀ c ∈ run, isOrdinary c = true)
    (before : bordersBreak cursor.last = true) (behind : bordersBreak rest.head? = true) :
    markBreaks cursor (run ++ rest) =
      markRun run ++ markBreaks (run.foldl Cursor.after cursor) rest := by
  have letters : ∀ c ∈ breakWord, isOrdinary c = true := by decide
  obtain ⟨c, run, rfl⟩ := List.exists_cons_of_ne_nil filled
  have inner : bordersBreak (cursor.after c).last = false := by
    rw [Cursor.after, bordersBreak_eq_not, ordinary c List.mem_cons_self, Bool.not_true]
  have passed : markBreaks (cursor.after c) (run ++ rest) =
      run ++ markBreaks ((c :: run).foldl Cursor.after cursor) rest :=
    markBreaks_inside inner fun d member => ordinary d (List.mem_cons_of_mem c member)
  rw [List.cons_append, markBreaks, markRun]
  split
  · next other =>
    have differ : c :: run ≠ breakWord := by
      intro keyword
      have begins : Text.after? breakWord (c :: (run ++ rest)) = some rest :=
        Text.after?_eq_some_iff.2 (congrArg (· ++ rest) keyword)
      rw [begins] at other
      exact Option.some_ne_none _ other
    rw [if_neg differ, passed]
    rfl
  · next after begins =>
    have starts : (c :: run) ++ rest = breakWord ++ after := Text.after?_eq_some_iff.1 begins
    by_cases keyword : c :: run = breakWord
    · obtain rfl : rest = after := by
        rw [keyword] at starts
        exact List.append_cancel_left starts
      have free : cursor.isFree c = true := by
        obtain rfl : c = 'B' := (List.cons.inj keyword).1
        simp [Cursor.isFree, standsOutside, ready.outside, ready.unescaped]
      have onward : cursor.past 'K' = breakWord.foldl Cursor.after cursor := by
        simp [Cursor.past, Cursor.after, breakWord, tagDepthAfter, escapes]
      rw [if_pos (by simp [free, before, behind]), if_pos keyword, keyword, onward]
    · have goesOn : bordersBreak after.head? = false := by
        by_contra ends
        exact keyword (run_eq_of_append_eq ordinary letters behind (by simpa using ends) starts)
      rw [if_neg (by simp [goesOn]), if_neg keyword, passed]
      rfl

/-- Runs as a line has them: each is a character that is not ordinary, or a stretch of ordinary
characters with a border behind it. -/
inductive AreRuns : List Text → Prop where
  | nil : AreRuns []
  | border {c : Char} {runs : List Text} (border : isOrdinary c = false) (others : AreRuns runs) :
      AreRuns ([c] :: runs)
  | word {run : Text} {runs : List Text} (filled : run ≠ [])
      (ordinary : ∀ c ∈ run, isOrdinary c = true)
      (behind : bordersBreak runs.flatten.head? = true) (others : AreRuns runs) :
      AreRuns (run :: runs)

/-- A stretch in which neighbours are ordinary together is ordinary or a single character. -/
theorem run_cases {run : Text} (filled : run ≠ [])
    (chained : run.IsChain fun left right => (isOrdinary left && isOrdinary right) = true) :
    (∃ c, isOrdinary c = false ∧ run = [c]) ∨ ∀ c ∈ run, isOrdinary c = true := by
  induction run with
  | nil => exact absurd rfl filled
  | cons c run inductionHypothesis =>
    cases run with
    | nil =>
      cases ordinary : isOrdinary c with
      | false => exact .inl ⟨c, ordinary, rfl⟩
      | true => exact .inr (by simpa using ordinary)
    | cons d run =>
      obtain ⟨related, chained⟩ := List.isChain_cons_cons.1 chained
      obtain ⟨first, second⟩ := (Bool.and_eq_true _ _).mp related
      rcases inductionHypothesis (List.cons_ne_nil d run) chained with ⟨e, other, single⟩ | others
      · rw [(List.cons.inj single).1, other] at second
        exact absurd second Bool.false_ne_true
      · exact .inr (List.forall_mem_cons.2 ⟨first, others⟩)

/-- The runs of a line are runs. Two neighbours that are ordinary are never parted, which puts a
border behind every stretch of ordinary characters. -/
theorem areRuns_breakRuns (line : Text) : AreRuns (breakRuns line) := by
  have filled : [] ∉ breakRuns line := List.nil_notMem_splitBy _ line
  have chained : ∀ run ∈ breakRuns line,
      run.IsChain fun left right => (isOrdinary left && isOrdinary right) = true :=
    fun _ => List.isChain_of_mem_splitBy
  have apart := List.isChain_getLast_head_splitBy
    (fun left right => isOrdinary left && isOrdinary right) line
  rw [← breakRuns] at apart
  generalize breakRuns line = runs at filled chained apart
  induction runs with
  | nil => exact .nil
  | cons run runs inductionHypothesis =>
    have others : AreRuns runs := inductionHypothesis (List.not_mem_of_not_mem_cons filled)
      (fun other member => chained other (List.mem_cons_of_mem run member)) apart.tail
    have nonempty : run ≠ [] := fun empty => filled (empty ▸ List.mem_cons_self)
    rcases run_cases nonempty (chained run List.mem_cons_self) with ⟨c, border, rfl⟩ | ordinary
    · exact .border border others
    · refine .word nonempty ordinary ?_ others
      cases runs with
      | nil => rfl
      | cons next runs =>
        obtain ⟨⟨_, first, parted⟩, _⟩ := List.isChain_cons_cons.1 apart
        rw [ordinary _ (List.getLast_mem nonempty), Bool.true_and] at parted
        rw [List.flatten_cons, List.head?_append_of_ne_nil _ first, List.head?_eq_some_head first,
          bordersBreak_eq_not, parted, Bool.not_false]

/-- Runs are read one by one if the first begins at a border. -/
theorem markBreaks_flatten {cursor : Cursor} {runs : List Text} (are : AreRuns runs)
    (ready : cursor.Ready none)
    (plain : ∀ c ∈ runs.flatten, ¬ Brackets.tags.Mentions c ∧ c ≠ '\\')
    (border : bordersBreak cursor.last = true ∨ bordersBreak runs.flatten.head? = true) :
    markBreaks cursor runs.flatten = runs.flatMap markRun := by
  induction are generalizing cursor with
  | nil => simp [markBreaks]
  | @border c runs notOrdinary _ inductionHypothesis =>
    rw [List.flatten_cons, List.singleton_append] at plain ⊢
    obtain ⟨unmentioned, unescaping⟩ := plain c List.mem_cons_self
    have behind : bordersBreak (cursor.after c).last = true := by
      rw [Cursor.after, bordersBreak_eq_not, notOrdinary, Bool.not_false]
    have single : markRun [c] = [c] := if_neg (by simp [breakWord])
    rw [markBreaks_border cursor notOrdinary,
      inductionHypothesis (ready.after unmentioned unescaping (.inl rfl))
        (fun d member => plain d (List.mem_cons_of_mem c member)) (.inl behind),
      List.flatMap_cons, single, List.singleton_append]
  | @word run runs filled ordinary behind _ inductionHypothesis =>
    rw [List.flatten_cons] at plain border ⊢
    have before : bordersBreak cursor.last = true := by
      rcases border with last | first
      · exact last
      · rw [List.head?_append_of_ne_nil _ filled, List.head?_eq_some_head filled,
          bordersBreak_eq_not, ordinary _ (List.head_mem filled)] at first
        exact absurd first Bool.false_ne_true
    have onward : (run.foldl Cursor.after cursor).Ready none :=
      ready.along fun c member => plain c (List.mem_append_left _ member)
    rw [markBreaks_between ready filled ordinary before behind,
      inductionHypothesis onward (fun c member => plain c (List.mem_append_right _ member))
        (.inr behind), List.flatMap_cons]

/-- The keyword is recognised exactly as a token. In a line without angle brackets and backslashes
every run that is the keyword becomes the mark of the empty text, and every other character is kept
in its place. -/
theorem markBreaks_runs {line : Text} (noOpener : '<' ∉ line) (noCloser : '>' ∉ line)
    (noEscape : '\\' ∉ line) :
    markBreaks Cursor.start line =
      (breakRuns line).flatMap fun run => if run = breakWord then emptyMark else run := by
  have joined : (breakRuns line).flatten = line := List.flatten_splitBy _ line
  have plain : ∀ c ∈ line, ¬ Brackets.tags.Mentions c ∧ c ≠ '\\' := by
    intro c member
    constructor
    · rintro (opens | closes)
      · exact noOpener (List.mem_singleton.1 opens ▸ member)
      · exact noCloser (List.mem_singleton.1 closes ▸ member)
    · rintro rfl
      exact noEscape member
  have read := markBreaks_flatten (areRuns_breakRuns line) (Cursor.ready_start none)
    (joined.symm ▸ plain) (.inl rfl)
  rwa [joined] at read

/-- Keywords at both ends, beside a comma and a blank, and as a part of a word. -/
theorem markBreaks_runs_mixed :
    '<' ∉ "BREAK,BREAK éBREAK 日 BREAK".toList ∧ '>' ∉ "BREAK,BREAK éBREAK 日 BREAK".toList ∧
    '\\' ∉ "BREAK,BREAK éBREAK 日 BREAK".toList ∧
    markBreaks Cursor.start "BREAK,BREAK éBREAK 日 BREAK" =
      "<comment:empty>,<comment:empty> éBREAK 日 <comment:empty>" := by
  have noOpener : '<' ∉ "BREAK,BREAK éBREAK 日 BREAK".toList := by decide
  have noCloser : '>' ∉ "BREAK,BREAK éBREAK 日 BREAK".toList := by decide
  have noEscape : '\\' ∉ "BREAK,BREAK éBREAK 日 BREAK".toList := by decide
  refine ⟨noOpener, noCloser, noEscape, ?_⟩
  exact (markBreaks_runs noOpener noCloser noEscape).trans (by decide)

end DynamicPrompt.Source
