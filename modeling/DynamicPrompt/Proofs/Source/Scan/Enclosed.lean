import DynamicPrompt.Proofs.Delimiter.Splitting
import DynamicPrompt.Proofs.Source.Plain
import DynamicPrompt.Proofs.Source.Scan

/-!
# Complete texts in square brackets and braces

The last two passes split what brackets enclose at separators outside every inner bracket. Parentheses
count as brackets there and need not be pairs, so a separator may be hidden from the search; but where
it is found no other bracket is open, and both halves are complete again. What is written for the parts
is a tag, or a group in parentheses, which may stand in the place of the brackets.
-/

namespace DynamicPrompt.Source

/-- The rewriting of the texts inside constructs makes complete texts of complete texts, in which no
construct is left, and leaves plain texts as they are. -/
structure Pass.Completes (pass : Pass) (levels : Nat) : Prop where
  complete {text : Text} (complete : Complete 0 [] levels text) :
    Reports (Complete 5 [] 0) (pass.nested text)
  plain {text : Text} (plain : Plain text) : Reports (· = text) (pass.nested text)

/-- The mark of the empty text may stand for a construct. -/
theorem emitted_emptyMark : Emitted emptyMark :=
  .tag (show "comment".toList.head?.map (sameLetter 'p') = some false by decide) (by decide)
    (.of_free (show ∀ c ∈ ":empty".toList, c ∉ constructMarks by decide))

/-- What stands for a complete text is complete. -/
theorem Complete.orEmpty {text : Text} (complete : Complete 5 [] 0 text) :
    Complete 5 [] 0 (orEmpty text) := by
  rw [Source.orEmpty]
  split
  · exact emitted_emptyMark.complete
  · exact complete

/-- A text inside a construct becomes complete, or the mark of the empty text. -/
theorem Pass.Completes.filled {pass : Pass} {levels : Nat} (completes : pass.Completes levels)
    {text : Text} (complete : Complete 0 [] levels text) :
    Reports (Complete 5 [] 0) (pass.filled text) :=
  (completes.complete complete).bind fun _ written => .pure written.orEmpty

namespace Complete

variable {stage depth : Nat} {within : List Text} {text : Text}

/-- A beginning of a text may stand where the text does. -/
theorem replaces_of_begins {front : Text} (begins : front <+: text) : Replaces text front :=
  fun _ _ starts => starts.trans begins

/-- Both sides of a separator at which the search stops are complete. The search may have found
brackets open before the text, and parentheses may still be open behind it. -/
theorem cut {brackets : Brackets} {mark : Char}
    (known : brackets = .all ∧ 3 ≤ stage ∨ brackets = .tagsAndBraces ∧ 4 ≤ stage)
    (separates : mark ∈ ":|".toList) (complete : Complete stage within depth text)
    {depths : List Nat} (counted : depths.length = brackets.openers.length) {before found : Text}
    (located : topLevelFrom? [mark] brackets depths false text = some (before, found)) :
    Complete stage within depth before ∧
      ∃ after, found = mark :: after ∧ Complete stage within depth after := by
  have unmentioned : ¬ brackets.Mentions mark := by
    have marks : ∀ mark ∈ ":|".toList, ¬ Brackets.all.Mentions mark ∧
        ¬ Brackets.tagsAndBraces.Mentions mark := by decide
    rcases known with ⟨rfl, _⟩ | ⟨rfl, _⟩
    · exact (marks mark separates).1
    · exact (marks mark separates).2
  induction complete generalizing depths before with
  | nil => cases located
  | @char _ _ c rest free unbarred others inductionHypothesis =>
    have unescaping : c ≠ '\\' := by
      rintro rfl
      exact free (by decide)
    by_cases here : Brackets.isClosed depths = true ∧ c = mark
    · obtain ⟨closed, rfl⟩ := here
      have stops : topLevelFrom? [c] brackets depths false (c :: rest) = some ([], c :: rest) := by
        rw [topLevelFrom?]
        simp [closed, Text.after?]
      obtain ⟨rfl, rfl⟩ := Prod.mk.inj (Option.some.inj (stops.symm.trans located))
      exact ⟨.nil, rest, rfl, others⟩
    · rw [topLevelFrom?_step unescaping fun closed same => here ⟨closed, same⟩] at located
      obtain ⟨⟨first, second⟩, inside, same⟩ := Option.map_eq_some_iff.1 located
      obtain ⟨rfl, rfl⟩ := Prod.mk.inj same
      have begins : first <+: rest := ⟨second, (topLevelFrom?_append inside).1⟩
      obtain ⟨front, back⟩ := inductionHypothesis ((length_step depths c).trans counted) inside
      exact ⟨.char free (unbarred.replace (replaces_of_begins begins)) front, back⟩
  | @tag _ _ name content rest harmless free inside _ inductionHypothesis =>
    have pair : brackets.Pair '<' '>' := by
      rcases known with ⟨rfl, _⟩ | ⟨rfl, _⟩
      · exact Brackets.Known.angle (.inr (.inr rfl))
      · exact Brackets.Known.angle (.inr (.inl rfl))
    have grouped := ((grouped_of_free free).append inside.grouped).single pairs_ofConstructs.1
    obtain ⟨depths', counted', passed⟩ :=
      @topLevelFrom?_pair brackets mark [] _ _ _ _ _ pair unmentioned grouped counted
    rw [passed] at located
    obtain ⟨⟨first, second⟩, beyond, same⟩ := Option.map_eq_some_iff.1 located
    obtain ⟨rfl, rfl⟩ := Prod.mk.inj same
    obtain ⟨front, back⟩ := inductionHypothesis counted' beyond
    exact ⟨.tag harmless free inside front, back⟩
  | @construct within depth kind parts rest proper later allowed paired admitted each _ _
      inductionHypothesis =>
    -- Only square brackets and braces are left, each around one text.
    have enclosed : ∀ {opener closer : Char}, Brackets.ofConstructs.Pair opener closer →
        brackets.Pair opener closer → kind.opener = [opener] → kind.closers = [[closer]] →
        Complete stage within (depth + 1) before ∧
          ∃ after, found = mark :: after ∧ Complete stage within (depth + 1) after := by
      intro opener closer known pair opens closes
      have alone := paired
      rw [closes] at alone
      obtain ⟨part, rfl, _⟩ := Construct.exists_part alone
      have written (rest : Text) :
          kind.write [part] ++ rest = opener :: (part ++ closer :: rest) := by
        rw [Construct.write, opens, closes]
        simp [Construct.closed]
      have grouped := (each part List.mem_cons_self).grouped.single known
      obtain ⟨depths', counted', passed⟩ :=
        @topLevelFrom?_pair brackets mark [] _ _ _ _ _ pair unmentioned grouped counted
      rw [written, passed] at located
      obtain ⟨⟨first, second⟩, beyond, same⟩ := Option.map_eq_some_iff.1 located
      obtain ⟨rfl, rfl⟩ := Prod.mk.inj same
      obtain ⟨front, back⟩ := inductionHypothesis counted' beyond
      refine ⟨?_, back⟩
      rw [← written]
      exact .construct proper later allowed paired admitted each front
    have reached : 3 ≤ stage := known.elim (·.2) fun both => Nat.le_of_succ_le both.2
    rcases Construct.eq_of_le_pass (Nat.le_trans reached later) with ⟨rfl, _⟩ | ⟨rfl, _⟩
    · rcases known with ⟨rfl, _⟩ | ⟨_, deep⟩
      · exact enclosed pairs_ofConstructs.2.1 (by constructor <;> decide) rfl rfl
      · exact absurd (Nat.le_trans deep later) (by decide)
    · refine enclosed pairs_ofConstructs.2.2 ?_ rfl rfl
      rcases known with ⟨rfl, _⟩ | ⟨rfl, _⟩ <;> constructor <;> decide

/-- The parts between separators are complete. -/
theorem parts {brackets : Brackets} {mark : Char}
    (known : brackets = .all ∧ 3 ≤ stage ∨ brackets = .tagsAndBraces ∧ 4 ≤ stage)
    (separates : mark ∈ ":|".toList) (complete : Complete stage within depth text) :
    ∀ part ∈ splitTopLevel [mark] brackets text, Complete stage within depth part := by
  have bare : '\\' ∉ [mark] := by
    rw [List.mem_singleton]
    rintro rfl
    exact absurd separates (by decide)
  refine @splitTopLevel_induction brackets mark [] bare (motive := fun text parts =>
    Complete stage within depth text → ∀ part ∈ parts, Complete stage within depth part)
    ?_ ?_ text complete
  · exact fun text _ complete => List.forall_mem_singleton.2 complete
  · intro before after located others complete
    obtain ⟨front, _, same, back⟩ := complete.cut known separates (List.length_map ..) located
    obtain rfl := (List.cons.inj same).2
    exact List.forall_mem_cons.2 ⟨front, others back⟩

/-- Where no tag ends in the rest of a complete text without constructs, what stands before the rest is
complete. -/
theorem front (last : 5 ≤ stage) (complete : Complete stage within depth text) {before rest : Text}
    (whole : text = before ++ rest) (unclosed : '>' ∉ rest) : Complete stage within depth before := by
  induction complete generalizing before with
  | nil =>
    obtain rfl := (List.append_eq_nil_iff.1 whole.symm).1
    exact .nil
  | @char _ _ c text free unbarred _ inductionHypothesis =>
    cases before with
    | nil => exact .nil
    | cons d before =>
      obtain ⟨rfl, same⟩ := List.cons.inj whole
      have begins : before <+: text := ⟨rest, same.symm⟩
      exact .char free (unbarred.replace (replaces_of_begins begins)) (inductionHypothesis same)
  | @tag _ _ name content text harmless free inside _ inductionHypothesis =>
    cases before with
    | nil => exact .nil
    | cons d before =>
      obtain ⟨rfl, same⟩ := List.cons.inj whole
      -- The tag is not cut, for its end stands in what is before the rest.
      rcases List.append_eq_append_iff.1 same with ⟨more, rfl, ends⟩ | ⟨more, _, ends⟩
      · cases more with
        | nil =>
          rw [List.nil_append] at ends
          exact absurd (ends ▸ List.mem_cons_self) unclosed
        | cons d more =>
          obtain ⟨rfl, beyond⟩ := List.cons.inj ends
          exact .tag harmless free inside (inductionHypothesis beyond)
      · exact absurd (ends ▸ List.mem_append_right more List.mem_cons_self) unclosed
  | @construct _ _ kind _ _ _ later =>
    exact absurd (Nat.lt_of_le_of_lt (Nat.le_trans last later) kind.pass_lt) (Nat.lt_irrefl 5)

/-- No keyword stands alone outside the tags of a complete text, since none begins there. -/
theorem markBreaks_append (reached : 4 ≤ stage) (complete : Complete stage within depth text)
    {cursor : Cursor} (ready : cursor.Ready none) :
    ∃ cursor' : Cursor, cursor'.Ready none ∧ ∀ rest, Apart rest →
      markBreaks cursor (text ++ rest) = text ++ markBreaks cursor' rest := by
  have passed {cursor : Cursor} {c : Char} {rest : Text} (missed : ¬ breakWord <+: c :: rest) :
      markBreaks cursor (c :: rest) = c :: markBreaks (cursor.after c) rest := by
    rw [markBreaks]
    split
    · rfl
    · next after begins =>
      exact absurd ⟨after, (Text.after?_eq_some_iff.1 begins).symm⟩ missed
  induction complete generalizing cursor with
  | nil => exact ⟨cursor, ready, fun rest _ => rfl⟩
  | @char _ _ c rest free unbarred _ inductionHypothesis =>
    have marks : ∀ d, Brackets.tags.Mentions d → d ∈ constructMarks := by
      have every : ∀ d ∈ Brackets.tags.openers ++ Brackets.tags.closers, d ∈ constructMarks := by
        decide
      exact fun d mentioned => every d (List.mem_append.2 mentioned)
    have unescaping : c ≠ '\\' := by
      rintro rfl
      exact free (by decide)
    obtain ⟨cursor', ready', kept⟩ := inductionHypothesis
      (ready.after (fun mentioned => free (marks c mentioned)) unescaping (.inl rfl))
    refine ⟨cursor', ready', fun more apart => ?_⟩
    rw [List.cons_append, passed (unbarred.before apart breakWord (by decide)), kept more apart]
    rfl
  | @tag _ _ name content rest _ free inside _ inductionHypothesis =>
    have grouped := ((grouped_of_free free).append inside.grouped).single pairs_ofConstructs.1
    have onward : Cursor.Ready ⟨0, false, some '>'⟩ none := ⟨rfl, rfl, .inl rfl⟩
    obtain ⟨cursor', ready', kept⟩ := inductionHypothesis onward
    refine ⟨cursor', ready', fun more apart => ?_⟩
    rw [List.cons_append, List.append_assoc, List.cons_append,
      markBreaks_keepsHeld.tag (.of_grouped grouped) ready.outside, kept more apart, List.map_id]
    simp
  | @construct _ _ kind parts rest proper later allowed paired _ _ _ passEach passRest =>
    obtain rfl : kind = .braces := by
      have late := Nat.le_trans reached later
      rcases Construct.eq_of_le_pass (Nat.le_of_succ_le late) with ⟨_, third⟩ | ⟨same, _⟩
      · exact absurd (third ▸ late) (by decide)
      · exact same
    obtain ⟨part, rfl, _⟩ := Construct.exists_part paired
    have brace {cursor : Cursor} (ready : cursor.Ready none) {c : Char} (either : c = '\x7b' ∨ c = '\x7d')
        (rest : Text) : (cursor.after c).Ready none ∧
          markBreaks cursor (c :: rest) = c :: markBreaks (cursor.after c) rest := by
      have shape : breakWord = 'B' :: "REAK".toList := rfl
      refine ⟨ready.after ?_ ?_ (.inl rfl), passed ?_⟩
      · rcases either with rfl | rfl <;> decide
      · rcases either with rfl | rfl <;> decide
      · rw [shape, List.cons_prefix_cons]
        rcases either with rfl | rfl
        · exact fun both => absurd both.1 (by decide)
        · exact fun both => absurd both.1 (by decide)
    obtain ⟨inside, readyInside, keptInside⟩ :=
      passEach part List.mem_cons_self (brace ready (.inl rfl) []).1
    obtain ⟨cursor', ready', kept⟩ := passRest (brace readyInside (.inr rfl) []).1
    refine ⟨cursor', ready', fun more apart => ?_⟩
    have written (rest : Text) :
        Construct.write .braces [part] ++ rest = '\x7b' :: (part ++ '\x7d' :: rest) := by
      simp [Construct.write, Construct.opener, Construct.closers, Construct.closed]
    have behind : Apart ('\x7d' :: (rest ++ more)) := by
      rintro c ⟨⟩
      decide
    rw [List.append_assoc, written, (brace ready (.inl rfl) _).2, keptInside _ behind,
      (brace readyInside (.inr rfl) _).2, kept more apart, List.append_assoc, written]

/-- The keyword is marked nowhere. -/
theorem unbroken (reached : 4 ≤ stage) (complete : Complete stage within depth text) :
    markBreaks Cursor.start text = text := by
  obtain ⟨cursor, _, kept⟩ := complete.markBreaks_append reached (Cursor.ready_start none)
  have whole := kept [] .nil
  rwa [List.append_nil, markBreaks, List.append_nil] at whole

end Complete

/-- The scan of a pass over enclosed constructs. -/
def enclosureScan (opener closer : Char) (barred : Option Char) (write : Text → Reporting Text) :
    Scan where
  State := Cursor
  Ready cursor := cursor.Ready barred
  run cursor text := writePieces write (enclosures opener closer barred cursor text)

/-- At the end of the line nothing is left to do. -/
theorem enclosureScan_nil (opener closer : Char) (barred : Option Char)
    (write : Text → Reporting Text) (cursor : Cursor) :
    (enclosureScan opener closer barred write).run cursor [] = pure [] := by
  have ended : enclosures opener closer barred cursor [] = [] := by rw [enclosures]
  exact congrArg (writePieces write) ended

section Scanning

variable {opener closer : Char} {barred : Option Char} {write : Text → Reporting Text}

/-- A character that begins no construct is kept. -/
theorem turns_passed {c : Char} (noOpener : c ≠ opener) (unmentioned : ¬ Brackets.tags.Mentions c)
    (unescaping : c ≠ '\\') (unbarred : some c ≠ barred) :
    (enclosureScan opener closer barred write).Turns Anything [c] (· = [c]) := by
  refine .kept fun (cursor : Cursor) ready =>
    ⟨cursor.after c, ready.after unmentioned unescaping (.inr unbarred), fun rest _ => ?_⟩
  have passed := writePieces_passed write [c] (enclosures opener closer barred (cursor.after c) rest)
  exact (congrArg (writePieces write) (enclosures_passed (.inl noOpener) rest)).trans passed

/-- A whole tag is kept. -/
theorem turns_tag (afterTag : some '>' ≠ barred) {inner : Text} (angled : Angled inner) :
    (enclosureScan opener closer barred write).Turns Anything ('<' :: (inner ++ ['>']))
      (· = '<' :: (inner ++ ['>'])) := by
  refine .kept fun (cursor : Cursor) ready =>
    ⟨(⟨0, false, some '>'⟩ : Cursor), ⟨rfl, rfl, .inr afterTag⟩, fun rest _ => ?_⟩
  have kept := (@enclosures_keepsHeld opener closer barred).tag angled ready.outside rest
  have whole : '<' :: (inner ++ ['>']) ++ rest = '<' :: (inner ++ '>' :: rest) := by simp
  have passed := writePieces_passed write ('<' :: (inner ++ ['>']))
    (enclosures opener closer barred ⟨0, false, some '>'⟩ rest)
  rw [whole]
  exact (congrArg (writePieces write) kept).trans passed

/-- A construct turns into what is written for it. -/
theorem turns_enclosed {inner : Text} {holds : Text → Prop} (marks : Marks opener closer barred)
    (closes : ∀ after, enclosed? opener closer (inner ++ closer :: after) = some (inner, after))
    (reports : Reports holds (write inner)) :
    (enclosureScan opener closer barred write).Turns Anything (opener :: (inner ++ [closer]))
      holds := by
  refine ⟨write inner, fun (cursor : Cursor) ready => ?_, reports⟩
  refine ⟨cursor.past closer, ⟨ready.outside, rfl, .inr marks.afterConstruct⟩, fun rest _ => ?_⟩
  have free : cursor.isFree opener = true := by
    simp [Cursor.isFree, standsOutside, marks.noTag, ready.outside, ready.unescaped]
  have whole : opener :: (inner ++ [closer]) ++ rest = opener :: (inner ++ closer :: rest) := by simp
  have found : enclosures opener closer barred cursor (opener :: (inner ++ closer :: rest)) =
      .found inner :: enclosures opener closer barred (cursor.past closer) rest := by
    rw [enclosures, if_pos ⟨rfl, free, ready.unbarred⟩]
    split
    · next inner' after found =>
      obtain ⟨rfl, rfl⟩ := Prod.mk.inj (Option.some.inj ((closes rest).symm.trans found))
      rfl
    · next missed => simp [closes rest] at missed
  rw [whole]
  exact congrArg (writePieces write) found

end Scanning

/-- A character of a complete text is no bracket of a tag, and escapes nothing. -/
theorem unmentioned_of_free {c : Char} (free : c ∉ constructMarks) :
    ¬ Brackets.tags.Mentions c ∧ c ≠ '\\' := by
  have every : ∀ d ∈ Brackets.tags.openers ++ Brackets.tags.closers, d ∈ constructMarks := by decide
  refine ⟨fun mentioned => free (every c (List.mem_append.2 mentioned)), ?_⟩
  rintro rfl
  exact free (by decide)

/-- The angle brackets of a tag are nested pairs. -/
theorem Sealed.angled {name content : Text} (free : ∀ c ∈ name, c ∉ constructMarks)
    (inside : Sealed content) : Angled (name ++ content) :=
  .of_grouped (((grouped_of_free free).append inside.grouped).single pairs_ofConstructs.1)

namespace Bracketed

variable {pass : Pass} {levels : Nat} (completes : pass.Completes levels)

/-- A text with lowered attention may stand for a construct. -/
theorem emitted_lowered {text : Text} (complete : Complete 5 [] 0 text) : Emitted (lowered text) := by
  obtain ⟨content, weight, same, numeral, part⟩ := lowered_eq text
  have kept : Complete 5 [] 0 content := by
    rcases part with rfl | ⟨rest, rfl, unclosed⟩
    · exact complete
    · have other : ':' ≠ '>' := by decide
      refine (complete.behind (by decide) (by decide)).front (Nat.le_refl 5) rfl ?_
      rw [List.mem_cons, not_or]
      exact ⟨other.symm, unclosed⟩
  have signs : ∀ c ∈ ':' :: ')' :: Numeral.signs, c ∉ constructMarks ∧ c ∉ "_B".toList ∧
      c ∉ barredLetters := by decide
  rw [same]
  refine ⟨List.cons_ne_nil _ _, ?_, fun {stage within depth rest} others => ?_⟩
  · rintro c ⟨⟩
    decide
  have behind : Complete stage within depth (':' :: (weight ++ ')' :: rest)) := by
    have last : Complete stage within depth (')' :: rest) :=
      .char (by decide) (.of_first (by decide) rest) others
    have factor : Complete stage within depth (weight ++ ')' :: rest) := by
      clear same
      induction weight with
      | nil => exact last
      | cons c weight inductionHypothesis =>
        rw [List.cons_subset] at numeral
        have sign := signs c (.tail _ (.tail _ numeral.1))
        exact .char sign.1 (.of_first sign.2.1 _) (inductionHypothesis numeral.2)
    exact .char (by decide) (.of_first (by decide) _) factor
  have apart : Apart (':' :: (weight ++ ')' :: rest)) := by
    rintro c ⟨⟩
    decide
  have whole : '(' :: (content ++ ':' :: (weight ++ [')'])) ++ rest =
      '(' :: (content ++ ':' :: (weight ++ ')' :: rest)) := by simp
  rw [whole]
  exact .char (by decide) (.of_first (by decide) _)
    ((kept.anywhere (Nat.le_refl 5)).append behind apart)

include completes

/-- What square brackets become may stand in their place. -/
theorem write_emitted {content : Text} {within : List Text} {depth : Nat}
    (complete : Complete 3 within depth content) (shallow : depth ≤ levels) :
    Reports Emitted (write pass content) := by
  have inner {part : Text} (complete : Complete 3 within depth part) : Complete 0 [] levels part :=
    complete.weaken (Nat.zero_le 3) (List.nil_subset within) shallow
  have said : (ofText content).Consists (Complete 0 [] levels) :=
    consists_ofText (inner complete)
      (fun part member => inner (complete.parts (.inl ⟨rfl, Nat.le_refl 3⟩) (by decide) part member))
      (fun part member => inner (complete.parts (.inl ⟨rfl, Nat.le_refl 3⟩) (by decide) part member))
  have colon : Sealed [':'] := .of_free (by decide)
  have bars : Sealed "||" := .of_free (by decide)
  unfold write
  split
  · next first second step edits =>
    rw [edits] at said
    refine (completes.filled said.1).bind fun first front => (completes.filled said.2.1).bind
      fun second back => (completes.filled said.2.2).bind fun step last => .pure ?_
    have opening : "<fromto[".toList = '<' :: ("fromto".toList ++ ['[']) := rfl
    have asking : "]:".toList = [']', ':'] := rfl
    have closing : ">".toList = ['>'] := rfl
    have body := colon.append ((front.isSealed (Nat.le_refl 5)).append
      (bars.append (back.isSealed (Nat.le_refl 5))))
    have inside := (last.isSealed (Nat.le_refl 5)).squared body
    have harmless : "fromto".toList.head?.map (sameLetter 'p') = some false := by decide
    have whole := Emitted.tag harmless (by decide) inside
    simp only [opening, asking, closing, List.append_assoc, List.cons_append,
      List.nil_append] at whole ⊢
    exact whole
  · next options alternates =>
    rw [alternates] at said
    refine (Reports.mapM fun option member => completes.filled (said option member)).bind
      fun written each => .pure ?_
    have opening : "<alternate:".toList = '<' :: ("alternate".toList ++ [':']) := rfl
    have closing : ">".toList = ['>'] := rfl
    have joined : Sealed (Text.join "||" written) :=
      .join bars fun part member => (each part member).isSealed (Nat.le_refl 5)
    have harmless : "alternate".toList.head?.map (sameLetter 'p') = some false := by decide
    have whole := Emitted.tag harmless (by decide) (colon.append joined)
    simp only [opening, closing, List.append_assoc, List.cons_append, List.nil_append] at whole ⊢
    exact whole
  · next content lowers =>
    rw [lowers] at said
    exact (completes.complete said).bind fun written complete => .pure (emitted_lowered complete)

/-- The scan of the pass. -/
theorem handles : (enclosureScan '[' ']' none (write pass)).Handles 3 4 levels where
  char {c} free := by
    have other : c ≠ '[' := by
      rintro rfl
      exact free (by decide)
    obtain ⟨unmentioned, unescaping⟩ := unmentioned_of_free free
    exact (turns_passed other unmentioned unescaping (Option.some_ne_none _)).before_mono
      fun _ _ => trivial
  tag _ free inside := turns_tag (Option.some_ne_none _) (inside.angled free)
  opener _ later := by
    rcases Construct.eq_of_le_pass (Nat.le_of_succ_le later) with ⟨_, third⟩ | ⟨rfl, _⟩
    · exact absurd (third ▸ later) (by decide)
    · exact turns_passed (by decide) (by decide) (by decide) (Option.some_ne_none _)
  closers _ later := by
    rcases Construct.eq_of_le_pass (Nat.le_of_succ_le later) with ⟨_, third⟩ | ⟨rfl, _⟩
    · exact absurd (third ▸ later) (by decide)
    · exact List.forall_mem_singleton.2
        (turns_passed (by decide) (by decide) (by decide) (Option.some_ne_none _))
  own _ reached later _ paired _ each shallow := by
    rcases Construct.eq_of_le_pass later with ⟨rfl, _⟩ | ⟨_, fourth⟩
    · obtain ⟨part, rfl, written⟩ := Construct.exists_part paired
      have complete := each part List.mem_cons_self
      rw [Construct.write, Construct.closers, written]
      exact turns_enclosed (by constructor <;> decide)
        (enclosed?_grouped pairs_ofConstructs.2.1 complete.grouped)
        (write_emitted completes complete shallow)
    · exact absurd (fourth ▸ reached) (by decide)

/-- The pass makes complete texts of complete texts. -/
theorem rewrite_complete {text : Text} (complete : Complete 3 [] (levels + 1) text) :
    Reports (Complete 4 [] (levels + 1)) (rewrite pass text) := by
  have turns := complete.turns (handles completes) (by decide) (Nat.le_refl _)
  exact (turns.reports (Cursor.ready_start none) (enclosureScan_nil _ _ _ _) .nil).mono
    fun _ known => known.1

end Bracketed

namespace Variant

variable {pass : Pass} {levels : Nat} (completes : pass.Completes levels)

include completes

/-- What braces become may stand in their place. There is no head, which would need dollar signs. -/
theorem write_emitted {content : Text} {within : List Text} {depth : Nat}
    (complete : Complete 4 within depth content) (shallow : depth ≤ levels) :
    Reports Emitted (write pass content) := by
  have options : ∀ option ∈ splitTopLevel "|" Brackets.tagsAndBraces content,
      Complete 0 [] levels option := fun option member =>
    (complete.parts (.inr ⟨rfl, Nat.le_refl 4⟩) (by decide) option member).weaken (Nat.zero_le 4)
      (List.nil_subset within) shallow
  rw [write_of_absent pass (complete.undollared (by decide))]
  refine (Reports.mapM fun option member => completes.filled (options option member)).bind
    fun written each => .pure ?_
  have bar : Sealed "|" := .of_free (by decide)
  have colon : Sealed [':'] := .of_free (by decide)
  have joined : Sealed (Text.join "|" written) :=
    .join bar fun part member => (each part member).isSealed (Nat.le_refl 5)
  exact .tag (by decide) (by decide) (colon.append joined)

/-- The scan of the pass. -/
theorem handles : (enclosureScan '\x7b' '\x7d' (some '$') (write pass)).Handles 4 5 levels where
  char {c} free := by
    have other : ∀ d ∈ constructMarks, c ≠ d := by
      rintro d marked rfl
      exact free marked
    obtain ⟨unmentioned, unescaping⟩ := unmentioned_of_free free
    have unbarred : some c ≠ some '$' := fun same => other '$' (by decide) (Option.some.inj same)
    exact (turns_passed (other '\x7b' (by decide)) unmentioned unescaping unbarred).before_mono
      fun _ _ => trivial
  tag _ free inside := turns_tag (by decide) (inside.angled free)
  opener {construct} _ later := absurd (Nat.lt_of_lt_of_le construct.pass_lt later) (Nat.lt_irrefl _)
  closers {construct} _ later :=
    absurd (Nat.lt_of_lt_of_le construct.pass_lt later) (Nat.lt_irrefl _)
  own _ _ later _ paired _ each shallow := by
    rcases Construct.eq_of_le_pass (Nat.le_of_succ_le later) with ⟨_, third⟩ | ⟨rfl, _⟩
    · exact absurd (third ▸ later) (by decide)
    · obtain ⟨part, rfl, written⟩ := Construct.exists_part paired
      have complete := each part List.mem_cons_self
      rw [Construct.write, Construct.closers, written]
      exact turns_enclosed (by constructor <;> decide)
        (enclosed?_grouped pairs_ofConstructs.2.2 complete.grouped)
        (write_emitted completes complete shallow)

/-- The pass makes complete texts of complete texts. -/
theorem rewrite_complete {text : Text} (complete : Complete 4 [] (levels + 1) text) :
    Reports (Complete 5 [] (levels + 1)) (rewrite pass text) := by
  have turns := complete.turns (handles completes) (by decide) (Nat.le_refl _)
  exact (turns.reports (Cursor.ready_start _) (enclosureScan_nil _ _ _ _) .nil).mono
    fun _ known => known.1

end Variant

end DynamicPrompt.Source
