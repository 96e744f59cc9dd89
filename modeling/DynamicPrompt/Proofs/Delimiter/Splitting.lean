import DynamicPrompt.Proofs.Delimiter.Balanced
import DynamicPrompt.Proofs.Delimiter.Octets
import DynamicPrompt.Proofs.Delimiter.Separator

/-!
# Splitting at separators

A text is split by searching it for the separator, again and again, each time from behind the last
find and with no bracket counted as open. A find leaves no bracket open, and a separator that does
not end with a backslash leaves nothing escaped, so every part can be judged by itself: the search
finds no separator in it, and the brackets opened in a part that a separator follows are closed at
its end. The places of the cuts are those that the repeated search of the whole text finds.
-/

namespace DynamicPrompt

/-- What is found is an occurrence of the pattern. -/
theorem topLevelFrom?_pattern {pattern : Text} {brackets : Brackets} {text before found : Text}
    {depths : List Nat} {escaped : Bool}
    (located : topLevelFrom? pattern brackets depths escaped text = some (before, found)) :
    ∃ rest, found = pattern ++ rest := by
  induction text generalizing before depths escaped with
  | nil => simp [topLevelFrom?] at located
  | cons c text inductionHypothesis =>
    have onward : ∀ depths, (topLevelFrom? pattern brackets depths (escapes escaped c) text).map
        (fun parts => (c :: parts.1, parts.2)) = some (before, found) →
        ∃ rest, found = pattern ++ rest := by
      intro depths located
      obtain ⟨⟨first, second⟩, inside, same⟩ := Option.map_eq_some_iff.1 located
      obtain ⟨rfl, rfl⟩ := Prod.mk.inj same
      exact inductionHypothesis inside
    unfold topLevelFrom? at located
    split at located
    · exact onward _ located
    · split at located
      · next here =>
        obtain ⟨rfl, rfl⟩ := Prod.mk.inj (Option.some.inj located)
        rw [Bool.and_eq_true] at here
        obtain ⟨rest, occurs⟩ := Option.isSome_iff_exists.1 here.2
        exact ⟨rest, Text.after?_eq_some_iff.1 occurs⟩
      · exact onward _ located

/-- A cut takes nothing away but the separator. -/
theorem cutTopLevelFrom?_append {separator : Text} {brackets : Brackets} {escaped : Bool}
    {text before after : Text} (filled : separator ≠ [])
    (cut : cutTopLevelFrom? separator brackets escaped text = some (before, after)) :
    before ++ separator ++ after = text := by
  obtain ⟨⟨first, found⟩, located, same⟩ := Option.map_eq_some_iff.1 cut
  obtain ⟨rfl, rfl⟩ := Prod.mk.inj same
  obtain ⟨c, others, rfl⟩ := List.exists_cons_of_ne_nil filled
  obtain ⟨rest, rfl⟩ := topLevelFrom?_pattern located
  rw [← (topLevelFrom?_append located).1]
  simp

/-- The numbers of open brackets after a text, in which escaped characters do not count. -/
def Brackets.depthsAfter (brackets : Brackets) (depths : List Nat) (escaped : Bool) :
    Text → List Nat
  | [] => depths
  | c :: rest =>
    brackets.depthsAfter (if escaped then depths else brackets.step depths c) (escapes escaped c)
      rest

section Finding

variable {pattern : Text} {brackets : Brackets} {text before found : Text}

/-- Before what a search finds, every bracket is closed and nothing else is found. -/
theorem topLevelFrom?_before {depths : List Nat} {escaped : Bool}
    (located : topLevelFrom? pattern brackets depths escaped text = some (before, found)) :
    Brackets.isClosed (brackets.depthsAfter depths escaped before) = true ∧
      topLevelFrom? pattern brackets depths escaped before = none := by
  induction text generalizing before depths escaped with
  | nil => simp [topLevelFrom?] at located
  | cons c rest inductionHypothesis =>
    have whole := (topLevelFrom?_append located).1
    -- A character that the search passes is passed again when the text ends before the find.
    have onward (passes : ∀ rest' : Text, rest' <+: rest →
        topLevelFrom? pattern brackets depths escaped (c :: rest') =
          (topLevelFrom? pattern brackets (if escaped then depths else brackets.step depths c)
            (escapes escaped c) rest').map fun parts => (c :: parts.1, parts.2)) :
        Brackets.isClosed (brackets.depthsAfter depths escaped before) = true ∧
          topLevelFrom? pattern brackets depths escaped before = none := by
      rw [passes rest (List.prefix_refl rest)] at located
      obtain ⟨⟨first, second⟩, inside, same⟩ := Option.map_eq_some_iff.1 located
      obtain ⟨rfl, rfl⟩ := Prod.mk.inj same
      obtain ⟨closed, missed⟩ := inductionHypothesis inside
      have begins : first <+: rest := ⟨second, (List.cons.inj whole).2⟩
      rw [Brackets.depthsAfter, passes first begins, missed]
      exact ⟨closed, rfl⟩
    cases escaped with
    | true =>
      apply onward
      intro rest' _
      rw [topLevelFrom?, if_pos rfl]
      rfl
    | false =>
      by_cases here : (Brackets.isClosed depths &&
          (Text.after? pattern (c :: rest)).isSome) = true
      · rw [topLevelFrom?, if_neg Bool.false_ne_true, if_pos here] at located
        obtain ⟨rfl, rfl⟩ := Prod.mk.inj (Option.some.inj located)
        rw [Bool.and_eq_true] at here
        exact ⟨here.1, rfl⟩
      · apply onward
        intro rest' begins
        -- A pattern that the shorter text begins with begins the longer one, too.
        have missed : ¬ (Brackets.isClosed depths &&
            (Text.after? pattern (c :: rest')).isSome) = true := by
          intro shorter
          apply here
          rw [Bool.and_eq_true] at shorter ⊢
          obtain ⟨after, occurs⟩ := Option.isSome_iff_exists.1 shorter.2
          obtain ⟨more, rfl⟩ := begins
          refine ⟨shorter.1, Option.isSome_iff_exists.2 ⟨after ++ more, ?_⟩⟩
          rw [Text.after?_eq_some_iff] at occurs ⊢
          rw [← List.cons_append, occurs, List.append_assoc]
        rw [topLevelFrom?, if_neg Bool.false_ne_true, if_neg missed]
        rfl

/-- A place that is found stands in the text, and not before the start of the search. -/
theorem findTopLevel_bounds {start place : Nat}
    (located : findTopLevel text start pattern brackets = some place) :
    start ≤ place ∧ place < text.length := by
  obtain ⟨⟨before, found⟩, searched, rfl⟩ := Option.map_eq_some_iff.1 located
  obtain ⟨whole, filled⟩ := topLevelFrom?_append searched
  have total := congrArg List.length whole
  have positive := List.length_pos_iff.2 filled
  rw [List.length_append, List.length_drop] at total
  dsimp only
  omega

/-- The search from a place that is not escaped is the search of the text from there. -/
theorem findTopLevel_behind {front : Text} (unescaped : isEscapedAfter front = false) :
    findTopLevel (front ++ text) front.length pattern brackets =
      (topLevelFrom? pattern brackets brackets.closed false text).map
        fun parts => front.length + parts.1.length := by
  rw [findTopLevel, List.take_left, List.drop_left, unescaped]

end Finding

/-- The places of the separators that the search of a whole text finds, repeated from behind each
find. -/
def separatorPlaces (mark : Char) (more : Text) (brackets : Brackets) (text : Text) (start : Nat) :
    List Nat :=
  match _found : findTopLevel text start (mark :: more) brackets with
  | none => []
  | some place => place :: separatorPlaces mark more brackets text (place + (mark :: more).length)
termination_by text.length - start
decreasing_by
  have bounds := findTopLevel_bounds _found
  rw [List.length_cons]
  omega

section Places

variable {brackets : Brackets} {mark : Char} {more text : Text} {start place : Nat}

/-- Where nothing is found there are no places. -/
theorem separatorPlaces_missed (missed : findTopLevel text start (mark :: more) brackets = none) :
    separatorPlaces mark more brackets text start = [] := by
  rw [separatorPlaces]
  split
  · rfl
  · next found => exact absurd (missed.symm.trans found) (Option.some_ne_none _).symm

/-- A place that is found is the first, and the others are found from behind it. -/
theorem separatorPlaces_found
    (found : findTopLevel text start (mark :: more) brackets = some place) :
    separatorPlaces mark more brackets text start =
      place :: separatorPlaces mark more brackets text (place + (mark :: more).length) := by
  rw [separatorPlaces]
  split
  · next missed => exact absurd (found.symm.trans missed) (Option.some_ne_none _)
  · next other found' =>
    obtain rfl := Option.some.inj (found.symm.trans found')
    rfl

end Places

/-- The places at which a text was cut into parts, given the place of the first part and the number
of characters taken away by a cut. -/
def cutPlaces (width start : Nat) : List Text → List Nat
  | first :: second :: others =>
    (start + first.length) :: cutPlaces width (start + first.length + width) (second :: others)
  | _ => []

/-- There is one part more than there are cuts. -/
theorem length_cutPlaces (width start : Nat) {parts : List Text} (filled : parts ≠ []) :
    parts.length = (cutPlaces width start parts).length + 1 := by
  induction parts generalizing start with
  | nil => exact absurd rfl filled
  | cons first others inductionHypothesis =>
    cases others with
    | nil => rfl
    | cons second others =>
      rw [cutPlaces, List.length_cons, List.length_cons (a := start + first.length),
        inductionHypothesis (start + first.length + width) (List.cons_ne_nil second others)]

/-- A text has at least one part. -/
theorem splitTopLevel_ne_nil (separator : Text) (brackets : Brackets) (text : Text) :
    splitTopLevel separator brackets text ≠ [] :=
  splitTopLevelFrom_ne_nil separator brackets false text

section Splitting

variable {brackets : Brackets} {mark : Char} {more : Text}

/-- Nothing is escaped behind a text without backslashes, whatever stands before it. -/
theorem foldl_escapes_bare (bare : '\\' ∉ mark :: more) (escaped : Bool) :
    (mark :: more).foldl escapes escaped = false := by
  rw [List.mem_cons, not_or] at bare
  have unescaping : escapes escaped mark = false := by simp [escapes, Ne.symm bare.1]
  rw [List.foldl_cons, unescaping, foldl_escapes_plain bare.2]

/-- What holds of a text without the separator, and of a text that is cut at the separator if it
holds of what follows the cut, holds of every text and its parts. -/
theorem splitTopLevel_induction (bare : '\\' ∉ mark :: more) {motive : Text → List Text → Prop}
    (missed : ∀ text, topLevelFrom? (mark :: more) brackets brackets.closed false text = none →
      motive text [text])
    (found : ∀ before after,
      topLevelFrom? (mark :: more) brackets brackets.closed false
          (before ++ (mark :: more ++ after)) = some (before, mark :: more ++ after) →
        motive after (splitTopLevel (mark :: more) brackets after) →
        motive (before ++ (mark :: more ++ after))
          (before :: splitTopLevel (mark :: more) brackets after)) (text : Text) :
    motive text (splitTopLevel (mark :: more) brackets text) := by
  induction size : text.length using Nat.strongRecOn generalizing text with
  | ind size inductionHypothesis =>
    subst size
    cases located : topLevelFrom? (mark :: more) brackets brackets.closed false text with
    | none =>
      have cut : cutTopLevelFrom? (mark :: more) brackets false text = none := by
        rw [cutTopLevelFrom?, located]
        rfl
      rw [splitTopLevel, splitTopLevelFrom_missed cut]
      exact missed text located
    | some parts =>
      obtain ⟨before, occurrence⟩ := parts
      obtain ⟨after, rfl⟩ := topLevelFrom?_pattern located
      obtain ⟨rfl, -⟩ := topLevelFrom?_append located
      have cut : cutTopLevelFrom? (mark :: more) brackets false
          (before ++ (mark :: more ++ after)) = some (before, after) := by
        rw [cutTopLevelFrom?, located]
        simp
      have unescaped : isEscapedAfter (mark :: more) = false := foldl_escapes_bare bare false
      rw [splitTopLevel, splitTopLevelFrom_found cut, unescaped]
      exact found before after located
        (inductionHypothesis after.length (cutTopLevelFrom?_length cut) after rfl)

variable (bare : '\\' ∉ mark :: more) (text : Text)

include bare

/-- The parts of a text, joined by the separator, are the text. -/
theorem join_splitTopLevel :
    Text.join (mark :: more) (splitTopLevel (mark :: more) brackets text) = text := by
  refine splitTopLevel_induction bare
    (motive := fun text parts => Text.join (mark :: more) parts = text) ?_ ?_ text
  · exact fun text _ => List.intercalate_singleton
  · intro before after _ joined
    obtain ⟨first, others, whole⟩ :=
      List.exists_cons_of_ne_nil (splitTopLevel_ne_nil (mark :: more) brackets after)
    rw [whole] at joined ⊢
    rw [Text.join_cons_cons, joined, List.append_assoc]

/-- No part has a separator of its own. -/
theorem topLevelFrom?_part : ∀ part ∈ splitTopLevel (mark :: more) brackets text,
    topLevelFrom? (mark :: more) brackets brackets.closed false part = none := by
  refine splitTopLevel_induction bare (motive := fun _ parts => ∀ part ∈ parts,
    topLevelFrom? (mark :: more) brackets brackets.closed false part = none) ?_ ?_ text
  · exact fun text missed => List.forall_mem_singleton.2 missed
  · intro before after located others
    exact List.forall_mem_cons.2 ⟨(topLevelFrom?_before located).2, others⟩

/-- In every part but the last, what is opened is closed. -/
theorem isClosed_part : ∀ part ∈ (splitTopLevel (mark :: more) brackets text).dropLast,
    Brackets.isClosed (brackets.depthsAfter brackets.closed false part) = true := by
  refine splitTopLevel_induction bare (motive := fun _ parts => ∀ part ∈ parts.dropLast,
    Brackets.isClosed (brackets.depthsAfter brackets.closed false part) = true) ?_ ?_ text
  · exact fun text _ part member => absurd member List.not_mem_nil
  · intro before after located others
    rw [List.dropLast_cons_of_ne_nil (splitTopLevel_ne_nil _ _ after)]
    exact List.forall_mem_cons.2 ⟨(topLevelFrom?_before located).1, others⟩

/-- The bytes of a text are split into the bytes of its parts. -/
theorem splitTopLevel_octets
    (ascii : ∀ c, brackets.Mentions c ∨ c ∈ mark :: more → c.toNat < 0x80) :
    splitTopLevel (mark :: more) brackets (Text.octets text) =
      (splitTopLevel (mark :: more) brackets text).map Text.octets := by
  refine splitTopLevel_induction bare (motive := fun text parts =>
    splitTopLevel (mark :: more) brackets (Text.octets text) = parts.map Text.octets) ?_ ?_ text
  · intro text missed
    have cut : cutTopLevelFrom? (mark :: more) brackets false (Text.octets text) = none := by
      rw [cutTopLevelFrom?, topLevelFrom?_octets ascii, missed]
      rfl
    rw [splitTopLevel, splitTopLevelFrom_missed cut]
    rfl
  · intro before after located others
    have separator : Text.octets (mark :: more) = mark :: more :=
      Text.octets_ascii fun c member => ascii c (.inr member)
    have cut : cutTopLevelFrom? (mark :: more) brackets false
        (Text.octets (before ++ (mark :: more ++ after))) =
          some (Text.octets before, Text.octets after) := by
      rw [cutTopLevelFrom?, topLevelFrom?_octets ascii, located, Option.map_some, Prod.map_apply,
        Text.octets_append, separator]
      simp
    have unescaped : isEscapedAfter (mark :: more) = false := foldl_escapes_bare bare false
    rw [splitTopLevel, splitTopLevelFrom_found cut, unescaped, List.map_cons, ← others]
    rfl

/-- The repeated search of a text finds the places at which it is split. -/
theorem separatorPlaces_behind (front : Text) (unescaped : isEscapedAfter front = false) :
    separatorPlaces mark more brackets (front ++ text) front.length =
      cutPlaces (mark :: more).length front.length
        (splitTopLevel (mark :: more) brackets text) := by
  refine splitTopLevel_induction bare (motive := fun text parts => ∀ front : Text,
    isEscapedAfter front = false →
      separatorPlaces mark more brackets (front ++ text) front.length =
        cutPlaces (mark :: more).length front.length parts) ?_ ?_ text front unescaped
  · intro text missed front unescaped
    have nowhere : findTopLevel (front ++ text) front.length (mark :: more) brackets = none := by
      rw [findTopLevel_behind unescaped, missed]
      rfl
    rw [separatorPlaces_missed nowhere]
    rfl
  · intro before after located others front unescaped
    have here : findTopLevel (front ++ (before ++ (mark :: more ++ after))) front.length
        (mark :: more) brackets = some (front.length + before.length) := by
      rw [findTopLevel_behind unescaped, located]
      rfl
    -- The search goes on behind the separator, where nothing is escaped.
    have behind : isEscapedAfter (front ++ before ++ (mark :: more)) = false := by
      rw [isEscapedAfter, List.foldl_append, foldl_escapes_bare bare]
    have regrouped : front ++ (before ++ (mark :: more ++ after)) =
        front ++ before ++ (mark :: more) ++ after := by simp
    have reached : front.length + before.length + (mark :: more).length =
        (front ++ before ++ (mark :: more)).length := by
      rw [List.length_append, List.length_append]
    obtain ⟨first, rest, whole⟩ :=
      List.exists_cons_of_ne_nil (splitTopLevel_ne_nil (mark :: more) brackets after)
    have later := others _ behind
    rw [whole] at later
    rw [separatorPlaces_found here, whole, cutPlaces, regrouped, reached, later]

end Splitting

/-- Splitting cuts a text exactly at its top-level separators. The parts are joined again to the
text; splitting the bytes of the text gives the bytes of the parts, so every part begins and ends
between two characters; no part has a top-level separator of its own; every bracket that a part opens
is closed at its end, unless it is the last; and the cuts are where the search of the whole text,
repeated from behind each find, finds the separator, so there is one part more than it finds
separators. -/
theorem splitTopLevel_exact {brackets : Brackets} {mark : Char} {more : Text}
    (ascii : ∀ c ∈ brackets.openers ++ brackets.closers ++ mark :: more, c.toNat < 0x80)
    (bare : '\\' ∉ mark :: more) (text : Text) :
    Text.join (mark :: more) (splitTopLevel (mark :: more) brackets text) = text ∧
    splitTopLevel (mark :: more) brackets (Text.octets text) =
      (splitTopLevel (mark :: more) brackets text).map Text.octets ∧
    (∀ part ∈ splitTopLevel (mark :: more) brackets text,
      findTopLevel part 0 (mark :: more) brackets = none) ∧
    (∀ part ∈ (splitTopLevel (mark :: more) brackets text).dropLast,
      Brackets.isClosed (brackets.depthsAfter brackets.closed false part) = true) ∧
    separatorPlaces mark more brackets text 0 =
      cutPlaces (mark :: more).length 0 (splitTopLevel (mark :: more) brackets text) ∧
    (splitTopLevel (mark :: more) brackets text).length =
      (separatorPlaces mark more brackets text 0).length + 1 := by
  have coded (c : Char) (meant : brackets.Mentions c ∨ c ∈ mark :: more) : c.toNat < 0x80 := by
    rcases meant with (opens | closes) | separates
    · exact ascii c (List.mem_append_left _ (List.mem_append_left _ opens))
    · exact ascii c (List.mem_append_left _ (List.mem_append_right _ closes))
    · exact ascii c (List.mem_append_right _ separates)
  have places : separatorPlaces mark more brackets text 0 =
      cutPlaces (mark :: more).length 0 (splitTopLevel (mark :: more) brackets text) :=
    separatorPlaces_behind bare text [] rfl
  refine ⟨join_splitTopLevel bare text, splitTopLevel_octets bare text coded, ?_,
    isClosed_part bare text, places, ?_⟩
  · intro part member
    have missed := topLevelFrom?_part bare text part member
    rw [findTopLevel, List.take_zero, List.drop_zero]
    exact Option.map_eq_none_iff.2 missed
  · rw [places]
    exact length_cutPlaces _ _ (splitTopLevel_ne_nil _ _ text)

/-- A stray closer, a group with a separator, three bars in a row, an escaped bar and characters of
several bytes. -/
theorem splitTopLevel_exact_bars :
    (∀ c ∈ Brackets.tagsAndBraces.openers ++ Brackets.tagsAndBraces.closers ++ ['|', '|'],
      c.toNat < 0x80) ∧ '\\' ∉ ['|', '|'] ∧
    splitTopLevel ['|', '|'] Brackets.tagsAndBraces (Text.octets "\x7dé\x7b||\x7d|||日\\||||") =
      ["\x7dé\x7b||\x7d".toList, "|日\\|".toList, "|".toList].map Text.octets ∧
    separatorPlaces '|' ['|'] Brackets.tagsAndBraces "\x7dé\x7b||\x7d|||日\\||||" 0 = [6, 12] := by
  have ascii : ∀ c ∈ Brackets.tagsAndBraces.openers ++ Brackets.tagsAndBraces.closers ++ ['|', '|'],
      c.toNat < 0x80 := by decide
  have bare : '\\' ∉ ['|', '|'] := by decide
  have parts : splitTopLevel ['|', '|'] Brackets.tagsAndBraces "\x7dé\x7b||\x7d|||日\\||||" =
      ["\x7dé\x7b||\x7d".toList, "|日\\|".toList, "|".toList] := by decide +kernel
  obtain ⟨-, octets, -, -, places, -⟩ :=
    splitTopLevel_exact ascii bare "\x7dé\x7b||\x7d|||日\\||||"
  rw [parts] at octets places
  exact ⟨ascii, bare, octets, places.trans (by decide)⟩

end DynamicPrompt
