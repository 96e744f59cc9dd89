import DynamicPrompt.Delimiter
import DynamicPrompt.Proofs.Text.Cut

/-!
# Grouped text

A text is grouped for some kinds of brackets if every bracket in it belongs to a pair, the
pairs are nested in each other, and no backslash stands anywhere. Both searches of the
delimiters pass a grouped text as a whole: afterwards they know of the same open brackets as
before. That holds at any depth and whatever follows the text, so the laws below speak of the
text with a rest after it.

Which characters stand outside every pair is part of the notion, because a search for a
separator stops only there.
-/

namespace DynamicPrompt

namespace Brackets

/-- A character is an opener or a closer of some kind. -/
def Mentions (brackets : Brackets) (c : Char) : Prop :=
  c ∈ brackets.openers ∨ c ∈ brackets.closers

instance (brackets : Brackets) (c : Char) : Decidable (brackets.Mentions c) :=
  inferInstanceAs (Decidable (_ ∨ _))

/-- An opener and a closer of one kind. A closer that is an opener as well is never read as a
closer, and a backslash is never read as a bracket of either sort. -/
structure Pair (brackets : Brackets) (opener closer : Char) : Prop where
  opens : opener ∈ brackets.openers
  closes : brackets.openers.idxOf? opener = brackets.closers.idxOf? closer
  apart : closer ∉ brackets.openers
  openerBare : opener ≠ '\\'
  closerBare : closer ≠ '\\'

/-- The place of a pair among the kinds. -/
theorem Pair.kind {brackets : Brackets} {opener closer : Char}
    (pair : brackets.Pair opener closer) :
    ∃ kind < brackets.openers.length, brackets.openers.idxOf? opener = some kind ∧
      brackets.closers.idxOf? closer = some kind := by
  have found : (brackets.openers.idxOf? opener).isSome := by
    rw [List.isSome_idxOf?]
    exact pair.opens
  obtain ⟨kind, index⟩ := Option.isSome_iff_exists.1 found
  refine ⟨kind, ?_, index, pair.closes ▸ index⟩
  obtain ⟨inside, _⟩ := List.idxOf?_eq_some_iff.1 index
  exact inside

/-- The closer of a pair is one of the closers. -/
theorem Pair.closer_mem {brackets : Brackets} {opener closer : Char}
    (pair : brackets.Pair opener closer) : closer ∈ brackets.closers := by
  obtain ⟨_, _, _, closes⟩ := pair.kind
  obtain ⟨inside, same, _⟩ := List.idxOf?_eq_some_iff.1 closes
  exact same ▸ List.getElem_mem inside

/-- Pairs that share their opener or their closer are the same. -/
theorem Pair.unique {brackets : Brackets} {opener closer opener' closer' : Char}
    (pair : brackets.Pair opener closer) (other : brackets.Pair opener' closer') :
    opener = opener' ↔ closer = closer' := by
  obtain ⟨kind, _, opens, closes⟩ := pair.kind
  obtain ⟨kind', _, opens', closes'⟩ := other.kind
  obtain ⟨inside, atOpener, _⟩ := List.idxOf?_eq_some_iff.1 opens
  obtain ⟨inside', atOpener', _⟩ := List.idxOf?_eq_some_iff.1 opens'
  obtain ⟨within, atCloser, _⟩ := List.idxOf?_eq_some_iff.1 closes
  obtain ⟨within', atCloser', _⟩ := List.idxOf?_eq_some_iff.1 closes'
  constructor
  · intro same
    subst same
    obtain rfl : kind = kind' := Option.some.inj (opens.symm.trans opens')
    rw [← atCloser, ← atCloser']
  · intro same
    subst same
    obtain rfl : kind = kind' := Option.some.inj (closes.symm.trans closes')
    rw [← atOpener, ← atOpener']

/-- The opener of one pair is never the closer of another. -/
theorem Pair.ne {brackets : Brackets} {opener closer opener' closer' : Char}
    (pair : brackets.Pair opener closer) (other : brackets.Pair opener' closer') :
    opener ≠ closer' := by
  rintro rfl
  exact other.apart pair.opens

/-- The sets of brackets that the passes use. -/
def Known (brackets : Brackets) : Prop :=
  brackets = tags ∨ brackets = tagsAndBraces ∨ brackets = all

/-- Angle brackets are a pair of every set in use. -/
theorem Known.angle {brackets : Brackets} (known : brackets.Known) : brackets.Pair '<' '>' := by
  rcases known with rfl | rfl | rfl <;> constructor <;> decide

/-- No other characters are brackets of a set in use. -/
theorem Known.mentions {brackets : Brackets} {c : Char} (known : brackets.Known)
    (mentioned : brackets.Mentions c) : c ∈ "<>[]\x7b\x7d()".toList := by
  have every : ∀ d ∈ brackets.openers ++ brackets.closers, d ∈ "<>[]\x7b\x7d()".toList := by
    rcases known with rfl | rfl | rfl <;> decide
  exact every c (List.mem_append.2 mentioned)

end Brackets

/-- Texts whose brackets are nested pairs, without backslashes, and whose characters outside
every pair are all bare. -/
inductive Grouped (brackets : Brackets) : (Char → Prop) → Text → Prop where
  | nil {bare : Char → Prop} : Grouped brackets bare []
  | char {bare : Char → Prop} {c : Char} {rest : Text} (outside : bare c)
      (unmentioned : ¬ brackets.Mentions c) (unescaping : c ≠ '\\')
      (others : Grouped brackets bare rest) : Grouped brackets bare (c :: rest)
  | group {bare : Char → Prop} {opener closer : Char} {inner rest : Text}
      (pair : brackets.Pair opener closer) (inside : Grouped brackets (fun _ => True) inner)
      (others : Grouped brackets bare rest) :
      Grouped brackets bare (opener :: (inner ++ closer :: rest))

namespace Grouped

variable {brackets : Brackets} {bare : Char → Prop}

/-- Fewer demands on the characters outside are met as well. -/
theorem mono {weaker : Char → Prop} {text : Text} (weaken : ∀ c, bare c → weaker c)
    (grouped : Grouped brackets bare text) : Grouped brackets weaker text := by
  induction grouped with
  | nil => exact .nil
  | char outside unmentioned unescaping _ inductionHypothesis =>
    exact .char (weaken _ outside) unmentioned unescaping (inductionHypothesis weaken)
  | group pair inside _ _ inductionHypothesis =>
    exact .group pair inside (inductionHypothesis weaken)

/-- Whatever stands outside, the text is grouped. -/
theorem anywhere {text : Text} (grouped : Grouped brackets bare text) :
    Grouped brackets (fun _ => True) text := grouped.mono fun _ _ => trivial

/-- Grouped texts one after the other are grouped. -/
theorem append {text rest : Text} (first : Grouped brackets bare text)
    (second : Grouped brackets bare rest) : Grouped brackets bare (text ++ rest) := by
  induction first with
  | nil => exact second
  | char outside unmentioned unescaping _ inductionHypothesis =>
    exact .char outside unmentioned unescaping (inductionHypothesis second)
  | group pair inside _ _ inductionHypothesis =>
    rw [List.cons_append, List.append_assoc, List.cons_append]
    exact .group pair inside (inductionHypothesis second)

/-- A text without brackets and backslashes is grouped. -/
theorem of_unmentioned {text : Text}
    (free : ∀ c ∈ text, bare c ∧ ¬ brackets.Mentions c ∧ c ≠ '\\') :
    Grouped brackets bare text := by
  induction text with
  | nil => exact .nil
  | cons c rest inductionHypothesis =>
    obtain ⟨outside, unmentioned, unescaping⟩ := free c List.mem_cons_self
    exact .char outside unmentioned unescaping
      (inductionHypothesis fun other member => free other (List.mem_cons_of_mem c member))

/-- No backslash stands in the text. -/
theorem unescaped {text : Text} (grouped : Grouped brackets bare text) : '\\' ∉ text := by
  induction grouped with
  | nil => exact List.not_mem_nil
  | char _ _ unescaping _ inductionHypothesis =>
    rw [List.mem_cons, not_or]
    exact ⟨unescaping.symm, inductionHypothesis⟩
  | group pair _ _ inside others =>
    simp only [List.mem_cons, List.mem_append, not_or]
    exact ⟨pair.openerBare.symm, inside, pair.closerBare.symm, others⟩

/-- The characters outside every pair meet what all characters of the text do. -/
theorem of_all {demand : Char → Prop} {text : Text} (grouped : Grouped brackets bare text)
    (each : ∀ c ∈ text, demand c) : Grouped brackets demand text := by
  induction grouped with
  | nil => exact .nil
  | char _ unmentioned unescaping _ inductionHypothesis =>
    rw [List.forall_mem_cons] at each
    exact .char each.1 unmentioned unescaping (inductionHypothesis each.2)
  | group pair inside _ _ inductionHypothesis =>
    simp only [List.forall_mem_cons, List.forall_mem_append] at each
    exact .group pair inside (inductionHypothesis each.2.2.2)

/-- The text is grouped for fewer kinds of brackets, too. -/
theorem fewer {kinds : Brackets} {text : Text} (grouped : Grouped brackets bare text)
    (mentioned : ∀ c, kinds.Mentions c → brackets.Mentions c)
    (each : ∀ {opener closer}, brackets.Pair opener closer →
      kinds.Pair opener closer ∨ ¬ kinds.Mentions opener ∧ ¬ kinds.Mentions closer) :
    Grouped kinds (fun _ => True) text := by
  induction grouped with
  | nil => exact .nil
  | char _ unmentioned unescaping _ inductionHypothesis =>
    exact .char trivial (fun among => unmentioned (mentioned _ among)) unescaping inductionHypothesis
  | group pair _ _ inside others =>
    rcases each pair with same | ⟨noOpener, noCloser⟩
    · exact .group same inside others
    · exact .char trivial noOpener pair.openerBare
        (inside.append (.char trivial noCloser pair.closerBare others))

/-- Characters that are no brackets may be changed into others that are none. -/
theorem map {change : Char → Char} {text : Text} (grouped : Grouped brackets bare text)
    (kept : ∀ c, brackets.Mentions c → change c = c)
    (changed : ∀ c, ¬ brackets.Mentions c → c ≠ '\\' →
      ¬ brackets.Mentions (change c) ∧ change c ≠ '\\') :
    Grouped brackets (fun _ => True) (text.map change) := by
  induction grouped with
  | nil => exact .nil
  | char _ unmentioned unescaping _ inductionHypothesis =>
    obtain ⟨unmentioned', unescaping'⟩ := changed _ unmentioned unescaping
    exact .char trivial unmentioned' unescaping' inductionHypothesis
  | group pair _ _ inside others =>
    rw [List.map_cons, List.map_append, List.map_cons, kept _ (.inl pair.opens),
      kept _ (.inr pair.closer_mem)]
    exact .group pair inside others

/-- Grouped texts between grouped separators are grouped. -/
theorem join {separator : Text} {parts : List Text} (between : Grouped brackets bare separator)
    (each : ∀ part ∈ parts, Grouped brackets bare part) :
    Grouped brackets bare (Text.join separator parts) :=
  Text.join_of_parts .nil append between each

end Grouped

/-- Brackets of one kind. -/
def Brackets.single (opener closer : Char) : Brackets := ⟨[opener], [closer]⟩

/-- The brackets of one kind are a pair of the kinds that are left when all others are left out. -/
theorem Brackets.Pair.single {brackets : Brackets} {opener closer : Char}
    (pair : brackets.Pair opener closer) : (Brackets.single opener closer).Pair opener closer where
  opens := List.mem_cons_self
  closes := by simp [Brackets.single]
  apart member := pair.ne pair (List.mem_singleton.1 member).symm
  openerBare := pair.openerBare
  closerBare := pair.closerBare

/-- In a grouped text the brackets of each kind alone are nested pairs. -/
theorem Grouped.single {brackets : Brackets} {bare : Char → Prop} {opener closer : Char} {text : Text}
    (grouped : Grouped brackets bare text) (pair : brackets.Pair opener closer) :
    Grouped (.single opener closer) (fun _ => True) text := by
  have mentioned : ∀ c, (Brackets.single opener closer).Mentions c → c = opener ∨ c = closer := by
    rintro c (opens | closes)
    · exact .inl (List.mem_singleton.1 opens)
    · exact .inr (List.mem_singleton.1 closes)
  apply grouped.fewer
  · intro c among
    rcases mentioned c among with rfl | rfl
    · exact .inl pair.opens
    · exact .inr pair.closer_mem
  · intro opener' closer' pair'
    by_cases same : opener' = opener
    · obtain rfl : closer' = closer := (pair'.unique pair).1 same
      subst same
      exact .inl pair.single
    · have differ : closer' ≠ closer := fun equal => same ((pair'.unique pair).2 equal)
      refine .inr ⟨fun among => ?_, fun among => ?_⟩
      · rcases mentioned _ among with equal | equal
        · exact same equal
        · exact pair'.ne pair equal
      · rcases mentioned _ among with equal | equal
        · exact pair.ne pair' equal.symm
        · exact differ equal

section Closers

variable {brackets : Brackets} {opener closer : Char}

/-- The search for a closer passes a character that is neither of the pair. -/
theorem closing?_other {c : Char} (noOpener : c ≠ opener) (noCloser : c ≠ closer)
    (unescaping : c ≠ '\\') (depth : Nat) (rest : Text) :
    closing? opener closer depth false (c :: rest) =
      (closing? opener closer depth false rest).map fun parts => (c :: parts.1, parts.2) := by
  have unescaped : escapes false c = false := by simp [escapes, unescaping]
  rw [closing?.eq_def]
  simp [noCloser, noOpener, unescaped]

/-- An opener of the same kind goes one level deeper. -/
theorem closing?_opener (apart : opener ≠ closer) (unescaping : opener ≠ '\\') (depth : Nat)
    (rest : Text) :
    closing? opener closer depth false (opener :: rest) =
      (closing? opener closer (depth + 1) false rest).map
        fun parts => (opener :: parts.1, parts.2) := by
  have unescaped : escapes false opener = false := by simp [escapes, unescaping]
  rw [closing?.eq_def]
  simp [apart, unescaped]

/-- A closer below the top goes one level up. -/
theorem closing?_closer (unescaping : closer ≠ '\\') (depth : Nat) (rest : Text) :
    closing? opener closer (depth + 1) false (closer :: rest) =
      (closing? opener closer depth false rest).map
        fun parts => (closer :: parts.1, parts.2) := by
  have unescaped : escapes false closer = false := by simp [escapes, unescaping]
  rw [closing?.eq_def]
  simp [unescaped]

/-- A character that no kind of bracket mentions belongs to no pair. -/
theorem Brackets.Pair.ne_of_unmentioned {c : Char} (pair : brackets.Pair opener closer)
    (unmentioned : ¬ brackets.Mentions c) : c ≠ opener ∧ c ≠ closer := by
  constructor
  · rintro rfl
    exact unmentioned (.inl pair.opens)
  · rintro rfl
    exact unmentioned (.inr pair.closer_mem)

/-- The search for a closer passes grouped text at any depth.

The induction follows the grouping. A pair of the kind searched for moves the depth down and
up again around its inside; any other pair is passed as two characters. -/
theorem closing?_grouped {bare : Char → Prop} {text : Text}
    (pair : brackets.Pair opener closer) (grouped : Grouped brackets bare text) (depth : Nat)
    (rest : Text) :
    closing? opener closer depth false (text ++ rest) =
      (closing? opener closer depth false rest).map fun parts => (text ++ parts.1, parts.2) := by
  induction grouped generalizing depth rest with
  | nil => simp
  | char _ unmentioned unescaping _ inductionHypothesis =>
    obtain ⟨noOpener, noCloser⟩ := pair.ne_of_unmentioned unmentioned
    rw [List.cons_append, closing?_other noOpener noCloser unescaping, inductionHypothesis,
      Option.map_map]
    rfl
  | @group _ opener' closer' inner others pair' _ _ passInner passOthers =>
    rw [List.cons_append, List.append_assoc, List.cons_append]
    by_cases same : opener' = opener
    · obtain rfl : closer' = closer := (pair'.unique pair).1 same
      subst same
      rw [closing?_opener (pair.ne pair) pair.openerBare, passInner,
        closing?_closer pair.closerBare, passOthers]
      simp [Function.comp_def]
    · have differ : closer' ≠ closer := fun equal => same ((pair'.unique pair).2 equal)
      rw [closing?_other same (pair'.ne pair) pair'.openerBare, passInner,
        closing?_other (pair.ne pair').symm differ pair'.closerBare, passOthers]
      simp [Function.comp_def]

/-- A pair encloses the grouped text inside it. -/
theorem enclosed?_grouped {bare : Char → Prop} {inner : Text}
    (pair : brackets.Pair opener closer) (grouped : Grouped brackets bare inner) (rest : Text) :
    enclosed? opener closer (inner ++ closer :: rest) = some (inner, rest) := by
  rw [enclosed?, closing?_grouped pair grouped, closing?]
  simp

end Closers

section Separators

variable {brackets : Brackets} {mark : Char} {more : Text}

/-- An open bracket of some kind is missed by no later check. -/
theorem isClosed_modify {depths : List Nat} {kind : Nat} (inside : kind < depths.length) :
    Brackets.isClosed (depths.modify kind (· + 1)) = false := by
  rw [Brackets.isClosed, List.all_eq_false]
  have within : kind < (depths.modify kind (· + 1)).length := by
    rw [List.length_modify]
    exact inside
  refine ⟨(depths.modify kind (· + 1))[kind], List.getElem_mem within, ?_⟩
  rw [List.getElem_modify_eq]
  simp

/-- A character at which no separator begins, or that stands inside a bracket, is passed by the
search for the separator. -/
theorem topLevelFrom?_onward {separator : Text} {c : Char} {depths : List Nat} {rest : Text}
    (unescaping : c ≠ '\\')
    (missed : Brackets.isClosed depths = true → Text.after? separator (c :: rest) = none) :
    topLevelFrom? separator brackets depths false (c :: rest) =
      (topLevelFrom? separator brackets (brackets.step depths c) false rest).map
        fun parts => (c :: parts.1, parts.2) := by
  have unescaped : escapes false c = false := by simp [escapes, unescaping]
  have passed : (Brackets.isClosed depths &&
      (Text.after? separator (c :: rest)).isSome) = false := by
    cases closed : Brackets.isClosed depths with
    | false => rfl
    | true =>
      rw [missed closed]
      rfl
  rw [topLevelFrom?]
  simp [passed, unescaped]

/-- A character other than the first of a separator begins none. -/
theorem topLevelFrom?_step {c : Char} {depths : List Nat} (unescaping : c ≠ '\\')
    (passed : Brackets.isClosed depths = true → c ≠ mark) (rest : Text) :
    topLevelFrom? (mark :: more) brackets depths false (c :: rest) =
      (topLevelFrom? (mark :: more) brackets (brackets.step depths c) false rest).map
        fun parts => (c :: parts.1, parts.2) := by
  apply topLevelFrom?_onward unescaping
  intro closed
  rw [Text.after?, if_neg (passed closed).symm]

/-- Before anything has been read no bracket is open. -/
theorem isClosed_closed (brackets : Brackets) : Brackets.isClosed brackets.closed = true := by
  simp [Brackets.isClosed, Brackets.closed]

/-- The search stops at a separator at the start of the text. -/
theorem topLevelFrom?_here (after : Text) :
    topLevelFrom? (mark :: more) brackets brackets.closed false (mark :: more ++ after) =
      some ([], mark :: more ++ after) := by
  have begins : Text.after? (mark :: more) (mark :: (more ++ after)) = some after :=
    Text.after?_eq_some_iff.2 rfl
  rw [List.cons_append, topLevelFrom?]
  simp [isClosed_closed, begins]

/-- An opener and a closer with their kind. -/
theorem step_pair {opener closer : Char} (pair : brackets.Pair opener closer) :
    ∃ kind < brackets.openers.length,
      (∀ depths, brackets.step depths opener = depths.modify kind (· + 1)) ∧
        ∀ depths, brackets.step depths closer = depths.modify kind (· - 1) := by
  obtain ⟨kind, inside, opens, closes⟩ := pair.kind
  have apart : brackets.openers.idxOf? closer = none := List.idxOf?_eq_none_iff.2 pair.apart
  refine ⟨kind, inside, fun depths => ?_, fun depths => ?_⟩
  · rw [Brackets.step, opens]
  · rw [Brackets.step, apart, closes]

/-- A character of no bracket opens and closes nothing. -/
theorem step_unmentioned {c : Char} (unmentioned : ¬ brackets.Mentions c) (depths : List Nat) :
    brackets.step depths c = depths := by
  have noOpener : brackets.openers.idxOf? c = none :=
    List.idxOf?_eq_none_iff.2 fun member => unmentioned (.inl member)
  have noCloser : brackets.closers.idxOf? c = none :=
    List.idxOf?_eq_none_iff.2 fun member => unmentioned (.inr member)
  rw [Brackets.step, noOpener, noCloser]

/-- The search for a separator passes grouped text, wherever brackets are open and, if none
is, as long as the characters outside every pair begin no separator. -/
theorem topLevelFrom?_grouped {bare : Char → Prop} {text : Text} {depths : List Nat}
    (counted : depths.length = brackets.openers.length) (unmentioned : ¬ brackets.Mentions mark)
    (grouped : Grouped brackets bare text)
    (passed : Brackets.isClosed depths = true → ∀ c, bare c → c ≠ mark) (rest : Text) :
    topLevelFrom? (mark :: more) brackets depths false (text ++ rest) =
      (topLevelFrom? (mark :: more) brackets depths false rest).map
        fun parts => (text ++ parts.1, parts.2) := by
  induction grouped generalizing depths rest with
  | nil => simp
  | char outside plain unescaping _ inductionHypothesis =>
    rw [List.cons_append, topLevelFrom?_step unescaping fun closed => passed closed _ outside,
      step_unmentioned plain, inductionHypothesis counted passed, Option.map_map]
    rfl
  | @group _ opener closer inner others pair _ _ passInner passOthers =>
    obtain ⟨kind, inside, opens, closes⟩ := step_pair pair
    have noOpener : opener ≠ mark := by
      rintro rfl
      exact unmentioned (.inl pair.opens)
    have within : kind < depths.length := by
      rw [counted]
      exact inside
    have still : ¬ Brackets.isClosed (depths.modify kind (· + 1)) = true := by
      rw [isClosed_modify within]
      exact Bool.false_ne_true
    have restored : (depths.modify kind (· + 1)).modify kind (· - 1) = depths := by
      rw [List.modify_modify_eq]
      exact List.modify_id _ _
    rw [List.cons_append, List.append_assoc, List.cons_append,
      topLevelFrom?_step pair.openerBare fun _ => noOpener, opens,
      passInner ((List.length_modify ..).trans counted) fun closed => absurd closed still,
      topLevelFrom?_step pair.closerBare fun closed => absurd closed still, closes, restored,
      passOthers counted passed]
    simp [Function.comp_def]

/-- Reading a character keeps the number of kinds. -/
theorem length_step (depths : List Nat) (c : Char) :
    (brackets.step depths c).length = depths.length := by
  unfold Brackets.step
  split
  · exact List.length_modify ..
  · split
    · exact List.length_modify ..
    · rfl

/-- Other characters neither open nor close brackets of a kind. -/
theorem step_other {opener closer c : Char} {kind : Nat}
    (opens : brackets.openers.idxOf? opener = some kind)
    (closes : brackets.closers.idxOf? closer = some kind) (noOpener : c ≠ opener)
    (noCloser : c ≠ closer) (depths : List Nat) :
    (brackets.step depths c)[kind]? = depths[kind]? := by
  have differs {marks : Text} {mark : Char} {other : Nat} (first : marks.idxOf? mark = some kind)
      (second : marks.idxOf? c = some other) (differ : c ≠ mark) : other ≠ kind := by
    rintro rfl
    obtain ⟨inside, same, _⟩ := List.idxOf?_eq_some_iff.1 first
    obtain ⟨_, same', _⟩ := List.idxOf?_eq_some_iff.1 second
    exact differ (same'.symm.trans same)
  unfold Brackets.step
  split
  · next other found => exact List.getElem?_modify_ne _ _ (differs opens found noOpener)
  · split
    · next other found => exact List.getElem?_modify_ne _ _ (differs closes found noCloser)
    · rfl

/-- While a bracket of some kind is open, the search passes a text whose brackets of that kind are
nested pairs, whatever brackets of other kinds stand in it. -/
theorem topLevelFrom?_inside {bare : Char → Prop} {opener closer : Char} {kind depth : Nat}
    {inner : Text} {depths : List Nat} (opens : brackets.openers.idxOf? opener = some kind)
    (closes : brackets.closers.idxOf? closer = some kind) (apart : closer ∉ brackets.openers)
    (grouped : Grouped (.single opener closer) bare inner) (deep : depths[kind]? = some (depth + 1)) :
    ∃ depths', depths'.length = depths.length ∧ depths'[kind]? = some (depth + 1) ∧
      ∀ rest, topLevelFrom? (mark :: more) brackets depths false (inner ++ rest) =
        (topLevelFrom? (mark :: more) brackets depths' false rest).map
          fun parts => (inner ++ parts.1, parts.2) := by
  have still {depths : List Nat} {depth : Nat} (deep : depths[kind]? = some (depth + 1)) :
      ¬ Brackets.isClosed depths = true := by
    rw [Bool.not_eq_true, Brackets.isClosed, List.all_eq_false]
    exact ⟨depth + 1, List.mem_of_getElem? deep, by simp⟩
  induction grouped generalizing depth depths with
  | nil => exact ⟨depths, rfl, deep, fun rest => by simp⟩
  | @char _ c _ _ unmentioned unescaping _ inductionHypothesis =>
    have noOpener : c ≠ opener := fun same => unmentioned (.inl (List.mem_singleton.2 same))
    have noCloser : c ≠ closer := fun same => unmentioned (.inr (List.mem_singleton.2 same))
    obtain ⟨depths', counted, deep', passed⟩ :=
      inductionHypothesis ((step_other opens closes noOpener noCloser depths).trans deep)
    refine ⟨depths', counted.trans (length_step depths c), deep', fun rest => ?_⟩
    rw [List.cons_append, topLevelFrom?_onward unescaping fun closed => absurd closed (still deep),
      passed, Option.map_map]
    rfl
  | @group _ opener' closer' inner others pair _ _ passInner passOthers =>
    obtain rfl : opener' = opener := List.mem_singleton.1 pair.opens
    obtain rfl : closer' = closer := List.mem_singleton.1 pair.closer_mem
    have opened : brackets.step depths opener' = depths.modify kind (· + 1) := by
      rw [Brackets.step, opens]
    have closed (depths : List Nat) : brackets.step depths closer' = depths.modify kind (· - 1) := by
      rw [Brackets.step, List.idxOf?_eq_none_iff.2 apart, closes]
    have deeper : (depths.modify kind (· + 1))[kind]? = some (depth + 1 + 1) := by
      rw [List.getElem?_modify_eq, deep]
      rfl
    obtain ⟨between, counted, deep', passed⟩ := passInner deeper
    have back : (between.modify kind (· - 1))[kind]? = some (depth + 1) := by
      rw [List.getElem?_modify_eq, deep']
      rfl
    obtain ⟨depths', counted', deep'', passed'⟩ := passOthers back
    rw [List.length_modify] at counted counted'
    refine ⟨depths', counted'.trans counted, deep'', fun rest => ?_⟩
    rw [List.cons_append, List.append_assoc, List.cons_append,
      topLevelFrom?_onward pair.openerBare fun closed => absurd closed (still deep), opened, passed,
      topLevelFrom?_onward pair.closerBare fun closed => absurd closed (still deep'), closed, passed']
    simp [Function.comp_def]

/-- The search passes a pair with a text inside whose brackets of that kind are nested pairs. -/
theorem topLevelFrom?_pair {bare : Char → Prop} {opener closer : Char} {inner : Text}
    {depths : List Nat} (pair : brackets.Pair opener closer)
    (unmentioned : ¬ brackets.Mentions mark)
    (grouped : Grouped (.single opener closer) bare inner)
    (counted : depths.length = brackets.openers.length) :
    ∃ depths', depths'.length = brackets.openers.length ∧
      ∀ rest, topLevelFrom? (mark :: more) brackets depths false (opener :: (inner ++ closer :: rest)) =
        (topLevelFrom? (mark :: more) brackets depths' false rest).map
          fun parts => (opener :: (inner ++ closer :: parts.1), parts.2) := by
  obtain ⟨kind, inside, opens, closes⟩ := pair.kind
  have noOpener : opener ≠ mark := by
    rintro rfl
    exact unmentioned (.inl pair.opens)
  have noCloser : closer ≠ mark := by
    rintro rfl
    exact unmentioned (.inr pair.closer_mem)
  have opened : brackets.step depths opener = depths.modify kind (· + 1) := by
    rw [Brackets.step, opens]
  have deep : (depths.modify kind (· + 1))[kind]? = some (depths[kind] + 1) := by
    rw [List.getElem?_modify_eq, List.getElem?_eq_getElem (counted ▸ inside)]
    rfl
  obtain ⟨between, length, _, passed⟩ :=
    @topLevelFrom?_inside brackets mark more _ _ _ _ _ _ _ opens closes pair.apart grouped deep
  refine ⟨brackets.step between closer, ?_, fun rest => ?_⟩
  · rw [length_step, length, List.length_modify, counted]
  · rw [topLevelFrom?_step pair.openerBare fun _ => noOpener, opened, passed,
      topLevelFrom?_step pair.closerBare fun _ => noCloser]
    simp [Function.comp_def]

/-- Where the separator is not found, the whole text is one part. -/
theorem splitTopLevelFrom_missed {separator : Text} {escaped : Bool} {text : Text}
    (missed : cutTopLevelFrom? separator brackets escaped text = none) :
    splitTopLevelFrom separator brackets escaped text = [text] := by
  rw [splitTopLevelFrom]
  split
  · rfl
  · next cut => exact absurd (missed.symm.trans cut) (Option.some_ne_none _).symm

/-- Where the separator is found, what stands before it is a part and what follows it is split
again. -/
theorem splitTopLevelFrom_found {separator : Text} {escaped : Bool} {text before after : Text}
    (found : cutTopLevelFrom? separator brackets escaped text = some (before, after)) :
    splitTopLevelFrom separator brackets escaped text =
      before :: splitTopLevelFrom separator brackets (isEscapedAfter separator) after := by
  rw [splitTopLevelFrom]
  split
  · next cut => exact absurd (found.symm.trans cut) (Option.some_ne_none _)
  · next before' after' cut =>
    obtain ⟨rfl, rfl⟩ := Prod.mk.inj (Option.some.inj (found.symm.trans cut))
    rfl

/-- The separator is found behind a text that the search passes. -/
theorem cutTopLevelFrom?_passed {before : Text}
    (pass : ∀ rest, topLevelFrom? (mark :: more) brackets brackets.closed false (before ++ rest) =
      (topLevelFrom? (mark :: more) brackets brackets.closed false rest).map
        fun parts => (before ++ parts.1, parts.2)) (after : Text) :
    cutTopLevelFrom? (mark :: more) brackets false (before ++ (mark :: more ++ after)) =
      some (before, after) := by
  rw [cutTopLevelFrom?, pass, topLevelFrom?_here]
  simp

/-- No separator is found in grouped text that has none outside every pair. -/
theorem cutTopLevelFrom?_lacking {bare : Char → Prop} {text : Text}
    (unmentioned : ¬ brackets.Mentions mark) (grouped : Grouped brackets bare text)
    (passed : ∀ c, bare c → c ≠ mark) :
    cutTopLevelFrom? (mark :: more) brackets false text = none := by
  have counted : brackets.closed.length = brackets.openers.length := List.length_map ..
  have whole := @topLevelFrom?_grouped brackets mark more bare text _ counted unmentioned grouped
    (fun _ => passed) []
  rw [List.append_nil] at whole
  rw [cutTopLevelFrom?, whole]
  rfl

/-- The separator is found behind grouped text that has none outside every pair. -/
theorem cutTopLevelFrom?_grouped {bare : Char → Prop} {text : Text}
    (unmentioned : ¬ brackets.Mentions mark) (grouped : Grouped brackets bare text)
    (passed : ∀ c, bare c → c ≠ mark) (after : Text) :
    cutTopLevelFrom? (mark :: more) brackets false (text ++ (mark :: more ++ after)) =
      some (text, after) := by
  have counted : brackets.closed.length = brackets.openers.length := List.length_map ..
  exact cutTopLevelFrom?_passed
    (topLevelFrom?_grouped counted unmentioned grouped fun _ => passed) after

/-- Splitting at a separator undoes joining with it. -/
theorem splitTopLevel_join {bare : Char → Prop} {parts : List Text} (filled : parts ≠ [])
    (unmentioned : ¬ brackets.Mentions mark) (unescaping : isEscapedAfter (mark :: more) = false)
    (each : ∀ part ∈ parts, Grouped brackets bare part)
    (passed : ∀ c, bare c → c ≠ mark) :
    splitTopLevel (mark :: more) brackets (Text.join (mark :: more) parts) = parts := by
  rw [splitTopLevel]
  induction parts with
  | nil => exact absurd rfl filled
  | cons first others inductionHypothesis =>
    have grouped := each first List.mem_cons_self
    cases others with
    | nil =>
      rw [Text.join, List.intercalate_singleton,
        splitTopLevelFrom_missed (cutTopLevelFrom?_lacking unmentioned grouped passed)]
    | cons second others =>
      have rejoined := inductionHypothesis (List.cons_ne_nil _ _)
        fun part member => each part (List.mem_cons_of_mem first member)
      rw [Text.join_cons_cons, List.append_assoc,
        splitTopLevelFrom_found (cutTopLevelFrom?_grouped unmentioned grouped passed _),
        unescaping, rejoined]

/-- A text without the separator outside every pair is one part. -/
theorem splitTopLevel_alone {bare : Char → Prop} {text : Text}
    (unmentioned : ¬ brackets.Mentions mark) (unescaping : isEscapedAfter (mark :: more) = false)
    (grouped : Grouped brackets bare text) (passed : ∀ c, bare c → c ≠ mark) :
    splitTopLevel (mark :: more) brackets text = [text] := by
  have single := splitTopLevel_join (List.cons_ne_nil text []) unmentioned unescaping
    (List.forall_mem_singleton.2 grouped) passed
  rwa [Text.join, List.intercalate_singleton] at single

end Separators

end DynamicPrompt
