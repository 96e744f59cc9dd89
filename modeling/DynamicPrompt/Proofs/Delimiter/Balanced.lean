import DynamicPrompt.Proofs.Delimiter.Unclosed

/-!
# Balanced texts

The search for the closer of an opener cuts the text at the first closer that the openers before
it do not account for. So the text before that closer is balanced: no beginning of it has more
closers than openers, and as a whole it has as many of the one as of the other. Conversely the
search stops behind every balanced text that a closer follows. Escaped characters do not count.
-/

namespace DynamicPrompt

section Counting

variable {opener closer c : Char}

/-- The characters of a text are counted part by part; whether the first character of the second
part is escaped is told by the first. -/
theorem unescapedCount_append (escaped : Bool) (front back : Text) :
    unescapedCount c escaped (front ++ back) =
      unescapedCount c escaped front + unescapedCount c (front.foldl escapes escaped) back := by
  induction front generalizing escaped with
  | nil => simp [unescapedCount]
  | cons d front inductionHypothesis =>
    rw [List.cons_append, unescapedCount, unescapedCount, inductionHypothesis, List.foldl_cons,
      Nat.add_assoc]

/-- Without backslashes nothing becomes escaped. -/
theorem foldl_escapes_plain {text : Text} (plain : '\\' ∉ text) :
    text.foldl escapes false = false := by
  induction text with
  | nil => rfl
  | cons d text inductionHypothesis =>
    rw [List.mem_cons, not_or] at plain
    have unescaping : escapes false d = false := by simp [escapes, Ne.symm plain.1]
    rw [List.foldl_cons, unescaping, inductionHypothesis plain.2]

/-- A text that closes everything opened in it and the given number of openers before it, and
nothing more along the way. -/
structure Closes (opener closer : Char) (depth : Nat) (escaped : Bool) (text : Text) : Prop where
  along : ∀ beginning, beginning <+: text →
    unescapedCount closer escaped beginning ≤ depth + unescapedCount opener escaped beginning
  whole : unescapedCount closer escaped text = depth + unescapedCount opener escaped text

instance (opener closer : Char) (depth : Nat) (escaped : Bool) (text : Text) :
    Decidable (Closes opener closer depth escaped text) :=
  decidable_of_iff
    ((∀ beginning ∈ text.inits, unescapedCount closer escaped beginning ≤
        depth + unescapedCount opener escaped beginning) ∧
      unescapedCount closer escaped text = depth + unescapedCount opener escaped text)
    ⟨fun both => ⟨fun beginning begins => both.1 beginning ((List.mem_inits _ _).2 begins), both.2⟩,
      fun closes => ⟨fun beginning among => closes.along beginning ((List.mem_inits _ _).1 among),
        closes.whole⟩⟩

/-- A text is balanced if it closes what is opened in it, and nothing more along the way. -/
abbrev IsBalanced (opener closer : Char) (text : Text) : Prop := Closes opener closer 0 false text

/-- The empty text closes nothing. -/
theorem closes_nil_iff {depth : Nat} {escaped : Bool} :
    Closes opener closer depth escaped [] ↔ depth = 0 := by
  constructor
  · intro closes
    have whole := closes.whole
    simp only [unescapedCount] at whole
    omega
  · rintro rfl
    constructor
    · intro beginning begins
      rw [List.prefix_nil.1 begins]
      exact Nat.zero_le _
    · rfl

/-- A text closes what its characters but the first close, with as many openers before them as
there are after the first. -/
theorem closes_cons {depth depth' : Nat} {escaped : Bool} {text : Text}
    (moved : depth + (if c = opener ∧ escaped = false then 1 else 0) =
      depth' + (if c = closer ∧ escaped = false then 1 else 0)) :
    Closes opener closer depth escaped (c :: text) ↔
      Closes opener closer depth' (escapes escaped c) text := by
  constructor
  · rintro ⟨along, whole⟩
    rw [forall_prefix_cons] at along
    simp only [unescapedCount] at along whole
    refine ⟨fun beginning begins => ?_, by omega⟩
    have within := along.2 beginning begins
    omega
  · rintro ⟨along, whole⟩
    refine ⟨?_, by simp only [unescapedCount]; omega⟩
    rw [forall_prefix_cons]
    refine ⟨Nat.zero_le _, fun beginning begins => ?_⟩
    have within := along beginning begins
    simp only [unescapedCount]
    omega

/-- An unescaped closer without an opener before it closes too much. -/
theorem not_closes_closer (distinct : opener ≠ closer) {text : Text} :
    ¬ Closes opener closer 0 false (closer :: text) := by
  intro closes
  have alone := closes.along [closer] (List.cons_prefix_cons.2 ⟨rfl, List.nil_prefix⟩)
  simp [unescapedCount, Ne.symm distinct] at alone

/-- A text without openers and closers is balanced. -/
theorem closes_unmentioned {escaped : Bool} {text : Text}
    (free : ∀ d ∈ text, d ≠ opener ∧ d ≠ closer) : Closes opener closer 0 escaped text := by
  induction text generalizing escaped with
  | nil => exact closes_nil_iff.2 rfl
  | cons d text inductionHypothesis =>
    obtain ⟨noOpener, noCloser⟩ := free d List.mem_cons_self
    have moved : 0 + (if d = opener ∧ escaped = false then 1 else 0) =
        0 + (if d = closer ∧ escaped = false then 1 else 0) := by simp [noOpener, noCloser]
    exact (closes_cons moved).2 (inductionHypothesis fun e member => free e (.tail d member))

/-- Characters that open, close and escape nothing may stand before a text. -/
theorem closes_behind {depth : Nat} {front text : Text}
    (free : ∀ d ∈ front, d ≠ opener ∧ d ≠ closer ∧ d ≠ '\\') :
    Closes opener closer depth false (front ++ text) ↔ Closes opener closer depth false text := by
  induction front with
  | nil => exact Iff.rfl
  | cons d front inductionHypothesis =>
    obtain ⟨noOpener, noCloser, noEscape⟩ := free d List.mem_cons_self
    have moved : depth + (if d = opener ∧ false = false then 1 else 0) =
        depth + (if d = closer ∧ false = false then 1 else 0) := by simp [noOpener, noCloser]
    have unescaping : escapes false d = false := by simp [escapes, noEscape]
    rw [List.cons_append, closes_cons moved, unescaping]
    exact inductionHypothesis fun e member => free e (.tail d member)

/-- A balanced text has no balanced end behind an opener. -/
theorem not_isBalanced_append (distinct : opener ≠ closer) {front back : Text}
    (plain : '\\' ∉ front ++ opener :: back) (ends : IsBalanced opener closer back) :
    ¬ IsBalanced opener closer (front ++ opener :: back) := by
  intro balanced
  simp only [List.mem_append, List.mem_cons, not_or] at plain
  have unescaped : front.foldl escapes false = false := foldl_escapes_plain plain.1
  have unescaping : escapes false opener = false := by simp [escapes, Ne.symm plain.2.1]
  have along := balanced.along front (List.prefix_append front _)
  have whole := balanced.whole
  have rest := ends.whole
  simp only [unescapedCount_append, unescaped, unescapedCount, unescaping, distinct, and_true,
    if_true, if_false] at whole
  omega

end Counting

section Searching

variable {opener closer : Char} (distinct : opener ≠ closer)

include distinct

/-- The search cuts a text exactly at an unescaped closer before which everything that was opened is
closed. -/
theorem closing?_eq_some_iff {depth : Nat} {escaped : Bool} {text inner after : Text} :
    closing? opener closer depth escaped text = some (inner, after) ↔
      text = inner ++ closer :: after ∧ inner.foldl escapes escaped = false ∧
        Closes opener closer depth escaped inner := by
  induction text generalizing inner depth escaped with
  | nil => simp [closing?]
  | cons c rest inductionHypothesis =>
    -- A character that does not end the search belongs to the inside.
    have onward {outer : Nat}
        (moved : depth + (if c = opener ∧ escaped = false then 1 else 0) =
          outer + (if c = closer ∧ escaped = false then 1 else 0))
        (going : ¬ (c = closer ∧ escaped = false ∧ depth = 0)) :
        (closing? opener closer outer (escapes escaped c) rest).map
            (fun parts => (c :: parts.1, parts.2)) = some (inner, after) ↔
          c :: rest = inner ++ closer :: after ∧ inner.foldl escapes escaped = false ∧
            Closes opener closer depth escaped inner := by
      cases inner with
      | nil =>
        rw [closes_nil_iff]
        constructor
        · simp
        · rintro ⟨same, unescaped, none⟩
          exact absurd ⟨(List.cons.inj same).1, unescaped, none⟩ going
      | cons d inner =>
        simp only [Option.map_eq_some_iff, Prod.exists, Prod.mk.injEq, List.cons.injEq,
          List.cons_append, List.foldl_cons]
        constructor
        · rintro ⟨inside, later, found, ⟨rfl, rfl⟩, rfl⟩
          obtain ⟨whole, unescaped, closes⟩ := inductionHypothesis.1 found
          exact ⟨⟨rfl, whole⟩, unescaped, (closes_cons moved).2 closes⟩
        · rintro ⟨⟨rfl, whole⟩, unescaped, closes⟩
          have found := inductionHypothesis.2 ⟨whole, unescaped, (closes_cons moved).1 closes⟩
          exact ⟨inner, after, found, ⟨rfl, rfl⟩, rfl⟩
    rw [closing?.eq_def]
    dsimp only
    cases escaped with
    | true => exact onward (by simp) (by simp)
    | false =>
      rw [if_neg Bool.false_ne_true]
      by_cases closes : c = closer
      · subst closes
        rw [if_pos rfl]
        cases depth with
        | zero =>
          dsimp only
          cases inner with
          | nil => simp [closes_nil_iff, eq_comm]
          | cons d inner =>
            constructor
            · simp
            · rintro ⟨same, -, closes⟩
              rw [List.cons_append] at same
              obtain ⟨rfl, -⟩ := List.cons.inj same
              exact absurd closes (not_closes_closer distinct)
        | succ outer => exact onward (by simp [Ne.symm distinct]) (by simp)
      · rw [if_neg closes]
        by_cases opens : c = opener
        · rw [if_pos opens]
          exact onward (by simp [opens, distinct]) (by simp [closes])
        · rw [if_neg opens]
          exact onward (by simp [opens, closes]) (by simp [closes])

/-- In a text without backslashes, an opener encloses exactly the balanced text before the closer
that follows it. -/
theorem enclosed?_eq_some_iff {text inner after : Text} (plain : '\\' ∉ inner) :
    enclosed? opener closer text = some (inner, after) ↔
      text = inner ++ closer :: after ∧ IsBalanced opener closer inner := by
  rw [enclosed?, closing?_eq_some_iff distinct, foldl_escapes_plain plain]
  simp

end Searching

end DynamicPrompt
