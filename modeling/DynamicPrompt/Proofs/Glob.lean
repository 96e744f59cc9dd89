import DynamicPrompt.Glob
import DynamicPrompt.Proofs.Text.Order

/-!
# What globs match

Matching is computed backwards along the pattern, one row of truth values for each part, but what a
glob matches is said forwards: a pattern and a name match if the name can be cut into one piece for
each part of the pattern. The two agree row by row. A row tells for every suffix of the name whether
it has a property, and one more part in front turns the row of a property into the row of the
property that a suffix has if a piece for the part can be cut off and the rest has the former.

The relation is stated for ASCII, where case folding is the case of letters, and for names without
line feeds, over which two stars do not run.
-/

namespace DynamicPrompt.Glob

/-- A pattern matches a name from end to end. Two stars side by side stand for any run, a star by
itself for a run without a slash, and every other character for the same letter in either case. The
first two stars of a longer row belong together. -/
inductive Matches : Text → Text → Prop where
  | nil : Matches [] []
  | across (run : Text) {pattern name : Text} (others : Matches pattern name) :
      Matches ('*' :: '*' :: pattern) (run ++ name)
  | within {run pattern name : Text} (alone : pattern.head? ≠ some '*') (slashless : '/' ∉ run)
      (others : Matches pattern name) : Matches ('*' :: pattern) (run ++ name)
  | letter {c d : Char} {pattern name : Text} (plain : c ≠ '*') (same : c.toLower = d.toLower)
      (others : Matches pattern name) : Matches (c :: pattern) (d :: name)

section Rows

/-- The row tells for each suffix of the name, from the longest to the empty one, whether it has the
property. -/
def Tells (row : List Bool) (name : Text) (holds : Text → Prop) : Prop :=
  List.Forall₂ (fun told suffix => told = true ↔ holds suffix) row name.tails

variable {row : List Bool} {name : Text} {holds : Text → Prop}

/-- The row of a longer name begins with what it tells of the whole name. -/
theorem tells_cons_iff {c : Char} :
    Tells row (c :: name) holds ↔
      ∃ here later, row = here :: later ∧ (here = true ↔ holds (c :: name)) ∧
        Tells later name holds := by
  unfold Tells
  rw [List.tails, List.forall₂_cons_right_iff]
  constructor
  · rintro ⟨here, later, first, others, rfl⟩
    exact ⟨here, later, rfl, first, others⟩
  · rintro ⟨here, later, rfl, first, others⟩
    exact ⟨here, later, first, others, rfl⟩

/-- A row begins with what it tells of the whole name. -/
theorem Tells.headD (tells : Tells row name holds) : row.headD false = true ↔ holds name := by
  unfold Tells at tells
  cases name with
  | nil =>
    obtain ⟨here, later, first, -, rfl⟩ := List.forall₂_cons_right_iff.1 tells
    exact first
  | cons c name =>
    obtain ⟨here, later, first, -, rfl⟩ := List.forall₂_cons_right_iff.1 tells
    exact first

/-- The row of the empty name tells of nothing else. -/
theorem tells_nil_iff : Tells row [] holds ↔ ∃ here, row = [here] ∧ (here = true ↔ holds []) := by
  unfold Tells
  rw [List.tails, List.forall₂_cons_right_iff]
  constructor
  · rintro ⟨here, later, first, others, rfl⟩
    exact ⟨here, by rw [List.forall₂_nil_right_iff.1 others], first⟩
  · rintro ⟨here, rfl, first⟩
    exact ⟨here, [], first, List.Forall₂.nil, rfl⟩

/-- Properties that agree on the suffixes of the name have the same row. -/
theorem Tells.congr {other : Text → Prop} (tells : Tells row name holds)
    (agree : ∀ suffix, suffix <:+ name → (holds suffix ↔ other suffix)) : Tells row name other := by
  induction name generalizing row with
  | nil =>
    obtain ⟨here, rfl, first⟩ := tells_nil_iff.1 tells
    exact tells_nil_iff.2 ⟨here, rfl, first.trans (agree [] (List.suffix_refl []))⟩
  | cons c name inductionHypothesis =>
    obtain ⟨here, later, rfl, first, others⟩ := tells_cons_iff.1 tells
    refine tells_cons_iff.2 ⟨here, later, rfl, first.trans (agree _ (List.suffix_refl _)), ?_⟩
    exact inductionHypothesis others fun suffix ends =>
      agree suffix (ends.trans (List.suffix_cons c name))

/-- The suffixes that a letter followed by a suffix with the property makes up. -/
theorem tells_letter (letter : Char) (tells : Tells row name holds) :
    Tells (reachThrough (.letter letter) name row) name fun suffix =>
      ∃ c rest, suffix = c :: rest ∧ sameLetter letter c = true ∧ holds rest := by
  induction name generalizing row with
  | nil =>
    obtain ⟨here, rfl, -⟩ := tells_nil_iff.1 tells
    exact tells_nil_iff.2 ⟨false, rfl, by simp⟩
  | cons c name inductionHypothesis =>
    obtain ⟨here, later, rfl, -, others⟩ := tells_cons_iff.1 tells
    refine tells_cons_iff.2 ⟨_, _, rfl, ?_, inductionHypothesis others⟩
    rw [Bool.and_eq_true, others.headD]
    constructor
    · rintro ⟨same, rest⟩
      exact ⟨c, name, rfl, same, rest⟩
    · rintro ⟨d, rest, parts, same, remains⟩
      obtain ⟨rfl, rfl⟩ := List.cons.inj parts
      exact ⟨same, remains⟩

/-- The suffixes that a run of passing characters followed by a suffix with the property makes
up. -/
theorem tells_star {part : GlobPart} (star : ∀ c, part ≠ .letter c) (tells : Tells row name holds) :
    Tells (reachThrough part name row) name fun suffix =>
      ∃ run rest, suffix = run ++ rest ∧ (∀ c ∈ run, runsOver part c = true) ∧ holds rest := by
  induction name generalizing row with
  | nil =>
    obtain ⟨here, rfl, first⟩ := tells_nil_iff.1 tells
    have alone : reachThrough part [] [here] = [here] := by
      cases part with
      | letter c => exact absurd rfl (star c)
      | within => rfl
      | across => rfl
    rw [alone]
    refine tells_nil_iff.2 ⟨here, rfl, first.trans ?_⟩
    constructor
    · intro rest
      exact ⟨[], [], rfl, by simp, rest⟩
    · rintro ⟨run, rest, parts, -, remains⟩
      rwa [(List.append_eq_nil_iff.1 parts.symm).2] at remains
  | cons c name inductionHypothesis =>
    obtain ⟨here, later, rfl, first, others⟩ := tells_cons_iff.1 tells
    have beyond := inductionHypothesis others
    have step : reachThrough part (c :: name) (here :: later) =
        (here || (runsOver part c && (reachThrough part name later).headD false)) ::
          reachThrough part name later := by
      cases part with
      | letter c => exact absurd rfl (star c)
      | within => rfl
      | across => rfl
    rw [step]
    refine tells_cons_iff.2 ⟨_, _, rfl, ?_, beyond⟩
    rw [Bool.or_eq_true, Bool.and_eq_true, first, beyond.headD]
    constructor
    · rintro (ends | ⟨runs, run, rest, rfl, passes, remains⟩)
      · exact ⟨[], c :: name, rfl, by simp, ends⟩
      · exact ⟨c :: run, rest, rfl, List.forall_mem_cons.2 ⟨runs, passes⟩, remains⟩
    · rintro ⟨run, rest, parts, passes, remains⟩
      cases run with
      | nil =>
        rw [List.nil_append] at parts
        exact .inl (parts ▸ remains)
      | cons d run =>
        obtain ⟨rfl, rfl⟩ := List.cons.inj parts
        obtain ⟨runs, others⟩ := List.forall_mem_cons.1 passes
        exact .inr ⟨runs, run, rest, rfl, others, remains⟩

end Rows

section Patterns

variable {pattern name : Text}

/-- Two stars match whatever ends with what the others match. -/
theorem matches_across_iff :
    Matches ('*' :: '*' :: pattern) name ↔
      ∃ run rest, name = run ++ rest ∧ Matches pattern rest := by
  constructor
  · rintro (_ | ⟨run, others⟩ | ⟨alone, -, -⟩ | ⟨plain, -, -⟩)
    · exact ⟨run, _, rfl, others⟩
    · exact absurd rfl alone
    · exact absurd rfl plain
  · rintro ⟨run, rest, rfl, others⟩
    exact .across run others

/-- A star by itself matches a run without a slash. -/
theorem matches_within_iff (alone : pattern.head? ≠ some '*') :
    Matches ('*' :: pattern) name ↔
      ∃ run rest, name = run ++ rest ∧ '/' ∉ run ∧ Matches pattern rest := by
  constructor
  · rintro (_ | ⟨run, others⟩ | ⟨-, slashless, others⟩ | ⟨plain, -, -⟩)
    · exact absurd rfl alone
    · exact ⟨_, _, rfl, slashless, others⟩
    · exact absurd rfl plain
  · rintro ⟨run, rest, rfl, slashless, others⟩
    exact .within alone slashless others

/-- A letter matches itself in either case. -/
theorem matches_letter_iff {c : Char} (plain : c ≠ '*') :
    Matches (c :: pattern) name ↔
      ∃ d rest, name = d :: rest ∧ c.toLower = d.toLower ∧ Matches pattern rest := by
  constructor
  · rintro (_ | ⟨run, others⟩ | ⟨alone, slashless, others⟩ | ⟨-, same, others⟩)
    · exact absurd rfl plain
    · exact absurd rfl plain
    · exact ⟨_, _, rfl, same, others⟩
  · rintro ⟨d, rest, rfl, same, others⟩
    exact .letter plain same others

/-- Where no part is left, only the empty suffix is matched. -/
theorem tells_reach_nil (name : Text) : Tells (reach [] name) name (Matches []) := by
  have nothing : ∀ suffix : Text, Matches [] suffix ↔ suffix = [] := by
    intro suffix
    constructor
    · rintro ⟨⟩
      rfl
    · rintro rfl
      exact .nil
  unfold reach
  induction name with
  | nil => exact tells_nil_iff.2 ⟨true, rfl, by simp [nothing]⟩
  | cons c name inductionHypothesis =>
    exact tells_cons_iff.2 ⟨false, _, rfl, by simp [nothing], inductionHypothesis⟩

/-- The reach of a pattern tells which suffixes of a name it matches. The induction follows the
parts of the pattern, the row of each part being that of the parts behind it gone through once. -/
theorem tells_reach (patterned : ∀ c ∈ pattern, c.toNat < 0x80)
    (named : ∀ c ∈ name, c.toNat < 0x80 ∧ c ≠ '\n') :
    Tells (reach (parts pattern) name) name (Matches pattern) := by
  fun_induction parts pattern with
  | case1 => exact tells_reach_nil name
  | case2 rest inductionHypothesis =>
    have others := inductionHypothesis fun c member => patterned c (.tail _ (.tail _ member))
    apply (tells_star (fun c => GlobPart.noConfusion) others).congr
    intro suffix ends
    rw [matches_across_iff]
    constructor
    · rintro ⟨run, rest, rfl, -, remains⟩
      exact ⟨run, rest, rfl, remains⟩
    · rintro ⟨run, rest, rfl, remains⟩
      refine ⟨run, rest, rfl, fun c member => ?_, remains⟩
      have inside : c ∈ name := ends.subset (List.mem_append_left rest member)
      exact bne_iff_ne.2 (named c inside).2
  | case3 rest single inductionHypothesis =>
    have others := inductionHypothesis fun c member => patterned c (.tail _ member)
    have alone : rest.head? ≠ some '*' := by
      intro head
      obtain ⟨after, rfl⟩ := List.head?_eq_some_iff.1 head
      exact single after rfl
    apply (tells_star (fun c => GlobPart.noConfusion) others).congr
    intro suffix ends
    have slashless : ∀ run : Text,
        (∀ c ∈ run, runsOver .within c = true) ↔ '/' ∉ run := by
      intro run
      simp only [runsOver, bne_iff_ne]
      exact ⟨fun passes member => passes '/' member rfl, fun absent c member same =>
        absent (same ▸ member)⟩
    simp only [matches_within_iff alone, slashless]
  | case4 c rest noPair noStar inductionHypothesis =>
    have others := inductionHypothesis fun d member => patterned d (.tail _ member)
    have plain : c ≠ '*' := noStar
    apply (tells_letter c others).congr
    intro suffix ends
    rw [matches_letter_iff plain]
    have letters : ∀ d ∈ suffix, sameLetter c d = true ↔ c.toLower = d.toLower := by
      intro d member
      rw [sameLetter, beq_iff_eq, foldChar, foldChar, if_pos (patterned c List.mem_cons_self),
        if_pos (named d (ends.subset member)).1]
    constructor
    · rintro ⟨d, rest, rfl, same, remains⟩
      exact ⟨d, rest, rfl, (letters d List.mem_cons_self).1 same, remains⟩
    · rintro ⟨d, rest, rfl, same, remains⟩
      exact ⟨d, rest, rfl, (letters d List.mem_cons_self).2 same, remains⟩

/-- A pattern is found to match exactly the names that it matches. -/
theorem admits_iff (patterned : ∀ c ∈ pattern, c.toNat < 0x80)
    (named : ∀ c ∈ name, c.toNat < 0x80 ∧ c ≠ '\n') :
    admits pattern name = true ↔ Matches pattern name :=
  (tells_reach patterned named).headD

/-- A glob stands for exactly those of the names that it matches, in strictly ascending order and
hence each of them once. -/
theorem resolve_matches {names : List Text} (patterned : ∀ c ∈ pattern, c.toNat < 0x80)
    (named : ∀ name ∈ names, ∀ c ∈ name, c.toNat < 0x80 ∧ c ≠ '\n') :
    (resolve pattern names).Pairwise (· < ·) ∧
      ∀ name, name ∈ resolve pattern names ↔ name ∈ names ∧ Matches pattern name := by
  constructor
  · exact Text.pairwise_ordered _
  · intro name
    rw [resolve, Text.mem_ordered, List.mem_filter]
    exact and_congr_right fun member => admits_iff patterned (named name member)

/-- Names of garments, one of them twice. -/
def garments : List Text :=
  ["cap/straw/hat(s)", "cap/hats", "CAP/sun(S)", "cap/straw/hat(s)", "my/cap/(s)"]

/-- Three stars run over slashes, and parentheses stand for themselves. -/
theorem resolve_matches_garments :
    resolve "Cap/***(s)" garments = ["CAP/sun(S)", "cap/straw/hat(s)"] ∧
      Matches "Cap/***(s)" "cap/straw/hat(s)" ∧ ¬ Matches "Cap/***(s)" "cap/hats" := by
  have found : resolve "Cap/***(s)" garments = ["CAP/sun(S)", "cap/straw/hat(s)"] := by decide
  obtain ⟨-, stands⟩ := @resolve_matches "Cap/***(s)" garments (by decide) (by decide)
  rw [found] at stands
  refine ⟨found, ((stands "cap/straw/hat(s)").1 (by decide)).2, ?_⟩
  intro matched
  exact absurd ((stands "cap/hats").2 ⟨by decide, matched⟩) (by decide)

end Patterns

end DynamicPrompt.Glob
