import DynamicPrompt.Source.Command
import DynamicPrompt.Source.Marker

/-!
# Case folding and the characters of the syntax

Commands are recognised up to case folding. The folding table moves characters only to small
letters or beyond them, so a bracket is the only character that folds to it, and a text without
opening angle brackets holds no command in any letter case.
-/

namespace DynamicPrompt

/-- A code point that makes a character other than the first one is the code of that
character. -/
theorem toNat_ofNat (code : Nat) (valid : Char.ofNat code ≠ '\x00') :
    (Char.ofNat code).toNat = code := by
  by_cases found : code.isValidChar
  · rw [Char.ofNat, dif_pos found]
    rfl
  · rw [Char.ofNat, dif_neg found] at valid
    exact absurd rfl valid

/-- The table moves characters beyond ASCII to such characters again, apart from two, which it
moves to the small letters s and k. -/
theorem foldRuns_beyond : ∀ run ∈ foldRuns, 0x80 ≤ run.last →
    0x80 ≤ (run.first : Int) + run.distance ∨
      run.first = run.last ∧ ((run.first : Int) + run.distance = 0x73 ∨
        (run.first : Int) + run.distance = 0x6b) := by
  decide +kernel

/-- Beyond ASCII only the long s and the Kelvin sign fold to characters of ASCII. -/
theorem foldChar_beyond {c : Char} (beyond : 0x80 ≤ c.toNat) (visible : foldChar c ≠ '\x00') :
    0x80 ≤ (foldChar c).toNat ∨ foldChar c = 's' ∨ foldChar c = 'k' := by
  rw [foldChar, if_neg (Nat.not_lt.2 beyond), CaseRun.image] at visible ⊢
  cases found : foldRuns.find? (·.holds c.toNat) with
  | none => exact .inl beyond
  | some run =>
    rw [found] at visible
    have code := toNat_ofNat _ visible
    dsimp only
    have holds := List.find?_some found
    simp only [CaseRun.holds, Bool.and_eq_true, decide_eq_true_eq] at holds
    rcases foldRuns_beyond run (List.mem_of_find?_eq_some found) (by omega) with
      far | ⟨alone, letter | letter⟩
    · left
      omega
    · have image : (c.toNat + run.distance).toNat = 0x73 := by omega
      exact .inr (.inl (by rw [image]))
    · have image : (c.toNat + run.distance).toNat = 0x6b := by omega
      exact .inr (.inr (by rw [image]))

/-- Within ASCII only the opening angle bracket folds to it. -/
theorem foldChar_ascii : ∀ code < 0x80, foldChar (Char.ofNat code) = '<' → code = 0x3c := by
  decide +kernel

/-- A character that folds to one of ASCII other than s and k is that one up to the case of ASCII
letters. -/
theorem toLower_of_foldChar {c d : Char} (folded : foldChar c = d)
    (plain : d.toNat < 0x80 ∧ d ≠ '\x00' ∧ d ≠ 's' ∧ d ≠ 'k') : c.toLower = d := by
  by_cases low : c.toNat < 0x80
  · rwa [foldChar, if_pos low] at folded
  · rcases foldChar_beyond (Nat.le_of_not_lt low) (folded ▸ plain.2.1) with far | same | same
    · rw [folded] at far
      omega
    · exact absurd (folded.symm.trans same) plain.2.2.1
    · exact absurd (folded.symm.trans same) plain.2.2.2

/-- Only the opening angle bracket folds to it. -/
theorem foldChar_angle {c : Char} (folded : foldChar c = '<') : c = '<' := by
  by_cases low : c.toNat < 0x80
  · have code : c.toNat = 0x3c := foldChar_ascii c.toNat low (by rw [Char.ofNat_toNat, folded])
    rw [← Char.ofNat_toNat c, code]
  · rcases foldChar_beyond (Nat.le_of_not_lt low) (by rw [folded]; decide) with far | same | same
    · rw [folded] at far
      exact absurd far (by decide)
    · exact absurd (folded.symm.trans same) (by decide)
    · exact absurd (folded.symm.trans same) (by decide)

/-- A character that is the opening angle bracket up to case is that bracket. -/
theorem sameLetter_angle {c : Char} (same : sameLetter '<' c = true) : c = '<' := by
  have folded : foldChar '<' = foldChar c := beq_iff_eq.1 same
  have itself : foldChar '<' = '<' := by decide
  exact foldChar_angle (folded.symm.trans itself)

namespace Source

/-- A text that begins with a pattern begins with it up to case folding. -/
theorem foldedAfter?_of_after? {pattern text rest : Text}
    (begins : Text.after? pattern text = some rest) : foldedAfter? pattern text = some rest := by
  rw [Text.after?_eq_some_iff] at begins
  subst begins
  induction pattern with
  | nil => rfl
  | cons p pattern inductionHypothesis =>
    have same : sameLetter p p = true := beq_self_eq_true _
    rw [List.cons_append, foldedAfter?, if_pos same, inductionHypothesis]

/-- A text that begins with no part of a pattern begins with no pattern. -/
theorem foldedAfter?_append {first second text : Text} (absent : foldedAfter? first text = none) :
    foldedAfter? (first ++ second) text = none := by
  induction first generalizing text with
  | nil => simp [foldedAfter?] at absent
  | cons p first inductionHypothesis =>
    cases text with
    | nil => rfl
    | cons c text =>
      rw [List.cons_append, foldedAfter?]
      rw [foldedAfter?] at absent
      split
      · next same =>
        rw [if_pos same] at absent
        exact inductionHypothesis absent
      · rfl

/-- A pattern occurs nowhere in a text, in no letter case. -/
def Absent (pattern text : Text) : Prop :=
  ∀ suffix, suffix <:+ text → foldedAfter? pattern suffix = none

/-- What a text does not hold, what follows its first character does not hold either. -/
theorem Absent.tail {pattern rest : Text} {c : Char} (absent : Absent pattern (c :: rest)) :
    Absent pattern rest := fun suffix ends => absent suffix (ends.trans (List.suffix_cons c rest))

/-- A text that holds no part of a pattern does not hold the pattern. -/
theorem Absent.extend {first text : Text} (absent : Absent first text) (second : Text) :
    Absent (first ++ second) text :=
  fun suffix ends => foldedAfter?_append (absent suffix ends)

/-- A pattern is absent if it is neither at the start nor later. -/
theorem Absent.cons {pattern rest : Text} {c : Char}
    (first : foldedAfter? pattern (c :: rest) = none) (others : Absent pattern rest) :
    Absent pattern (c :: rest) := by
  intro suffix ends
  rcases List.suffix_cons_iff.1 ends with rfl | later
  · exact first
  · exact others suffix later

/-- Nothing but the empty pattern begins at the end of a text. -/
theorem Absent.nil (p : Char) (pattern : Text) : Absent (p :: pattern) [] := by
  intro suffix ends
  rw [List.suffix_nil.1 ends]
  rfl

/-- A text that begins with a pattern up to case folding begins with it in small letters, if the
pattern has neither of the letters to which characters beyond ASCII fold. -/
theorem prefix_of_foldedAfter? {pattern text rest : Text}
    (plain : ∀ p ∈ pattern, foldChar p = p ∧ p.toNat < 0x80 ∧ p ≠ '\x00' ∧ p ≠ 's' ∧ p ≠ 'k')
    (begins : foldedAfter? pattern text = some rest) : pattern <+: text.map Char.toLower := by
  induction pattern generalizing text with
  | nil => exact List.nil_prefix
  | cons p pattern inductionHypothesis =>
    cases text with
    | nil => simp [foldedAfter?] at begins
    | cons c text =>
      rw [foldedAfter?] at begins
      split at begins
      · next same =>
        obtain ⟨itself, others⟩ := plain p List.mem_cons_self
        have folded : foldChar p = foldChar c := beq_iff_eq.1 same
        have first : c.toLower = p := toLower_of_foldChar (folded.symm.trans itself) others
        rw [List.map_cons, first, List.cons_prefix_cons]
        exact ⟨rfl, inductionHypothesis (fun q member => plain q (.tail p member)) begins⟩
      · exact absurd begins (by simp)

/-- A pattern that stands nowhere in the small letters of a text is absent from the text. -/
theorem Absent.of_lower {pattern text : Text}
    (plain : ∀ p ∈ pattern, foldChar p = p ∧ p.toNat < 0x80 ∧ p ≠ '\x00' ∧ p ≠ 's' ∧ p ≠ 'k')
    (absent : ¬ pattern <:+: text.map Char.toLower) : Absent pattern text := by
  intro suffix ends
  cases begins : foldedAfter? pattern suffix with
  | none => rfl
  | some rest =>
    have within := (prefix_of_foldedAfter? plain begins).isInfix
    exact absurd (within.trans (ends.isInfix.map Char.toLower)) absent

/-- A pattern that begins with an angle bracket does not begin with another character. -/
theorem Absent.plain {pattern rest : Text} {c : Char} (different : c ≠ '<')
    (others : Absent ('<' :: pattern) rest) : Absent ('<' :: pattern) (c :: rest) := by
  refine others.cons ?_
  rw [foldedAfter?, if_neg fun same => different (sameLetter_angle same)]

/-- Characters other than angle brackets add no command to the text after them. -/
theorem Absent.run {pattern run rest : Text} (plain : '<' ∉ run)
    (others : Absent ('<' :: pattern) rest) : Absent ('<' :: pattern) (run ++ rest) := by
  induction run with
  | nil => exact others
  | cons c run inductionHypothesis =>
    rw [List.mem_cons, not_or] at plain
    exact .plain (Ne.symm plain.1) (inductionHypothesis plain.2)

/-- Texts in which every opening angle bracket is followed by a character that begins no
command, as those of directive text are. -/
inductive Quiet : Text → Prop where
  | nil : Quiet []
  | plain {c : Char} {rest : Text} (different : c ≠ '<') (others : Quiet rest) : Quiet (c :: rest)
  | opening {c : Char} {rest : Text} (harmless : sameLetter 'p' c = false)
      (others : Quiet (c :: rest)) : Quiet ('<' :: c :: rest)

namespace Quiet

/-- A text without opening angle brackets is quiet, and so is what follows it. -/
theorem after {front back : Text} (absent : '<' ∉ front) (others : Quiet back) :
    Quiet (front ++ back) := by
  induction front with
  | nil => exact others
  | cons c front inductionHypothesis =>
    rw [List.mem_cons, not_or] at absent
    exact .plain (Ne.symm absent.1) (inductionHypothesis absent.2)

/-- Quiet texts one after the other are quiet. -/
theorem append {first second : Text} (front : Quiet first) (back : Quiet second) :
    Quiet (first ++ second) := by
  induction front with
  | nil => exact back
  | plain different _ inductionHypothesis => exact .plain different inductionHypothesis
  | opening harmless _ inductionHypothesis => exact .opening harmless inductionHypothesis

/-- A text without opening angle brackets is quiet. -/
theorem of_absent {text : Text} (absent : '<' ∉ text) : Quiet text := by
  simpa using after absent .nil

/-- Characters may be changed into others that begin neither a tag nor a command. -/
theorem map {change : Char → Char} {text : Text} (quiet : Quiet text)
    (opener : ∀ c, change c = '<' ↔ c = '<')
    (harmless : ∀ c, sameLetter 'p' c = false → sameLetter 'p' (change c) = false) :
    Quiet (text.map change) := by
  induction quiet with
  | nil => exact .nil
  | plain different _ inductionHypothesis =>
    exact .plain (fun same => different ((opener _).1 same)) inductionHypothesis
  | opening first _ inductionHypothesis =>
    rw [List.map_cons, (opener '<').2 rfl]
    exact .opening (harmless _ first) inductionHypothesis

/-- A tag whose name begins with no letter of a command is quiet. -/
theorem tag {name body rest : Text} (harmless : name.head?.map (sameLetter 'p') = some false)
    (absent : '<' ∉ name) (inside : Quiet body) (others : Quiet rest) :
    Quiet ('<' :: ((name ++ body) ++ '>' :: rest)) := by
  have back : Quiet (body ++ '>' :: rest) := inside.append (.plain (by decide) others)
  cases name with
  | nil => simp at harmless
  | cons c letters =>
    have first : sameLetter 'p' c = false := Option.some.inj harmless
    rw [List.append_assoc, List.cons_append]
    exact .opening first (after absent back)

/-- A quiet text adds no command to the text after it. -/
theorem before {text rest : Text} (quiet : Quiet text) (others : Absent commandStart rest) :
    Absent commandStart (text ++ rest) := by
  induction quiet with
  | nil => exact others
  | plain different _ inductionHypothesis => exact Absent.plain different inductionHypothesis
  | @opening c rest harmless _ inductionHypothesis =>
    apply Absent.cons _ inductionHypothesis
    have shape : commandStart = '<' :: 'p' :: "pp:".toList := rfl
    rw [shape, List.cons_append, foldedAfter?, foldedAfter?, harmless]
    simp

/-- No command begins in a quiet text. -/
theorem absent {text : Text} (quiet : Quiet text) : Absent commandStart text := by
  have alone := quiet.before (Absent.nil '<' _)
  rwa [List.append_nil] at alone

end Quiet

end Source

end DynamicPrompt
