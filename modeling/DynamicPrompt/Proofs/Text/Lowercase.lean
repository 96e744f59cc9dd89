import DynamicPrompt.Proofs.Text.Cut
import DynamicPrompt.Proofs.Text.Folding
import DynamicPrompt.Text.Lowercase

/-!
# Words in any letter case

A word is recognised in any case of its letters. A text with the letters of a word of small ASCII
letters is made of ASCII letters, so it has no blanks, and its lower case is the word.

No other character has one of ASCII for its small letter than those that have a letter there, so lower
case brings in no character of the syntax.
-/

namespace DynamicPrompt

/-- Within ASCII only capitals have another small letter. -/
theorem toLower_of_not_isUpper {c : Char} (noCapital : ¬ c.isUpper = true) : c.toLower = c := by
  unfold Char.isUpper at noCapital
  rw [decide_eq_true_eq] at noCapital
  unfold Char.toLower
  rw [dif_neg noCapital]

/-- Only letters have a small letter of ASCII. -/
theorem isAlpha_of_toLower {c : Char} (small : c.toLower.isLower = true) : c.isAlpha = true := by
  unfold Char.isAlpha
  rw [Bool.or_eq_true]
  by_cases capital : c.isUpper = true
  · exact .inl capital
  · rw [toLower_of_not_isUpper capital] at small
    exact .inr small

/-- No small letter is a capital. -/
theorem not_isUpper_of_isLower {c : Char} (small : c.isLower = true) : ¬ c.isUpper = true := by
  intro capital
  unfold Char.isLower at small
  unfold Char.isUpper at capital
  simp only [Bool.and_eq_true, decide_eq_true_eq, ge_iff_le] at small capital
  exact absurd (UInt32.le_trans small.1 capital.2) (by decide)

/-- A small letter is its own. -/
theorem toLower_of_isLower {c : Char} (small : c.isLower = true) : c.toLower = c :=
  toLower_of_not_isUpper (not_isUpper_of_isLower small)

/-- A letter has a code of ASCII. -/
theorem toNat_of_isAlpha {c : Char} (letter : c.isAlpha = true) : c.toNat < 0x80 := by
  unfold Char.isAlpha Char.isUpper Char.isLower at letter
  simp only [Bool.or_eq_true, Bool.and_eq_true, decide_eq_true_eq, ge_iff_le] at letter
  have codes : 65 ≤ c.toNat ∧ c.toNat ≤ 90 ∨ 97 ≤ c.toNat ∧ c.toNat ≤ 122 := letter
  omega

/-- The characters of ASCII have small letters of ASCII. -/
theorem lowerChar_of_ascii {c : Char} (code : c.toNat < 0x80) :
    lowerChar c = c.toLower ∧ c ≠ 'Σ' ∧ c ≠ 'İ' := by
  refine ⟨if_pos code, ?_, ?_⟩
  · rintro rfl
    exact absurd code (by decide)
  · rintro rfl
    exact absurd code (by decide)

/-- Within ASCII every character is its own small letter or has a letter for it. -/
theorem toLower_ascii : ∀ code < 0x80, (Char.ofNat code).toLower = Char.ofNat code ∨
    (Char.ofNat code).toLower.isAlpha = true := by
  decide +kernel

/-- The table of small letters moves characters beyond ASCII to such characters again, apart from one,
which it moves to the letter k. -/
theorem lowerRuns_beyond : ∀ run ∈ lowerRuns, 0x80 ≤ run.last →
    0x80 ≤ (run.first : Int) + run.distance ∨
      run.first = run.last ∧ (run.first : Int) + run.distance = 0x6b := by
  decide +kernel

/-- A character of ASCII that is no letter is the small letter of nothing else. -/
theorem eq_of_lowerChar {c mark : Char} (ascii : mark.toNat < 0x80) (visible : mark ≠ '\x00')
    (wordless : mark.isAlpha = false) (same : lowerChar c = mark) : c = mark := by
  by_cases low : c.toNat < 0x80
  · rw [lowerChar, if_pos low] at same
    rcases toLower_ascii c.toNat low with itself | letter
    · rw [Char.ofNat_toNat] at itself
      exact itself.symm.trans same
    · rw [Char.ofNat_toNat, same, wordless] at letter
      exact absurd letter Bool.false_ne_true
  · rw [lowerChar, if_neg low, CaseRun.image] at same
    split at same
    · next run found =>
      have holds := List.find?_some found
      simp only [CaseRun.holds, Bool.and_eq_true, decide_eq_true_eq] at holds
      have code := toNat_ofNat _ (same ▸ visible)
      rw [same] at code
      rcases lowerRuns_beyond run (List.mem_of_find?_eq_some found) (by omega) with far | ⟨alone, letter⟩
      · omega
      · have image : mark.toNat = 'k'.toNat := by
          have point : 'k'.toNat = 0x6b := rfl
          omega
        rw [Char.toNat_inj.1 image] at wordless
        exact absurd wordless (by decide)
    · exact same

namespace Text

/-- Lower case brings in no character of ASCII other than letters. -/
theorem mem_of_mem_lower {text : Text} {mark : Char} (ascii : mark.toNat < 0x80)
    (visible : mark ≠ '\x00') (wordless : mark.isAlpha = false) (member : mark ∈ lower text) :
    mark ∈ text := by
  have others : mark ≠ 'ς' ∧ mark ≠ 'σ' ∧ mark ≠ 'i' ∧ mark ≠ '\u0307' := by
    refine ⟨?_, ?_, ?_, ?_⟩
    · rintro rfl
      exact absurd ascii (by decide)
    · rintro rfl
      exact absurd ascii (by decide)
    · rintro rfl
      exact absurd wordless (by decide)
    · rintro rfl
      exact absurd ascii (by decide)
  have after (before text : Text) (member : mark ∈ lowerAfter before text) : mark ∈ text := by
    induction text generalizing before with
    | nil => exact member
    | cons c rest inductionHypothesis =>
      rw [lowerAfter] at member
      rcases List.mem_append.1 member with first | later
      · refine List.mem_cons.2 (.inl ?_)
        split at first
        · split at first
          · exact absurd (List.mem_singleton.1 first) others.1
          · exact absurd (List.mem_singleton.1 first) others.2.1
        · split at first
          · simp [others] at first
          · exact (eq_of_lowerChar ascii visible wordless (List.mem_singleton.1 first).symm).symm
      · exact List.mem_cons_of_mem c (inductionHypothesis _ later)
  exact after [] text member

/-- The lower case of a text of ASCII is found character by character. -/
theorem lowerAfter_of_ascii {text : Text} (ascii : ∀ c ∈ text, c.toNat < 0x80) (before : Text) :
    lowerAfter before text = text.map Char.toLower := by
  induction text generalizing before with
  | nil => rfl
  | cons c rest inductionHypothesis =>
    obtain ⟨small, noSigma, undotted⟩ := lowerChar_of_ascii (ascii c List.mem_cons_self)
    have later := inductionHypothesis (fun d member => ascii d (.tail c member)) (c :: before)
    rw [lowerAfter, if_neg noSigma, if_neg undotted, later, small]
    rfl

/-- A text of ASCII without capitals is its own lower case. -/
theorem lower_of_small {text : Text}
    (small : ∀ c ∈ text, c.toNat < 0x80 ∧ ¬ c.isUpper = true) : lower text = text := by
  have itself : text.map Char.toLower = text := by
    refine (List.map_congr_left fun c member => ?_).trans (List.map_id text)
    exact toLower_of_not_isUpper (small c member).2
  rw [lower, lowerAfter_of_ascii fun c member => (small c member).1, itself]

variable {text word : Text}

/-- A text with the letters of a word is made of letters. -/
theorem isAlpha_of_sameLetters (small : word.all Char.isLower = true)
    (same : sameLetters text word = true) : ∀ c ∈ text, c.isAlpha = true := by
  intro c member
  have letters : text.map Char.toLower = word.map Char.toLower := beq_iff_eq.1 same
  have image : c.toLower ∈ word.map Char.toLower := letters ▸ List.mem_map_of_mem member
  obtain ⟨d, within, equal⟩ := List.mem_map.1 image
  have letter : d.isLower = true := List.all_eq_true.1 small d within
  apply isAlpha_of_toLower
  rw [← equal, toLower_of_isLower letter]
  exact letter

/-- A text with the letters of a word has no blanks. -/
theorem isUnspaced_of_sameLetters (small : word.all Char.isLower = true) (filled : word ≠ [])
    (same : sameLetters text word = true) : IsUnspaced text where
  filled := by
    rintro rfl
    have letters : word.map Char.toLower = [] := (beq_iff_eq.1 same).symm
    exact filled (List.map_eq_nil_iff.1 letters)
  unspaced := by
    intro c member
    apply isBlank_of_isAlphanum
    rw [Char.isAlphanum, isAlpha_of_sameLetters small same c member, Bool.true_or]

/-- The lower case of a text with the letters of a word is the word. -/
theorem lower_of_sameLetters (small : word.all Char.isLower = true)
    (same : sameLetters text word = true) : lower text = word := by
  have itself : word.map Char.toLower = word := by
    refine (List.map_congr_left fun c member => ?_).trans (List.map_id word)
    exact toLower_of_isLower (List.all_eq_true.1 small c member)
  calc lower text = text.map Char.toLower :=
        lowerAfter_of_ascii (fun c member => toNat_of_isAlpha
          (isAlpha_of_sameLetters small same c member)) []
    _ = word.map Char.toLower := beq_iff_eq.1 same
    _ = word := itself

end Text

end DynamicPrompt
