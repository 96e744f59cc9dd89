import DynamicPrompt.Text.Basic
import DynamicPrompt.Text.Digit
import DynamicPrompt.Text.Folding

/-!
# Markers of insertion points

A negative command may name an insertion point by a number, and the point itself is marked
in the line by a tag with that number. Insertion points have no meaning here, so the markers
are taken out of the line. They are read in any case.
-/

namespace DynamicPrompt.Source

/-- What follows a pattern that the text begins with up to case folding. -/
def foldedAfter? : Text → Text → Option Text
  | [], text => some text
  | _ :: _, [] => none
  | p :: pattern, c :: text => if sameLetter p c then foldedAfter? pattern text else none

/-- What follows a marker of an insertion point that the text begins with. -/
def afterMarker? (text : Text) : Option Text :=
  match foldedAfter? "<ppp:stn" text with
  | none => none
  | some inside =>
    match inside.head?, inside.dropWhile isBlank with
    | some blank, i :: rest =>
      match rest.head?, rest.dropWhile isDecimalDigit with
      | some digit, '>' :: after =>
        if isBlank blank && sameLetter 'i' i && isDecimalDigit digit then some after else none
      | _, _ => none
    | _, _ => none

/-- What follows a folded pattern is no longer than the text. -/
theorem foldedAfter?_length {pattern text rest : Text}
    (begins : foldedAfter? pattern text = some rest) : rest.length ≤ text.length := by
  induction pattern generalizing text with
  | nil => exact Nat.le_of_eq (congrArg List.length (Option.some.inj begins).symm)
  | cons p pattern inductionHypothesis =>
    cases text with
    | nil => simp [foldedAfter?] at begins
    | cons c text =>
      unfold foldedAfter? at begins
      split at begins
      · exact Nat.le_succ_of_le (inductionHypothesis begins)
      · simp at begins

/-- What follows a marker is shorter than the text. -/
theorem afterMarker?_length {text after : Text} (marks : afterMarker? text = some after) :
    after.length < text.length := by
  unfold afterMarker? at marks
  split at marks
  · simp at marks
  · next inside begins =>
    have first := foldedAfter?_length begins
    split at marks
    · next blank i rest _ blanks =>
      have second := (List.dropWhile_sublist (l := inside) isBlank).length_le
      rw [blanks, List.length_cons] at second
      split at marks
      · next digit beyond _ digits =>
        have third := (List.dropWhile_sublist (l := rest) isDecimalDigit).length_le
        rw [digits, List.length_cons] at third
        simp only [Option.ite_none_right_eq_some, Option.some.injEq] at marks
        obtain ⟨_, rfl⟩ := marks
        omega
      · simp at marks
    · simp at marks

/-- The line without its markers, and the markers as they were written. -/
def withoutMarkers : Text → Text × List Text
  | [] => ([], [])
  | c :: rest =>
    match _marks : afterMarker? (c :: rest) with
    | some after =>
      let (text, markers) := withoutMarkers after
      (text, (c :: rest).take ((c :: rest).length - after.length) :: markers)
    | none =>
      let (text, markers) := withoutMarkers rest
      (c :: text, markers)
termination_by text => text.length
decreasing_by
  · exact afterMarker?_length _marks
  · exact Nat.lt_succ_self _

end DynamicPrompt.Source
