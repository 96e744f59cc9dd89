import DynamicPrompt.Proofs.Choice.Position
import DynamicPrompt.Proofs.Text.Line
import DynamicPrompt.Source.Reference
import DynamicPrompt.Source.Variable

/-!
# Constructs of a line

What a pass reads from a line, it puts together from characters of the line, so every text of a
construct is a line, and so is what is written for it: references and variables here, with the heads
that references share with variants. Names come from the folder and the known names as well, which
have to be lines themselves, and the texts inside constructs from the rewriting of inner texts, which
is assumed to keep lines.
-/

namespace DynamicPrompt

variable {α : Type}

/-- The folder and the known names are lines. -/
structure Transpiler.NamesLines (transpiler : Transpiler) : Prop where
  folder : ∀ folder ∈ transpiler.folder, IsLine folder
  known : ∀ name ∈ transpiler.known, IsLine name

/-- A reference with the folder before it is a line. -/
theorem Transpiler.NamesLines.inFolder {transpiler : Transpiler} (names : transpiler.NamesLines)
    {reference : Text} (line : IsLine reference) : IsLine (transpiler.inFolder reference) := by
  unfold Transpiler.inFolder
  split
  · next folder found =>
    simp +decide [names.folder folder found, line]
  · exact line

namespace Source

namespace Head

end Head

/-- A pass whose names are lines and whose rewriting of inner texts keeps lines. -/
structure Pass.KeepsLines (pass : Pass) : Prop where
  names : pass.transpiler.NamesLines
  nested : ∀ text, IsLine text → Reports IsLine (pass.nested text)

/-- The mark of the empty text is a line. -/
theorem Pass.KeepsLines.filled {pass : Pass} (keeps : pass.KeepsLines) {text : Text}
    (line : IsLine text) : Reports IsLine (pass.filled text) := by
  refine (keeps.nested text line).bind fun result written => .pure ?_
  unfold orEmpty
  split
  · decide
  · exact written

namespace Reference

section Writing

variable {pass : Pass} (keeps : pass.KeepsLines)

include keeps

end Writing

end Reference

namespace VariableUse

variable {pass : Pass} (keeps : pass.KeepsLines)

include keeps

end VariableUse

end Source

end DynamicPrompt
