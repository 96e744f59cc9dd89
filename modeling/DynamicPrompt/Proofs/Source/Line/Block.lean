import DynamicPrompt.Proofs.Source.Line.Basic
import DynamicPrompt.Proofs.Source.Line.Condition
import DynamicPrompt.Source.Block

/-!
# Blocks of a line

The blocks of a line are found between their tags, with branch markers inside them; their conditions
are compiled into expressions, where only the operator is written anew, in small letters. Everything
else is left as it stands in the line, so the texts of a block are lines and its directives are one.
-/

namespace DynamicPrompt.Source

namespace Condition

end Condition

namespace Block

section Reading

variable {arguments rest after : Text} {block : Block} (argued : IsLine arguments)
  (line : IsLine rest)

include line

end Reading

variable {pass : Pass} (keeps : pass.KeepsLines)

include keeps

end Block

end DynamicPrompt.Source
