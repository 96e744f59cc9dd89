import DynamicPrompt.Source.Block
import DynamicPrompt.Source.Bracket
import DynamicPrompt.Source.Break
import DynamicPrompt.Source.Label
import DynamicPrompt.Source.Reference
import DynamicPrompt.Source.Variant
import DynamicPrompt.Wildcard.Collection

/-!
# Rewriting source syntax

A line goes through the passes in a fixed order: quoted labels once, then wildcard
references, variables, block commands, square brackets, the break keyword and variants. The
text inside a construct goes through the whole sequence again, without the labels, before
the construct is written, so nesting resolves from the inside out.

The rewriting has no errors. Text that would nest deeper than the limit stays as it is, with
a warning; the levels left decrease with each construct, so the rewriting ends. It has no
result if a position in a filter overflows.
-/

namespace DynamicPrompt.Transpiler

open Source

/-- The passes over a text, in order. -/
def passes (pass : Pass) (text : Text) : Reporting Text := do
  let text ← Reference.rewrite pass text
  let text ← VariableUse.rewrite pass text
  let text ← Block.rewrite pass text
  let text ← Bracketed.rewrite pass text
  Variant.rewrite pass (markBreaks Cursor.start text)

/-- The rewriting of a text inside constructs when so many levels are left. -/
def rewriteWithin (transpiler : Transpiler) : Nat → Text → Reporting Text
  | 0, text => do
    warn (.nestingLeft transpiler.limit text)
    pure text
  | levels + 1, text => passes ⟨transpiler, rewriteWithin transpiler levels⟩ text

/-- One line rewritten. -/
def transpile (transpiler : Transpiler) (line : Text) : Reporting Text :=
  rewriteWithin transpiler transpiler.limit (clauseLabels line)

/-- A line rewritten without the carriage return at its end, which is put back. -/
def transpileLine (transpiler : Transpiler) (line : Text) : Reporting Text :=
  if line.getLast? = some '\r' then
    return (← transpiler.transpile line.dropLast) ++ ['\r']
  else transpiler.transpile line

/-- Every line of a text rewritten by itself. -/
def transpileText (transpiler : Transpiler) (text : Text) : Reporting Text :=
  return Text.join "\n" (← (Text.split '\n' text).mapM transpiler.transpileLine)

/-- Every option of every wildcard rewritten, in order of the names. The names of the
collection are known to the rewriting. -/
def transpileCollection (transpiler : Transpiler) (collection : WildcardCollection) :
    Reporting WildcardCollection := do
  let knowing := transpiler.withKnown (transpiler.known ++ collection.names)
  let entries ← collection.options.entries.mapM fun entry =>
    return (entry.1, ← entry.2.mapM knowing.transpile)
  return ⟨⟨entries⟩⟩

end DynamicPrompt.Transpiler
