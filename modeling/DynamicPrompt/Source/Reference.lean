import DynamicPrompt.Glob
import DynamicPrompt.Numeral.Word
import DynamicPrompt.Source.Head

/-!
# Wildcard references

Two underscores on either side enclose a reference to a wildcard: an optional head, a name
and an optional label filter between quotation marks. The text between the underscores may
neither begin nor end with a blank. A count with two dollar signs may also stand directly
before the first underscores, unless it belongs to the head of a variant or the reference
has a head of its own.

A filter may be applied and remembered, taken over from another wildcard, or remembered
only. What is remembered is kept in a macro named after the wildcard, for as long as the
reference is drawn. Positions in a filter are written from zero and drawn from one. There is
none after the largest word, and a filter with that position stops the rewriting.

A name with a star is a glob over the known names: one match is referred to directly, and
several become the options of a random draw.
-/

namespace DynamicPrompt.Source

/-- What the filter of a reference asks for. -/
inductive ReferenceFilter where
  | use (labels : Text)
  | inherit (source : Text)
  | define (labels : Text)
deriving DecidableEq, Repr

namespace Reference

/-- The name of the macro that remembers the filter of a wildcard. -/
def filterMacro (reference : Text) : Text :=
  "wcfilter_" ++ reference.map fun c => if c = '/' then '_' else c

/-- The position after a position, if that is a word. -/
def nextPosition? (position : Nat) : Option Nat :=
  if position + 1 < UInt64.size then some (position + 1) else none

/-- An entry of digits that is a word, moved on by one; any other entry as it is. -/
def shiftEntry (entry : Text) : Option Text :=
  let trimmed := Text.trim entry
  match Numeral.word? trimmed with
  | some position =>
    if trimmed.all Char.isDigit then (nextPosition? position).map Text.ofNat else some entry
  | none => some entry

/-- A filter with its positions counted from one, unless one of them overflows. -/
def shiftPositions (filter : Text) : Option Text :=
  return Text.join "," (← (Text.split ',' filter).mapM shiftEntry)

/-- The quotation mark that ends a text, if it is not escaped, and the text before it. -/
def endQuote? (text : Text) : Option (Char × Text) :=
  match text.getLast? with
  | none => none
  | some quote =>
    if (quote = '\x22' ∨ quote = '\x27') ∧ !isEscapedAfter text.dropLast then
      some (quote, text.dropLast)
    else none

/-- The name and the quoted filter at its end, if there is one. -/
def splitFilter (text : Text) : Text × Option Text :=
  match endQuote? text with
  | none => (text, none)
  | some (quote, inner) =>
    match cutTopLevel? [quote] Brackets.tagsAndBraces inner with
    | none => (text, none)
    | some (name, filter) => (name, some filter)

/-- The filter that the text between the quotation marks states. -/
def readFilter (pass : Pass) (raw : Text) : Reporting ReferenceFilter :=
  match raw with
  | '^' :: source => return .inherit (pass.transpiler.inFolder (← pass.nested (Text.trim source)))
  | '#' :: labels => return .define (← checked (shiftPositions (← pass.nested labels)))
  | _ => return .use (← checked (shiftPositions (← pass.nested raw)))

/-- The directive that draws from a wildcard. -/
def drawDirective (argument reference suffix : Text) : Text :=
  "<wcwildcard" ++ argument ++ ":" ++ reference ++ suffix ++ ">"

/-- The reading of the filter remembered for a wildcard. -/
def readMacro (source : Text) : Text := "<wcmacro:" ++ filterMacro source ++ ">"

/-- What follows the name in the directives of a glob's matches. -/
def globSuffix : Option ReferenceFilter → Text
  | some (.use labels) => ":" ++ labels
  | some (.inherit source) => ":" ++ readMacro source
  | some (.define _) | none => []

/-- The directives of a glob. -/
def writeGlob (transpiler : Transpiler) (pattern argument : Text)
    (filter : Option ReferenceFilter) : Reporting Text :=
  let suffix := globSuffix filter
  match (Glob.resolve pattern transpiler.known).map transpiler.inFolder with
  | [] => do
    warn (.noGlobMatches pattern)
    return "<wcwildcard:" ++ transpiler.inFolder pattern ++ "><comment:no glob matches>"
  | [reference] => pure (drawDirective argument reference suffix)
  | references =>
    let options := references.map fun reference => drawDirective [] reference suffix
    return "<random" ++ argument ++ ":" ++ Text.join "|" options ++ ">"

/-- The directives of a reference to one wildcard. -/
def directives (reference argument : Text) (filter : Option ReferenceFilter) : Text :=
  let holder := filterMacro reference
  let during (remembered draw : Text) : Text :=
    "<wcpushmacro[" ++ holder ++ "]:" ++ remembered ++ ">" ++ draw ++ "<wcpopmacro:" ++ holder ++
      ">"
  match filter with
  | none => drawDirective argument reference []
  | some (.define labels) => during labels (drawDirective argument reference [])
  | some (.use labels) => during labels (drawDirective argument reference (":" ++ labels))
  | some (.inherit source) =>
    during (readMacro source) (drawDirective argument reference (":" ++ readMacro source))

/-- The directives of the text between the underscores. -/
def write (pass : Pass) (content : Text) : Reporting Text := do
  let (head, rest) := match Head.split? content with
    | some (head, rest) => (some head, rest)
    | none => (none, content)
  let argument ← Head.argument head none
  let (name, raw) := splitFilter rest
  let name ← pass.nested name
  let filter ← match raw with
    | none => pure none
    | some raw => some <$> readFilter pass raw
  if isGlob name && !name.contains '<' then writeGlob pass.transpiler name argument filter
  else return directives (pass.transpiler.inFolder name) argument filter

/-- The count at the end of the text before a reference, with what stands before it. The
digits are taken as far to the left as they reach. -/
def leadingCount? (before : Text) : Option (Text × Text) :=
  match before.reverse with
  | '$' :: '$' :: reversed =>
    let high := reversed.takeWhile isDecimalDigit
    let rest := reversed.dropWhile isDecimalDigit
    let (count, rest) := match rest with
      | '-' :: others =>
        let low := others.takeWhile isDecimalDigit
        if low.isEmpty then (high, rest)
        else (high ++ '-' :: low, others.dropWhile isDecimalDigit)
      | _ => (high, rest)
    if high.isEmpty || (rest.dropWhile Head.isFlag).head? == some '\x7b' then none
    else some (rest.reverse, count.reverse)
  | _ => none

/-- Whether the text between the underscores can be a reference. -/
def isTrimmed (content : Text) : Bool :=
  match content.head?, content.getLast? with
  | some first, some last => !isBlank first && !isBlank last
  | _, _ => false

/-- The pieces of a line with its references. Underscores that enclose none are passed in
pairs. -/
def pieces (cursor : Cursor) : Text → List (Piece Text)
  | [] => []
  | '_' :: '_' :: rest =>
    if cursor.isFree '_' then
      match _cut : cutTopLevel? "__" Brackets.tagsAndBraces rest with
      | some (content, after) =>
        if isTrimmed content then .found content :: pieces (cursor.past '_') after
        else .plain '_' :: .plain '_' :: pieces (cursor.past '_') rest
      | none => .plain '_' :: .plain '_' :: pieces (cursor.past '_') rest
    else .plain '_' :: pieces (cursor.after '_') ('_' :: rest)
  | c :: rest => .plain c :: pieces (cursor.after c) rest
termination_by text => text.length
decreasing_by
  · exact Nat.lt_succ_of_lt (Nat.lt_succ_of_lt (cutTopLevelFrom?_length _cut))
  · exact Nat.lt_succ_of_lt (Nat.lt_succ_self _)
  · exact Nat.lt_succ_of_lt (Nat.lt_succ_self _)
  · exact Nat.lt_succ_self _
  · exact Nat.lt_succ_self _

/-- The text of some pieces. The characters since the last reference are held back, the
latest first, because a count at their end belongs to the next reference. -/
def writeAll (pass : Pass) (held : Text) : List (Piece Text) → Reporting Text
  | [] => pure held.reverse
  | .plain c :: rest => writeAll pass (c :: held) rest
  | .notice warning :: rest => do
    warn warning
    writeAll pass held rest
  | .found content :: rest => do
    let before := held.reverse
    let counted := if (Head.split? content).isSome then none else leadingCount? before
    let (kept, content) := match counted with
      | some (kept, count) => (kept, count ++ "$$" ++ content)
      | none => (before, content)
    let first ← write pass content
    let others ← writeAll pass [] rest
    return kept ++ first ++ others

/-- The line with its references rewritten. -/
def rewrite (pass : Pass) (line : Text) : Reporting Text :=
  writeAll pass [] (pieces Cursor.start line)

end Reference

end DynamicPrompt.Source
