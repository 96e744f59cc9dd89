import DynamicPrompt.Delimiter
import DynamicPrompt.Report

/-!
# Source syntax

Source syntax is the compact notation that people write; it is rewritten into directive
text by a sequence of passes over one line. Each pass recognises one kind of construct and
leaves the rest of the line as it is. A pass first cuts the line into pieces, which needs
nothing but the text, and then writes the pieces out, which may raise warnings and rewrite
the text inside a construct one level deeper.

Most passes skip the text inside tags and every escaped character. The cursor of a pass
carries what it has to know about the characters already passed: the tag depth, whether the
next character is escaped, and the last character.
-/

namespace DynamicPrompt

/-- How source syntax is rewritten: the folder put before every wildcard reference, the
names that globs are resolved against, ascending, and how deep constructs may nest. -/
structure Transpiler where
  folder : Option Text
  known : List Text
  limit : Nat

namespace Transpiler

/-- No folder, no known names, and room for sixty-four levels. -/
def standard : Transpiler := ⟨none, [], 64⟩

/-- The transpiler with another folder; slashes at its ends do not count, and an empty
folder is none. -/
def withFolder (transpiler : Transpiler) (folder : Text) : Transpiler :=
  let folder := Text.trimOf '/' folder
  { transpiler with folder := if folder.isEmpty then none else some folder }

/-- The transpiler with other known names. -/
def withKnown (transpiler : Transpiler) (names : List Text) : Transpiler :=
  { transpiler with known := Text.ordered names }

/-- A wildcard reference with the folder before it. -/
def inFolder (transpiler : Transpiler) (reference : Text) : Text :=
  match transpiler.folder with
  | some folder => folder ++ "/" ++ reference
  | none => reference

end Transpiler

namespace Source

/-- What writing a construct may use: the transpiler, and the rewriting of the text inside
the construct. -/
structure Pass where
  transpiler : Transpiler
  nested : Text → Reporting Text

/-- The directive that stands for an empty text. -/
def emptyMark : Text := "<comment:empty>"

/-- A text, or the mark of the empty text. -/
def orEmpty (text : Text) : Text := if text.isEmpty then emptyMark else text

/-- The text inside a construct, rewritten and never empty. -/
def Pass.filled (pass : Pass) (text : Text) : Reporting Text :=
  return orEmpty (← pass.nested text)

/-- A piece of a line: a character left as it is, a warning raised while reading, or a
construct. -/
inductive Piece (α : Type) where
  | plain (c : Char)
  | notice (warning : Warning)
  | found (construct : α)
deriving DecidableEq

/-- The text of some pieces, in order. -/
def writePieces {α : Type} (write : α → Reporting Text) : List (Piece α) → Reporting Text
  | [] => pure []
  | .plain c :: pieces => return c :: (← writePieces write pieces)
  | .notice warning :: pieces => do
    warn warning
    writePieces write pieces
  | .found construct :: pieces => do
    let first ← write construct
    let others ← writePieces write pieces
    return first ++ others

/-- What a pass knows about the characters it has passed. -/
structure Cursor where
  depth : Nat
  escaped : Bool
  last : Option Char
deriving DecidableEq, Repr

namespace Cursor

/-- The start of a line. -/
def start : Cursor := ⟨0, false, none⟩

/-- The cursor after one more character. -/
def after (cursor : Cursor) (c : Char) : Cursor :=
  ⟨tagDepthAfter cursor.depth c, escapes cursor.escaped c, some c⟩

/-- The cursor after a whole construct that ends with the given unescaped character. -/
def past (cursor : Cursor) (last : Char) : Cursor := ⟨cursor.depth, false, some last⟩

/-- Whether a construct may begin with the next character: it is not escaped and stands
outside every tag. -/
def isFree (cursor : Cursor) (c : Char) : Bool :=
  standsOutside cursor.depth c && !cursor.escaped

end Cursor

/-- The pieces of a line in which every free opener with a balancing closer encloses a
construct. An opener after the barred character is none. -/
def enclosures (opener closer : Char) (barred : Option Char) (cursor : Cursor) :
    Text → List (Piece Text)
  | [] => []
  | c :: rest =>
    if c = opener ∧ cursor.isFree c ∧ (barred = none ∨ cursor.last ≠ barred) then
      match _found : enclosed? opener closer rest with
      | some (inner, after) =>
        .found inner :: enclosures opener closer barred (cursor.past closer) after
      | none => .plain c :: enclosures opener closer barred (cursor.after c) rest
    else .plain c :: enclosures opener closer barred (cursor.after c) rest
termination_by text => text.length
decreasing_by
  · exact Nat.lt_succ_of_lt (enclosed?_length _found)
  all_goals exact Nat.lt_succ_self _

end Source

end DynamicPrompt
