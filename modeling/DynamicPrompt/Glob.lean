import DynamicPrompt.Text.Basic
import DynamicPrompt.Text.Folding

/-!
# Globs

A glob stands for the wildcard names that it matches from end to end. Two stars side by
side, the leftmost pair first, match any run of characters without a line feed; a star by
itself matches any run without a slash; every other character matches the same letter in
either case.

Matching is computed backwards along the pattern. The reach of a list of parts in a name
tells, for each suffix of the name from the longest to the empty one, whether the parts
match that suffix; one more part in front is one pass over the name. A pattern with many
stars therefore costs no more than its length times the length of the name.
-/

namespace DynamicPrompt

/-- One part of a glob. -/
inductive GlobPart where
  | letter (c : Char)
  | within
  | across
deriving DecidableEq, Repr

/-- Whether a reference is a glob at all. -/
def isGlob (reference : Text) : Bool := reference.contains '*'

namespace Glob

/-- The parts of a pattern. Pairs of stars are taken from the left. -/
def parts : Text → List GlobPart
  | [] => []
  | '*' :: '*' :: rest => .across :: parts rest
  | '*' :: rest => .within :: parts rest
  | c :: rest => .letter c :: parts rest

/-- Whether a star of the given kind may run over a character. -/
def runsOver (part : GlobPart) (c : Char) : Bool :=
  match part with
  | .letter _ => false
  | .within => c != '/'
  | .across => c != '\n'

/-- The reach of a part followed by parts whose reach in the name is given. -/
def reachThrough (part : GlobPart) : Text → List Bool → List Bool
  | c :: name, here :: later =>
    let beyond := reachThrough part name later
    let matched := match part with
      | .letter letter => sameLetter letter c && later.headD false
      | _ => here || (runsOver part c && beyond.headD false)
    matched :: beyond
  | [], here :: _ =>
    match part with
    | .letter _ => [false]
    | _ => [here]
  | _, [] => []

/-- For each suffix of the name, from the longest to the empty one, whether the parts
match it. -/
def reach : List GlobPart → Text → List Bool
  | [], name => name.map (fun _ => false) ++ [true]
  | part :: others, name => reachThrough part name (reach others name)

/-- Whether a pattern matches a name from end to end. -/
def admits (pattern name : Text) : Bool := (reach (parts pattern) name).headD false

/-- The distinct names that a pattern matches, ascending. -/
def resolve (pattern : Text) (names : List Text) : List Text :=
  Text.ordered (names.filter (admits pattern))

end Glob

end DynamicPrompt
