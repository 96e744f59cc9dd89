import DynamicPrompt.Template.Basic

/-!
# Reading directive text

Every text is a template. A tag is an opening angle bracket, a name, an argument in square
brackets, a body after a colon and a closing angle bracket, where argument and body may be
left out; what does not complete a tag is literal text. A backslash makes the character
after it literal wherever it stands. A body runs up to the first closing angle bracket that
belongs to no tag inside it. An argument runs up to its closing square bracket and may hold
balanced square brackets and whole tags.

The choices are ordered: an escape before a tag, a tag before a plain character. A bracket
group that does not close is no argument, and then the tag ends there or fails. Readers
take the text after what has been passed and hand back what they leave; each step passes at
least one character, so the length of the text bounds the steps.
-/

namespace DynamicPrompt

/-- The characters that may begin the name of a tag. -/
def startsTagName (c : Char) : Bool := c.isAlpha

/-- The characters that may stand in the name of a tag after its first. -/
def continuesTagName (c : Char) : Bool := c.isAlphanum || c == '_'

namespace Template

mutual

/-- The tag whose opening angle bracket has been passed, and what follows it. -/
def tag? : Nat → Text → Option (Directive × Text)
  | 0, _ => none
  | _, [] => none
  | bound + 1, c :: rest =>
    if startsTagName c then
      let name := c :: rest.takeWhile continuesTagName
      let (argument, rest) : Option Text × Text :=
        match rest.dropWhile continuesTagName with
        | '[' :: inside =>
          match argument bound inside with
          | (argument, ']' :: after) => (some argument, after)
          | _ => (none, '[' :: inside)
        | rest => (none, rest)
      let (body, rest) : Option Text × Text :=
        match rest with
        | ':' :: inside =>
          let (body, after) := body bound inside
          (some body, after)
        | rest => (none, rest)
      match rest with
      | '>' :: rest => some (⟨name, argument, body⟩, rest)
      | _ => none
    else none

/-- The body that a text begins with, and what follows it: nothing, or a closing angle
bracket. -/
def body : Nat → Text → Text × Text
  | bound + 1, '\\' :: c :: rest =>
    let (others, rest) := body bound rest
    ('\\' :: c :: others, rest)
  | bound + 1, c :: rest =>
    match if c = '<' then tag? bound rest else none with
    | some (directive, rest) =>
      let (others, rest) := body bound rest
      (directive.print ++ others, rest)
    | none =>
      if c = '>' then ([], c :: rest)
      else
        let (others, rest) := body bound rest
        (c :: others, rest)
  | _, text => ([], text)

/-- The argument that a text begins with, and what follows it: nothing, or a square
bracket. -/
def argument : Nat → Text → Text × Text
  | bound + 1, '\\' :: c :: rest =>
    let (others, rest) := argument bound rest
    ('\\' :: c :: others, rest)
  | bound + 1, c :: rest =>
    match if c = '<' then tag? bound rest else none with
    | some (directive, rest) =>
      let (others, rest) := argument bound rest
      (directive.print ++ others, rest)
    | none =>
      if c = ']' then ([], c :: rest)
      else if c = '[' then
        match argument bound rest with
        | (inner, ']' :: rest) =>
          let (others, rest) := argument bound rest
          ('[' :: inner ++ ']' :: others, rest)
        | _ => ([], c :: rest)
      else
        let (others, rest) := argument bound rest
        (c :: others, rest)
  | _, text => ([], text)

end

/-- A template with one more literal character in front. -/
def consChar (c : Char) : Template → Template
  | .literal content :: rest => .literal (c :: content) :: rest
  | template => .literal [c] :: template

/-- The pieces of a text. -/
def piecesWithin : Nat → Text → Template
  | bound + 1, '\\' :: c :: rest => consChar '\\' (consChar c (piecesWithin bound rest))
  | bound + 1, c :: rest =>
    match if c = '<' then tag? bound rest else none with
    | some (directive, rest) => .directive directive :: piecesWithin bound rest
    | none => consChar c (piecesWithin bound rest)
  | _, _ => []

/-- The template that a text is. -/
def ofText (text : Text) : Template := piecesWithin text.length text

end Template

end DynamicPrompt
