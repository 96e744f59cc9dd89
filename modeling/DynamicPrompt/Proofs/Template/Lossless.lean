import DynamicPrompt.Template.Parser
import Mathlib.Data.List.Chain

/-!
# Reading directive text loses nothing

Every text is a template: printing what was read gives back the text. What does not complete
a tag, a stray bracket or a backslash at the end stands in the literals, which are never
empty and never next to each other.

The three readers behind a tag pass text on without changing it, so each of them hands back
its input in two parts. The bound on their steps plays no part in that; it matters only at
the top, where every step has to leave less text than steps.
-/

namespace DynamicPrompt

/-- Whether a piece is literal text. -/
def Node.isLiteral : Node → Bool
  | .literal _ => true
  | .directive _ => false

namespace Template

/-- The argument in square brackets that a text begins with, if they close, and what
follows it. -/
def argumentPart (bound : Nat) : Text → Option Text × Text
  | '[' :: inside =>
    match argument bound inside with
    | (argument, ']' :: after) => (some argument, after)
    | _ => (none, '[' :: inside)
  | text => (none, text)

/-- The body after a colon that a text begins with, and what follows it. -/
def bodyPart (bound : Nat) : Text → Option Text × Text
  | ':' :: inside => (some (body bound inside).1, (body bound inside).2)
  | text => (none, text)

/-- A tag is a name, the two parts that may be left out, and a closing angle bracket. -/
theorem tag?_cons (bound : Nat) (c : Char) (rest : Text) :
    tag? (bound + 1) (c :: rest) =
      if startsTagName c then
        let (argument, tail) := argumentPart bound (rest.dropWhile continuesTagName)
        let (body, tail) := bodyPart bound tail
        match tail with
        | '>' :: after => some (⟨c :: rest.takeWhile continuesTagName, argument, body⟩, after)
        | _ => none
      else none := by
  unfold tag? argumentPart bodyPart
  rfl

/-- An escape belongs to a body whatever character it escapes. -/
theorem body_escaped (bound : Nat) (c : Char) (rest : Text) :
    body (bound + 1) ('\\' :: c :: rest) =
      ('\\' :: c :: (body bound rest).1, (body bound rest).2) := rfl

/-- A character begins an escape, unless it is no backslash or nothing follows it. -/
theorem escape_or (c : Char) (rest : Text) :
    (∃ d after, c = '\\' ∧ rest = d :: after) ∨ (c = '\\' → rest = []) := by
  by_cases backslash : c = '\\'
  · cases rest with
    | nil => exact .inr fun _ => rfl
    | cons d after => exact .inl ⟨d, after, backslash, rfl⟩
  · exact .inr fun escapes => absurd escapes backslash

/-- A backslash that nothing follows begins no escape. -/
theorem unescaped {c : Char} {rest : Text} (free : c = '\\' → rest = []) (d : Char) (tail : Text)
    (backslash : c = '\\') (filled : rest = d :: tail) : False := by
  rw [free backslash] at filled
  exact List.cons_ne_nil d tail filled.symm

/-- A character of a body that begins no escape begins a tag, ends the body, or stands for
itself. -/
theorem body_unescaped {bound : Nat} {c : Char} {rest : Text} (free : c = '\\' → rest = []) :
    body (bound + 1) (c :: rest) =
      match if c = '<' then tag? bound rest else none with
      | some (directive, after) =>
        (directive.print ++ (body bound after).1, (body bound after).2)
      | none =>
        if c = '>' then ([], c :: rest) else (c :: (body bound rest).1, (body bound rest).2) :=
  body.eq_2 bound c rest (unescaped free)

/-- An escape belongs to an argument whatever character it escapes. -/
theorem argument_escaped (bound : Nat) (c : Char) (rest : Text) :
    argument (bound + 1) ('\\' :: c :: rest) =
      ('\\' :: c :: (argument bound rest).1, (argument bound rest).2) := rfl

/-- A character of an argument that begins no escape begins a tag, ends the argument,
begins a group of brackets, which has to close, or stands for itself. -/
theorem argument_unescaped {bound : Nat} {c : Char} {rest : Text}
    (free : c = '\\' → rest = []) :
    argument (bound + 1) (c :: rest) =
      match if c = '<' then tag? bound rest else none with
      | some (directive, after) =>
        (directive.print ++ (argument bound after).1, (argument bound after).2)
      | none =>
        if c = ']' then ([], c :: rest)
        else if c = '[' then
          match argument bound rest with
          | (inner, ']' :: after) =>
            ('[' :: inner ++ ']' :: (argument bound after).1, (argument bound after).2)
          | _ => ([], c :: rest)
        else (c :: (argument bound rest).1, (argument bound rest).2) :=
  argument.eq_2 bound c rest (unescaped free)

/-- The argument of a tag as it is printed, with its brackets. -/
def printArgument : Option Text → Text
  | some argument => '[' :: argument ++ [']']
  | none => []

/-- The body of a tag as it is printed, with its colon. -/
def printBody : Option Text → Text
  | some body => ':' :: body
  | none => []

/-- A printed directive is its name and its printed parts between angle brackets. -/
theorem print_parts (directive : Directive) :
    directive.print =
      '<' :: directive.name ++ printArgument directive.argument ++ printBody directive.body ++
        ['>'] := by
  cases directive with
  | mk name argument body => cases argument <;> cases body <;> rfl

/-- A tag with an argument and a body as it is printed. -/
theorem print_full (name argument body : Text) :
    Directive.print ⟨name, some argument, some body⟩ =
      '<' :: ((name ++ '[' :: (argument ++ ']' :: ':' :: body)) ++ ['>']) := by
  simp [Directive.print]

/-- A tag with a body alone as it is printed. -/
theorem print_bodied (name body : Text) :
    Directive.print ⟨name, none, some body⟩ = '<' :: ((name ++ ':' :: body) ++ ['>']) := by
  simp [Directive.print]

/-- The readers of tags, bodies and arguments hand back the text they were given, in two
parts. -/
structure Keeps (bound : Nat) : Prop where
  tag : ∀ text directive rest, tag? bound text = some (directive, rest) →
    directive.print ++ rest = '<' :: text
  body : ∀ text, (body bound text).1 ++ (body bound text).2 = text
  argument : ∀ text, (argument bound text).1 ++ (argument bound text).2 = text

/-- An argument part is passed on unchanged, brackets included. -/
theorem argumentPart_keeps {bound : Nat} (keeps : Keeps bound) (text : Text) :
    printArgument (argumentPart bound text).1 ++ (argumentPart bound text).2 = text := by
  unfold argumentPart
  split
  · next inside =>
    have whole := keeps.argument inside
    split
    · next inner after read =>
      rw [read] at whole
      simp [printArgument, ← whole]
    · rfl
  · rfl

/-- A body part is passed on unchanged, colon included. -/
theorem bodyPart_keeps {bound : Nat} (keeps : Keeps bound) (text : Text) :
    printBody (bodyPart bound text).1 ++ (bodyPart bound text).2 = text := by
  unfold bodyPart
  split
  · next inside =>
    have whole := keeps.body inside
    simp [printBody, whole]
  · rfl

/-- A tag is passed on unchanged if its parts are. -/
theorem tag?_keeps {bound : Nat} (keeps : Keeps bound) {text rest : Text}
    {directive : Directive} (found : tag? (bound + 1) text = some (directive, rest)) :
    directive.print ++ rest = '<' :: text := by
  cases text with
  | nil => simp [tag?] at found
  | cons c text =>
    have first := argumentPart_keeps keeps (text.dropWhile continuesTagName)
    have second := bodyPart_keeps keeps
      (argumentPart bound (text.dropWhile continuesTagName)).2
    rw [tag?_cons] at found
    split at found
    · dsimp only at found
      split at found
      · next after closes =>
        obtain ⟨rfl, rfl⟩ := Prod.mk.inj (Option.some.inj found)
        rw [closes] at second
        rw [print_parts]
        simp only [List.cons_append, List.append_assoc, List.nil_append]
        rw [second, first, List.takeWhile_append_dropWhile]
      · simp at found
    · simp at found

/-- A body passes on every tag in it and every other character. -/
theorem body_keeps {bound : Nat} (keeps : Keeps bound) (text : Text) :
    (body (bound + 1) text).1 ++ (body (bound + 1) text).2 = text := by
  cases text with
  | nil => rfl
  | cons c rest =>
    rcases escape_or c rest with ⟨d, rest, rfl, rfl⟩ | free
    · simp [body_escaped, keeps.body rest]
    · rw [body_unescaped free]
      split
      · next directive after found =>
        obtain ⟨rfl, found⟩ := Option.ite_none_right_eq_some.1 found
        simp [keeps.body after, keeps.tag _ _ _ found]
      · split
        · rfl
        · simp [keeps.body rest]

/-- An argument passes on every tag and every closed group of brackets in it, and every
other character. -/
theorem argument_keeps {bound : Nat} (keeps : Keeps bound) (text : Text) :
    (argument (bound + 1) text).1 ++ (argument (bound + 1) text).2 = text := by
  cases text with
  | nil => rfl
  | cons c rest =>
    rcases escape_or c rest with ⟨d, rest, rfl, rfl⟩ | free
    · simp [argument_escaped, keeps.argument rest]
    · rw [argument_unescaped free]
      split
      · next directive after found =>
        obtain ⟨rfl, found⟩ := Option.ite_none_right_eq_some.1 found
        simp [keeps.argument after, keeps.tag _ _ _ found]
      · split
        · rfl
        · split
          · next groups =>
            subst groups
            have whole := keeps.argument rest
            split
            · next inner after read =>
              rw [read] at whole
              simp [keeps.argument after, ← whole]
            · rfl
          · simp [keeps.argument rest]

/-- Whatever the bound, no reader loses or changes a character. Each reader calls the
others with a smaller bound, so the induction is on the bound for all three at once. -/
theorem keeps (bound : Nat) : Keeps bound := by
  induction bound with
  | zero =>
    refine ⟨?_, fun _ => by simp [body], fun _ => by simp [argument]⟩
    intro text directive rest found
    simp [tag?] at found
  | succ bound inductionHypothesis =>
    exact ⟨fun _ _ _ found => tag?_keeps inductionHypothesis found,
      body_keeps inductionHypothesis, argument_keeps inductionHypothesis⟩

/-- What follows a tag is shorter than the text after its opening angle bracket. -/
theorem tag?_length {bound : Nat} {text rest : Text} {directive : Directive}
    (found : tag? bound text = some (directive, rest)) : rest.length < text.length := by
  have total := congrArg List.length ((keeps bound).tag text directive rest found)
  rw [print_parts] at total
  simp only [List.length_append, List.length_cons, List.length_nil] at total
  omega

/-- An escape is two literal characters. -/
theorem piecesWithin_escaped (bound : Nat) (c : Char) (rest : Text) :
    piecesWithin (bound + 1) ('\\' :: c :: rest) =
      consChar '\\' (consChar c (piecesWithin bound rest)) := rfl

/-- A character that begins no escape begins a tag or is literal. -/
theorem piecesWithin_unescaped {bound : Nat} {c : Char} {rest : Text}
    (free : c = '\\' → rest = []) :
    piecesWithin (bound + 1) (c :: rest) =
      match if c = '<' then tag? bound rest else none with
      | some (directive, after) => .directive directive :: piecesWithin bound after
      | none => consChar c (piecesWithin bound rest) :=
  piecesWithin.eq_2 bound c rest (unescaped free)

/-- A literal character in front is printed in front. -/
@[simp]
theorem print_consChar (c : Char) (template : Template) :
    (consChar c template).print = c :: template.print := by
  unfold consChar
  split <;> simp [print, Node.print]

/-- With as many steps as characters, the pieces hold the whole text. A step that reads a
tag leaves a shorter text, so the steps left still suffice for it. -/
theorem piecesWithin_print (bound : Nat) (text : Text) (enough : text.length ≤ bound) :
    (piecesWithin bound text).print = text := by
  induction bound generalizing text with
  | zero =>
    rw [List.eq_nil_of_length_eq_zero (Nat.le_zero.1 enough)]
    rfl
  | succ bound inductionHypothesis =>
    cases text with
    | nil => rfl
    | cons c rest =>
      have fewer : rest.length ≤ bound := Nat.le_of_succ_le_succ enough
      rcases escape_or c rest with ⟨d, rest, rfl, rfl⟩ | free
      · have shorter : rest.length ≤ bound := Nat.le_of_succ_le fewer
        simp [piecesWithin_escaped, inductionHypothesis rest shorter]
      · rw [piecesWithin_unescaped free]
        split
        · next directive after found =>
          obtain ⟨rfl, found⟩ := Option.ite_none_right_eq_some.1 found
          have shorter : after.length ≤ bound := by
            have less := tag?_length found
            omega
          have printed : print (.directive directive :: piecesWithin bound after) =
              directive.print ++ (piecesWithin bound after).print := rfl
          rw [printed, inductionHypothesis after shorter]
          exact (keeps bound).tag rest directive after found
        · simp [inductionHypothesis rest fewer]

/-- Printing a text's pieces gives back the text: reading loses nothing. -/
theorem print_ofText (text : Text) : (ofText text).print = text :=
  piecesWithin_print text.length text (Nat.le_refl _)

/-- No literal is empty and no two literals are neighbours. -/
def Separated (template : Template) : Prop :=
  .literal [] ∉ template ∧
    template.IsChain fun first second => ¬(first.isLiteral = true ∧ second.isLiteral = true)

/-- A directive in front separates. -/
theorem separated_directive (directive : Directive) {template : Template}
    (separated : Separated template) : Separated (.directive directive :: template) := by
  refine ⟨by simpa using separated.1, List.isChain_cons.2 ⟨?_, separated.2⟩⟩
  simp [Node.isLiteral]

/-- A literal character in front joins the literal there, so that literals stay
separated. -/
theorem separated_consChar (c : Char) {template : Template} (separated : Separated template) :
    Separated (consChar c template) := by
  obtain ⟨filled, apart⟩ := separated
  unfold consChar
  split
  · next content rest =>
    refine ⟨by simpa using fun present => filled (List.mem_cons_of_mem _ present), ?_⟩
    exact List.isChain_cons.2 (List.isChain_cons.1 apart)
  · next noLiteral =>
    refine ⟨by simpa using filled, List.isChain_cons.2 ⟨?_, apart⟩⟩
    rintro first leads ⟨-, literal⟩
    obtain ⟨rest, rfl⟩ := List.head?_eq_some_iff.1 leads
    cases first with
    | literal content => exact noLiteral content rest rfl
    | directive tag => simp [Node.isLiteral] at literal

/-- The pieces of a text are separated. -/
theorem piecesWithin_separated (bound : Nat) (text : Text) :
    Separated (piecesWithin bound text) := by
  induction bound generalizing text with
  | zero => exact ⟨by simp [piecesWithin], by simp [piecesWithin]⟩
  | succ bound inductionHypothesis =>
    cases text with
    | nil => exact ⟨by simp [piecesWithin], by simp [piecesWithin]⟩
    | cons c rest =>
      rcases escape_or c rest with ⟨d, rest, rfl, rfl⟩ | free
      · rw [piecesWithin_escaped]
        exact separated_consChar _ (separated_consChar _ (inductionHypothesis rest))
      · rw [piecesWithin_unescaped free]
        split
        · next directive after _ =>
          exact separated_directive directive (inductionHypothesis after)
        · exact separated_consChar c (inductionHypothesis rest)

end Template

end DynamicPrompt
