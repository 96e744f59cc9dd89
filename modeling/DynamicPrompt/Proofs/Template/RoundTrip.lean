import DynamicPrompt.Proofs.Template.Lossless
import DynamicPrompt.Proofs.Text.Cut

/-!
# Reading undoes printing

A template is canonical if it could have been read from its own print without any escape:
its literals are plain, not empty and not neighbours, its tags have proper names and plain
arguments, and every body is the print of a canonical template in turn. Reading the print of
a canonical template gives back the template, so a tag inside a body stays there and an
absent part is told apart from an empty one.

What a reader makes of a tag could depend on everything that follows it. The lemmas about
single readers therefore speak of a print with any text after it.
-/

namespace DynamicPrompt.Template

/-- Whether a character has no meaning of its own in directive text. -/
def isPlain (c : Char) : Bool := c != '<' && c != '>' && c != '\\'

/-- Whether a character has no meaning of its own in an argument. -/
def isPlainArgument (c : Char) : Bool := isPlain c && c != '[' && c != ']'

/-- Whether a text is a letter followed by letters, digits and underscores. -/
def isTagName : Text → Bool
  | [] => false
  | first :: others => startsTagName first && others.all continuesTagName

/-- A tag with a proper name and a plain argument. -/
structure HasPlainHead (name : Text) (argument : Option Text) : Prop where
  name : isTagName name = true
  argument : ∀ text ∈ argument, text.all isPlainArgument = true

/-- Templates that their prints determine. A body is the print of a canonical template, to
any depth. -/
inductive Canonical : Template → Prop where
  | nil : Canonical []
  | literal (content : Text) (rest : Template)
      (filled : content ≠ []) (plain : content.all isPlain = true)
      (apart : ∀ node ∈ rest.head?, node.isLiteral = false) (others : Canonical rest) :
      Canonical (.literal content :: rest)
  | bodiless (name : Text) (argument : Option Text) (rest : Template)
      (head : HasPlainHead name argument) (others : Canonical rest) :
      Canonical (.directive ⟨name, argument, none⟩ :: rest)
  | holding (name : Text) (argument : Option Text) (inner rest : Template)
      (head : HasPlainHead name argument) (inside : Canonical inner) (others : Canonical rest) :
      Canonical (.directive ⟨name, argument, some inner.print⟩ :: rest)

/-- A plain character of a body stands for itself. -/
theorem body_plain {bound : Nat} {c : Char} {rest : Text} (plain : isPlain c = true) :
    body (bound + 1) (c :: rest) = (c :: (body bound rest).1, (body bound rest).2) := by
  simp only [isPlain, Bool.and_eq_true, bne_iff_ne] at plain
  obtain ⟨⟨opener, closer⟩, backslash⟩ := plain
  rw [body_unescaped fun escapes => absurd escapes backslash, if_neg opener]
  simp [closer]

/-- A plain character of an argument stands for itself. -/
theorem argument_plain {bound : Nat} {c : Char} {rest : Text}
    (plain : isPlainArgument c = true) :
    argument (bound + 1) (c :: rest) =
      (c :: (argument bound rest).1, (argument bound rest).2) := by
  simp only [isPlainArgument, isPlain, Bool.and_eq_true, bne_iff_ne] at plain
  obtain ⟨⟨⟨⟨opener, _⟩, backslash⟩, left⟩, right⟩ := plain
  rw [argument_unescaped fun escapes => absurd escapes backslash, if_neg opener]
  simp [left, right]

/-- A body ends before a closing angle bracket, whatever follows it and however many steps
are left. -/
theorem body_closer (bound : Nat) (rest : Text) :
    body bound ('>' :: rest) = ([], '>' :: rest) := by
  cases bound with
  | zero => rfl
  | succ bound => rw [body_unescaped (by simp)]; rfl

/-- An argument ends before a closing square bracket, whatever follows it and however many
steps are left. -/
theorem argument_closer (bound : Nat) (rest : Text) :
    argument bound (']' :: rest) = ([], ']' :: rest) := by
  cases bound with
  | zero => rfl
  | succ bound => rw [argument_unescaped (by simp)]; rfl

/-- A body is read back if the reader, with enough steps, takes exactly the body from a text
in which a closing angle bracket follows it. -/
def ReadsBack (content : Text) : Prop :=
  ∀ bound rest, content.length ≤ bound →
    body bound (content ++ '>' :: rest) = (content, '>' :: rest)

/-- An argument is read back if the reader, with enough steps, takes exactly the argument from a
text in which a closing square bracket follows it. -/
def ReadsBackArgument (content : Text) : Prop :=
  ∀ bound rest, content.length ≤ bound →
    argument bound (content ++ ']' :: rest) = (content, ']' :: rest)

/-- A tag with a proper name and an argument that is read back. -/
structure HasReadableHead (name : Text) (argument : Option Text) : Prop where
  name : isTagName name = true
  argument : ∀ text ∈ argument, ReadsBackArgument text

/-- A plain argument is taken as a whole, up to its closing bracket. -/
theorem argument_print {content : Text} (plain : content.all isPlainArgument = true) :
    ReadsBackArgument content := by
  induction content with
  | nil =>
    intro bound rest _
    exact argument_closer bound rest
  | cons c content inductionHypothesis =>
    intro bound rest enough
    rw [List.all_cons, Bool.and_eq_true] at plain
    obtain ⟨bound, rfl⟩ : ∃ fewer, bound = fewer + 1 := Nat.exists_eq_succ_of_ne_zero (by
      simp only [List.length_cons] at enough
      omega)
    have fewer : content.length ≤ bound := Nat.le_of_succ_le_succ enough
    rw [List.cons_append, argument_plain plain.1, inductionHypothesis plain.2 bound rest fewer]

/-- A plain head is read back. -/
theorem HasPlainHead.readable {name : Text} {argument : Option Text}
    (head : HasPlainHead name argument) : HasReadableHead name argument :=
  ⟨head.name, fun text given => argument_print (head.argument text given)⟩

/-- An argument part is read back before anything that begins no argument. -/
theorem argumentPart_print {part : Option Text}
    (readsBack : ∀ text ∈ part, ReadsBackArgument text) (bound : Nat) (rest : Text)
    (enough : (printArgument part).length ≤ bound) (other : ∀ c ∈ rest.head?, c ≠ '[') :
    argumentPart bound (printArgument part ++ rest) = (part, rest) := by
  cases part with
  | none =>
    unfold argumentPart
    split
    · next inside opens =>
      have first : rest = '[' :: inside := opens
      simp [first] at other
    · rfl
  | some content =>
    have fits : content.length ≤ bound := by
      simp only [printArgument, List.length_append, List.length_cons] at enough
      omega
    have whole := readsBack content rfl bound rest fits
    simp only [printArgument, List.cons_append, List.append_assoc, List.nil_append,
      argumentPart, whole]

/-- A body part that is read back, or a missing one, is read before a closing angle
bracket. -/
theorem bodyPart_print {part : Option Text} (readsBack : ∀ text ∈ part, ReadsBack text)
    (bound : Nat) (rest : Text) (enough : (printBody part).length ≤ bound) :
    bodyPart bound (printBody part ++ '>' :: rest) = (part, '>' :: rest) := by
  cases part with
  | none => rfl
  | some content =>
    have fits : content.length ≤ bound := by
      simp only [printBody, List.length_cons] at enough
      omega
    have whole := readsBack content rfl bound rest fits
    simp only [printBody, List.cons_append, bodyPart, whole]

/-- What follows the argument of a printed tag begins no argument and no name. -/
theorem head_afterArgument (part : Option Text) (rest : Text) :
    ∀ c ∈ (printBody part ++ '>' :: rest).head?, c ≠ '[' ∧ continuesTagName c = false := by
  cases part with
  | none => simp [printBody, continuesTagName]
  | some content => simp [printBody, continuesTagName]

/-- What follows the name of a printed tag does not continue the name. -/
theorem head_afterName (argument body : Option Text) (rest : Text) :
    ∀ c ∈ (printArgument argument ++ (printBody body ++ '>' :: rest)).head?,
      continuesTagName c = false := by
  cases argument with
  | none => exact fun c leads => (head_afterArgument body rest c leads).2
  | some content => simp [printArgument, continuesTagName]

/-- A printed tag is read back, whatever follows it, if its head and its body are read back.
The name ends where the first other part or the closing bracket begins. -/
theorem tag?_print {name : Text} {argument body : Option Text}
    (head : HasReadableHead name argument) (readsBack : ∀ text ∈ body, ReadsBack text)
    (bound : Nat) (rest : Text)
    (enough : (Directive.print ⟨name, argument, body⟩).length ≤ bound + 1) :
    tag? bound (name ++ printArgument argument ++ printBody body ++ '>' :: rest) =
      some (⟨name, argument, body⟩, rest) := by
  rw [print_parts] at enough
  simp only [List.length_append, List.length_cons, List.length_nil] at enough
  cases name with
  | nil => exact absurd head.name (by simp [isTagName])
  | cons first others =>
    obtain ⟨starts, continues⟩ := Bool.and_eq_true_iff.1 head.name
    simp only [List.length_cons] at enough
    obtain ⟨bound, rfl⟩ : ∃ fewer, bound = fewer + 1 :=
      Nat.exists_eq_succ_of_ne_zero (by omega)
    have ends := head_afterName argument body rest
    have argumentRead := argumentPart_print head.argument bound (printBody body ++ '>' :: rest)
      (by omega) fun c leads => (head_afterArgument body rest c leads).1
    have bodyRead := bodyPart_print readsBack bound rest (by omega)
    simp only [List.cons_append, List.append_assoc]
    rw [tag?_cons, if_pos starts, Text.takeWhile_run continues ends,
      Text.dropWhile_run continues ends, argumentRead]
    simp only [bodyRead]

/-- The empty body is read back. -/
theorem readsBack_nil : ReadsBack [] := fun bound rest _ => body_closer bound rest

/-- A plain literal in front of a body that is read back leaves it so. -/
theorem readsBack_literal {content others : Text} (plain : content.all isPlain = true)
    (readsBack : ReadsBack others) : ReadsBack (content ++ others) := by
  induction content with
  | nil => exact readsBack
  | cons c content inductionHypothesis =>
    rw [List.all_cons, Bool.and_eq_true] at plain
    intro bound rest enough
    simp only [List.cons_append, List.length_cons] at enough
    obtain ⟨bound, rfl⟩ : ∃ fewer, bound = fewer + 1 :=
      Nat.exists_eq_succ_of_ne_zero (by omega)
    have inside := inductionHypothesis plain.2 bound rest (by omega)
    rw [List.cons_append, List.cons_append, body_plain plain.1, inside]

/-- A tag in front of a body that is read back leaves it so, if the tag's own body is read
back. -/
theorem readsBack_directive {name others : Text} {argument body : Option Text}
    (head : HasReadableHead name argument) (inside : ∀ text ∈ body, ReadsBack text)
    (readsBack : ReadsBack others) :
    ReadsBack (Directive.print ⟨name, argument, body⟩ ++ others) := by
  intro bound rest enough
  rw [List.length_append] at enough
  have size := congrArg List.length (print_parts ⟨name, argument, body⟩)
  simp only [List.length_append, List.length_cons, List.length_nil] at size
  obtain ⟨bound, rfl⟩ : ∃ fewer, bound = fewer + 1 :=
    Nat.exists_eq_succ_of_ne_zero (by omega)
  have tagRead := tag?_print head inside bound (others ++ '>' :: rest) (by omega)
  have afterTag := readsBack bound rest (by omega)
  have written : Directive.print ⟨name, argument, body⟩ ++ others ++ '>' :: rest =
      '<' :: (name ++ printArgument argument ++ printBody body ++
        '>' :: (others ++ '>' :: rest)) := by
    simp [print_parts]
  rw [written, body_unescaped (by simp), if_pos rfl, tagRead]
  simp only [afterTag]

/-- Parts with a plain separator between them leave a body behind them as it is, if each of them
does. -/
theorem readsBack_join_append {separator others : Text} {parts : List Text}
    (plain : separator.all isPlain = true)
    (each : ∀ part ∈ parts, ∀ others, ReadsBack others → ReadsBack (part ++ others))
    (readsBack : ReadsBack others) : ReadsBack (Text.join separator parts ++ others) := by
  have whole : ∀ others, ReadsBack others → ReadsBack (Text.join separator parts ++ others) := by
    apply Text.join_of_step _ _ each
    · exact fun others readsBack => readsBack
    · intro first rest front back others readsBack
      rw [List.append_assoc, List.append_assoc]
      exact front _ (readsBack_literal plain (back others readsBack))
  exact whole others readsBack

/-- Parts with a plain separator between them are read back, if each of them is wherever it stands
in a body. -/
theorem readsBack_join {separator : Text} {parts : List Text}
    (plain : separator.all isPlain = true)
    (each : ∀ part ∈ parts, ∀ others, ReadsBack others → ReadsBack (part ++ others)) :
    ReadsBack (Text.join separator parts) := by
  have alone := readsBack_join_append plain each readsBack_nil
  rwa [List.append_nil] at alone

/-- A tag alone is read back as an argument, if its own body is read back. -/
theorem readsBackArgument_directive {name : Text} {argument body : Option Text}
    (head : HasReadableHead name argument) (inside : ∀ text ∈ body, ReadsBack text) :
    ReadsBackArgument (Directive.print ⟨name, argument, body⟩) := by
  intro bound rest enough
  have size := congrArg List.length (print_parts ⟨name, argument, body⟩)
  simp only [List.length_append, List.length_cons, List.length_nil] at size
  obtain ⟨bound, rfl⟩ : ∃ fewer, bound = fewer + 1 :=
    Nat.exists_eq_succ_of_ne_zero (by omega)
  have tagRead := tag?_print head inside bound (']' :: rest) (by omega)
  have written : Directive.print ⟨name, argument, body⟩ ++ ']' :: rest =
      '<' :: (name ++ printArgument argument ++ printBody body ++ '>' :: ']' :: rest) := by
    simp [print_parts]
  rw [written, argument_unescaped (by simp), if_pos rfl, tagRead]
  simp only [argument_closer, List.append_nil]

/-- The print of a canonical template is read back as a body. The induction is on the
template's construction, so a tag's own body is known to be read back before the tag is. -/
theorem readsBack_print {template : Template} (canonical : Canonical template) :
    ReadsBack template.print := by
  induction canonical with
  | nil => exact readsBack_nil
  | literal content rest _ plain _ _ others => exact readsBack_literal plain others
  | bodiless name argument rest head _ others =>
    exact readsBack_directive head.readable (by simp) others
  | holding name argument inner rest head _ _ inside others =>
    exact readsBack_directive head.readable (by simpa using inside) others

/-- A plain character is literal. -/
theorem piecesWithin_plain {bound : Nat} {c : Char} {rest : Text} (plain : isPlain c = true) :
    piecesWithin (bound + 1) (c :: rest) = consChar c (piecesWithin bound rest) := by
  simp only [isPlain, Bool.and_eq_true, bne_iff_ne] at plain
  obtain ⟨⟨opener, _⟩, backslash⟩ := plain
  rw [piecesWithin_unescaped fun escapes => absurd escapes backslash, if_neg opener]

/-- Plain characters are literal, one step each. -/
theorem piecesWithin_allPlain (bound : Nat) {content : Text} (rest : Text)
    (plain : content.all isPlain = true) :
    piecesWithin (bound + content.length) (content ++ rest) =
      content.foldr consChar (piecesWithin bound rest) := by
  induction content with
  | nil => rfl
  | cons c content inductionHypothesis =>
    rw [List.all_cons, Bool.and_eq_true] at plain
    rw [List.length_cons, ← Nat.add_assoc, List.cons_append, piecesWithin_plain plain.1,
      inductionHypothesis plain.2, List.foldr_cons]

/-- Literal characters in front of a template that begins with no literal become one
literal. -/
theorem foldr_consChar {content : Text} {template : Template} (filled : content ≠ [])
    (apart : ∀ node ∈ template.head?, node.isLiteral = false) :
    content.foldr consChar template = .literal content :: template := by
  induction content with
  | nil => exact absurd rfl filled
  | cons c content inductionHypothesis =>
    cases content with
    | cons d content =>
      rw [List.foldr_cons, inductionHypothesis (List.cons_ne_nil _ _)]
      rfl
    | nil =>
      rw [List.foldr_cons, List.foldr_nil, consChar]
      intro content rest starts
      simp [starts, Node.isLiteral] at apart

/-- A printed tag is one piece, if its own body is read back. -/
theorem piecesWithin_directive {name : Text} {argument body : Option Text}
    (head : HasReadableHead name argument) (inside : ∀ text ∈ body, ReadsBack text)
    (bound : Nat) (rest : Text)
    (enough : (Directive.print ⟨name, argument, body⟩).length ≤ bound + 1) :
    piecesWithin (bound + 1) (Directive.print ⟨name, argument, body⟩ ++ rest) =
      .directive ⟨name, argument, body⟩ :: piecesWithin bound rest := by
  have written : Directive.print ⟨name, argument, body⟩ ++ rest =
      '<' :: (name ++ printArgument argument ++ printBody body ++ '>' :: rest) := by
    simp [print_parts]
  rw [written, piecesWithin_unescaped (by simp), if_pos rfl,
    tag?_print head inside bound rest enough]

/-- A printed tag takes at least one character. -/
theorem print_length_pos (directive : Directive) : 0 < directive.print.length := by
  rw [print_parts]
  simp

/-- A printed tag is the first piece, and the pieces after it are those of what follows it. -/
theorem piecesWithin_tagFirst {name rest : Text} {argument body : Option Text}
    {template : Template} (head : HasReadableHead name argument)
    (inside : ∀ text ∈ body, ReadsBack text)
    (others : ∀ bound, rest.length ≤ bound → piecesWithin bound rest = template)
    {bound : Nat} (enough : (Directive.print ⟨name, argument, body⟩ ++ rest).length ≤ bound) :
    piecesWithin bound (Directive.print ⟨name, argument, body⟩ ++ rest) =
      .directive ⟨name, argument, body⟩ :: template := by
  have filled := print_length_pos ⟨name, argument, body⟩
  rw [List.length_append] at enough
  obtain ⟨bound, rfl⟩ : ∃ fewer, bound = fewer + 1 :=
    Nat.exists_eq_succ_of_ne_zero (by omega)
  rw [piecesWithin_directive head inside bound rest (by omega), others bound (by omega)]

/-- The text of one tag is read as that tag, if its head and its body are read back. -/
theorem ofText_directive {name : Text} {argument body : Option Text}
    (head : HasReadableHead name argument) (inside : ∀ text ∈ body, ReadsBack text) :
    ofText (Directive.print ⟨name, argument, body⟩) = [.directive ⟨name, argument, body⟩] := by
  have others : ∀ bound, ([] : Text).length ≤ bound → piecesWithin bound [] = [] := by
    intro bound _
    cases bound <;> rfl
  have whole := piecesWithin_tagFirst head inside others (Nat.le_refl _)
  rwa [List.append_nil] at whole

/-- With a step for each character, the pieces of a canonical template's print are the
template. -/
theorem piecesWithin_printed {template : Template} (canonical : Canonical template)
    (bound : Nat) (enough : template.print.length ≤ bound) :
    piecesWithin bound template.print = template := by
  induction canonical generalizing bound with
  | nil => cases bound <;> rfl
  | literal content rest filled plain apart others inductionHypothesis =>
    have written : print (.literal content :: rest) = content ++ rest.print := rfl
    rw [written, List.length_append] at enough
    obtain ⟨fewer, rfl⟩ := Nat.exists_eq_add_of_le (Nat.le_of_add_right_le enough)
    rw [written, Nat.add_comm, piecesWithin_allPlain fewer rest.print plain,
      inductionHypothesis fewer (by omega), foldr_consChar filled apart]
  | bodiless name argument rest head others inductionHypothesis =>
    exact piecesWithin_tagFirst head.readable (by simp) inductionHypothesis enough
  | holding name argument inner rest head inside others _ inductionHypothesis =>
    exact piecesWithin_tagFirst head.readable (by simpa using readsBack_print inside)
      inductionHypothesis enough

/-- Reading undoes printing on canonical templates: every literal, every tag with its name,
its argument and its body is found again where it stood. Tags inside a body stay part of
that body, and a part that is absent is not confused with one that is empty. -/
theorem ofText_print {template : Template} (canonical : Canonical template) :
    ofText template.print = template :=
  piecesWithin_printed canonical template.print.length (Nat.le_refl _)

/-- Tags without parts, with empty parts, and with a tag in their body. -/
def nestedInside : Template :=
  [.directive ⟨"x_1", none, none⟩, .directive ⟨"y", some [], some (print [])⟩,
    .directive ⟨"z", none, some (print [.literal "b ", .directive ⟨"w", none, none⟩])⟩]

/-- A tag with an empty argument and tags in its body, beside tags whose bodies are empty and
absent. -/
def nested : Template :=
  [.literal "a ", .directive ⟨"wcmatch", some [], some nestedInside.print⟩,
    .directive ⟨"empty", none, some (print [])⟩, .directive ⟨"absent", some "1, 2", none⟩]

/-- Every part of the nested template is found again. -/
theorem ofText_print_nested : Canonical nested ∧ ofText nested.print = nested := by
  have innermost : Canonical [.literal "b ", .directive ⟨"w", none, none⟩] :=
    .literal _ _ (by decide) (by decide) (by simp [Node.isLiteral])
      (.bodiless _ _ _ ⟨by decide, by simp⟩ .nil)
  have inside : Canonical nestedInside :=
    .bodiless _ _ _ ⟨by decide, by simp⟩ (.holding _ _ _ _ ⟨by decide, by simp⟩ .nil
      (.holding _ _ _ _ ⟨by decide, by simp⟩ innermost .nil))
  have canonical : Canonical nested :=
    .literal _ _ (by decide) (by decide) (by simp [Node.isLiteral])
      (.holding _ _ _ _ ⟨by decide, by simp⟩ inside (.holding _ _ _ _ ⟨by decide, by simp⟩ .nil
        (.bodiless _ _ _ ⟨by decide, by simp; decide⟩ .nil)))
  exact ⟨canonical, ofText_print canonical⟩

end DynamicPrompt.Template
