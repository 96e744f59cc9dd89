import DynamicPrompt.Proofs.Template.RoundTrip

/-!
# Blanks around a text are literal

A blank begins nothing and ends nothing, so blanks around a text make no difference to the tags in
it. In front of the text that is plain. Behind it the readers get further than they would without
the blanks, and with more steps, but find nothing there that they could have been looking for: a
part that was not closed before them is not closed after them.
-/

namespace DynamicPrompt

/-- No name has a blank in it. -/
theorem isBlank_unnamed {c : Char} (blank : isBlank c = true) : continuesTagName c = false := by
  rw [Bool.eq_false_iff]
  intro continues
  rw [continuesTagName, Bool.or_eq_true, beq_iff_eq] at continues
  rcases continues with alphanumeric | rfl
  · rw [isBlank_of_isAlphanum alphanumeric] at blank
    exact Bool.noConfusion blank
  · exact absurd blank (by decide)

/-- A blank is no character that is visible. -/
theorem isBlank_ne {c d : Char} (blank : isBlank c = true) (visible : isBlank d = false) :
    c ≠ d := by
  rintro rfl
  rw [blank] at visible
  cases visible

namespace Template

/-- Blanks have no meaning in a body. -/
theorem isBlank_plain {c : Char} (blank : isBlank c = true) : isPlain c = true := by
  simp [isPlain, isBlank_ne blank (d := '<') (by decide), isBlank_ne blank (d := '>') (by decide),
    isBlank_ne blank (d := '\\') (by decide)]

/-- Blanks have no meaning in an argument. -/
theorem isBlank_plainArgument {c : Char} (blank : isBlank c = true) : isPlainArgument c = true := by
  simp [isPlainArgument, isBlank_plain blank, isBlank_ne blank (d := '[') (by decide),
    isBlank_ne blank (d := ']') (by decide)]

/-- What the readers of bodies and of arguments have in common: they pass escapes, tags and
blanks. -/
structure IsReader (read : Nat → Text → Text × Text) : Prop where
  nothing : ∀ bound, read bound [] = ([], [])
  escaped : ∀ bound c rest,
    read (bound + 1) ('\\' :: c :: rest) = ('\\' :: c :: (read bound rest).1, (read bound rest).2)
  backslash : ∀ bound, read (bound + 1) ['\\'] = (['\\'], [])
  opened : ∀ bound rest, read (bound + 1) ('<' :: rest) =
    match tag? bound rest with
    | some (directive, after) => (directive.print ++ (read bound after).1, (read bound after).2)
    | none => ('<' :: (read bound rest).1, (read bound rest).2)
  blank : ∀ bound c rest, isBlank c = true →
    read (bound + 1) (c :: rest) = (c :: (read bound rest).1, (read bound rest).2)

/-- Bodies are read so. -/
theorem isReader_body : IsReader body := by
  have nothing : ∀ bound, body bound [] = ([], []) := by
    intro bound
    cases bound <;> rfl
  refine ⟨nothing, body_escaped, ?_, ?_, ?_⟩
  · intro bound
    rw [body_unescaped fun _ => rfl, if_neg (by decide)]
    dsimp only
    rw [nothing, if_neg (by decide)]
  · intro bound rest
    rw [body_unescaped (by simp), if_pos rfl]
    rfl
  · intro bound c rest blank
    exact body_plain (isBlank_plain blank)

/-- Arguments are read so. -/
theorem isReader_argument : IsReader argument := by
  have nothing : ∀ bound, argument bound [] = ([], []) := by
    intro bound
    cases bound <;> rfl
  refine ⟨nothing, argument_escaped, ?_, ?_, ?_⟩
  · intro bound
    rw [argument_unescaped fun _ => rfl, if_neg (by decide)]
    dsimp only
    rw [nothing, if_neg (by decide), if_neg (by decide)]
  · intro bound rest
    rw [argument_unescaped (by simp), if_pos rfl]
    rfl
  · intro bound c rest blank
    exact argument_plain (isBlank_plainArgument blank)

/-- With enough steps a reader leaves nothing of blanks. -/
theorem IsReader.blanks {read : Nat → Text → Text × Text} (reader : IsReader read) {blanks : Text}
    (blank : ∀ c ∈ blanks, isBlank c = true) {bound : Nat} (enough : blanks.length ≤ bound) :
    (read bound blanks).2 = [] := by
  induction blanks generalizing bound with
  | nil => rw [reader.nothing]
  | cons c others inductionHypothesis =>
    obtain ⟨bound, rfl⟩ : ∃ fewer, bound = fewer + 1 :=
      Nat.exists_eq_add_one_of_ne_zero (by rintro rfl; cases enough)
    rw [reader.blank bound c others (blank c List.mem_cons_self)]
    exact inductionHypothesis (fun d member => blank d (List.mem_cons_of_mem c member))
      (Nat.le_of_succ_le_succ enough)

/-- A tag with its parts, if a closing bracket follows them, and what follows that. -/
def closeTag (name : Text) (argument body : Option Text) : Text → Option (Directive × Text)
  | '>' :: after => some (⟨name, argument, body⟩, after)
  | _ => none

/-- No blank closes a tag. -/
theorem closeTag_blanks {blanks : Text} (blank : ∀ c ∈ blanks, isBlank c = true) (name : Text)
    (argument body : Option Text) (tail : Text) :
    closeTag name argument body (tail ++ blanks) =
      (closeTag name argument body tail).map fun read => (read.1, read.2 ++ blanks) := by
  cases tail with
  | nil =>
    cases blanks with
    | nil => rfl
    | cons c others =>
      have other := isBlank_ne (blank c List.mem_cons_self) (d := '>') (by decide)
      unfold closeTag
      split
      · next closes => exact absurd (List.cons.inj closes).1 other
      · rfl
  | cons c after =>
    unfold closeTag
    split
    · next closes =>
      obtain ⟨rfl, rfl⟩ := List.cons.inj closes
      rfl
    · next other =>
      split
      · next closes =>
        obtain ⟨rfl, rfl⟩ := List.cons.inj closes
        exact absurd rfl (other _)
      · rfl

section Names

variable {blanks : Text} (blank : ∀ c ∈ blanks, isBlank c = true) (text : Text)

include blank

/-- What follows the name that a text begins with does not continue it, nor do the blanks. -/
theorem head_dropWhile_blanks :
    ∀ c ∈ (text.dropWhile continuesTagName ++ blanks).head?, continuesTagName c = false := by
  intro c leads
  have stops := List.head?_dropWhile_not continuesTagName text
  cases dropped : text.dropWhile continuesTagName with
  | nil =>
    rw [dropped] at leads
    exact isBlank_unnamed (blank c (List.mem_of_mem_head? leads))
  | cons d others =>
    rw [dropped] at leads stops
    obtain rfl := Option.some.inj leads
    exact stops

/-- Blanks do not continue the name that a text begins with. -/
theorem takeWhile_blanks :
    (text ++ blanks).takeWhile continuesTagName = text.takeWhile continuesTagName := by
  have whole := Text.takeWhile_run (List.all_takeWhile (p := continuesTagName) (l := text))
    (head_dropWhile_blanks blank text)
  rwa [← List.append_assoc, List.takeWhile_append_dropWhile] at whole

/-- Blanks are left behind what follows the name. -/
theorem dropWhile_blanks :
    (text ++ blanks).dropWhile continuesTagName = text.dropWhile continuesTagName ++ blanks := by
  have whole := Text.dropWhile_run (List.all_takeWhile (p := continuesTagName) (l := text))
    (head_dropWhile_blanks blank text)
  rwa [← List.append_assoc, List.takeWhile_append_dropWhile] at whole

end Names

/-- What a reader finds in a text and what it finds if blanks follow the text: the same with the
blanks left behind it, or in both cases nothing is left. -/
def Agree (blanks : Text) (found further : Text × Text) : Prop :=
  further = (found.1, found.2 ++ blanks) ∨ found.2 = [] ∧ further.2 = []

/-- Agreement remains if more is found in front. -/
theorem Agree.front {blanks : Text} {found further : Text × Text}
    (agree : Agree blanks found further) (front : Text) :
    Agree blanks (front ++ found.1, found.2) (front ++ further.1, further.2) := by
  rcases agree with rfl | ended
  · exact .inl rfl
  · exact .inr ended

/-- With enough steps for each, the readers agree on a text and on the text with blanks behind. -/
structure Passes (blanks : Text) (bound : Nat) : Prop where
  tag : ∀ {text fewer}, (text ++ blanks).length ≤ bound → text.length ≤ fewer →
    tag? bound (text ++ blanks) = (tag? fewer text).map fun read => (read.1, read.2 ++ blanks)
  body : ∀ {text fewer}, (text ++ blanks).length ≤ bound → text.length ≤ fewer →
    Agree blanks (body fewer text) (body bound (text ++ blanks))
  argument : ∀ {text fewer}, (text ++ blanks).length ≤ bound → text.length ≤ fewer →
    Agree blanks (argument fewer text) (argument bound (text ++ blanks))

/-- A group of brackets in an argument is read as an argument part is. -/
theorem argument_group (bound : Nat) (rest : Text) :
    argument (bound + 1) ('[' :: rest) =
      match argumentPart bound ('[' :: rest) with
      | (some inner, after) =>
        ('[' :: inner ++ ']' :: (argument bound after).1, (argument bound after).2)
      | (none, _) => ([], '[' :: rest) := by
  rw [argument_unescaped (by simp), argumentPart]
  simp only [Char.reduceEq, if_false, if_true]
  split <;> rfl

section Steps

variable {blanks : Text} (blank : ∀ c ∈ blanks, isBlank c = true) {bound : Nat}
  (passes : Passes blanks bound)

include blank passes

/-- A text that is read with one step more. What a character means that begins no escape and no tag
depends on the reader. -/
theorem IsReader.step {read : Nat → Text → Text × Text} (reader : IsReader read)
    (agree : ∀ {text fewer}, (text ++ blanks).length ≤ bound → text.length ≤ fewer →
      Agree blanks (read fewer text) (read bound (text ++ blanks)))
    (other : ∀ {c rest fewer}, c ≠ '\\' → c ≠ '<' → (rest ++ blanks).length ≤ bound →
      rest.length ≤ fewer →
      Agree blanks (read (fewer + 1) (c :: rest)) (read (bound + 1) (c :: (rest ++ blanks))))
    {text : Text} {fewer : Nat} (enough : (text ++ blanks).length ≤ bound + 1)
    (fits : text.length ≤ fewer) :
    Agree blanks (read fewer text) (read (bound + 1) (text ++ blanks)) := by
  cases text with
  | nil =>
    refine .inr ⟨?_, reader.blanks blank enough⟩
    rw [reader.nothing]
  | cons c rest =>
    obtain ⟨fewer, rfl⟩ : ∃ less, fewer = less + 1 :=
      Nat.exists_eq_add_one_of_ne_zero (by rintro rfl; cases fits)
    simp only [List.cons_append, List.length_cons, Nat.add_le_add_iff_right] at enough fits ⊢
    by_cases escapes : c = '\\'
    · subst escapes
      cases rest with
      | nil =>
        refine .inr ⟨by rw [reader.backslash], ?_⟩
        cases blanks with
        | nil => rw [List.nil_append, reader.backslash]
        | cons d others =>
          rw [List.nil_append, reader.escaped]
          exact reader.blanks (fun e member => blank e (List.mem_cons_of_mem d member))
            (Nat.le_of_succ_le enough)
      | cons d rest =>
        rw [List.cons_append, reader.escaped, reader.escaped]
        exact (agree (Nat.le_of_succ_le enough) (Nat.le_of_succ_le fits)).front ['\\', d]
    · by_cases opens : c = '<'
      · subst opens
        rw [reader.opened, reader.opened, passes.tag enough fits]
        cases found : tag? fewer rest with
        | none => exact (agree enough fits).front ['<']
        | some tag =>
          have shorter := tag?_length found
          have less : (tag.2 ++ blanks).length ≤ bound := by
            rw [List.length_append] at enough ⊢
            omega
          exact (agree less (by omega)).front tag.1.print
      · exact other escapes opens enough fits

/-- A body that is read with one step more. -/
theorem body_passes {text : Text} {fewer : Nat} (enough : (text ++ blanks).length ≤ bound + 1)
    (fits : text.length ≤ fewer) :
    Agree blanks (body fewer text) (body (bound + 1) (text ++ blanks)) := by
  refine isReader_body.step blank passes passes.body ?_ enough fits
  intro c rest fewer backslash opens enough fits
  rw [body_unescaped fun escapes => absurd escapes backslash,
    body_unescaped fun escapes => absurd escapes backslash, if_neg opens, if_neg opens]
  by_cases closes : c = '>'
  · left
    simp [closes]
  · simp only [if_neg closes]
    exact (passes.body enough fits).front [c]

omit blank passes in
/-- There is no argument part if no closing bracket follows the argument. -/
theorem unclosed {rest inner tail : Text} (read : argument bound rest = (inner, tail))
    (ends : ∀ c ∈ tail.head?, c ≠ ']') :
    argumentPart bound ('[' :: rest) = (none, '[' :: rest) := by
  rw [argumentPart, read]
  split
  · next closed =>
    obtain ⟨-, rfl⟩ := Prod.mk.inj closed
    exact absurd rfl (ends ']' rfl)
  · rfl

/-- Blanks behind a text are left behind its argument part. -/
theorem argumentPart_passes {text : Text} {fewer : Nat}
    (enough : (text ++ blanks).length ≤ bound + 1) (fits : text.length ≤ fewer + 1) :
    argumentPart bound (text ++ blanks) =
      ((argumentPart fewer text).1, (argumentPart fewer text).2 ++ blanks) := by
  have other {c : Char} (bound : Nat) (rest : Text) (different : c ≠ '[') :
      argumentPart bound (c :: rest) = (none, c :: rest) := by
    unfold argumentPart
    split
    · next opens => exact absurd (List.cons.inj opens).1 different
    · rfl
  cases text with
  | nil =>
    cases blanks with
    | nil => rfl
    | cons c others =>
      exact other bound others (isBlank_ne (blank c List.mem_cons_self) (by decide))
  | cons c rest =>
    by_cases opens : c = '['
    · subst opens
      have agree := passes.argument (Nat.le_of_succ_le_succ enough) (Nat.le_of_succ_le_succ fits)
      rw [List.cons_append]
      rcases found : argument fewer rest with ⟨inner, tail⟩
      rcases further : argument bound (rest ++ blanks) with ⟨inner', tail'⟩
      rw [found, further] at agree
      rcases agree with same | ⟨ended, ended'⟩
      · obtain ⟨rfl, rfl⟩ := Prod.mk.inj same
        cases tail with
        | nil =>
          have ends : ∀ c ∈ blanks.head?, c ≠ ']' := fun c leads =>
            isBlank_ne (blank c (List.mem_of_mem_head? leads)) (by decide)
          rw [unclosed found (by simp), unclosed further (by simpa using ends)]
          rfl
        | cons d after =>
          by_cases closes : d = ']'
          · subst closes
            simp only [argumentPart, found, further, List.cons_append]
          · rw [unclosed found (by simpa using closes), unclosed further (by simpa using closes)]
            rfl
      · dsimp only at ended ended'
        subst ended ended'
        rw [unclosed found (by simp), unclosed further (by simp)]
        rfl
    · rw [List.cons_append, other bound _ opens, other fewer _ opens]
      rfl

/-- An argument that is read with one step more. A group of brackets that is not closed in the text
is not closed by the blanks either. -/
theorem argument_passes {text : Text} {fewer : Nat} (enough : (text ++ blanks).length ≤ bound + 1)
    (fits : text.length ≤ fewer) :
    Agree blanks (argument fewer text) (argument (bound + 1) (text ++ blanks)) := by
  refine isReader_argument.step blank passes passes.argument ?_ enough fits
  intro c rest fewer backslash opens enough fits
  by_cases groups : c = '['
  · subst groups
    have part : argumentPart bound ('[' :: rest ++ blanks) = _ :=
      argumentPart_passes blank passes (Nat.succ_le_succ enough) (Nat.succ_le_succ fits)
    have whole := argumentPart_keeps (keeps fewer) ('[' :: rest)
    rw [argument_group, argument_group, ← List.cons_append, part]
    rcases read : argumentPart fewer ('[' :: rest) with ⟨_ | inner, after⟩
    · exact .inl rfl
    · have shorter := congrArg List.length whole
      simp only [read, printArgument, List.length_append, List.length_cons] at shorter
      have less : (after ++ blanks).length ≤ bound := by
        rw [List.length_append] at enough ⊢
        omega
      have agree : Agree blanks (argument fewer after) _ := passes.argument less (by omega)
      simpa using agree.front ('[' :: inner ++ [']'])
  · rw [argument_unescaped fun escapes => absurd escapes backslash,
      argument_unescaped fun escapes => absurd escapes backslash, if_neg opens, if_neg opens]
    by_cases closes : c = ']'
    · left
      simp [closes]
    · simp only [if_neg closes, if_neg groups]
      exact (passes.argument enough fits).front [c]

/-- Blanks behind a text are left behind its body part, or else nothing is left that could close the
tag. -/
theorem bodyPart_passes {text : Text} {fewer : Nat}
    (enough : (text ++ blanks).length ≤ bound + 1) (fits : text.length ≤ fewer + 1) :
    bodyPart bound (text ++ blanks) =
        ((bodyPart fewer text).1, (bodyPart fewer text).2 ++ blanks) ∨
      (bodyPart fewer text).2 = [] ∧ (bodyPart bound (text ++ blanks)).2 = [] := by
  have other {c : Char} (bound : Nat) (rest : Text) (different : c ≠ ':') :
      bodyPart bound (c :: rest) = (none, c :: rest) := by
    unfold bodyPart
    split
    · next begins => exact absurd (List.cons.inj begins).1 different
    · rfl
  cases text with
  | nil =>
    cases blanks with
    | nil => exact .inl rfl
    | cons c others =>
      exact .inl (other bound others (isBlank_ne (blank c List.mem_cons_self) (by decide)))
  | cons c rest =>
    by_cases begins : c = ':'
    · subst begins
      rcases passes.body (Nat.le_of_succ_le_succ enough) (Nat.le_of_succ_le_succ fits) with
        same | ended
      · left
        rw [List.cons_append, bodyPart, bodyPart, same]
      · exact .inr ended
    · left
      rw [List.cons_append, other bound _ begins, other fewer _ begins]
      rfl

/-- A tag that is read with one step more. -/
theorem tag_passes {text : Text} {fewer : Nat} (enough : (text ++ blanks).length ≤ bound + 1)
    (fits : text.length ≤ fewer) :
    tag? (bound + 1) (text ++ blanks) =
      (tag? fewer text).map fun read => (read.1, read.2 ++ blanks) := by
  cases text with
  | nil =>
    have nothing : tag? fewer [] = none := by cases fewer <;> rfl
    rw [nothing]
    cases blanks with
    | nil => rfl
    | cons c others =>
      have starts : startsTagName c = false := by
        have continues := isBlank_unnamed (blank c List.mem_cons_self)
        rw [continuesTagName, Char.isAlphanum, Bool.or_eq_false_iff, Bool.or_eq_false_iff]
          at continues
        exact continues.1.1
      rw [List.nil_append, tag?_cons, starts]
      rfl
  | cons c rest =>
    obtain ⟨fewer, rfl⟩ : ∃ less, fewer = less + 1 :=
      Nat.exists_eq_add_one_of_ne_zero (by rintro rfl; cases fits)
    simp only [List.cons_append, List.length_cons, Nat.add_le_add_iff_right] at enough fits ⊢
    have named := takeWhile_blanks blank rest
    have behind := dropWhile_blanks blank rest
    have shorter : (rest.dropWhile continuesTagName).length ≤ rest.length :=
      (List.dropWhile_suffix _).length_le
    have within : (rest.dropWhile continuesTagName ++ blanks).length ≤ bound := by
      rw [List.length_append] at enough ⊢
      omega
    have left := argumentPart_passes blank passes (Nat.le_succ_of_le within)
      (Nat.le_succ_of_le (Nat.le_trans shorter fits))
    have whole := congrArg List.length
      (argumentPart_keeps (keeps fewer) (rest.dropWhile continuesTagName))
    rw [tag?_cons, tag?_cons, named, behind, left]
    generalize argumentPart fewer (rest.dropWhile continuesTagName) = part at whole
    obtain ⟨argument, tail⟩ := part
    simp only [List.length_append] at whole within
    have closing : bodyPart bound (tail ++ blanks) =
          ((bodyPart fewer tail).1, (bodyPart fewer tail).2 ++ blanks) ∨
        (bodyPart fewer tail).2 = [] ∧ (bodyPart bound (tail ++ blanks)).2 = [] :=
      bodyPart_passes blank passes (by rw [List.length_append]; omega) (by omega)
    split
    · dsimp only
      rcases closing with same | ⟨ended, ended'⟩
      · rw [same]
        exact closeTag_blanks blank _ _ _ _
      · rw [ended, ended']
        rfl
    · rfl

end Steps

/-- With enough steps, blanks behind a text are not looked at by the readers. -/
theorem passes {blanks : Text} (blank : ∀ c ∈ blanks, isBlank c = true) (bound : Nat) :
    Passes blanks bound := by
  induction bound with
  | zero =>
    have nothing {text : Text} (enough : (text ++ blanks).length ≤ 0) : text = [] ∧ blanks = [] :=
      List.append_eq_nil_iff.1 (List.eq_nil_of_length_eq_zero (Nat.le_zero.1 enough))
    constructor
    · intro text fewer enough _
      obtain ⟨rfl, rfl⟩ := nothing enough
      cases fewer <;> rfl
    · intro text fewer enough _
      obtain ⟨rfl, rfl⟩ := nothing enough
      cases fewer <;> exact .inl rfl
    · intro text fewer enough _
      obtain ⟨rfl, rfl⟩ := nothing enough
      cases fewer <;> exact .inl rfl
  | succ bound inductionHypothesis =>
    exact ⟨tag_passes blank inductionHypothesis, body_passes blank inductionHypothesis,
      argument_passes blank inductionHypothesis⟩

section Collected

variable {α : Type} (char : Char → List α) (tag : Directive → List α)

/-- What the literal characters and the tags of a template come to, one after the other. -/
def collect (template : Template) : List α :=
  template.flatMap fun node =>
    match node with
    | .literal content => content.flatMap char
    | .directive directive => tag directive

/-- A literal character in front comes first. -/
theorem collect_consChar (c : Char) (template : Template) :
    collect char tag (consChar c template) = char c ++ collect char tag template := by
  unfold consChar
  split <;> simp [collect]

/-- A literal in front comes first. -/
theorem collect_literal (content : Text) (template : Template) :
    collect char tag (.literal content :: template) =
      content.flatMap char ++ collect char tag template := rfl

/-- A tag in front comes first. -/
theorem collect_directive (directive : Directive) (template : Template) :
    collect char tag (.directive directive :: template) =
      tag directive ++ collect char tag template := rfl

/-- A backslash that ends a text is literal. -/
theorem collect_backslash (bound : Nat) :
    collect char tag (piecesWithin (bound + 1) ['\\']) = char '\\' := by
  have nothing : piecesWithin bound [] = [] := by cases bound <;> rfl
  rw [piecesWithin_unescaped fun _ => rfl, if_neg (by decide), nothing]
  simp [collect, consChar]

variable {blanks : Text} (blank : ∀ c ∈ blanks, isBlank c = true)

include blank

/-- Blanks alone are literal. -/
theorem collect_blanks {bound : Nat} (enough : blanks.length ≤ bound) :
    collect char tag (piecesWithin bound blanks) = blanks.flatMap char := by
  induction blanks generalizing bound with
  | nil => cases bound <;> rfl
  | cons c others inductionHypothesis =>
    obtain ⟨bound, rfl⟩ : ∃ less, bound = less + 1 :=
      Nat.exists_eq_add_one_of_ne_zero (by rintro rfl; cases enough)
    have rest := inductionHypothesis (fun d member => blank d (List.mem_cons_of_mem c member))
      (Nat.le_of_succ_le_succ enough)
    rw [piecesWithin_plain (isBlank_plain (blank c List.mem_cons_self)), collect_consChar, rest,
      List.flatMap_cons]

/-- Blanks behind a text are behind its pieces. A backslash that ends the text escapes the first of
them, and that makes no difference. -/
theorem collect_append {bound fewer : Nat} {text : Text}
    (enough : (text ++ blanks).length ≤ bound) (fits : text.length ≤ fewer) :
    collect char tag (piecesWithin bound (text ++ blanks)) =
      collect char tag (piecesWithin fewer text) ++ blanks.flatMap char := by
  induction bound generalizing fewer text with
  | zero =>
    obtain ⟨rfl, rfl⟩ :=
      List.append_eq_nil_iff.1 (List.eq_nil_of_length_eq_zero (Nat.le_zero.1 enough))
    cases fewer <;> rfl
  | succ bound inductionHypothesis =>
    cases text with
    | nil =>
      have nothing : piecesWithin fewer [] = [] := by cases fewer <;> rfl
      rw [nothing]
      exact collect_blanks char tag blank enough
    | cons c rest =>
      obtain ⟨fewer, rfl⟩ : ∃ less, fewer = less + 1 :=
        Nat.exists_eq_add_one_of_ne_zero (by rintro rfl; cases fits)
      simp only [List.cons_append, List.length_cons, Nat.add_le_add_iff_right] at enough fits ⊢
      by_cases backslash : c = '\\'
      · subst backslash
        cases rest with
        | nil =>
          rw [collect_backslash]
          cases blanks with
          | nil => rw [List.nil_append, collect_backslash, List.flatMap_nil, List.append_nil]
          | cons d others =>
            have behind : ∀ e ∈ others, isBlank e = true := fun e member =>
              blank e (List.mem_cons_of_mem d member)
            rw [List.nil_append, piecesWithin_escaped, collect_consChar, collect_consChar,
              collect_blanks char tag behind (Nat.le_of_succ_le enough), List.flatMap_cons]
        | cons d rest =>
          rw [List.cons_append, piecesWithin_escaped, piecesWithin_escaped]
          simp only [collect_consChar, List.append_assoc]
          rw [inductionHypothesis (Nat.le_of_succ_le enough) (Nat.le_of_succ_le fits)]
      · rw [piecesWithin_unescaped fun escapes => absurd escapes backslash,
          piecesWithin_unescaped fun escapes => absurd escapes backslash]
        have literal := inductionHypothesis enough fits
        by_cases opens : c = '<'
        · rw [if_pos opens, if_pos opens, (passes blank bound).tag enough fits]
          cases read : tag? fewer rest with
          | none =>
            rw [Option.map_none]
            dsimp only
            rw [collect_consChar, collect_consChar, literal, List.append_assoc]
          | some found =>
            have shorter := tag?_length read
            have less : (found.2 ++ blanks).length ≤ bound := by
              rw [List.length_append] at enough ⊢
              omega
            have behind := inductionHypothesis less (show found.2.length ≤ fewer by omega)
            rw [Option.map_some]
            dsimp only
            rw [collect_directive, collect_directive, behind, List.append_assoc]
        · rw [if_neg opens, if_neg opens]
          dsimp only
          rw [collect_consChar, collect_consChar, literal, List.append_assoc]

/-- Blanks in front of a text are in front of its pieces. -/
theorem collect_prepend (text : Text) :
    collect char tag (ofText (blanks ++ text)) =
      blanks.flatMap char ++ collect char tag (ofText text) := by
  induction blanks with
  | nil => rfl
  | cons c others inductionHypothesis =>
    have plain := isBlank_plain (blank c List.mem_cons_self)
    have rest := inductionHypothesis fun d member => blank d (List.mem_cons_of_mem c member)
    rw [List.cons_append, ofText, List.length_cons, piecesWithin_plain plain, collect_consChar,
      List.flatMap_cons, List.append_assoc, ← rest, ofText]

omit blank

/-- Trimming a text takes nothing away from its tags, only blanks from around them. -/
theorem collect_trim (text : Text) :
    ∃ front back : Text, collect char tag (ofText text) =
      front.flatMap char ++ collect char tag (ofText (Text.trim text)) ++ back.flatMap char := by
  obtain ⟨front, started, fronts⟩ := Text.exists_trimStart text
  obtain ⟨back, ended, backs⟩ := Text.exists_trimEnd (Text.trimStart text)
  rw [List.all_eq_true] at fronts backs
  have behind : collect char tag (ofText (Text.trim text ++ back)) =
      collect char tag (ofText (Text.trim text)) ++ back.flatMap char :=
    collect_append char tag backs (Nat.le_refl _) (Nat.le_refl _)
  refine ⟨front, back, ?_⟩
  rw [List.append_assoc, ← behind, Text.trim, ← ended, ← collect_prepend char tag fronts,
    ← started]

end Collected

/-- A trimmed text has the same tags. -/
theorem directives_trim (text : Text) :
    (ofText (Text.trim text)).directives = (ofText text).directives := by
  have nothing (content : Text) : content.flatMap (fun _ => ([] : List Directive)) = [] :=
    List.flatMap_eq_nil_iff.2 fun _ _ => rfl
  have directives (template : Template) :
      collect (fun _ => []) (fun directive => [directive]) template = template.directives := by
    induction template with
    | nil => rfl
    | cons node rest inductionHypothesis =>
      cases node with
      | literal content =>
        rw [collect_literal, nothing]
        exact inductionHypothesis
      | directive directive => exact congrArg (directive :: ·) inductionHypothesis
  obtain ⟨front, back, whole⟩ :=
    collect_trim (fun _ => []) (fun directive => [directive]) text
  rw [directives, directives, nothing, nothing, List.nil_append, List.append_nil] at whole
  exact whole.symm

end Template

end DynamicPrompt
