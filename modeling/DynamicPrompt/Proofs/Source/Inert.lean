import DynamicPrompt.Proofs.Source.Enclosure
import DynamicPrompt.Proofs.Template.Part
import DynamicPrompt.Proofs.Work

/-!
# Texts without commands, variables and references

A text is inert if neither a command nor a variable nor a reference can begin in it: it has no dollar
sign and no two underscores in a row, and every angle bracket in it begins one of the tags that
rewriting brings in. The passes over references, variables and block commands leave such a text alone,
and the others take it apart and put it together at characters that neither separate a bracket from
its tag nor bring two underscores together. So rewriting makes inert texts of inert texts, with any
number of levels left.

Whether a character may stand where it does depends on the next one. What a pass makes of the rest of
a line is therefore compared with that rest behind any beginning.
-/

namespace DynamicPrompt

namespace Source

/-- The first letters of the tags that rewriting brings in. -/
def tagInitials : Text := "acfmrsvw"

/-- Whether a character may stand before the next one, or at the end of a text. -/
def Precedes (c : Char) (next : Option Char) : Prop :=
  c ≠ '$' ∧ (c = '<' → next.any (tagInitials.contains ·) = true) ∧ (c = '_' → next ≠ some '_')

instance (c : Char) (next : Option Char) : Decidable (Precedes c next) :=
  inferInstanceAs (Decidable (_ ∧ _ ∧ _))

/-- A text in which nothing begins but the tags that rewriting brings in. -/
def Inert : Text → Prop
  | [] => True
  | c :: rest => Precedes c rest.head? ∧ Inert rest

/-- Whether a text is inert can be seen from each character and the next one. -/
def decideInert : (text : Text) → Decidable (Inert text)
  | [] => isTrue trivial
  | _ :: rest => @instDecidableAnd _ _ _ (decideInert rest)

instance : DecidablePred Inert := decideInert

/-- The characters that matter for what stands beside them. -/
def inertMarks : Text := "$<_" ++ tagInitials

@[simp] theorem inert_nil : Inert [] := trivial

/-- A character that does not matter may stand anywhere. -/
theorem precedes_neutral {c : Char} (neutral : c ∉ inertMarks) (next : Option Char) :
    Precedes c next := by
  have apart : ∀ mark ∈ "$<_".toList, c ≠ mark := by
    rintro mark among rfl
    exact neutral (List.mem_append_left tagInitials among)
  exact ⟨apart '$' (by decide), fun same => absurd same (apart '<' (by decide)),
    fun same => absurd same (apart '_' (by decide))⟩

/-- Before a character that does not matter may stand what may stand at the end. -/
theorem precedes_before_neutral {c d : Char} (neutral : d ∉ inertMarks) :
    Precedes c (some d) ↔ Precedes c none := by
  have initial : d ∉ tagInitials := fun among => neutral (List.mem_append_right "$<_".toList among)
  have other : d ≠ '_' := by
    rintro rfl
    exact neutral (by decide)
  simp [Precedes, other, initial]

/-- At a character that does not matter a text can be taken apart and put together. -/
theorem inert_around {front back : Text} {c : Char} (neutral : c ∉ inertMarks) :
    Inert (front ++ c :: back) ↔ Inert front ∧ Inert back := by
  induction front with
  | nil => exact and_congr (iff_true_intro (precedes_neutral neutral back.head?)) Iff.rfl
  | cons first front inductionHypothesis =>
    have heads : Precedes first (front ++ c :: back).head? ↔ Precedes first front.head? := by
      cases front with
      | nil => exact precedes_before_neutral neutral
      | cons second front => exact Iff.rfl
    rw [List.cons_append, Inert, Inert, inductionHypothesis, heads, and_assoc]

/-- A character that does not matter before a text. -/
theorem inert_cons {back : Text} {c : Char} (neutral : c ∉ inertMarks) :
    Inert (c :: back) ↔ Inert back := by
  have whole : Inert ([] ++ c :: back) ↔ Inert [] ∧ Inert back := inert_around neutral
  rwa [List.nil_append, and_iff_right inert_nil] at whole

namespace Inert

variable {text front back : Text}

/-- Inert texts one after the other, if the second does not begin with an underscore. -/
theorem append (before : Inert front) (after : Inert back) (apart : back.head? ≠ some '_') :
    Inert (front ++ back) := by
  induction front with
  | nil => exact after
  | cons c front inductionHypothesis =>
    refine ⟨?_, inductionHypothesis before.2⟩
    cases front with
    | cons d front => exact before.1
    | nil =>
      -- Only the last character has a new neighbour, and a bracket cannot be the last.
      obtain ⟨undollared, closed, _⟩ := before.1
      exact ⟨undollared, fun opens => absurd (closed opens) Bool.false_ne_true, fun _ => apart⟩

/-- A text without the characters that matter to what follows them. -/
theorem of_apart (free : ∀ c ∈ text, c ≠ '$' ∧ c ≠ '<') (apart : ¬ ['_', '_'] <:+: text) :
    Inert text := by
  induction text with
  | nil => exact inert_nil
  | cons c rest inductionHypothesis =>
    obtain ⟨undollared, unopened⟩ := free c List.mem_cons_self
    refine ⟨⟨undollared, fun opens => absurd opens unopened, ?_⟩,
      inductionHypothesis (fun d member => free d (.tail c member))
        fun inside => apart (List.infix_cons inside)⟩
    rintro rfl second
    obtain ⟨others, rfl⟩ := List.head?_eq_some_iff.1 second
    exact apart ⟨[], others, rfl⟩

/-- A printed number. -/
theorem of_signs (numeral : text ⊆ Numeral.signs) : Inert text := by
  have harmless : ∀ c ∈ Numeral.signs, (c ≠ '$' ∧ c ≠ '<') ∧ c ≠ '_' := by decide
  refine .of_apart (fun c member => (harmless c (numeral member)).1) fun inside => ?_
  exact (harmless '_' (numeral (inside.subset List.mem_cons_self))).2 rfl

/-- No variable begins in an inert text. -/
theorem undollared (inert : Inert text) : '$' ∉ text := by
  induction text with
  | nil => exact List.not_mem_nil
  | cons c rest inductionHypothesis =>
    rw [List.mem_cons, not_or]
    exact ⟨inert.1.1.symm, inductionHypothesis inert.2⟩

/-- No reference begins in an inert text. -/
theorem apart (inert : Inert text) : ¬ ['_', '_'] <:+: text := by
  induction text with
  | nil => simp
  | cons c rest inductionHypothesis =>
    intro inside
    rcases List.infix_cons_iff.1 inside with begins | later
    · obtain ⟨same, others⟩ := List.cons_prefix_cons.1 begins
      obtain ⟨after, rfl⟩ := others
      exact inert.1.2.2 same.symm rfl
    · exact inductionHypothesis inert.2 later

/-- No command begins in an inert text. -/
theorem quiet (inert : Inert text) : Quiet text := by
  induction text with
  | nil => exact .nil
  | cons c rest inductionHypothesis =>
    have others := inductionHypothesis inert.2
    by_cases opens : c = '<'
    · subst opens
      -- The tags that rewriting brings in begin with other letters than commands.
      have initial := inert.1.2.1 rfl
      cases rest with
      | nil => exact absurd initial Bool.false_ne_true
      | cons d rest =>
        have letters : ∀ letter ∈ tagInitials, sameLetter 'p' letter = false := by decide
        have known : d ∈ tagInitials := by simpa using initial
        exact .opening (letters d known) others
    · exact .plain opens others

/-- The parts of an inert text between separators that do not matter are inert. -/
theorem splitTopLevelFrom {mark : Char} (neutral : mark ∉ inertMarks) {brackets : Brackets}
    {escaped : Bool} (inert : Inert text) :
    ∀ part ∈ DynamicPrompt.splitTopLevelFrom [mark] brackets escaped text, Inert part := by
  fun_induction DynamicPrompt.splitTopLevelFrom [mark] brackets escaped text with
  | case1 escaped text missed => exact List.forall_mem_singleton.2 inert
  | case2 escaped text before after cut inductionHypothesis =>
    have whole := cutTopLevelFrom?_append (List.cons_ne_nil mark []) cut
    rw [← whole, List.append_assoc, List.singleton_append, inert_around neutral] at inert
    exact List.forall_mem_cons.2 ⟨inert.1, inductionHypothesis inert.2⟩

/-- Inert texts with a separator that does not matter between them are inert. -/
theorem join {mark : Char} {separator : Text} {parts : List Text} (neutral : mark ∉ inertMarks)
    (others : ∀ c ∈ separator, c ∉ inertMarks) (each : ∀ part ∈ parts, Inert part) :
    Inert (Text.join (mark :: separator) parts) := by
  have after : ∀ {back : Text}, Inert back → Inert (separator ++ back) := by
    intro back inert
    induction separator with
    | nil => exact inert
    | cons c separator inductionHypothesis =>
      exact (inert_cons (others c List.mem_cons_self)).2
        (inductionHypothesis fun d member => others d (.tail c member))
  apply Text.join_of_step inert_nil _ each
  intro first rest front back
  rw [List.append_assoc, List.cons_append]
  exact (inert_around neutral).2 ⟨front, after back⟩

/-- What stands for an inert text. -/
theorem orEmpty (inert : Inert text) : Inert (Source.orEmpty text) := by
  rw [Source.orEmpty]
  split
  · decide
  · exact inert

end Inert

/-- A text that may be put between any inert texts. -/
def Insertable (text : Text) : Prop :=
  ∀ front back, Inert front → Inert back → Inert (front ++ (text ++ back))

/-- An inert text may be, if it does not begin with an underscore and ends with a character that does
not matter. -/
theorem Inert.insertable {text : Text} {first last : Char} (inert : Inert (first :: text))
    (other : first ≠ '_') (neutral : last ∉ inertMarks) :
    Insertable (first :: (text ++ [last])) := by
  intro front back before after
  have whole : Inert (first :: text ++ last :: back) := (inert_around neutral).2 ⟨inert, after⟩
  rw [List.cons_append, List.append_assoc, List.singleton_append]
  exact before.append whole fun same => other (Option.some.inj same)

/-- A tag of an inert content may be. -/
theorem insertable_tag {name content : Text} {mark : Char} (named : Inert ('<' :: name))
    (neutral : mark ∉ inertMarks) (inside : Inert content) :
    Insertable ('<' :: ((name ++ mark :: content) ++ ['>'])) := by
  have whole : Inert ('<' :: name ++ mark :: content) := (inert_around neutral).2 ⟨named, inside⟩
  exact whole.insertable (by decide) (by decide)

/-- A printed tag with a body alone may be. -/
theorem insertable_bodied {name body : Text} (named : Inert ('<' :: name)) (inside : Inert body) :
    Insertable (Directive.print ⟨name, none, some body⟩) := by
  rw [Template.print_bodied]
  exact insertable_tag named (by decide) inside

/-- A printed tag with an argument and a body may be. -/
theorem insertable_full {name argument body : Text} (named : Inert ('<' :: name))
    (given : Inert argument) (inside : Inert body) :
    Insertable (Directive.print ⟨name, some argument, some body⟩) := by
  rw [Template.print_full]
  refine insertable_tag named (by decide) ?_
  rw [inert_around (by decide), inert_cons (by decide)]
  exact ⟨given, inside⟩

namespace Insertable

variable {text front back : Text}

/-- It is inert itself. -/
theorem inert (insertable : Insertable text) : Inert text := by
  have alone := insertable [] [] inert_nil inert_nil
  rwa [List.nil_append, List.append_nil] at alone

/-- One such text may follow another. -/
theorem append (first : Insertable front) (second : Insertable back) :
    Insertable (front ++ back) := by
  intro before after inert inert'
  have rest : Inert ([] ++ (back ++ after)) := second [] after inert_nil inert'
  rw [List.append_assoc]
  exact first before (back ++ after) inert rest

end Insertable

/-- The mark of the empty text may be. -/
theorem insertable_emptyMark : Insertable emptyMark := by
  have named : Inert ('<' :: "comment".toList) := by decide
  have inside : Inert "empty" := by decide
  exact insertable_tag named (show ':' ∉ inertMarks by decide) inside

/-- A text becomes another one, and behind any beginning with which the one is inert so is the
other. -/
def Becomes (text result : Text) : Prop := ∀ front, Inert (front ++ text) → Inert (front ++ result)

namespace Becomes

variable {rest result : Text}

/-- A character that is kept belongs to the beginning of what follows it. -/
theorem cons (c : Char) (others : Becomes rest result) : Becomes (c :: rest) (c :: result) := by
  intro front inert
  have whole := others (front ++ [c])
  simp only [List.append_assoc, List.singleton_append] at whole
  exact whole inert

/-- Something between characters that do not matter is replaced. -/
theorem replace {inner text : Text} {opener closer : Char}
    (neutral : opener ∉ inertMarks ∧ closer ∉ inertMarks) (insertable : Insertable text)
    (others : Becomes rest result) :
    Becomes (opener :: (inner ++ closer :: rest)) (text ++ result) := by
  intro front inert
  rw [inert_around neutral.1, inert_around neutral.2] at inert
  exact insertable front result inert.1 (others [] inert.2.2)

/-- An inert text becomes an inert one. -/
theorem inert {text : Text} (becomes : Becomes text result) (inert : Inert text) : Inert result :=
  becomes [] inert

end Becomes

/-- Replacing what is enclosed in an inert text, wherever it begins.

The induction is on the pieces of the line; the characters that are kept go to the beginning. -/
theorem enclosures_becomes {write : Text → Reporting Text} {opener closer : Char}
    {barred : Option Char} (neutral : opener ∉ inertMarks ∧ closer ∉ inertMarks)
    (each : ∀ inner, Inert inner → Reports Insertable (write inner)) {cursor : Cursor} {text : Text}
    (inert : Inert text) :
    Reports (Becomes text) (writePieces write (enclosures opener closer barred cursor text)) := by
  fun_induction enclosures opener closer barred cursor text with
  | case1 => exact .pure fun front inert => inert
  | case2 cursor c rest opens inner after found inductionHypothesis =>
    obtain ⟨rfl, _⟩ := opens
    obtain rfl := closing?_append found
    have parts := inert
    rw [inert_cons neutral.1, inert_around neutral.2] at parts
    exact (each inner parts.1).bind fun written insertable =>
      (inductionHypothesis parts.2).bind fun others becomes =>
        .pure (.replace neutral insertable becomes)
  | case3 cursor c rest opens missed inductionHypothesis =>
    exact (inductionHypothesis inert.2).bind fun others becomes => .pure (becomes.cons c)
  | case4 cursor c rest passed inductionHypothesis =>
    exact (inductionHypothesis inert.2).bind fun others becomes => .pure (becomes.cons c)

/-- Marking the keywords of a text. -/
theorem markBreaks_becomes (cursor : Cursor) (text : Text) :
    Becomes text (markBreaks cursor text) := by
  fun_induction markBreaks cursor text with
  | case1 => exact fun front inert => inert
  | case2 cursor c rest other inductionHypothesis => exact inductionHypothesis.cons c
  | case3 cursor c rest after begins alone inductionHypothesis =>
    have word : c :: rest = 'B' :: ("REA".toList ++ 'K' :: after) := Text.after?_eq_some_iff.1 begins
    rw [word]
    exact .replace (by decide) insertable_emptyMark inductionHypothesis
  | case4 cursor c rest after begins beside inductionHypothesis => exact inductionHypothesis.cons c

/-- The rewriting of the texts inside constructs makes inert texts of inert texts. -/
def Pass.KeepsInert (pass : Pass) : Prop := ∀ text, Inert text → Reports Inert (pass.nested text)

/-- A text inside a construct stays inert, or is replaced by the mark of the empty text. -/
theorem Pass.KeepsInert.filled {pass : Pass} (keeps : pass.KeepsInert) {text : Text}
    (inert : Inert text) : Reports Inert (pass.filled text) :=
  (keeps text inert).bind fun _ written => .pure written.orEmpty

namespace Bracketed

/-- A text with lowered attention may be put between any others. -/
theorem insertable_lowered {text : Text} (inert : Inert text) : Insertable (lowered text) := by
  obtain ⟨content, weight, same, numeral, part⟩ := lowered_eq text
  have kept : Inert content := by
    rcases part with rfl | ⟨rest, rfl, _⟩
    · exact inert
    · rw [inert_cons (by decide), inert_around (by decide)] at inert
      exact inert.1
  have inside : Inert ('(' :: (content ++ ':' :: weight)) := by
    rw [inert_cons (by decide), inert_around (by decide)]
    exact ⟨kept, .of_signs numeral⟩
  have whole := inside.insertable (by decide) (show ')' ∉ inertMarks by decide)
  simp only [List.append_assoc, List.cons_append] at whole
  rw [same]
  exact whole

variable {pass : Pass} (keeps : pass.KeepsInert)

include keeps

/-- What square brackets in an inert text become may be put between any others. -/
theorem write_insertable (content : Text) (inert : Inert content) :
    Reports Insertable (write pass content) := by
  have said : (ofText content).Consists Inert :=
    consists_ofText inert (inert.splitTopLevelFrom (by decide))
      (inert.splitTopLevelFrom (by decide))
  unfold write
  split
  · next first second step edits =>
    rw [edits] at said
    refine (keeps.filled said.1).bind fun first front => (keeps.filled said.2.1).bind
      fun second back => (keeps.filled said.2.2).bind fun step last => .pure ?_
    have opening : "<fromto[".toList = '<' :: ("fromto".toList ++ ['[']) := rfl
    have asking : "]:".toList = [']', ':'] := rfl
    have between : "||".toList = ['|', '|'] := rfl
    have closing : ">".toList = ['>'] := rfl
    have named : Inert ('<' :: "fromto".toList) := by decide
    have inside : Inert (step ++ ']' :: ':' :: (first ++ '|' :: '|' :: second)) := by
      rw [inert_around (by decide), inert_cons (by decide), inert_around (by decide),
        inert_cons (by decide)]
      exact ⟨last, front, back⟩
    have whole := insertable_tag named (show '[' ∉ inertMarks by decide) inside
    simp only [opening, asking, between, closing, List.append_assoc, List.cons_append,
      List.nil_append] at whole ⊢
    exact whole
  · next options alternates =>
    rw [alternates] at said
    refine (Reports.mapM fun option member => keeps.filled (said option member)).bind
      fun written each => .pure ?_
    have opening : "<alternate:".toList = '<' :: ("alternate".toList ++ [':']) := rfl
    have closing : ">".toList = ['>'] := rfl
    have joined : Inert (Text.join "||" written) :=
      .join (show '|' ∉ inertMarks by decide) (show ∀ c ∈ ['|'], c ∉ inertMarks by decide) each
    have named : Inert ('<' :: "alternate".toList) := by decide
    have whole := insertable_tag named (show ':' ∉ inertMarks by decide) joined
    simp only [opening, closing, List.append_assoc, List.cons_append, List.nil_append] at whole ⊢
    exact whole
  · next content lowers =>
    rw [lowers] at said
    exact (keeps content said).bind fun written inert => .pure (insertable_lowered inert)

/-- An inert text with its square brackets rewritten is inert. -/
theorem rewrite_inert {text : Text} (inert : Inert text) : Reports Inert (rewrite pass text) :=
  (enclosures_becomes (by decide) (write_insertable keeps) inert).mono
    fun _ becomes => becomes.inert inert

end Bracketed

namespace Variant

variable {pass : Pass} (keeps : pass.KeepsInert)

include keeps

/-- What a variant in an inert text becomes may be put between any others. There is no head, which
would need dollar signs. -/
theorem write_insertable (content : Text) (inert : Inert content) :
    Reports Insertable (write pass content) := by
  have options : ∀ option ∈ splitTopLevel "|" Brackets.tagsAndBraces content, Inert option :=
    inert.splitTopLevelFrom (by decide)
  rw [write_of_absent pass inert.undollared]
  refine (Reports.mapM fun option member => keeps.filled (options option member)).bind
    fun written each => .pure ?_
  have joined : Inert (Text.join "|" written) :=
    .join (show '|' ∉ inertMarks by decide) (List.forall_mem_nil _) each
  have named : Inert ('<' :: "random".toList) := by decide
  exact insertable_tag named (by decide) joined

/-- An inert text with its variants rewritten is inert. -/
theorem rewrite_inert {text : Text} (inert : Inert text) : Reports Inert (rewrite pass text) :=
  (enclosures_becomes (by decide) (write_insertable keeps) inert).mono
    fun _ becomes => becomes.inert inert

end Variant

end Source

namespace Transpiler

open Source

/-- Nothing in an inert text is for the passes up to that over block commands. -/
theorem passes_of_inert (pass : Pass) {text : Text} (inert : Inert text) :
    passes pass text = afterBlocks pass text := by
  rw [passes, Reference.rewrite_of_apart pass inert.apart, pure_bind,
    VariableUse.rewrite_of_absent pass inert.undollared, pure_bind,
    Block.rewrite_of_absent pass inert.quiet.absent, pure_bind, afterBlocks]

/-- With any number of levels left, an inert text is rewritten to an inert one. -/
theorem rewriteWithin_inert (transpiler : Transpiler) (levels : Nat) {text : Text}
    (inert : Inert text) : Reports Inert (transpiler.rewriteWithin levels text) := by
  induction levels generalizing text with
  | zero => exact (Reports.warn _).bind fun _ _ => .pure inert
  | succ levels inductionHypothesis =>
    have keeps : Pass.KeepsInert ⟨transpiler, transpiler.rewriteWithin levels⟩ :=
      fun _ => inductionHypothesis
    rw [rewriteWithin, passes_of_inert _ inert, afterBlocks]
    refine (Bracketed.rewrite_inert keeps inert).bind fun between inert => ?_
    exact Variant.rewrite_inert keeps ((markBreaks_becomes Cursor.start between).inert inert)

end Transpiler

end DynamicPrompt
