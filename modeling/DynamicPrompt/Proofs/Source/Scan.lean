import DynamicPrompt.Proofs.Source.Complete
import DynamicPrompt.Proofs.Work

/-!
# Scans over complete texts

A pass scans a line and carries along what it has to know about the characters behind it. A part of the
line turns into other texts if the scan, whatever follows the part, first does what the part demands and
then goes on behind it. Parts turn one after the other, so a complete text turns into a text of the next
stage if that holds of single characters, of tags, of what constructs of later passes stand between, and
of the constructs of the pass itself.

Two underscores in a row are read as one, so a part that ends with an underscore turns only before
something else.
-/

namespace DynamicPrompt.Source

/-- A pass that carries a state along the line. Constructs may begin in the states that are ready. -/
structure Scan where
  State : Type
  Ready : State → Prop
  run : State → Text → Reporting Text

/-- Anything. -/
def Anything (_ : Text) : Prop := True

namespace Scan

/-- Before such rests the scan does the work for the text and goes on behind it. -/
def Does (scan : Scan) (before : Text → Prop) (text : Text) (work : Reporting Text) : Prop :=
  ∀ state, scan.Ready state → ∃ state', scan.Ready state' ∧ ∀ rest, before rest →
    scan.run state (text ++ rest) = do
      let first ← work
      let others ← scan.run state' rest
      return first ++ others

/-- Before such rests the text turns into a text with the property. -/
def Turns (scan : Scan) (before : Text → Prop) (text : Text) (holds : Text → Prop) : Prop :=
  ∃ work, scan.Does before text work ∧ Reports holds work

/-- Some text with the one property and then one with the other. -/
def Then (first second : Text → Prop) (text : Text) : Prop :=
  ∃ front back, text = front ++ back ∧ first front ∧ second back

namespace Turns

variable {scan : Scan} {before after : Text → Prop} {text : Text} {holds holds' : Text → Prop}

/-- A weaker property. -/
theorem mono {weaker : Text → Prop} (turns : scan.Turns before text holds)
    (implies : ∀ result, holds result → weaker result) : scan.Turns before text weaker := by
  obtain ⟨work, does, reports⟩ := turns
  exact ⟨work, does, reports.mono implies⟩

/-- Fewer rests. -/
theorem before_mono (turns : scan.Turns before text holds) (fewer : ∀ rest, after rest → before rest) :
    scan.Turns after text holds := by
  obtain ⟨work, does, reports⟩ := turns
  refine ⟨work, fun state ready => ?_, reports⟩
  obtain ⟨state', ready', runs⟩ := does state ready
  exact ⟨state', ready', fun rest follows => runs rest (fewer rest follows)⟩

/-- Nothing turns into nothing. -/
theorem nil : scan.Turns before [] (· = []) := by
  refine ⟨pure [], fun state ready => ⟨state, ready, fun rest _ => ?_⟩, .pure rfl⟩
  simp

/-- A text that is kept, state by state. -/
theorem kept (keeps : ∀ state, scan.Ready state → ∃ state', scan.Ready state' ∧ ∀ rest, before rest →
    scan.run state (text ++ rest) = (text ++ ·) <$> scan.run state' rest) :
    scan.Turns before text (· = text) := by
  refine ⟨pure text, fun state ready => ?_, .pure rfl⟩
  obtain ⟨state', ready', runs⟩ := keeps state ready
  refine ⟨state', ready', fun rest follows => ?_⟩
  rw [runs rest follows, pure_bind, map_eq_pure_bind]

/-- Texts turn one after the other. -/
theorem append {rest : Text} (first : scan.Turns before text holds)
    (second : scan.Turns after rest holds') (joins : ∀ more, after more → before (rest ++ more)) :
    scan.Turns after (text ++ rest) (Then holds holds') := by
  obtain ⟨work, does, reports⟩ := first
  obtain ⟨work', does', reports'⟩ := second
  refine ⟨do
    let front ← work
    let back ← work'
    return front ++ back, fun state ready => ?_, ?_⟩
  · obtain ⟨between, ready', runs⟩ := does state ready
    obtain ⟨state', ready'', runs'⟩ := does' between ready'
    refine ⟨state', ready'', fun more follows => ?_⟩
    rw [List.append_assoc, runs _ (joins more follows), runs' more follows]
    simp only [bind_assoc, pure_bind, List.append_assoc]
  · refine reports.bind fun front known => reports'.bind fun back known' => .pure ?_
    exact ⟨front, back, rfl, known, known'⟩

/-- Texts that turn before anything turn one after the other. -/
theorem append_any {rest : Text} (first : scan.Turns Anything text holds)
    (second : scan.Turns after rest holds') : scan.Turns after (text ++ rest) (Then holds holds') :=
  first.append second fun _ _ => trivial

/-- What the scan makes of a whole line. -/
theorem reports (turns : scan.Turns before text holds) {state : scan.State}
    (ready : scan.Ready state) (ends : ∀ state, scan.run state [] = pure []) (last : before []) :
    Reports holds (scan.run state text) := by
  obtain ⟨work, does, reports⟩ := turns
  obtain ⟨state', _, runs⟩ := does state ready
  have whole := runs [] last
  rw [List.append_nil, ends] at whole
  rw [whole]
  refine reports.bind fun first known => ?_
  rw [pure_bind]
  exact .pure (by rwa [List.append_nil])

/-- Texts turn together with what stands behind each of them. -/
theorem closed {parts closers : List Text} (paired : parts.length = closers.length)
    (each : ∀ part ∈ parts, scan.Turns Apart part holds)
    (apart : ∀ closer ∈ closers, closer ≠ [] ∧ Apart closer)
    (closing : ∀ closer ∈ closers, scan.Turns Anything closer (· = closer)) :
    scan.Turns Anything (Construct.closed parts closers) fun result => ∃ parts',
      result = Construct.closed parts' closers ∧ parts'.length = closers.length ∧
        ∀ part ∈ parts', holds part := by
  induction parts generalizing closers with
  | nil =>
    obtain rfl := List.eq_nil_of_length_eq_zero paired.symm
    exact nil.mono fun _ same => ⟨[], same, rfl, List.forall_mem_nil _⟩
  | cons part parts inductionHypothesis =>
    obtain ⟨closer, closers, rfl⟩ := List.exists_cons_of_length_eq_add_one paired.symm
    rw [List.forall_mem_cons] at each apart closing
    have others := inductionHypothesis (Nat.succ.inj paired) each.2 apart.2 closing.2
    have front := (each.1).append (closing.1.append_any others) fun more _ => by
      rw [List.append_assoc]
      exact apart.1.2.append apart.1.1 _
    refine front.mono ?_
    rintro _ ⟨part', _, rfl, held, _, _, rfl, rfl, parts', rfl, paired', held'⟩
    exact ⟨part' :: parts', rfl, congrArg Nat.succ paired', List.forall_mem_cons.2 ⟨held, held'⟩⟩

end Turns

/-- What the scan of a pass does to the parts of texts of a stage, which the pass takes to the next
one. In the constructs of the pass, constructs are nested no deeper than the given depth. -/
structure Handles (scan : Scan) (stage next levels : Nat) : Prop where
  char {c : Char} (free : c ∉ constructMarks) :
    scan.Turns (fun rest => Unbarred (c :: rest)) [c] (· = [c])
  tag {name content : Text} (harmless : name.head?.map (sameLetter 'p') = some false)
    (free : ∀ c ∈ name, c ∉ constructMarks) (inside : Sealed content) :
    scan.Turns Anything ('<' :: ((name ++ content) ++ ['>']))
      (· = '<' :: ((name ++ content) ++ ['>']))
  opener {construct : Construct} (proper : construct.Proper) (later : next ≤ construct.pass) :
    scan.Turns Anything construct.opener (· = construct.opener)
  closers {construct : Construct} (proper : construct.Proper) (later : next ≤ construct.pass) :
    ∀ closer ∈ construct.closers, scan.Turns Anything closer (· = closer)
  own {construct : Construct} {parts within : List Text} {depth : Nat} (proper : construct.Proper)
    (reached : construct.pass < next) (later : stage ≤ construct.pass)
    (allowed : ∀ keyword ∈ construct.keyword?, keyword ∉ within)
    (paired : parts.length = construct.closers.length)
    (admitted : ∀ part ∈ parts, construct.Admits part)
    (each : ∀ part ∈ parts, Complete stage (construct.keyword?.toList ++ within) depth part)
    (shallow : depth ≤ levels) : scan.Turns Anything (construct.write parts) Emitted

end Scan

/-- A construct of a later pass is kept, and the texts in it turn. -/
theorem Scan.Handles.turns_construct {scan : Scan} {stage next levels : Nat}
    (handles : scan.Handles stage next levels) (onward : 0 < next) {kind : Construct}
    {parts : List Text} {holds : Text → Prop} (proper : kind.Proper) (kept : next ≤ kind.pass)
    (paired : parts.length = kind.closers.length)
    (each : ∀ part ∈ parts, scan.Turns Apart part holds) :
    scan.Turns Anything (kind.write parts) fun result => ∃ parts', result = kind.write parts' ∧
      parts'.length = kind.closers.length ∧ ∀ part ∈ parts', holds part := by
  have positive := Nat.lt_of_lt_of_le onward kept
  have inside := Turns.closed paired each (Construct.apart_closers positive)
    (handles.closers proper kept)
  refine ((handles.opener proper kept).append_any inside).mono ?_
  rintro _ ⟨_, _, rfl, rfl, parts', rfl, paired', held⟩
  exact ⟨parts', rfl, paired', held⟩

/-- A complete text turns into one of the next stage. -/
theorem Complete.turns {scan : Scan} {stage next levels depth : Nat} {within : List Text} {text : Text}
    (handles : scan.Handles stage next levels) (onward : 0 < next)
    (complete : Complete stage within depth text) (shallow : depth ≤ levels + 1) :
    scan.Turns Apart text fun result => Complete next within depth result ∧ Replaces text result := by
  induction complete with
  | nil =>
    refine (Scan.Turns.nil.mono ?_)
    rintro _ rfl
    exact ⟨.nil, fun _ _ begins => begins⟩
  | @char within depth c rest free unbarred _ inductionHypothesis =>
    refine ((handles.char free).append (inductionHypothesis shallow)
      fun more apart => unbarred.before apart).mono ?_
    rintro _ ⟨_, result, rfl, rfl, held, replaces⟩
    refine ⟨.char free (unbarred.replace replaces) held, ?_⟩
    intro word letters begins
    cases word with
    | nil => exact List.nil_prefix
    | cons d word =>
      obtain ⟨rfl, behind⟩ := List.cons_prefix_cons.1 begins
      exact List.cons_prefix_cons.2
        ⟨rfl, replaces word (fun e member => letters (.tail d member)) behind⟩
  | @tag within depth name content rest harmless free inside _ inductionHypothesis =>
    have turns := ((handles.tag harmless free inside).append_any (inductionHypothesis shallow))
    rw [List.cons_append, List.append_assoc, List.singleton_append] at turns
    refine turns.mono ?_
    rintro _ ⟨_, result, rfl, rfl, held, _⟩
    have emitted := Emitted.tag harmless free inside
    exact ⟨emitted.before held, .of_apart (by simp) (emitted.apart.append emitted.filled _)⟩
  | @construct within depth kind parts rest proper later allowed paired admitted each _ passEach
      passRest =>
    have others := passRest shallow
    by_cases reached : kind.pass < next
    · have own := handles.own proper reached later allowed paired admitted each
        (Nat.le_of_succ_le_succ shallow)
      refine (own.append_any others).mono ?_
      rintro _ ⟨emitted, result, rfl, known, held, _⟩
      have filled := List.append_ne_nil_of_left_ne_nil known.filled result
      exact ⟨known.before held, .of_apart filled (known.apart.append known.filled result)⟩
    · have kept := Nat.le_of_not_lt reached
      have positive := Nat.lt_of_lt_of_le onward kept
      have inside := handles.turns_construct onward proper kept paired fun part member =>
        (passEach part member (Nat.le_of_succ_le shallow)).mono fun _ held => held.1
      refine (inside.append_any others).mono ?_
      rintro _ ⟨_, result, rfl, ⟨parts', rfl, paired', held'⟩, held, _⟩
      have apart := Construct.apart_opener positive
      obtain ⟨c, opener, opens, _⟩ := kind.exists_opener
      have filled : kind.opener ≠ [] := by
        rw [opens]
        exact List.cons_ne_nil c opener
      refine ⟨.construct proper kept allowed paired' ?_ held' held, ?_⟩
      · cases kind with
        | reference filter => exact absurd positive (Nat.lt_irrefl 0)
        | _ => exact fun _ _ => trivial
      · have begins : kind.write parts' ++ result =
            kind.opener ++ (Construct.closed parts' kind.closers ++ result) := List.append_assoc _ _ _
        rw [begins]
        exact .of_apart (List.append_ne_nil_of_left_ne_nil filled _) (apart.append filled _)

end DynamicPrompt.Source
