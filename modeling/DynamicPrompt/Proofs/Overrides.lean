import DynamicPrompt.Proofs.Bindings

/-!
# Nested overrides

The overrides of each macro form a stack of their own, which is made when the macro is overridden and
dropped when the last override ends. Operations on scopes may follow one another in any order, and
those on different names may overlap. As far as the overrides of one name are nested among themselves,
and that name is set only while one of them is pending, they leave nothing behind: the macro has the
text it had, and its stack is what it was.

The invariant is a column: the text of the macro stands on the texts that its pending overrides have
replaced, and at the bottom stands the text from before. Setting the macro changes only the top.
-/

namespace DynamicPrompt

namespace Dictionary

variable {α : Type}

/-- After a name has been unbound, it has no value and every other name the value it had. -/
theorem find?_erase (dictionary : Dictionary α) (name other : Text) :
    (dictionary.erase name).find? other =
      if other = name then none else dictionary.find? other := by
  obtain ⟨entries⟩ := dictionary
  change (entries.filter fun entry => entry.1 != name).lookup other = _
  induction entries with
  | nil => simp [find?]
  | cons entry rest inductionHypothesis =>
    obtain ⟨first, bound⟩ := entry
    have found : find? ⟨(first, bound) :: rest⟩ other =
        if other = first then some bound else find? ⟨rest⟩ other := lookup_entry first other bound rest
    rw [found, List.filter_cons]
    by_cases same : first = name
    · subst same
      rw [if_neg (by simp), inductionHypothesis]
      split
      · rfl
      · rfl
    · rw [if_pos (by simpa using same), lookup_entry, inductionHypothesis]
      by_cases here : other = first
      · subst here
        rw [if_pos rfl, if_neg same, if_pos rfl]
      · rw [if_neg here, if_neg here]

end Dictionary

namespace Scope

/-- What a scope holds for one macro: its text, and what its overrides have replaced. -/
structure Holding where
  text : Option Text
  replaced : Option (List (Option Text))
deriving DecidableEq

/-- What the pending overrides of a macro have replaced, the latest first. -/
def Holding.stack (holding : Holding) : List (Option Text) := holding.replaced.getD []

/-- What a scope holds for the macro of a name. -/
def holding (scope : Scope) (name : Text) : Holding :=
  ⟨scope.macros.find? name, scope.replaced.find? name⟩

/-- A step on a scope. -/
inductive Operation where
  | setVariable (name value : Text)
  | setMacro (name text : Text)
  | pushMacro (name text : Text)
  | popMacro (name : Text)
deriving DecidableEq, Repr

namespace Operation

/-- The macro that a step works on, if it works on one. -/
def macro? : Operation → Option Text
  | setVariable _ _ => none
  | setMacro name _ | pushMacro name _ | popMacro name => some name

/-- What becomes of what is held for the macro that a step works on. -/
def change : Operation → Holding → Holding
  | setVariable _ _, holding => holding
  | setMacro _ text, holding => { holding with text := some text }
  | pushMacro _ text, holding => ⟨some text, some (holding.text :: holding.stack)⟩
  | popMacro _, holding =>
    match holding.stack with
    | [] => holding
    | previous :: rest => ⟨previous.or holding.text, if rest.isEmpty then none else some rest⟩

end Operation

/-- The scope after a step. -/
def after (scope : Scope) : Operation → Scope
  | .setVariable name value => scope.setVariable name value
  | .setMacro name text => scope.setMacro name text
  | .pushMacro name text => scope.pushMacro name text
  | .popMacro name => scope.popMacro name

/-- The scope after some steps. -/
def afterAll (scope : Scope) (operations : List Operation) : Scope :=
  operations.foldl after scope

section Steps

variable (scope : Scope)

/-- Without a pending override the end of one changes nothing at all. -/
theorem popMacro_of_stack_nil {name : Text} (nothing : (scope.holding name).stack = []) :
    scope.popMacro name = scope := by
  change (scope.replaced.find? name).getD [] = [] at nothing
  unfold popMacro
  split
  · rfl
  · rfl
  · next previous rest found =>
    rw [found] at nothing
    exact absurd nothing (List.cons_ne_nil previous rest)

/-- The end of an override takes it off its stack, which is dropped when it is empty, and puts back
what it has replaced, if that was anything. -/
theorem holding_popMacro (name other : Text) :
    (scope.popMacro name).holding other =
      if name = other then (Operation.popMacro name).change (scope.holding other)
      else scope.holding other := by
  cases pending : (scope.holding name).stack with
  | nil =>
    rw [scope.popMacro_of_stack_nil pending]
    split
    · next same => rw [← same, Operation.change, pending]
    · rfl
  | cons previous rest =>
    have found : scope.replaced.find? name = some (previous :: rest) := by
      change (scope.replaced.find? name).getD [] = previous :: rest at pending
      cases remembered : scope.replaced.find? name with
      | none => simp [remembered] at pending
      | some stack => rw [← pending, remembered, Option.getD_some]
    have macros : (scope.popMacro name).macros.find? other =
        if other = name then previous.or (scope.macros.find? name)
        else scope.macros.find? other := by
      rw [popMacro, found]
      cases previous with
      | none =>
        dsimp only
        split
        · next same => rw [same]; rfl
        · rfl
      | some text => exact Dictionary.find?_insert _ _ _ _
    have replaced : (scope.popMacro name).replaced.find? other =
        if other = name then (if rest.isEmpty then none else some rest)
        else scope.replaced.find? other := by
      rw [popMacro, found]
      dsimp only
      split
      · exact Dictionary.find?_erase _ _ _
      · exact Dictionary.find?_insert _ _ _ _
    rw [holding, macros, replaced]
    by_cases same : other = name
    · subst same
      rw [if_pos rfl, if_pos rfl, if_pos rfl, Operation.change, pending]
      rfl
    · rw [if_neg same, if_neg same, if_neg (Ne.symm same)]
      rfl

/-- A step changes what is held for the macro it works on, and leaves every other macro and its stack
alone. -/
theorem holding_after (operation : Operation) (other : Text) :
    (scope.after operation).holding other =
      if operation.macro? = some other then operation.change (scope.holding other)
      else scope.holding other := by
  cases operation with
  | setVariable name value => rfl
  | setMacro name text =>
    simp only [after, holding, setMacro, Operation.macro?, Option.some.injEq, Dictionary.find?_insert]
    by_cases same : name = other
    · subst same
      rw [if_pos rfl, if_pos rfl]
      rfl
    · rw [if_neg (Ne.symm same), if_neg same]
  | pushMacro name text =>
    simp only [after, holding, pushMacro, Operation.macro?, Option.some.injEq, Dictionary.find?_insert]
    by_cases same : name = other
    · subst same
      rw [if_pos rfl, if_pos rfl, if_pos rfl]
      rfl
    · rw [if_neg (Ne.symm same), if_neg (Ne.symm same), if_neg same]
  | popMacro name =>
    simp only [after, holding_popMacro, Operation.macro?, Option.some.injEq]

/-- A step on a macro changes no variable. -/
theorem values_after {operation : Operation} {name : Text} (works : operation.macro? = some name) :
    (scope.after operation).values = scope.values := by
  cases operation with
  | setVariable other value => exact absurd works (by simp [Operation.macro?])
  | setMacro other text => rfl
  | pushMacro other text => rfl
  | popMacro other =>
    rw [after]
    unfold popMacro
    split
    · rfl
    · rfl
    · rfl

end Steps

section Apart

variable {name : Text}

/-- Scopes that hold the same variables and, for every macro but one, the same. -/
structure AgreeApart (name : Text) (first second : Scope) : Prop where
  values : first.values = second.values
  holding : ∀ other, other ≠ name → first.holding other = second.holding other

/-- Steps on the macro that may differ can be left out of one of the two runs. -/
theorem AgreeApart.afterAll {first second : Scope} (agree : AgreeApart name first second)
    (operations : List Operation) :
    AgreeApart name (first.afterAll operations)
      (second.afterAll (operations.filter fun operation => operation.macro? ≠ some name)) := by
  induction operations generalizing first second with
  | nil => exact agree
  | cons operation rest inductionHypothesis =>
    rw [List.filter_cons]
    by_cases works : operation.macro? = some name
    · -- The step is left out of the second run, and must not show elsewhere in the first.
      rw [if_neg (by simpa using works)]
      apply inductionHypothesis
      refine ⟨(first.values_after works).trans agree.values, fun other differ => ?_⟩
      rw [holding_after, if_neg, agree.holding other differ]
      intro same
      exact differ (Option.some.inj (same.symm.trans works))
    · rw [if_pos (by simpa using works)]
      apply inductionHypothesis
      refine ⟨?_, fun other differ => ?_⟩
      · cases operation with
        | setVariable other value =>
          exact congrArg (fun values => values.insert other value) agree.values
        | setMacro other text =>
          rw [first.values_after rfl, second.values_after rfl, agree.values]
        | pushMacro other text =>
          rw [first.values_after rfl, second.values_after rfl, agree.values]
        | popMacro other =>
          rw [first.values_after rfl, second.values_after rfl, agree.values]
      · rw [holding_after, holding_after, agree.holding other differ]

end Apart

section Nesting

/-- How many overrides of a macro are pending after a step, if as many were before. None may end
that has not begun, and the macro may be set only while one is pending. -/
def pendingAfter? (name : Text) (pending : Nat) (operation : Operation) : Option Nat :=
  if operation.macro? = some name then
    match operation, pending with
    | .pushMacro _ _, pending => some (pending + 1)
    | .popMacro _, fewer + 1 => some fewer
    | .setMacro _ _, fewer + 1 => some (fewer + 1)
    | _, _ => none
  else some pending

/-- The overrides of a macro are nested: every end closes an override that has begun before, every
override is closed, and the macro is set only while one is pending. -/
def Nested (name : Text) (operations : List Operation) : Prop :=
  operations.foldlM (pendingAfter? name) 0 = some 0

instance (name : Text) (operations : List Operation) : Decidable (Nested name operations) :=
  inferInstanceAs (Decidable (_ = _))

/-- So many overrides are pending above a stack. If the macro had a text before them, the text it has
and all that they have replaced are there, and the one from before is at the bottom. -/
def Holding.Pending (holding : Holding) (before : Option Text) (base : List (Option Text))
    (pending : Nat) : Prop :=
  ∃ replaced, holding.stack = replaced ++ base ∧ replaced.length = pending ∧
    ∀ bottom ∈ before, (∀ text ∈ holding.text :: replaced, text.isSome = true) ∧
      (holding.text :: replaced).getLast? = some (some bottom)

/-- Before the first override the column is the text of the macro alone. -/
theorem Holding.pending_zero (holding : Holding) :
    holding.Pending holding.text holding.stack 0 := by
  refine ⟨[], rfl, rfl, fun bottom bound => ?_⟩
  rw [Option.mem_def.1 bound]
  simp

variable {name : Text} {before : Option Text} {base : List (Option Text)} {pending pending' : Nat}

/-- A step that nesting allows changes the column at its top only. -/
theorem Holding.Pending.change {holding : Holding} {operation : Operation}
    (stands : holding.Pending before base pending) (works : operation.macro? = some name)
    (allowed : pendingAfter? name pending operation = some pending') :
    (operation.change holding).Pending before base pending' := by
  obtain ⟨replaced, stack, length, column⟩ := stands
  unfold pendingAfter? at allowed
  rw [if_pos works] at allowed
  cases operation with
  | setVariable other value => exact absurd works (by simp [Operation.macro?])
  | setMacro other text =>
    cases replaced with
    | nil =>
      -- Nothing is pending, so that the macro may not be set.
      subst length
      exact absurd allowed (by simp)
    | cons previous rest =>
      subst length
      obtain rfl := Option.some.inj allowed
      refine ⟨previous :: rest, stack, rfl, fun bottom bound => ?_⟩
      obtain ⟨present, last⟩ := column bottom bound
      rw [List.getLast?_cons_cons] at last
      constructor
      · exact List.forall_mem_cons.2 ⟨rfl, (List.forall_mem_cons.1 present).2⟩
      · exact List.getLast?_cons_cons.trans last
  | pushMacro other text =>
    obtain rfl := Option.some.inj allowed
    refine ⟨holding.text :: replaced, ?_, ?_, fun bottom bound => ?_⟩
    · change holding.text :: holding.stack = _
      rw [stack, List.cons_append]
    · rw [List.length_cons, length]
    · obtain ⟨present, last⟩ := column bottom bound
      constructor
      · exact List.forall_mem_cons.2 ⟨rfl, present⟩
      · exact List.getLast?_cons_cons.trans last
  | popMacro other =>
    cases replaced with
    | nil =>
      subst length
      exact absurd allowed (by simp)
    | cons previous rest =>
      subst length
      obtain rfl := Option.some.inj allowed
      rw [List.cons_append] at stack
      rw [Operation.change, stack]
      refine ⟨rest, ?_, rfl, fun bottom bound => ?_⟩
      · dsimp only [Holding.stack]
        split
        · next empty => exact (List.isEmpty_iff.1 empty).symm
        · rfl
      · obtain ⟨present, last⟩ := column bottom bound
        have others := (List.forall_mem_cons.1 present).2
        -- What the override replaced was a text, because there was one before all of them.
        obtain ⟨text, rfl⟩ := Option.isSome_iff_exists.1 (others previous List.mem_cons_self)
        rw [List.getLast?_cons_cons] at last
        exact ⟨others, last⟩

/-- In a run in which the overrides of the macro are nested, the column keeps its bottom. -/
theorem pending_afterAll {scope : Scope} {operations : List Operation}
    (stands : (scope.holding name).Pending before base pending)
    (nested : operations.foldlM (pendingAfter? name) pending = some pending') :
    ((scope.afterAll operations).holding name).Pending before base pending' := by
  induction operations generalizing scope pending with
  | nil =>
    obtain rfl := Option.some.inj nested
    exact stands
  | cons operation rest inductionHypothesis =>
    rw [List.foldlM_cons] at nested
    obtain ⟨between, allowed, others⟩ := Option.bind_eq_some_iff.1 nested
    apply inductionHypothesis _ others
    rw [holding_after]
    split
    · next works => exact stands.change works allowed
    · next works =>
      unfold pendingAfter? at allowed
      rw [if_neg works] at allowed
      obtain rfl := Option.some.inj allowed
      exact stands

end Nesting

section Tidiness

/-- No remembered stack is empty. -/
def Tidy (scope : Scope) : Prop := ∀ name, scope.replaced.find? name ≠ some []

/-- Nothing is remembered at the beginning. -/
theorem tidy_empty : empty.Tidy := by
  intro name found
  exact absurd found (by simp [empty, EmptyCollection.emptyCollection, Dictionary.empty,
    Dictionary.find?])

/-- A stack is dropped with its last entry. -/
theorem Tidy.afterAll {scope : Scope} (tidy : scope.Tidy) (operations : List Operation) :
    (scope.afterAll operations).Tidy := by
  induction operations generalizing scope with
  | nil => exact tidy
  | cons operation rest inductionHypothesis =>
    apply inductionHypothesis
    intro name
    change ((scope.after operation).holding name).replaced ≠ some []
    rw [holding_after]
    split
    · cases operation with
      | setVariable other value => exact tidy name
      | setMacro other text => exact tidy name
      | pushMacro other text =>
        intro empty
        exact List.cons_ne_nil _ _ (Option.some.inj empty)
      | popMacro other =>
        rw [Operation.change]
        split
        · exact tidy name
        · next previous rest _ =>
          dsimp only
          split
          · exact (Option.some_ne_none _).symm
          · next filled =>
            rintro ⟨rfl⟩
            exact filled rfl
    · exact tidy name

/-- In a tidy scope what is remembered for a macro is told by its stack. -/
theorem Tidy.replaced_eq {first second : Scope} (tidy : first.Tidy) (tidy' : second.Tidy)
    {name : Text} (same : (first.holding name).stack = (second.holding name).stack) :
    first.replaced.find? name = second.replaced.find? name := by
  change (first.replaced.find? name).getD [] = (second.replaced.find? name).getD [] at same
  have front := tidy name
  have back := tidy' name
  cases found : first.replaced.find? name with
  | none =>
    cases found' : second.replaced.find? name with
    | none => rfl
    | some stack =>
      rw [found, found'] at same
      rw [found'] at back
      exact absurd (congrArg some same.symm) back
  | some stack =>
    cases found' : second.replaced.find? name with
    | none =>
      rw [found, found'] at same
      rw [found] at front
      exact absurd (congrArg some same) front
    | some stack' =>
      rw [found, found'] at same
      exact congrArg some same

end Tidiness

/-- Nested overrides leave nothing behind. After any steps on a scope in which the overrides of a
macro are nested, and which may work on any other names in between, the macro has the text it had
before, if it had one, and its stack is what it was; variables and all other macros with their stacks
are as if the steps on the macro had not been taken. The end of an override that is not pending
changes nothing at all. -/
theorem afterAll_nested (scope : Scope) {name : Text} {operations : List Operation}
    (nested : Nested name operations) :
    (∀ text, scope.macros.find? name = some text →
      (scope.afterAll operations).macros.find? name = some text) ∧
    ((scope.afterAll operations).holding name).stack = (scope.holding name).stack ∧
    (scope.Tidy →
      (scope.afterAll operations).replaced.find? name = scope.replaced.find? name) ∧
    AgreeApart name (scope.afterAll operations)
      (scope.afterAll (operations.filter fun operation => operation.macro? ≠ some name)) ∧
    ∀ other, (scope.holding other).stack = [] → scope.popMacro other = scope := by
  obtain ⟨replaced, stack, length, column⟩ :=
    pending_afterAll (scope.holding name).pending_zero nested
  obtain rfl := List.length_eq_zero_iff.1 length
  rw [List.nil_append] at stack
  refine ⟨fun text bound => ?_, stack, fun tidy => ?_, ?_, fun other => scope.popMacro_of_stack_nil⟩
  · obtain ⟨_, last⟩ := column text bound
    exact Option.some.inj last
  · exact (tidy.afterAll operations).replaced_eq tidy stack
  · exact AgreeApart.afterAll ⟨rfl, fun _ _ => rfl⟩ operations

/-- A scope with a macro, which is overridden already. -/
def lit : Scope :=
  empty.afterAll [.setMacro "light" "warm", .pushMacro "light" "dim", .pushMacro "mood" "calm"]

/-- Two overrides of the macro, one inside the other and the macro set inside both, which overlap with
the end of an override of another macro and with a variable of the same name. -/
def relit : List Operation :=
  [.pushMacro "light" "red", .popMacro "mood", .setVariable "light" "on", .pushMacro "light" "blue",
    .setMacro "light" "green", .popMacro "light", .setMacro "mood" "loud", .popMacro "light"]

/-- The macro is as it was before the overrides, and so is what was remembered for it. -/
theorem afterAll_nested_relit :
    Nested "light" relit ∧ lit.Tidy ∧ (lit.holding "light").text = some "dim".toList ∧
      ((lit.afterAll relit).holding "light").text = some "dim".toList ∧
      (lit.afterAll relit).replaced.find? "light" = lit.replaced.find? "light" ∧
      AgreeApart "light" (lit.afterAll relit) (lit.afterAll
        [.popMacro "mood", .setVariable "light" "on", .setMacro "mood" "loud"]) := by
  have nested : Nested "light" relit := by decide
  have tidy : lit.Tidy := tidy_empty.afterAll _
  have bound : lit.macros.find? "light" = some "dim".toList := by decide
  have others : relit.filter (fun operation => operation.macro? ≠ some "light".toList) =
      [.popMacro "mood", .setVariable "light" "on", .setMacro "mood" "loud"] := by decide
  obtain ⟨text, _, replaced, apart, _⟩ := afterAll_nested lit nested
  rw [others] at apart
  exact ⟨nested, tidy, bound, text _ bound, replaced tidy, apart⟩

end Scope

end DynamicPrompt
