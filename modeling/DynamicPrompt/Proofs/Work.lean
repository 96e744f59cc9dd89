import DynamicPrompt.Report
import Mathlib.Data.List.Forall2
import Mathlib.Order.Defs.Unbundled

/-!
# Laws of work

Passes and evaluations are written as work that may raise warnings, change a state or fail.
Where every step of such work only yields a value, so does the whole.

Work on a state respects a relation between states if it leads from every state to one that is
related to it. If the relation is a preorder, work made of steps that respect it respects it as
well, and for work that may fail that holds whether it fails or not, because what it has done to
the state before the failure remains. Of work that stops something else may be said. In some
state work may come to nothing but reading: it has the outcome of work without a state and leaves
the state as it is.

Each of these passes from the steps of some work to the whole, and so does any relation between
two pieces of work that holds of outcomes and that one step after another keeps.

What work yields may have a property whatever the state is. Nothing is said for the case that it
fails or stops. Work that only reports may have one result and raise the same warnings after any
others.
-/

namespace DynamicPrompt

section Values

variable {m : Type → Type} [Monad m] [LawfulMonad m] {α β : Type}

/-- Work through a list that at each element only yields a value yields the list of the
values. -/
theorem mapM_eq_pure {work : α → m β} {value : α → β} {elements : List α}
    (each : ∀ element ∈ elements, work element = pure (value element)) :
    elements.mapM work = pure (elements.map value) := by
  induction elements with
  | nil => rfl
  | cons first rest inductionHypothesis =>
    have others : rest.mapM work = pure (rest.map value) :=
      inductionHypothesis fun element member => each element (List.mem_cons_of_mem first member)
    rw [List.mapM_cons, each first List.mem_cons_self, others]
    simp

/-- Checked steps for the elements of a list have results exactly if each has one, and these are the
results. -/
theorem mapM_eq_some_iff {step : α → Option β} {elements : List α} {results : List β} :
    elements.mapM step = some results ↔ elements.map step = results.map some := by
  induction elements generalizing results with
  | nil => cases results <;> simp
  | cons first rest inductionHypothesis =>
    rw [List.mapM_cons]
    cases results with
    | nil =>
      cases step first with
      | none => simp
      | some result => cases rest.mapM step <;> simp
    | cons result results =>
      rw [List.map_cons, List.map_cons, List.cons.injEq, ← inductionHypothesis]
      cases step first with
      | none => simp
      | some result => cases rest.mapM step <;> simp

/-- Checked steps for the elements of a list have no results exactly if one of them has none. -/
theorem mapM_eq_none_iff {step : α → Option β} {elements : List α} :
    elements.mapM step = none ↔ ∃ element ∈ elements, step element = none := by
  induction elements with
  | nil => simp
  | cons first rest inductionHypothesis =>
    rw [List.mapM_cons]
    simp only [List.mem_cons, exists_eq_or_imp, ← inductionHypothesis]
    cases step first with
    | none => simp
    | some result => cases rest.mapM step <;> simp

end Values

/-- A relation between two pieces of work that relates every outcome to itself and that one step after
another keeps. -/
structure IsCongruence {m m' : Type → Type} [Monad m] [Monad m'] {ε : Type}
    (same : ∀ {α : Type}, ExceptT ε m α → ExceptT ε m' α → Prop) : Prop where
  outcome : ∀ {α : Type} (result : Except ε α), same (liftExcept result) (liftExcept result)
  bind : ∀ {α β : Type} {work : ExceptT ε m α} {work' : ExceptT ε m' α}
    {next : α → ExceptT ε m β} {next' : α → ExceptT ε m' β},
    same work work' → (∀ result, same (next result) (next' result)) →
      same (work >>= next) (work' >>= next')

variable {σ ε α β : Type}

namespace Checked

/-- What follows a step goes on in the state that the step has left, unless that has stopped. -/
theorem run_bind (work : Checked σ α) (next : α → Checked σ β) (state : σ) :
    (work >>= next).run.run state =
      match work.run.run state with
      | (some result, between) => (next result).run.run between
      | (none, between) => (none, between) := by
  rw [OptionT.run_bind, Option.elimM, StateT.run_bind]
  split
  · next result between done =>
    rw [done]
    rfl
  · next between done =>
    rw [done]
    rfl

/-- What follows a look at the state goes on with the state. -/
theorem run_get_bind (next : σ → Checked σ α) (state : σ) :
    (MonadState.get >>= next).run.run state = (next state).run.run state := rfl

/-- The same for steps that may fail. After a failure nothing more happens. -/
theorem run_bindEither (work : ExceptT ε (Checked σ) α) (next : α → ExceptT ε (Checked σ) β)
    (state : σ) :
    (work >>= next).run.run.run state =
      match work.run.run.run state with
      | (some (.ok result), between) => (next result).run.run.run between
      | (some (.error cause), between) => (some (.error cause), between)
      | (none, between) => (none, between) := by
  rw [ExceptT.run_bind, run_bind]
  generalize work.run.run.run state = outcome
  obtain ⟨_ | _ | _, between⟩ := outcome
  · rfl
  · rfl
  · rfl

/-- What is made of the result does not matter to the state. -/
theorem run_map (change : α → β) (work : Checked σ α) (state : σ) :
    (change <$> work).run.run state = (work.run.run state).map (Option.map change) id := by
  rw [map_eq_pure_bind, run_bind]
  generalize work.run.run state = outcome
  obtain ⟨_ | _, between⟩ := outcome
  · rfl
  · rfl

/-- What is made of the results of work that comes to the same is the same. -/
theorem run_map_congr {work work' : Checked σ α} {state state' : σ} (change : α → β)
    (same : work.run.run state = work'.run.run state') :
    (change <$> work).run.run state = (change <$> work').run.run state' := by
  rw [run_map, run_map, same]

/-- Work that cannot fail, as work that may. -/
theorem run_liftEither (work : Checked σ α) (state : σ) :
    (liftM work : ExceptT ε (Checked σ) α).run.run.run state =
      (work.run.run state).map (Option.map Except.ok) id :=
  run_map Except.ok work state

end Checked

/-- What is said of the state after some work, which may have stopped, compared with the state
before it. -/
def Leads (related stopped : σ → σ → Prop) (before : σ) : Option α × σ → Prop
  | (some _, after) => related before after
  | (none, after) => stopped before after

/-- From every state work leads to one that is related to it, or stops in one for which the second
relation holds. -/
def Respects (related stopped : σ → σ → Prop) (work : Checked σ α) : Prop :=
  ∀ state, Leads related stopped state (work.run.run state)

/-- The same of work that may fail, whatever the outcome. -/
def RespectsEither (related stopped : σ → σ → Prop) (work : ExceptT ε (Checked σ) α) : Prop :=
  Respects related stopped work.run

/-- A preorder between states, and a relation for work that stops, which may do so after any work
that leads from one state to a related one. -/
class Stopping (related stopped : σ → σ → Prop) : Prop extends IsPreorder σ related where
  later : ∀ {first second third}, related first second → stopped second third → stopped first third

/-- Work may never stop. -/
instance [IsPreorder σ related] : Stopping related fun _ _ => False where
  later _ never := never

/-- Where the work stops does not matter. -/
instance [IsPreorder σ related] : Stopping related fun _ _ => True where
  later _ always := always

/-- The same may be said of work that stops. -/
instance [IsPreorder σ related] : Stopping related related where
  later := trans_of related

variable {related stopped : σ → σ → Prop}

/-- What is made of the result does not matter. -/
theorem Leads.map {before : σ} {outcome : Option α × σ} (change : α → β) :
    Leads related stopped before (outcome.map (Option.map change) id) ↔
      Leads related stopped before outcome := by
  obtain ⟨_ | _, after⟩ := outcome
  · exact Iff.rfl
  · exact Iff.rfl

/-- What is made of the result does not matter. -/
theorem Respects.map {work : Checked σ α} (change : α → β)
    (respects : Respects related stopped work) : Respects related stopped (change <$> work) := by
  intro state
  rw [Checked.run_map]
  exact (Leads.map change).2 (respects state)

/-- A change to a related state. -/
theorem Respects.modify {change : σ → σ} (each : ∀ state, related state (change state)) :
    Respects related stopped (modify change : Checked σ PUnit) := each

/-- Work that cannot fail. -/
theorem RespectsEither.lift {work : Checked σ α} (respects : Respects related stopped work) :
    RespectsEither related stopped (liftM work : ExceptT ε (Checked σ) α) :=
  respects.map Except.ok

/-- Work that has come to an end has led to a related state. -/
theorem Respects.ended {work : Checked σ α} (respects : Respects related stopped work)
    {before after : σ} {result : α} (done : work.run.run before = (some result, after)) :
    related before after := by
  have led := respects before
  rw [done] at led
  exact led

/-- Weaker relations. -/
theorem Respects.mono {related' stopped' : σ → σ → Prop} {work : Checked σ α}
    (respects : Respects related stopped work)
    (ends : ∀ {before after}, related before after → related' before after)
    (stops : ∀ {before after}, stopped before after → stopped' before after) :
    Respects related' stopped' work := by
  intro state
  have led := respects state
  generalize work.run.run state = outcome at led ⊢
  obtain ⟨_ | _, after⟩ := outcome
  · exact stops led
  · exact ends led

variable [Stopping related stopped]

/-- One step after another. The second starts where the first has led. -/
theorem Leads.bind {state : σ} {work : Checked σ α} {next : α → Checked σ β}
    (led : Leads related stopped state (work.run.run state))
    (after : ∀ result between, related state between →
      Leads related stopped between ((next result).run.run between)) :
    Leads related stopped state ((work >>= next).run.run state) := by
  rw [Checked.run_bind]
  generalize work.run.run state = outcome at led ⊢
  obtain ⟨_ | result, between⟩ := outcome
  · exact led
  · have onward := after result between led
    dsimp only
    generalize (next result).run.run between = outcome at onward ⊢
    obtain ⟨_ | _, after⟩ := outcome
    · exact Stopping.later led onward
    · exact trans_of related led onward

/-- The same for steps that may fail. After a failure nothing more happens. -/
theorem Leads.bindEither {state : σ} {work : ExceptT ε (Checked σ) α}
    {next : α → ExceptT ε (Checked σ) β}
    (led : Leads related stopped state (work.run.run.run state))
    (after : ∀ result between, related state between →
      Leads related stopped between ((next result).run.run.run between)) :
    Leads related stopped state ((work >>= next).run.run.run state) := by
  rw [ExceptT.run_bind]
  refine led.bind fun result between reached => ?_
  cases result with
  | ok value => exact after value between reached
  | error cause => exact refl_of related between

namespace Respects

/-- A value alone changes nothing. -/
theorem pure (result : α) : Respects related stopped (Pure.pure result : Checked σ α) :=
  fun state => refl_of related state

/-- Looking at the state changes nothing. -/
theorem get : Respects related stopped (MonadState.get : Checked σ σ) :=
  fun state => refl_of related state

/-- One step after another. -/
theorem bind {work : Checked σ α} {next : α → Checked σ β}
    (first : Respects related stopped work)
    (after : ∀ result, Respects related stopped (next result)) :
    Respects related stopped (work >>= next) :=
  fun state => Leads.bind (first state) fun result between _ => after result between

/-- A step for each element of a list, the results left alone. -/
theorem forM {work : α → Checked σ PUnit} (elements : List α)
    (each : ∀ element, Respects related stopped (work element)) :
    Respects related stopped (elements.forM work) := by
  induction elements with
  | nil => exact pure _
  | cons first rest inductionHypothesis => exact bind (each first) fun _ => inductionHypothesis

end Respects

namespace RespectsEither

/-- A value alone changes nothing. -/
theorem pure (result : α) :
    RespectsEither related stopped (Pure.pure result : ExceptT ε (Checked σ) α) :=
  fun state => refl_of related state

/-- A failure alone changes nothing. -/
theorem throw (cause : ε) :
    RespectsEither related stopped (throw cause : ExceptT ε (Checked σ) α) :=
  fun state => refl_of related state

/-- An outcome alone changes nothing. -/
theorem outcome (result : Except ε α) :
    RespectsEither related stopped (liftExcept result : ExceptT ε (Checked σ) α) := by
  cases result with
  | ok value => exact pure value
  | error cause => exact throw cause

/-- One step after another; after a failure nothing more happens. -/
theorem bind {work : ExceptT ε (Checked σ) α} {next : α → ExceptT ε (Checked σ) β}
    (first : RespectsEither related stopped work)
    (after : ∀ result, RespectsEither related stopped (next result)) :
    RespectsEither related stopped (work >>= next) :=
  fun state => Leads.bindEither (first state) fun result between _ => after result between

end RespectsEither

/-- In a state, work leaves the state as it is and has the outcome of work without a state. -/
def Reads (state : σ) (work : ExceptT ε (Checked σ) α) (stateless : ExceptT ε Id α) : Prop :=
  work.run.run.run state = (some stateless.run.run, state)

namespace Reads

variable {state : σ}

/-- Work that cannot fail and only reads a value. -/
theorem lift {work : Checked σ α} {value : α} (reads : work.run.run state = (some value, state)) :
    Reads state (liftM work : ExceptT ε (Checked σ) α) (liftM (pure value : Id α)) := by
  unfold Reads
  rw [Checked.run_liftEither, reads]
  rfl

/-- An outcome needs no state. -/
theorem outcome (result : Except ε α) :
    Reads state (liftExcept result : ExceptT ε (Checked σ) α) (liftExcept result) := by
  cases result with
  | ok value => rfl
  | error cause => rfl

/-- One step after another. -/
theorem bind {work : ExceptT ε (Checked σ) α} {stateless : ExceptT ε Id α}
    {next : α → ExceptT ε (Checked σ) β} {statelessNext : α → ExceptT ε Id β}
    (first : Reads state work stateless)
    (after : ∀ result, Reads state (next result) (statelessNext result)) :
    Reads state (work >>= next) (stateless >>= statelessNext) := by
  unfold Reads at first ⊢
  rw [Checked.run_bindEither, ExceptT.run_bind, first]
  cases outcome : stateless.run.run with
  | ok value =>
    simp only [Id.run_bind, outcome]
    exact after value
  | error cause =>
    simp only [Id.run_bind, outcome]
    rfl

end Reads

/-- Whatever the state is, work that may fail yields only results with a property, if any. -/
def Ensures (holds : α → Prop) (work : ExceptT ε (Checked σ) α) : Prop :=
  ∀ state result after, work.run.run.run state = (some (.ok result), after) → holds result

namespace Ensures

variable {holds : α → Prop} {holds' : β → Prop}

/-- A result that is known. -/
theorem pure {result : α} (known : holds result) :
    Ensures holds (Pure.pure result : ExceptT ε (Checked σ) α) := by
  rintro state result' after ⟨⟩
  exact known

/-- A failure yields nothing. -/
theorem throw (cause : ε) : Ensures holds (throw cause : ExceptT ε (Checked σ) α) := by
  rintro state result after ⟨⟩

/-- Work that cannot fail. -/
theorem lift {work : Checked σ α}
    (each : ∀ state result after, work.run.run state = (some result, after) → holds result) :
    Ensures holds (liftM work : ExceptT ε (Checked σ) α) := by
  intro state result after yields
  rw [Checked.run_liftEither] at yields
  generalize done : work.run.run state = outcome at yields
  obtain ⟨_ | value, between⟩ := outcome
  · exact absurd yields (by rintro ⟨⟩)
  · obtain ⟨same, rfl⟩ := Prod.mk.inj yields
    obtain rfl : value = result := Except.ok.inj (Option.some.inj same)
    exact each state value between done

/-- A weaker property. -/
theorem mono {weaker : α → Prop} {work : ExceptT ε (Checked σ) α} (ensures : Ensures holds work)
    (implies : ∀ result, holds result → weaker result) : Ensures weaker work :=
  fun state result after yields => implies result (ensures state result after yields)

/-- One step after another. The second may count on what the first ensures. -/
theorem bind {work : ExceptT ε (Checked σ) α} {next : α → ExceptT ε (Checked σ) β}
    (first : Ensures holds work) (second : ∀ result, holds result → Ensures holds' (next result)) :
    Ensures holds' (work >>= next) := by
  intro state result after yields
  rw [Checked.run_bindEither] at yields
  generalize done : work.run.run.run state = outcome at yields
  obtain ⟨_ | _ | result', between⟩ := outcome
  · exact absurd yields (by rintro ⟨⟩)
  · exact absurd yields (by rintro ⟨⟩)
  · exact second result' (first state result' between done) between result after yields

/-- Only the last step matters. -/
theorem last {holds : β → Prop} {work : ExceptT ε (Checked σ) α}
    {next : α → ExceptT ε (Checked σ) β} (each : ∀ result, Ensures holds (next result)) :
    Ensures holds (work >>= next) := by
  have first : Ensures (fun _ => True) work := fun _ _ _ _ => True.intro
  exact first.bind fun result _ => each result

/-- A step for each element of a list, up to the first failure: its result has the property that
belongs to the element. -/
theorem mapM {holds : α → β → Prop} {work : α → ExceptT ε (Checked σ) β} {elements : List α}
    (each : ∀ element ∈ elements, Ensures (holds element) (work element)) :
    Ensures (List.Forall₂ holds elements) (elements.mapM work) := by
  induction elements with
  | nil => exact pure .nil
  | cons first rest inductionHypothesis =>
    have others := inductionHypothesis fun element member =>
      each element (List.mem_cons_of_mem first member)
    rw [List.mapM_cons]
    exact bind (each first List.mem_cons_self) fun result known =>
      bind others fun results related => pure (.cons known related)

end Ensures

/-- Work that reports has one result, with a property, or always stops, and raises the same warnings
after any others. -/
def Reports (holds : α → Prop) (work : Reporting α) : Prop :=
  ∃ (result : Option α) (warnings : Warnings), (∀ value ∈ result, holds value) ∧
    ∀ before, work.run.run before = (result, before ++ warnings)

namespace Reports

variable {holds : α → Prop} {holds' : β → Prop}

/-- The result has the property. -/
theorem holds_run {work : Reporting α} (reports : Reports holds work) {before : Warnings} {value : α}
    (yields : (work.run.run before).1 = some value) : holds value := by
  obtain ⟨result, warnings, known, ran⟩ := reports
  rw [ran] at yields
  exact known value yields

/-- A value alone. -/
theorem pure {result : α} (known : holds result) :
    Reports holds (Pure.pure result : Reporting α) := by
  refine ⟨some result, [], ?_, fun before => by rw [List.append_nil]; rfl⟩
  rintro value ⟨⟩
  exact known

/-- A warning. -/
theorem warn (warning : Warning) : Reports (fun _ => True) (warn warning) :=
  ⟨some (), [warning], fun _ _ => trivial, fun _ => rfl⟩

/-- Checked arithmetic raises no warnings. -/
theorem checked {result : Option α} (known : ∀ value ∈ result, holds value) :
    Reports holds (DynamicPrompt.checked result : Reporting α) :=
  ⟨result, [], known, fun before => by rw [List.append_nil]; rfl⟩

/-- One step after another. The second may count on what the first yields. -/
theorem bind {work : Reporting α} {next : α → Reporting β} (first : Reports holds work)
    (second : ∀ result, holds result → Reports holds' (next result)) :
    Reports holds' (work >>= next) := by
  obtain ⟨_ | result, warnings, known, ran⟩ := first
  · refine ⟨none, warnings, fun _ member => absurd member (by rintro ⟨⟩), fun before => ?_⟩
    rw [Checked.run_bind, ran]
  · obtain ⟨result', warnings', known', ran'⟩ := second result (known result rfl)
    refine ⟨result', warnings ++ warnings', known', fun before => ?_⟩
    rw [Checked.run_bind, ran]
    exact (ran' _).trans (by rw [List.append_assoc])

/-- What follows may count on what the work yields. -/
theorem bind_congr {work : Reporting α} {next next' : α → Reporting β} (reports : Reports holds work)
    (same : ∀ result, holds result → next result = next' result) :
    work >>= next = work >>= next' := by
  obtain ⟨result, warnings, known, ran⟩ := reports
  apply OptionT.ext
  funext before
  change (work >>= next).run.run before = (work >>= next').run.run before
  rw [Checked.run_bind, Checked.run_bind, ran]
  cases result with
  | none => rfl
  | some value =>
    exact congrArg (fun step => step.run.run (before ++ warnings)) (same value (known value rfl))

/-- A weaker property. -/
theorem mono {weaker : α → Prop} {work : Reporting α} (reports : Reports holds work)
    (implies : ∀ result, holds result → weaker result) : Reports weaker work := by
  obtain ⟨result, warnings, known, ran⟩ := reports
  exact ⟨result, warnings, fun value member => implies value (known value member), ran⟩

/-- What is made of the result. -/
theorem map {work : Reporting α} {change : α → β} (first : Reports holds work)
    (each : ∀ result, holds result → holds' (change result)) : Reports holds' (change <$> work) := by
  rw [map_eq_pure_bind]
  exact first.bind fun result known => .pure (each result known)

/-- A step for each element of a list. -/
theorem mapM {work : α → Reporting β} {elements : List α}
    (each : ∀ element ∈ elements, Reports holds' (work element)) :
    Reports (fun results => ∀ result ∈ results, holds' result) (elements.mapM work) := by
  induction elements with
  | nil => exact .pure fun result member => absurd member List.not_mem_nil
  | cons first rest inductionHypothesis =>
    rw [List.mapM_cons]
    refine (each first List.mem_cons_self).bind fun result known => ?_
    refine (inductionHypothesis fun element member => each element (.tail first member)).bind
      fun results others => .pure ?_
    exact List.forall_mem_cons.2 ⟨known, others⟩

/-- A step for each element of a list, the results left alone. -/
theorem forM {work : α → Reporting PUnit} (elements : List α)
    (each : ∀ element, Reports (fun _ => True) (work element)) :
    Reports (fun _ => True) (elements.forM work) := by
  induction elements with
  | nil => exact .pure trivial
  | cons first rest inductionHypothesis => exact (each first).bind fun _ _ => inductionHypothesis

end Reports

end DynamicPrompt
