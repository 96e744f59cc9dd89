import DynamicPrompt.Proofs.Work

/-!
# Agreement up to a mark

Two pieces of work that differ only in how much room they have are the same until the first of
them runs out of room. Where that happens it leaves a mark, or fails for a cause that the work
around it turns into a mark. So they agree in every state that the first one leads from without a
mark, and nothing has to be said about the others.

A mark is a relation between the state before some work and the state after it. It is never taken
away by what comes before or after the work that has left it. This is what makes agreement pass
from steps to what is made of them: if a step has left a mark, whatever follows cannot hide it.
-/

namespace DynamicPrompt

variable {σ ε α β : Type} {related stopped marked : σ → σ → Prop} {telling : ε → Prop}

/-- A mark stays, whatever related work comes before or after. -/
class Marking (related stopped marked : σ → σ → Prop) : Prop where
  before : ∀ {first second third}, related first second → marked second third → marked first third
  after : ∀ {first second third}, marked first second → related second third → marked first third
  stop : ∀ {first second third}, marked first second → stopped second third → marked first third

/-- The mark that no work leaves stays away. -/
instance : Marking related stopped fun _ _ => False where
  before _ never := never
  after never _ := never
  stop never _ := never

/-- A mark that stays whatever comes after stays if the work stops there. -/
theorem Marking.leads [Marking related stopped marked] {first second : σ} {outcome : Option α × σ}
    (hit : marked first second) (led : Leads related stopped second outcome) :
    marked first outcome.2 := by
  obtain ⟨_ | _, third⟩ := outcome
  · exact Marking.stop related hit led
  · exact Marking.after stopped hit led

/-- In one state the first work leads to a related one, and unless it leaves a mark, the second does
the same. -/
structure AgreesAt (related stopped marked : σ → σ → Prop) (state : σ) (first second : Checked σ α) :
    Prop where
  leads : Leads related stopped state (first.run.run state)
  same : marked state (first.run.run state).2 ∨ second.run.run state = first.run.run state

/-- In one state the first work leads to a related one, and unless it leaves a mark or fails for a
telling cause, the second does the same. -/
structure AgreesEitherAt (related stopped marked : σ → σ → Prop) (telling : ε → Prop) (state : σ)
    (first second : ExceptT ε (Checked σ) α) : Prop where
  leads : Leads related stopped state (first.run.run.run state)
  same : marked state (first.run.run.run state).2 ∨
    (∃ cause, telling cause ∧ (first.run.run.run state).1 = some (.error cause)) ∨
    second.run.run.run state = first.run.run.run state

/-- Unless the first work leaves a mark, the second does the same. -/
def Agrees (related stopped marked : σ → σ → Prop) (first second : Checked σ α) : Prop :=
  ∀ state, AgreesAt related stopped marked state first second

/-- Unless the first work leaves a mark or fails for a telling cause, the second does the same. -/
def AgreesEither (related stopped marked : σ → σ → Prop) (telling : ε → Prop)
    (first second : ExceptT ε (Checked σ) α) : Prop :=
  ∀ state, AgreesEitherAt related stopped marked telling state first second

section Steps

variable [Stopping related stopped] [Marking related stopped marked] {state : σ}

/-- One step after another. The second starts where the first has led. -/
theorem AgreesAt.bind {first second : Checked σ α} {next next' : α → Checked σ β}
    (step : AgreesAt related stopped marked state first second)
    (after : ∀ result between, related state between →
      AgreesAt related stopped marked between (next result) (next' result)) :
    AgreesAt related stopped marked state (first >>= next) (second >>= next') := by
  obtain ⟨led, same⟩ := step
  constructor
  · exact Leads.bind led fun result between reached => (after result between reached).leads
  · rw [Checked.run_bind, Checked.run_bind]
    generalize first.run.run state = outcome at led same ⊢
    obtain ⟨_ | result, between⟩ := outcome
    · rcases same with hit | equal
      · exact .inl hit
      · rw [equal]
        exact .inr rfl
    · obtain ⟨onward, sameAfter⟩ := after result between led
      rcases same with hit | equal
      · exact .inl (Marking.leads hit onward)
      · rw [equal]
        exact sameAfter.imp_left (Marking.before stopped led)

/-- One step after another, unless the first fails. The second starts where the first has led. -/
theorem AgreesEitherAt.bind {first second : ExceptT ε (Checked σ) α}
    {next next' : α → ExceptT ε (Checked σ) β}
    (step : AgreesEitherAt related stopped marked telling state first second)
    (after : ∀ result between, related state between →
      AgreesEitherAt related stopped marked telling between (next result) (next' result)) :
    AgreesEitherAt related stopped marked telling state (first >>= next) (second >>= next') := by
  obtain ⟨led, same⟩ := step
  constructor
  · exact Leads.bindEither led fun result between reached => (after result between reached).leads
  · rw [Checked.run_bindEither, Checked.run_bindEither]
    generalize first.run.run.run state = outcome at led same ⊢
    obtain ⟨_ | cause | result, between⟩ := outcome
    · rcases same with hit | ⟨_, _, failed⟩ | equal
      · exact .inl hit
      · cases failed
      · rw [equal]
        exact .inr (.inr rfl)
    · rcases same with hit | ⟨_, tells, failed⟩ | equal
      · exact .inl hit
      · cases failed
        exact .inr (.inl ⟨cause, tells, rfl⟩)
      · rw [equal]
        exact .inr (.inr rfl)
    · obtain ⟨onward, sameAfter⟩ := after result between led
      rcases same with hit | ⟨_, _, failed⟩ | equal
      · exact .inl (Marking.leads hit onward)
      · cases failed
      · rw [equal]
        exact sameAfter.imp_left (Marking.before stopped led)

end Steps

namespace Agrees

/-- The first work respects the relation. -/
theorem respects {first second : Checked σ α} (agrees : Agrees related stopped marked first second) :
    Respects related stopped first := fun state => (agrees state).leads

/-- Work agrees with itself. -/
theorem itself {work : Checked σ α} (respects : Respects related stopped work) :
    Agrees related stopped marked work work := fun state => ⟨respects state, .inr rfl⟩

/-- What is made of the result does not matter. -/
theorem map {first second : Checked σ α} (change : α → β)
    (step : Agrees related stopped marked first second) :
    Agrees related stopped marked (change <$> first) (change <$> second) := by
  intro state
  refine ⟨step.respects.map change state, ?_⟩
  rw [Checked.run_map, Checked.run_map]
  rcases (step state).same with hit | equal
  · exact .inl hit
  · rw [equal]
    exact .inr rfl

/-- What follows may depend on the state. -/
theorem get_bind {next next' : σ → Checked σ α}
    (each : ∀ state, AgreesAt related stopped marked state (next state) (next' state)) :
    Agrees related stopped marked (MonadState.get >>= next) (MonadState.get >>= next') :=
  fun state => ⟨(each state).leads, (each state).same⟩

variable [Stopping related stopped]

/-- A value alone. -/
theorem pure (result : α) :
    Agrees related stopped marked (Pure.pure result : Checked σ α) (Pure.pure result) :=
  itself (.pure result)

variable [Marking related stopped marked]

/-- One step after another. -/
theorem bind {first second : Checked σ α} {next next' : α → Checked σ β}
    (step : Agrees related stopped marked first second)
    (after : ∀ result, Agrees related stopped marked (next result) (next' result)) :
    Agrees related stopped marked (first >>= next) (second >>= next') :=
  fun state => (step state).bind fun result between _ => after result between

/-- A step for each element of a list. -/
theorem mapM {step step' : α → Checked σ β} {elements : List α}
    (each : ∀ element ∈ elements, Agrees related stopped marked (step element) (step' element)) :
    Agrees related stopped marked (elements.mapM step) (elements.mapM step') := by
  induction elements with
  | nil => exact pure []
  | cons first rest inductionHypothesis =>
    have others := inductionHypothesis fun element member =>
      each element (List.mem_cons_of_mem first member)
    rw [List.mapM_cons, List.mapM_cons]
    exact bind (each first List.mem_cons_self) fun _ => bind others fun _ => pure _

end Agrees

namespace AgreesEither

/-- The first work respects the relation. -/
theorem respects {first second : ExceptT ε (Checked σ) α}
    (agrees : AgreesEither related stopped marked telling first second) :
    RespectsEither related stopped first := fun state => (agrees state).leads

/-- Work agrees with itself. -/
theorem itself {work : ExceptT ε (Checked σ) α} (respects : RespectsEither related stopped work) :
    AgreesEither related stopped marked telling work work :=
  fun state => ⟨respects state, .inr (.inr rfl)⟩

/-- Work that cannot fail. -/
theorem lift {first second : Checked σ α} (step : Agrees related stopped marked first second) :
    AgreesEither related stopped marked telling (liftM first : ExceptT ε (Checked σ) α)
      (liftM second) :=
  fun state => ⟨((step.map Except.ok) state).leads, ((step.map Except.ok) state).same.imp_right .inr⟩

/-- What follows may depend on the state. -/
theorem get_bind {next next' : σ → ExceptT ε (Checked σ) α}
    (each : ∀ state,
      AgreesEitherAt related stopped marked telling state (next state) (next' state)) :
    AgreesEither related stopped marked telling (MonadState.get >>= next)
      (MonadState.get >>= next') :=
  fun state => ⟨(each state).leads, (each state).same⟩

variable [Stopping related stopped]

/-- A value alone. -/
theorem pure (result : α) :
    AgreesEither related stopped marked telling (Pure.pure result : ExceptT ε (Checked σ) α)
      (Pure.pure result) :=
  itself (.pure result)

/-- A failure alone. -/
theorem throw (cause : ε) :
    AgreesEither related stopped marked telling (throw cause : ExceptT ε (Checked σ) α)
      (throw cause) :=
  itself (.throw cause)

/-- A failure for a telling cause agrees with anything. -/
theorem of_telling {cause : ε} (tells : telling cause) (second : ExceptT ε (Checked σ) α) :
    AgreesEither related stopped marked telling (throwThe ε cause) second :=
  fun state => ⟨RespectsEither.throw cause state, .inr (.inl ⟨cause, tells, rfl⟩)⟩

/-- An outcome alone. -/
theorem outcome (result : Except ε α) :
    AgreesEither related stopped marked telling (liftExcept result : ExceptT ε (Checked σ) α)
      (liftExcept result) :=
  itself (.outcome result)

variable [Marking related stopped marked]

/-- One step after another; after a failure nothing more happens. -/
theorem bind {first second : ExceptT ε (Checked σ) α} {next next' : α → ExceptT ε (Checked σ) β}
    (step : AgreesEither related stopped marked telling first second)
    (after : ∀ result, AgreesEither related stopped marked telling (next result) (next' result)) :
    AgreesEither related stopped marked telling (first >>= next) (second >>= next') :=
  fun state => (step state).bind fun result between _ => after result between

/-- A step for each element of a list, up to the first failure. -/
theorem mapM {step step' : α → ExceptT ε (Checked σ) β} (elements : List α)
    (each : ∀ element, AgreesEither related stopped marked telling (step element)
      (step' element)) :
    AgreesEither related stopped marked telling (elements.mapM step) (elements.mapM step') := by
  induction elements with
  | nil => exact pure []
  | cons first rest inductionHypothesis =>
    rw [List.mapM_cons, List.mapM_cons]
    exact bind (each first) fun _ => bind inductionHypothesis fun _ => pure _

/-- Work that goes on after a failure and leaves a mark if its cause is telling. -/
theorem handle {first second : ExceptT ε (Checked σ) α} {next next' : Except ε α → Checked σ β}
    (step : AgreesEither related stopped marked telling first second)
    (after : ∀ result, Agrees related stopped marked (next result) (next' result))
    (marks : ∀ cause, telling cause → ∀ state,
      marked state ((next (.error cause)).run.run state).2) :
    Agrees related stopped marked (first.run >>= next) (second.run >>= next') := by
  intro state
  obtain ⟨led, same⟩ := step state
  refine ⟨Leads.bind led fun result between _ => (after result).respects between, ?_⟩
  rw [Checked.run_bind, Checked.run_bind]
  generalize first.run.run.run state = outcome at led same ⊢
  obtain ⟨_ | result, between⟩ := outcome
  · rcases same with hit | ⟨_, _, failed⟩ | equal
    · exact .inl hit
    · cases failed
    · rw [equal]
      exact .inr rfl
  · rcases same with hit | ⟨cause, tells, failed⟩ | equal
    · exact .inl (Marking.leads hit ((after result).respects between))
    · cases failed
      exact .inl (Marking.before stopped led (marks cause tells between))
    · rw [equal]
      exact ((after result) between).same.imp_left (Marking.before stopped led)

end AgreesEither

end DynamicPrompt
