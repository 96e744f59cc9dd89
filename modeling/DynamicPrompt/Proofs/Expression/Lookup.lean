import DynamicPrompt.Expression.Evaluation
import DynamicPrompt.Proofs.Agreement

/-!
# Evaluation acts through lookups

An expression has no effects of its own: all that its evaluation does to a state is done by the
lookups of its names. So every relation between two pieces of work that is kept by one step after
another passes from the lookups to the evaluations. Three laws are cases of this. Whatever relation
between states the lookups respect, the evaluation respects, whether it fails or not. Where two
lookups agree up to a mark, evaluations against them do. And if looking up the names of an expression
has no effect, the evaluation has none, and its outcome is that of evaluating against the values
found.
-/

namespace DynamicPrompt.Expression

mutual

/-- The names that an expression reads, each as often as it stands there. -/
def names : Expr → List Text
  | .literal _ => []
  | .name name => [name]
  | .call _ arguments => namesAll arguments
  | .unary _ operand => names operand
  | .binary _ left right => names left ++ names right

/-- The names that several expressions read. -/
def namesAll : List Expr → List Text
  | [] => []
  | e :: es => names e ++ namesAll es

end

variable {functions : Dictionary Function}

section Relating

variable {m m' : Type → Type} [Monad m] [Monad m']
  {same : ∀ {α : Type}, ExceptT Error m α → ExceptT Error m' α → Prop} (congruence : IsCongruence same)
  (lookup : Text → m (Option Value)) (lookup' : Text → m' (Option Value))

include congruence

mutual

/-- Evaluations are related if the lookups of the names are. -/
theorem evaluate_related : ∀ e : Expr,
    (∀ name ∈ names e, same (liftM (lookup name)) (liftM (lookup' name))) →
      same (evaluate lookup functions e) (evaluate lookup' functions e)
  | .literal value, _ => by
    rw [evaluate, evaluate]
    exact congruence.outcome (.ok value)
  | .name name, looksUp => by
    rw [evaluate, evaluate]
    refine congruence.bind (looksUp name List.mem_cons_self) fun found => ?_
    cases found with
    | some value => exact congruence.outcome (.ok value)
    | none => exact congruence.outcome (.error _)
  | .call name arguments, looksUp => by
    rw [evaluate, evaluate]
    exact congruence.bind (evaluateAll_related arguments looksUp) fun _ => congruence.outcome _
  | .unary operator operand, looksUp => by
    rw [evaluate, evaluate]
    exact congruence.bind (evaluate_related operand looksUp) fun _ => congruence.outcome _
  | .binary operator left right, looksUp => by
    have first : same (evaluate lookup functions left) (evaluate lookup' functions left) :=
      evaluate_related left fun name member => looksUp name (List.mem_append_left _ member)
    have second : same (evaluate lookup functions right) (evaluate lookup' functions right) :=
      evaluate_related right fun name member => looksUp name (List.mem_append_right _ member)
    -- the logical operators may leave out their right operand
    by_cases disjunction : operator = .or
    · subst disjunction
      rw [evaluate, evaluate]
      refine congruence.bind first fun value => ?_
      split
      · exact congruence.outcome (.ok _)
      · exact congruence.bind second fun _ => congruence.outcome (.ok _)
    · by_cases conjunction : operator = .and
      · subst conjunction
        rw [evaluate, evaluate]
        refine congruence.bind first fun value => ?_
        split
        · exact congruence.bind second fun _ => congruence.outcome (.ok _)
        · exact congruence.outcome (.ok _)
      · rw [evaluate, evaluate]
        · exact congruence.bind first fun _ =>
            congruence.bind second fun _ => congruence.outcome _
        · exact disjunction
        · exact conjunction
        · exact disjunction
        · exact conjunction

/-- Evaluations of several expressions are related if the lookups of their names are. -/
theorem evaluateAll_related : ∀ es : List Expr,
    (∀ name ∈ namesAll es, same (liftM (lookup name)) (liftM (lookup' name))) →
      same (evaluateAll lookup functions es) (evaluateAll lookup' functions es)
  | [], _ => by
    rw [evaluateAll, evaluateAll]
    exact congruence.outcome (.ok [])
  | e :: es, looksUp => by
    have first : same (evaluate lookup functions e) (evaluate lookup' functions e) :=
      evaluate_related e fun name member => looksUp name (List.mem_append_left _ member)
    have others : same (evaluateAll lookup functions es) (evaluateAll lookup' functions es) :=
      evaluateAll_related es fun name member => looksUp name (List.mem_append_right _ member)
    rw [evaluateAll, evaluateAll]
    exact congruence.bind first fun _ => congruence.bind others fun _ => congruence.outcome (.ok _)

end

end Relating

variable {σ : Type} {lookup : Text → Checked σ (Option Value)}

/-- Evaluation respects what lookups respect. -/
theorem evaluate_respects {related stopped : σ → σ → Prop} [Stopping related stopped]
    (looksUp : ∀ name, Respects related stopped (lookup name)) (e : Expr) :
    RespectsEither related stopped (evaluate lookup functions e) := by
  have congruence : IsCongruence fun {_} (work : ExceptT Error (Checked σ) _)
      (_ : ExceptT Error (Checked σ) _) => RespectsEither related stopped work := ⟨.outcome, .bind⟩
  exact evaluate_related congruence lookup lookup e fun name _ => .lift (looksUp name)

/-- Evaluations agree where lookups agree. -/
theorem evaluate_agrees {lookup' : Text → Checked σ (Option Value)}
    {related stopped marked : σ → σ → Prop} {telling : Error → Prop} [Stopping related stopped]
    [Marking related stopped marked]
    (looksUp : ∀ name, Agrees related stopped marked (lookup name) (lookup' name)) (e : Expr) :
    AgreesEither related stopped marked telling (evaluate lookup functions e)
      (evaluate lookup' functions e) := by
  have congruence : IsCongruence fun {_} => AgreesEither related stopped marked telling :=
    ⟨.outcome, .bind⟩
  exact evaluate_related congruence lookup lookup' e fun name _ => .lift (looksUp name)

/-- If the lookups of its names only read, evaluation only reads. -/
theorem evaluate_reads {state : σ} {value : Text → Option Value} (e : Expr)
    (reads : ∀ name ∈ names e, (lookup name).run.run state = (some (value name), state)) :
    Reads state (evaluate lookup functions e)
      (evaluate (fun name => (pure (value name) : Id (Option Value))) functions e) := by
  have congruence : IsCongruence fun {α} (work : ExceptT Error (Checked σ) α) => Reads state work :=
    ⟨.outcome, .bind⟩
  exact evaluate_related congruence lookup _ e fun name member => .lift (reads name member)

end DynamicPrompt.Expression
