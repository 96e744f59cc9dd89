import DynamicPrompt.Choice.Basic
import DynamicPrompt.Random

/-!
# Pools of choices

A pool holds the choices that can be drawn: those of positive finite weight. A draw takes
one choice away, and an empty pool is filled again from the choices it was built with
before the next draw. A draw therefore yields nothing only if the pool was built without a
usable choice.

A random draw takes one word and walks along the weights of the choices left. The weight
of the pool is kept as it was left by the draws so far, so rounding may carry the walk
beyond the last choice, which then counts as found. A fixed selection takes no word.
-/

namespace DynamicPrompt

/-- How a draw picks among the choices left: at random by weight, or at a fixed place
taken modulo their number. -/
inductive Selection where
  | random
  | place (index : Nat)
deriving DecidableEq, Repr

/-- The choices left, the choices to fill up from, the weight left, and how often the pool
was filled up. -/
structure Pool where
  left : List Choice
  kept : List Choice
  weight : Float
  refills : Nat

namespace Pool

/-- Whether a choice can be drawn. -/
def isUsable (choice : Choice) : Bool := choice.weight > 0 && choice.weight.isFinite

/-- The sum of the weights, added in order. -/
def weightOf (choices : List Choice) : Float :=
  choices.foldl (fun total choice => total + choice.weight) 0

/-- The pool of the usable choices of a list. -/
def ofChoices (choices : List Choice) : Pool :=
  let kept := choices.filter isUsable
  ⟨kept, kept, weightOf kept, 0⟩

/-- The pool filled up from the choices it was built with. -/
def refill (pool : Pool) : Pool :=
  { pool with left := pool.kept, weight := weightOf pool.kept, refills := pool.refills + 1 }

/-- The place where a walk along the weights stops: the first choice whose weight exceeds
what is left of the target, or else the last one. -/
def walk (target : Float) : List Choice → Nat
  | [] | [_] => 0
  | choice :: others =>
    if target < choice.weight then 0 else walk (target - choice.weight) others + 1

/-- The place that a selection picks among the choices left. -/
def pick (pool : Pool) (selection : Selection) (stream : Random.Stream) :
    Nat × Random.Stream :=
  match selection with
  | .place index => (index % pool.left.length, stream)
  | .random =>
    let (unit, stream) := stream.unit
    (walk (unit * pool.weight) pool.left, stream)

/-- The pool without the choice at a place. -/
def take (pool : Pool) (place : Nat) : Option Choice × Pool :=
  match pool.left[place]? with
  | none => (none, pool)
  | some choice =>
    let left := pool.left.eraseIdx place
    let rest := pool.weight - choice.weight
    let weight := if !left.isEmpty && rest > 0 then rest else 0
    (some choice, { pool with left, weight })

/-- One draw. -/
def draw (pool : Pool) (selection : Selection) (stream : Random.Stream) :
    Option Choice × Pool × Random.Stream :=
  if pool.kept.isEmpty then (none, pool, stream)
  else
    let filled := if pool.left.isEmpty then pool.refill else pool
    let (place, stream) := filled.pick selection stream
    let (choice, pool) := filled.take place
    (choice, pool, stream)

/-- Several draws, in order. -/
def drawMany (pool : Pool) (selection : Selection) (stream : Random.Stream) :
    Nat → List Choice × Pool × Random.Stream
  | 0 => ([], pool, stream)
  | count + 1 =>
    let (choice, pool, stream) := pool.draw selection stream
    let (choices, pool, stream) := pool.drawMany selection stream count
    (choice.toList ++ choices, pool, stream)

end Pool

end DynamicPrompt
