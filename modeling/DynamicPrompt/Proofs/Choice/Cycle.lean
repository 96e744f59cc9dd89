import DynamicPrompt.Choice.Pool
import Mathlib.Data.List.FinRange
import Mathlib.Data.List.InsertIdx
import Mathlib.Data.List.Perm.Subperm
import Mathlib.Data.List.ReduceOption

/-!
# Draws come in rounds

Choices are drawn without replacement until none is left, and then all over again. A run of draws
is therefore cut into rounds: every finished round has drawn each kept choice once, the one under
way has drawn some of them once, and the pool holds the others in their original order. This is so
whatever policy each draw follows, whatever words it takes, and wherever the walk along the weights
stops, because a draw picks some place among the choices left and takes away what is there.

Choices may be equal to each other, so a round is told by the places of its choices among the kept
ones. The round under way is left finished until the next draw; only that draw fills the pool up.
-/

namespace DynamicPrompt.Pool

/-- Draws one after the other, each by a policy and from words of its own: what they yield, and the
pool after them. -/
def drawEach (pool : Pool) : List (Selection × Random.Stream) → List (Option Choice) × Pool
  | [] => ([], pool)
  | (selection, stream) :: others =>
    let (choice, pool, _) := pool.draw selection stream
    let (choices, pool) := pool.drawEach others
    (choice :: choices, pool)

/-- Several draws from one stream are draws one after the other. Each begins with the words that
the one before it has left. -/
theorem drawMany_eq_drawEach (selection : Selection) (count : Nat) (pool : Pool)
    (stream : Random.Stream) :
    ∃ draws : List (Selection × Random.Stream), draws.length = count ∧
      (∀ draw ∈ draws, draw.1 = selection) ∧
      (pool.drawMany selection stream count).1 = (pool.drawEach draws).1.reduceOption ∧
      (pool.drawMany selection stream count).2.1 = (pool.drawEach draws).2 := by
  induction count generalizing pool stream with
  | zero => exact ⟨[], rfl, by simp, rfl, rfl⟩
  | succ count inductionHypothesis =>
    obtain ⟨draws, number, policy, yielded, after⟩ :=
      inductionHypothesis (pool.draw selection stream).2.1 (pool.draw selection stream).2.2
    refine ⟨(selection, stream) :: draws, by simp [number], by simpa using policy, ?_, after⟩
    rw [drawMany, drawEach]
    dsimp only
    rw [yielded]
    cases (pool.draw selection stream).1 with
    | none => rfl
    | some choice => rfl

/-- A walk along some choices stops at one of them. -/
theorem walk_lt {choices : List Choice} (filled : choices ≠ []) (target : Float) :
    walk target choices < choices.length := by
  induction choices generalizing target with
  | nil => exact absurd rfl filled
  | cons choice others inductionHypothesis =>
    cases others with
    | nil => simp [walk]
    | cons second others =>
      rw [walk]
      split
      · simp
      · have inside := inductionHypothesis (List.cons_ne_nil second others)
          (target - choice.weight)
        exact Nat.succ_lt_succ inside
      · simp

/-- Every policy picks a place among the choices left, if there are any. -/
theorem pick_lt {pool : Pool} (filled : pool.left ≠ []) (selection : Selection)
    (stream : Random.Stream) : (pool.pick selection stream).1 < pool.left.length := by
  cases selection with
  | place index => exact Nat.mod_lt _ (List.length_pos_iff.2 filled)
  | random => exact walk_lt filled _

/-- The choices that a round has not drawn, in their original order. -/
def remaining (kept : List Choice) (round : List (Fin kept.length)) : List Choice :=
  ((List.finRange kept.length).filter (· ∉ round)).map kept.get

section Rounds

variable {kept : List Choice} {round : List (Fin kept.length)}

/-- At the start of a round all choices remain. -/
theorem remaining_nil (kept : List Choice) : remaining kept [] = kept := by
  simp [remaining]

/-- A round with nothing left has drawn every place. -/
theorem mem_round_of_remaining_eq_nil (exhausted : remaining kept round = [])
    (place : Fin kept.length) : place ∈ round := by
  rw [remaining, List.map_eq_nil_iff, List.filter_eq_nil_iff] at exhausted
  simpa using exhausted place (List.mem_finRange place)

/-- A round that has drawn every place once is a permutation of the places. -/
theorem perm_finRange (distinct : round.Nodup) (complete : ∀ place, place ∈ round) :
    round.Perm (List.finRange kept.length) :=
  (List.perm_ext_iff_of_nodup distinct (List.nodup_finRange _)).2 fun place => by
    simp [complete place]

/-- Taking away one of the remaining choices is drawing its place: the others stay as they
stood. -/
theorem remaining_eraseIdx {index : Nat} (inside : index < (remaining kept round).length) :
    ∃ place, place ∉ round ∧ (remaining kept round)[index]? = some (kept.get place) ∧
      (remaining kept round).eraseIdx index = remaining kept (round ++ [place]) := by
  have distinct := (List.nodup_finRange kept.length).filter (· ∉ round)
  have within : index < ((List.finRange kept.length).filter (· ∉ round)).length := by
    simpa [remaining] using inside
  refine ⟨((List.finRange kept.length).filter (· ∉ round))[index], ?_, ?_, ?_⟩
  · have member := List.getElem_mem within
    rw [List.mem_filter] at member
    simpa using member.2
  · rw [remaining, List.getElem?_map, List.getElem?_eq_getElem within]
    rfl
  · rw [remaining, remaining, List.eraseIdx_map, ← distinct.erase_getElem index within,
      distinct.erase_eq_filter, List.filter_filter]
    refine congrArg (List.map kept.get) (List.filter_congr fun place _ => Bool.eq_iff_iff.2 ?_)
    simp [and_comm]

/-- What is taken from the remaining choices is the choice at a place that the round has not drawn,
and nothing but the choices left and their weight changes. -/
theorem take_remaining {pool : Pool} {index : Nat} (left : pool.left = remaining kept round)
    (inside : index < pool.left.length) :
    ∃ place, place ∉ round ∧ (pool.take index).1 = some (kept.get place) ∧
      (pool.take index).2.left = remaining kept (round ++ [place]) ∧
      (pool.take index).2.kept = pool.kept ∧ (pool.take index).2.refills = pool.refills := by
  rw [left] at inside
  obtain ⟨place, fresh, drawn, others⟩ := remaining_eraseIdx inside
  have found : pool.left[index]? = some (kept.get place) := by rw [left, drawn]
  refine ⟨place, fresh, ?_, ?_, ?_, ?_⟩
  · rw [take, found]
  · rw [take, found]
    dsimp only
    rw [left, others]
  · rw [take, found]
  · rw [take, found]

/-- How a pool stands when these rounds are finished and the round under way has drawn these
places. -/
structure Stands (kept : List Choice) (finished : List (List (Fin kept.length)))
    (round : List (Fin kept.length)) (pool : Pool) : Prop where
  source : pool.kept = kept
  left : pool.left = remaining kept round
  refills : pool.refills = finished.length
  complete : ∀ past ∈ finished, past.Perm (List.finRange kept.length)
  distinct : round.Nodup
  begun : finished ≠ [] → round ≠ []

/-- Before the first draw there is no round. -/
theorem stands_ofChoices (choices : List Choice) :
    Stands (choices.filter isUsable) [] [] (ofChoices choices) where
  source := rfl
  left := (remaining_nil _).symm
  refills := rfl
  complete := by simp
  distinct := List.nodup_nil
  begun := fun finished => absurd rfl finished

/-- A draw takes one of the choices left, or of all of them again if none is left. -/
theorem draw_eq {pool : Pool} (filled : pool.kept.isEmpty = false) (selection : Selection)
    (stream : Random.Stream) :
    pool.draw selection stream =
      let pool := if pool.left.isEmpty then pool.refill else pool
      let picked := pool.pick selection stream
      ((pool.take picked.1).1, (pool.take picked.1).2, picked.2) := by
  rw [draw, filled]
  rfl

/-- A draw goes on with the round under way or, if that has drawn every place, begins another. -/
theorem Stands.draw {pool : Pool} {finished : List (List (Fin kept.length))}
    (stands : Stands kept finished round pool) (usable : kept ≠ []) (selection : Selection)
    (stream : Random.Stream) :
    ∃ place finished' round', (pool.draw selection stream).1 = some (kept.get place) ∧
      finished'.flatten ++ round' = finished.flatten ++ round ++ [place] ∧
      Stands kept finished' round' (pool.draw selection stream).2.1 := by
  have filled : pool.kept.isEmpty = false := by simpa [stands.source] using usable
  by_cases exhausted : pool.left = []
  · have full : remaining kept round = [] := stands.left ▸ exhausted
    have again : pool.refill.left = remaining kept [] := by
      rw [remaining_nil]
      exact stands.source
    have some_left : pool.refill.left ≠ [] := by
      rw [again, remaining_nil]
      exact usable
    obtain ⟨place, -, drawn, left, same, refills⟩ :=
      take_remaining again (pick_lt some_left selection stream)
    have started := draw_eq filled selection stream
    rw [exhausted] at started
    refine ⟨place, finished ++ [round], [place], ?_, by simp, ?_⟩
    · rw [started]
      exact drawn
    · rw [started]
      refine ⟨same.trans stands.source, left, refills.trans ?_, ?_, List.nodup_singleton place,
        fun _ => List.cons_ne_nil place []⟩
      · rw [List.length_append, ← stands.refills]
        rfl
      · intro past member
        rcases List.mem_append.1 member with earlier | last
        · exact stands.complete past earlier
        · rw [List.mem_singleton.1 last]
          exact perm_finRange stands.distinct (mem_round_of_remaining_eq_nil full)
  · obtain ⟨place, fresh, drawn, left, same, refills⟩ :=
      take_remaining stands.left (pick_lt exhausted selection stream)
    have some_left : pool.left.isEmpty = false := by simpa using exhausted
    have continued := draw_eq filled selection stream
    rw [some_left] at continued
    refine ⟨place, finished, round ++ [place], ?_, by simp, ?_⟩
    · rw [continued]
      exact drawn
    · rw [continued]
      exact ⟨same.trans stands.source, left, refills.trans stands.refills, stands.complete,
        List.nodup_append_comm.1 (List.nodup_cons.2 ⟨fresh, stands.distinct⟩), by simp⟩

/-- A run of draws, from wherever the pool stands: the places drawn follow those drawn before. -/
theorem Stands.drawEach {finished : List (List (Fin kept.length))} {pool : Pool}
    (stands : Stands kept finished round pool) (usable : kept ≠ [])
    (draws : List (Selection × Random.Stream)) :
    ∃ places finished' round', places.length = draws.length ∧
      (pool.drawEach draws).1 = places.map (fun place => some (kept.get place)) ∧
      finished'.flatten ++ round' = finished.flatten ++ round ++ places ∧
      Stands kept finished' round' (pool.drawEach draws).2 := by
  induction draws generalizing finished round pool with
  | nil => exact ⟨[], finished, round, rfl, rfl, by simp, stands⟩
  | cons draw others inductionHypothesis =>
    obtain ⟨selection, stream⟩ := draw
    obtain ⟨place, finished', round', drawn, order, next⟩ := stands.draw usable selection stream
    obtain ⟨places, finished'', round'', number, yielded, order', last⟩ :=
      inductionHypothesis next
    refine ⟨place :: places, finished'', round'', by simp [number], ?_, ?_, last⟩
    · rw [Pool.drawEach, List.map_cons, ← drawn, ← yielded]
    · rw [order', order, List.append_assoc, List.singleton_append]

/-- Several draws at once, from wherever the pool stands: as many choices as are asked for, at places
that follow those drawn before. -/
theorem Stands.drawMany {finished : List (List (Fin kept.length))} {pool : Pool}
    (stands : Stands kept finished round pool) (usable : kept ≠ []) (selection : Selection)
    (stream : Random.Stream) (count : Nat) :
    ∃ places finished' round', places.length = count ∧
      (pool.drawMany selection stream count).1 = places.map kept.get ∧
      finished'.flatten ++ round' = finished.flatten ++ round ++ places ∧
      Stands kept finished' round' (pool.drawMany selection stream count).2.1 := by
  obtain ⟨draws, number, -, several, after⟩ := drawMany_eq_drawEach selection count pool stream
  obtain ⟨places, finished', round', length, yielded, order, stands'⟩ :=
    stands.drawEach usable draws
  refine ⟨places, finished', round', length.trans number, ?_, order, ?_⟩
  · rw [several, yielded, List.reduceOption, List.filterMap_map]
    exact congrFun (List.filterMap_eq_map (f := kept.get)) places
  · rw [after]
    exact stands'

/-- Rounds of one length take up that many draws each. -/
theorem length_flatten_rounds {α : Type} {size : Nat} {rounds : List (List α)}
    (even : ∀ past ∈ rounds, past.length = size) :
    rounds.flatten.length = rounds.length * size := by
  induction rounds with
  | nil => simp
  | cons first others inductionHypothesis =>
    have rest := inductionHypothesis fun past member => even past (List.mem_cons_of_mem first member)
    rw [List.flatten_cons, List.length_append, rest, even first List.mem_cons_self,
      List.length_cons, Nat.succ_mul, Nat.add_comm]

/-- Dropping as many blocks of one length as one likes from the rounds drops whole rounds. -/
theorem drop_rounds {α : Type} {size : Nat} {rounds : List (List α)}
    (even : ∀ past ∈ rounds, past.length = size) (last : List α) {block : Nat}
    (within : block ≤ rounds.length) :
    (rounds.flatten ++ last).drop (block * size) = (rounds.drop block).flatten ++ last := by
  induction rounds generalizing block with
  | nil => simp [Nat.le_zero.1 within]
  | cons first others inductionHypothesis =>
    cases block with
    | zero => simp
    | succ block =>
      have rest := inductionHypothesis
        (fun past member => even past (List.mem_cons_of_mem first member))
        (Nat.le_of_succ_le_succ within)
      rw [List.flatten_cons, List.append_assoc, Nat.succ_mul, Nat.add_comm (block * size),
        List.drop_append, ← even first List.mem_cons_self, List.drop_eq_nil_of_le (Nat.le_add_right _ _),
        Nat.add_sub_cancel_left, List.nil_append, even first List.mem_cons_self, rest,
        List.drop_succ_cons]

/-- An element that no round has twice is in no more places than there are rounds. -/
theorem count_flatten_rounds {α : Type} [DecidableEq α] {rounds : List (List α)}
    (distinct : ∀ past ∈ rounds, past.Nodup) (element : α) :
    rounds.flatten.count element ≤ rounds.length := by
  induction rounds with
  | nil => simp
  | cons first others inductionHypothesis =>
    have rest :=
      inductionHypothesis fun past member => distinct past (List.mem_cons_of_mem first member)
    have once := List.nodup_iff_count_le_one.1 (distinct first List.mem_cons_self) element
    rw [List.flatten_cons, List.count_append, List.length_cons]
    omega

/-- The number of rounds that have begun is the number of draws divided by the size of a round and
rounded up. -/
theorem rounds_begun {finished current size : Nat} (bound : current ≤ size) (begun : 0 < current) :
    (finished * size + current + size - 1) / size = finished + 1 := by
  have regrouped : finished * size + current + size - 1 =
      (current - 1) + (finished + 1) * size := by
    rw [Nat.succ_mul]
    omega
  rw [regrouped, Nat.add_mul_div_right _ _ (Nat.lt_of_lt_of_le begun bound),
    Nat.div_eq_of_lt (by omega), Nat.zero_add]

namespace Stands

variable {finished : List (List (Fin kept.length))} {pool : Pool}
  (stands : Stands kept finished round pool)

include stands

/-- As long as nothing has been drawn from the round under way, no round is finished. -/
theorem unfinished (fresh : round = []) : finished = [] := by
  by_contra later
  exact stands.begun later fresh

/-- A finished round is as long as the list of the kept choices. -/
theorem even (past : List (Fin kept.length)) (member : past ∈ finished) :
    past.length = kept.length := by
  rw [(stands.complete past member).length_eq, List.length_finRange]

/-- The places of the round under way are among all places. -/
theorem round_subperm : round.Subperm (List.finRange kept.length) :=
  List.subperm_of_subset stands.distinct fun place _ => List.mem_finRange place

/-- A round is no longer than the list of the kept choices. -/
theorem round_le : round.length ≤ kept.length := by
  simpa using stands.round_subperm.length_le

/-- The draws are those of the finished rounds and those of the round under way. -/
theorem length_order :
    (finished.flatten ++ round).length = finished.length * kept.length + round.length := by
  rw [List.length_append, length_flatten_rounds stands.even]

/-- The pool has been filled up for every round but the first. -/
theorem refills_eq :
    pool.refills =
      ((finished.flatten ++ round).length + kept.length - 1) / kept.length - 1 := by
  rw [stands.refills, stands.length_order]
  by_cases fresh : round = []
  · have first : finished = [] := stands.unfinished fresh
    subst fresh first
    cases size : kept.length with
    | zero => simp
    | succ size => simp [Nat.div_eq_of_lt]
  · rw [rounds_begun stands.round_le (List.length_pos_iff.2 fresh), Nat.add_sub_cancel]

/-- A block of draws that is aligned with the rounds is a round. -/
theorem block_perm {block : Nat} (within : block < (finished.flatten ++ round).length / kept.length) :
    (((finished.flatten ++ round).drop (block * kept.length)).take kept.length).Perm
      (List.finRange kept.length) := by
  have positive : 0 < kept.length := by
    rcases Nat.eq_zero_or_pos kept.length with empty | filled
    · simp [empty] at within
    · exact filled
  have reached : (block + 1) * kept.length ≤ finished.length * kept.length + round.length := by
    rw [← stands.length_order]
    exact (Nat.le_div_iff_mul_le positive).1 within
  rcases Nat.lt_or_ge block finished.length with earlier | later
  · rw [drop_rounds stands.even round (Nat.le_of_lt earlier), List.drop_eq_getElem_cons earlier,
      List.flatten_cons, List.append_assoc,
      List.take_left' (stands.even _ (List.getElem_mem earlier))]
    exact stands.complete _ (List.getElem_mem earlier)
  · -- only the round under way is left, and the block fits into it
    have same : block = finished.length := by
      by_contra other
      have beyond : finished.length + 2 ≤ block + 1 := by omega
      have longer := Nat.mul_le_mul_right kept.length beyond
      rw [Nat.add_mul] at longer
      have bound := stands.round_le
      omega
    subst same
    rw [Nat.succ_mul] at reached
    have whole : kept.length ≤ round.length := Nat.le_of_add_le_add_left reached
    rw [drop_rounds stands.even round (Nat.le_refl _), List.drop_length, List.flatten_nil,
      List.nil_append, List.take_of_length_le stands.round_le]
    exact stands.round_subperm.perm_of_length_le (by simpa using whole)

/-- No place is drawn more often than rounds have begun. -/
theorem count_le (place : Fin kept.length) :
    (finished.flatten ++ round).count place ≤
      ((finished.flatten ++ round).length + kept.length - 1) / kept.length := by
  by_cases fresh : round = []
  · have first : finished = [] := stands.unfinished fresh
    subst fresh first
    simp
  · have past := count_flatten_rounds
      (fun past member => (stands.complete past member).nodup_iff.2 (List.nodup_finRange _)) place
    have current := List.nodup_iff_count_le_one.1 stands.distinct place
    rw [stands.length_order, rounds_begun stands.round_le (List.length_pos_iff.2 fresh),
      List.count_append]
    exact Nat.add_le_add past current

end Stands

end Rounds

/-- What draws from some kept choices come to when they cycle: every draw yields a kept choice;
every aligned block of as many draws as there are kept choices is a permutation of them; the pool
has been filled up for every block that has begun but the first; and the draws of the last block,
which need not be complete, are of different places, while the pool holds the choices at the other
places in their original order. -/
structure Cycles (kept : List Choice) (drawn : List (Option Choice)) (pool : Pool) : Prop where
  yields : ∀ choice ∈ drawn, ∃ usable ∈ kept, choice = some usable
  blocks : ∀ block < drawn.length / kept.length,
    ((drawn.drop (block * kept.length)).take kept.length).Perm (kept.map some)
  refills : pool.refills = (drawn.length + kept.length - 1) / kept.length - 1
  last : ∃ round : List (Fin kept.length), round.Nodup ∧
    drawn.drop (pool.refills * kept.length) = round.map (fun place => some (kept.get place)) ∧
    pool.left = remaining kept round

/-- Where a pool stands says what the draws so far have come to. -/
theorem Stands.cycles {kept : List Choice} {finished : List (List (Fin kept.length))}
    {round : List (Fin kept.length)} {pool : Pool} (stands : Stands kept finished round pool) :
    Cycles kept ((finished.flatten ++ round).map fun place => some (kept.get place)) pool where
  yields := by
    intro choice member
    obtain ⟨place, -, rfl⟩ := List.mem_map.1 member
    exact ⟨kept.get place, List.get_mem kept place, rfl⟩
  blocks := by
    intro block within
    rw [List.length_map] at within
    have whole := (stands.block_perm within).map fun place => some (kept.get place)
    have places : (List.finRange kept.length).map (fun place => some (kept.get place)) =
        kept.map some := by
      rw [← Function.comp_def some kept.get, ← List.map_map, List.map_get_finRange]
    rwa [places, List.map_take, List.map_drop] at whole
  refills := by
    rw [List.length_map]
    exact stands.refills_eq
  last := by
    refine ⟨round, stands.distinct, ?_, stands.left⟩
    rw [← List.map_drop, stands.refills, drop_rounds stands.even round (Nat.le_refl _),
      List.drop_length, List.flatten_nil, List.nil_append]

/-- A pool without a usable choice yields nothing. -/
theorem drawEach_unusable {pool : Pool} (unusable : pool.kept = [])
    (draws : List (Selection × Random.Stream)) :
    (pool.drawEach draws).1 = draws.map fun _ => none := by
  induction draws with
  | nil => rfl
  | cons draw others inductionHypothesis =>
    have same : pool.draw draw.1 draw.2 = (none, pool, draw.2) := by simp [Pool.draw, unusable]
    rw [drawEach, same, List.map_cons]
    dsimp only
    rw [inductionHypothesis]

/-- Draws without replacement cycle. From the choices of any list, let each draw follow a policy of
its own and take words of its own. If no choice has a positive finite weight, every draw yields
nothing. Otherwise the draws cycle through the choices that have one, and several draws at once,
from where the run has led, yield as many choices as they are asked for. -/
theorem drawEach_cycles (choices : List Choice) (draws : List (Selection × Random.Stream)) :
    let kept := choices.filter isUsable
    let drawn := ((ofChoices choices).drawEach draws).1
    let pool := ((ofChoices choices).drawEach draws).2
    drawn.length = draws.length ∧
      (kept = [] → ∀ choice ∈ drawn, choice = none) ∧
      (kept ≠ [] → Cycles kept drawn pool ∧
        ∀ selection stream count, (pool.drawMany selection stream count).1.length = count) := by
  intro kept drawn pool
  by_cases unusable : kept = []
  · have nothing : drawn = draws.map fun _ => none := drawEach_unusable unusable draws
    refine ⟨by rw [nothing, List.length_map], fun _ choice member => ?_,
      fun usable => absurd unusable usable⟩
    rw [nothing] at member
    obtain ⟨-, -, rfl⟩ := List.mem_map.1 member
    rfl
  · obtain ⟨order, finished, round, number, yielded, whole, stands⟩ :=
      (stands_ofChoices choices).drawEach unusable draws
    have cut : order = finished.flatten ++ round := by simpa using whole.symm
    refine ⟨?_, fun empty => absurd empty unusable, fun _ => ⟨?_, ?_⟩⟩
    · exact (congrArg List.length yielded).trans (by rw [List.length_map, number])
    · have cycles := stands.cycles
      rw [← cut, ← yielded] at cycles
      exact cycles
    · intro selection stream count
      obtain ⟨places, -, -, length, several, -⟩ :=
        stands.drawMany unusable selection stream count
      exact (congrArg List.length several).trans (by rw [List.length_map, length])

/-- Three choices, one of which has no weight. -/
def wares : List Choice :=
  [Choice.plain "cup", { Choice.plain "ghost" with weight := 0 }, Choice.plain "jug"]

/-- Draws at random and at fixed places, each from the start of the same words. -/
def purchases : List (Selection × Random.Stream) :=
  [.random, .place 4, .place 1, .random, .place 3].map fun policy =>
    (policy, Random.Stream.ofSeed #[0xFFFFFFFFFFFFFFFF] 0)

/-- Five draws from two usable choices fill the pool up twice and leave one choice. -/
theorem drawEach_cycles_wares :
    wares.filter isUsable ≠ [] ∧
      Cycles (wares.filter isUsable) ((ofChoices wares).drawEach purchases).1
        ((ofChoices wares).drawEach purchases).2 ∧
      ((ofChoices wares).drawEach purchases).1.map (Option.map Choice.value) =
        ["jug", "cup", "jug", "cup", "jug"].map (some ∘ String.toList) ∧
      ((ofChoices wares).drawEach purchases).2.refills = 2 ∧
      ((ofChoices wares).drawEach purchases).2.left.map Choice.value = ["cup".toList] := by
  have kept : (wares.filter isUsable).map Choice.value = ["cup".toList, "jug".toList] := by
    decide +kernel
  have usable : wares.filter isUsable ≠ [] := by
    intro empty
    rw [empty] at kept
    exact absurd kept (by simp)
  exact ⟨usable, ((drawEach_cycles wares purchases).2.2 usable).1, by decide +kernel,
    by decide +kernel, by decide +kernel⟩

end DynamicPrompt.Pool
