import DynamicPrompt.Proofs.Engine.Advance
import DynamicPrompt.Proofs.Engine.Estimate
import DynamicPrompt.Proofs.Template.Blank

/-!
# The longest case of a match

The estimate of a case is what the case exceeds the longest one before it by, because only one case
of a match fires. What the estimate of a match has yielded so far may therefore be shorter than what
the match may yet come to: while no case has fired, a later one may yield as much as the longest
case that the estimate has passed, and that is in the record. The record is a credit that the first
case to fire uses up. No step then yields more than its estimate and the credit together, less the
credit that is left, and a match begins with a credit of nothing.

That holds where every case stands directly in its match. It fails where the estimate counts a case
into the record but not into the text: an option that is not the longest of its draw, or a case in
the body of another case that is no longer than the record.
-/

namespace DynamicPrompt

/-- A tag that may stand in a text whose cases all stand directly in a match: one that is measured,
a match of such tags, or a case in whose body such tags stand but no case. -/
inductive Directive.IsFlat : Directive → Prop where
  | measured (tag : Directive) (own : tag.IsMeasured) (argument : Text.IsMeasured tag.argumentText)
      (body : Text.IsMeasured tag.bodyText) : IsFlat tag
  | block (tag : Directive) (named : Text.lower tag.name = "wcmatch")
      (inside : ∀ inner ∈ (Template.ofText tag.bodyText).directives, IsFlat inner) : IsFlat tag
  | case (tag : Directive) (named : Text.lower tag.name = "wccase")
      (inside : ∀ inner ∈ (Template.ofText tag.bodyText).directives, IsFlat inner)
      (apart : ∀ inner ∈ (Template.ofText tag.bodyText).directives,
        Text.lower inner.name ≠ "wccase") : IsFlat tag

/-- All top-level tags of the text are flat. -/
def Text.IsFlat (text : Text) : Prop := ∀ tag ∈ (Template.ofText text).directives, tag.IsFlat

/-- No top-level tag of the text is a case. -/
def Text.IsCaseless (text : Text) : Prop :=
  ∀ tag ∈ (Template.ofText text).directives, Text.lower tag.name ≠ "wccase"

/-- A measured text is flat. -/
theorem Text.IsMeasured.isFlat {text : Text} (measured : Text.IsMeasured text) :
    Text.IsFlat text := by
  intro tag member
  have held := Template.holds_of_mem_directives member
  exact .measured tag (measured tag held) (measured.part held.hasPart_argument)
    (measured.part held.hasPart_body)

/-- No case stands in a measured text. -/
theorem Text.IsMeasured.isCaseless {text : Text} (measured : Text.IsMeasured text) :
    Text.IsCaseless text := by
  intro tag member isCase
  apply (measured tag (Template.holds_of_mem_directives member)).name
  rw [isCase]
  decide

/-- Trimming takes no tags away. -/
theorem Text.IsFlat.trim {text : Text} (flat : Text.IsFlat text) :
    Text.IsFlat (Text.trim text) := by
  intro tag member
  rw [Template.directives_trim] at member
  exact flat tag member

/-- Trimming adds no case. -/
theorem Text.IsCaseless.trim {text : Text} (caseless : Text.IsCaseless text) :
    Text.IsCaseless (Text.trim text) := by
  intro tag member
  rw [Template.directives_trim] at member
  exact caseless tag member

/-- What a match may still yield beyond its estimate: the longest case so far, while none has
fired. -/
def MatchState.credit (longest : Nat) : MatchState → Nat
  | .undecided => longest
  | .outside | .decided => 0

/-- Where a match leads there is no more credit. -/
theorem MatchState.LeadsTo.credit_le {before after : MatchState} (leads : before.LeadsTo after)
    (longest : Nat) : after.credit longest ≤ before.credit longest := by
  cases leads with
  | stays => exact Nat.le_refl _
  | fires => exact Nat.zero_le _

/-- The text that an outcome comes to: a failure yields nothing. -/
def yielded : Except Error Text → Text
  | .ok text => text
  | .error _ => []

/-- An estimate covers some work if, in whatever state that comes to an end, the text that it yields
and the credit that it leaves are no more than the estimate and the credit before. -/
def Estimate.Covers (estimate : Estimate Text) (work : Eval Text) : Prop :=
  ∀ state longest outcome after, work.run.run.run state = (some outcome, after) →
    (yielded outcome).length + after.matching.credit (estimate.run longest).2 ≤
      (estimate.run longest).1.length + state.matching.credit longest

/-- What an estimate bounds and what only advances the state adds nothing to the credit of any
record. -/
theorem Estimate.Bounds.spends {estimate : Estimate Text} {work : Eval Text}
    (bounds : estimate.Bounds work)
    (advances : RespectsEither State.Advances (fun _ _ => True) work) {state : State}
    {outcome : Except Error Text} {after : State}
    (done : work.run.run.run state = (some outcome, after)) (longest : Nat) :
    (yielded outcome).length + after.matching.credit longest ≤
      estimate.text.length + state.matching.credit longest := by
  have less := (advances.ended done).matching.credit_le longest
  have shorter : (yielded outcome).length ≤ estimate.text.length := by
    cases outcome with
    | ok text => exact bounds.longer state text after done
    | error cause => exact Nat.zero_le _
  exact Nat.add_le_add shorter less

/-- An estimate covers what it bounds, since it leaves the record alone. -/
theorem Estimate.Bounds.covers {estimate : Estimate Text} {work : Eval Text}
    (bounds : estimate.Bounds work)
    (advances : RespectsEither State.Advances (fun _ _ => True) work) : estimate.Covers work := by
  intro state longest outcome after done
  have spent := bounds.spends advances done longest
  have record : estimate.run longest = (estimate.text, longest) := by
    conv_lhs => rw [bounds.steady]
    rfl
  rw [record]
  exact spent

/-- A case leaves a record that is as much larger as the estimate is long, and no shorter than the
case. -/
theorem run_recordCase (text : Text) (longest : Nat) :
    ((recordCase text).run longest).2 = ((recordCase text).run longest).1.length + longest ∧
      text.length ≤ ((recordCase text).run longest).2 := by
  have steps : (recordCase text).run longest =
      if longest < text.length then (text.drop longest, text.length) else ([], longest) := rfl
  rw [steps]
  split
  · next exceeds =>
    rw [List.length_drop]
    omega
  · next short =>
    rw [List.length_nil]
    omega

/-- A pair of rooms in which flat texts come to no more than their estimate with an empty record. Of
those without a case the estimate leaves the record alone, and trimming them does not make it
longer. -/
structure EstimateRoom.Covers (estimates : EstimateRoom) (room : Room) : Prop where
  bounds : estimates.Bounds room
  advances : room.Respecting State.Advances fun _ _ => True
  caseless : ∀ text, Text.IsFlat text → Text.IsCaseless text →
    (estimates.estimate text).Bounds (room.expand text)
  trimmed : ∀ text, Text.IsFlat text → Text.IsCaseless text →
    (estimates.estimate (Text.trim text)).text.length ≤ (estimates.estimate text).text.length
  flat : ∀ text, Text.IsFlat text →
    Ensures (fun result => result.length ≤ (estimates.estimate text).text.length) (room.expand text)

namespace Directives

variable {estimates : EstimateRoom} {room : Room} (covers : estimates.Covers room) {d : Directive}

include covers

/-- The estimate of a match of flat tags bounds it. -/
theorem estimateMatch_bounds (flat : Text.IsFlat d.bodyText) :
    (estimateMatch estimates d).Bounds (matchBlock room d) := by
  refine .of_pure rfl ?_
  intro state text after yields
  rw [matchBlock, Room.run_expandMatch] at yields
  split at yields
  · next result between done =>
    obtain ⟨same, -⟩ := Prod.mk.inj yields
    obtain rfl := Option.some.inj same
    exact covers.flat d.bodyText flat _ text between done
  · cases yields

/-- The estimate of a case in whose body no case stands covers it. The body has no blanks around it
if the case fires on a condition. -/
theorem estimateCase_covers (flat : Text.IsFlat d.bodyText) (apart : Text.IsCaseless d.bodyText) :
    (estimateCase estimates d).Covers (matchCase room d) := by
  have body := covers.caseless d.bodyText flat apart
  have known : estimateCase estimates d = recordCase (estimates.estimate d.bodyText).text := by
    rw [estimateCase, body.steady]
    rfl
  intro state longest outcome after done
  obtain ⟨grows, fits⟩ := run_recordCase (estimates.estimate d.bodyText).text longest
  rw [known]
  generalize (recordCase (estimates.estimate d.bodyText).text).run longest = estimated at grows fits
  obtain ⟨bound, record⟩ := estimated
  dsimp only at grows fits ⊢
  cases matching : state.matching with
  | outside =>
    rw [run_matchCase_outside room d matching] at done
    cases done
    simp [yielded, matching, MatchState.credit]
  | decided =>
    rw [run_matchCase_decided room d matching] at done
    cases done
    simp [yielded, matching, MatchState.credit]
  | undecided =>
    have undecided (longest : Nat) : MatchState.undecided.credit longest = longest := rfl
    have decided (state : State) : (state.matched .decided).matching.credit record = 0 := rfl
    rw [undecided]
    cases conditional : (Text.trim d.argumentText).isEmpty with
    | true =>
      rw [run_matchCase_unconditional room matching conditional] at done
      have spent := body.spends (covers.advances.expand d.bodyText) done record
      rw [decided] at spent
      omega
    | false =>
      have condition := Room.isTrue_respects covers.advances (Text.trim d.argumentText)
      rw [run_matchCase_conditional room matching conditional] at done
      split at done
      · next between holds =>
        have shorter := covers.trimmed d.bodyText flat apart
        have spent := (covers.caseless (Text.trim d.bodyText) flat.trim apart.trim).spends
          (covers.advances.expand (Text.trim d.bodyText)) done record
        rw [decided] at spent
        omega
      · next between fails =>
        cases done
        have less := (condition.ended fails).matching.credit_le record
        rw [matching, undecided] at less
        simp only [yielded, List.length_nil]
        omega
      · cases done

end Directives

namespace Engine

variable {engine : Engine} {estimates : EstimateRoom} {room : Room}

/-- Pieces are estimated one after the other. -/
theorem run_estimateTemplate_cons (node : Node) (rest : Template) (longest : Nat) :
    (engine.estimateTemplate estimates (node :: rest)).run longest =
      let (first, between) := (engine.estimateNode estimates node).run longest
      let (others, record) := (engine.estimateTemplate estimates rest).run between
      (first ++ others, record) := by
  rw [estimateTemplate, List.mapM_cons]
  rfl

/-- If the estimate of a directive covers what its handler yields, it covers what the tag expands
to. A failure yields nothing and leaves the match as it is. -/
theorem estimateDirective_covers_of_handler {tag : Directive} {handler : Handler}
    {estimate : EstimateRoom → Directive → Estimate Text}
    (handled : engine.handler? tag.name = some handler) (stated : handler.estimate = some estimate)
    (covered : (estimate estimates tag).Covers (handler.expand room tag)) :
    (engine.estimateDirective estimates tag).Covers
      (liftM (engine.expandDirective room tag)) := by
  intro state longest outcome after done
  rw [estimateDirective_of_handler handled stated]
  rw [Checked.run_liftEither, run_expandDirective room handled] at done
  split at done
  · next text between expanded =>
    cases done
    exact covered state longest _ _ expanded
  · next cause between failed =>
    cases done
    exact covered state longest (.error cause) between failed
  · cases done

/-- If the estimate of every tag in a template covers what the tag expands to, the estimate of the
template covers the pieces one after the other: the credit that one piece leaves is the credit that
the next one finds. -/
theorem estimateTemplate_covers {template : Template}
    (tags : ∀ tag ∈ template.directives, (engine.estimateDirective estimates tag).Covers
      (liftM (engine.expandDirective room tag))) :
    (engine.estimateTemplate estimates template).Covers
      (liftM (engine.expandTemplate room template)) := by
  have each : ∀ node ∈ template, (engine.estimateNode estimates node).Covers
      (liftM (engine.expandNode room node)) := by
    intro node member
    cases node with
    | literal content =>
      intro state longest outcome after done
      cases done
      exact Nat.le_refl _
    | directive tag => exact tags tag (List.mem_filterMap.2 ⟨_, member, rfl⟩)
  clear tags
  induction template with
  | nil =>
    intro state longest outcome after done
    cases done
    exact Nat.le_refl _
  | cons node rest inductionHypothesis =>
    have first := each node List.mem_cons_self
    have others := inductionHypothesis fun node member => each node (List.mem_cons_of_mem _ member)
    intro state longest outcome after done
    rw [Checked.run_liftEither, expandTemplate_cons, Checked.run_bind] at done
    split at done
    · next text between ran =>
      rw [Checked.run_bind] at done
      split at done
      · next texts last ranOthers =>
        cases done
        have spent := first state longest (.ok text) between (by
          rw [Checked.run_liftEither, ran]
          rfl)
        have spentOthers := others between ((engine.estimateNode estimates node).run longest).2
          (.ok texts) last (by
            rw [Checked.run_liftEither, ranOthers]
            rfl)
        rw [run_estimateTemplate_cons]
        generalize (engine.estimateNode estimates node).run longest = estimated at spent spentOthers ⊢
        obtain ⟨bound, record⟩ := estimated
        dsimp only at spent spentOthers ⊢
        generalize (engine.estimateTemplate estimates rest).run record = estimated at spentOthers ⊢
        obtain ⟨bounds, record'⟩ := estimated
        dsimp only [yielded, id] at spent spentOthers ⊢
        rw [List.length_append, List.length_append]
        omega
      · cases done
    · cases done

/-- Where the estimates of all tags leave the record alone, the estimate of a template has the
estimates of the tags in place of the tags. -/
theorem estimateTemplate_collect {template : Template}
    (tags : ∀ tag ∈ template.directives, engine.estimateDirective estimates tag =
      pure (engine.estimateDirective estimates tag).text) :
    (engine.estimateTemplate estimates template).text =
      template.collect (fun c => [c]) fun tag => (engine.estimateDirective estimates tag).text := by
  have each : ∀ node ∈ template, engine.estimateNode estimates node =
      pure (engine.estimateNode estimates node).text := by
    intro node member
    cases node with
    | literal content => rfl
    | directive tag => exact tags tag (List.mem_filterMap.2 ⟨_, member, rfl⟩)
  rw [estimateTemplate, mapM_eq_pure each]
  change (template.map fun node => (engine.estimateNode estimates node).text).flatten = _
  clear each tags
  induction template with
  | nil => rfl
  | cons node rest inductionHypothesis =>
    rw [List.map_cons, List.flatten_cons, inductionHypothesis]
    cases node with
    | literal content =>
      rw [Template.collect_literal, List.flatMap_singleton']
      rfl
    | directive tag => rfl

variable (standard : engine.handlers = Directives.standard)

include standard

/-- The estimate of a flat tag that is no case bounds what the tag expands to. -/
theorem estimateDirective_bounds_flat (covers : estimates.Covers room) {tag : Directive}
    (flat : tag.IsFlat) (other : Text.lower tag.name ≠ "wccase") :
    (engine.estimateDirective estimates tag).Bounds (liftM (engine.expandDirective room tag)) := by
  cases flat with
  | measured _ own argument body =>
    exact estimateDirective_bounds standard covers.bounds own argument body
  | block _ named inside =>
    have handled : engine.handler? tag.name =
        some ⟨Directives.matchBlock, some Directives.estimateMatch⟩ := by
      rw [handler?_standard standard, named]
      rfl
    exact estimateDirective_bounds_of_handler handled rfl
      (Directives.estimateMatch_bounds covers inside)
  | case _ named _ _ => exact absurd named other

/-- The estimate of a flat tag covers what the tag expands to. -/
theorem estimateDirective_covers (language : engine.settings.language.ActsThroughLookups)
    (covers : estimates.Covers room) {tag : Directive} (flat : tag.IsFlat) :
    (engine.estimateDirective estimates tag).Covers (liftM (engine.expandDirective room tag)) := by
  by_cases isCase : Text.lower tag.name = "wccase"
  · have handled : engine.handler? tag.name =
        some ⟨Directives.matchCase, some Directives.estimateCase⟩ := by
      rw [handler?_standard standard, isCase]
      rfl
    cases flat with
    | measured _ own _ _ => exact absurd (isCase ▸ by decide) own.name
    | block _ named _ => exact absurd (isCase.symm.trans named) (by decide)
    | case _ _ inside apart =>
      exact estimateDirective_covers_of_handler handled rfl
        (Directives.estimateCase_covers covers inside apart)
  · exact (estimateDirective_bounds_flat standard covers flat isCase).covers
      (.lift (expandDirective_respects (actsThroughRooms_of_standard standard language)
        covers.advances tag))

/-- With any number of levels left, the rooms of the standard directives estimate flat texts. -/
theorem estimateWithin_covers (language : engine.settings.language.ActsThroughLookups)
    (lines : ∀ name lines, engine.settings.wildcards.find? name = some lines →
      ∀ line ∈ lines, Text.IsMeasured line) (levels : Nat) :
    EstimateRoom.Covers ⟨engine.settings, engine.estimateWithin levels⟩
      ⟨engine.settings, engine.expandWithin levels⟩ := by
  have bounds := estimateWithin_bounds standard lines levels
  have advances := expandWithin_advances standard language levels
  induction levels with
  | zero =>
    refine ⟨bounds, advances, ?_, ?_, ?_⟩
    · intro text _ _
      exact .of_pure rfl (.throw _)
    · intro text _ _
      exact Nat.le_refl _
    · intro text _
      exact .throw _
  | succ levels inductionHypothesis =>
    have covers := inductionHypothesis (estimateWithin_bounds standard lines levels)
      (expandWithin_advances standard language levels)
    refine ⟨bounds, advances, ?_, ?_, ?_⟩
    · intro text flat caseless
      exact estimateTemplate_bounds fun tag member =>
        estimateDirective_bounds_flat standard covers (flat tag member) (caseless tag member)
    · intro text flat caseless
      have steady : ∀ text, Text.IsFlat text → Text.IsCaseless text →
          ∀ tag ∈ (Template.ofText text).directives, _ := fun text flat caseless tag member =>
        (estimateDirective_bounds_flat standard covers (flat tag member)
          (caseless tag member)).steady
      obtain ⟨front, back, whole⟩ := Template.collect_trim (fun c => [c])
        (fun tag => (engine.estimateDirective
          ⟨engine.settings, engine.estimateWithin levels⟩ tag).text) text
      rw [← estimateTemplate_collect (steady text flat caseless),
        ← estimateTemplate_collect (steady _ flat.trim caseless.trim)] at whole
      have longer := congrArg List.length whole
      rw [List.length_append, List.length_append] at longer
      change (engine.estimateTemplate _ _).text.length ≤ (engine.estimateTemplate _ _).text.length
      omega
    · intro text flat state result after done
      have covered := estimateTemplate_covers
        (fun tag member => estimateDirective_covers standard language covers (flat tag member))
        state 0 _ after done
      have empty : state.matching.credit 0 = 0 := by cases state.matching <;> rfl
      rw [empty] at covered
      exact Nat.le_trans (Nat.le_add_right _ _) covered

/-- The estimate of a text is an upper bound of the length of its expansions also where it holds
matches, if every case stands directly in its match: whichever case fires, and whether its condition
holds, has no value or itself decides the match. The language of conditions may be any that touches
the state only by looking names up. -/
theorem length_le_estimate_flat (language : engine.settings.language.ActsThroughLookups)
    (lines : ∀ name lines, engine.settings.wildcards.find? name = some lines →
      ∀ line ∈ lines, Text.IsMeasured line)
    {text : Text} (flat : Text.IsFlat text) {stream : Random.Stream} {expansion : Expansion}
    (yields : (engine.expand text stream).1 = some (.ok expansion)) :
    expansion.text.length ≤ (engine.estimate text).length := by
  have covers := estimateWithin_covers standard language lines engine.settings.limit
  exact ensures_expand (covers.flat text flat) yields

omit standard

/-- Two cases, the first with blanks around its body. -/
def weather : Text := "<wccase[rain]: <random[2]:coat|umbrella> >, <wccase:hat>"

/-- A match of these cases after an assignment that makes the first condition true. -/
def wardrobe : Text := "<setvar[rain,no]:yes><wcmatch:" ++ weather ++ ">"

/-- The first case fires, and its draw is no longer than its estimate. -/
theorem length_le_estimate_flat_wardrobe :
    Engine.standard.handlers = Directives.standard ∧
      Engine.standard.settings.language.ActsThroughLookups ∧
      (∀ name lines, Engine.standard.settings.wildcards.find? name = some lines →
        ∀ line ∈ lines, Text.IsMeasured line) ∧
      Text.IsFlat wardrobe ∧
      Engine.standard.estimate wardrobe = " umbrella umbrella , ".toList ∧
      ∃ expansion,
        (Engine.standard.expand wardrobe (Random.Stream.ofSeed #[] 0)).1 = some (.ok expansion) ∧
        expansion.text = "umbrella coat, ".toList ∧
        expansion.text.length ≤ (Engine.standard.estimate wardrobe).length := by
  have language := Language.expressions_actsThroughLookups
  have lines : ∀ name lines, Engine.standard.settings.wildcards.find? name = some lines →
      ∀ line ∈ lines, Text.IsMeasured line := by
    rintro name lines ⟨⟩
  have cases' : ∀ body ∈ [" <random[2]:coat|umbrella> ".toList, "hat".toList],
      Text.IsMeasured body := by
    intro body member
    have each : ∀ body ∈ [" <random[2]:coat|umbrella> ".toList, "hat".toList],
        body.tails.all beginsMeasured = true := by decide +kernel
    exact Text.isMeasured_of_tails (each body member)
  have match' : Text.IsFlat weather := by
    have tags : (Template.ofText weather).directives =
        [⟨"wccase", some "rain", some " <random[2]:coat|umbrella> "⟩,
          ⟨"wccase", none, some "hat"⟩] := by decide +kernel
    intro tag member
    rw [tags] at member
    simp only [List.mem_cons, List.not_mem_nil, or_false] at member
    rcases member with rfl | rfl
    · have body := cases' _ List.mem_cons_self
      exact .case _ (by decide) body.isFlat body.isCaseless
    · have body := cases' _ (List.mem_cons_of_mem _ List.mem_cons_self)
      exact .case _ (by decide) body.isFlat body.isCaseless
  have flat : Text.IsFlat wardrobe := by
    have tags : (Template.ofText wardrobe).directives =
        [⟨"setvar", some "rain,no", some "yes"⟩, ⟨"wcmatch", none, some weather⟩] := by
      decide +kernel
    intro tag member
    rw [tags] at member
    simp only [List.mem_cons, List.not_mem_nil, or_false] at member
    rcases member with rfl | rfl
    · exact .measured _ ⟨by decide, by decide⟩ (Text.isMeasured_of_tails (by decide +kernel))
        (Text.isMeasured_of_tails (by decide +kernel))
    · exact .block _ (by decide) match'
  have known : Expansion.text? (Engine.standard.expand wardrobe (Random.Stream.ofSeed #[] 0)).1 =
      some "umbrella coat, ".toList := by decide +kernel
  obtain ⟨expansion, yields, text⟩ := Expansion.exists_of_text known
  exact ⟨rfl, language, lines, flat, by decide +kernel, expansion, yields, text,
    length_le_estimate_flat rfl language lines flat yields⟩

/-- Two cases in the options of a draw. -/
def alternatives : Text := "<wcmatch:<random:<wccase:a>|<wccase:bc>>>"

/-- Where cases stand in the options of a draw, the estimate may be shorter than an expansion. The
second case adds a single character to the first in the estimate, but the first is not in the text
if the second is drawn. -/
theorem estimate_lt_length_alternatives :
    Engine.standard.estimate alternatives = "c".toList ∧
      ∃ expansion,
        (Engine.standard.expand alternatives (Random.Stream.ofSeed #[0xFFFFFFFFFFFFFFFF] 0)).1 =
          some (.ok expansion) ∧
        expansion.text = "bc".toList ∧
        (Engine.standard.estimate alternatives).length < expansion.text.length := by
  have estimated : Engine.standard.estimate alternatives = "c".toList := by decide +kernel
  have known : Expansion.text? (Engine.standard.expand alternatives
      (Random.Stream.ofSeed #[0xFFFFFFFFFFFFFFFF] 0)).1 = some "bc".toList := by decide +kernel
  obtain ⟨expansion, yields, text⟩ := Expansion.exists_of_text known
  refine ⟨estimated, expansion, yields, text, ?_⟩
  rw [estimated, text]
  decide

end Engine

end DynamicPrompt
