import DynamicPrompt.Choice.Filter
import DynamicPrompt.Engine.Basic
import DynamicPrompt.Quantity

/-!
# The standard directives

Every engine starts with these directives: drawing from options or from a wildcard, prompt
editing and alternation, setting and reading variables and macros, overriding a macro for a
while, adding to the negative prompt, comments, and matches with their cases. Options in a
body are separated by bars outside inner tags, the two parts of an edit by double bars.

A case fires if it is the first in its match whose condition is missing or true. A case that
fired on a condition drops the blanks around its body.

The estimate of a draw repeats its longest option for the largest count. Values of variables
and macros are not known before expansion, and their estimate is their name in a tag.
-/

namespace DynamicPrompt.Directives

/-- The options of a body. -/
def options (body : Text) : List Text := splitTopLevel "|" Brackets.tags body

/-- The parts of an edit or an alternation. -/
def parts (body : Text) : List Text := splitTopLevel "||" Brackets.tags body

/-- The wildcard name of a body, and the filter after the first colon. -/
def nameAndFilter (body : Text) : Text × Option Text :=
  match cutTopLevel? ":" Brackets.tags body with
  | some (name, filter) => (name, some filter)
  | none => (body, none)

/-- The name of an argument, and the flag after the first comma in lower case. -/
def nameAndFlag (argument : Text) : Text × Text :=
  match Text.cutAt? (· == ',') argument with
  | some (name, flag) => (Text.trim name, Text.lower (Text.trim flag))
  | none => (Text.trim argument, [])

/-- Fail if a directive has no name to work on. -/
def requireName (name : Text) (directive : Directive) : Eval Unit :=
  if name.isEmpty then throw (.usage (.nameless directive.name)) else pure ()

/-- Whether an assignment with this flag also yields its text. -/
def yields (flag : Text) : Bool :=
  !(flag == "false".toList || flag == "0".toList || flag == "no".toList)

/-- The largest number of options that one directive draws. -/
def drawLimit : Nat := 1000

/-- Whether a choice may be drawn: it has no guard, or its guard is true. -/
def isEligible (room : Room) (choice : Choice) : Run Bool :=
  match choice.guard with
  | some guard => room.isTrue guard
  | none => pure true

/-- The choices that may be drawn. Every guard is evaluated, in order. -/
def eligible (room : Room) : List Choice → Run (List Choice)
  | [] => pure []
  | choice :: choices => do
    let allowed ← isEligible room choice
    let others ← eligible room choices
    return if allowed then choice :: others else others

/-- A count, cut down to the limit with a warning. -/
def capped (count : Nat) : Run Nat := do
  if count > drawLimit then
    Run.warn (.drawCapped count drawLimit)
    return drawLimit
  else return count

/-- The choices drawn from a pool: first their number is drawn, then the choices. -/
def drawFrom (selection : Selection) (pool : Pool) (quantity : Quantity) : Run (List Choice) := do
  let count ← Run.drawing (quantity.resolve pool.left.length)
  let count ← capped count
  Run.drawing fun stream =>
    let (drawn, _, stream) := pool.drawMany selection stream count
    (drawn, stream)

/-- The expansions of drawn choices with a separator between them. All choices are drawn
before the first one is expanded. -/
def draw (room : Room) (choices : List Choice) (quantity : Quantity) (separator : Text) :
    Eval Text := do
  let pool := Pool.ofChoices (← eligible room choices)
  if pool.left.isEmpty then return []
  else
    let drawn ← drawFrom room.settings.selection pool quantity
    let texts ← drawn.mapM fun choice => room.expand choice.value
    return Text.join separator texts

/-- Draw from the options of the body. -/
def random (room : Room) (d : Directive) : Eval Text := do
  let (quantity, separator) := Quantity.ofArgument d.argumentText
  draw room (Choice.ofLines (options d.bodyText)) quantity separator

/-- Draw from the options of a wildcard that pass the filter. -/
def wildcard (room : Room) (d : Directive) : Eval Text := do
  let (quantity, separator) := Quantity.ofArgument d.argumentText
  let (name, filter) := nameAndFilter d.bodyText
  let name := Text.trim (← room.expand name)
  let filter ← match filter with
    | some filter => pure (Filter.ofText (← room.expand filter))
    | none => pure ⟨[]⟩
  match room.settings.wildcards.find? name with
  | none => throw (.missingWildcard name)
  | some lines => draw room ((Choice.ofLines lines).filter filter.admits) quantity separator

/-- Write an edit from one text to another at a step. -/
def fromTo (room : Room) (d : Directive) : Eval Text := do
  match parts d.bodyText with
  | [first, second] =>
    let first ← room.expand first
    let second ← room.expand second
    let step ← room.expand d.argumentText
    return "[" ++ first ++ ":" ++ second ++ ":" ++ Text.trim step ++ "]"
  | _ => throw (.usage (.notPair d.bodyText))

/-- Write an alternation of texts. -/
def alternate (room : Room) (d : Directive) : Eval Text := do
  let texts ← (parts d.bodyText).mapM room.expand
  return "[" ++ Text.join "|" texts ++ "]"

/-- Set a variable to the expansion of the body. -/
def setVariable (room : Room) (d : Directive) : Eval Text := do
  let (name, flag) := nameAndFlag d.argumentText
  requireName name d
  let value ← room.expand d.bodyText
  Run.changeScope (·.setVariable name value)
  return if yields flag then value else []

/-- Set a macro to the body as it is written. -/
def setMacro (room : Room) (d : Directive) : Eval Text := do
  let (name, flag) := nameAndFlag d.argumentText
  requireName name d
  Run.changeScope (·.setMacro name d.bodyText)
  if yields flag then room.expand d.bodyText else return []

/-- Read a variable. -/
def readVariable (_ : Room) (d : Directive) : Eval Text := do
  return ((← get).scope.values.find? (Text.trim d.bodyText)).getD []

/-- Expand a macro. -/
def readMacro (room : Room) (d : Directive) : Eval Text := do
  match (← get).scope.macros.find? (Text.trim d.bodyText) with
  | some text => room.expand text
  | none => return []

/-- The text added to what is there, before it if the flag says so. -/
def combined (flag current added : Text) : Text :=
  if flag = "prepend".toList then added ++ current else current ++ added

/-- Add the expansion of the body to a variable. -/
def addToVariable (room : Room) (d : Directive) : Eval Text := do
  let (name, flag) := nameAndFlag d.argumentText
  requireName name d
  let added ← room.expand d.bodyText
  Run.changeScope fun scope =>
    scope.setVariable name (combined flag ((scope.values.find? name).getD []) added)
  return []

/-- Add the body as it is written to a macro. -/
def addToMacro (_ : Room) (d : Directive) : Eval Text := do
  let (name, flag) := nameAndFlag d.argumentText
  requireName name d
  Run.changeScope fun scope =>
    scope.setMacro name (combined flag ((scope.macros.find? name).getD []) d.bodyText)
  return []

/-- Override a macro by the expansion of the body. -/
def pushMacro (room : Room) (d : Directive) : Eval Text := do
  let name := Text.trim d.argumentText
  requireName name d
  let value ← room.expand d.bodyText
  Run.changeScope (·.pushMacro name value)
  return []

/-- Undo the latest override of the macro named by the body or, if that is blank, by the
argument. -/
def popMacro (_ : Room) (d : Directive) : Eval Text := do
  let inBody := Text.trim d.bodyText
  let name := if inBody.isEmpty then Text.trim d.argumentText else inBody
  requireName name d
  Run.changeScope (·.popMacro name)
  return []

/-- Add the expansion of the body to the negative prompt. -/
def negative (room : Room) (d : Directive) : Eval Text := do
  let text ← room.expand d.bodyText
  Run.addNegative text (Text.sameLetters (Text.trim d.argumentText) "prepend")
  return []

/-- Yield nothing. -/
def comment (_ : Room) (_ : Directive) : Eval Text := pure []

/-- Expand the body as a match. -/
def matchBlock (room : Room) (d : Directive) : Eval Text := room.expandMatch d.bodyText

/-- Fire if no case of the match has fired and the condition is missing or true. -/
def matchCase (room : Room) (d : Directive) : Eval Text := do
  match (← get).matching with
  | .outside => throw (.usage .caseOutsideMatch)
  | .decided => return []
  | .undecided =>
    let condition := Text.trim d.argumentText
    if condition.isEmpty then
      Run.setMatching .decided
      room.expand d.bodyText
    else if ← room.isTrue condition then
      Run.setMatching .decided
      room.expand (Text.trim d.bodyText)
    else return []

/-- The longest of some texts, the last of several; empty if there is none. -/
def longest (texts : List Text) : Text :=
  texts.foldl (fun best text => if best.length ≤ text.length then text else best) []

/-- The longest option, repeated for the largest count that a draw may come to. -/
def longestRepeated (texts : List Text) (quantity : Quantity) (separator : Text) : Text :=
  Text.join separator
    (List.replicate (min (quantity.most texts.length) drawLimit) (longest texts))

/-- The estimates of the values of some options. -/
def estimateValues (room : EstimateRoom) (lines : List Text) : Estimate (List Text) :=
  lines.mapM fun line => room.estimate (Choice.ofText line).value

/-- The estimate of a draw from the body. -/
def estimateRandom (room : EstimateRoom) (d : Directive) : Estimate Text := do
  let (quantity, separator) := Quantity.ofArgument d.argumentText
  return longestRepeated (← estimateValues room (options d.bodyText)) quantity separator

/-- The estimate of a draw from a wildcard, which takes no filter into account. -/
def estimateWildcard (room : EstimateRoom) (d : Directive) : Estimate Text := do
  let (quantity, separator) := Quantity.ofArgument d.argumentText
  let name ← room.estimate (nameAndFilter d.bodyText).1
  match room.settings.wildcards.find? (Text.trim name) with
  | none => return []
  | some lines => return longestRepeated (← estimateValues room lines) quantity separator

/-- The estimate of an edit. -/
def estimateFromTo (room : EstimateRoom) (d : Directive) : Estimate Text := do
  match parts d.bodyText with
  | [first, second] =>
    let first ← room.estimate first
    let second ← room.estimate second
    let step ← room.estimate d.argumentText
    return "[" ++ first ++ ":" ++ second ++ ":" ++ step ++ "]"
  | _ => return []

/-- The estimate of an alternation. -/
def estimateAlternate (room : EstimateRoom) (d : Directive) : Estimate Text := do
  let texts ← (parts d.bodyText).mapM room.estimate
  return "[" ++ Text.join "|" texts ++ "]"

/-- The estimate of an assignment: that of its body if it yields its text. -/
def estimateAssignment (room : EstimateRoom) (d : Directive) : Estimate Text :=
  if yields (nameAndFlag d.argumentText).2 then room.estimate d.bodyText else pure []

/-- The estimate of a reading. -/
def estimateReading (_ : EstimateRoom) (d : Directive) : Estimate Text :=
  pure ("<" ++ Text.trim d.bodyText ++ ">")

/-- The estimate of a match. -/
def estimateMatch (room : EstimateRoom) (d : Directive) : Estimate Text :=
  room.estimateMatch d.bodyText

/-- The estimate of a case: what it adds to the longest case so far. -/
def estimateCase (room : EstimateRoom) (d : Directive) : Estimate Text := do
  recordCase (← room.estimate d.bodyText)

/-- The estimate of a directive that yields nothing. -/
def estimateNothing (_ : EstimateRoom) (_ : Directive) : Estimate Text := pure []

/-- The standard directives by name. -/
def standard : Dictionary Handler :=
  Dictionary.ofList
    [("random", ⟨random, some estimateRandom⟩),
     ("wcwildcard", ⟨wildcard, some estimateWildcard⟩),
     ("fromto", ⟨fromTo, some estimateFromTo⟩),
     ("alternate", ⟨alternate, some estimateAlternate⟩),
     ("setvar", ⟨setVariable, some estimateAssignment⟩),
     ("setmacro", ⟨setMacro, some estimateAssignment⟩),
     ("var", ⟨readVariable, some estimateReading⟩),
     ("macro", ⟨readMacro, some estimateReading⟩),
     ("wcmacro", ⟨readMacro, some estimateReading⟩),
     ("wcaddvar", ⟨addToVariable, some estimateNothing⟩),
     ("wcaddmacro", ⟨addToMacro, some estimateNothing⟩),
     ("wcpushmacro", ⟨pushMacro, some estimateNothing⟩),
     ("wcpopmacro", ⟨popMacro, some estimateNothing⟩),
     ("wcnegative", ⟨negative, some estimateNothing⟩),
     ("comment", ⟨comment, some estimateNothing⟩),
     ("wcmatch", ⟨matchBlock, some estimateMatch⟩),
     ("wccase", ⟨matchCase, some estimateCase⟩)]

end DynamicPrompt.Directives

namespace DynamicPrompt.Engine

/-- The engine with the standard directives and settings. -/
def standard : Engine := ⟨Settings.standard, Directives.standard⟩

end DynamicPrompt.Engine
