import DynamicPrompt.Choice.Basic

/-!
# Label filters

A filter is a list of entries separated by commas, and a choice passes if it matches any
of them; a filter without entries passes every choice. An entry of digits is a position
counted from one. Any other entry is a conjunction of labels joined by plus signs, where
an exclamation mark demands that the label be absent.
-/

namespace DynamicPrompt

/-- One entry of a filter. -/
inductive FilterEntry where
  | position (index : Nat)
  | labels (required excluded : List Text)
deriving DecidableEq, Repr

namespace FilterEntry

/-- The entry written between two commas; blank entries, and positions beyond the largest
word, are none. -/
def ofText? (text : Text) : Option FilterEntry :=
  let entry := Text.trim text
  if entry.isEmpty then none
  else if entry.all Char.isDigit then (Numeral.word? entry).map position
  else
    let terms := ((Text.split '+' entry).map Text.trim).filter fun term => !term.isEmpty
    let required := terms.filterMap fun term =>
      match term with
      | '!' :: _ => none
      | _ => some (Text.lower term)
    let excluded := terms.filterMap fun term =>
      match term with
      | '!' :: label => some (Text.lower (Text.trim label))
      | _ => none
    if required.isEmpty && excluded.isEmpty then none
    else some (labels (Text.ordered required) (Text.ordered excluded))

/-- Whether a choice matches the entry. -/
def admits (choice : Choice) : FilterEntry → Bool
  | position index => choice.position == index
  | labels required excluded =>
    required.all (fun label => choice.labels.contains label) &&
      excluded.all fun label => !choice.labels.contains label

end FilterEntry

/-- A filter on choices. -/
structure Filter where
  entries : List FilterEntry
deriving DecidableEq, Repr

namespace Filter

/-- The filter written as entries separated by commas. -/
def ofText (text : Text) : Filter :=
  ⟨(Text.split ',' text).filterMap FilterEntry.ofText?⟩

/-- Whether a choice passes. -/
def admits (filter : Filter) (choice : Choice) : Bool :=
  filter.entries.isEmpty || filter.entries.any (·.admits choice)

end Filter

end DynamicPrompt
