import DynamicPrompt.Dictionary

/-!
# Wildcard collections

A collection binds the names of wildcards to their option lines. A name is normalised
before it is stored and before it is looked up: blanks and slashes at its ends are dropped,
backslashes count as slashes, and one ending `.txt` is dropped. A name that is not bound is
looked for again without regard to the case of ASCII letters, the first match in order of
names counting.

Lines that are blank or begin with a number sign hold no option; the others lose the blanks
at their end.
-/

namespace DynamicPrompt

/-- Wildcard names with their option lines. -/
structure WildcardCollection where
  options : Dictionary (List Text)

namespace WildcardCollection

/-- The collection without wildcards. -/
def empty : WildcardCollection := ⟨∅⟩

/-- The name under which a wildcard is stored. -/
def normalize (name : Text) : Text :=
  Text.dropEnding ".txt"
    (Text.trimOf '/' ((Text.trim name).map fun c => if c = '\\' then '/' else c))

/-- Whether a line holds an option. -/
def isOption (line : Text) : Bool :=
  match Text.trim line with
  | [] | '#' :: _ => false
  | _ => true

/-- The options among some lines. -/
def optionsOf (lines : List Text) : List Text := (lines.filter isOption).map Text.trimEnd

/-- Store a wildcard, replacing the one of that name. -/
def insert (collection : WildcardCollection) (name : Text) (lines : List Text) :
    WildcardCollection :=
  ⟨collection.options.insert (normalize name) (optionsOf lines)⟩

/-- Store a wildcard whose options are the lines of a text. -/
def insertText (collection : WildcardCollection) (name content : Text) : WildcardCollection :=
  collection.insert name (Text.lines content)

/-- The collection of a list of wildcards, a later one replacing an earlier one. -/
def ofList (wildcards : List (Text × List Text)) : WildcardCollection :=
  wildcards.foldl (fun collection wildcard => collection.insert wildcard.1 wildcard.2) empty

/-- The options of the wildcard of a name. -/
def find? (collection : WildcardCollection) (name : Text) : Option (List Text) :=
  let key := normalize name
  (collection.options.find? key).or
    ((collection.options.entries.find? fun entry => Text.sameLetters entry.1 key).map (·.2))

/-- The stored names, ascending. -/
def names (collection : WildcardCollection) : List Text := collection.options.names

/-- The collection with every option line rewritten. -/
def mapOptions (rewrite : Text → Text → Text) (collection : WildcardCollection) :
    WildcardCollection :=
  ⟨⟨collection.options.entries.map fun entry => (entry.1, entry.2.map (rewrite entry.1))⟩⟩

end WildcardCollection

end DynamicPrompt
