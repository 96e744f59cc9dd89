import DynamicPrompt.Text.Basic

/-!
# Dictionaries

A dictionary binds names to values. Its entries are listed by ascending name, which is the
order in which they are shown. Looking a name up compares names only for equality, so the
laws of insertion and removal hold of every list of entries.
-/

namespace DynamicPrompt

/-- Names with their values, ascending by name. -/
structure Dictionary (α : Type) where
  entries : List (Text × α)

namespace Dictionary

variable {α : Type}

/-- The dictionary without entries. -/
def empty : Dictionary α := ⟨[]⟩

instance : EmptyCollection (Dictionary α) := ⟨empty⟩

instance : Inhabited (Dictionary α) := ⟨empty⟩

/-- The value bound to a name. -/
def find? (dictionary : Dictionary α) (name : Text) : Option α := dictionary.entries.lookup name

/-- Bind a name in a list of entries, replacing what it was bound to. -/
def insertEntry (name : Text) (value : α) : List (Text × α) → List (Text × α)
  | [] => [(name, value)]
  | (first, bound) :: rest =>
    match compare name first with
    | .lt => (name, value) :: (first, bound) :: rest
    | .eq => (name, value) :: rest
    | .gt => (first, bound) :: insertEntry name value rest

/-- Bind a name, replacing what it was bound to. -/
def insert (dictionary : Dictionary α) (name : Text) (value : α) : Dictionary α :=
  ⟨insertEntry name value dictionary.entries⟩

/-- Unbind a name. -/
def erase (dictionary : Dictionary α) (name : Text) : Dictionary α :=
  ⟨dictionary.entries.filter fun entry => entry.1 != name⟩

/-- The bound names, ascending. -/
def names (dictionary : Dictionary α) : List Text := dictionary.entries.map (·.1)

/-- The dictionary of a list of bindings, a later one replacing an earlier one. -/
def ofList (bindings : List (Text × α)) : Dictionary α :=
  bindings.foldl (fun dictionary binding => dictionary.insert binding.1 binding.2) empty

end Dictionary

end DynamicPrompt
