import DynamicPrompt.Scope

/-!
# Bindings

Binding a name in a dictionary gives it the new value and leaves every other name alone, whatever
the order of the entries. Nothing that is done to a scope during an evaluation takes a variable or
a macro away: values are replaced, and the end of an override puts a text back or leaves the
overriding text in place.
-/

namespace DynamicPrompt

namespace Dictionary

variable {α : Type}

/-- The first entry of a name is the one that is found. -/
theorem lookup_entry (name other : Text) (value : α) (rest : List (Text × α)) :
    ((name, value) :: rest).lookup other =
      if other = name then some value else rest.lookup other := by
  rw [List.lookup_cons]
  by_cases same : other = name
  · rw [if_pos same, beq_iff_eq.2 same]
  · rw [if_neg same, beq_false_of_ne same]

/-- Binding a name in a list of entries binds it and leaves the other names alone. -/
theorem lookup_insertEntry (name : Text) (value : α) (entries : List (Text × α)) (other : Text) :
    (insertEntry name value entries).lookup other =
      if other = name then some value else entries.lookup other := by
  induction entries with
  | nil => rw [insertEntry, lookup_entry]
  | cons entry rest inductionHypothesis =>
    obtain ⟨first, bound⟩ := entry
    rw [insertEntry]
    split
    · rw [lookup_entry]
    · next equal =>
      obtain rfl : name = first := Std.LawfulEqCmp.eq_of_compare equal
      rw [lookup_entry, lookup_entry]
      split <;> rfl
    · next later =>
      have differ : first ≠ name := by
        rintro rfl
        have itself : compare first first = .eq := Std.ReflCmp.compare_self
        rw [itself] at later
        contradiction
      rw [lookup_entry, lookup_entry, inductionHypothesis]
      by_cases same : other = first
      · rw [if_pos same, if_neg (same ▸ differ), if_pos same]
      · rw [if_neg same, if_neg same]

/-- After a name has been bound, it has its new value and every other name the value it had. -/
theorem find?_insert (dictionary : Dictionary α) (name : Text) (value : α) (other : Text) :
    (dictionary.insert name value).find? other =
      if other = name then some value else dictionary.find? other :=
  lookup_insertEntry name value dictionary.entries other

/-- What is found after some bindings was bound by the last of them that has the name, or before
them if none has it. -/
theorem last_or_find?_of_foldl {bindings : List (Text × α)} {dictionary : Dictionary α}
    {name : Text} {value : α}
    (found : (bindings.foldl (fun dictionary binding => dictionary.insert binding.1 binding.2)
      dictionary).find? name = some value) :
    (∃ before after, bindings = before ++ (name, value) :: after ∧
      ∀ later ∈ after, later.1 ≠ name) ∨
    (dictionary.find? name = some value ∧ ∀ binding ∈ bindings, binding.1 ≠ name) := by
  induction bindings generalizing dictionary with
  | nil => exact .inr ⟨found, List.forall_mem_nil _⟩
  | cons binding rest inductionHypothesis =>
    rcases inductionHypothesis found with ⟨before, after, rfl, last⟩ | ⟨before, other⟩
    · exact .inl ⟨binding :: before, after, rfl, last⟩
    · rw [find?_insert] at before
      split at before
      · next same =>
        obtain rfl := Option.some.inj before
        exact .inl ⟨[], rest, by rw [same]; rfl, other⟩
      · next differ =>
        exact .inr ⟨before, List.forall_mem_cons.2 ⟨fun same => differ same.symm, other⟩⟩

/-- What is found in the dictionary of a list of bindings is what the last one with the name binds. -/
theorem last_of_find?_ofList {bindings : List (Text × α)} {name : Text} {value : α}
    (found : (ofList bindings).find? name = some value) :
    ∃ before after, bindings = before ++ (name, value) :: after ∧
      ∀ later ∈ after, later.1 ≠ name := by
  rcases last_or_find?_of_foldl found with last | ⟨nothing, _⟩
  · exact last
  · exact absurd nothing (by simp [find?, empty])

/-- What is found in the dictionary of a list of bindings is bound in the list. -/
theorem mem_of_find?_ofList {bindings : List (Text × α)} {name : Text} {value : α}
    (found : (ofList bindings).find? name = some value) : (name, value) ∈ bindings := by
  obtain ⟨before, after, rfl, _⟩ := last_of_find?_ofList found
  exact List.mem_append_right before List.mem_cons_self

/-- A name with a value is bound. -/
theorem mem_names {dictionary : Dictionary α} {name : Text} {value : α}
    (found : dictionary.find? name = some value) : name ∈ dictionary.names := by
  obtain ⟨before, after, whole, -⟩ := List.lookup_eq_some_iff.1 found
  rw [names, whole]
  simp

/-- A bound name has a value. -/
theorem find?_of_mem_names {dictionary : Dictionary α} {name : Text}
    (bound : name ∈ dictionary.names) : ∃ value, dictionary.find? name = some value := by
  obtain ⟨entry, member, rfl⟩ := List.mem_map.1 bound
  apply Option.ne_none_iff_exists'.1
  intro missing
  have differ := List.lookup_eq_none_iff.1 missing entry member
  simp at differ

/-- Every name that is bound before is bound after. -/
def Retains (before after : Dictionary α) : Prop :=
  ∀ name, (before.find? name).isSome = true → (after.find? name).isSome = true

/-- Binding a name unbinds none. -/
theorem retains_insert (dictionary : Dictionary α) (name : Text) (value : α) :
    dictionary.Retains (dictionary.insert name value) := by
  intro other bound
  rw [find?_insert]
  split
  · rfl
  · exact bound

end Dictionary

namespace Scope

/-- Every variable and every macro that is bound before is bound after. -/
structure Retains (before after : Scope) : Prop where
  values : before.values.Retains after.values
  macros : before.macros.Retains after.macros

variable (scope : Scope) (name text : Text)

/-- Nothing is lost where nothing happens. -/
theorem Retains.refl : scope.Retains scope := ⟨fun _ bound => bound, fun _ bound => bound⟩

/-- What is kept twice is kept. -/
theorem Retains.trans {first second third : Scope} (before : first.Retains second)
    (after : second.Retains third) : first.Retains third :=
  ⟨fun name bound => after.values name (before.values name bound),
    fun name bound => after.macros name (before.macros name bound)⟩

/-- Setting a variable loses no name. -/
theorem retains_setVariable : scope.Retains (scope.setVariable name text) :=
  ⟨scope.values.retains_insert name text, fun _ bound => bound⟩

/-- Setting a macro loses no name. -/
theorem retains_setMacro : scope.Retains (scope.setMacro name text) :=
  ⟨fun _ bound => bound, scope.macros.retains_insert name text⟩

/-- Overriding a macro loses no name. -/
theorem retains_pushMacro : scope.Retains (scope.pushMacro name text) :=
  ⟨fun _ bound => bound, scope.macros.retains_insert name text⟩

/-- The end of an override loses no name, since without a text to put back the overriding text
stays. -/
theorem retains_popMacro : scope.Retains (scope.popMacro name) := by
  unfold popMacro
  split
  · exact .refl scope
  · exact .refl scope
  · next previous stack _ =>
    refine ⟨fun _ bound => bound, ?_⟩
    cases previous with
    | some text => exact scope.macros.retains_insert name text
    | none => exact fun _ bound => bound

end Scope

end DynamicPrompt
