import DynamicPrompt.Proofs.Bindings
import DynamicPrompt.Proofs.Text.Cut
import DynamicPrompt.Wildcard.Collection

/-!
# Listed wildcards

A wildcard is stored under its normalised name, and a name that is looked up is normalised as well. So
a listed name is normalised a second time before it is looked for, and it leads to its own entry
exactly if nothing is left to do then. Something may be left: only one ending is dropped, and neither
the blanks behind slashes nor what stood before the ending are looked at again.
-/

namespace DynamicPrompt

namespace Text

/-- A text without an ending is a beginning of it. -/
theorem dropEnding_isPrefix (ending text : Text) : dropEnding ending text <+: text := by
  unfold dropEnding
  split
  · next before found =>
    have whole := congrArg List.reverse (after?_eq_some_iff.1 found)
    rw [List.reverse_reverse, List.reverse_append, List.reverse_reverse] at whole
    exact ⟨ending, whole.symm⟩
  · exact List.prefix_rfl

/-- A text keeps its end exactly if that is not the ending. -/
theorem dropEnding_eq_self_iff {ending text : Text} (filled : ending ≠ []) :
    dropEnding ending text = text ↔ ¬ ending <:+ text := by
  have found (before : Text) : after? ending.reverse text.reverse = some before.reverse ↔
      text = before ++ ending := by
    rw [after?_eq_some_iff, ← List.reverse_append, List.reverse_inj]
  constructor
  · rintro kept ⟨before, rfl⟩
    rw [dropEnding, (found before).2 rfl] at kept
    dsimp only at kept
    have length := congrArg List.length kept
    rw [List.reverse_reverse, List.length_append] at length
    exact filled (List.length_eq_zero_iff.1 (by omega))
  · intro apart
    unfold dropEnding
    split
    · next before begins =>
      rw [← List.reverse_reverse before] at begins
      exact absurd ⟨before.reverse, ((found before.reverse).1 begins).symm⟩ apart
    · rfl

/-- Texts that are equal up to the case of letters are equally long. -/
theorem length_of_sameLetters {left right : Text} (same : sameLetters left right = true) :
    left.length = right.length := by
  have lengths := congrArg List.length (beq_iff_eq.1 same)
  rwa [List.length_map, List.length_map] at lengths

end Text

namespace WildcardCollection

/-- A name in which nothing is left to normalise: it has no backslashes, neither blanks nor slashes at
its ends, and not the ending of a text file. -/
structure IsNormal (name : Text) : Prop where
  forward : '\\' ∉ name
  starts : ∀ c ∈ name.head?, isBlank c = false ∧ c ≠ '/'
  ends : ∀ c ∈ name.getLast?, isBlank c = false ∧ c ≠ '/'
  bare : ¬ ".txt".toList <:+ name

instance (name : Text) : Decidable (IsNormal name) :=
  decidable_of_iff ('\\' ∉ name ∧ name.head?.all (fun c => !isBlank c && c != '/') = true ∧
      name.getLast?.all (fun c => !isBlank c && c != '/') = true ∧ ¬ ".txt".toList <:+ name) <| by
    simp only [Option.all_eq_true, Bool.and_eq_true, Bool.not_eq_true', bne_iff_ne]
    exact ⟨fun ⟨forward, starts, ends, bare⟩ => ⟨forward, starts, ends, bare⟩,
      fun normal => ⟨normal.forward, normal.starts, normal.ends, normal.bare⟩⟩

/-- A slash for a backslash. -/
def slash (c : Char) : Char := if c = '\\' then '/' else c

/-- No backslash is left. -/
theorem backslash_not_mem_slashes (name : Text) : '\\' ∉ name.map slash := by
  intro member
  obtain ⟨c, _, image⟩ := List.mem_map.1 member
  rw [slash] at image
  split at image
  · exact absurd image (by decide)
  · next other => exact other image

/-- A name without backslashes has none to replace. -/
theorem map_slash_of_forward {name : Text} (forward : '\\' ∉ name) : name.map slash = name := by
  refine (List.map_congr_left fun c member => ?_).trans (List.map_id name)
  have other : c ≠ '\\' := fun same => forward (same ▸ member)
  rw [slash, if_neg other, id]

/-- The steps of the normalisation, each of which takes something off its text or leaves it alone. -/
theorem normalize_steps (name : Text) :
    ∃ trimmed bounded : Text, Text.trim name = trimmed ∧
      Text.trimOf '/' (trimmed.map slash) = bounded ∧
      Text.dropEnding ".txt" bounded = normalize name ∧ trimmed <:+: name ∧
      bounded <:+: trimmed.map slash ∧ normalize name <:+: bounded :=
  ⟨_, _, rfl, rfl, rfl, Text.trim_infix name, Text.dropBothWhile_infix _ _,
    (Text.dropEnding_isPrefix _ _).isInfix⟩

/-- No normalised name has a backslash. -/
theorem backslash_not_mem_normalize (name : Text) : '\\' ∉ normalize name := by
  obtain ⟨trimmed, bounded, -, -, -, -, within, inside⟩ := normalize_steps name
  exact fun member => backslash_not_mem_slashes trimmed (within.subset (inside.subset member))

/-- A name that keeps its length keeps its characters, apart from backslashes, and has nothing at its
ends to take off. -/
theorem isNormal_of_length {name : Text} (forward : '\\' ∉ name)
    (length : (normalize name).length = name.length) : IsNormal name ∧ normalize name = name := by
  obtain ⟨trimmed, bounded, trim, bound, last, around, within, inside⟩ := normalize_steps name
  have first := around.length_le
  have second := within.length_le
  have third := inside.length_le
  rw [List.length_map] at second
  obtain rfl : trimmed = name := around.eq_of_length (by omega)
  rw [map_slash_of_forward forward] at bound within
  obtain rfl : bounded = trimmed := within.eq_of_length (by omega)
  have same : normalize bounded = bounded := inside.eq_of_length length
  rw [same] at last
  obtain ⟨noBlank, noBlank'⟩ := Text.dropBothWhile_eq_self_iff.1 trim
  obtain ⟨noSlash, noSlash'⟩ := Text.dropBothWhile_eq_self_iff.1 bound
  refine ⟨⟨forward, fun c head => ?_, fun c back => ?_, ?_⟩, same⟩
  · exact ⟨noBlank c head, by simpa using noSlash c head⟩
  · exact ⟨noBlank' c back, by simpa using noSlash' c back⟩
  · exact (Text.dropEnding_eq_self_iff (by decide)).1 last

/-- A name is normalised to itself exactly if nothing is left to normalise in it. -/
theorem normalize_eq_self_iff {name : Text} : normalize name = name ↔ IsNormal name := by
  constructor
  · intro same
    have forward : '\\' ∉ name := same ▸ backslash_not_mem_normalize name
    exact (isNormal_of_length forward (congrArg List.length same)).1
  · rintro ⟨forward, starts, ends, bare⟩
    have trim : Text.trim name = name :=
      Text.trim_solid (fun c head => (starts c head).1) (fun c last => (ends c last).1)
    have bound : Text.trimOf '/' name = name := by
      apply Text.dropBothWhile_eq_self_iff.2
      constructor
      · exact fun c head => beq_false_of_ne (starts c head).2
      · exact fun c last => beq_false_of_ne (ends c last).2
    have slashes := map_slash_of_forward forward
    unfold slash at slashes
    rw [normalize, trim, slashes, bound]
    exact (Text.dropEnding_eq_self_iff (by decide)).2 bare

/-- A collection is the dictionary of its wildcards, each under its normalised name. -/
theorem options_ofList (wildcards : List (Text × List Text)) :
    (ofList wildcards).options =
      Dictionary.ofList (wildcards.map fun wildcard =>
        (normalize wildcard.1, optionsOf wildcard.2)) := by
  have general (collection : WildcardCollection) :
      (wildcards.foldl (fun collection wildcard => collection.insert wildcard.1 wildcard.2)
        collection).options =
      (wildcards.map fun wildcard => (normalize wildcard.1, optionsOf wildcard.2)).foldl
        (fun dictionary binding => dictionary.insert binding.1 binding.2) collection.options := by
    induction wildcards generalizing collection with
    | nil => rfl
    | cons wildcard rest inductionHypothesis => exact inductionHypothesis _
  exact general empty

/-- What is found for a name is what is stored under its normalised name or under a name that is that
one up to case. -/
theorem bound_of_find? {collection : WildcardCollection} {name : Text} {lines : List Text}
    (found : collection.find? name = some lines) :
    ∃ other, other.length = (normalize name).length ∧
      (other = normalize name ∨ Text.sameLetters other (normalize name) = true) ∧
      collection.options.find? other = some lines := by
  rw [find?, Option.or_eq_some_iff] at found
  rcases found with written | ⟨_, alike⟩
  · exact ⟨normalize name, rfl, .inl rfl, written⟩
  · obtain ⟨⟨other, stored⟩, first, rfl⟩ := Option.map_eq_some_iff.1 alike
    obtain ⟨same, before, after, whole, earlier⟩ := List.find?_eq_some_iff_append.1 first
    refine ⟨other, Text.length_of_sameLetters same, .inr same, ?_⟩
    apply List.lookup_eq_some_iff.2
    refine ⟨before, after, whole, fun entry member => ?_⟩
    -- An earlier entry of that name would have been the first one.
    rw [bne_iff_ne]
    rintro rfl
    have differs := earlier entry member
    rw [same] at differs
    exact absurd differs (by decide)

/-- Looking a listed name up yields the lines stored last under it, if nothing is left to normalise in
that name. Otherwise the name is looked for as another one: what is found then, if anything is, is
stored under a different name. -/
theorem find?_ofList_listed (wildcards : List (Text × List Text)) {name : Text}
    (listed : name ∈ (ofList wildcards).names) :
    ∃ before raw lines after, wildcards = before ++ (raw, lines) :: after ∧ normalize raw = name ∧
      (∀ later ∈ after, normalize later.1 ≠ name) ∧
      (IsNormal name → (ofList wildcards).find? name = some (optionsOf lines)) ∧
      (¬ IsNormal name → ∀ found, (ofList wildcards).find? name = some found →
        ∃ other, other ≠ name ∧ (ofList wildcards).options.find? other = some found) := by
  obtain ⟨stored, bound⟩ := Dictionary.find?_of_mem_names listed
  have last := bound
  rw [options_ofList] at last
  obtain ⟨before, after, whole, later⟩ := Dictionary.last_of_find?_ofList last
  obtain ⟨front, rest, rfl, rfl, tail⟩ := List.map_eq_append_iff.1 whole
  obtain ⟨⟨raw, lines⟩, back, rfl, named, rfl⟩ := List.map_eq_cons_iff.1 tail
  obtain ⟨rfl, rfl⟩ := Prod.mk.inj named
  refine ⟨front, raw, lines, back, rfl, rfl, ?_, ?_, ?_⟩
  · exact fun wildcard member => later _ (List.mem_map_of_mem member)
  · intro normal
    rw [find?, normalize_eq_self_iff.2 normal, bound, Option.some_or]
  · intro unsettled found answered
    obtain ⟨other, length, _, elsewhere⟩ := bound_of_find? answered
    refine ⟨other, ?_, elsewhere⟩
    rintro rfl
    exact unsettled (isNormal_of_length (backslash_not_mem_normalize raw) length.symm).1

/-- A file of themes, a wildcard, and a copy of it that ends like a text file twice. -/
def themes : List (Text × List Text) :=
  [("\\themes\\modern.txt", ["# all", "glass "]), ("moods", ["calm"]), ("moods.txt.txt", ["sad"])]

/-- A name that was put right is found; a name with an ending left leads to another wildcard. -/
theorem find?_ofList_listed_themes :
    (ofList themes).names = ["moods".toList, "moods.txt".toList, "themes/modern".toList] ∧
      (∃ raw lines, (raw, lines) ∈ themes ∧ normalize raw = "themes/modern".toList ∧
        (ofList themes).find? "themes/modern" = some (optionsOf lines)) ∧
      (ofList themes).find? "themes/modern" = some ["glass".toList] ∧
      ∃ other, other ≠ "moods.txt".toList ∧
        (ofList themes).options.find? other = some ["calm".toList] := by
  have names : (ofList themes).names =
      ["moods".toList, "moods.txt".toList, "themes/modern".toList] := by decide +kernel
  have modern : "themes/modern".toList ∈ (ofList themes).names := by
    rw [names]
    exact .tail _ (.tail _ (.head _))
  have moods : "moods.txt".toList ∈ (ofList themes).names := by
    rw [names]
    exact .tail _ (.head _)
  refine ⟨names, ?_, by decide +kernel, ?_⟩
  · obtain ⟨before, raw, lines, after, whole, named, _, found, _⟩ :=
      find?_ofList_listed themes modern
    refine ⟨raw, lines, ?_, named, found (by decide)⟩
    rw [whole]
    exact List.mem_append_right before List.mem_cons_self
  · obtain ⟨_, _, _, _, _, _, _, _, elsewhere⟩ := find?_ofList_listed themes moods
    exact elsewhere (by decide) _ (by decide +kernel)

/-- A name that ends like a text file twice keeps one of the endings when it is stored, and looking it
up drops that one, too. -/
theorem find?_ofList_doubleEnding :
    "moods.txt".toList ∈ (ofList [("moods.txt.txt", ["sad"])]).names ∧
      (ofList [("moods.txt.txt", ["sad"])]).options.find? "moods.txt" = some ["sad".toList] ∧
      (ofList [("moods.txt.txt", ["sad"])]).find? "moods.txt" = none := by
  decide +kernel

end WildcardCollection

end DynamicPrompt
