import DynamicPrompt.Choice.Filter
import DynamicPrompt.Proofs.Numeral.Word
import DynamicPrompt.Proofs.Work
import DynamicPrompt.Source.Reference

/-!
# Positions moved on

The positions in a filter are written from zero and read from one, so the rewriting moves them on
before the filter is put into a tag. It recognises an entry that states a position by itself, without
reading the filter. The two agree on every text: reading the rewritten filter gives the entries of
the filter that was written, in their order, with every position moved on and every label kept.
Entries that are dropped, because they are blank or state a number beyond the words, are dropped on
both sides.

A position is a word, and so is the position after it. The largest word is not followed by another
one, and the rewriting stops at a filter with this position, although it can be read.
-/

namespace DynamicPrompt

/-- The entry with its position moved, if it states one. -/
def FilterEntry.mapPosition (move : Nat → Nat) : FilterEntry → FilterEntry
  | position index => position (move index)
  | labels required excluded => labels required excluded

/-- The filter with its positions moved. Its entries keep their order, and labels are kept. -/
def Filter.mapPositions (move : Nat → Nat) (filter : Filter) : Filter :=
  ⟨filter.entries.map (FilterEntry.mapPosition move)⟩

section Entries

variable {entry moved : Text}

/-- An entry of digits is read as a position if the digits are those of a word. -/
theorem ofText?_digits (digits : Numeral.isDigits (Text.trim entry) = true) :
    FilterEntry.ofText? entry = (Numeral.word? (Text.trim entry)).map .position := by
  have filled := List.isEmpty_eq_false_iff.2 (Numeral.ne_nil_of_isDigits digits)
  rw [FilterEntry.ofText?]
  dsimp only
  rw [filled, if_neg Bool.false_ne_true,
    if_pos (List.all_eq_true.2 (Numeral.isDigit_of_mem digits))]

/-- The digits of a word are read as the position. -/
theorem ofText?_ofNat {index : Nat} (small : index < UInt64.size) :
    FilterEntry.ofText? (Text.ofNat index) = some (.position index) := by
  have written := Numeral.isWord_ofNat small
  have unspaced := Numeral.trim_of_isDigits written.digits
  have digits : Numeral.isDigits (Text.trim (Text.ofNat index)) = true := by
    rw [unspaced]
    exact written.digits
  rw [ofText?_digits digits, unspaced, Numeral.word?_of_isWord written, Numeral.digitsValue_ofNat]
  rfl

/-- Digits without blanks around them are all that a place consists of. -/
theorem all_isDigit_of_filled (filled : Text.trim entry ≠ [])
    (all : (Text.trim entry).all Char.isDigit = true) :
    Numeral.isDigits (Text.trim entry) = true := by
  rw [Numeral.isDigits, all, List.isEmpty_eq_false_iff.2 filled]
  rfl

/-- An entry that is no position is read as labels, if it is read. -/
theorem ofText?_ne_position (other : ¬ Numeral.isDigits (Text.trim entry) = true) (index : Nat) :
    FilterEntry.ofText? entry ≠ some (.position index) := by
  intro read
  rw [FilterEntry.ofText?] at read
  dsimp only at read
  split at read
  · cases read
  · next filled =>
    split at read
    · next all =>
      exact other (all_isDigit_of_filled (fun empty => filled (List.isEmpty_iff.2 empty)) all)
    · split at read
      · cases read
      · cases read

/-- An entry that is no position is written as it is. -/
theorem shiftEntry_labels (other : ¬ Numeral.isDigits (Text.trim entry) = true) :
    Source.Reference.shiftEntry entry = some entry := by
  rw [Source.Reference.shiftEntry]
  split
  · next index read =>
    rw [if_neg]
    intro all
    apply other
    apply all_isDigit_of_filled _ all
    intro empty
    have nothing : Numeral.word? [] = none := by decide
    rw [empty, nothing] at read
    exact absurd read.symm (Option.some_ne_none index)
  · rfl

/-- Digits that are a word are moved on, and digits beyond the words are written as they are. -/
theorem shiftEntry_digits (digits : Numeral.isDigits (Text.trim entry) = true) :
    Source.Reference.shiftEntry entry =
      match Numeral.word? (Text.trim entry) with
      | some index => (Source.Reference.nextPosition? index).map Text.ofNat
      | none => some entry := by
  have all := List.all_eq_true.2 (Numeral.isDigit_of_mem digits)
  rw [Source.Reference.shiftEntry]
  cases Numeral.word? (Text.trim entry) with
  | none => rfl
  | some index => exact if_pos all

/-- An entry cannot be moved on exactly if it is read as the largest position. -/
theorem shiftEntry_eq_none_iff :
    Source.Reference.shiftEntry entry = none ↔
      FilterEntry.ofText? entry = some (.position (UInt64.size - 1)) := by
  by_cases digits : Numeral.isDigits (Text.trim entry) = true
  · rw [shiftEntry_digits digits, ofText?_digits digits]
    cases read : Numeral.word? (Text.trim entry) with
    | none => simp
    | some index =>
      have word := Numeral.word?_lt read
      have last : ¬ index + 1 < UInt64.size ↔ index = UInt64.size - 1 := by omega
      simp [Source.Reference.nextPosition?, last]
  · rw [shiftEntry_labels digits]
    exact iff_of_false (Option.some_ne_none entry) (ofText?_ne_position digits _)

/-- An entry that is moved on is read as the entry that was written, with its position moved on. -/
theorem ofText?_of_shiftEntry (done : Source.Reference.shiftEntry entry = some moved) :
    FilterEntry.ofText? moved =
      (FilterEntry.ofText? entry).map (FilterEntry.mapPosition (· + 1)) := by
  by_cases digits : Numeral.isDigits (Text.trim entry) = true
  · rw [shiftEntry_digits digits] at done
    cases read : Numeral.word? (Text.trim entry) with
    | none =>
      rw [read] at done
      obtain rfl := Option.some.inj done
      rw [ofText?_digits digits, read]
      rfl
    | some index =>
      rw [read] at done
      obtain ⟨next, follows, rfl⟩ := Option.map_eq_some_iff.1 done
      unfold Source.Reference.nextPosition? at follows
      split at follows
      · next small =>
        obtain rfl := Option.some.inj follows
        rw [ofText?_ofNat small, ofText?_digits digits, read]
        rfl
      · cases follows
  · rw [shiftEntry_labels digits] at done
    obtain rfl := Option.some.inj done
    cases read : FilterEntry.ofText? entry with
    | none => rfl
    | some stated =>
      cases stated with
      | position index => exact absurd read (ofText?_ne_position digits index)
      | labels required excluded => rfl

end Entries

section Filters

variable {filter shifted : Text}

/-- A shifted filter is made of its shifted entries. -/
theorem Source.Reference.shiftPositions_eq_some_iff :
    shiftPositions filter = some shifted ↔
      ∃ entries, (Text.split ',' filter).map shiftEntry = entries.map some ∧
        Text.join "," entries = shifted := by
  change ((Text.split ',' filter).mapM shiftEntry >>= fun entries => some (Text.join "," entries)) =
    some shifted ↔ _
  simp only [Option.bind_eq_bind, Option.bind_eq_some_iff, mapM_eq_some_iff, Option.some.injEq]

/-- A filter cannot be shifted exactly if one of its entries cannot, which is the case if it is read
as the largest position. -/
theorem Source.Reference.shiftPositions_eq_none_iff :
    shiftPositions filter = none ↔
      FilterEntry.position (UInt64.size - 1) ∈ (Filter.ofText filter).entries := by
  change ((Text.split ',' filter).mapM shiftEntry >>= fun entries => some (Text.join "," entries)) =
    none ↔ _
  simp only [Option.bind_eq_bind, Option.bind_eq_none_iff, reduceCtorEq, imp_false,
    ← Option.eq_none_iff_forall_ne_some, mapM_eq_none_iff, shiftEntry_eq_none_iff, Filter.ofText,
    List.mem_filterMap]

/-- The entries of a shifted filter are the shifted entries. -/
theorem Source.Reference.split_of_shiftPositions (done : shiftPositions filter = some shifted) :
    (Text.split ',' shifted).map some = (Text.split ',' filter).map shiftEntry := by
  obtain ⟨entries, each, rfl⟩ := shiftPositions_eq_some_iff.1 done
  have apart : ∀ part ∈ entries, ',' ∉ part := by
    intro part member
    have image : some part ∈ (Text.split ',' filter).map shiftEntry := by
      rw [each]
      exact List.mem_map_of_mem member
    obtain ⟨entry, among, moves⟩ := List.mem_map.1 image
    have kept : ',' ∉ entry := fun comma => (Text.mem_split among ',' comma).2 rfl
    unfold shiftEntry at moves
    dsimp only at moves
    split at moves
    · split at moves
      · obtain ⟨index, _, rfl⟩ := Option.map_eq_some_iff.1 moves
        intro comma
        have digit := Numeral.isDigit_of_mem (Numeral.isDigits_ofNat _) ',' comma
        exact absurd digit (by decide)
      · exact Option.some.inj moves ▸ kept
    · exact Option.some.inj moves ▸ kept
  have parts : Text.split ',' (Text.join "," entries) = entries := by
    refine Text.split_join_alone ?_ apart
    rintro rfl
    exact Text.split_ne_nil ',' filter (List.map_eq_nil_iff.1 each)
  rw [parts, each]

/-- A shifted filter has no other characters than the filter, apart from digits and commas. -/
theorem Source.Reference.mem_shiftPositions (done : shiftPositions filter = some shifted) :
    ∀ c ∈ shifted, c ∈ filter ∨ c.isDigit = true ∨ c = ',' := by
  obtain ⟨entries, moved, rfl⟩ := shiftPositions_eq_some_iff.1 done
  apply @Text.join_of_parts fun text => ∀ c ∈ text, c ∈ filter ∨ c.isDigit = true ∨ c = ','
  · exact List.forall_mem_nil _
  · exact fun front back => List.forall_mem_append.2 ⟨front, back⟩
  · exact List.forall_mem_singleton.2 (.inr (.inr rfl))
  · intro entry member c inside
    have image : some entry ∈ (Text.split ',' filter).map shiftEntry := by
      rw [moved]
      exact List.mem_map_of_mem member
    obtain ⟨piece, among, moves⟩ := List.mem_map.1 image
    have kept : c ∈ piece → c ∈ filter := fun inside => (Text.mem_split among c inside).1
    unfold shiftEntry at moves
    dsimp only at moves
    split at moves
    · split at moves
      · obtain ⟨position, _, rfl⟩ := Option.map_eq_some_iff.1 moves
        exact .inr (.inl (Numeral.isDigit_of_mem (Numeral.isDigits_ofNat _) c inside))
      · exact .inl (kept (Option.some.inj moves ▸ inside))
    · exact .inl (kept (Option.some.inj moves ▸ inside))

/-- A shifted filter is read as the filter that was written, with its positions moved on. -/
theorem Filter.ofText_of_shiftPositions
    (done : Source.Reference.shiftPositions filter = some shifted) :
    ofText shifted = (ofText filter).mapPositions (· + 1) := by
  have each := Source.Reference.split_of_shiftPositions done
  have moved : ∀ entry ∈ Text.split ',' filter,
      (Source.Reference.shiftEntry entry).bind FilterEntry.ofText? =
        (FilterEntry.ofText? entry).map (FilterEntry.mapPosition (· + 1)) := by
    intro entry member
    have image := List.mem_map_of_mem (f := Source.Reference.shiftEntry) member
    rw [← each] at image
    obtain ⟨part, _, moves⟩ := List.mem_map.1 image
    rw [← moves]
    exact ofText?_of_shiftEntry moves.symm
  have read : (Text.split ',' shifted).filterMap FilterEntry.ofText? =
      ((Text.split ',' shifted).map some).filterMap (·.bind FilterEntry.ofText?) := by
    rw [List.filterMap_map]
    rfl
  rw [ofText, ofText, mapPositions, List.map_filterMap, read, each, List.filterMap_map]
  exact congrArg Filter.mk (List.filterMap_congr moved)

end Filters

/-- Reading a shifted filter gives the entries of the filter that was written, in their order, with
the labels kept and the number after every position in its place. Every filter can be shifted in
which the largest word is no position, and no other. -/
theorem Filter.ofText_shiftPositions_iff (filter : Text) :
    (∀ shifted, Source.Reference.shiftPositions filter = some shifted →
        ofText shifted = (ofText filter).mapPositions (· + 1)) ∧
      (Source.Reference.shiftPositions filter = none ↔
        .position (UInt64.size - 1) ∈ (ofText filter).entries) :=
  ⟨fun _ => ofText_of_shiftPositions, Source.Reference.shiftPositions_eq_none_iff⟩

/-- The largest position can be read, but not moved on. -/
theorem Filter.ofText_shiftPositions_largest :
    ofText "18446744073709551615" = ⟨[.position 18446744073709551615]⟩ ∧
      Source.Reference.shiftPositions "18446744073709551615" = none := by
  decide +kernel

end DynamicPrompt
