import DynamicPrompt.Proofs.Delimiter.Grouped

/-!
# Delimiters in the bytes of a text

Delimiters are ASCII, and in UTF-8 a byte of ASCII is never part of another character. So searching
the bytes of a text, each taken as the character of that code, finds the bytes of what searching the
text itself finds: it never cuts a character in two.
-/

namespace DynamicPrompt

/-- A code of a byte is the code of its character. -/
theorem toNat_ofNat_byte (byte : UInt8) : (Char.ofNat byte.toNat).toNat = byte.toNat := by
  have small : byte.toNat < 0xd800 := Nat.lt_trans byte.toNat_lt (by decide)
  rw [Char.ofNat, dif_pos (Or.inl small)]
  rfl

namespace Text

/-- The bytes of a text in UTF-8, each taken as the character of that code. -/
def octets (text : Text) : Text :=
  text.flatMap fun c => (String.utf8EncodeChar c).map fun byte => Char.ofNat byte.toNat

/-- The bytes of a text are those of its parts. -/
theorem octets_append (front back : Text) : octets (front ++ back) = octets front ++ octets back :=
  List.flatMap_append

/-- A character of ASCII is its own byte. -/
theorem octets_cons_ascii {c : Char} (ascii : c.toNat < 0x80) (rest : Text) :
    octets (c :: rest) = c :: octets rest := by
  have single : String.utf8EncodeChar c = [UInt8.ofNat c.toNat] := by
    unfold String.utf8EncodeChar
    exact if_pos (Nat.le_of_lt_succ ascii)
  have code : (UInt8.ofNat c.toNat).toNat = c.toNat := by
    rw [UInt8.toNat_ofNat']
    omega
  rw [octets, List.flatMap_cons, single, List.map_singleton, code, Char.ofNat_toNat]
  rfl

/-- A text of ASCII is its own bytes. -/
theorem octets_ascii {text : Text} (ascii : ∀ c ∈ text, c.toNat < 0x80) : octets text = text := by
  induction text with
  | nil => rfl
  | cons c rest inductionHypothesis =>
    rw [octets_cons_ascii (ascii c List.mem_cons_self),
      inductionHypothesis fun d member => ascii d (.tail c member)]

/-- Every byte of a character beyond ASCII is beyond ASCII. -/
theorem utf8EncodeChar_beyond {c : Char} (beyond : 0x80 ≤ c.toNat) :
    ∀ byte ∈ String.utf8EncodeChar c, 0x80 ≤ byte.toNat := by
  have value : 0x80 ≤ c.val.toNat := beyond
  intro byte member
  unfold String.utf8EncodeChar at member
  dsimp only at member
  split at member
  · omega
  · split at member
    · simp only [List.mem_cons, List.not_mem_nil, or_false] at member
      rcases member with rfl | rfl <;> simp only [UInt8.toNat_ofNat'] <;> omega
    · split at member
      · simp only [List.mem_cons, List.not_mem_nil, or_false] at member
        rcases member with rfl | rfl | rfl <;> simp only [UInt8.toNat_ofNat'] <;> omega
      · simp only [List.mem_cons, List.not_mem_nil, or_false] at member
        rcases member with rfl | rfl | rfl | rfl <;> simp only [UInt8.toNat_ofNat'] <;> omega

/-- A character beyond ASCII has some bytes, all of them beyond ASCII. -/
theorem octets_singleton_beyond {c : Char} (beyond : 0x80 ≤ c.toNat) :
    octets [c] ≠ [] ∧ ∀ d ∈ octets [c], 0x80 ≤ d.toNat := by
  have whole : octets [c] = (String.utf8EncodeChar c).map fun byte => Char.ofNat byte.toNat := by
    simp [octets]
  rw [whole]
  constructor
  · rw [ne_eq, List.map_eq_nil_iff, ← List.length_eq_zero_iff, String.length_utf8EncodeChar]
    exact Nat.ne_of_gt c.utf8Size_pos
  · rw [List.forall_mem_map]
    intro byte member
    rw [toNat_ofNat_byte]
    exact utf8EncodeChar_beyond beyond byte member

/-- A pattern of ASCII begins the bytes of a text exactly if it begins the text. -/
theorem after?_octets {pattern : Text} (ascii : ∀ c ∈ pattern, c.toNat < 0x80) (text : Text) :
    after? pattern (octets text) = (after? pattern text).map octets := by
  induction pattern generalizing text with
  | nil => rfl
  | cons p pattern inductionHypothesis =>
    have first : p.toNat < 0x80 := ascii p List.mem_cons_self
    cases text with
    | nil => rfl
    | cons c text =>
      by_cases code : c.toNat < 0x80
      · rw [octets_cons_ascii code, after?, after?]
        split
        · exact inductionHypothesis (fun d member => ascii d (.tail p member)) text
        · rfl
      · -- Neither the character nor its first byte is the first character of the pattern.
        obtain ⟨filled, beyond⟩ := octets_singleton_beyond (Nat.le_of_not_lt code)
        obtain ⟨byte, bytes, encoded⟩ := List.exists_cons_of_ne_nil filled
        have high : 0x80 ≤ byte.toNat := beyond byte (encoded ▸ List.mem_cons_self)
        have other : p ≠ byte := by
          rintro rfl
          exact absurd first (Nat.not_lt.2 high)
        have other' : p ≠ c := by
          rintro rfl
          exact code first
        rw [← List.singleton_append (x := c), octets_append, encoded, List.cons_append,
          List.singleton_append, after?, after?, if_neg other, if_neg other']
        rfl

end Text

/-- What escapes a character escapes its first byte. -/
theorem foldl_escapes_octets (text : Text) (escaped : Bool) :
    (Text.octets text).foldl escapes escaped = text.foldl escapes escaped := by
  induction text generalizing escaped with
  | nil => rfl
  | cons c rest inductionHypothesis =>
    by_cases code : c.toNat < 0x80
    · rw [Text.octets_cons_ascii code, List.foldl_cons, List.foldl_cons, inductionHypothesis]
    · obtain ⟨filled, beyond⟩ := Text.octets_singleton_beyond (Nat.le_of_not_lt code)
      obtain ⟨init, last, encoded⟩ := (List.eq_nil_or_concat' _).resolve_left filled
      have unescaping (before : Bool) {d : Char} (high : 0x80 ≤ d.toNat) :
          escapes before d = false := by
        have other : d ≠ '\\' := by
          rintro rfl
          exact absurd high (by decide)
        simp [escapes, other]
      have lastByte : 0x80 ≤ last.toNat := beyond last (by simp [encoded])
      rw [← List.singleton_append (x := c), Text.octets_append, encoded, List.foldl_append,
        List.foldl_append, List.foldl_append, inductionHypothesis, List.foldl_cons, List.foldl_nil,
        List.foldl_cons, List.foldl_nil, unescaping _ lastByte,
        unescaping _ (Nat.le_of_not_lt code)]

section Searching

variable {search : Bool → Text → Option (Text × Text)}

/-- A search passes a character whatever it is told of escapes, and the next character is not
escaped. -/
def Passes (search : Bool → Text → Option (Text × Text)) (c : Char) : Prop :=
  ∀ escaped rest, search escaped (c :: rest) =
    (search false rest).map fun parts => (c :: parts.1, parts.2)

/-- A run of characters that are passed is passed. -/
theorem search_run {run : Text} (filled : run ≠ []) (passes : ∀ c ∈ run, Passes search c)
    (escaped : Bool) (rest : Text) :
    search escaped (run ++ rest) =
      (search false rest).map fun parts => (run ++ parts.1, parts.2) := by
  induction run generalizing escaped with
  | nil => exact absurd rfl filled
  | cons c run inductionHypothesis =>
    rw [List.cons_append, passes c List.mem_cons_self]
    cases run with
    | nil => rfl
    | cons d run =>
      rw [inductionHypothesis (List.cons_ne_nil d run) fun e member => passes e (.tail c member),
        Option.map_map]
      rfl

/-- A search finds in the bytes of a text what it finds in the text. -/
def FindsOctets (search : Bool → Text → Option (Text × Text)) (text : Text) : Prop :=
  ∀ escaped, search escaped (Text.octets text) =
    (search escaped text).map (Prod.map Text.octets Text.octets)

/-- A search that passes every character beyond ASCII passes the bytes of such a character as it
passes the character. -/
theorem FindsOctets.cons_beyond {c : Char} {rest : Text}
    (passes : ∀ d : Char, 0x80 ≤ d.toNat → Passes search d) (beyond : 0x80 ≤ c.toNat)
    (others : FindsOctets search rest) : FindsOctets search (c :: rest) := by
  intro escaped
  obtain ⟨filled, bytes⟩ := Text.octets_singleton_beyond beyond
  rw [passes c beyond, ← List.singleton_append (x := c), Text.octets_append,
    search_run filled (fun d member => passes d (bytes d member)), others, Option.map_map,
    Option.map_map]
  congr 1
  funext parts
  simp only [Function.comp_apply, Prod.map_fst, Prod.map_snd, Prod.map_apply, Prod.mk.injEq,
    and_true]
  exact (Text.octets_append [c] parts.1).symm

/-- A character of ASCII that is passed belongs to what stands before the find, for the bytes as for
the text. -/
theorem map_octets_cons {c : Char} (ascii : c.toNat < 0x80) {found found' : Option (Text × Text)}
    (same : found' = found.map (Prod.map Text.octets Text.octets)) :
    (found'.map fun parts => (c :: parts.1, parts.2)) =
      (found.map fun parts => (c :: parts.1, parts.2)).map (Prod.map Text.octets Text.octets) := by
  rw [same, Option.map_map, Option.map_map]
  congr 1
  funext parts
  simp [Text.octets_cons_ascii ascii]

end Searching

section Closers

variable {opener closer : Char} (asciiOpener : opener.toNat < 0x80)
  (asciiCloser : closer.toNat < 0x80)

include asciiOpener asciiCloser

/-- The search for a closer finds in the bytes of a text what it finds in the text. -/
theorem closing?_octets (depth : Nat) (text : Text) :
    FindsOctets (closing? opener closer depth) text := by
  have passes (depth : Nat) (c : Char) (beyond : 0x80 ≤ c.toNat) :
      Passes (closing? opener closer depth) c := by
    intro escaped rest
    have noOpener : c ≠ opener := by
      rintro rfl
      omega
    have noCloser : c ≠ closer := by
      rintro rfl
      omega
    have unescaping : c ≠ '\\' := by
      rintro rfl
      exact absurd beyond (by decide)
    cases escaped with
    | false => exact closing?_other noOpener noCloser unescaping depth rest
    | true =>
      rw [closing?.eq_def]
      simp [escapes]
  induction text generalizing depth with
  | nil => intro escaped; rfl
  | cons c rest inductionHypothesis =>
    by_cases code : c.toNat < 0x80
    · intro escaped
      have onward (depth : Nat) := map_octets_cons code
        (inductionHypothesis depth (escapes escaped c))
      rw [Text.octets_cons_ascii code, closing?.eq_def, closing?.eq_def]
      dsimp only
      split
      · exact onward depth
      · split
        · cases depth with
          | zero => rfl
          | succ outer => exact onward outer
        · split
          · exact onward (depth + 1)
          · exact onward depth
    · exact .cons_beyond (passes depth) (Nat.le_of_not_lt code) (inductionHypothesis depth)

/-- The position of a closer among the bytes of a text is the number of bytes before it. -/
theorem findMatchingClose_octets {text : Text} {place : Nat} (opens : text[place]? = some opener) :
    findMatchingClose (Text.octets text) (Text.octets (text.take place)).length opener closer =
      (findMatchingClose text place opener closer).map fun found =>
        (Text.octets (text.take found)).length := by
  obtain ⟨before, rest, rfl, rfl⟩ : ∃ before rest, before ++ opener :: rest = text ∧
      before.length = place := by
    obtain ⟨inside, here⟩ := List.getElem?_eq_some_iff.1 opens
    refine ⟨text.take place, text.drop (place + 1), ?_,
      List.length_take_of_le (Nat.le_of_lt inside)⟩
    rw [← here, List.getElem_cons_drop, List.take_append_drop]
  have opened (front back : Text) : (front ++ opener :: back).take (front.length + 1) =
      front ++ [opener] ∧ (front ++ opener :: back).drop (front.length + 1) = back := by
    simp [List.take_append, List.drop_append, List.take_of_length_le]
  have encoded : Text.octets (before ++ opener :: rest) =
      Text.octets before ++ opener :: Text.octets rest := by
    rw [Text.octets_append, Text.octets_cons_ascii asciiOpener]
  have escaped : isEscapedAfter (Text.octets before ++ [opener]) =
      isEscapedAfter (before ++ [opener]) := by
    rw [isEscapedAfter, isEscapedAfter, List.foldl_append, List.foldl_append, foldl_escapes_octets]
  rw [List.take_left, findMatchingClose, findMatchingClose, encoded, (opened _ _).1, (opened _ _).2,
    (opened _ _).1, (opened _ _).2, escaped, closing?_octets asciiOpener asciiCloser]
  cases found : closing? opener closer 0 (isEscapedAfter (before ++ [opener])) rest with
  | none => rfl
  | some parts =>
    obtain ⟨inner, after⟩ := parts
    obtain rfl := closing?_append found
    have reached : (before ++ opener :: (inner ++ closer :: after)).take
        (before.length + 1 + inner.length) = before ++ opener :: inner := by
      have length : before.length + 1 + inner.length = (before ++ opener :: inner).length := by
        rw [List.length_append, List.length_cons]
        omega
      have whole : before ++ opener :: (inner ++ closer :: after) =
          (before ++ opener :: inner) ++ closer :: after := by simp
      rw [length, whole, List.take_left]
    simp only [Option.map_some, Prod.map_fst, reached, Text.octets_append,
      Text.octets_cons_ascii asciiOpener, List.length_append, List.length_cons]
    congr 1
    omega

end Closers

section Separators

variable {brackets : Brackets} {mark : Char} {more : Text}

/-- The search for a separator finds in the bytes of a text what it finds in the text. -/
theorem topLevelFrom?_octets
    (ascii : ∀ c, brackets.Mentions c ∨ c ∈ mark :: more → c.toNat < 0x80) (depths : List Nat)
    (text : Text) : FindsOctets (topLevelFrom? (mark :: more) brackets depths) text := by
  have passes (depths : List Nat) (c : Char) (beyond : 0x80 ≤ c.toNat) :
      Passes (topLevelFrom? (mark :: more) brackets depths) c := by
    intro escaped rest
    have unmentioned : ¬ brackets.Mentions c := fun mentioned =>
      absurd (ascii c (.inl mentioned)) (Nat.not_lt.2 beyond)
    have other : c ≠ mark := by
      rintro rfl
      exact absurd (ascii c (.inr List.mem_cons_self)) (Nat.not_lt.2 beyond)
    have unescaping : c ≠ '\\' := by
      rintro rfl
      exact absurd beyond (by decide)
    cases escaped with
    | false => rw [topLevelFrom?_step unescaping fun _ => other, step_unmentioned unmentioned]
    | true =>
      rw [topLevelFrom?]
      simp [escapes]
  induction text generalizing depths with
  | nil => intro escaped; rfl
  | cons c rest inductionHypothesis =>
    by_cases code : c.toNat < 0x80
    · intro escaped
      have onward (depths : List Nat) := map_octets_cons code
        (inductionHypothesis depths (escapes escaped c))
      have begins : (Text.after? (mark :: more) (c :: Text.octets rest)).isSome =
          (Text.after? (mark :: more) (c :: rest)).isSome := by
        rw [← Text.octets_cons_ascii code,
          Text.after?_octets (fun d member => ascii d (.inr member)), Option.isSome_map]
      rw [Text.octets_cons_ascii code, topLevelFrom?, topLevelFrom?, begins]
      split
      · exact onward depths
      · split
        · rw [Option.map_some, Prod.map_apply, Text.octets_cons_ascii code]
          rfl
        · exact onward (brackets.step depths c)
    · exact .cons_beyond (passes depths) (Nat.le_of_not_lt code) (inductionHypothesis depths)

end Separators

end DynamicPrompt
