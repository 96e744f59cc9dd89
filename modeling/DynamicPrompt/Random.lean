/-!
# Random words

All randomness comes from one endless sequence of 64-bit words, read in order. A stream
is that sequence together with the number of words taken, so a draw is a function of the
stream and two runs from equal streams agree.

A unit number uses the upper 53 bits of one word. A whole number in a range multiplies a
word by the number of values and keeps the upper half of the product. It rejects the words
whose lower half lies beyond the zone, so that every value has the same number of words. At
most half of all words are rejected, and the bound on the attempts is the number of
different words.

The mixing generator makes a sequence from a seed: the word at a place is a scrambled
multiple of a fixed odd constant, so each place can be computed by itself.
-/

namespace DynamicPrompt.Random

/-- An endless sequence of words and the number of those already taken. -/
structure Stream where
  word : Nat → UInt64
  taken : Nat

/-- The word that a seed has at a place: the seed is moved on by one odd constant for each
word, then scrambled. -/
def mixed (seed : UInt64) (place : Nat) : UInt64 :=
  let state := seed + 0x9E3779B97F4A7C15 * UInt64.ofNat (place + 1)
  let state := (state ^^^ (state >>> 30)) * 0xBF58476D1CE4E5B9
  let state := (state ^^^ (state >>> 27)) * 0x94D049BB133111EB
  state ^^^ (state >>> 31)

namespace Stream

/-- The stream that yields the given words first and the words of a seed after them. -/
def ofSeed (given : Array UInt64) (seed : UInt64) : Stream :=
  ⟨fun place => given[place]?.getD (mixed seed (place - given.size)), 0⟩

/-- The next word. -/
def next (stream : Stream) : UInt64 × Stream :=
  (stream.word stream.taken, { stream with taken := stream.taken + 1 })

/-- A number from zero up to one, one not included: a multiple of `2 ^ -53`. -/
def unit (stream : Stream) : Float × Stream :=
  let (word, stream) := stream.next
  ((word >>> 11).toFloat / 9007199254740992, stream)

/-- The largest multiple of a count by a power of two that is at most `2 ^ 64`: at least
half of the lower halves lie below it, and equally many for every value. -/
def zone (count : Nat) : Nat := count * Nat.pow 2 (63 - Nat.log2 count)

/-- The first value below `count`, at most `2 ^ 64`, that a word of the stream stands for;
zero after the given number of rejected words. -/
def belowFrom (count : Nat) : Nat → Stream → Nat × Stream
  | 0, stream => (0, stream)
  | attempts + 1, stream =>
    let (word, stream) := stream.next
    let product := word.toNat * count
    if product % UInt64.size < zone count then (product / UInt64.size, stream)
    else belowFrom count attempts stream

/-- A number from `low` to `high`, both included. -/
def within (low high : Nat) (stream : Stream) : Nat × Stream :=
  let (offset, stream) := belowFrom (high - low + 1) UInt64.size stream
  (low + offset, stream)

end Stream

end DynamicPrompt.Random
