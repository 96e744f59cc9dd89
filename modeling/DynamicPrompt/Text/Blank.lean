/-!
# Blank characters

White space is the standard property `White_Space`: five control characters, the
space, the next-line control, the no-break space and the spacing characters of the
general punctuation. Trimming, splitting into words and every test for a separating
blank use this one set, so that they agree on what may surround a name.
-/

namespace DynamicPrompt

/-- The ranges of the standard property `White_Space`, in ascending order, both ends
included. -/
def blankRanges : List (Nat × Nat) :=
  [(0x9, 0xd), (0x20, 0x20), (0x85, 0x85), (0xa0, 0xa0), (0x1680, 0x1680),
   (0x2000, 0x200a), (0x2028, 0x2029), (0x202f, 0x202f), (0x205f, 0x205f),
   (0x3000, 0x3000)]

/-- True exactly on the characters of the standard property `White_Space`. -/
def isBlank (c : Char) : Bool :=
  blankRanges.any fun range => range.1 ≤ c.toNat && c.toNat ≤ range.2

end DynamicPrompt
