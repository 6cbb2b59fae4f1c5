/-!
# Blank characters

The characters with the `White_Space` property of Unicode. Durations and times may have them
around their parts; zero-width spaces and the separators `U+001C` to `U+001F` are not among them.
-/

namespace JobDispatch.Text

/-- First and last code points of the runs of `White_Space` characters. -/
def blankRanges : List (Nat × Nat) :=
  [(0x09, 0x0D), (0x20, 0x20), (0x85, 0x85), (0xA0, 0xA0), (0x1680, 0x1680), (0x2000, 0x200A),
    (0x2028, 0x2029), (0x202F, 0x202F), (0x205F, 0x205F), (0x3000, 0x3000)]

def isBlank (c : Char) : Bool := blankRanges.any fun r => r.1 ≤ c.toNat && c.toNat ≤ r.2

def skipBlank (cs : List Char) : List Char := cs.dropWhile isBlank

end JobDispatch.Text
