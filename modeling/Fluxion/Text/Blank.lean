/-!
# Blank characters

The characters that separate tokens without being part of one: the ASCII
controls of layout, the four separator controls before the space, and the
spaces and line separators of Unicode. Zero-width characters are not blank.
-/

namespace Fluxion.Text

/-- The ranges of blank code points. -/
def blankRanges : List (Nat × Nat) :=
  [(0x9, 0xd), (0x1c, 0x20), (0x85, 0x85), (0xa0, 0xa0), (0x1680, 0x1680), (0x2000, 0x200a),
   (0x2028, 0x2029), (0x202f, 0x202f), (0x205f, 0x205f), (0x3000, 0x3000)]

/-- A character that only separates. -/
def isBlank (c : Char) : Bool :=
  blankRanges.any fun (first, last) => first ≤ c.toNat && c.toNat ≤ last

end Fluxion.Text
