import Monorepo.Text.CodeRange

/-!
# Blanks and control characters

A blank is a character with the Unicode property `White_Space`; a control character is one of the
general category `Cc`.
-/

namespace Monorepo.Text

/-- The blanks, in ascending order. -/
def blankRanges : List CodeRange :=
  [⟨0x9, 0xD⟩, ⟨0x20, 0x20⟩, ⟨0x85, 0x85⟩, ⟨0xA0, 0xA0⟩, ⟨0x1680, 0x1680⟩, ⟨0x2000, 0x200A⟩,
   ⟨0x2028, 0x2029⟩, ⟨0x202F, 0x202F⟩, ⟨0x205F, 0x205F⟩, ⟨0x3000, 0x3000⟩]

/-- Tells whether `c` is white space. -/
def isBlank (c : Char) : Bool := CodeRange.cover blankRanges c

/-- Tells whether `c` is a control character. -/
def isControl (c : Char) : Bool := c.toNat < 0x20 || (0x7F ≤ c.toNat && c.toNat < 0xA0)

end Monorepo.Text
