/-!
# Ranges of code points

Character classes are given by ascending, disjoint ranges of code points. A long class is cut into
chunks, so that a look-up skips whole chunks by their last code point.
-/

namespace Monorepo.Text

/-- The code points from `first` to `last`, both included. -/
structure CodeRange where
  /-- The least code point of the range. -/
  first : Nat
  /-- The greatest code point of the range. -/
  last : Nat
deriving DecidableEq, Repr

namespace CodeRange

/-- Tells whether one of the ascending `rows` holds `c`. -/
def cover : List CodeRange → Char → Bool
  | [], _ => false
  | row :: rows, c => if c.toNat ≤ row.last then row.first ≤ c.toNat else cover rows c

/-- Tells whether one of the ascending `chunks` of ranges holds `c`. -/
def coverChunks : List (List CodeRange) → Char → Bool
  | [], _ => false
  | rows :: chunks, c =>
    match rows.getLast? with
    | some row => if c.toNat ≤ row.last then cover rows c else coverChunks chunks c
    | none => coverChunks chunks c

end CodeRange

end Monorepo.Text
