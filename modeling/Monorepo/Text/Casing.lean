import Monorepo.Text.CaseTable

/-!
# Lower and upper case

The full case mappings of Unicode, in which a character may become several. The one mapping that
looks at its surroundings is that of the capital sigma: at the end of a word it becomes the final
form.
-/

namespace Monorepo.Text

/-- The first row of an ascending list that may hold `n` decides its image. -/
def CaseRow.image : List CaseRow → Nat → Nat
  | [], n => n
  | row :: rows, n =>
    if n ≤ row.last then
      if row.first ≤ n ∧ (n - row.first) % row.step = 0 then (n + row.shift).toNat else n
    else image rows n

/-- Tells whether `c` has a case. -/
def isCased (c : Char) : Bool :=
  if c.toNat < 0x80 then c.isAlpha else CodeRange.coverChunks casedRanges c

/-- Tells whether a search for a neighbouring cased character passes over `c`. -/
def isCaseIgnorable (c : Char) : Bool :=
  if c.toNat < 0x80 then "'.:^`".toList.contains c
  else CodeRange.coverChunks caseIgnorableRanges c

/-- Tells whether the first character of `cs` that is not passed over has a case. -/
def startsCased (cs : List Char) : Bool :=
  (cs.find? (!isCaseIgnorable ·)).any isCased

/-- The lower case of one character out of context. -/
def lowerChar (c : Char) : List Char :=
  if c.toNat < 0x80 then [c.toLower]
  else if c.toNat = 0x130 then ['i', Char.ofNat 0x307]
  else [Char.ofNat (CaseRow.image lowerRows c.toNat)]

/-- The upper case of one character. -/
def upperChar (c : Char) : List Char :=
  if c.toNat < 0x80 then [c.toUpper]
  else match upperSequences.lookup c.toNat with
    | some image => image.map Char.ofNat
    | none => [Char.ofNat (CaseRow.image upperRows c.toNat)]

/-- Lowers the characters that follow, where `before` holds those already passed and `done` their
    images, both the nearest first. A capital sigma is final when a cased character stands before it
    and none after it. -/
def lowerFrom (before done : List Char) : List Char → List Char
  | [] => done.reverse
  | c :: cs =>
    let image :=
      if c = 'Σ' then [if startsCased before && !startsCased cs then 'ς' else 'σ'] else lowerChar c
    lowerFrom (c :: before) (image.reverse ++ done) cs

/-- The text in lower case. -/
def lower (s : String) : String :=
  String.ofList (lowerFrom [] [] s.toList)

/-- The text in upper case. -/
def upper (s : String) : String :=
  String.ofList (s.toList.flatMap upperChar)

end Monorepo.Text
