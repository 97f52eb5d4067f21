import Mathlib.Algebra.Group.Nat.Defs
import Monorepo.Proofs.LiteralTokens

/-!
# Numerals

A number can be spelled in base ten, with zeros in front and the letter `l` behind, or in base
sixteen, eight or two behind a mark, and underscores may stand anywhere behind the first character.
Each spelling is scanned as one number of the value that the digits have in their base. A value that
does not fit in 63 bits is refused where the number begins: nothing is wrapped or cut off.
-/

namespace Monorepo.Script

/-- The digits of all bases and what they stand for. -/
def digitChars : List (Char × Nat) :=
  [('0', 0), ('1', 1), ('2', 2), ('3', 3), ('4', 4), ('5', 5), ('6', 6), ('7', 7), ('8', 8),
    ('9', 9), ('a', 10), ('A', 10), ('b', 11), ('B', 11), ('c', 12), ('C', 12), ('d', 13),
    ('D', 13), ('e', 14), ('E', 14), ('f', 15), ('F', 15)]

/-- `c` is the digit `d` of a base. -/
def IsDigitOf (base : Nat) (c : Char) (d : Nat) : Prop := (c, d) ∈ digitChars ∧ d < base

/-- Digits spell a number in a base, the digit of the highest place first. -/
inductive SpellsNat (base : Nat) : List Char → Nat → Prop
  | one {c : Char} {d : Nat} (hdigit : IsDigitOf base c d) : SpellsNat base [c] d
  | more {cs : List Char} {n : Nat} {c : Char} {d : Nat} (hdigits : SpellsNat base cs n)
      (hdigit : IsDigitOf base c d) : SpellsNat base (cs ++ [c]) (n * base + d)

/-- The letters behind a zero that stand for a base. -/
def baseMarks : List (Char × Nat) :=
  [('x', 16), ('X', 16), ('o', 8), ('O', 8), ('b', 2), ('B', 2)]

/-- Characters without underscores spell a number. -/
inductive Numeral : List Char → Nat → Prop
  | decimal {digits longs : List Char} {n : Nat} (hdigits : SpellsNat 10 digits n)
      (hlongs : ∀ c ∈ longs, c = 'l' ∨ c = 'L') : Numeral (digits ++ longs) n
  | based {mark : Char} {base : Nat} {digits : List Char} {n : Nat}
      (hmark : (mark, base) ∈ baseMarks) (hdigits : SpellsNat base digits n) :
      Numeral ('0' :: mark :: digits) n

/-- Characters spell a number, with underscores behind the first one. -/
structure Writes (written : List Char) (n : Nat) : Prop where
  first : written.head? ≠ some '_'
  numeral : Numeral (written.filter (· ≠ '_')) n

/-! ## Digits -/

/-- What holds of the digits in the list holds of the digits of each base. -/
theorem IsDigitOf.all {base d : Nat} {c : Char} (h : IsDigitOf base c d) {P : Char → Nat → Prop}
    (hall : ∀ p ∈ digitChars, P p.1 p.2) : P c d := hall (c, d) h.1

theorem IsDigitOf.isAlphanum {base d : Nat} {c : Char} (h : IsDigitOf base c d) :
    c.isAlphanum = true :=
  h.all (P := fun c _ => c.isAlphanum = true) (by decide)

theorem IsDigitOf.digitValue_toLower {base d : Nat} {c : Char} (h : IsDigitOf base c d) :
    Decimal.digitValue base c.toLower = some d := by
  have hvalue : Decimal.digitValue 16 c.toLower = some d :=
    h.all (P := fun c d => Decimal.digitValue 16 c.toLower = some d) (by decide)
  unfold Decimal.digitValue at hvalue ⊢
  dsimp only at hvalue ⊢
  obtain ⟨hread, -⟩ := Option.filter_eq_some_iff.mp hvalue
  rw [hread, Option.filter_some, if_pos (decide_eq_true h.2)]

theorem IsDigitOf.isDigit {d : Nat} {c : Char} (h : IsDigitOf 10 c d) : c.isDigit = true :=
  h.all (P := fun c d => d < 10 → c.isDigit = true) (by decide) h.2

theorem appendDigits_concat {base n m d : Nat} {cs : List Char} {c : Char}
    (hcs : Decimal.appendDigits base n cs = some m) (hc : Decimal.digitValue base c = some d) :
    Decimal.appendDigits base n (cs ++ [c]) = some (m * base + d) := by
  induction cs generalizing n with
  | nil =>
    cases hcs
    rw [List.nil_append, Decimal.appendDigits, hc]
    rfl
  | cons first cs ih =>
    rw [Decimal.appendDigits] at hcs
    obtain ⟨value, hvalue, hrest⟩ := Option.bind_eq_some_iff.mp hcs
    rw [List.cons_append, Decimal.appendDigits, hvalue, Option.bind_some, ih hrest]

namespace SpellsNat

variable {base n : Nat} {cs : List Char}

theorem appendDigits (h : SpellsNat base cs n) :
    Decimal.appendDigits base 0 (cs.map Char.toLower) = some n := by
  induction h with
  | one hdigit =>
    rw [List.map_cons, Decimal.appendDigits, hdigit.digitValue_toLower, Option.bind_some,
      Nat.zero_mul, Nat.zero_add]
    rfl
  | more _ hdigit ih =>
    rw [List.map_append]
    exact appendDigits_concat ih hdigit.digitValue_toLower

theorem ne_nil (h : SpellsNat base cs n) : cs ≠ [] := by
  cases h with
  | one _ => exact List.cons_ne_nil _ _
  | more _ _ => exact List.append_ne_nil_of_right_ne_nil _ (List.cons_ne_nil _ _)

theorem readNat? (h : SpellsNat base cs n) :
    Decimal.readNat? base (cs.map Char.toLower) = some n := by
  have happend := h.appendDigits
  cases cs with
  | nil => exact absurd rfl h.ne_nil
  | cons c cs => exact happend

/-- What holds of each digit of the base holds of all characters. -/
theorem forall_mem (h : SpellsNat base cs n) {P : Char → Prop}
    (hall : ∀ c d, IsDigitOf base c d → P c) : ∀ c ∈ cs, P c := by
  induction h with
  | one hdigit => exact List.forall_mem_singleton.mpr (hall _ _ hdigit)
  | more _ hdigit ih =>
    exact List.forall_mem_append.mpr ⟨ih, List.forall_mem_singleton.mpr (hall _ _ hdigit)⟩

theorem isDigits (h : SpellsNat 10 cs n) : IsDigits cs := h.forall_mem fun _ _ hc => hc.isDigit

end SpellsNat

/-! ## Numerals without underscores -/

namespace Numeral

variable {cs : List Char} {n : Nat}

theorem ne_nil (h : Numeral cs n) : cs ≠ [] := by
  cases h with
  | decimal hdigits _ => exact List.append_ne_nil_of_left_ne_nil hdigits.ne_nil _
  | based _ _ => exact List.cons_ne_nil _ _

/-- The first character of a numeral is a digit, and the others are letters and digits. -/
theorem chars (h : Numeral cs n) :
    (∀ c ∈ cs.head?, c.isDigit = true) ∧ ∀ c ∈ cs, c.isAlphanum = true := by
  cases h with
  | @decimal digits longs _ hdigits hlongs =>
    constructor
    · rw [List.head?_append_of_ne_nil _ hdigits.ne_nil]
      exact fun c hc => hdigits.isDigits c (List.mem_of_mem_head? hc)
    · refine List.forall_mem_append.mpr ⟨hdigits.forall_mem fun _ _ hc => hc.isAlphanum, ?_⟩
      intro c hc
      rcases hlongs c hc with rfl | rfl <;> rfl
  | @based mark base digits _ hmark hdigits =>
    have hletter : ∀ p ∈ baseMarks, p.1.isAlphanum = true := by decide
    constructor
    · rintro _ ⟨⟩
      rfl
    · refine List.forall_mem_cons.mpr ⟨rfl, List.forall_mem_cons.mpr ⟨hletter _ hmark, ?_⟩⟩
      exact hdigits.forall_mem fun _ _ hc => hc.isAlphanum

/-- A numeral is read as its value, whatever the case of its letters, as long as that fits. -/
theorem readNumber? (h : Numeral cs n) :
    Scanner.readNumber? (cs.map Char.toLower) =
      if n ≤ Decimal.maxInt64.toNat then some (.int n) else none := by
  have hinteger : ((some n).filter (· ≤ Decimal.maxInt64.toNat)).map Lexeme.int =
      if n ≤ Decimal.maxInt64.toNat then some (.int n) else none := by
    by_cases hn : n ≤ Decimal.maxInt64.toNat
    · rw [Option.filter_some, if_pos (decide_eq_true hn), if_pos hn, Option.map_some]
    · rw [Option.filter_some, if_neg (by simpa using hn), if_neg hn, Option.map_none]
  cases h with
  | @decimal digits longs _ hdigits hlongs =>
    have hlower : longs.map Char.toLower = List.replicate longs.length 'l' := by
      refine List.map_eq_replicate_iff.mpr fun c hc => ?_
      rcases hlongs c hc with rfl | rfl <;> rfl
    have hkept : digits.map Char.toLower = digits := by
      refine (List.map_congr_left fun c hc => ?_).trans (List.map_id _)
      exact toLower_of_isDigit (hdigits.isDigits c hc)
    have hread := hdigits.readNat?
    rw [hkept] at hread
    rw [List.map_append, hlower, hkept, Scanner.readNumber?_digits hdigits.isDigits, hread,
      hinteger]
  | @based mark base digits _ hmark hdigits =>
    have hread := hdigits.readNat?
    rw [← hinteger, ← hread]
    simp only [baseMarks, List.mem_cons, Prod.mk.injEq, List.not_mem_nil, or_false] at hmark
    rcases hmark with ⟨rfl, rfl⟩ | ⟨rfl, rfl⟩ | ⟨rfl, rfl⟩ | ⟨rfl, rfl⟩ | ⟨rfl, rfl⟩ | ⟨rfl, rfl⟩
      <;> rfl

end Numeral

/-! ## Numerals in a text -/

namespace Scanner

/-- At the start of a text a digit begins a number. -/
theorem step_start_digit {c : Char} (hc : c.isDigit = true) :
    start.step c = .ok { start with mode := .number ⟨1, 1⟩ [c], next := ⟨1, 2⟩ } := by
  have hne {x : Char} (hx : x.isDigit = false) : c ≠ x := by
    rintro rfl
    rw [hc] at hx
    cases hx
  have hskip : ¬ (c = '\x0c' ∨ c = '\r') := by
    rintro (rfl | rfl) <;> exact absurd hc (by decide)
  have hindent : start.indentTo 0 = .ok { start with mode := .between } :=
    indentTo_zero start nofun
  have hreact : start.react c = .ok { start with mode := .number ⟨1, 1⟩ [c] } := by
    unfold react
    dsimp only [start]
    rw [if_neg (hne (by decide)), if_neg (hne (by decide)), if_neg hskip,
      if_neg (hne (by decide)), if_neg (hne (by decide))]
    change (start.indentTo 0).bind _ = _
    rw [hindent]
    exact begin_digit hc _
  rw [step_of_react hreact, Position.after, if_neg (hne (by decide))]
  rfl

variable {written : List Char} {n : Nat}

/-- A numeral is under way behind its last character, without its underscores. -/
theorem run_numeral (h : Writes written n) :
    start.run written = .ok { start with
      mode := .number ⟨1, 1⟩ (written.filter (· ≠ '_')).reverse,
      next := ⟨1, written.length + 1⟩ } := by
  obtain ⟨hfirst, hnumeral⟩ := h
  obtain ⟨hdigit, hchars⟩ := hnumeral.chars
  cases written with
  | nil => exact absurd rfl hnumeral.ne_nil
  | cons c cs =>
    have hc : c ≠ '_' := by
      rintro rfl
      exact hfirst rfl
    have hkept : (c :: cs).filter (· ≠ '_') = c :: cs.filter (· ≠ '_') := by
      rw [List.filter_cons, if_pos (decide_eq_true hc)]
    rw [hkept] at hdigit hchars ⊢
    have hrest : ∀ x ∈ cs, x.isAlphanum = true ∨ x = '_' := by
      intro x hx
      by_cases hunderscore : x = '_'
      · exact Or.inr hunderscore
      · have hmem : x ∈ cs.filter (· ≠ '_') :=
          List.mem_filter.mpr ⟨hx, decide_eq_true hunderscore⟩
        exact Or.inl (hchars x (List.mem_cons_of_mem _ hmem))
    rw [run_cons (step_start_digit (hdigit c rfl)), run_number_rest rfl hrest]
    have hcolumn : 2 + cs.length = cs.length + 1 + 1 := Nat.add_comm 2 _
    simp [hcolumn]

/-- A number under way is ended by a line break, or refused there. -/
theorem step_number_newline {s : Scanner} {position : Position} {reversed : List Char}
    (hmode : s.mode = .number position reversed) (hbrackets : s.brackets = 0) :
    s.step '\n' = match readNumber? (reversed.reverse.map Char.toLower) with
      | some lexeme => .ok { s with
          mode := .margin 0, next := ⟨s.next.line + 1, 1⟩,
          emitted := ⟨.newline, s.next⟩ :: ⟨lexeme, position⟩ :: s.emitted }
      | none => .error ⟨position, .invalidNumber (.ofList reversed.reverse)⟩ := by
  have hstops : continuesNumber reversed '\n' = false := rfl
  have hreact : s.react '\n' = s.settle.bind (·.begin '\n') := by
    unfold react
    rw [hmode]
    dsimp only
    rw [hstops, if_neg Bool.false_ne_true]
    rfl
  unfold step
  rw [hreact, settle, hmode]
  dsimp only
  cases readNumber? (reversed.reverse.map Char.toLower) with
  | none => rfl
  | some lexeme =>
    have hopen : (s.emit position lexeme).brackets = 0 := hbrackets
    change (begin (s.emit position lexeme) '\n').map _ = _
    unfold begin
    rw [if_neg (by decide), if_neg (by decide), if_pos rfl, if_pos hopen]
    rfl

end Scanner

/-- Each way to write a number on a line of its own gives the number, if it fits in 63 bits, and is
refused where it begins otherwise. -/
theorem tokenize_numeral {written : List Char} {n : Nat} (h : Writes written n) :
    tokenize (.ofList (written ++ ['\n'])) =
      if n < 2 ^ 63 then
        .ok [⟨.int n, ⟨1, 1⟩⟩, ⟨.newline, ⟨1, written.length + 1⟩⟩, ⟨.finish, ⟨2, 1⟩⟩]
      else .error ⟨⟨1, 1⟩, .invalidNumber (.ofList (written.filter (· ≠ '_')))⟩ := by
  unfold tokenize
  rw [String.toList_ofList, Scanner.run_append_ok (Scanner.run_numeral h), Scanner.run]
  rw [Scanner.step_number_newline rfl rfl, List.reverse_reverse, h.numeral.readNumber?]
  have hlimit : n ≤ Decimal.maxInt64.toNat ↔ n < 2 ^ 63 := by
    change n ≤ 0x7FFFFFFFFFFFFFFF ↔ n < 2 ^ 63
    omega
  by_cases hn : n < 2 ^ 63
  · rw [if_pos (hlimit.mpr hn), if_pos hn]
    rfl
  · rw [if_neg (hlimit.not.mpr hn), if_neg hn]
    rfl

theorem tokenize_numeral_interrupted :
    Writes ['0', '_', 'X', '1', '_', 'e', '_'] 30 ∧
    tokenize (.ofList (['0', '_', 'X', '1', '_', 'e', '_'] ++ ['\n'])) =
      .ok [⟨.int 30, ⟨1, 1⟩⟩, ⟨.newline, ⟨1, 8⟩⟩, ⟨.finish, ⟨2, 1⟩⟩] ∧
    Writes (['0', 'x', '_', '8'] ++ List.replicate 15 '0') (2 ^ 63) ∧
    tokenize (.ofList (['0', 'x', '_', '8'] ++ List.replicate 15 '0' ++ ['\n'])) =
      .error ⟨⟨1, 1⟩, .invalidNumber (.ofList (['0', 'x', '8'] ++ List.replicate 15 '0'))⟩ := by
  have hsmall : Writes ['0', '_', 'X', '1', '_', 'e', '_'] 30 := by
    have hdigits : SpellsNat 16 (['1'] ++ ['e']) (1 * 16 + 14) :=
      .more (.one ⟨by decide, by decide⟩) ⟨by decide, by decide⟩
    exact ⟨by decide, .based (by decide) hdigits⟩
  have hzeros (k : Nat) : SpellsNat 16 ('8' :: List.replicate k '0') (8 * 16 ^ k) := by
    induction k with
    | zero => exact .one ⟨by decide, by decide⟩
    | succ k ih =>
      have hmore := SpellsNat.more ih (c := '0') (d := 0) ⟨by decide, by decide⟩
      rw [Nat.add_zero, Nat.mul_assoc, ← Nat.pow_succ] at hmore
      rw [List.replicate_succ', ← List.cons_append]
      exact hmore
  have hlarge : Writes (['0', 'x', '_', '8'] ++ List.replicate 15 '0') (2 ^ 63) :=
    ⟨by decide, .based (by decide) (hzeros 15)⟩
  have hread := tokenize_numeral hsmall
  rw [if_pos (by decide)] at hread
  have hrefused := tokenize_numeral hlarge
  have hkept : (['0', 'x', '_', '8'] ++ List.replicate 15 '0').filter (· ≠ '_') =
      ['0', 'x', '8'] ++ List.replicate 15 '0' := rfl
  rw [if_neg (by decide), hkept] at hrefused
  exact ⟨hsmall, hread, hlarge, hrefused⟩

end Monorepo.Script
