import Monorepo.Proofs.Relocation

/-!
# The scanner on later lines

A scanner that has left tokens behind, and stands some lines further down, reads a text like a
scanner that has not, as long as the last token that it left is no literal: the tokens of the text
are the same, on later lines, behind those left before. That is what reading a text in the middle of
another one comes to.
-/

namespace Monorepo.Script

/-! ## Later lines -/

/-- The place `k` lines further down. -/
def Position.lowered (k : Nat) (p : Position) : Position := ⟨p.line + k, p.column⟩

/-- A token `k` lines further down. -/
def Token.lowered (k : Nat) (t : Token) : Token := ⟨t.lexeme, t.position.lowered k⟩

/-- A literal `k` lines further down. -/
def Literal.lowered (k : Nat) (l : Literal) : Literal := ⟨l.start.lowered k, l.raw, l.quote⟩

/-- What is begun, `k` lines further down. -/
def Mode.lowered (k : Nat) : Mode → Mode
  | .margin width => .margin width
  | .marginComment => .marginComment
  | .between => .between
  | .comment => .comment
  | .pending start first => .pending (start.lowered k) first
  | .name start reversed => .name (start.lowered k) reversed
  | .number start reversed => .number (start.lowered k) reversed
  | .opened l => .opened (l.lowered k)
  | .openedTwice l => .openedTwice (l.lowered k)
  | .short l reversed => .short (l.lowered k) reversed
  | .shortEscape l reversed => .shortEscape (l.lowered k) reversed
  | .long l closing reversed => .long (l.lowered k) closing reversed
  | .longEscape l reversed => .longEscape (l.lowered k) reversed

theorem Position.after_lowered (k : Nat) (p : Position) (c : Char) :
    (p.lowered k).after c = (p.after c).lowered k := by
  unfold after
  split
  · exact congrArg (Position.mk · 1) (Nat.add_right_comm _ _ _)
  · rfl

theorem Mode.lowered_eq (k : Nat) (m : Mode) :
    m.lowered k = m.relocated (Position.lowered k) := by
  cases m <;> rfl

/-- A text can begin on any later line. -/
theorem carries_lowered (k : Nat) (p : Position) (cs : List Char) :
    Carries (Position.lowered k) p cs := by
  induction cs generalizing p with
  | nil => trivial
  | cons c cs ih => exact ⟨rfl, (p.after_lowered k c).symm, ih (p.after c)⟩

namespace Scanner

/-- A scanner `k` lines further down that has left the tokens of `base`, the last one first. -/
def moved (k : Nat) (base : List Token) (s : Scanner) : Scanner :=
  ⟨s.mode.lowered k, s.next.lowered k, s.widths, s.brackets,
    s.emitted.map (Token.lowered k) ++ base⟩

/-- Steps that lead to a scanner and to the same one further down, or that both fail. -/
inductive Moves (k : Nat) (base : List Token) :
    (step step' : Except SyntaxError Scanner) → Prop
  | ok (s : Scanner) : Moves k base (.ok s) (.ok (s.moved k base))
  | error (e e' : SyntaxError) : Moves k base (.error e) (.error e')

variable {k : Nat} {base : List Token}

theorem moved_eq (k : Nat) (base : List Token) (s : Scanner) :
    s.moved k base = s.relocated (Position.lowered k) base := by
  unfold moved
  rw [Mode.lowered_eq]
  rfl

theorem Moves.of_relocates {step step' : Except SyntaxError Scanner}
    (h : Relocates (Position.lowered k) base step step') : Moves k base step step' := by
  cases h with
  | ok s =>
    rw [← moved_eq]
    exact .ok s
  | error e => exact .error e _

theorem moves_settle (hbase : Closes base) (s : Scanner) :
    Moves k base s.settle (s.moved k base).settle := by
  rw [moved_eq]
  exact .of_relocates (relocates_settle hbase s)

theorem moves_begin (s : Scanner) (c : Char) :
    Moves k base (s.begin c) ((s.moved k base).begin c) := by
  rw [moved_eq]
  exact .of_relocates (relocates_begin s c)

theorem moves_step (hbase : Closes base) (s : Scanner) (c : Char) :
    Moves k base (s.step c) ((s.moved k base).step c) := by
  rw [moved_eq]
  exact .of_relocates (relocates_step hbase rfl (s.next.after_lowered k c).symm)

theorem moves_run (hbase : Closes base) (s : Scanner) (cs : List Char) :
    Moves k base (s.run cs) ((s.moved k base).run cs) := by
  rw [moved_eq]
  exact .of_relocates (relocates_run hbase (carries_lowered k s.next cs))

end Scanner

end Monorepo.Script
