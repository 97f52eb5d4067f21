import Mathlib.Data.List.TakeWhile
import Monorepo.Proofs.Sorting
import Monorepo.Script.Token.Scanner

/-!
# What a scanner does

A run of the scanner over two texts in a row is one run after the other. The margin of a line leaves
one indent or as many dedents as it closes blocks, and the end of a text leaves the end of its last
line, the dedents of all open blocks and the end of the input.
-/

namespace Monorepo.Script

theorem Position.line_foldl_after (p : Position) (cs : List Char) :
    (cs.foldl Position.after p).line = p.line + cs.count '\n' := by
  induction cs generalizing p with
  | nil => rfl
  | cons c cs ih =>
    rw [List.foldl_cons, ih, List.count_cons, after]
    split
    · rename_i hbreak
      rw [if_pos (beq_iff_eq.mpr hbreak)]
      exact Nat.add_right_comm _ _ _
    · rename_i hbreak
      rw [if_neg fun heq => hbreak (beq_iff_eq.mp heq)]
      rfl

namespace Scanner

variable {s t : Scanner}

/-! ## Runs -/

theorem run_append (s : Scanner) (cs ds : List Char) :
    s.run (cs ++ ds) = (s.run cs).bind (·.run ds) := by
  induction cs generalizing s with
  | nil => rfl
  | cons c cs ih =>
    change (s.step c).bind (·.run (cs ++ ds)) = ((s.step c).bind (·.run cs)).bind (·.run ds)
    cases s.step c with
    | error e => rfl
    | ok s' => exact ih s'

theorem run_append_ok {cs : List Char} (h : s.run cs = .ok t) (ds : List Char) :
    s.run (cs ++ ds) = t.run ds := by
  rw [run_append, h]
  rfl

theorem run_cons {c : Char} (h : s.step c = .ok t) (cs : List Char) :
    s.run (c :: cs) = t.run cs := by
  change (s.step c).bind _ = _
  rw [h]
  rfl

theorem step_of_react {c : Char} (h : s.react c = .ok t) :
    s.step c = .ok { t with next := s.next.after c } := by
  unfold step
  rw [h]
  rfl

theorem next_of_step {c : Char} (h : s.step c = .ok t) : t.next = s.next.after c := by
  obtain ⟨after, -, rfl⟩ := ok_of_map h
  rfl

theorem next_of_run {cs : List Char} (h : s.run cs = .ok t) :
    t.next = cs.foldl Position.after s.next := by
  induction cs generalizing s with
  | nil =>
    cases h
    rfl
  | cons c cs ih =>
    obtain ⟨mid, hstep, hrun⟩ := ok_of_bind h
    rw [List.foldl_cons, ← next_of_step hstep]
    exact ih hrun

/-! ## Margins -/

/-- Tokens of one kind at one place, one after another. -/
theorem foldl_emit {α : Type} {p : Scanner → Position} {place next : Position}
    (hplace : ∀ t : Scanner, t.next = next → p t = place) (lexeme : Lexeme) (items : List α)
    (s : Scanner) (hnext : s.next = next) :
    ∃ mode, items.foldl (fun s _ => s.emit (p s) lexeme) s = { s with
      mode := mode, emitted := List.replicate items.length ⟨lexeme, place⟩ ++ s.emitted } := by
  induction items generalizing s with
  | nil => exact ⟨s.mode, rfl⟩
  | cons item items ih =>
    obtain ⟨mode, hfold⟩ := ih (s.emit (p s) lexeme) hnext
    refine ⟨mode, hfold.trans ?_⟩
    have hemitted : (s.emit (p s) lexeme).emitted = ⟨lexeme, place⟩ :: s.emitted := by
      rw [← hplace s hnext]
      rfl
    rw [hemitted, List.length_cons, List.replicate_succ', List.append_assoc]
    rfl

theorem indentTo_of_lt {width : Nat} (h : s.widths.headD 0 < width) :
    s.indentTo width = .ok { s with
      mode := .between, widths := width :: s.widths,
      emitted := ⟨.indent, ⟨s.next.line, 1⟩⟩ :: s.emitted } :=
  if_pos h

/-- A margin that opens no block closes those further to the right, and one has to begin there. -/
theorem indentTo_of_le {width : Nat} (h : ¬ s.widths.headD 0 < width) :
    s.indentTo width =
      if (s.widths.dropWhile (· > width)).headD 0 = width then .ok { s with
        mode := .between, widths := s.widths.dropWhile (· > width),
        emitted := List.replicate (s.widths.takeWhile (· > width)).length
          ⟨.dedent, ⟨s.next.line, 1⟩⟩ ++ s.emitted }
      else .error ⟨s.next, .unmatchedDedent⟩ := by
  obtain ⟨mode, hfold⟩ := foldl_emit (p := fun _ => ⟨s.next.line, 1⟩) (fun _ _ => rfl) .dedent
    (s.widths.takeWhile (· > width)) s rfl
  refine (if_neg h).trans ?_
  rw [hfold]

/-! ## The end of a text -/

/-- The tokens so far and the ends of the open blocks, the last one first. -/
def closedAt (s : Scanner) (place : Position) : List Token :=
  List.replicate s.widths.length ⟨.dedent, place⟩ ++ s.emitted

/-- A last line without a line break is ended. -/
def endLine (s : Scanner) : Scanner :=
  match s.emitted with
  | [] => s
  | ⟨.newline, _⟩ :: _ => s
  | _ => s.emit s.next .newline

/-- The tokens of a text up to the end of the input, the last one first. -/
def ended (s : Scanner) : List Token := s.endLine.closedAt s.next

/-- The tokens of the text that a scanner has read which has nothing begun. -/
def tokens (s : Scanner) : List Token := s.ended.reverse ++ [⟨.finish, s.next⟩]

/-- A line without a margin closes all open blocks. -/
theorem indentTo_zero (s : Scanner) (hpositive : ∀ width ∈ s.widths, 0 < width) :
    s.indentTo 0 = .ok { s with
      mode := .between, widths := [], emitted := s.closedAt ⟨s.next.line, 1⟩ } := by
  have htake : s.widths.takeWhile (· > 0) = s.widths :=
    List.takeWhile_eq_self_iff.mpr fun width hwidth => decide_eq_true (hpositive width hwidth)
  have hdrop : s.widths.dropWhile (· > 0) = [] :=
    List.dropWhile_eq_nil_iff.mpr fun width hwidth => decide_eq_true (hpositive width hwidth)
  rw [indentTo_of_le (Nat.not_lt_zero _), htake, hdrop]
  exact if_pos rfl

@[simp] theorem endLine_widths (s : Scanner) : s.endLine.widths = s.widths := by
  unfold endLine
  split <;> rfl

@[simp] theorem endLine_next (s : Scanner) : s.endLine.next = s.next := by
  unfold endLine
  split <;> rfl

theorem endLine_emitted (s : Scanner) : ∃ extra, s.endLine.emitted = extra ++ s.emitted ∧
    (extra = [] ∨ extra = [⟨.newline, s.next⟩]) := by
  unfold endLine
  split
  · exact ⟨[], rfl, Or.inl rfl⟩
  · exact ⟨[], rfl, Or.inl rfl⟩
  · exact ⟨[⟨.newline, s.next⟩], rfl, Or.inr rfl⟩

/-- Behind the end of a line no line has to be ended. -/
theorem endLine_of_newline (h : ∀ t ∈ s.emitted.head?, t.lexeme = .newline) : s.endLine = s := by
  unfold endLine
  split
  · rfl
  · rfl
  · rename_i hnil hnewline
    cases hemitted : s.emitted with
    | nil => exact absurd hemitted hnil
    | cons token tokens =>
      obtain ⟨lexeme, place⟩ := token
      rw [hemitted] at h
      obtain rfl : lexeme = .newline := h _ rfl
      exact absurd hemitted (hnewline place tokens)

theorem close_of_settle (h : s.settle = .ok t) : s.close = .ok t.tokens := by
  obtain ⟨closed, hfold⟩ := foldl_emit (p := Scanner.next) (fun _ hnext => hnext) .dedent t.widths
    t.endLine (endLine_next t)
  unfold close
  rw [h]
  change Except.ok ((t.widths.foldl _ t.endLine).emit t.next .finish).emitted.reverse = _
  rw [hfold, tokens, ended, closedAt, endLine_widths]
  exact congrArg Except.ok List.reverse_cons

theorem settle_of_close {tokens : List Token} (h : s.close = .ok tokens) :
    ∃ t, s.settle = .ok t ∧ tokens = t.tokens := by
  obtain ⟨t, hsettle, -⟩ := ok_of_map h
  rw [close_of_settle hsettle] at h
  exact ⟨t, hsettle, (Except.ok.inj h).symm⟩

end Scanner

end Monorepo.Script
