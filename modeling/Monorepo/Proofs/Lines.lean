import Mathlib.Data.List.Forall2
import Monorepo.Proofs.Scanning
import Monorepo.Proofs.Words

/-!
# Lines of words

A line is a margin of blanks, a word, and further words and marks with blanks between them. The
layout of several lines follows from their margins alone: a line further to the right than the
innermost open block opens one, and another line closes the blocks further to the right than it,
and has to begin where one of those that stay open does. The scanner leaves the tokens of the lines
and of this layout, each on its line.
-/

namespace Monorepo.Script

/-! ## Words and lines -/

/-- Whether a character may begin a name. -/
def isWordStart (c : Char) : Bool := Text.isLetter c || c == '_'

/-- Whether characters make up a name, or a keyword. -/
def isSpelled : List Char → Bool
  | [] => false
  | c :: cs => isWordStart c && cs.all isWordChar

/-- A name or a keyword. -/
structure Word where
  /-- Its text. -/
  text : String
  /-- It has the form of a name. -/
  spelled : isSpelled text.toList = true

/-- A part of a line. -/
inductive Piece
  /-- A name or a keyword. -/
  | word (w : Word)
  | comma | colon | assign | leftParen | rightParen

namespace Piece

/-- The token of a part. -/
def lexeme : Piece → Lexeme
  | .word w => .name w.text
  | .comma => .mark .comma
  | .colon => .mark .colon
  | .assign => .mark .assign
  | .leftParen => .mark .leftParen
  | .rightParen => .mark .rightParen

/-- The characters of a part. -/
def chars : Piece → List Char
  | .word w => w.text.toList
  | .comma => [',']
  | .colon => [':']
  | .assign => ['=']
  | .leftParen => ['(']
  | .rightParen => [')']

/-- How many brackets are open behind a part. -/
def brackets (n : Nat) : Piece → Nat
  | .leftParen => n + 1
  | .rightParen => n - 1
  | _ => n

/-- Whether two parts would be one without blanks between them. -/
def merges : Piece → Piece → Bool
  | .word _, .word _ => true
  | .assign, .assign => true
  | _, _ => false

/-- Whether a part ends in front of a character. -/
def EndsAt : Piece → Char → Prop
  | .word _, c => isWordChar c = false ∧ c ≠ '"' ∧ c ≠ '\''
  | .assign, c => c ≠ '='
  | _, _ => True

theorem endsAt_blank (p : Piece) {c : Char} (h : c = ' ' ∨ c = '\n') : p.EndsAt c := by
  cases p with
  | word w => rcases h with rfl | rfl <;> exact ⟨by decide, by decide, by decide⟩
  | assign =>
    change c ≠ '='
    rcases h with rfl | rfl <;> decide
  | _ => exact trivial

end Piece

/-- How many blanks stand between two parts of a line. -/
structure Spacing where
  /-- The number of blanks. -/
  blanks : Piece → Piece → Nat
  /-- Parts that would be one are kept apart. -/
  apart : ∀ p q, p.merges q = true → 0 < blanks p q

/-- A line that is not empty. -/
structure Line where
  /-- The number of blanks in front. -/
  margin : Nat
  /-- The first word. -/
  first : Word
  /-- The parts behind the first word. -/
  rest : List Piece

/-- The parts of a line. -/
def Line.pieces (l : Line) : List Piece := .word l.first :: l.rest

/-- A line that closes the brackets it opens. -/
def Line.Closed (l : Line) : Prop := l.pieces.foldl Piece.brackets 0 = 0

namespace Spacing

variable (spacing : Spacing)

/-- The characters behind a part of a line. -/
def charsBehind (before : Piece) : List Piece → List Char
  | [] => []
  | p :: ps => List.replicate (spacing.blanks before p) ' ' ++ p.chars ++ charsBehind p ps

/-- The characters of a line. -/
def chars (l : Line) : List Char :=
  List.replicate l.margin ' ' ++
    ((Piece.word l.first).chars ++ spacing.charsBehind (.word l.first) l.rest)

/-- The text of lines, the last one with or without a line break. -/
def text (ended : Bool) : List Line → List Char
  | [] => []
  | [l] => spacing.chars l ++ if ended then ['\n'] else []
  | l :: ls => spacing.chars l ++ '\n' :: text ended ls

theorem text_cons {ended : Bool} {lines : List Line} (h : ended = true ∨ lines ≠ []) (l : Line) :
    spacing.text ended (l :: lines) = spacing.chars l ++ '\n' :: spacing.text ended lines := by
  cases lines with
  | cons l' lines => rfl
  | nil =>
    obtain rfl := h.resolve_right fun hne => hne rfl
    rfl

end Spacing

/-! ## Layout -/

/-- A token, and its line where that matters. -/
abbrev Placed := Lexeme × Option Nat

/-- A token that is as it should be. -/
def Token.Stands (t : Token) (p : Placed) : Prop :=
  t.lexeme = p.1 ∧ ∀ line ∈ p.2, t.position.line = line

/-- What a margin does to the widths of the open blocks, if it is one at which a line may begin. -/
def openTo (widths : List Nat) (margin : Nat) : Option (List Lexeme × List Nat) :=
  if margin > widths.headD 0 then some ([.indent], margin :: widths)
  else
    let left := widths.dropWhile (· > margin)
    if left.headD 0 = margin then
      some (List.replicate (widths.takeWhile (· > margin)).length .dedent, left)
    else none

/-- The tokens of the parts of a line. -/
def placedOn (line : Nat) (pieces : List Piece) : List Placed :=
  pieces.map fun p => (p.lexeme, some line)

/-- The tokens of the lines from one on, with the tokens of their layout. -/
def layout : List Nat → Nat → List Line → Option (List Placed)
  | widths, _, [] => some (List.replicate widths.length (.dedent, none))
  | widths, line, l :: ls => do
    let (marks, widths) ← openTo widths l.margin
    let rest ← layout widths (line + 1) ls
    return marks.map (·, none) ++ placedOn line l.pieces ++ (.newline, some line) :: rest

/-! ## Characters -/

/-- What holds of the digits among the first characters holds of all digits. -/
theorem forall_isDigit {P : Char → Prop}
    (h : ∀ n < 58, (Char.ofNat n).isDigit = true → P (Char.ofNat n)) {c : Char}
    (hc : c.isDigit = true) : P c := by
  have hlt : c.toNat < 58 := by
    simp only [Char.isDigit, Bool.and_eq_true, decide_eq_true_eq] at hc
    have hle : c.val ≤ 57 := hc.2
    exact Nat.lt_of_le_of_lt (UInt32.le_iff_toNat_le.mp hle) (by decide)
  rw [← Char.ofNat_toNat c] at hc ⊢
  exact h c.toNat hlt hc

theorem isWordStart_of_isDigit {c : Char} (h : c.isDigit = true) : isWordStart c = false :=
  forall_isDigit (P := fun c => isWordStart c = false) (by decide) h

theorem mayPair_of_isWordStart {c : Char} (h : isWordStart c = true) :
    Scanner.mayPair c = false := by
  have hall : (['*', '/', '=', '!', '<', '>', '+', '-', '.', '\\'].all
      fun x => !isWordStart x) = true := by decide
  refine Bool.eq_false_iff.mpr fun hmem => ?_
  have hnot := List.all_eq_true.mp hall c (List.contains_iff_mem.mp hmem)
  rw [h] at hnot
  cases hnot

theorem oneMark_of_isWordStart {c : Char} (h : isWordStart c = true) :
    Scanner.oneMark c = none := by
  unfold Scanner.oneMark
  split
  case h_19 => rfl
  all_goals exact absurd h (by decide)

namespace Scanner

variable {s t u : Scanner}

theorem begin_word {c : Char} (h : isWordStart c = true) (s : Scanner) :
    s.begin c = .ok { s with mode := .name s.next [c] } := by
  have hne {x : Char} (hx : isWordStart x = false) : c ≠ x := by
    rintro rfl
    rw [h] at hx
    cases hx
  have hdigit : ¬ c.isDigit = true := fun hc => by
    rw [isWordStart_of_isDigit hc] at h
    cases h
  have hblank : ¬ (c = ' ' ∨ c = '\t' ∨ c = '\r' ∨ c = '\x0c') := by
    rintro (rfl | rfl | rfl | rfl) <;> exact absurd h (by decide)
  have hquote : ¬ (c = '"' ∨ c = '\'') := by
    rintro (rfl | rfl) <;> exact absurd h (by decide)
  unfold begin
  rw [if_neg hblank, if_neg (hne (by decide)), if_neg (hne (by decide)), if_neg hquote,
    if_neg hdigit, mayPair_of_isWordStart h, oneMark_of_isWordStart h]
  exact if_pos h

/-! ## Parts of a line -/

/-- Begins something with a character and moves behind it. -/
def stepAnew (s : Scanner) (c : Char) : Except SyntaxError Scanner :=
  (s.begin c).map fun s' => { s' with next := s.next.after c }

/-- The scanner has read the last character of a part, whose token is the last one of `t`. -/
structure ReadUp (s : Scanner) (p : Piece) (t : Scanner) : Prop where
  settle : s.settle = .ok t
  step : ∀ c, p.EndsAt c → s.step c = t.stepAnew c
  top : ∃ position tokens, t.emitted = ⟨p.lexeme, position⟩ :: tokens

/-- From `s` to `t` the scanner has read parts of a line. -/
structure OnLine (s t : Scanner) (pieces : List Piece) : Prop where
  emitted : ∃ added, t.emitted = added.reverse ++ s.emitted ∧
    List.Forall₂ Token.Stands added (placedOn s.next.line pieces)
  widths : t.widths = s.widths
  brackets : t.brackets = pieces.foldl Piece.brackets s.brackets
  line : t.next.line = s.next.line

namespace OnLine

variable {pieces more : List Piece}

/-- Blanks leave no token. -/
theorem blank (hemitted : t.emitted = s.emitted) (hwidths : t.widths = s.widths)
    (hbrackets : t.brackets = s.brackets) (hline : t.next.line = s.next.line) :
    OnLine s t [] :=
  ⟨⟨[], hemitted, .nil⟩, hwidths, hbrackets, hline⟩

theorem single {p : Piece} (position : Position) (hposition : position.line = s.next.line)
    (hemitted : t.emitted = ⟨p.lexeme, position⟩ :: s.emitted) (hwidths : t.widths = s.widths)
    (hbrackets : t.brackets = p.brackets s.brackets) (hline : t.next.line = s.next.line) :
    OnLine s t [p] := by
  refine ⟨⟨[⟨p.lexeme, position⟩], hemitted, .cons ⟨rfl, ?_⟩ .nil⟩, hwidths, hbrackets, hline⟩
  rintro _ ⟨⟩
  exact hposition

theorem trans (h : OnLine s t pieces) (h' : OnLine t u more) : OnLine s u (pieces ++ more) := by
  obtain ⟨added, hadded, hstands⟩ := h.emitted
  obtain ⟨added', hadded', hstands'⟩ := h'.emitted
  refine ⟨⟨added ++ added', ?_, ?_⟩, h'.widths.trans h.widths, ?_, h'.line.trans h.line⟩
  · rw [hadded', hadded, List.reverse_append, List.append_assoc]
  · rw [h.line] at hstands'
    rw [placedOn, List.map_append]
    exact List.rel_append hstands hstands'
  · rw [h'.brackets, h.brackets, List.foldl_append]

end OnLine

theorem line_after {c : Char} (h : c ≠ '\n') (p : Position) : (p.after c).line = p.line := by
  unfold Position.after
  rw [if_neg h]

theorem ne_newline_of_isWordChar {c : Char} (h : isWordChar c = true) : c ≠ '\n' := by
  rintro rfl
  exact absurd h (by decide)

/-- The scanner goes on with a name. -/
theorem run_name {position : Position} {reversed cs : List Char}
    (hmode : s.mode = .name position reversed) (hcs : cs.all isWordChar = true) :
    ∃ next : Position, next.line = s.next.line ∧
      s.run cs = .ok { s with mode := .name position (cs.reverse ++ reversed), next := next } := by
  induction cs generalizing s reversed with
  | nil => exact ⟨s.next, rfl, by rw [List.reverse_nil, List.nil_append, ← hmode]; rfl⟩
  | cons c cs ih =>
    rw [List.all_cons, Bool.and_eq_true] at hcs
    obtain ⟨hc, hcs⟩ := hcs
    have hreact : s.react c = .ok { s with mode := .name position (c :: reversed) } := by
      unfold react
      rw [hmode]
      exact if_pos hc
    obtain ⟨next, hline, hrun⟩ := ih (s := { s with
      mode := .name position (c :: reversed), next := s.next.after c }) rfl hcs
    refine ⟨next, hline.trans (line_after (ne_newline_of_isWordChar hc) _), ?_⟩
    rw [run_cons (step_of_react hreact), List.reverse_cons, List.append_assoc]
    exact hrun

/-- A name under way ends in front of what is in no name. -/
theorem readUp_name (w : Word) {position : Position} {reversed : List Char}
    (hmode : s.mode = .name position reversed) (hw : reversed.reverse = w.text.toList) :
    ReadUp s (.word w) (s.emit position (.name w.text)) := by
  have hsettle : s.settle = .ok (s.emit position (.name w.text)) := by
    unfold settle
    rw [hmode]
    dsimp only
    rw [hw, String.ofList_toList]
  refine ⟨hsettle, fun c hc => ?_, ⟨position, s.emitted, rfl⟩⟩
  obtain ⟨hword, hdouble, hsingle⟩ := hc
  have hquote : ¬ ((c = '"' ∨ c = '\'') ∧ isLiteralMark reversed = true) :=
    fun h => h.1.elim hdouble hsingle
  have hreact : s.react c = s.restart c := by
    unfold react
    rw [hmode]
    change (if isWordChar c = true then _ else _) = _
    rw [hword, if_neg Bool.false_ne_true, if_neg hquote]
  unfold step
  rw [hreact, restart, hsettle]
  rfl

/-- An equality sign under way ends in front of anything but another one. -/
theorem readUp_assign {position : Position} (hmode : s.mode = .pending position '=') :
    ReadUp s .assign (s.emitMark position .assign) := by
  have hsettle : s.settle = .ok (s.emitMark position .assign) := by
    unfold settle
    rw [hmode]
    rfl
  refine ⟨hsettle, fun c hc => ?_, ⟨position, s.emitted, rfl⟩⟩
  have htwo : twoMark '=' c = none := by
    unfold twoMark
    split
    case h_3 => exact absurd rfl hc
    case h_9 => rfl
    all_goals simp_all
  have hreact : s.react c = s.restart c := by
    unfold react
    rw [hmode]
    dsimp only
    rw [if_neg (by simp), if_neg (by simp), htwo]
  unfold step
  rw [hreact, restart, hsettle]
  rfl

/-- Between two tokens nothing is under way. -/
theorem readUp_between {p : Piece} (hmode : s.mode = .between)
    (htop : ∃ position tokens, s.emitted = ⟨p.lexeme, position⟩ :: tokens) : ReadUp s p s := by
  refine ⟨?_, fun c _ => ?_, htop⟩
  · unfold settle
    rw [hmode]
  · unfold step react
    rw [hmode]
    rfl

/-- A part is read where its first character is one between two tokens. -/
theorem run_piece (p : Piece) (hstep : ∀ c ∈ p.chars.head?, s.step c = t.stepAnew c) :
    ∃ s' t', s.run p.chars = .ok s' ∧ ReadUp s' p t' ∧ OnLine t t' [p] := by
  have hmark {c : Char} {m : Mark} (hc : c ≠ '\n') (hchars : p.chars = [c])
      (hp : p.lexeme = .mark m) (hbegin : t.begin c = .ok (t.emitMark t.next m))
      (hbrackets : (t.emitMark t.next m).brackets = p.brackets t.brackets) :
      ∃ s' t', s.run p.chars = .ok s' ∧ ReadUp s' p t' ∧ OnLine t t' [p] := by
    have hfirst : s.step c = .ok { t.emitMark t.next m with next := t.next.after c } := by
      rw [hstep c (by rw [hchars]; rfl), stepAnew, hbegin]
      rfl
    have hemitted : (t.emitMark t.next m).emitted = ⟨p.lexeme, t.next⟩ :: t.emitted := by
      rw [hp]
      rfl
    refine ⟨_, _, ?_, readUp_between (s := { t.emitMark t.next m with next := t.next.after c }) rfl
      ⟨t.next, t.emitted, hemitted⟩, .single t.next rfl hemitted rfl hbrackets
        (line_after hc t.next)⟩
    rw [hchars]
    exact run_cons hfirst []
  cases p with
  | comma => exact hmark (by decide) rfl rfl rfl rfl
  | colon => exact hmark (by decide) rfl rfl rfl rfl
  | leftParen => exact hmark (by decide) rfl rfl rfl rfl
  | rightParen => exact hmark (by decide) rfl rfl rfl rfl
  | assign =>
    have hfirst : s.step '=' =
        .ok { t with mode := .pending t.next '=', next := t.next.after '=' } := hstep '=' rfl
    exact ⟨_, _, run_cons hfirst [], readUp_assign rfl,
      .single t.next rfl rfl rfl rfl (line_after (by decide) t.next)⟩
  | word w =>
    have hspelled := w.spelled
    change ∀ c ∈ w.text.toList.head?, s.step c = t.stepAnew c at hstep
    change ∃ s' t', s.run w.text.toList = _ ∧ _
    cases hw : w.text.toList with
    | nil =>
      rw [hw] at hspelled
      cases hspelled
    | cons c cs =>
      rw [hw] at hspelled hstep
      obtain ⟨hc, hcs⟩ := Bool.and_eq_true_iff.mp hspelled
      have hfirst : s.step c =
          .ok { t with mode := .name t.next [c], next := t.next.after c } := by
        rw [hstep c rfl, stepAnew, begin_word hc]
        rfl
      obtain ⟨next, hline, hrun⟩ := run_name (s := { t with
        mode := .name t.next [c], next := t.next.after c }) rfl hcs
      have hword : isWordChar c = true := by
        unfold isWordChar
        rcases Bool.or_eq_true_iff.mp hc with h | h <;> simp [h]
      have hreversed : (cs.reverse ++ [c]).reverse = w.text.toList := by
        rw [List.reverse_append, List.reverse_reverse, hw]
        rfl
      refine ⟨_, _, (run_cons hfirst cs).trans hrun, readUp_name w (s := { t with
        mode := .name t.next (cs.reverse ++ [c]), next := next }) rfl hreversed, ?_⟩
      exact .single t.next rfl rfl rfl rfl
        (hline.trans (line_after (ne_newline_of_isWordChar hword) t.next))

/-- Blanks between two tokens are passed over. -/
theorem run_blanks_between (hmode : s.mode = .between) (n : Nat) :
    ∃ s', s.run (List.replicate n ' ') = .ok s' ∧ s'.mode = .between ∧ OnLine s s' [] := by
  induction n generalizing s with
  | zero => exact ⟨s, rfl, hmode, .blank rfl rfl rfl rfl⟩
  | succ n ih =>
    have hreact : s.react ' ' = .ok { s with mode := .between } := by
      unfold react
      rw [hmode]
      rfl
    obtain ⟨s', hrun, hmode', hline⟩ := ih (s := { s with
      mode := .between, next := s.next.after ' ' }) rfl
    have hmoved : OnLine s { s with mode := .between, next := s.next.after ' ' } [] :=
      .blank rfl rfl rfl (line_after (by decide) s.next)
    exact ⟨s', (run_cons (step_of_react hreact) _).trans hrun, hmode', hmoved.trans hline⟩

/-- Behind a part and blanks the scanner is where another part may begin. -/
theorem ReadUp.run_blanks {p : Piece} (h : ReadUp s p t) (n : Nat) :
    ∃ s' t', s.run (List.replicate n ' ') = .ok s' ∧ OnLine t t' [] ∧
      ∀ c, (n = 0 → p.EndsAt c) → s'.step c = t'.stepAnew c := by
  cases n with
  | zero => exact ⟨s, t, rfl, .blank rfl rfl rfl rfl, fun c hc => h.step c (hc rfl)⟩
  | succ n =>
    have hfirst : s.step ' ' = .ok { t with mode := .between, next := t.next.after ' ' } :=
      h.step ' ' (p.endsAt_blank (Or.inl rfl))
    obtain ⟨s', hrun, hmode, hline⟩ := run_blanks_between (s := { t with
      mode := .between, next := t.next.after ' ' }) rfl n
    have hmoved : OnLine t { t with mode := .between, next := t.next.after ' ' } [] :=
      .blank rfl rfl rfl (line_after (by decide) t.next)
    refine ⟨s', s', (run_cons hfirst _).trans hrun, hmoved.trans hline, fun c _ => ?_⟩
    unfold Scanner.step react
    rw [hmode]
    rfl

/-- A part ends where another one begins that would not merge with it. -/
theorem endsAt_of_not_merges {p q : Piece} (h : p.merges q = false) {c : Char}
    (hc : c ∈ q.chars.head?) : p.EndsAt c := by
  cases p with
  | word w =>
    cases q with
    | word w' => cases h
    | _ =>
      cases hc
      exact ⟨by decide, by decide, by decide⟩
  | assign =>
    change c ≠ '='
    cases q with
    | assign => cases h
    | word w' =>
      rintro rfl
      have hspelled := w'.spelled
      obtain ⟨cs, hcs⟩ : ∃ cs, w'.text.toList = '=' :: cs := List.head?_eq_some_iff.mp hc
      rw [hcs] at hspelled
      have hstart : (isWordStart '=' && cs.all isWordChar) = true := hspelled
      exact absurd (Bool.and_eq_true_iff.mp hstart).1 (by decide)
    | _ =>
      cases hc
      decide
  | _ => exact trivial

/-- The parts of a line behind one of them. -/
theorem run_charsBehind (spacing : Spacing) {p : Piece} (h : ReadUp s p t) (pieces : List Piece) :
    ∃ s' p' t', s.run (spacing.charsBehind p pieces) = .ok s' ∧ ReadUp s' p' t' ∧
      OnLine t t' pieces := by
  induction pieces generalizing s t p with
  | nil => exact ⟨s, p, t, rfl, h, .blank rfl rfl rfl rfl⟩
  | cons q pieces ih =>
    obtain ⟨s₁, t₁, hblanks, hgap, hstep⟩ := h.run_blanks (spacing.blanks p q)
    have hfirst : ∀ c ∈ q.chars.head?, s₁.step c = t₁.stepAnew c := by
      refine fun c hc => hstep c fun hzero => endsAt_of_not_merges ?_ hc
      have hapart := spacing.apart p q
      rw [hzero] at hapart
      exact Bool.eq_false_iff.mpr fun hmerges => Nat.lt_irrefl 0 (hapart hmerges)
    obtain ⟨s₂, t₂, hpiece, hread, hline⟩ := run_piece q hfirst
    obtain ⟨s₃, p', t₃, hrest, hread', hline'⟩ := ih hread
    refine ⟨s₃, p', t₃, ?_, hread', (hgap.trans hline).trans hline'⟩
    rw [Spacing.charsBehind, List.append_assoc, run_append_ok hblanks, run_append_ok hpiece]
    exact hrest

/-! ## Margins -/

theorem stands_replicate (n : Nat) (lexeme : Lexeme) (place : Position) :
    List.Forall₂ Token.Stands (List.replicate n ⟨lexeme, place⟩)
      (List.replicate n (lexeme, none)) := by
  induction n with
  | zero => exact .nil
  | succ n ih => exact .cons ⟨rfl, by simp⟩ ih

/-- The margin of a line opens and closes the blocks that it should. -/
theorem indentTo_of_openTo {margin : Nat} {marks : List Lexeme} {widths : List Nat}
    (h : openTo s.widths margin = some (marks, widths)) :
    ∃ added, s.indentTo margin = .ok { s with
        mode := .between, widths := widths, emitted := added.reverse ++ s.emitted } ∧
      List.Forall₂ Token.Stands added (marks.map (·, none)) := by
  unfold openTo at h
  dsimp only at h
  by_cases hgt : margin > s.widths.headD 0
  · rw [if_pos hgt] at h
    obtain ⟨rfl, rfl⟩ := Prod.mk.inj (Option.some.inj h)
    exact ⟨[⟨.indent, ⟨s.next.line, 1⟩⟩], indentTo_of_lt hgt, stands_replicate 1 .indent _⟩
  · rw [if_neg hgt] at h
    by_cases heq : (s.widths.dropWhile (· > margin)).headD 0 = margin
    · rw [if_pos heq] at h
      obtain ⟨rfl, rfl⟩ := Prod.mk.inj (Option.some.inj h)
      refine ⟨List.replicate (s.widths.takeWhile (· > margin)).length
        ⟨.dedent, ⟨s.next.line, 1⟩⟩, ?_, ?_⟩
      · rw [indentTo_of_le hgt, if_pos heq, List.reverse_replicate]
      · rw [List.map_replicate]
        exact stands_replicate _ .dedent _
    · rw [if_neg heq] at h
      cases h

theorem run_margin {width : Nat} (hmode : s.mode = .margin width) (n : Nat) :
    ∃ next : Position, next.line = s.next.line ∧ s.run (List.replicate n ' ') =
      .ok { s with mode := .margin (width + n), next := next } := by
  induction n generalizing s width with
  | zero => exact ⟨s.next, rfl, by rw [Nat.add_zero, ← hmode]; rfl⟩
  | succ n ih =>
    have hreact : s.react ' ' = .ok { s with mode := .margin (width + 1) } := by
      unfold react
      rw [hmode]
      rfl
    obtain ⟨next, hline, hrun⟩ := ih (s := { s with
      mode := .margin (width + 1), next := s.next.after ' ' }) rfl
    refine ⟨next, hline.trans (line_after (by decide) s.next), ?_⟩
    refine (run_cons (step_of_react hreact) _).trans (hrun.trans ?_)
    rw [Nat.add_assoc, Nat.add_comm 1 n]

/-- A word behind a margin begins where the margin has done its part. -/
theorem step_margin {width : Nat} (hmode : s.mode = .margin width) {c : Char}
    (hc : isWordStart c = true) (ht : s.indentTo width = .ok t) (hnext : t.next = s.next) :
    s.step c = t.stepAnew c := by
  have hne {x : Char} (hx : isWordStart x = false) : c ≠ x := by
    rintro rfl
    rw [hc] at hx
    cases hx
  have hskip : ¬ (c = '\x0c' ∨ c = '\r') := by
    rintro (rfl | rfl) <;> exact absurd hc (by decide)
  have hreact : s.react c = t.begin c := by
    unfold react
    rw [hmode]
    dsimp only
    rw [if_neg (hne (by decide)), if_neg (hne (by decide)), if_neg hskip,
      if_neg (hne (by decide)), if_neg (hne (by decide)), ht]
    rfl
  unfold step stepAnew
  rw [hreact, hnext]

/-! ## Lines -/

variable (spacing : Spacing) {marks : List Lexeme} {widths : List Nat}

/-- A line, up to its last character. -/
theorem run_line (l : Line) (hmode : s.mode = .margin 0) (hbrackets : s.brackets = 0)
    (hopen : openTo s.widths l.margin = some (marks, widths)) :
    ∃ s' p t added, s.run (spacing.chars l) = .ok s' ∧ ReadUp s' p t ∧
      t.emitted = added.reverse ++ s.emitted ∧
      List.Forall₂ Token.Stands added (marks.map (·, none) ++ placedOn s.next.line l.pieces) ∧
      t.widths = widths ∧ t.brackets = l.pieces.foldl Piece.brackets 0 ∧
      t.next.line = s.next.line := by
  obtain ⟨next, hline, hmargin⟩ := run_margin hmode l.margin
  rw [Nat.zero_add] at hmargin
  obtain ⟨added, hindent, hmarks⟩ := indentTo_of_openTo (s := { s with
    mode := .margin l.margin, next := next }) hopen
  have hfirst : ∀ c ∈ (Piece.word l.first).chars.head?,
      Scanner.step { s with mode := .margin l.margin, next := next } c =
        Scanner.stepAnew { s with mode := .between, next := next, widths := widths,
                                  emitted := added.reverse ++ s.emitted } c := by
    intro c hc
    refine step_margin rfl ?_ hindent rfl
    have hspelled := l.first.spelled
    obtain ⟨cs, hcs⟩ : ∃ cs, l.first.text.toList = c :: cs := List.head?_eq_some_iff.mp hc
    rw [hcs] at hspelled
    exact (Bool.and_eq_true_iff.mp hspelled).1
  obtain ⟨s₁, t₁, hword, hread, hon⟩ := run_piece (.word l.first) hfirst
  obtain ⟨s₂, p, t₂, hrest, hread', hon'⟩ := run_charsBehind spacing hread l.rest
  have hall := hon.trans hon'
  obtain ⟨added', hemitted, hstands⟩ := hall.emitted
  refine ⟨s₂, p, t₂, added ++ added', ?_, hread', ?_, ?_, hall.widths, ?_, hall.line.trans hline⟩
  · rw [Spacing.chars, run_append_ok hmargin, run_append_ok hword]
    exact hrest
  · rw [hemitted, List.reverse_append, List.append_assoc]
  · rw [← hline]
    exact List.rel_append hmarks hstands
  · rw [hall.brackets]
    change _ = (Piece.word l.first :: l.rest).foldl _ 0
    rw [← hbrackets]
    rfl

/-- The tokens at the end of the input, the end of the last line apart. -/
theorem tokens_eq (s : Scanner) :
    ∃ added, s.tokens = s.endLine.emitted.reverse ++ added ∧ List.Forall₂ Token.Stands added
      (List.replicate s.widths.length (.dedent, none) ++ [(.finish, none)]) := by
  refine ⟨List.replicate s.widths.length ⟨.dedent, s.next⟩ ++ [⟨.finish, s.next⟩], ?_, ?_⟩
  · rw [tokens, ended, closedAt, endLine_widths, List.reverse_append, List.reverse_replicate,
      List.append_assoc]
  · exact List.rel_append (stands_replicate _ .dedent _) (stands_replicate 1 .finish _)

/-- Between lines there is nothing to end but the open blocks. -/
theorem close_between (hsettle : s.settle = .ok s)
    (htop : ∀ t ∈ s.emitted.head?, t.lexeme = .newline) :
    ∃ added, s.close = .ok (s.emitted.reverse ++ added) ∧ List.Forall₂ Token.Stands added
      (List.replicate s.widths.length (.dedent, none) ++ [(.finish, none)]) := by
  obtain ⟨added, hadded, hstands⟩ := tokens_eq s
  rw [endLine_of_newline htop] at hadded
  exact ⟨added, hadded ▸ close_of_settle hsettle, hstands⟩

/-- A last line without a line break is ended like the others. -/
theorem close_line {p : Piece} (h : ReadUp s p t) :
    ∃ added, s.close = .ok (t.emitted.reverse ++ added) ∧ List.Forall₂ Token.Stands added
      ((.newline, some t.next.line) ::
        (List.replicate t.widths.length (.dedent, none) ++ [(.finish, none)])) := by
  obtain ⟨added, hadded, hstands⟩ := tokens_eq t
  have hend : t.endLine = t.emit t.next .newline := by
    obtain ⟨position, tokens, htop⟩ := h.top
    unfold endLine
    rw [htop]
    cases p <;> rfl
  refine ⟨⟨.newline, t.next⟩ :: added, ?_, .cons ⟨rfl, by simp⟩ hstands⟩
  rw [close_of_settle h.settle, hadded, hend]
  change Except.ok ((⟨.newline, t.next⟩ :: t.emitted).reverse ++ added) = _
  rw [List.reverse_cons, List.append_assoc]
  rfl

/-- The tokens of lines and of their layout. -/
theorem run_text (ended : Bool) {lines : List Line} (hclosed : ∀ l ∈ lines, l.Closed)
    {items : List Placed} (hmode : s.mode = .margin 0) (hbrackets : s.brackets = 0)
    (htop : ∀ t ∈ s.emitted.head?, t.lexeme = .newline)
    (hlayout : layout s.widths s.next.line lines = some items) :
    ∃ added, (s.run (spacing.text ended lines)).bind close = .ok (s.emitted.reverse ++ added) ∧
      List.Forall₂ Token.Stands added (items ++ [(.finish, none)]) := by
  induction lines generalizing s items with
  | nil =>
    have hsettle : s.settle = .ok s := by
      unfold settle
      rw [hmode]
    cases hlayout
    exact close_between hsettle htop
  | cons l lines ih =>
    obtain ⟨hl, hlines⟩ := List.forall_mem_cons.mp hclosed
    obtain ⟨⟨marks, widths⟩, hopen, hbehind⟩ := Option.bind_eq_some_iff.mp hlayout
    obtain ⟨rest, hrest, hitems⟩ := Option.bind_eq_some_iff.mp hbehind
    obtain rfl := Option.some.inj hitems
    obtain ⟨s₁, p, t, before, hrun, hread, hemitted, hbefore, hwidths, hbalance, hline⟩ :=
      run_line spacing l hmode hbrackets hopen
    by_cases hbreak : ended = true ∨ lines ≠ []
    · -- behind a line break the next line begins
      have hstep : s₁.step '\n' = .ok { t.emit t.next .newline with
          mode := .margin 0, next := t.next.after '\n' } := by
        have hbegin : t.begin '\n' = .ok { t.emit t.next .newline with mode := .margin 0 } := by
          change (if t.brackets = 0 then _ else _) = _
          rw [if_pos (hbalance.trans hl)]
        rw [hread.step '\n' (p.endsAt_blank (Or.inr rfl)), stepAnew, hbegin]
        rfl
      have hnext : (t.next.after '\n').line = s.next.line + 1 := congrArg (· + 1) hline
      obtain ⟨after, hclose, hafter⟩ := ih hlines (s := { t.emit t.next .newline with
        mode := .margin 0, next := t.next.after '\n' }) rfl (hbalance.trans hl)
        (by rintro _ ⟨⟩; rfl) (by rw [hnext]; exact hwidths.symm ▸ hrest)
      refine ⟨before ++ ⟨.newline, t.next⟩ :: after, ?_, ?_⟩
      · rw [spacing.text_cons hbreak, run_append_ok hrun, run_cons hstep, hclose]
        change Except.ok ((⟨.newline, t.next⟩ :: t.emitted).reverse ++ after) = _
        rw [hemitted]
        simp
      · rw [List.append_assoc]
        refine List.rel_append hbefore (.cons ⟨rfl, ?_⟩ hafter)
        rintro _ ⟨⟩
        exact hline
    · obtain ⟨hended, hnil⟩ := not_or.mp hbreak
      obtain rfl : lines = [] := not_not.mp hnil
      obtain rfl : ended = false := Bool.eq_false_iff.mpr hended
      obtain ⟨after, hclose, hafter⟩ := close_line hread
      obtain rfl := Option.some.inj hrest
      refine ⟨before ++ after, ?_, ?_⟩
      · rw [Spacing.text, if_neg Bool.false_ne_true, List.append_nil, hrun]
        change s₁.close = _
        rw [hclose, hemitted, List.reverse_append, List.reverse_reverse, List.append_assoc]
      · rw [List.append_assoc]
        rw [hline, hwidths] at hafter
        exact List.rel_append hbefore hafter

end Scanner

/-- The tokens of a text of lines are those of the lines and of their layout. -/
theorem tokenize_text (spacing : Spacing) (ended : Bool) {lines : List Line}
    (hclosed : ∀ l ∈ lines, l.Closed) {items : List Placed}
    (hlayout : layout [] 1 lines = some items) :
    ∃ tokens, tokenize (String.ofList (spacing.text ended lines)) = .ok tokens ∧
      List.Forall₂ Token.Stands tokens (items ++ [(.finish, none)]) := by
  obtain ⟨tokens, hrun, hstands⟩ := Scanner.run_text (s := .start) spacing ended hclosed rfl rfl
    nofun hlayout
  refine ⟨tokens, ?_, hstands⟩
  unfold tokenize
  rw [String.toList_ofList]
  exact hrun

end Monorepo.Script
