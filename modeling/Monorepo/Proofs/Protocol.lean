import Monorepo.Proofs.Joints
import Monorepo.Proofs.Layout

/-!
# The tokens of a text

A scanner lays out the text that it reads: what it has finished is made up of the tokens that it has
emitted and of gaps, and what it has begun is written behind that. At the end of the text it ends the
last line and closes the blocks that are open. So the tokens of a text keep to the protocol that a
parser relies on.
-/

namespace Monorepo.Script

namespace Scanner

variable {s t : Scanner} {cs : List Char}

/-! ## What is begun -/

/-- What is begun behind a text in a mode, and how it is written so far. -/
def Begins (cs : List Char) : (mode : Mode) → (begun : List Char) → Prop
  | .margin _, begun | .between, begun => begun = []
  | .marginComment, begun | .comment, begun => ∃ text, begun = '#' :: text ∧ '\n' ∉ text
  | .pending place first, begun => place = placeBehind cs ∧ begun = [first]
  | .name place reversed, begun => place = placeBehind cs ∧ begun = reversed.reverse ∧
    isSpelled begun = true
  | .number place reversed, begun => place = placeBehind cs ∧
    begun.filter (· != '_') = reversed.reverse ∧
      ∃ c rest, begun = c :: rest ∧ (c.isDigit = true ∨ c = '.')
  | .opened l, begun => ∃ marks, l.Stands cs marks ∧ begun = marks ++ [l.quote]
  | .openedTwice l, begun => ∃ marks, l.Stands cs marks ∧ begun = marks ++ [l.quote, l.quote]
  | .short l reversed, begun => ∃ marks written, l.Stands cs marks ∧ l.Body false written reversed ∧
    begun = marks ++ l.quote :: written
  | .shortEscape l reversed, begun => ∃ marks written, l.Stands cs marks ∧
    l.Body false written reversed ∧ begun = marks ++ l.quote :: (written ++ ['\\'])
  | .long l closing reversed, begun => ∃ marks written, l.Stands cs marks ∧
    l.Body true written reversed ∧ closing < 3 ∧
      begun = marks ++ (List.replicate 3 l.quote ++ written ++ List.replicate closing l.quote)
  | .longEscape l reversed, begun => ∃ marks written, l.Stands cs marks ∧
    l.Body true written reversed ∧
      begun = marks ++ (List.replicate 3 l.quote ++ written ++ ['\\'])

/-- A scanner that has read a text: it has emitted the tokens of the first part, and begun the rest
    of it. -/
def Reads (cs : List Char) (s : Scanner) : Prop :=
  ∃ done begun, cs = done ++ begun ∧ Laid done s.emitted s.brackets ∧ Begins done s.mode begun

theorem reads_of_laid (h : Laid cs s.emitted s.brackets)
    (hmode : s.mode = .between ∨ ∃ width, s.mode = .margin width) : s.Reads cs := by
  refine ⟨cs, [], (List.append_nil cs).symm, h, ?_⟩
  rcases hmode with hmode | ⟨width, hmode⟩ <;> rw [hmode] <;> rfl

/-! ## Finished tokens -/

theorem oneMark_spelling {c : Char} {m : Mark} (h : oneMark c = some m) :
    m.spelling.toList = [c] := by
  unfold oneMark at h
  split at h
  case h_19 => cases h
  all_goals
    cases h
    rfl

theorem twoMark_spelling {c d : Char} {m : Mark} (h : twoMark c d = some m) :
    m.spelling.toList = [c, d] := by
  unfold twoMark at h
  split at h
  case h_9 => cases h
  all_goals
    cases h
    rfl

theorem laid_emitMark (h : Laid cs s.emitted s.brackets) {m : Mark} {written : List Char}
    (hspelling : m.spelling.toList = written) :
    Laid (cs ++ written) (s.emitMark (placeBehind cs) m).emitted
      (s.emitMark (placeBehind cs) m).brackets := by
  have hlaid := h.printed (.mark m)
  rw [hspelling] at hlaid
  cases m <;> exact hlaid

theorem laid_emitText (h : Laid cs s.emitted s.brackets) {l : Literal}
    {marks written reversed : List Char} (hl : l.Stands cs marks)
    (hwritten : l.Written written reversed) :
    Laid (cs ++ (marks ++ written)) (s.emitText l.start (String.ofList reversed.reverse)).emitted
      (s.emitText l.start (String.ofList reversed.reverse)).brackets := by
  unfold emitText
  split
  · rename_i before place tokens htop
    rw [htop] at h
    exact h.further hl hwritten
  · exact h.text hl hwritten

theorem emitText_mode (s : Scanner) (place : Position) (value : String) :
    (s.emitText place value).mode = .between := by
  unfold emitText
  split <;> rfl

/-- A finished literal. -/
theorem reads_emitText (h : Laid cs s.emitted s.brackets) {l : Literal}
    {marks written reversed : List Char} (hl : l.Stands cs marks)
    (hwritten : l.Written written reversed) :
    (s.emitText l.start (String.ofList reversed.reverse)).Reads (cs ++ (marks ++ written)) :=
  reads_of_laid (laid_emitText h hl hwritten) (Or.inl (emitText_mode _ _ _))

/-- A margin opens one block, or closes some. -/
theorem laid_indentTo (h : Laid cs s.emitted s.brackets) (horderly : s.Orderly)
    (hbetween : s.BetweenLines) (hnext : s.next = placeBehind cs) {width : Nat}
    (hindent : s.indentTo width = .ok t) :
    Laid cs t.emitted t.brackets ∧ t.next = placeBehind cs := by
  have hlaid : Laid cs s.emitted 0 := by
    rw [hbetween.brackets] at h
    exact h
  have hplace : (⟨s.next.line, 1⟩ : Position) = (placeBehind cs).margin := by
    rw [hnext]
    rfl
  by_cases hlt : s.widths.headD 0 < width
  · rw [indentTo_of_lt hlt, hplace] at hindent
    cases hindent
    refine ⟨?_, hnext⟩
    rw [hbetween.brackets]
    exact hlaid.indent hbetween.top
  · rw [indentTo_of_le hlt, hplace] at hindent
    split at hindent
    · cases hindent
      refine ⟨?_, hnext⟩
      rw [hbetween.brackets]
      refine hlaid.dedents hbetween.top fun hnil => ?_
      -- Without a token no block is open.
      have htidy := horderly.tidy
      rw [hnil] at htidy
      have hwidths : s.widths = [] := by
        cases hw : s.widths with
        | nil => rfl
        | cons width widths =>
          rw [hw] at htidy
          cases htidy
      rw [hwidths]
      rfl
    · cases hindent

/-- What is begun is a token, or a gap, if nothing follows it. -/
theorem laid_settle (h : s.Reads cs) (hsettle : s.settle = .ok t) :
    Laid cs t.emitted t.brackets ∧ t.next = s.next := by
  obtain ⟨done, begun, rfl, hlaid, hbegins⟩ := h
  unfold settle at hsettle
  split at hsettle
  case h_1 hmode =>
    rw [hmode] at hbegins
    obtain rfl := hbegins
    cases hsettle
    rw [List.append_nil]
    exact ⟨hlaid, rfl⟩
  case h_2 hmode =>
    rw [hmode] at hbegins
    obtain ⟨text, rfl, htext⟩ := hbegins
    cases hsettle
    exact ⟨hlaid.comment htext, rfl⟩
  case h_3 hmode =>
    rw [hmode] at hbegins
    obtain rfl := hbegins
    cases hsettle
    rw [List.append_nil]
    exact ⟨hlaid, rfl⟩
  case h_4 hmode =>
    rw [hmode] at hbegins
    obtain ⟨text, rfl, htext⟩ := hbegins
    cases hsettle
    exact ⟨hlaid.comment htext, rfl⟩
  case h_5 position first hmode =>
    rw [hmode] at hbegins
    obtain ⟨rfl, rfl⟩ := hbegins
    split at hsettle
    · rename_i m hmark
      cases hsettle
      exact ⟨laid_emitMark hlaid (oneMark_spelling hmark), rfl⟩
    · cases hsettle
  case h_6 position reversed hmode =>
    rw [hmode] at hbegins
    obtain ⟨rfl, hbegun, hspelled⟩ := hbegins
    cases hsettle
    cases begun with
    | nil => cases hspelled
    | cons c rest =>
      obtain ⟨hfirst, hrest⟩ := (Bool.and_eq_true _ _).mp hspelled
      have hlaid := hlaid.printed (.name hfirst (List.all_eq_true.mp hrest))
      rw [hbegun] at hlaid ⊢
      exact ⟨hlaid, rfl⟩
  case h_7 position reversed hmode =>
    rw [hmode] at hbegins
    obtain ⟨rfl, hfilter, c, rest, rfl, hfirst⟩ := hbegins
    split at hsettle
    · rename_i lexeme hread
      cases hsettle
      rw [← hfilter] at hread
      have hlaid := hlaid.printed (.number hfirst hread)
      rw [(readNumber?_printed hread).2] at hlaid
      exact ⟨hlaid, rfl⟩
    · cases hsettle
  case h_8 l hmode =>
    rw [hmode] at hbegins
    obtain ⟨marks, hl, rfl⟩ := hbegins
    cases hsettle
    refine ⟨laid_emitText hlaid hl (.short .nil), ?_⟩
    unfold emitText
    split <;> rfl
  all_goals cases hsettle

/-! ## Steps -/

theorem isSpelled_concat (h : isSpelled cs = true) {c : Char} (hc : isWordChar c = true) :
    isSpelled (cs ++ [c]) = true := by
  cases cs with
  | nil => cases h
  | cons d ds =>
    obtain ⟨hfirst, hrest⟩ := (Bool.and_eq_true _ _).mp h
    simp [isSpelled, hfirst, hrest, hc]

theorem reads_of_begin (h : Laid cs s.emitted s.brackets) (hnext : s.next = placeBehind cs)
    {c : Char} (hbegin : s.begin c = .ok t) : t.Reads (cs ++ [c]) := by
  unfold begin at hbegin
  split at hbegin
  · rename_i hblank
    cases hbegin
    exact reads_of_laid (h.blank (by simpa using hblank)) (Or.inl rfl)
  split at hbegin
  · rename_i hc
    cases hbegin
    exact ⟨cs, [c], rfl, h, [], by rw [hc], List.not_mem_nil⟩
  split at hbegin
  · rename_i hc
    subst hc
    split at hbegin
    · rename_i hclosed
      cases hbegin
      refine reads_of_laid ?_ (Or.inr ⟨0, rfl⟩)
      change Laid _ (⟨.newline, s.next⟩ :: s.emitted) s.brackets
      rw [hclosed] at h ⊢
      rw [hnext]
      exact h.newline
    · rename_i hopen
      cases hbegin
      exact reads_of_laid (h.joined (Nat.pos_of_ne_zero hopen)) (Or.inl rfl)
  split at hbegin
  · rename_i hquote
    cases hbegin
    have hstart : s.next = placeBehind (cs ++ []) := by rw [List.append_nil, hnext]
    exact ⟨cs, [c], rfl, h, [], ⟨hstart, rfl, rfl, hquote⟩, rfl⟩
  split at hbegin
  · rename_i hdigit
    cases hbegin
    have hne : c ≠ '_' := by
      rintro rfl
      exact absurd hdigit (by decide)
    exact ⟨cs, [c], rfl, h, hnext, by simp [hne], c, [], rfl, Or.inl hdigit⟩
  split at hbegin
  · cases hbegin
    exact ⟨cs, [c], rfl, h, hnext, rfl⟩
  split at hbegin
  · rename_i m hmark
    cases hbegin
    rw [hnext]
    exact reads_of_laid (laid_emitMark h (oneMark_spelling hmark)) (Or.inl rfl)
  split at hbegin
  · rename_i hletter
    cases hbegin
    refine ⟨cs, [c], rfl, h, hnext, rfl, ?_⟩
    exact (Bool.and_eq_true _ _).mpr ⟨hletter, rfl⟩
  · cases hbegin

theorem reads_of_restart (h : s.Reads cs) (hnext : s.next = placeBehind cs) {c : Char}
    (hrestart : s.restart c = .ok t) : t.Reads (cs ++ [c]) := by
  obtain ⟨settled, hsettle, hbegin⟩ := ok_of_bind hrestart
  obtain ⟨hlaid, hplace⟩ := laid_settle h hsettle
  exact reads_of_begin hlaid (hplace.trans hnext) hbegin

/-- Quotes that turn out to be within a long literal. -/
theorem body_replicate {l : Literal} {marks written reversed : List Char}
    (hl : l.Stands cs marks) (hbody : l.Body true written reversed) (n : Nat) :
    l.Body true (written ++ List.replicate n l.quote) (List.replicate n l.quote ++ reversed) := by
  have hquote : l.quote ≠ '\\' := by
    rcases hl.quote with hquote | hquote <;> rw [hquote] <;> decide
  induction n with
  | zero => simpa using hbody
  | succ n ih =>
    rw [List.replicate_succ', ← List.append_assoc, ← List.replicate_succ', List.replicate_succ]
    exact .plain ih hquote (Or.inl rfl)

section Literals

variable {l : Literal} {marks written reversed : List Char}
  (h : Laid cs s.emitted s.brackets) (hl : l.Stands cs marks)
include h hl

theorem reads_of_stepShort (hbody : l.Body false written reversed) {c : Char}
    (hstep : s.stepShort l reversed c = .ok t) :
    t.Reads (cs ++ (marks ++ l.quote :: (written ++ [c]))) := by
  unfold stepShort at hstep
  split at hstep
  · rename_i hquote
    cases hstep
    have hreads := reads_emitText h hl (.short hbody)
    rwa [hquote]
  split at hstep
  · cases hstep
  split at hstep
  · rename_i hbackslash
    cases hstep
    exact ⟨cs, _, rfl, h, marks, written, hl, hbody, by rw [hbackslash]⟩
  · rename_i hquote hbreak hbackslash
    cases hstep
    exact ⟨cs, _, rfl, h, marks, written ++ [c], hl, .plain hbody hbackslash
      (Or.inr ⟨hquote, hbreak⟩), rfl⟩

theorem reads_stepLong (hbody : l.Body true written reversed) {closing : Nat}
    (hclosing : closing < 3) (c : Char) :
    (s.stepLong l closing reversed c).Reads (cs ++ (marks ++
      (List.replicate 3 l.quote ++ written ++ (List.replicate closing l.quote ++ [c])))) := by
  have hkept := body_replicate hl hbody closing
  unfold stepLong
  dsimp only
  split
  · rename_i hquote
    have hmore : List.replicate closing l.quote ++ [c] =
        List.replicate (closing + 1) l.quote := by
      rw [hquote, List.replicate_succ']
    rw [hmore]
    split
    · rename_i hlast
      rw [hlast]
      exact reads_emitText h hl (.long hbody)
    · exact ⟨cs, _, rfl, h, marks, written, hl, hbody, by omega, rfl⟩
  · split
    · rename_i hbackslash
      rw [hbackslash]
      exact ⟨cs, _, rfl, h, marks, _, hl, hkept, by simp⟩
    · rename_i hquote hbackslash
      exact ⟨cs, _, rfl, h, marks, _, hl, .plain hkept hbackslash (Or.inl rfl), by omega,
        by simp⟩

end Literals

section Modes

variable {c : Char} {last : Option Char}

theorem reads_of_margin (h : Laid cs s.emitted s.brackets) (hnext : s.next = placeBehind cs)
    (htidied : s.Tidied last) {width : Nat} (hmode : s.mode = .margin width)
    (hreact : s.react c = .ok t) : t.Reads (cs ++ [c]) := by
  have hbetween : s.BetweenLines := htidied.margin (by rw [hmode]; rfl)
  have hblank (hc : c ∈ [' ', '\t', '\r', '\x0c']) : Laid (cs ++ [c]) s.emitted s.brackets :=
    h.blank hc
  unfold Scanner.react at hreact
  rw [hmode] at hreact
  dsimp only at hreact
  split at hreact
  · rename_i hc
    cases hreact
    exact reads_of_laid (hblank (by simp [hc])) (Or.inr ⟨_, rfl⟩)
  split at hreact
  · rename_i hc
    cases hreact
    exact reads_of_laid (hblank (by simp [hc])) (Or.inr ⟨_, rfl⟩)
  split at hreact
  · rename_i hc
    cases hreact
    exact reads_of_laid (hblank (by rcases hc with rfl | rfl <;> simp)) (Or.inr ⟨_, hmode⟩)
  split at hreact
  · rename_i hc
    cases hreact
    have hempty : Laid (cs ++ ['\n']) s.emitted 0 :=
      Laid.emptyLine (hbetween.brackets ▸ h) hbetween.top
    rw [hc]
    refine reads_of_laid ?_ (Or.inr ⟨_, rfl⟩)
    rw [hbetween.brackets]
    exact hempty
  split at hreact
  · rename_i hc
    cases hreact
    exact ⟨cs, [c], rfl, h, [], by rw [hc], List.not_mem_nil⟩
  · obtain ⟨opened, hindent, hbegin⟩ := ok_of_bind hreact
    obtain ⟨hopened, hplace⟩ := laid_indentTo h htidied.orderly hbetween hnext hindent
    exact reads_of_begin hopened hplace hbegin

/-- A comment goes on, or ends with its line. -/
theorem reads_of_comment {done text : List Char} (h : Laid done s.emitted s.brackets)
    (htext : '\n' ∉ text) (hc : c ≠ '\n')
    (hmode : s.mode = .comment ∨ s.mode = .marginComment) :
    s.Reads (done ++ '#' :: text ++ [c]) := by
  refine ⟨done, '#' :: (text ++ [c]), by simp, h, ?_⟩
  rcases hmode with hmode | hmode
  all_goals
    rw [hmode]
    exact ⟨text ++ [c], rfl, by simp [htext, Ne.symm hc]⟩

theorem reads_of_pending {done : List Char} {first : Char} (h : Laid done s.emitted s.brackets)
    (hrestart : s.restart c = .ok t → t.Reads (done ++ [first] ++ [c]))
    (hmode : s.mode = .pending (placeBehind done) first) (hreact : s.react c = .ok t) :
    t.Reads (done ++ [first] ++ [c]) := by
  unfold Scanner.react at hreact
  rw [hmode] at hreact
  dsimp only at hreact
  split at hreact
  · rename_i hc
    obtain ⟨rfl, rfl⟩ := hc
    cases hreact
    rw [List.append_assoc]
    exact reads_of_laid h.continued (Or.inl rfl)
  split at hreact
  · rename_i hc
    obtain ⟨rfl, hdigit⟩ := hc
    cases hreact
    have hne : c ≠ '_' := by
      rintro rfl
      exact absurd hdigit (by decide)
    exact ⟨done, ['.', c], by simp, h, rfl, by simp [hne], '.', [c], rfl, Or.inr rfl⟩
  split at hreact
  · rename_i m hmark
    cases hreact
    rw [List.append_assoc]
    exact reads_of_laid (laid_emitMark h (twoMark_spelling hmark)) (Or.inl rfl)
  · exact hrestart hreact

theorem reads_of_name {done reversed : List Char} (h : Laid done s.emitted s.brackets)
    (hspelled : isSpelled reversed.reverse = true)
    (hnext : s.next = placeBehind (done ++ reversed.reverse))
    (hrestart : s.restart c = .ok t → t.Reads (done ++ reversed.reverse ++ [c]))
    (hmode : s.mode = .name (placeBehind done) reversed) (hreact : s.react c = .ok t) :
    t.Reads (done ++ reversed.reverse ++ [c]) := by
  unfold Scanner.react at hreact
  rw [hmode] at hreact
  dsimp only at hreact
  split at hreact
  · rename_i hword
    cases hreact
    exact ⟨done, reversed.reverse ++ [c], by simp, h, rfl, by simp,
      isSpelled_concat hspelled hword⟩
  split at hreact
  · rename_i hquote
    cases hreact
    have hmark : isLiteralMark reversed.reverse = true := by
      simpa [isLiteralMark] using hquote.2
    exact ⟨done, reversed.reverse ++ [c], by simp, h, reversed.reverse,
      ⟨hnext, hmark, by simp, hquote.1⟩, rfl⟩
  · exact hrestart hreact

theorem reads_of_number {done begun reversed : List Char} (h : Laid done s.emitted s.brackets)
    (hbegins : Begins done (.number (placeBehind done) reversed) begun)
    (hrestart : s.restart c = .ok t → t.Reads (done ++ begun ++ [c]))
    (hmode : s.mode = .number (placeBehind done) reversed) (hreact : s.react c = .ok t) :
    t.Reads (done ++ begun ++ [c]) := by
  obtain ⟨-, hfilter, d, rest, rfl, hfirst⟩ := hbegins
  unfold Scanner.react at hreact
  rw [hmode] at hreact
  dsimp only at hreact
  split at hreact
  · cases hreact
    refine ⟨done, d :: rest ++ [c], by simp, h, rfl, ?_, d, rest ++ [c], rfl, hfirst⟩
    rw [List.filter_append, hfilter]
    by_cases hc : c = '_' <;> simp [hc]
  · exact hrestart hreact

end Modes

/-- What a scanner reads it reads on, one case for each mode. -/
theorem Reads.react (h : s.Reads cs) (hnext : s.next = placeBehind cs) {last : Option Char}
    (htidied : s.Tidied last) {c : Char} (hreact : s.react c = .ok t) : t.Reads (cs ++ [c]) := by
  have hrestart := reads_of_restart h hnext (c := c) (t := t)
  obtain ⟨done, begun, rfl, hlaid, hbegins⟩ := h
  obtain ⟨mode, next, widths, brackets, emitted⟩ := s
  cases mode with
  | margin width =>
    obtain rfl := hbegins
    rw [List.append_nil] at hnext ⊢
    exact reads_of_margin hlaid hnext htidied rfl hreact
  | marginComment =>
    obtain ⟨text, rfl, htext⟩ := hbegins
    have hbetween := htidied.margin rfl
    cases hreact
    by_cases hc : c = '\n'
    · subst hc
      obtain rfl : brackets = 0 := hbetween.brackets
      exact reads_of_laid ((hlaid.comment htext).emptyLine hbetween.top) (Or.inr ⟨0, rfl⟩)
    · rw [if_neg hc]
      exact reads_of_comment hlaid htext hc (Or.inr rfl)
  | between =>
    obtain rfl := hbegins
    rw [List.append_nil] at hnext ⊢
    exact reads_of_begin hlaid hnext hreact
  | comment =>
    obtain ⟨text, rfl, htext⟩ := hbegins
    dsimp only [Scanner.react] at hreact
    split at hreact
    · exact reads_of_begin (hlaid.comment htext) hnext hreact
    · rename_i hc
      cases hreact
      exact reads_of_comment hlaid htext hc (Or.inl rfl)
  | pending position first =>
    obtain ⟨rfl, rfl⟩ := hbegins
    exact reads_of_pending hlaid hrestart rfl hreact
  | name position reversed =>
    obtain ⟨rfl, rfl, hspelled⟩ := hbegins
    exact reads_of_name hlaid hspelled hnext hrestart rfl hreact
  | number position reversed =>
    obtain rfl := hbegins.1
    exact reads_of_number hlaid hbegins hrestart rfl hreact
  | opened l =>
    obtain ⟨marks, hl, rfl⟩ := hbegins
    dsimp only [Scanner.react] at hreact
    split at hreact
    · rename_i hquote
      cases hreact
      exact ⟨done, marks ++ [l.quote, l.quote], by simp [hquote], hlaid, marks, hl, rfl⟩
    · have hreads := reads_of_stepShort hlaid hl .nil hreact
      simpa using hreads
  | openedTwice l =>
    obtain ⟨marks, hl, rfl⟩ := hbegins
    dsimp only [Scanner.react] at hreact
    split at hreact
    · rename_i hquote
      cases hreact
      exact ⟨done, _, by simp [hquote], hlaid, marks, [], hl, .nil, by omega, rfl⟩
    · exact hrestart hreact
  | short l reversed =>
    obtain ⟨marks, written, hl, hbody, rfl⟩ := hbegins
    have hreads := reads_of_stepShort hlaid hl hbody hreact
    simpa using hreads
  | shortEscape l reversed =>
    obtain ⟨marks, written, hl, hbody, rfl⟩ := hbegins
    cases hreact
    exact ⟨done, _, by simp, hlaid, marks, _, hl, .escape hbody c, rfl⟩
  | long l closing reversed =>
    obtain ⟨marks, written, hl, hbody, hclosing, rfl⟩ := hbegins
    cases hreact
    have hreads := reads_stepLong hlaid hl hbody hclosing c
    simpa using hreads
  | longEscape l reversed =>
    obtain ⟨marks, written, hl, hbody, rfl⟩ := hbegins
    cases hreact
    exact ⟨done, _, by simp, hlaid, marks, _, hl, .escape hbody c, by omega, rfl⟩

/-- A run lays out the text that it reads. -/
theorem Reads.run (h : s.Reads cs) (hnext : s.next = placeBehind cs) {last : Option Char}
    (htidied : s.Tidied last) {ds : List Char} (hrun : s.run ds = .ok t) :
    t.Reads (cs ++ ds) ∧ t.next = placeBehind (cs ++ ds) := by
  induction ds generalizing s cs last with
  | nil =>
    cases hrun
    rw [List.append_nil]
    exact ⟨h, hnext⟩
  | cons d ds ih =>
    obtain ⟨mid, hstep, hrun⟩ := ok_of_bind hrun
    have hmid := htidied.step d mid hstep
    obtain ⟨after, hreact, rfl⟩ := ok_of_map hstep
    have hafter : after.Reads (cs ++ [d]) := h.react hnext htidied hreact
    have hreads : ({ after with next := s.next.after d } : Scanner).Reads (cs ++ [d]) := hafter
    have hplace : s.next.after d = placeBehind (cs ++ [d]) := by rw [placeBehind_concat, hnext]
    have hsplit : cs ++ d :: ds = (cs ++ [d]) ++ ds := by simp
    rw [hsplit]
    exact ih hreads hplace hmid hrun

/-! ## The end of the text -/

/-- What is added to the tokens of a text where it ends, the last one first. -/
theorem exists_ended (s : Scanner) : ∃ extra,
    s.ended = List.replicate s.widths.length ⟨.dedent, s.next⟩ ++ (extra ++ s.emitted) ∧
      (extra = [] ∧ (∀ t ∈ s.emitted.head?, t.lexeme = .newline) ∨
        extra = [⟨.newline, s.next⟩]) := by
  unfold ended closedAt
  rw [endLine_widths]
  unfold endLine
  split
  · rename_i hnil
    refine ⟨[], rfl, Or.inl ⟨rfl, ?_⟩⟩
    rw [hnil]
    rintro _ ⟨⟩
  · rename_i htop
    refine ⟨[], rfl, Or.inl ⟨rfl, ?_⟩⟩
    rw [htop]
    rintro _ ⟨⟩
    rfl
  · exact ⟨[⟨.newline, s.next⟩], rfl, Or.inr rfl⟩

end Scanner

/-! ## Tidy tokens -/

theorem Lexeme.ne_of_isPrinted {lexeme layout : Lexeme} (h : lexeme.isPrinted = true)
    (hlayout : layout.isPrinted = false) : lexeme ≠ layout := by
  rintro rfl
  rw [h] at hlayout
  cases hlayout

namespace Tidy

variable {ts us : List Token} {depth brackets : Nat}

/-- Every block that is not closed is open. -/
theorem count_indent (h : Tidy ts depth brackets) :
    (ts.map Token.lexeme).count .indent = (ts.map Token.lexeme).count .dedent + depth := by
  induction h with
  | nil => rfl
  | printed hprinted h ih =>
    rw [List.map_cons, List.count_cons_of_ne (Lexeme.ne_of_isPrinted hprinted rfl),
      List.count_cons_of_ne (Lexeme.ne_of_isPrinted hprinted rfl), ih]
  | newline h ih => simpa using ih
  | indent hbare h ih => simp [ih, Nat.add_assoc]
  | dedent hbare h ih =>
    simp only [List.map_cons, List.count_cons_self]
    rw [List.count_cons_of_ne (by decide), ih]
    omega

theorem count_finish (h : Tidy ts depth brackets) : (ts.map Token.lexeme).count .finish = 0 := by
  induction h with
  | nil => rfl
  | printed hprinted h ih =>
    rw [List.map_cons, List.count_cons_of_ne (Lexeme.ne_of_isPrinted hprinted rfl), ih]
  | newline h ih => simpa using ih
  | indent hbare h ih => simpa using ih
  | dedent hbare h ih => simpa using ih

/-- The earlier tokens are tidy as well. -/
theorem suffix (h : Tidy ts depth brackets) (hsuffix : us <:+ ts) :
    ∃ depth' brackets', Tidy us depth' brackets' := by
  induction h with
  | nil => exact ⟨0, 0, List.suffix_nil.mp hsuffix ▸ .nil⟩
  | printed hprinted h ih =>
    rcases List.suffix_cons_iff.mp hsuffix with rfl | hsuffix
    · exact ⟨_, _, .printed hprinted h⟩
    · exact ih hsuffix
  | newline h ih =>
    rcases List.suffix_cons_iff.mp hsuffix with rfl | hsuffix
    · exact ⟨_, _, .newline h⟩
    · exact ih hsuffix
  | indent hbare h ih =>
    rcases List.suffix_cons_iff.mp hsuffix with rfl | hsuffix
    · exact ⟨_, _, .indent hbare h⟩
    · exact ih hsuffix
  | dedent hbare h ih =>
    rcases List.suffix_cons_iff.mp hsuffix with rfl | hsuffix
    · exact ⟨_, _, .dedent hbare h⟩
    · exact ih hsuffix

/-- The first token closes no block. -/
theorem first_ne_dedent (h : Tidy ts depth brackets) {t : Token} (ht : t ∈ ts.getLast?) :
    t.lexeme ≠ .dedent := by
  obtain ⟨later, rfl⟩ := List.getLast?_eq_some_iff.mp ht
  obtain ⟨_, _, hfirst⟩ := h.suffix (List.suffix_append later [t])
  cases hfirst with
  | printed hprinted h => exact Lexeme.ne_of_isPrinted hprinted rfl
  | newline h => nofun
  | indent hbare h => nofun
  | dedent hbare h => cases h

end Tidy

/-! ## The protocol -/

/-- The ends of some blocks and of the input. -/
def closing (cs : List Char) (blocks : Nat) : List Token :=
  List.replicate blocks ⟨.dedent, placeBehind cs⟩ ++ [⟨.finish, placeBehind cs⟩]

/-- What a parser relies on in the tokens of a text: those that `body` lays out, and those at the end
    of the text. -/
structure Protocol (cs : List Char) (body ending : List Token) : Prop where
  /-- The body stands for the text: a printed token and the end of a line have the place of their
      first character, a literal that of its first quote, and a block that of a margin. -/
  laid : ∃ brackets, Laid cs body.reverse brackets
  /-- The last line ends, then the open blocks do, then the input. -/
  ends : body ++ ending = [⟨.finish, placeBehind cs⟩] ∨
    ∃ lines place blocks, body ++ ending = lines ++ ⟨.newline, place⟩ :: closing cs blocks
  /-- What is added at the end stands there. -/
  ending_place : ∀ t ∈ ending, t.lexeme.isPrinted = false ∧ t.position = placeBehind cs
  /-- The input ends once. -/
  finish : ((body ++ ending).map Token.lexeme).count .finish = 1
  /-- No block closes that was not opened. -/
  opened : ∀ before, before <+: body ++ ending →
    (before.map Token.lexeme).count .dedent ≤ (before.map Token.lexeme).count .indent
  /-- Every block closes. -/
  closed : ((body ++ ending).map Token.lexeme).count .dedent =
    ((body ++ ending).map Token.lexeme).count .indent
  /-- Blocks open and close between lines. -/
  adjacent : (body ++ ending).IsChain Token.Precedes
  /-- The first token closes no block. -/
  first : ∀ t ∈ (body ++ ending).head?, t.lexeme ≠ .dedent
  /-- Within the text there is no layout in brackets. -/
  joined : ∀ before t, before ++ [t] <+: body → t.lexeme.isPrinted = false →
    openBrackets before = 0
  /-- No token stands in front of an earlier one. -/
  ordered : (body ++ ending).Pairwise (fun t u => t.position ≤ u.position)

/-- Tokens up to the end of the input, the last one first, in which the body is laid out, the last
    line has ended and all blocks are closed. -/
structure Ended (cs : List Char) (emitted extra : List Token) (blocks : Nat) (all : List Token) :
    Prop where
  laid : ∃ brackets, Laid cs emitted brackets
  lastLine : extra = [] ∧ (∀ t ∈ emitted.head?, t.lexeme = .newline) ∨
    extra = [⟨.newline, placeBehind cs⟩]
  all_eq : all = List.replicate blocks ⟨.dedent, placeBehind cs⟩ ++ (extra ++ emitted)
  tidy : ∃ brackets, Tidy all 0 brackets

namespace Ended

variable {cs : List Char} {emitted extra all : List Token} {blocks : Nat}

theorem tokens_eq (h : Ended cs emitted extra blocks all) :
    emitted.reverse ++ (extra.reverse ++ closing cs blocks) =
      all.reverse ++ [⟨.finish, placeBehind cs⟩] := by
  rw [h.all_eq, closing]
  simp

/-- All tokens at the end of the text stand there. -/
theorem ending_place (h : Ended cs emitted extra blocks all) :
    ∀ t ∈ extra.reverse ++ closing cs blocks,
      t.lexeme.isPrinted = false ∧ t.position = placeBehind cs := by
  intro t ht
  simp only [closing, List.mem_append, List.mem_singleton, List.mem_reverse] at ht
  rcases ht with ht | ht | rfl
  · rcases h.lastLine with ⟨rfl, -⟩ | rfl
    · cases ht
    · rw [List.mem_singleton.mp ht]
      exact ⟨rfl, rfl⟩
  · rw [List.eq_of_mem_replicate ht]
    exact ⟨rfl, rfl⟩
  · exact ⟨rfl, rfl⟩

theorem top (h : Ended cs emitted extra blocks all) :
    ∀ t ∈ (extra ++ emitted).head?, t.lexeme = .newline := by
  rcases h.lastLine with ⟨rfl, htop⟩ | rfl
  · exact htop
  · rintro _ ⟨⟩
    rfl

theorem ends (h : Ended cs emitted extra blocks all) :
    all.reverse ++ [⟨.finish, placeBehind cs⟩] = [⟨.finish, placeBehind cs⟩] ∨
      ∃ lines place blocks, all.reverse ++ [⟨.finish, placeBehind cs⟩] =
        lines ++ ⟨.newline, place⟩ :: closing cs blocks := by
  have htop := h.top
  cases hlines : extra ++ emitted with
  | nil =>
    -- Without a line there is no block.
    obtain ⟨brackets, htidy⟩ := h.tidy
    have hcount := htidy.count_indent
    rw [h.all_eq, hlines, List.append_nil, List.map_replicate, List.count_replicate_self,
      List.count_replicate] at hcount
    have hblocks : blocks = 0 := by simpa using hcount.symm
    left
    rw [h.all_eq, hlines, hblocks]
    rfl
  | cons t lines =>
    obtain ⟨lexeme, place⟩ := t
    rw [hlines] at htop
    obtain rfl : lexeme = .newline := htop _ rfl
    right
    refine ⟨lines.reverse, place, blocks, ?_⟩
    rw [h.all_eq, hlines, closing]
    simp

theorem isChain (h : Ended cs emitted extra blocks all) :
    (⟨.finish, placeBehind cs⟩ :: all).IsChain (fun u t => Token.Precedes t u) := by
  have hlines : (extra ++ emitted).IsChain (fun u t => Token.Precedes t u) := by
    obtain ⟨brackets, hlaid⟩ := h.laid
    rcases h.lastLine with ⟨rfl, -⟩ | rfl
    · exact hlaid.isChain
    · exact List.isChain_cons.mpr
        ⟨fun t _ => t.precedes_of_isOnLine (Or.inr rfl), hlaid.isChain⟩
  have hblocks (n : Nat) (below : List Token)
      (hbelow : below = List.replicate n ⟨.dedent, placeBehind cs⟩ ++ (extra ++ emitted)) :
      below.IsChain (fun u t => Token.Precedes t u) ∧
        ∀ t ∈ below.head?, t.lexeme = .newline ∨ t.lexeme = .dedent := by
    induction n generalizing below with
    | zero =>
      rw [hbelow]
      exact ⟨hlines, fun t ht => Or.inl (h.top t ht)⟩
    | succ n ih =>
      obtain ⟨hchain, htop⟩ := ih _ rfl
      rw [hbelow, List.replicate_succ, List.cons_append]
      refine ⟨List.isChain_cons.mpr ⟨fun t ht => ⟨nofun, fun _ => htop t ht, ?_⟩, hchain⟩, ?_⟩
      · intro hindent
        rcases htop t ht with hlexeme | hlexeme <;> rw [hlexeme] at hindent <;> cases hindent
      · rintro _ ⟨⟩
        exact Or.inr rfl
  obtain ⟨hchain, htop⟩ := hblocks blocks all h.all_eq
  refine List.isChain_cons.mpr ⟨fun t ht => ⟨nofun, nofun, fun hindent => ?_⟩, hchain⟩
  rcases htop t ht with hlexeme | hlexeme <;> rw [hlexeme] at hindent <;> cases hindent

theorem count_le (h : Ended cs emitted extra blocks all) {before : List Token}
    (hinitial : before <+: all.reverse ++ [⟨.finish, placeBehind cs⟩]) :
    (before.map Token.lexeme).count .dedent ≤ (before.map Token.lexeme).count .indent := by
  obtain ⟨brackets, htidy⟩ := h.tidy
  rcases List.prefix_concat_iff.mp hinitial with rfl | hinitial
  · have hcount := htidy.count_indent
    simp [hcount]
  · rw [← List.reverse_reverse before, List.reverse_prefix] at hinitial
    obtain ⟨depth, _, hbefore⟩ := htidy.suffix hinitial
    have hcount := hbefore.count_indent
    rw [List.map_reverse, List.count_reverse, List.count_reverse] at hcount
    omega

theorem head_ne_dedent (h : Ended cs emitted extra blocks all) :
    ∀ t ∈ (all.reverse ++ [(⟨.finish, placeBehind cs⟩ : Token)]).head?, t.lexeme ≠ .dedent := by
  intro t ht
  obtain ⟨brackets, htidy⟩ := h.tidy
  cases hlast : all.getLast? with
  | none =>
    rw [List.getLast?_eq_none_iff.mp hlast] at ht
    cases ht
    nofun
  | some first =>
    have hfirst := htidy.first_ne_dedent hlast
    rw [List.head?_append, List.head?_reverse, hlast] at ht
    cases ht
    exact hfirst

theorem ordered (h : Ended cs emitted extra blocks all) :
    (emitted.reverse ++ (extra.reverse ++ closing cs blocks)).Pairwise
      (fun t u => t.position ≤ u.position) := by
  obtain ⟨brackets, hlaid⟩ := h.laid
  refine List.pairwise_append.mpr ⟨List.pairwise_reverse.mpr hlaid.pairwise, ?_, ?_⟩
  · refine List.pairwise_of_forall_mem_list fun t ht u hu => ?_
    rw [(h.ending_place t ht).2, (h.ending_place u hu).2]
    exact Position.le_refl _
  · intro t ht u hu
    rw [(h.ending_place u hu).2]
    exact hlaid.le t (List.mem_reverse.mp ht)

theorem protocol (h : Ended cs emitted extra blocks all) :
    Protocol cs emitted.reverse (extra.reverse ++ closing cs blocks) := by
  obtain ⟨brackets, hlaid⟩ := h.laid
  obtain ⟨_, htidy⟩ := h.tidy
  have hcount := htidy.count_indent
  have hfinish := htidy.count_finish
  constructor
  case laid => exact ⟨brackets, by rwa [List.reverse_reverse]⟩
  case ends =>
    rw [h.tokens_eq]
    exact h.ends
  case ending_place => exact h.ending_place
  case finish =>
    rw [h.tokens_eq]
    simp [hfinish]
  case opened =>
    rw [h.tokens_eq]
    exact fun before => h.count_le
  case closed =>
    rw [h.tokens_eq]
    simp [hcount]
  case adjacent =>
    rw [h.tokens_eq, ← List.reverse_cons, List.isChain_reverse]
    exact h.isChain
  case first =>
    rw [h.tokens_eq]
    exact h.head_ne_dedent
  case joined =>
    intro before t hinitial ht
    rw [← List.reverse_reverse (before ++ [t]), List.reverse_prefix, List.reverse_concat] at hinitial
    have hopen := hlaid.openBrackets_eq_zero hinitial ht
    rwa [List.reverse_reverse] at hopen
  case ordered => exact h.ordered

end Ended

/-- **The protocol of tokens.** The tokens of any text lay it out and keep to the protocol: lines end,
    blocks open and close between lines and each of them closes, there is no layout in brackets, and
    every token has its place. -/
theorem tokenize_protocol {source : String} {tokens : List Token}
    (h : tokenize source = .ok tokens) :
    ∃ body ending, tokens = body ++ ending ∧ Protocol source.toList body ending := by
  obtain ⟨s, hrun, hclose⟩ := ok_of_bind h
  obtain ⟨t, hsettle, rfl⟩ := Scanner.settle_of_close hclose
  have hstart : Scanner.start.Reads [] := ⟨[], [], rfl, .nil, rfl⟩
  obtain ⟨hreads, hnext⟩ := hstart.run rfl Scanner.tidied_start hrun
  obtain ⟨hlaid, hplace⟩ := Scanner.laid_settle hreads hsettle
  rw [List.nil_append] at hlaid hnext
  have htidied := Scanner.tidied_start.run source.toList s hrun
  have htidy := (htidied.orderly.settle hsettle).ended.1
  obtain ⟨extra, hended, hextra⟩ := t.exists_ended
  have hend : t.next = placeBehind source.toList := hplace.trans hnext
  rw [hended, hend] at htidy
  rw [hend] at hextra
  have hprotocol := (Ended.mk ⟨_, hlaid⟩ hextra rfl ⟨_, htidy⟩).protocol
  refine ⟨_, _, ?_, hprotocol⟩
  rw [Scanner.tokens, hended, hend, closing]
  simp

/-- A block with a condition on two lines, an empty line, and two literals that are one. -/
def blockText : List Char := "if (a\n  or b):\n\n    x = r'c' 'd'\n".toList

theorem tokenize_protocol_block :
    ∃ tokens, tokenize (.ofList blockText) = .ok tokens ∧ tokens.length = 15 ∧
      ∃ body ending, tokens = body ++ ending ∧
        Protocol (String.ofList blockText).toList body ending := by
  have hruns : (tokenize (.ofList blockText)).toOption.any (fun tokens => tokens.length == 15) =
      true := by
    unfold tokenize
    rw [String.toList_ofList]
    decide
  cases htokens : tokenize (.ofList blockText) with
  | error e =>
    rw [htokens] at hruns
    cases hruns
  | ok tokens =>
    rw [htokens] at hruns
    exact ⟨tokens, rfl, beq_iff_eq.mp hruns, tokenize_protocol htokens⟩

end Monorepo.Script
