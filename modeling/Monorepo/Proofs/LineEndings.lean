import Monorepo.Proofs.Protocol
import Monorepo.Proofs.Relocation

/-!
# Line endings

A carriage return in front of a line break is a blank: in a margin, between two tokens and in a
comment the scanner passes over it, and whatever else is begun ends in front of it as it would in
front of the line break. So a text reads the same, columns apart, with carriage returns in front of
its line breaks. There are two exceptions. In a literal a carriage return is a character of its own.
And a backslash joins two lines only if the line break stands right behind it: with a carriage
return in between it is refused.
-/

namespace Monorepo.Script

/-- A text with a carriage return in front of every line break. -/
def withReturns (cs : List Char) : List Char :=
  cs.flatMap fun c => if c = '\n' then ['\r', '\n'] else [c]

/-- The tokens of a text with their lines, or its fault with its line: columns are left out. -/
def onLines : Except SyntaxError (List Token) → Except (Nat × SyntaxFault) (List (Lexeme × Nat))
  | .ok tokens => .ok (tokens.map fun t => (t.lexeme, t.position.line))
  | .error e => .error (e.position.line, e.fault)

/-- The literal that is begun and not closed. -/
def Mode.literal? : Mode → Option Literal
  | .opened l | .short l _ | .shortEscape l _ | .long l _ _ | .longEscape l _ => some l
  | _ => none

/-- Whether a backslash was read that is in no literal and no comment. -/
def Mode.isBackslash : Mode → Bool
  | .pending _ first => first == '\\'
  | _ => false

/-- Whether the quote that a literal ends with is one. -/
def Mode.Quoted : Mode → Prop
  | .opened l | .openedTwice l | .short l _ | .shortEscape l _ | .long l _ _ | .longEscape l _ =>
    l.quote = '"' ∨ l.quote = '\''
  | _ => True

theorem Mode.Quoted.literal {mode : Mode} (h : mode.Quoted) {l : Literal}
    (hl : mode.literal? = some l) : l.quote = '"' ∨ l.quote = '\'' := by
  cases mode with
  | opened _ | short _ _ | shortEscape _ _ | long _ _ _ | longEscape _ _ =>
    cases hl
    exact h
  | _ => cases hl

theorem newline_ne_quote {l : Literal} (hquote : l.quote = '"' ∨ l.quote = '\'') :
    '\n' ≠ l.quote := by
  rcases hquote with hquote | hquote
  · rw [hquote]
    decide
  · rw [hquote]
    decide

theorem return_ne_quote {l : Literal} (hquote : l.quote = '"' ∨ l.quote = '\'') :
    '\r' ≠ l.quote := by
  rcases hquote with hquote | hquote
  · rw [hquote]
    decide
  · rw [hquote]
    decide

theorem withReturns_newline (cs : List Char) :
    withReturns ('\n' :: cs) = ['\r', '\n'] ++ withReturns cs := rfl

theorem withReturns_cons {c : Char} (hc : c ≠ '\n') (cs : List Char) :
    withReturns (c :: cs) = c :: withReturns cs := by
  unfold withReturns
  rw [List.flatMap_cons, if_neg hc]
  rfl

namespace Scanner

variable {s t u : Scanner} {cs before : List Char}

theorem quoted_of_run (h : start.run before = .ok s) : s.mode.Quoted := by
  have hstart : start.Reads [] := ⟨[], [], rfl, .nil, rfl⟩
  obtain ⟨⟨done, begun, -, -, hbegins⟩, -⟩ := hstart.run rfl tidied_start h
  cases hmode : s.mode with
  | opened l | openedTwice l =>
    rw [hmode] at hbegins
    obtain ⟨marks, hl, -⟩ := hbegins
    exact hl.quote
  | short l reversed | shortEscape l reversed | long l closing reversed | longEscape l reversed =>
    rw [hmode] at hbegins
    obtain ⟨marks, written, hl, -⟩ := hbegins
    exact hl.quote
  | _ => trivial

/-! ## Columns do not matter -/

/-- A result with no columns to tell apart. -/
def blurred : Except SyntaxError Scanner → Except SyntaxError Scanner
  | .ok s => .ok (s.relocated Position.margin [])
  | .error e => .error (e.relocated Position.margin)

/-- Two scanners that differ in columns only. -/
def SameLines (s t : Scanner) : Prop :=
  s.relocated Position.margin [] = t.relocated Position.margin []

theorem eq_blurred {result result' : Except SyntaxError Scanner}
    (h : Relocates Position.margin [] result result') : result' = blurred result := by
  cases h with
  | ok s => rfl
  | error e => rfl

theorem SameLines.react (h : SameLines s t) (c : Char) :
    blurred (s.react c) = blurred (t.react c) := by
  have hs : (s.relocated Position.margin []).react c = blurred (s.react c) :=
    eq_blurred (relocates_react (f := Position.margin) closes_nil rfl c)
  have ht : (t.relocated Position.margin []).react c = blurred (t.react c) :=
    eq_blurred (relocates_react (f := Position.margin) closes_nil rfl c)
  rw [← hs, ← ht, h]

theorem onLines_close_relocated (s : Scanner) :
    onLines (s.relocated Position.margin []).close = onLines s.close := by
  rw [close_relocated]
  cases s.close with
  | ok tokens =>
    refine congrArg Except.ok ?_
    rw [List.map_map]
    rfl
  | error e => rfl

theorem SameLines.close (h : SameLines s t) : onLines s.close = onLines t.close := by
  rw [← onLines_close_relocated s, ← onLines_close_relocated t, h]

/-- Two results that differ in columns only. -/
theorem of_blurred {result result' : Except SyntaxError Scanner}
    (h : blurred result = blurred result') :
    (∃ s t, result = .ok s ∧ result' = .ok t ∧ SameLines s t) ∨
      ∃ e e', result = .error e ∧ result' = .error e' ∧
        e.relocated Position.margin = e'.relocated Position.margin := by
  cases result with
  | ok s =>
    cases result' with
    | ok t => exact Or.inl ⟨s, t, rfl, rfl, Except.ok.inj h⟩
    | error e => cases h
  | error e =>
    cases result' with
    | ok t => cases h
    | error e' => exact Or.inr ⟨e, e', rfl, rfl, Except.error.inj h⟩

theorem SameLines.step (h : SameLines s t) (c : Char) :
    blurred (s.step c) = blurred (t.step c) := by
  have hnext : s.next.line = t.next.line :=
    congrArg (fun scanner => scanner.next.line) h
  have hafter : (s.next.after c).margin = (t.next.after c).margin := by
    unfold Position.after Position.margin
    split
    · rw [hnext]
    · rw [hnext]
  unfold Scanner.step
  rcases of_blurred (h.react c) with ⟨s', t', hs, ht, hlike⟩ | ⟨e, e', hs, ht, he⟩
  · rw [hs, ht]
    show Except.ok { s'.relocated Position.margin [] with next := (s.next.after c).margin } =
      Except.ok { t'.relocated Position.margin [] with next := (t.next.after c).margin }
    rw [hlike, hafter]
  · rw [hs, ht]
    exact congrArg Except.error he

theorem SameLines.run (h : SameLines s t) (cs : List Char) :
    blurred (s.run cs) = blurred (t.run cs) := by
  induction cs generalizing s t with
  | nil => exact congrArg Except.ok h
  | cons c cs ih =>
    show blurred ((s.step c).bind _) = blurred ((t.step c).bind _)
    rcases of_blurred (h.step c) with ⟨s', t', hs, ht, hlike⟩ | ⟨e, e', hs, ht, he⟩
    · rw [hs, ht]
      exact ih hlike
    · rw [hs, ht]
      exact congrArg Except.error he

theorem line_fault_eq {e e' : SyntaxError}
    (h : e.relocated Position.margin = e'.relocated Position.margin) :
    (e.position.line, e.fault) = (e'.position.line, e'.fault) := by
  have hpair := congrArg (fun error : SyntaxError => (error.position.line, error.fault)) h
  exact hpair

theorem onLines_of_blurred {result result' : Except SyntaxError Scanner}
    (h : blurred result = blurred result') :
    onLines (result.bind close) = onLines (result'.bind close) := by
  rcases of_blurred h with ⟨s, t, rfl, rfl, hlike⟩ | ⟨e, e', rfl, rfl, he⟩
  · exact hlike.close
  · exact congrArg Except.error (line_fault_eq he)

/-! ## A carriage return in front of a line break -/

theorem next_of_settle (h : s.settle = .ok t) : t.next = s.next := by
  unfold settle at h
  split at h
  case h_5 =>
    split at h
    · cases h
      rfl
    · cases h
  case h_7 =>
    split at h
    · cases h
      rfl
    · cases h
  case h_8 =>
    cases h
    unfold emitText
    split
    · rfl
    · rfl
  all_goals
    cases h
    try rfl

/-- The scanner at another place of its line. -/
theorem sameLines_withNext (s : Scanner) (place : Position) (hline : place.line = s.next.line) :
    SameLines { s with next := place } s := by
  have hmargin : place.margin = s.next.margin := by
    unfold Position.margin
    rw [hline]
  exact congrArg (fun place => { s.relocated Position.margin [] with next := place }) hmargin

/-- A carriage return that is passed over. -/
theorem blurred_run_of_passed (h : s.react '\r' = .ok s) :
    blurred (s.run ['\r', '\n']) = blurred (s.run ['\n']) := by
  rw [run_cons (step_of_react h)]
  exact (sameLines_withNext s (s.next.after '\r') rfl).run ['\n']

/-- A carriage return between two tokens is a blank. -/
theorem blurred_run_of_restart (hreturn : s.react '\r' = s.restart '\r')
    (hbreak : s.react '\n' = s.restart '\n') :
    blurred (s.run ['\r', '\n']) = blurred (s.run ['\n']) := by
  unfold restart at hreturn hbreak
  cases hsettle : s.settle with
  | error e =>
    rw [hsettle] at hreturn hbreak
    have hfirst : s.step '\r' = .error e := by
      unfold step
      rw [hreturn]
      rfl
    have hsecond : s.step '\n' = .error e := by
      unfold step
      rw [hbreak]
      rfl
    show blurred ((s.step '\r').bind _) = blurred ((s.step '\n').bind _)
    rw [hfirst, hsecond]
    rfl
  | ok settled =>
    rw [hsettle] at hreturn hbreak
    have hblank : s.react '\r' = .ok { settled with mode := .between } := hreturn
    have hnext : settled.next = s.next := next_of_settle hsettle
    have hsame : ({ settled with mode := .between } : Scanner).step '\n' = s.step '\n' := by
      unfold step
      rw [hbreak, ← hnext]
      rfl
    rw [run_cons (step_of_react hblank)]
    have hlike : SameLines { settled with mode := .between, next := s.next.after '\r' }
        { settled with mode := .between } :=
      sameLines_withNext { settled with mode := .between } (s.next.after '\r')
        (congrArg Position.line hnext).symm
    rw [hlike.run ['\n']]
    show blurred ((step _ '\n').bind _) = blurred ((s.step '\n').bind _)
    rw [hsame]

theorem twoMark_return (first : Char) : twoMark first '\r' = none := by
  unfold twoMark
  split <;> simp_all

/-- Where no literal is begun and no backslash was read, a carriage return in front of a line break
    makes no difference. -/
theorem blurred_run_return (hquoted : s.mode.Quoted) (hliteral : s.mode.literal? = none)
    (hjoined : s.mode.isBackslash = false) :
    blurred (s.run ['\r', '\n']) = blurred (s.run ['\n']) := by
  obtain ⟨mode, next, widths, brackets, emitted⟩ := s
  cases mode with
  | margin width => exact blurred_run_of_passed rfl
  | marginComment => exact blurred_run_of_passed rfl
  | comment => exact blurred_run_of_passed rfl
  | between => exact blurred_run_of_restart rfl rfl
  | pending place first =>
    have hfirst : first ≠ '\\' := by
      rintro rfl
      cases hjoined
    have hrestart {c : Char} (hbreak : ¬ (first = '\\' ∧ c = '\n'))
        (hdigit : ¬ c.isDigit = true) (hpair : twoMark first c = none) :
        (⟨.pending place first, next, widths, brackets, emitted⟩ : Scanner).react c =
          restart ⟨.pending place first, next, widths, brackets, emitted⟩ c := by
      unfold react
      dsimp only
      rw [if_neg hbreak, if_neg fun hboth => hdigit hboth.2, hpair]
    have hnever {c : Char} : ¬ (first = '\\' ∧ c = '\n') := fun hboth => hfirst hboth.1
    exact blurred_run_of_restart (hrestart hnever (by decide) (twoMark_return first))
      (hrestart hnever (by decide) (twoMark_newline first))
  | name place reversed => exact blurred_run_of_restart rfl rfl
  | number place reversed => exact blurred_run_of_restart rfl rfl
  | openedTwice l =>
    have hreturn := return_ne_quote hquoted
    have hbreak := newline_ne_quote hquoted
    exact blurred_run_of_restart (if_neg hreturn) (if_neg hbreak)
  | opened l | short l reversed | shortEscape l reversed | long l closing reversed
  | longEscape l reversed => cases hliteral

/-! ## Line breaks in literals -/

/-- No end of the literal that is begun is read. -/
def Unclosed (s : Scanner) (cs : List Char) : Prop :=
  ∀ front t, front <+: cs → s.run front = .ok t → t.mode.literal? ≠ none

theorem Unclosed.tail {c : Char} (h : s.Unclosed (c :: cs)) (hstep : s.step c = .ok t) :
    t.Unclosed cs := by
  intro front u hpart hrun
  apply h (c :: front) u (List.cons_prefix_cons.mpr ⟨rfl, hpart⟩)
  rw [run_cons hstep]
  exact hrun

theorem close_literal {l : Literal} (h : s.mode.literal? = some l) :
    s.close = .error ⟨l.start, .unterminatedText⟩ := by
  have hsettle : s.settle = .error ⟨l.start, .unterminatedText⟩ := by
    unfold settle
    cases hmode : s.mode with
    | opened l' | short l' _ | shortEscape l' _ | long l' _ _ | longEscape l' _ =>
      rw [hmode] at h
      cases h
      rfl
    | _ =>
      rw [hmode] at h
      cases h
  unfold close
  rw [hsettle]
  rfl

theorem literal_emitText (s : Scanner) (place : Position) (value : String) :
    (s.emitText place value).mode.literal? = none := by
  rw [emitText_mode]
  rfl

theorem literal_stepShort (s : Scanner) (l : Literal) (reversed : List Char) (c : Char) :
    (∃ t, s.stepShort l reversed c = .ok t ∧
      (t.mode.literal? = some l ∨ t.mode.literal? = none)) ∨
    s.stepShort l reversed c = .error ⟨l.start, .unterminatedText⟩ := by
  unfold stepShort
  split
  · exact Or.inl ⟨_, rfl, Or.inr (literal_emitText s _ _)⟩
  split
  · exact Or.inr rfl
  split
  · exact Or.inl ⟨_, rfl, Or.inl rfl⟩
  · exact Or.inl ⟨_, rfl, Or.inl rfl⟩

/-- A literal that is begun goes on, ends, or is refused where it began. -/
theorem literal_react {l : Literal} (h : s.mode.literal? = some l) (c : Char) :
    (∃ t, s.react c = .ok t ∧ (t.mode.literal? = some l ∨ t.mode.literal? = none)) ∨
    s.react c = .error ⟨l.start, .unterminatedText⟩ := by
  obtain ⟨mode, next, widths, brackets, emitted⟩ := s
  cases mode with
  | opened l' =>
    cases h
    unfold react
    dsimp only
    split
    · exact Or.inl ⟨_, rfl, Or.inr rfl⟩
    · exact literal_stepShort _ l [] c
  | short l' reversed =>
    cases h
    exact literal_stepShort _ l reversed c
  | shortEscape l' reversed =>
    cases h
    exact Or.inl ⟨_, rfl, Or.inl rfl⟩
  | long l' closing reversed =>
    cases h
    refine Or.inl ⟨_, rfl, ?_⟩
    unfold stepLong
    dsimp only
    split
    · split
      · exact Or.inr (literal_emitText _ _ _)
      · exact Or.inl rfl
    · split
      · exact Or.inl rfl
      · exact Or.inl rfl
  | longEscape l' reversed =>
    cases h
    exact Or.inl ⟨_, rfl, Or.inl rfl⟩
  | _ => cases h

/-- A literal that is never closed is refused where it began. -/
theorem fault_of_unclosed {l : Literal} (h : s.mode.literal? = some l) (hopen : s.Unclosed cs) :
    (s.run cs).bind close = .error ⟨l.start, .unterminatedText⟩ := by
  induction cs generalizing s with
  | nil => exact close_literal h
  | cons c cs ih =>
    rcases literal_react h c with ⟨t, hreact, hliteral⟩ | hreact
    · have hstep : s.step c = .ok { t with next := s.next.after c } := step_of_react hreact
      have hgoes : t.mode.literal? ≠ none :=
        hopen [c] { t with next := s.next.after c }
          (List.cons_prefix_cons.mpr ⟨rfl, List.nil_prefix⟩) (run_cons hstep [])
      rw [run_cons hstep]
      exact ih (hliteral.resolve_right hgoes) (hopen.tail hstep)
    · have hstep : s.step c = .error ⟨l.start, .unterminatedText⟩ := by
        unfold step
        rw [hreact]
        rfl
      show ((s.step c).bind _).bind close = _
      rw [hstep]
      rfl

/-- Two modes inside the same long literal, whatever was read of it. -/
inductive SameLong (l : Literal) : Mode → Mode → Prop
  | plain (closing : Nat) (reversed reversed' : List Char) :
    SameLong l (.long l closing reversed) (.long l closing reversed')
  | escape (reversed reversed' : List Char) :
    SameLong l (.longEscape l reversed) (.longEscape l reversed')

theorem SameLong.literal {l : Literal} {mode mode' : Mode} (h : SameLong l mode mode') :
    mode'.literal? = some l := by
  cases h with
  | plain _ _ _ => rfl
  | escape _ _ => rfl

theorem SameLong.step {l : Literal} (h : SameLong l s.mode t.mode) {c : Char}
    (hopen : s.Unclosed (c :: cs)) :
    ∃ s' t', s.step c = .ok s' ∧ t.step c = .ok t' ∧ SameLong l s'.mode t'.mode := by
  obtain ⟨mode, next, widths, brackets, emitted⟩ := s
  obtain ⟨mode', next', widths', brackets', emitted'⟩ := t
  cases h with
  | plain closing reversed reversed' =>
    refine ⟨_, _, rfl, rfl, ?_⟩
    have hgoes := hopen [c] _ (List.cons_prefix_cons.mpr ⟨rfl, List.nil_prefix⟩) rfl
    show SameLong l (stepLong _ l closing reversed c).mode (stepLong _ l closing reversed' c).mode
    unfold stepLong
    dsimp only
    by_cases hquote : c = l.quote
    · rw [if_pos hquote, if_pos hquote]
      by_cases hlast : closing = 2
      · exfalso
        apply hgoes
        show (stepLong _ l closing reversed c).mode.literal? = none
        unfold stepLong
        dsimp only
        rw [if_pos hquote, if_pos hlast]
        exact literal_emitText _ _ _
      · rw [if_neg hlast, if_neg hlast]
        exact .plain _ _ _
    · rw [if_neg hquote, if_neg hquote]
      by_cases hescape : c = '\\'
      · rw [if_pos hescape, if_pos hescape]
        exact .escape _ _
      · rw [if_neg hescape, if_neg hescape]
        exact .plain _ _ _
  | escape reversed reversed' => exact ⟨_, _, rfl, rfl, .plain _ _ _⟩

/-- In a long literal a character that is no quote and no backslash goes on with it. -/
theorem SameLong.exists_step {l : Literal} {mode : Mode} (h : SameLong l mode s.mode) {c : Char}
    (hquote : c ≠ l.quote) (hescape : c ≠ '\\') :
    ∃ t reversed, s.step c = .ok t ∧ t.mode = .long l 0 reversed := by
  obtain ⟨mode', next, widths, brackets, emitted⟩ := s
  cases h with
  | plain closing _ reversed =>
    refine ⟨_, c :: (List.replicate closing l.quote ++ reversed), rfl, ?_⟩
    show (stepLong _ l closing reversed c).mode = _
    unfold stepLong
    dsimp only
    rw [if_neg hquote, if_neg hescape]
  | escape _ reversed => exact ⟨_, l.escaped c ++ reversed, rfl, rfl⟩

theorem SameLong.symm {l : Literal} {mode mode' : Mode} (h : SameLong l mode mode') :
    SameLong l mode' mode := by
  cases h with
  | plain closing reversed reversed' => exact .plain closing reversed' reversed
  | escape reversed reversed' => exact .escape reversed' reversed

/-- A line break, and one behind a carriage return, inside the same long literal. -/
theorem SameLong.newline {l : Literal} (hquote : l.quote = '"' ∨ l.quote = '\'')
    (h : SameLong l s.mode t.mode) :
    ∃ s' t', s.step '\n' = .ok s' ∧ t.run ['\r', '\n'] = .ok t' ∧
      SameLong l s'.mode t'.mode := by
  have hbreak := newline_ne_quote hquote
  have hreturn := return_ne_quote hquote
  obtain ⟨s', reversed, hs, hmode⟩ := h.symm.exists_step hbreak (by decide)
  obtain ⟨t₁, reversed₁, ht₁, hmode₁⟩ := h.exists_step hreturn (by decide)
  have hlong : SameLong l t₁.mode t₁.mode := by
    rw [hmode₁]
    exact .plain 0 reversed₁ reversed₁
  obtain ⟨t', reversed', ht', hmode'⟩ := hlong.exists_step hbreak (by decide)
  refine ⟨s', t', hs, ?_, ?_⟩
  · rw [run_cons ht₁]
    exact run_cons ht' []
  · rw [hmode, hmode']
    exact .plain 0 reversed reversed'

/-- A long literal that is never closed is not closed behind carriage returns either. -/
theorem fault_of_sameLong {l : Literal} (hquote : l.quote = '"' ∨ l.quote = '\'')
    (h : SameLong l s.mode t.mode) (hopen : s.Unclosed cs) :
    (t.run (withReturns cs)).bind close = .error ⟨l.start, .unterminatedText⟩ := by
  induction cs generalizing s t with
  | nil => exact close_literal h.literal
  | cons c cs ih =>
    by_cases hc : c = '\n'
    · subst hc
      obtain ⟨s', t', hs, ht, hsame⟩ := h.newline hquote
      rw [withReturns_newline, run_append_ok ht]
      exact ih hsame (hopen.tail hs)
    · obtain ⟨s', t', hs, ht, hsame⟩ := h.step hopen
      rw [withReturns_cons hc, run_cons ht]
      exact ih hsame (hopen.tail hs)

/-- What is begun of a literal is one that ends on its line, or a long one. -/
theorem literal_cases {l : Literal} (h : s.mode.literal? = some l) :
    (s.mode = .opened l ∨ ∃ reversed, s.mode = .short l reversed ∨
      s.mode = .shortEscape l reversed) ∨ SameLong l s.mode s.mode := by
  cases hmode : s.mode with
  | opened l' =>
    rw [hmode] at h
    cases h
    exact Or.inl (Or.inl rfl)
  | short l' reversed =>
    rw [hmode] at h
    cases h
    exact Or.inl (Or.inr ⟨reversed, Or.inl rfl⟩)
  | shortEscape l' reversed =>
    rw [hmode] at h
    cases h
    exact Or.inl (Or.inr ⟨reversed, Or.inr rfl⟩)
  | long l' closing reversed =>
    rw [hmode] at h
    cases h
    exact Or.inr (.plain closing reversed reversed)
  | longEscape l' reversed =>
    rw [hmode] at h
    cases h
    exact Or.inr (.escape reversed reversed)
  | _ =>
    rw [hmode] at h
    cases h

/-- A carriage return goes on with a literal that ends on its line. -/
theorem exists_step_short {l : Literal} (hquote : l.quote = '"' ∨ l.quote = '\'')
    (h : s.mode = .opened l ∨ ∃ reversed, s.mode = .short l reversed ∨
      s.mode = .shortEscape l reversed) :
    ∃ t reversed, s.step '\r' = .ok t ∧ t.mode = .short l reversed := by
  have hreturn := return_ne_quote hquote
  have hstay (s : Scanner) (reversed : List Char) : s.stepShort l reversed '\r' =
      .ok { s with mode := .short l ('\r' :: reversed) } := by
    unfold stepShort
    rw [if_neg hreturn, if_neg (by decide), if_neg (by decide)]
  have hreact : ∃ reversed, s.react '\r' = .ok { s with mode := .short l reversed } := by
    unfold react
    rcases h with hmode | ⟨reversed, hmode | hmode⟩
    · rw [hmode]
      dsimp only
      rw [if_neg hreturn]
      exact ⟨_, hstay s []⟩
    · rw [hmode]
      exact ⟨_, hstay s reversed⟩
    · rw [hmode]
      exact ⟨_, rfl⟩
  obtain ⟨reversed, hreact⟩ := hreact
  exact ⟨_, reversed, step_of_react hreact, rfl⟩

theorem step_short_newline {l : Literal} (hquote : l.quote = '"' ∨ l.quote = '\'')
    {reversed : List Char} (h : s.mode = .short l reversed) :
    s.step '\n' = .error ⟨l.start, .unterminatedText⟩ := by
  have hbreak := newline_ne_quote hquote
  unfold step react
  rw [h]
  dsimp only
  unfold stepShort
  rw [if_neg hbreak, if_pos rfl]
  rfl

/-- A literal that is not closed behind a line break is refused where it began, also behind a
    carriage return. -/
theorem fault_of_newline {l : Literal} (hquoted : s.mode.Quoted) (h : s.mode.literal? = some l)
    (hopen : s.Unclosed ('\n' :: cs)) :
    (s.run (withReturns ('\n' :: cs))).bind close = .error ⟨l.start, .unterminatedText⟩ := by
  have hquote := hquoted.literal h
  rcases literal_cases h with hmode | hmode
  · obtain ⟨t, reversed, hstep, hmode⟩ := exists_step_short hquote hmode
    have hfault := step_short_newline hquote hmode
    rw [withReturns_newline, List.cons_append, run_cons hstep]
    show ((t.step '\n').bind _).bind close = _
    rw [hfault]
    rfl
  · exact fault_of_sameLong hquote hmode hopen

/-! ## Texts with carriage returns -/

/-- A line break stands in a literal that is closed behind it. -/
def BreaksLiteral (s : Scanner) (cs : List Char) : Prop :=
  ∃ front rest t u, front ++ '\n' :: rest <+: cs ∧ s.run front = .ok t ∧
    t.mode.literal? ≠ none ∧ t.run ('\n' :: rest) = .ok u ∧ u.mode.literal? = none

/-- A line break stands behind a backslash that is in no literal and no comment. -/
def JoinsLines (s : Scanner) (cs : List Char) : Prop :=
  ∃ front rest t, cs = front ++ '\n' :: rest ∧ s.run front = .ok t ∧ t.mode.isBackslash = true

theorem BreaksLiteral.cons {c : Char} (hstep : s.step c = .ok t) (h : t.BreaksLiteral cs) :
    s.BreaksLiteral (c :: cs) := by
  obtain ⟨front, rest, u, v, hpart, hrun, hinside, hmore, houtside⟩ := h
  refine ⟨c :: front, rest, u, v, List.cons_prefix_cons.mpr ⟨rfl, hpart⟩, ?_, hinside, hmore,
    houtside⟩
  rw [run_cons hstep]
  exact hrun

theorem JoinsLines.cons {c : Char} (hstep : s.step c = .ok t) (h : t.JoinsLines cs) :
    s.JoinsLines (c :: cs) := by
  obtain ⟨front, rest, u, rfl, hrun, hmode⟩ := h
  refine ⟨c :: front, rest, u, rfl, ?_, hmode⟩
  rw [run_cons hstep]
  exact hrun

theorem unclosed_of_not_breaksLiteral (h : ¬ s.BreaksLiteral ('\n' :: cs))
    (hliteral : s.mode.literal? ≠ none) : s.Unclosed ('\n' :: cs) := by
  intro front t hpart hrun hclosed
  cases front with
  | nil =>
    cases hrun
    exact hliteral hclosed
  | cons c front =>
    obtain ⟨rfl, -⟩ := List.cons_prefix_cons.mp hpart
    exact h ⟨[], front, s, t, hpart, rfl, hliteral, hrun, hclosed⟩

theorem run_snoc {c : Char} (h : s.run before = .ok t) (hstep : t.step c = .ok u) :
    s.run (before ++ [c]) = .ok u := by
  rw [run_append_ok h]
  exact run_cons hstep []

/-- Where no literal is broken and no lines are joined, carriage returns in front of the line breaks
    make no difference. -/
theorem onLines_run_withReturns (hs : start.run before = .ok s) (hbreaks : ¬ s.BreaksLiteral cs)
    (hjoins : ¬ s.JoinsLines cs) :
    onLines ((s.run (withReturns cs)).bind close) = onLines ((s.run cs).bind close) := by
  induction cs generalizing s before with
  | nil => rfl
  | cons c cs ih =>
    have hnext {t : Scanner} (hstep : s.step c = .ok t) :
        onLines ((t.run (withReturns cs)).bind close) = onLines ((t.run cs).bind close) :=
      ih (run_snoc hs hstep) (fun h => hbreaks (h.cons hstep)) fun h => hjoins (h.cons hstep)
    by_cases hc : c = '\n'
    · subst hc
      cases hliteral : s.mode.literal? with
      | some l =>
        have hsome : s.mode.literal? ≠ none := by rw [hliteral]; nofun
        have hopen := unclosed_of_not_breaksLiteral hbreaks hsome
        rw [fault_of_newline (quoted_of_run hs) hliteral hopen, fault_of_unclosed hliteral hopen]
      | none =>
        have hplain : s.mode.isBackslash = false := by
          by_contra hmode
          exact hjoins ⟨[], cs, s, rfl, rfl, Bool.not_eq_false _ ▸ hmode⟩
        have hreturn := blurred_run_return (quoted_of_run hs) hliteral hplain
        rw [withReturns_newline, run_append, show '\n' :: cs = ['\n'] ++ cs from rfl, run_append]
        rcases of_blurred hreturn with ⟨t, t', ht, ht', hlike⟩ | ⟨e, e', he, he', heq⟩
        · have hstep : s.step '\n' = .ok t' := by
            obtain ⟨t'', hstep, hnil⟩ := ok_of_bind ht'
            cases hnil
            exact hstep
          rw [ht, ht']
          exact (onLines_of_blurred (hlike.run (withReturns cs))).trans (hnext hstep)
        · rw [he, he']
          exact congrArg Except.error (line_fault_eq heq)
    · rw [withReturns_cons hc]
      cases hstep : s.step c with
      | error e =>
        show onLines (((s.step c).bind _).bind close) = onLines (((s.step c).bind _).bind close)
        rw [hstep]
        rfl
      | ok t =>
        rw [run_cons hstep, run_cons hstep]
        exact hnext hstep

/-- Behind a backslash a carriage return is refused. -/
theorem step_return_of_isBackslash (h : s.mode.isBackslash = true) :
    ∃ place, s.step '\r' = .error ⟨place, .unexpectedCharacter '\\'⟩ := by
  obtain ⟨mode, next, widths, brackets, emitted⟩ := s
  cases mode with
  | pending place first =>
    obtain rfl : first = '\\' := beq_iff_eq.mp h
    exact ⟨place, rfl⟩
  | _ => cases h

/-- Where lines are joined and no literal is broken, the first backslash that joins two lines is
    refused in front of a carriage return. -/
theorem run_withReturns_of_joinsLines (hs : start.run before = .ok s)
    (hbreaks : ¬ s.BreaksLiteral cs) (hjoins : s.JoinsLines cs) :
    ∃ place, s.run (withReturns cs) = .error ⟨place, .unexpectedCharacter '\\'⟩ := by
  induction cs generalizing s before with
  | nil =>
    obtain ⟨front, rest, t, hsplit, -⟩ := hjoins
    cases front <;> cases hsplit
  | cons c cs ih =>
    by_cases hfirst : c = '\n' ∧ s.mode.isBackslash = true
    · obtain ⟨rfl, hmode⟩ := hfirst
      obtain ⟨place, hstep⟩ := step_return_of_isBackslash hmode
      refine ⟨place, ?_⟩
      show (s.step '\r').bind _ = _
      rw [hstep]
      rfl
    · -- The backslash stands behind the first character.
      obtain ⟨front, rest, u, hsplit, hrun, hmode⟩ := hjoins
      cases front with
      | nil =>
        cases hsplit
        cases hrun
        exact absurd ⟨rfl, hmode⟩ hfirst
      | cons c' front =>
        rw [List.cons_append] at hsplit
        obtain ⟨rfl, rfl⟩ := List.cons.inj hsplit
        obtain ⟨t, hstep, hrest⟩ := ok_of_bind hrun
        have hbreaks' : ¬ t.BreaksLiteral (front ++ '\n' :: rest) := fun h =>
          hbreaks (h.cons hstep)
        obtain ⟨place, hfault⟩ :=
          ih (run_snoc hs hstep) hbreaks' ⟨front, rest, u, rfl, hrest, hmode⟩
        by_cases hc : c = '\n'
        · subst hc
          have hplain : s.mode.isBackslash = false := by
            by_contra hbackslash
            exact hfirst ⟨rfl, Bool.not_eq_false _ ▸ hbackslash⟩
          have hliteral : s.mode.literal? = none := by
            by_contra hinside
            have hpart : '\n' :: front <+: '\n' :: (front ++ '\n' :: rest) :=
              List.prefix_append ('\n' :: front) ('\n' :: rest)
            refine hbreaks ⟨[], front, s, u, hpart, rfl, hinside, hrun, ?_⟩
            cases hu : u.mode with
            | pending _ _ => rfl
            | _ =>
              rw [hu] at hmode
              cases hmode
          have hreturn := blurred_run_return (quoted_of_run hs) hliteral hplain
          have hone : s.run ['\n'] = .ok t := run_cons hstep []
          rw [hone] at hreturn
          rcases of_blurred hreturn with ⟨t', _, ht', ht, hlike⟩ | ⟨e, e', he, he', -⟩
          · cases ht
            have hblurred := hlike.run (withReturns (front ++ '\n' :: rest))
            rw [hfault] at hblurred
            rw [withReturns_newline, run_append_ok ht']
            rcases of_blurred hblurred with ⟨v, v', hv, hv', -⟩ | ⟨e, e', he, he', heq⟩
            · cases hv'
            · cases he'
              refine ⟨e.position, he.trans ?_⟩
              have hsame : e.fault = .unexpectedCharacter '\\' :=
                congrArg SyntaxError.fault heq
              rw [← hsame]
          · cases he'
        · refine ⟨place, ?_⟩
          rw [withReturns_cons hc, run_cons hstep]
          exact hfault

end Scanner

/-- **Line endings do not matter**, except where they join lines. In a text no closed literal of
    which holds a line break, carriage returns in front of the line breaks change neither the tokens
    nor the fault, columns apart, if no line break stands behind a backslash; and if one does, the
    backslash is refused with a carriage return behind it. -/
theorem tokenize_withReturns {text : String}
    (hliterals : ¬ Scanner.start.BreaksLiteral text.toList) :
    (¬ Scanner.start.JoinsLines text.toList →
      onLines (tokenize (.ofList (withReturns text.toList))) = onLines (tokenize text)) ∧
    (Scanner.start.JoinsLines text.toList →
      ∃ place, tokenize (.ofList (withReturns text.toList)) =
        .error ⟨place, .unexpectedCharacter '\\'⟩) := by
  have hstart : Scanner.start.run [] = .ok Scanner.start := rfl
  unfold tokenize
  rw [String.toList_ofList]
  constructor
  · intro hjoins
    exact Scanner.onLines_run_withReturns hstart hliterals hjoins
  · intro hjoins
    obtain ⟨place, hfault⟩ := Scanner.run_withReturns_of_joinsLines hstart hliterals hjoins
    refine ⟨place, ?_⟩
    rw [hfault]
    rfl

namespace Scanner

/-- Whether all line breaks that are read are read in modes of a kind. -/
def allBreaks (kind : Mode → Bool) : Scanner → List Char → Bool
  | _, [] => true
  | s, c :: cs => (c != '\n' || kind s.mode) && match s.step c with
    | .ok t => allBreaks kind t cs
    | .error _ => true

theorem allBreaks_sound {kind : Mode → Bool} {s t : Scanner} {front rest : List Char}
    (h : allBreaks kind s (front ++ '\n' :: rest) = true) (hrun : s.run front = .ok t) :
    kind t.mode = true := by
  induction front generalizing s with
  | nil =>
    cases hrun
    simp only [List.nil_append, allBreaks, Bool.and_eq_true] at h
    simpa using h.1
  | cons c front ih =>
    obtain ⟨mid, hstep, hrest⟩ := ok_of_bind hrun
    simp only [List.cons_append, allBreaks, hstep, Bool.and_eq_true] at h
    exact ih h.2 hrest

theorem not_breaksLiteral_of_allBreaks {s : Scanner} {cs : List Char}
    (h : allBreaks (·.literal?.isNone) s cs = true) : ¬ s.BreaksLiteral cs := by
  rintro ⟨front, rest, t, u, ⟨more, rfl⟩, hrun, hinside, -, -⟩
  rw [List.append_assoc] at h
  exact hinside (Option.isNone_iff_eq_none.mp (allBreaks_sound h hrun))

theorem not_joinsLines_of_allBreaks {s : Scanner} {cs : List Char}
    (h : allBreaks (!·.isBackslash) s cs = true) : ¬ s.JoinsLines cs := by
  rintro ⟨front, rest, t, rfl, hrun, hmode⟩
  have hplain := allBreaks_sound h hrun
  rw [hmode] at hplain
  cases hplain

end Scanner

/-- A call over two lines with a comment that ends in a backslash behind it, and a block. -/
def mixedText : String :=
  .ofList ['f', '(', '\'', 'a', '\'', ',', '\n', ')', '#', '\\', '\n', 'i', 'f', ' ', 'c', ':',
    '\n', '\t', 'd', '\n']

theorem tokenize_withReturns_mixed :
    ¬ Scanner.start.BreaksLiteral mixedText.toList ∧
    ¬ Scanner.start.JoinsLines mixedText.toList ∧
    onLines (tokenize (.ofList (withReturns mixedText.toList))) = onLines (tokenize mixedText) ∧
    (onLines (tokenize mixedText)).map (·.map Prod.snd) =
      .ok [1, 1, 1, 1, 2, 2, 3, 3, 3, 3, 4, 4, 4, 5, 5] := by
  have hbreaks : ¬ Scanner.start.BreaksLiteral mixedText.toList := by
    unfold mixedText
    rw [String.toList_ofList]
    exact Scanner.not_breaksLiteral_of_allBreaks (by decide +kernel)
  have hjoins : ¬ Scanner.start.JoinsLines mixedText.toList := by
    unfold mixedText
    rw [String.toList_ofList]
    exact Scanner.not_joinsLines_of_allBreaks (by decide +kernel)
  exact ⟨hbreaks, hjoins, (tokenize_withReturns hbreaks).1 hjoins, by decide +kernel⟩

/-- An assignment that goes on behind a backslash. -/
def joinedText : String := .ofList ['a', '=', '1', '+', '\\', '\n', '2', '\n']

/-- A text with joined lines and without literals, which is refused with carriage returns only. -/
theorem tokenize_withReturns_joined :
    '\r' ∉ joinedText.toList ∧ ¬ Scanner.start.BreaksLiteral joinedText.toList ∧
    (tokenize joinedText).toBool = true ∧
    tokenize (.ofList (withReturns joinedText.toList)) =
      .error ⟨⟨1, 5⟩, .unexpectedCharacter '\\'⟩ := by
  refine ⟨?_, ?_, by decide +kernel, ?_⟩
  · rw [joinedText, String.toList_ofList]
    decide
  · rw [joinedText, String.toList_ofList]
    exact Scanner.not_breaksLiteral_of_allBreaks (by decide +kernel)
  · rw [joinedText, String.toList_ofList]
    decide +kernel

end Monorepo.Script
