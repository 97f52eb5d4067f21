import Monorepo.Proofs.Lines
import Monorepo.Proofs.Literals

/-!
# The tokens of written values

A written value is scanned as the tokens of its literal. Its parts are scanned one after another:
each leaves its own tokens, and behind it the scanner stands between two tokens as far as commas,
colons and closing brackets are concerned. A text is a token of its own because none stands in front
of it.
-/

namespace Monorepo.Script

theorem map_lexeme_of_stands {tokens : List Token} {items : List Placed}
    (h : List.Forall₂ Token.Stands tokens items) :
    tokens.map Token.lexeme = items.map Prod.fst := by
  induction h with
  | nil => rfl
  | cons hstands _ ih => rw [List.map_cons, List.map_cons, hstands.1, ih]

/-! ## Digits -/

/-- Whether characters are decimal digits. -/
def IsDigits (cs : List Char) : Prop := ∀ c ∈ cs, c.isDigit = true

theorem isDigits_toDigits (n : Nat) : IsDigits (Nat.toDigits 10 n) :=
  fun _ hc => Nat.isDigit_of_mem_toDigits (by decide) (by decide) hc

theorem IsDigits.not_mem {cs : List Char} (h : IsDigits cs) {c : Char} (hc : c.isDigit = false) :
    c ∉ cs := by
  intro hmem
  rw [h c hmem] at hc
  cases hc

theorem digitValue_of_isDigit {c : Char} (h : c.isDigit = true) :
    Decimal.digitValue 10 c = some (c.toNat - '0'.toNat) :=
  forall_isDigit (P := fun c => Decimal.digitValue 10 c = some (c.toNat - '0'.toNat)) (by decide) h

theorem toLower_of_isDigit {c : Char} (h : c.isDigit = true) : c.toLower = c :=
  forall_isDigit (P := fun c => c.toLower = c) (by decide) h

theorem appendDigits_of_isDigits {cs : List Char} (h : IsDigits cs) (n : Nat) :
    Decimal.appendDigits 10 n cs = some (Nat.ofDigitChars 10 cs n) := by
  induction cs generalizing n with
  | nil => rfl
  | cons c cs ih =>
    obtain ⟨hc, hcs⟩ := List.forall_mem_cons.mp h
    rw [Decimal.appendDigits, digitValue_of_isDigit hc, Option.bind_some, ih hcs,
      Nat.ofDigitChars_cons, Nat.mul_comm]

theorem readNat?_toDigits (n : Nat) : Decimal.readNat? 10 (Nat.toDigits 10 n) = some n := by
  have hvalue := appendDigits_of_isDigits (isDigits_toDigits n) 0
  rw [Nat.ofDigitChars_ten_toDigits] at hvalue
  cases hdigits : Nat.toDigits 10 n with
  | nil => exact absurd hdigits Nat.toDigits_ne_nil
  | cons c cs =>
    rw [hdigits] at hvalue
    exact hvalue

namespace Scanner

variable {s t u : Scanner} {lexemes more : List Lexeme} {cs ds : List Char}

/-! ## Between the parts of a text -/

/-- The characters in front of which a literal ends. -/
def EndsLiteral (c : Char) : Prop := c ∈ [',', ':', ')', ']', '}', '\n']

/-- What is under way in `s` ends in front of the characters that end a literal, and leaves `t`. -/
structure Rests (s t : Scanner) : Prop where
  settle : s.settle = .ok t
  step : ∀ c, EndsLiteral c → s.step c = t.stepAnew c

/-- From `s` to `t` the scanner has left tokens, and no open brackets or blocks. -/
structure Leaves (s t : Scanner) (lexemes : List Lexeme) : Prop where
  emitted : ∃ added : List Token, t.emitted = added.reverse ++ s.emitted ∧
    added.map Token.lexeme = lexemes
  widths : t.widths = s.widths
  brackets : t.brackets = s.brackets

/-- The last token is no text, so that a text behind it is a token of its own. -/
def Fresh (s : Scanner) : Prop := ∀ token ∈ s.emitted.head?, ∀ text, token.lexeme ≠ .text text

/-- Characters that are scanned as given tokens. -/
def Scans (cs : List Char) (lexemes : List Lexeme) : Prop :=
  ∀ s : Scanner, s.mode = .between → s.Fresh →
    ∃ s' t, s.run cs = .ok s' ∧ Rests s' t ∧ Leaves s t lexemes

theorem step_between (h : s.mode = .between) (c : Char) : s.step c = s.stepAnew c := by
  unfold step react
  rw [h]
  rfl

theorem rests_between (h : s.mode = .between) : Rests s s := by
  refine ⟨?_, fun c _ => step_between h c⟩
  unfold settle
  rw [h]

namespace Leaves

theorem nothing (hemitted : t.emitted = s.emitted) (hwidths : t.widths = s.widths)
    (hbrackets : t.brackets = s.brackets) : Leaves s t [] :=
  ⟨⟨[], hemitted, rfl⟩, hwidths, hbrackets⟩

theorem single {lexeme : Lexeme} {position : Position}
    (hemitted : t.emitted = ⟨lexeme, position⟩ :: s.emitted) (hwidths : t.widths = s.widths)
    (hbrackets : t.brackets = s.brackets) : Leaves s t [lexeme] :=
  ⟨⟨[⟨lexeme, position⟩], hemitted, rfl⟩, hwidths, hbrackets⟩

theorem trans (h : Leaves s t lexemes) (h' : Leaves t u more) :
    Leaves s u (lexemes ++ more) := by
  obtain ⟨added, hadded, rfl⟩ := h.emitted
  obtain ⟨added', hadded', rfl⟩ := h'.emitted
  refine ⟨⟨added ++ added', ?_, List.map_append⟩, h'.widths.trans h.widths,
    h'.brackets.trans h.brackets⟩
  rw [hadded', hadded, List.reverse_append, List.append_assoc]

end Leaves

/-- A part of a line without brackets leaves its token. -/
theorem OnLine.leaves {p : Piece} (h : OnLine s t [p])
    (hbrackets : p.brackets s.brackets = s.brackets) : Leaves s t [p.lexeme] := by
  obtain ⟨added, hadded, hstands⟩ := h.emitted
  exact ⟨⟨added, hadded, map_lexeme_of_stands hstands⟩, h.widths, h.brackets.trans hbrackets⟩

/-- A mark that one character stands for, which begins no other one. -/
theorem stepAnew_mark {c : Char} {m : Mark}
    (h : (c, m) ∈ [('(', Mark.leftParen), (')', .rightParen), ('[', .leftBracket),
      (']', .rightBracket), ('{', .leftBrace), ('}', .rightBrace), (',', .comma), (':', .colon)])
    (s : Scanner) :
    s.stepAnew c = .ok { s.emitMark s.next m with next := s.next.after c } := by
  have hbegin : s.begin c = .ok (s.emitMark s.next m) := by
    simp only [List.mem_cons, Prod.mk.injEq, List.not_mem_nil, or_false] at h
    rcases h with ⟨rfl, rfl⟩ | ⟨rfl, rfl⟩ | ⟨rfl, rfl⟩ | ⟨rfl, rfl⟩ | ⟨rfl, rfl⟩ | ⟨rfl, rfl⟩ |
      ⟨rfl, rfl⟩ | ⟨rfl, rfl⟩ <;> rfl
  rw [stepAnew, hbegin]
  rfl

namespace Scans

theorem nil : Scans [] [] :=
  fun s hmode _ => ⟨s, s, rfl, rests_between hmode, .nothing rfl rfl rfl⟩

/-- A comma or a colon behind something. -/
theorem mark {c : Char} {m : Mark} (hmark : c = ',' ∧ m = .comma ∨ c = ':' ∧ m = .colon)
    (h : Rests s t) :
    s.step c = .ok { t.emitMark t.next m with next := t.next.after c } ∧
      Leaves t { t.emitMark t.next m with next := t.next.after c } [.mark m] := by
  have hends : EndsLiteral c := by rcases hmark with ⟨rfl, -⟩ | ⟨rfl, -⟩ <;> simp [EndsLiteral]
  refine ⟨(h.step c hends).trans (stepAnew_mark ?_ t), ?_⟩
  · rcases hmark with ⟨rfl, rfl⟩ | ⟨rfl, rfl⟩ <;> simp
  · rcases hmark with ⟨rfl, rfl⟩ | ⟨rfl, rfl⟩ <;> exact .single rfl rfl rfl

/-- Two literals with a comma or a colon between them. -/
theorem link {c : Char} {m : Mark} (hmark : c = ',' ∧ m = .comma ∨ c = ':' ∧ m = .colon)
    (h : Scans cs lexemes) (h' : Scans ds more) :
    Scans (cs ++ c :: ' ' :: ds) (lexemes ++ .mark m :: more) := by
  intro s hmode hfresh
  obtain ⟨s₁, t₁, hrun₁, hrests₁, hleaves₁⟩ := h s hmode hfresh
  obtain ⟨hstep, hleaves₂⟩ := mark hmark hrests₁
  have hblank : step { t₁.emitMark t₁.next m with next := t₁.next.after c } ' ' =
      .ok { t₁.emitMark t₁.next m with next := (t₁.next.after c).after ' ' } := rfl
  obtain ⟨s₃, t₃, hrun₃, hrests₃, hleaves₃⟩ := h'
    { t₁.emitMark t₁.next m with next := (t₁.next.after c).after ' ' } rfl (by rintro _ ⟨⟩; nofun)
  refine ⟨s₃, t₃, ?_, hrests₃, ?_⟩
  · rw [run_append_ok hrun₁, run_cons hstep, run_cons hblank]
    exact hrun₃
  · have hmoved : Leaves { t₁.emitMark t₁.next m with next := t₁.next.after c }
        { t₁.emitMark t₁.next m with next := (t₁.next.after c).after ' ' } [] :=
      .nothing rfl rfl rfl
    exact hleaves₁.trans (hleaves₂.trans (hmoved.trans hleaves₃))

/-- A comma behind the last literal. -/
theorem trailing (h : Scans cs lexemes) : Scans (cs ++ [',']) (lexemes ++ [.mark .comma]) := by
  intro s hmode hfresh
  obtain ⟨s₁, t₁, hrun, hrests, hleaves⟩ := h s hmode hfresh
  obtain ⟨hstep, hcomma⟩ := mark (Or.inl ⟨rfl, rfl⟩) hrests
  exact ⟨_, _, (run_append_ok hrun _).trans (run_cons hstep []), rests_between rfl,
    hleaves.trans hcomma⟩

section Items

variable {α : Type} {items : List α} {F : α → List Char} {G : α → List Lexeme}

/-- Literals behind a first one, with commas between them. -/
theorem links (h : Scans cs lexemes) (hitems : ∀ a ∈ items, Scans (F a) (G a)) :
    Scans (cs ++ items.flatMap fun a => ',' :: ' ' :: F a)
      (lexemes ++ items.flatMap fun a => .mark .comma :: G a) := by
  induction items generalizing cs lexemes with
  | nil => simpa using h
  | cons a items ih =>
    obtain ⟨ha, hitems⟩ := List.forall_mem_cons.mp hitems
    have hlinks := ih (h.link (Or.inl ⟨rfl, rfl⟩) ha) hitems
    simpa using hlinks

theorem joined (h : ∀ a ∈ items, Scans (F a) (G a)) :
    Scans (Value.joined (items.map F)) (separated (items.map G)) := by
  cases items with
  | nil => exact nil
  | cons a items =>
    obtain ⟨ha, hitems⟩ := List.forall_mem_cons.mp h
    rw [List.map_cons, Value.joined, List.flatMap_map, List.map_cons, separated, List.flatMap_map]
    exact ha.links hitems

end Items

/-- Brackets around what is scanned. -/
theorem bracket {first last : Char} {opening closing : Mark}
    (hmarks : (first, opening, last, closing) ∈ [('(', Mark.leftParen, ')', Mark.rightParen),
      ('[', .leftBracket, ']', .rightBracket), ('{', .leftBrace, '}', .rightBrace)])
    (h : Scans cs lexemes) :
    Scans (first :: cs ++ [last]) (.mark opening :: lexemes ++ [.mark closing]) := by
  intro s hmode hfresh
  have hopen : s.step first =
      .ok { s.emitMark s.next opening with next := s.next.after first } := by
    rw [step_between hmode]
    refine stepAnew_mark ?_ s
    simp only [List.mem_cons, Prod.mk.injEq, List.not_mem_nil, or_false] at hmarks ⊢
    rcases hmarks with ⟨rfl, rfl, -⟩ | ⟨rfl, rfl, -⟩ | ⟨rfl, rfl, -⟩ <;> simp
  obtain ⟨s₂, t₂, hrun₂, hrests₂, hleaves₂⟩ := h
    { s.emitMark s.next opening with next := s.next.after first } rfl (by rintro _ ⟨⟩; nofun)
  have hclose : s₂.step last =
      .ok { t₂.emitMark t₂.next closing with next := t₂.next.after last } := by
    simp only [List.mem_cons, Prod.mk.injEq, List.not_mem_nil, or_false] at hmarks
    have hends : EndsLiteral last := by
      rcases hmarks with ⟨-, -, rfl, -⟩ | ⟨-, -, rfl, -⟩ | ⟨-, -, rfl, -⟩ <;> simp [EndsLiteral]
    rw [hrests₂.step last hends]
    refine stepAnew_mark ?_ t₂
    rcases hmarks with ⟨-, -, rfl, rfl⟩ | ⟨-, -, rfl, rfl⟩ | ⟨-, -, rfl, rfl⟩ <;> simp
  refine ⟨_, _, ?_, rests_between (s := { t₂.emitMark t₂.next closing with
    next := t₂.next.after last }) rfl, ?_⟩
  · rw [List.cons_append, run_cons hopen, run_append_ok hrun₂]
    exact run_cons hclose []
  · obtain ⟨added, hadded, rfl⟩ := hleaves₂.emitted
    refine ⟨⟨⟨.mark opening, s.next⟩ :: added ++ [⟨.mark closing, t₂.next⟩], ?_, ?_⟩,
      hleaves₂.widths, ?_⟩
    · change ⟨.mark closing, t₂.next⟩ :: t₂.emitted = _
      rw [hadded]
      simp [emitMark, emit]
    · simp
    · have hbrackets := hleaves₂.brackets
      simp only [List.mem_cons, Prod.mk.injEq, List.not_mem_nil, or_false] at hmarks
      rcases hmarks with ⟨-, rfl, -, rfl⟩ | ⟨-, rfl, -, rfl⟩ | ⟨-, rfl, -, rfl⟩
      all_goals
        change t₂.brackets - 1 = s.brackets
        rw [hbrackets]
        exact Nat.add_sub_cancel _ _

end Scans

/-! ## Names and numbers -/

theorem Scans.word (w : Word) : Scans w.text.toList [.name w.text] := by
  intro s hmode _
  obtain ⟨s', t, hrun, hread, hline⟩ := run_piece (s := s) (.word w) fun c _ => step_between hmode c
  refine ⟨s', t, hrun, ⟨hread.settle, fun c hc => hread.step c ?_⟩, hline.leaves rfl⟩
  show isWordChar c = false ∧ c ≠ '"' ∧ c ≠ '\''
  simp only [EndsLiteral, List.mem_cons, List.not_mem_nil, or_false] at hc
  rcases hc with rfl | rfl | rfl | rfl | rfl | rfl <;> decide

/-- Decimal digits, with any number of `l` behind them, spell an integer or nothing. -/
theorem readNumber?_digits {cs : List Char} (hcs : IsDigits cs) (k : Nat) :
    readNumber? (cs ++ List.replicate k 'l') =
      ((Decimal.readNat? 10 cs).filter (· ≤ Decimal.maxInt64.toNat)).map .int := by
  have hchars (c : Char) (hc : c ∈ cs ++ List.replicate k 'l') : c.isDigit = true ∨ c = 'l' :=
    (List.mem_append.mp hc).imp (hcs c) List.eq_of_mem_replicate
  have hnot {c : Char} (hdigit : c.isDigit = false) (hne : c ≠ 'l') :
      c ∉ cs ++ List.replicate k 'l' := by
    intro hmem
    rcases hchars c hmem with hc | hc
    · rw [hdigit] at hc
      cases hc
    · exact hne hc
  have hdigits :
      ((cs ++ List.replicate k 'l').reverse.dropWhile (· == 'l')).reverse = cs := by
    have hhead : cs.reverse.dropWhile (· == 'l') = cs.reverse := by
      cases hreverse : cs.reverse with
      | nil => rfl
      | cons c rest =>
        have hc : c ∈ cs := List.mem_reverse.mp (hreverse ▸ List.mem_cons_self)
        have hl : ¬ (c == 'l') = true := by
          intro heq
          rw [beq_iff_eq.mp heq] at hc
          exact hcs.not_mem (by decide) hc
        exact List.dropWhile_cons_of_neg hl
    rw [List.reverse_append, List.reverse_replicate,
      List.dropWhile_append_of_pos (by simp), hhead, List.reverse_reverse]
  have hfraction : ((cs ++ List.replicate k 'l').contains '.' ||
      (cs ++ List.replicate k 'l').contains 'e') = false := by
    rw [Bool.or_eq_false_iff]
    constructor
    · exact Bool.eq_false_iff.mpr fun hc =>
        hnot (by decide) (by decide) (List.contains_iff_mem.mp hc)
    · exact Bool.eq_false_iff.mpr fun hc =>
        hnot (by decide) (by decide) (List.contains_iff_mem.mp hc)
  generalize cs ++ List.replicate k 'l' = text at *
  have hsecond {first c : Char} {rest : List Char} (hdigit : c.isDigit = false) (hne : c ≠ 'l') :
      text ≠ first :: c :: rest := by
    rintro rfl
    exact hnot hdigit hne (List.mem_cons_of_mem _ List.mem_cons_self)
  unfold readNumber?
  dsimp only
  split
  · exact absurd rfl (hsecond (by decide) (by decide))
  · exact absurd rfl (hsecond (by decide) (by decide))
  · exact absurd rfl (hsecond (by decide) (by decide))
  · rw [hfraction, hdigits]
    rfl

/-- The digits of a number spell it. -/
theorem readNumber?_toDigits {n : Nat} (hn : n ≤ Decimal.maxInt64.toNat) :
    readNumber? (Nat.toDigits 10 n) = some (.int n) := by
  have hread := readNumber?_digits (isDigits_toDigits n) 0
  rw [List.replicate_zero, List.append_nil, readNat?_toDigits] at hread
  rw [hread, Option.filter_some, if_pos (decide_eq_true hn), Option.map_some]

theorem begin_digit {c : Char} (h : c.isDigit = true) (s : Scanner) :
    s.begin c = .ok { s with mode := .number s.next [c] } := by
  have hne {x : Char} (hx : x.isDigit = false) : c ≠ x := by
    rintro rfl
    rw [h] at hx
    cases hx
  have hblank : ¬ (c = ' ' ∨ c = '\t' ∨ c = '\r' ∨ c = '\x0c') := by
    rintro (rfl | rfl | rfl | rfl) <;> exact absurd h (by decide)
  have hquote : ¬ (c = '"' ∨ c = '\'') := by
    rintro (rfl | rfl) <;> exact absurd h (by decide)
  unfold begin
  rw [if_neg hblank, if_neg (hne (by decide)), if_neg (hne (by decide)), if_neg hquote, if_pos h]

/-- The scanner goes on with a number behind its first character, and drops the underscores. -/
theorem run_number_rest {position : Position} {reversed cs : List Char}
    (hmode : s.mode = .number position reversed)
    (hcs : ∀ c ∈ cs, c.isAlphanum = true ∨ c = '_') :
    s.run cs = .ok { s with
      mode := .number position ((cs.filter (· ≠ '_')).reverse ++ reversed),
      next := ⟨s.next.line, s.next.column + cs.length⟩ } := by
  induction cs generalizing s reversed with
  | nil =>
    obtain ⟨mode, next, widths, brackets, emitted⟩ := s
    cases hmode
    rfl
  | cons c cs ih =>
    obtain ⟨hc, hcs⟩ := List.forall_mem_cons.mp hcs
    have hgoes : continuesNumber reversed c = true := by
      rcases hc with hc | rfl
      · simp [continuesNumber, hc]
      · rfl
    have hnext : s.next.after c = ⟨s.next.line, s.next.column + 1⟩ := by
      have hbreak : c ≠ '\n' := by
        rintro rfl
        rcases hc with hc | hc <;> cases hc
      rw [Position.after, if_neg hbreak]
    have hreact : s.react c = .ok { s with
        mode := .number position (if c = '_' then reversed else c :: reversed) } := by
      unfold react
      rw [hmode]
      dsimp only
      rw [if_pos hgoes]
    rw [run_cons (step_of_react hreact), ih rfl hcs, hnext]
    by_cases hunderscore : c = '_'
    · subst hunderscore
      simp [Nat.add_assoc, Nat.add_comm 1]
    · simp [hunderscore, Nat.add_assoc, Nat.add_comm 1]

theorem run_digits {position : Position} {reversed cs : List Char}
    (hmode : s.mode = .number position reversed) (hcs : IsDigits cs) :
    ∃ next, s.run cs =
      .ok { s with mode := .number position (cs.reverse ++ reversed), next := next } := by
  have hkept : cs.filter (· ≠ '_') = cs := by
    refine List.filter_eq_self.mpr fun c hc => decide_eq_true ?_
    rintro rfl
    exact hcs.not_mem (by decide) hc
  have halphanum : ∀ c ∈ cs, c.isAlphanum = true ∨ c = '_' := by
    intro c hc
    exact Or.inl (by simp [Char.isAlphanum, hcs c hc])
  have hrun := run_number_rest hmode halphanum
  rw [hkept] at hrun
  exact ⟨_, hrun⟩

/-- A number under way ends in front of what ends a literal. -/
theorem rests_number {position : Position} {n : Nat} (hn : n ≤ Decimal.maxInt64.toNat)
    (hmode : s.mode = .number position (Nat.toDigits 10 n).reverse) :
    Rests s (s.emit position (.int n)) := by
  have hlower : (Nat.toDigits 10 n).map Char.toLower = Nat.toDigits 10 n := by
    refine (List.map_congr_left fun c hc => ?_).trans (List.map_id _)
    exact toLower_of_isDigit (isDigits_toDigits n c hc)
  have hsettle : s.settle = .ok (s.emit position (.int n)) := by
    unfold settle
    rw [hmode]
    dsimp only
    rw [List.reverse_reverse, hlower, readNumber?_toDigits hn]
  refine ⟨hsettle, fun c hc => ?_⟩
  have hstops : ∀ reversed, continuesNumber reversed c = false := by
    intro reversed
    simp only [EndsLiteral, List.mem_cons, List.not_mem_nil, or_false] at hc
    rcases hc with rfl | rfl | rfl | rfl | rfl | rfl <;> rfl
  have hreact : s.react c = s.restart c := by
    unfold react
    rw [hmode]
    dsimp only
    rw [hstops, if_neg Bool.false_ne_true]
  unfold step
  rw [hreact, restart, hsettle]
  rfl

/-- Where the scanner goes on as between two tokens, a number is scanned. -/
theorem run_number {n : Nat} (hn : n ≤ Decimal.maxInt64.toNat)
    (hstep : ∀ c : Char, c.isDigit = true → s.step c = t.stepAnew c) :
    ∃ s' t', s.run (Nat.toDigits 10 n) = .ok s' ∧ Rests s' t' ∧ Leaves t t' [.int n] := by
  have hdigits := isDigits_toDigits n
  have hrests (s : Scanner) (position : Position)
      (hmode : s.mode = .number position (Nat.toDigits 10 n).reverse) :
      Rests s (s.emit position (.int n)) := rests_number hn hmode
  cases hcs : Nat.toDigits 10 n with
  | nil => exact absurd hcs Nat.toDigits_ne_nil
  | cons c cs =>
    rw [hcs] at hdigits hrests
    obtain ⟨hc, hcs⟩ := List.forall_mem_cons.mp hdigits
    have hfirst : s.step c = .ok { t with mode := .number t.next [c], next := t.next.after c } := by
      rw [hstep c hc, stepAnew, begin_digit hc]
      rfl
    obtain ⟨next, hrun⟩ := run_digits (s := { t with
      mode := .number t.next [c], next := t.next.after c }) rfl hcs
    exact ⟨_, _, (run_cons hfirst cs).trans hrun, hrests _ t.next (by simp), .single rfl rfl rfl⟩

theorem Scans.nat {n : Nat} (hn : n ≤ Decimal.maxInt64.toNat) :
    Scans (Nat.toDigits 10 n) [.int n] :=
  fun _ hmode _ => run_number hn fun c _ => step_between hmode c

/-- A minus and a number behind it. -/
theorem Scans.negative {n : Nat} (hn : n ≤ Decimal.maxInt64.toNat) :
    Scans ('-' :: Nat.toDigits 10 n) [.mark .minus, .int n] := by
  intro s hmode _
  have hfirst : s.step '-' =
      .ok { s with mode := .pending s.next '-', next := s.next.after '-' } := by
    rw [step_between hmode]
    rfl
  have hbehind (c : Char) (hc : c.isDigit = true) :
      step { s with mode := .pending s.next '-', next := s.next.after '-' } c =
        stepAnew { s.emitMark s.next .minus with next := s.next.after '-' } c := by
    have htwo : twoMark '-' c = none := by
      unfold twoMark
      split
      case h_9 => rfl
      all_goals first | rfl | cases hc
    have hreact : react { s with mode := .pending s.next '-', next := s.next.after '-' } c =
        restart { s with mode := .pending s.next '-', next := s.next.after '-' } c := by
      unfold react
      dsimp only
      rw [if_neg (by simp), if_neg (by simp), htwo]
    unfold step
    rw [hreact]
    rfl
  obtain ⟨s', t, hrun, hrests, hleaves⟩ := run_number hn hbehind
  have hminus : Leaves s { s.emitMark s.next .minus with next := s.next.after '-' }
      [.mark .minus] := .single rfl rfl rfl
  exact ⟨s', t, (run_cons hfirst _).trans hrun, hrests, hminus.trans hleaves⟩

/-! ## Texts -/

/-- A text in single quotes. -/
def singleQuoted (start : Position) : Literal := ⟨start, false, '\''⟩

/-- The scanner is inside of a text, of which it has read some characters. -/
def Inside (s : Scanner) (start : Position) (reversed : List Char) : Prop :=
  s.mode = .short (singleQuoted start) reversed ∨
    s.mode = .opened (singleQuoted start) ∧ reversed = []

variable {start : Position} {reversed : List Char}

theorem Inside.react (h : Inside s start reversed) {c : Char} (hc : c ≠ '\'') :
    s.react c = s.stepShort (singleQuoted start) reversed c := by
  unfold Scanner.react
  rcases h with h | ⟨h, rfl⟩
  · rw [h]
  · rw [h]
    exact if_neg hc

/-- A character that stands for itself. -/
theorem Inside.step_plain (h : Inside s start reversed) {c : Char}
    (hc : c ∉ ['\'', '\n', '\\']) :
    s.step c = .ok { s with
      mode := .short (singleQuoted start) (c :: reversed), next := s.next.after c } := by
  simp only [List.mem_cons, List.not_mem_nil, or_false, not_or] at hc
  obtain ⟨hquote, hbreak, hescape⟩ := hc
  refine step_of_react (t := { s with mode := .short (singleQuoted start) (c :: reversed) }) ?_
  rw [h.react hquote]
  exact (if_neg hquote).trans ((if_neg hbreak).trans (if_neg hescape))

/-- A backslash and a character. -/
theorem Inside.run_escape (h : Inside s start reversed) (c : Char) :
    s.run ['\\', c] = .ok { s with
      mode := .short (singleQuoted start) (unescape c ++ reversed),
      next := (s.next.after '\\').after c } := by
  have hescape : s.step '\\' = .ok { s with
      mode := .shortEscape (singleQuoted start) reversed, next := s.next.after '\\' } := by
    refine step_of_react (t := { s with mode := .shortEscape (singleQuoted start) reversed }) ?_
    rw [h.react (by decide)]
    rfl
  rw [run_cons hescape]
  rfl

theorem hexDigit_plain (n : Nat) : hexDigit n ∉ ['\'', '\n', '\\'] := by
  have hall : ('0' :: "0123456789abcdef".toList).all
      (fun c => decide (c ∉ ['\'', '\n', '\\'])) = true := by decide
  refine of_decide_eq_true (List.all_eq_true.mp hall _ ?_)
  unfold hexDigit
  rw [List.getD_eq_getElem?_getD]
  cases h : "0123456789abcdef".toList[n]? with
  | none => exact List.mem_cons_self
  | some c => exact List.mem_cons_of_mem _ (List.mem_of_getElem? h)

/-- The escape of a quoted character, or the character itself. -/
theorem Inside.run_quoteChar (h : Inside s start reversed) (c : Char) :
    ∃ next, s.run (quoteChar c).toList = .ok { s with
      mode := .short (singleQuoted start) ((rereadChar c).reverse ++ reversed), next := next } := by
  have hletter (escape : Char) (hquote : (quoteChar c).toList = ['\\', escape])
      (hread : unescape escape = [c]) (hc : isNumbered c = false) :
      ∃ next, s.run (quoteChar c).toList = .ok { s with
        mode := .short (singleQuoted start) ((rereadChar c).reverse ++ reversed),
        next := next } := by
    rw [rereadChar_of_not_numbered hc, List.reverse_singleton, hquote, h.run_escape, hread]
    exact ⟨_, rfl⟩
  by_cases hbackslash : c = '\\'
  · subst hbackslash
    exact hletter '\\' (by decide) (by decide) (by decide)
  by_cases hquote : c = '\''
  · subst hquote
    exact hletter '\'' (by decide) (by decide) (by decide)
  by_cases hbreak : c = '\n'
  · subst hbreak
    exact hletter 'n' (by decide) (by decide) (by decide)
  by_cases htab : c = '\t'
  · subst htab
    exact hletter 't' (by decide) (by decide) (by decide)
  by_cases hreturn : c = '\r'
  · subst hreturn
    exact hletter 'r' (by decide) (by decide) (by decide)
  unfold quoteChar
  rw [if_neg hbackslash, if_neg hquote, if_neg hbreak, if_neg htab, if_neg hreturn]
  by_cases hcontrol : Text.isControl c = true
  · -- the escape is not one of the scanner's: its four characters are read
    have hnumbered : isNumbered c = true := by simp [isNumbered, hcontrol, hbreak, htab, hreturn]
    have hhigh := Inside.step_plain (s := { s with
      mode := .short (singleQuoted start) (unescape 'x' ++ reversed),
      next := (s.next.after '\\').after 'x' }) (Or.inl rfl) (hexDigit_plain (c.toNat / 16))
    have hlow := Inside.step_plain (s := { s with
      mode := .short (singleQuoted start) (hexDigit (c.toNat / 16) :: (unescape 'x' ++ reversed)),
      next := ((s.next.after '\\').after 'x').after (hexDigit (c.toNat / 16)) }) (Or.inl rfl)
      (hexDigit_plain (c.toNat % 16))
    rw [if_pos hcontrol, String.toList_ofList, rereadChar, if_pos hnumbered]
    exact ⟨_, (run_append_ok (h.run_escape 'x') _).trans
      ((run_cons hhigh _).trans (run_cons hlow []))⟩
  · have hnumbered : isNumbered c = false := by simp [isNumbered, hcontrol]
    have hplain : c ∉ ['\'', '\n', '\\'] := by simp [hbackslash, hquote, hbreak]
    rw [if_neg hcontrol, rereadChar_of_not_numbered hnumbered, String.toList_singleton,
      run_cons (h.step_plain hplain)]
    exact ⟨_, rfl⟩

/-- The characters of a quoted text. -/
theorem Inside.run_quoted (h : Inside s start reversed) (cs : List Char) :
    ∃ s', s.run (cs.flatMap fun c => (quoteChar c).toList) = .ok s' ∧
      Inside s' start ((cs.flatMap rereadChar).reverse ++ reversed) ∧ Leaves s s' [] := by
  induction cs generalizing s reversed with
  | nil => exact ⟨s, rfl, h, .nothing rfl rfl rfl⟩
  | cons c cs ih =>
    obtain ⟨next, hchar⟩ := h.run_quoteChar c
    obtain ⟨s', hrun, hinside, hleaves⟩ := ih (s := { s with
      mode := .short (singleQuoted start) ((rereadChar c).reverse ++ reversed), next := next })
      (Or.inl rfl)
    have hmoved : Leaves s { s with
      mode := .short (singleQuoted start) ((rereadChar c).reverse ++ reversed), next := next } [] :=
        .nothing rfl rfl rfl
    refine ⟨s', ?_, ?_, hmoved.trans hleaves⟩
    · rw [List.flatMap_cons, run_append_ok hchar]
      exact hrun
    · rw [List.flatMap_cons, List.reverse_append, List.append_assoc]
      exact hinside

theorem emitText_of_fresh (h : s.Fresh) (position : Position) (value : String) :
    s.emitText position value = s.emit position (.text value) := by
  unfold emitText
  split
  · rename_i before place tokens hemitted
    have htop := h ⟨.text before, place⟩ (by rw [hemitted]; rfl)
    exact absurd rfl (htop before)
  · rfl

/-- Two quotes are an empty text where no third one follows. -/
theorem rests_openedTwice (hmode : s.mode = .openedTwice (singleQuoted start)) (hfresh : s.Fresh) :
    Rests s (s.emit start (.text "")) := by
  have hsettle : s.settle = .ok (s.emit start (.text "")) := by
    unfold settle
    rw [hmode, ← emitText_of_fresh hfresh]
    rfl
  refine ⟨hsettle, fun c hc => ?_⟩
  have hquote : c ≠ '\'' := by
    rintro rfl
    exact absurd hc (by simp [EndsLiteral])
  have hreact : s.react c = s.restart c := by
    unfold react
    rw [hmode]
    exact if_neg hquote
  unfold step
  rw [hreact, restart, hsettle]
  rfl

/-- The quote at the end of a text. -/
theorem Inside.close (h : Inside s start reversed) (hfresh : s.Fresh) :
    ∃ s' t, s.step '\'' = .ok s' ∧ Rests s' t ∧
      Leaves s t [.text (String.ofList reversed.reverse)] := by
  rcases h with h | ⟨h, rfl⟩
  · have hreact : s.react '\'' = .ok (s.emit start (.text (String.ofList reversed.reverse))) := by
      unfold Scanner.react
      rw [h, ← emitText_of_fresh hfresh]
      rfl
    exact ⟨_, _, step_of_react hreact, rests_between rfl, .single rfl rfl rfl⟩
  · have hreact : s.react '\'' = .ok { s with mode := .openedTwice (singleQuoted start) } := by
      unfold Scanner.react
      rw [h]
      rfl
    exact ⟨_, _, step_of_react hreact, rests_openedTwice rfl hfresh, .single rfl rfl rfl⟩

theorem Scans.text (s : String) : Scans (Value.text s).chars [.text (reread s)] := by
  intro t hmode hfresh
  have hopen : t.step '\'' =
      .ok { t with mode := .opened (singleQuoted t.next), next := t.next.after '\'' } := by
    rw [step_between hmode]
    rfl
  obtain ⟨t₁, hrun, hinside, hleaves⟩ := Inside.run_quoted (s := { t with
    mode := .opened (singleQuoted t.next), next := t.next.after '\'' }) (Or.inr ⟨rfl, rfl⟩) s.toList
  obtain ⟨t₂, t₃, hclose, hrests, htext⟩ := hinside.close (by
    obtain ⟨added, hadded, hnone⟩ := hleaves.emitted
    rw [List.map_eq_nil_iff.mp hnone] at hadded
    rw [Fresh, hadded]
    exact hfresh)
  refine ⟨t₂, t₃, ?_, hrests, ?_⟩
  · rw [Value.chars_text, List.cons_append, run_cons hopen, run_append_ok hrun]
    exact run_cons hclose []
  · have hmoved : Leaves t { t with
        mode := .opened (singleQuoted t.next), next := t.next.after '\'' } [] :=
      .nothing rfl rfl rfl
    rw [List.append_nil, List.reverse_reverse] at htext
    exact hmoved.trans (hleaves.trans htext)

/-! ## Values -/

/-- A written value is scanned as the tokens of its literal. -/
theorem Scans.value {v : Value} (hv : v.All Value.HasLiteral) : Scans v.chars v.literal.body := by
  induction v using Value.induction_parts with
  | step v ih =>
    have hparts : ∀ part ∈ v.parts, Scans part.chars part.literal.body :=
      fun part hpart => ih part hpart (hv.parts part hpart)
    have hself := hv.self
    cases v with
    | none => exact Scans.word ⟨"None", by decide⟩
    | bool b =>
      cases b with
      | true => exact Scans.word ⟨"True", by decide⟩
      | false => exact Scans.word ⟨"False", by decide⟩
    | int n =>
      obtain ⟨hleast, hgreatest⟩ : Decimal.minInt64 < n ∧ n ≤ Decimal.maxInt64 := hself
      have hmax : Decimal.maxInt64 = 0x7FFFFFFFFFFFFFFF := rfl
      have hmin : Decimal.minInt64 = -0x8000000000000000 := rfl
      cases n with
      | ofNat n =>
        have hvalue : Int.ofNat n = (n : Int) := rfl
        rw [Value.chars_ofNat]
        exact Scans.nat (by omega)
      | negSucc n =>
        rw [Value.chars_negSucc]
        exact Scans.negative (by omega)
    | text s => exact Scans.text s
    | list items =>
      have hitems : ∀ v ∈ items, Scans v.chars v.literal.body := hparts
      have hjoined := Scans.joined hitems
      rw [Value.chars_list, Value.literal, Expr.body, itemBodies_eq, Value.literals_eq,
        List.map_map]
      exact hjoined.bracket (by simp)
    | tuple items =>
      have hitems : ∀ v ∈ items, Scans v.chars v.literal.body := hparts
      have hjoined := Scans.joined hitems
      rw [Value.chars_tuple, Value.literal, Expr.body, itemBodies_eq, Value.literals_eq,
        List.map_map, List.length_map]
      by_cases hone : items.length = 1
      · rw [if_pos hone, if_pos hone]
        exact hjoined.trailing.bracket (by simp)
      · rw [if_neg hone, if_neg hone, List.append_nil, List.append_nil]
        exact hjoined.bracket (by simp)
    | dict entries =>
      have hparts := Value.forall_mem_parts_dict.mp hparts
      have hentries : ∀ e ∈ entries, Scans (Value.entryChars e)
          (e.1.literal.body ++ .mark .colon :: e.2.literal.body) := fun e he =>
        Scans.link (Or.inr ⟨rfl, rfl⟩) (hparts e he).1 (hparts e he).2
      have hjoined := Scans.joined hentries
      rw [Value.chars_dict, Value.literal, Expr.body, entryBodies_eq, Value.entryLiterals_eq,
        List.map_map]
      exact hjoined.bracket (by simp)
    | float | builtin | function | method | stub => exact hself.elim

end Scanner

/-! ## Lines -/

open Scanner

/-- The scanner behind the name of a variable and an equality sign. -/
def behindAssign : Scanner :=
  ⟨.between, ⟨1, 5⟩, [], 0, [⟨.mark .assign, ⟨1, 3⟩⟩, ⟨.name "v", ⟨1, 1⟩⟩]⟩

/-- The tokens of a line that binds a variable to a written value. -/
theorem tokenize_assigned {v : Value} (hv : v.All Value.HasLiteral) :
    ∃ tokens, tokenize ("v = " ++ v.repr ++ "\n") = .ok tokens ∧ tokens.map Token.lexeme =
      .name "v" :: .mark .assign :: v.literal.body ++ [.newline, .finish] := by
  have hfront : Scanner.start.run ['v', ' ', '=', ' '] = .ok behindAssign := by rfl
  obtain ⟨s, t, hrun, hrests, hleaves⟩ :=
    Scans.value hv behindAssign rfl (by rintro _ ⟨⟩; nofun)
  obtain ⟨added, hadded, hbody⟩ := hleaves.emitted
  -- the line break ends the line, since all brackets are closed
  obtain ⟨u, hbreak, hmode, hemitted, hwidths⟩ : ∃ u, s.step '\n' = .ok u ∧
      u.mode = .margin 0 ∧ u.emitted = ⟨.newline, t.next⟩ :: t.emitted ∧ u.widths = [] := by
    have hbegin : t.begin '\n' = .ok { t.emit t.next .newline with mode := .margin 0 } :=
      if_pos hleaves.brackets
    refine ⟨{ t.emit t.next .newline with mode := .margin 0, next := t.next.after '\n' }, ?_, rfl,
      rfl, hleaves.widths⟩
    rw [hrests.step '\n' (by simp [EndsLiteral]), stepAnew, hbegin]
    rfl
  have hsettle : u.settle = .ok u := by
    unfold settle
    rw [hmode]
  obtain ⟨last, hclose, hlast⟩ := close_between hsettle (by rw [hemitted]; rintro _ ⟨⟩; rfl)
  have hfinish := map_lexeme_of_stands hlast
  refine ⟨u.emitted.reverse ++ last, ?_, ?_⟩
  · have hchars : ("v = " ++ v.repr ++ "\n").toList =
        ['v', ' ', '=', ' '] ++ (v.chars ++ ['\n']) := by
      simp [Value.chars]
    unfold tokenize
    rw [hchars, run_append_ok hfront, run_append_ok hrun, run_cons hbreak]
    exact hclose
  · rw [List.map_append, hfinish, hwidths, hemitted, hadded, ← hbody]
    simp [behindAssign]

/-- A quoted text is one token. -/
theorem tokenize_quoted (s : String) :
    ∃ tokens, tokenize (Value.text s).repr = .ok tokens ∧
      tokens.map Token.lexeme = [.text (reread s), .newline, .finish] := by
  have hstart (cs : List Char) :
      Scanner.start.run ('\'' :: cs) = run ⟨.between, ⟨1, 1⟩, [], 0, []⟩ ('\'' :: cs) := rfl
  obtain ⟨s', t, hrun, hrests, hleaves⟩ := Scans.text s ⟨.between, ⟨1, 1⟩, [], 0, []⟩ rfl nofun
  obtain ⟨added, hadded, htext⟩ := hleaves.emitted
  obtain ⟨last, htokens, hlast⟩ := tokens_eq t
  have hfinish := map_lexeme_of_stands hlast
  have hwidths : t.widths = [] := hleaves.widths
  -- the text is the last token, so the end of its line is added to it
  have hend : t.endLine = t.emit t.next .newline := by
    obtain ⟨token, rfl⟩ := List.length_eq_one_iff.mp (by
      rw [← List.length_map (f := Token.lexeme), htext]
      rfl)
    obtain ⟨lexeme, position⟩ := token
    obtain rfl : lexeme = .text (reread s) := (List.cons.inj htext).1
    unfold endLine
    rw [hadded]
    rfl
  refine ⟨t.tokens, ?_, ?_⟩
  · have hquote : ∃ cs, (Value.text s).chars = '\'' :: cs := by
      rw [Value.chars_text]
      exact ⟨_, rfl⟩
    obtain ⟨cs, hcs⟩ := hquote
    rw [hcs] at hrun
    unfold tokenize
    rw [show (Value.text s).repr.toList = '\'' :: cs from hcs, hstart, hrun]
    exact close_of_settle hrests.settle
  · rw [htokens, List.map_append, hfinish, hwidths, hend]
    simp [emit, hadded, htext]

end Monorepo.Script
