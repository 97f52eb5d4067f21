import Monorepo.Proofs.Margins

/-!
# A text behind another one

A scanner that has read some lines goes on as it would begin: at the first token on the margin it
closes the blocks that are open, and then reads like a scanner at the beginning of a text, on later
lines. So the tokens of two texts in a row are those of the first one, and those of the second one
on later lines. One line break is left over where the second text has no tokens but continued blank
lines.
-/

namespace Monorepo.Script

namespace Scanner

variable {s t u : Scanner} {k : Nat} {base : List Token}

/-! ## The end of a text -/

/-- At the end of a text all blocks are closed, and the last line has ended. -/
theorem Orderly.ended (h : s.Orderly) : Tidy s.ended 0 s.brackets ∧ Bare s.ended := by
  have hbare : Bare s.endLine.emitted := by
    unfold Scanner.endLine
    split
    · rename_i heq
      rw [heq]
      rintro _ ⟨⟩
    · rename_i heq
      rw [heq]
      exact bare_cons rfl
    · exact bare_cons rfl
  have htidy : Tidy s.endLine.emitted s.widths.length s.brackets := by
    unfold Scanner.endLine
    split
    · exact h.tidy
    · exact h.tidy
    · exact (h.emitNewline s.next).tidy
  unfold Scanner.ended closedAt
  rw [endLine_widths]
  exact htidy.dedents s.next hbare s.widths.length

/-- Between lines no line has to be ended. -/
theorem BetweenLines.ended (h : s.BetweenLines) : s.ended = s.closedAt s.next := by
  unfold Scanner.ended
  rw [endLine_of_newline h.top]

theorem closes_closedAt (h : s.BetweenLines) (place : Position) : Closes (s.closedAt place) := by
  unfold Closes closedAt
  cases s.widths with
  | nil =>
    intro t ht value
    rw [h.top t ht]
    simp
  | cons width widths =>
    rintro _ ⟨⟩ value
    simp

/-! ## A moved scanner at the end of its text -/

theorem closedAt_moved (k : Nat) (base : List Token) (s : Scanner) (place : Position) :
    (s.moved k base).closedAt (place.lowered k) =
      (s.closedAt place).map (Token.lowered k) ++ base := by
  unfold closedAt
  rw [List.map_append, List.map_replicate, List.append_assoc]
  rfl

/-- Behind other tokens a text that has none of its own may need the end of a line. -/
theorem ended_moved (k : Nat) (base : List Token) (s : Scanner) :
    ∃ extra, (s.moved k base).ended = s.ended.map (Token.lowered k) ++ (extra ++ base) ∧
      (extra = [] ∨ ∃ place, extra = [⟨.newline, place⟩]) := by
  obtain ⟨mode, next, widths, brackets, emitted⟩ := s
  cases emitted with
  | nil =>
    let own : Scanner := ⟨mode, next, widths, brackets, []⟩
    obtain ⟨extra, hextra, hline⟩ := endLine_emitted (own.moved k base)
    refine ⟨extra, ?_, hline.imp_right fun heq => ⟨_, heq⟩⟩
    have hended := closedAt_moved k (extra ++ base) own next
    unfold ended closedAt
    rw [endLine_widths, hextra]
    exact hended
  | cons token tokens =>
    obtain ⟨lexeme, place⟩ := token
    refine ⟨[], ?_, Or.inl rfl⟩
    have hmoved : (moved k base ⟨mode, next, widths, brackets, ⟨lexeme, place⟩ :: tokens⟩).endLine =
        (endLine ⟨mode, next, widths, brackets, ⟨lexeme, place⟩ :: tokens⟩).moved k base := by
      cases lexeme <;> rfl
    unfold ended
    rw [hmoved]
    exact closedAt_moved k base _ next

/-- A moved scanner closes its text like the one that it comes from, or both fail. -/
theorem close_moved (hbase : Closes base) (s : Scanner) :
    (∃ e e', s.close = .error e ∧ (s.moved k base).close = .error e') ∨
      ∃ tokens extra, s.close = .ok tokens ∧
        (s.moved k base).close = .ok (base.reverse ++ (extra ++ tokens.map (Token.lowered k))) ∧
        (extra = [] ∨ ∃ place, extra = [⟨.newline, place⟩]) := by
  have hmoves := moves_settle (k := k) hbase s
  generalize hsettle : s.settle = result, hsettle' : (s.moved k base).settle = result' at hmoves
  cases hmoves with
  | error e e' =>
    refine Or.inl ⟨e, e', ?_, ?_⟩
    · unfold close
      rw [hsettle]
      rfl
    · unfold close
      rw [hsettle']
      rfl
  | ok t =>
    obtain ⟨extra, hended, hextra⟩ := ended_moved k base t
    refine Or.inr ⟨_, extra, close_of_settle hsettle, (close_of_settle hsettle').trans ?_, hextra⟩
    have hreverse : extra.reverse = extra := by
      rcases hextra with rfl | ⟨place, rfl⟩
      · rfl
      · rfl
    unfold Scanner.tokens
    rw [hended, List.reverse_append, List.reverse_append, hreverse, List.map_append,
      List.map_reverse, List.append_assoc, List.append_assoc]
    rfl

/-! ## The beginning of a text -/

/-- On a margin a character belongs to it, or the text of the line begins. -/
theorem react_of_isMargin {mode : Mode} (hmode : mode.isMargin = true) (c : Char) :
    (∃ mode', mode'.isMargin = true ∧
        ∀ s : Scanner, s.mode = mode → s.react c = .ok { s with mode := mode' }) ∨
      ∃ width, ∀ s : Scanner, s.mode = mode → s.react c = (s.indentTo width).bind (·.begin c) := by
  cases mode with
  | margin width =>
    by_cases hmargin : c = ' ' ∨ c = '\t' ∨ (c = '\x0c' ∨ c = '\r') ∨ c = '\n' ∨ c = '#'
    · refine Or.inl ?_
      rcases hmargin with rfl | rfl | (rfl | rfl) | rfl | rfl
      · exact ⟨.margin (width + 1), rfl, by rintro ⟨⟩ rfl; rfl⟩
      · exact ⟨.margin ((width / 8 + 1) * 8), rfl, by rintro ⟨⟩ rfl; rfl⟩
      · exact ⟨.margin width, rfl, by rintro ⟨⟩ rfl; rfl⟩
      · exact ⟨.margin width, rfl, by rintro ⟨⟩ rfl; rfl⟩
      · exact ⟨.margin 0, rfl, by rintro ⟨⟩ rfl; rfl⟩
      · exact ⟨.marginComment, rfl, by rintro ⟨⟩ rfl; rfl⟩
    · obtain ⟨hspace, htab, hreturn, hbreak, hcomment⟩ : c ≠ ' ' ∧ c ≠ '\t' ∧
          ¬ (c = '\x0c' ∨ c = '\r') ∧ c ≠ '\n' ∧ c ≠ '#' := by
        simpa only [not_or] using hmargin
      refine Or.inr ⟨width, fun s hs => ?_⟩
      unfold react
      rw [hs]
      change (if c = ' ' then _ else _) = _
      rw [if_neg hspace, if_neg htab, if_neg hreturn, if_neg hbreak, if_neg hcomment]
  | marginComment =>
    by_cases hbreak : c = '\n'
    · refine Or.inl ⟨.margin 0, rfl, ?_⟩
      rintro ⟨⟩ rfl
      exact congrArg Except.ok (if_pos hbreak)
    · refine Or.inl ⟨.marginComment, rfl, ?_⟩
      rintro ⟨⟩ rfl
      exact congrArg Except.ok (if_neg hbreak)
  | _ => cases hmode

/-- A scanner that has read nothing but blank lines and comments. -/
def fresh (mode : Mode) (next : Position) : Scanner := ⟨mode, next, [], 0, []⟩

/-- A scanner that began behind the lines that `s` has read, beside one that began anew: `k` lines
    further down it still is on a margin, or it has closed the open blocks. -/
inductive Behind (k : Nat) (s : Scanner) : (t t' : Scanner) → Prop
  | margin {mode : Mode} (hmode : mode.isMargin = true) (next : Position) :
    Behind k s (fresh mode next) { s with mode := mode, next := next.lowered k }
  | moved (t : Scanner) (place : Position) : Behind k s t (t.moved k (s.closedAt place))

/-- A scanner whose first token is an indent. -/
def LedByIndent (s : Scanner) : Prop := ∃ place t, s = moved 0 [⟨.indent, place⟩] t

theorem closes_indent (place : Position) : Closes [⟨.indent, place⟩] := by
  rintro _ ⟨⟩ value
  simp

theorem LedByIndent.run (h : s.LedByIndent) {cs : List Char} (hrun : s.run cs = .ok t) :
    t.LedByIndent := by
  obtain ⟨place, own, rfl⟩ := h
  have hmoves := moves_run (k := 0) (closes_indent place) own cs
  rw [hrun] at hmoves
  generalize own.run cs = result at hmoves
  cases hmoves with
  | ok own' => exact ⟨place, own', rfl⟩

theorem LedByIndent.close (h : s.LedByIndent) {tokens : List Token}
    (hclose : s.close = .ok tokens) : ∃ place rest, tokens = ⟨.indent, place⟩ :: rest := by
  obtain ⟨place, own, rfl⟩ := h
  rcases close_moved (k := 0) (closes_indent place) own with ⟨e, e', -, herror⟩ |
    ⟨own', extra, -, hown, -⟩
  · cases hclose.symm.trans herror
  · cases hclose.symm.trans hown
    exact ⟨place, _, rfl⟩

/-- The first line that is not blank closes the open blocks, or it begins with an indent. -/
theorem behind_of_begin (hbetween : s.BetweenLines) (hpositive : ∀ width ∈ s.widths, 0 < width)
    {mode : Mode} {next : Position} {width : Nat} {c : Char}
    (h : ((fresh mode next).indentTo width).bind (·.begin c) = .ok u) :
    (∃ u', (indentTo { s with mode := mode, next := next.lowered k } width).bind (·.begin c) =
        .ok u' ∧ Behind k s u u') ∨ u.LedByIndent := by
  -- With a margin the first line opens a block when it begins a text, and no script does that; so
  -- what it does behind other lines is of no importance.
  by_cases hzero : width = 0
  · subst hzero
    refine Or.inl ?_
    have hopened : (indentTo { s with mode := mode, next := next.lowered k } 0) =
        .ok ((fresh .between next).moved k (s.closedAt ⟨next.line + k, 1⟩)) := by
      refine (indentTo_zero { s with mode := mode, next := next.lowered k } hpositive).trans ?_
      exact congrArg (fun b => Except.ok (Scanner.mk _ _ _ b _)) hbetween.brackets
    have hmoves : Moves k (s.closedAt ⟨next.line + k, 1⟩) ((fresh .between next).begin c)
        (((fresh .between next).moved k (s.closedAt ⟨next.line + k, 1⟩)).begin c) := moves_begin _ c
    rw [hopened]
    change (fresh .between next).begin c = .ok u at h
    rw [h] at hmoves
    change ∃ u', begin _ c = .ok u' ∧ _
    generalize begin _ c = result at hmoves
    cases hmoves with
    | ok _ => exact ⟨_, rfl, .moved u _⟩
  · refine Or.inr ?_
    have hopened : (fresh mode next).indentTo width =
        .ok (moved 0 [⟨.indent, ⟨next.line, 1⟩⟩] ⟨.between, next, [width], 0, []⟩) :=
      if_pos (Nat.pos_of_ne_zero hzero)
    have hmoves : Moves 0 [⟨.indent, ⟨next.line, 1⟩⟩] (begin ⟨.between, next, [width], 0, []⟩ c)
        (begin (moved 0 [⟨.indent, ⟨next.line, 1⟩⟩] ⟨.between, next, [width], 0, []⟩) c) :=
      moves_begin _ c
    rw [hopened] at h
    change begin _ c = .ok u at h
    rw [h] at hmoves
    generalize begin ⟨.between, next, [width], 0, []⟩ c = result at hmoves
    cases hmoves with
    | ok own => exact ⟨_, own, rfl⟩

/-! ## Two texts in a row -/

theorem LedByIndent.withNext (h : s.LedByIndent) (next : Position) :
    { s with next := next }.LedByIndent := by
  obtain ⟨place, own, rfl⟩ := h
  exact ⟨place, { own with next := next }, rfl⟩

namespace Behind

variable {t' : Scanner}

theorem withNext (h : Behind k s t t') (next : Position) :
    Behind k s { t with next := next } { t' with next := next.lowered k } := by
  cases h with
  | margin hmode _ => exact .margin hmode next
  | moved t place => exact .moved { t with next := next } place

theorem step (h : Behind k s t t') (hbetween : s.BetweenLines)
    (hpositive : ∀ width ∈ s.widths, 0 < width) {c : Char} (hstep : t.step c = .ok u) :
    (∃ u', t'.step c = .ok u' ∧ Behind k s u u') ∨ u.LedByIndent := by
  cases h with
  | margin hmode next =>
    rcases react_of_isMargin hmode c with ⟨mode, hmode', hreact⟩ | ⟨width, hreact⟩
    · cases (step_of_react (hreact (fresh _ next) rfl)).symm.trans hstep
      refine Or.inl ⟨_, step_of_react (hreact _ rfl), ?_⟩
      exact Position.after_lowered k next c ▸ .margin hmode' (next.after c)
    · obtain ⟨after, hafter, rfl⟩ := ok_of_map hstep
      rw [hreact _ rfl] at hafter
      rcases behind_of_begin (k := k) hbetween hpositive hafter with
        ⟨after', hafter', hbehind⟩ | hled
      · refine Or.inl ⟨_, step_of_react ((hreact _ rfl).trans hafter'), ?_⟩
        exact Position.after_lowered k next c ▸ hbehind.withNext (next.after c)
      · exact Or.inr (hled.withNext _)
  | moved t place =>
    have hmoves := moves_step (k := k) (closes_closedAt hbetween place) t c
    rw [hstep] at hmoves
    generalize Scanner.step _ c = result at hmoves
    cases hmoves with
    | ok _ => exact Or.inl ⟨_, rfl, .moved u place⟩

theorem run (h : Behind k s t t') (hbetween : s.BetweenLines)
    (hpositive : ∀ width ∈ s.widths, 0 < width) {cs : List Char} (hrun : t.run cs = .ok u) :
    (∃ u', t'.run cs = .ok u' ∧ Behind k s u u') ∨ u.LedByIndent := by
  induction cs generalizing t t' with
  | nil =>
    cases hrun
    exact Or.inl ⟨t', rfl, h⟩
  | cons c cs ih =>
    obtain ⟨mid, hstep, hrest⟩ := ok_of_bind hrun
    rcases h.step hbetween hpositive hstep with ⟨mid', hstep', hmid⟩ | hled
    · rcases ih hmid hrest with ⟨u', hrest', hbehind⟩ | hled
      · exact Or.inl ⟨u', (run_cons hstep' cs).trans hrest', hbehind⟩
      · exact Or.inr hled
    · exact Or.inr (hled.run hrest)

theorem close (h : Behind k s t t') (hbetween : s.BetweenLines) {tokens : List Token}
    (hclose : t.close = .ok tokens) :
    ∃ place extra, t'.close =
        .ok ((s.closedAt place).reverse ++ (extra ++ tokens.map (Token.lowered k))) ∧
      (extra = [] ∨ ∃ place, extra = [⟨.newline, place⟩]) := by
  cases h with
  | @margin mode hmode next =>
    have hsettle (r : Scanner) (hr : r.mode = mode) : r.settle = .ok r := by
      unfold settle
      rw [hr]
      cases mode with
      | margin _ | marginComment => rfl
      | _ => cases hmode
    have hended : ended { s with mode := mode, next := next.lowered k } =
        s.closedAt (next.lowered k) :=
      BetweenLines.ended ⟨hbetween.brackets, hbetween.top⟩
    cases (close_of_settle (hsettle (fresh mode next) rfl)).symm.trans hclose
    refine ⟨next.lowered k, [], (close_of_settle (hsettle _ rfl)).trans ?_, Or.inl rfl⟩
    unfold Scanner.tokens
    rw [hended]
    rfl
  | moved t place =>
    rcases close_moved (k := k) (closes_closedAt hbetween place) t with ⟨e, e', herror, -⟩ |
      ⟨own, extra, hown, hmoved, hextra⟩
    · cases hclose.symm.trans herror
    · cases hclose.symm.trans hown
      exact ⟨place, extra, hmoved, hextra⟩

end Behind

/-- Behind other lines a text has the same tokens, on later lines, as long as it does not begin with
    an indent. -/
theorem close_behind (hbetween : s.BetweenLines) (hpositive : ∀ width ∈ s.widths, 0 < width)
    (hmode : s.mode = .margin 0) (hnext : s.next = start.next.lowered k) {cs : List Char}
    (hrun : start.run cs = .ok t) {tokens : List Token} (hclose : t.close = .ok tokens)
    (hhead : ∀ token ∈ tokens.head?, token.lexeme ≠ .indent) :
    ∃ t' place extra, s.run cs = .ok t' ∧ t'.close =
        .ok ((s.closedAt place).reverse ++ (extra ++ tokens.map (Token.lowered k))) ∧
      (extra = [] ∨ ∃ place, extra = [⟨.newline, place⟩]) := by
  have hbehind : Behind k s start { s with mode := .margin 0, next := start.next.lowered k } :=
    .margin rfl start.next
  rw [← hnext, ← hmode] at hbehind
  rcases hbehind.run hbetween hpositive hrun with ⟨t', hrun', hbehind'⟩ | hled
  · obtain ⟨place, extra, hclose', hextra⟩ := hbehind'.close hbetween hclose
    exact ⟨t', place, extra, hrun', hclose', hextra⟩
  · obtain ⟨place, rest, rfl⟩ := hled.close hclose
    exact absurd rfl (hhead _ rfl)

end Scanner

end Monorepo.Script
