import Monorepo.Proofs.Scanning
import Monorepo.Proofs.Seams
import Monorepo.Proofs.Shifts

/-!
# Layout tokens

Among the tokens of a text each indent has its dedent, and what is printed on a line has the end of
the line behind it. The scanner counts the blocks and the brackets that are open; where it measures
a margin no bracket is open, and the last token, if there is one, ends a line. So its tokens are a
stream in front of a seam.
-/

namespace Monorepo.Script

/-! ## Tidy tokens -/

/-- Tokens that do not end in the middle of a line. -/
def Bare (emitted : List Token) : Prop := ∀ t ∈ emitted.head?, t.lexeme.isPrinted = false

/-- Tokens, the last one first, that leave some blocks and some brackets open. Blocks open and close
    between lines. -/
inductive Tidy : (emitted : List Token) → (depth brackets : Nat) → Prop
  | nil : Tidy [] 0 0
  | printed {ts : List Token} {d b : Nat} {lexeme : Lexeme} {place : Position}
    (hprinted : lexeme.isPrinted = true) (h : Tidy ts d b) :
    Tidy (⟨lexeme, place⟩ :: ts) d (lexeme.brackets b)
  | newline {ts : List Token} {d b : Nat} {place : Position} (h : Tidy ts d b) :
    Tidy (⟨.newline, place⟩ :: ts) d b
  | indent {ts : List Token} {d b : Nat} {place : Position} (hbare : Bare ts) (h : Tidy ts d b) :
    Tidy (⟨.indent, place⟩ :: ts) (d + 1) b
  | dedent {ts : List Token} {d b : Nat} {place : Position} (hbare : Bare ts)
    (h : Tidy ts (d + 1) b) : Tidy (⟨.dedent, place⟩ :: ts) d b

theorem bare_cons {t : Token} {ts : List Token} (h : t.lexeme.isPrinted = false) :
    Bare (t :: ts) := by
  rintro _ ⟨⟩
  exact h

theorem Tidy.dedents {ts : List Token} {d b : Nat} (place : Position) (hbare : Bare ts) (n : Nat)
    (h : Tidy ts (n + d) b) :
    Tidy (List.replicate n ⟨.dedent, place⟩ ++ ts) d b ∧
      Bare (List.replicate n ⟨.dedent, place⟩ ++ ts) := by
  induction n generalizing d with
  | zero => exact ⟨Nat.zero_add d ▸ h, hbare⟩
  | succ n ih =>
    obtain ⟨hrest, hbare'⟩ := ih (d := d + 1) (by rwa [Nat.add_right_comm] at h)
    exact ⟨.dedent hbare' hrest, bare_cons rfl⟩

theorem Seam.Along.dedents {seam : Seam} {ts ts' : List Token} {d b : Nat}
    (h : seam.Along d b ts ts') (place place' : Position) (n : Nat) :
    seam.Along (n + d) b (List.replicate n ⟨.dedent, place⟩ ++ ts)
      (List.replicate n ⟨.dedent, place'⟩ ++ ts') := by
  induction n with
  | zero => rwa [Nat.zero_add]
  | succ n ih =>
    rw [Nat.add_right_comm]
    exact .dedent ih

/-- Tidy tokens in front of a seam, and the same tokens on later lines. -/
theorem Tidy.along {seam : Seam} {emitted ts ts' : List Token} {d b : Nat} (h : Tidy emitted d b)
    (hnext : Bare emitted ∨ ∀ t ∈ ts.head?, t.lexeme.IsOnLine) (halong : seam.Along d b ts ts') :
    seam.Along 0 0 (emitted.reverse ++ ts)
      ((emitted.map (Token.lowered seam.shift)).reverse ++ ts') := by
  -- The tokens are taken off from behind and put in front of what follows them.
  induction h generalizing ts ts' with
  | nil => exact halong
  | printed hprinted h ih =>
    have hnext : ∀ t ∈ ts.head?, t.lexeme.IsOnLine := by
      refine hnext.resolve_left fun hbare => ?_
      have hnot := hbare _ rfl
      rw [hprinted] at hnot
      cases hnot
    rw [List.reverse_cons, List.append_assoc, List.map_cons, List.reverse_cons, List.append_assoc]
    refine ih (Or.inr ?_) (.printed hprinted rfl hnext halong)
    rintro _ ⟨⟩
    exact Or.inl hprinted
  | newline h ih =>
    rw [List.reverse_cons, List.append_assoc, List.map_cons, List.reverse_cons, List.append_assoc]
    refine ih (Or.inr ?_) (.newline rfl halong)
    rintro _ ⟨⟩
    exact Or.inr rfl
  | indent hbare h ih =>
    rw [List.reverse_cons, List.append_assoc, List.map_cons, List.reverse_cons, List.append_assoc]
    exact ih (Or.inl hbare) (.indent rfl halong)
  | dedent hbare h ih =>
    rw [List.reverse_cons, List.append_assoc, List.map_cons, List.reverse_cons, List.append_assoc]
    exact ih (Or.inl hbare) (.dedent halong)

/-! ## Tidy scanners -/

/-- Whether the margin of a line is measured. -/
def Mode.isMargin : Mode → Bool
  | .margin _ | .marginComment => true
  | _ => false

/-- What is begun behind a last character: a mark begins with that character, and no literal ends
    with its line. -/
def Mode.Begun (last : Option Char) : Mode → Prop
  | .pending _ first => last = some first
  | .opened l | .openedTwice l | .short l _ | .shortEscape l _ | .long l _ _ | .longEscape l _ =>
    l.quote ≠ '\n'
  | _ => True

namespace Scanner

/-- A scanner that counts open blocks and brackets as its tokens open them. -/
structure Orderly (s : Scanner) : Prop where
  tidy : Tidy s.emitted s.widths.length s.brackets
  positive : ∀ width ∈ s.widths, 0 < width

/-- An orderly scanner between lines: no bracket is open, and the last token ends a line. -/
structure BetweenLines (s : Scanner) : Prop where
  brackets : s.brackets = 0
  top : ∀ t ∈ s.emitted.head?, t.lexeme = .newline

/-- A scanner that stands behind a last character and is orderly. -/
structure Tidied (last : Option Char) (s : Scanner) : Prop where
  orderly : s.Orderly
  begun : s.mode.Begun last
  margin : s.mode.isMargin = true → s.BetweenLines

/-- A step that leads to such a scanner, or fails. -/
def ToTidied (last : Option Char) (step : Except SyntaxError Scanner) : Prop :=
  ∀ s, step = .ok s → s.Tidied last

namespace ToTidied

variable {last : Option Char} {step step' : Except SyntaxError Scanner}

theorem ok {s : Scanner} (h : s.Tidied last) : ToTidied last (.ok s) := by
  intro s' heq
  cases heq
  exact h

theorem error (e : SyntaxError) : ToTidied last (.error e) := by
  intro s heq
  cases heq

theorem ite {b : Prop} [Decidable b] (h : b → ToTidied last step) (h' : ¬ b → ToTidied last step') :
    ToTidied last (if b then step else step') := by
  split
  · rename_i hb
    exact h hb
  · rename_i hb
    exact h' hb

end ToTidied

theorem readNumber?_printed {cs : List Char} {lexeme : Lexeme} (h : readNumber? cs = some lexeme) :
    lexeme.isPrinted = true ∧ ∀ b, lexeme.brackets b = b := by
  unfold readNumber? at h
  dsimp only at h
  split at h
  case h_4 =>
    split at h
    all_goals
      obtain ⟨n, -, rfl⟩ := Option.map_eq_some_iff.mp h
      exact ⟨rfl, fun _ => rfl⟩
  all_goals
    obtain ⟨n, -, rfl⟩ := Option.map_eq_some_iff.mp h
    exact ⟨rfl, fun _ => rfl⟩

theorem BetweenLines.bare {s : Scanner} (h : s.BetweenLines) : Bare s.emitted := by
  intro t ht
  rw [h.top t ht]
  rfl

namespace Orderly

variable {s : Scanner} {last : Option Char}

theorem withMode (h : s.Orderly) (mode : Mode) : { s with mode := mode }.Orderly :=
  ⟨h.tidy, h.positive⟩

/-- Within a line. -/
theorem tidied (h : s.Orderly) (hmargin : s.mode.isMargin = false) (hbegun : s.mode.Begun last) :
    s.Tidied last := by
  refine ⟨h, hbegun, fun hmode => ?_⟩
  rw [hmargin] at hmode
  cases hmode

/-- A printed token that is no bracket. -/
theorem emit (h : s.Orderly) (position : Position) {lexeme : Lexeme}
    (hprinted : lexeme.isPrinted = true) (hbrackets : ∀ b, lexeme.brackets b = b) :
    (s.emit position lexeme).Orderly := by
  have htidy : Tidy (⟨lexeme, position⟩ :: s.emitted) s.widths.length
      (lexeme.brackets s.brackets) := .printed hprinted h.tidy
  rw [hbrackets] at htidy
  exact ⟨htidy, h.positive⟩

theorem emitText (h : s.Orderly) (position : Position) (value : String) :
    (s.emitText position value).Orderly := by
  unfold Scanner.emitText
  split
  · rename_i before place tokens heq
    have htidy := h.tidy
    rw [heq] at htidy
    cases htidy with
    | printed _ htidy => exact ⟨.printed rfl htidy, h.positive⟩
  · exact h.emit position rfl fun _ => rfl

theorem emitMark (h : s.Orderly) (position : Position) (m : Mark) :
    (s.emitMark position m).Orderly := by
  have htidy : Tidy (⟨.mark m, position⟩ :: s.emitted) s.widths.length
      ((Lexeme.mark m).brackets s.brackets) := .printed rfl h.tidy
  cases m <;> exact ⟨htidy, h.positive⟩

theorem emitNewline (h : s.Orderly) (position : Position) :
    (s.emit position .newline).Orderly :=
  ⟨.newline h.tidy, h.positive⟩

/-- The margin of a line opens a block, or closes some. -/
theorem indentTo (h : s.Orderly) (hbare : Bare s.emitted) {width : Nat} {t : Scanner}
    (heq : s.indentTo width = .ok t) : t.Orderly := by
  by_cases hgt : s.widths.headD 0 < width
  · rw [indentTo_of_lt hgt] at heq
    cases heq
    refine ⟨.indent hbare h.tidy, List.forall_mem_cons.mpr ⟨?_, h.positive⟩⟩
    exact Nat.lt_of_le_of_lt (Nat.zero_le _) hgt
  · rw [indentTo_of_le hgt] at heq
    split at heq
    · cases heq
      have hwidths : s.widths.length = (s.widths.takeWhile (· > width)).length +
          (s.widths.dropWhile (· > width)).length := by
        rw [← List.length_append, List.takeWhile_append_dropWhile]
      have htidy := h.tidy
      rw [hwidths] at htidy
      refine ⟨(htidy.dedents _ hbare).1, fun w hw => h.positive w ?_⟩
      exact (List.dropWhile_sublist _).mem hw
    · cases heq

theorem settle (h : s.Orderly) {t : Scanner} (heq : s.settle = .ok t) : t.Orderly := by
  unfold Scanner.settle at heq
  split at heq
  · cases heq
    exact h
  · cases heq
    exact h
  · cases heq
    exact h
  · cases heq
    exact h
  · split at heq
    · cases heq
      exact h.emitMark _ _
    · cases heq
  · cases heq
    exact h.emit _ rfl fun _ => rfl
  · split at heq
    · rename_i hnumber
      cases heq
      obtain ⟨hprinted, hbrackets⟩ := readNumber?_printed hnumber
      exact h.emit _ hprinted hbrackets
    · cases heq
  · cases heq
    exact h.emitText _ _
  all_goals cases heq

theorem begin (h : s.Orderly) (c : Char) : ToTidied (some c) (s.begin c) := by
  have hmode (mode : Mode) (hmargin : mode.isMargin = false) (hbegun : mode.Begun (some c)) :
      ToTidied (some c) (.ok { s with mode := mode }) :=
    .ok ((h.withMode mode).tidied hmargin hbegun)
  refine .ite (fun _ => hmode _ rfl trivial) fun _ => .ite (fun _ => hmode _ rfl trivial) fun _ =>
    .ite (fun _ => ?_) fun _ => .ite (fun hquote => hmode _ rfl ?_) fun _ =>
      .ite (fun _ => hmode _ rfl trivial) fun _ => .ite (fun _ => hmode _ rfl rfl) fun _ => ?_
  · refine .ite (fun hbrackets => .ok ⟨(h.emitNewline _).withMode _, trivial, fun _ => ?_⟩) fun _ =>
      hmode _ rfl trivial
    refine ⟨hbrackets, ?_⟩
    rintro _ ⟨⟩
    rfl
  · rcases hquote with rfl | rfl
    · exact (by decide : '"' ≠ '\n')
    · exact (by decide : '\'' ≠ '\n')
  · split
    · exact .ok ((h.emitMark _ _).tidied rfl trivial)
    · exact .ite (fun _ => hmode _ rfl trivial) fun _ => .error _

theorem restart (h : s.Orderly) (c : Char) : ToTidied (some c) (s.restart c) := by
  intro t heq
  obtain ⟨settled, hsettle, hbegin⟩ := ok_of_bind heq
  exact (h.settle hsettle).begin c t hbegin

theorem tidied_emitText (h : s.Orderly) (position : Position) (value : String) :
    (s.emitText position value).Tidied last := by
  have hmode : (s.emitText position value).mode = .between := by
    unfold Scanner.emitText
    split <;> rfl
  refine (h.emitText position value).tidied ?_ ?_
  · rw [hmode]
    rfl
  · rw [hmode]
    exact trivial

theorem stepShort (h : s.Orderly) {l : Literal} (hquote : l.quote ≠ '\n') (reversed : List Char)
    (c : Char) : ToTidied last (s.stepShort l reversed c) :=
  .ite (fun _ => .ok (h.tidied_emitText _ _)) fun _ => .ite (fun _ => .error _) fun _ =>
    .ite (fun _ => .ok ((h.withMode _).tidied rfl hquote)) fun _ =>
      .ok ((h.withMode _).tidied rfl hquote)

theorem stepLong (h : s.Orderly) {l : Literal} (hquote : l.quote ≠ '\n') (closing : Nat)
    (reversed : List Char) (c : Char) : (s.stepLong l closing reversed c).Tidied last := by
  unfold Scanner.stepLong
  dsimp only
  split
  · split
    · exact h.tidied_emitText _ _
    · exact (h.withMode _).tidied rfl hquote
  · split
    · exact (h.withMode _).tidied rfl hquote
    · exact (h.withMode _).tidied rfl hquote

end Orderly

namespace Tidied

variable {s : Scanner} {last : Option Char}

theorem react (h : s.Tidied last) (c : Char) : ToTidied (some c) (s.react c) := by
  obtain ⟨horderly, hbegun, hmargin⟩ := h
  have hmode (mode : Mode) (hmargin : mode.isMargin = false) (hbegun : mode.Begun (some c)) :
      ToTidied (some c) (.ok { s with mode := mode }) :=
    .ok ((horderly.withMode mode).tidied hmargin hbegun)
  have hkeep (hbetween : s.BetweenLines) (mode : Mode) (hbegun : mode.Begun (some c)) :
      ToTidied (some c) (.ok { s with mode := mode }) :=
    .ok ⟨horderly.withMode mode, hbegun, fun _ => ⟨hbetween.brackets, hbetween.top⟩⟩
  have hrestart := horderly.restart c
  obtain ⟨mode, next, widths, brackets, emitted⟩ := s
  cases mode with
  | margin width =>
    have hkeep := hkeep (hmargin rfl)
    refine .ite (fun _ => hkeep _ trivial) fun _ => .ite (fun _ => hkeep _ trivial) fun _ =>
      .ite (fun _ => hkeep (.margin width) trivial) fun _ => .ite (fun _ => hkeep _ trivial)
        fun _ => .ite (fun _ => hkeep _ trivial) fun _ => ?_
    intro t ht
    obtain ⟨opened, hopened, hbegin⟩ := ok_of_bind ht
    exact (horderly.indentTo (hmargin rfl).bare hopened).begin c t hbegin
  | marginComment =>
    have hkeep := hkeep (hmargin rfl)
    by_cases hbreak : c = '\n'
    · rw [Scanner.react, if_pos hbreak]
      exact hkeep (.margin 0) trivial
    · rw [Scanner.react, if_neg hbreak]
      exact hkeep .marginComment trivial
  | between => exact horderly.begin c
  | comment => exact .ite (fun _ => horderly.begin c) fun _ => hmode .comment rfl trivial
  | pending position first =>
    refine .ite (fun _ => hmode _ rfl trivial) fun _ => .ite (fun _ => hmode _ rfl trivial)
      fun _ => ?_
    split
    · exact .ok ((horderly.emitMark _ _).tidied rfl trivial)
    · exact hrestart
  | name position reversed =>
    refine .ite (fun _ => hmode _ rfl trivial) fun _ => .ite (fun hquote => hmode _ rfl ?_) fun _ =>
      hrestart
    rcases hquote.1 with rfl | rfl
    · exact (by decide : '"' ≠ '\n')
    · exact (by decide : '\'' ≠ '\n')
  | number position reversed => exact .ite (fun _ => hmode _ rfl trivial) fun _ => hrestart
  | opened l => exact .ite (fun _ => hmode _ rfl hbegun) fun _ => horderly.stepShort hbegun _ c
  | openedTwice l => exact .ite (fun _ => hmode _ rfl hbegun) fun _ => hrestart
  | short l reversed => exact horderly.stepShort hbegun _ c
  | shortEscape l reversed => exact hmode _ rfl hbegun
  | long l closing reversed => exact .ok (horderly.stepLong hbegun _ _ c)
  | longEscape l reversed => exact hmode _ rfl hbegun

theorem step (h : s.Tidied last) (c : Char) : ToTidied (some c) (s.step c) := by
  intro t heq
  obtain ⟨next, hreact, rfl⟩ := ok_of_map heq
  obtain ⟨⟨htidy, hpositive⟩, hbegun, hmargin⟩ := h.react c next hreact
  exact ⟨⟨htidy, hpositive⟩, hbegun, fun hmode =>
    ⟨(hmargin hmode).brackets, (hmargin hmode).top⟩⟩

theorem run (h : s.Tidied last) (cs : List Char) : ToTidied (cs.getLast?.or last) (s.run cs) := by
  induction cs generalizing s last with
  | nil => exact .ok h
  | cons c cs ih =>
    intro t heq
    obtain ⟨mid, hstep, hrun⟩ := ok_of_bind heq
    have hlast : (c :: cs).getLast?.or last = cs.getLast?.or (some c) := by
      rw [List.getLast?_cons]
      cases cs.getLast? <;> rfl
    rw [hlast]
    exact ih (h.step c mid hstep) t hrun

end Tidied

theorem tidied_start : start.Tidied none :=
  ⟨⟨.nil, List.forall_mem_nil _⟩, trivial, fun _ => ⟨rfl, by simp [start]⟩⟩

/-! ## Ends of lines -/

section Ends

variable {s t next : Scanner}

/-- No mark ends with a line break. -/
theorem twoMark_newline (first : Char) : twoMark first '\n' = none := by
  unfold twoMark
  split <;> simp_all

/-- No number goes on with a line break. -/
theorem continuesNumber_newline (reversed : List Char) :
    continuesNumber reversed '\n' = false := by
  unfold continuesNumber
  rfl

/-- A scanner at the start of a line, which measures its margin or goes on inside brackets. -/
inductive AtLine : Scanner → Prop
  | margin (next : Position) (widths : List Nat) (brackets : Nat) (emitted : List Token) :
    AtLine ⟨.margin 0, next, widths, brackets, emitted⟩
  | joined (next : Position) (widths : List Nat) {brackets : Nat} (emitted : List Token)
    (hopen : brackets ≠ 0) : AtLine ⟨.between, next, widths, brackets, emitted⟩

theorem AtLine.withNext (h : s.AtLine) (place : Position) : { s with next := place }.AtLine := by
  cases h with
  | margin next widths brackets emitted => exact .margin place widths brackets emitted
  | joined next widths emitted hopen => exact .joined place widths emitted hopen

theorem atLine_of_begin (hbegin : s.begin '\n' = .ok next) : next.AtLine := by
  unfold begin at hbegin
  rw [if_neg (by decide), if_neg (by decide), if_pos rfl] at hbegin
  by_cases hopen : s.brackets = 0
  · rw [if_pos hopen] at hbegin
    cases hbegin
    exact .margin _ _ _ _
  · rw [if_neg hopen] at hbegin
    cases hbegin
    exact .joined _ _ _ hopen

theorem atLine_of_restart (hrestart : s.restart '\n' = .ok next) : next.AtLine := by
  obtain ⟨settled, -, hbegin⟩ := ok_of_bind hrestart
  exact atLine_of_begin hbegin

theorem stepShort_newline {l : Literal} {reversed : List Char} (hquote : l.quote ≠ '\n') :
    s.stepShort l reversed '\n' ≠ .ok next := by
  unfold stepShort
  rw [if_neg hquote.symm, if_pos rfl]
  intro heq
  cases heq

/-- Behind a line break that is neither in a literal nor behind a backslash a line starts. -/
theorem Tidied.atLine_of_newline {last : Option Char} (h : s.Tidied last)
    (hlast : last ≠ some '\\') (hstep : s.step '\n' = .ok next) (hsettle : next.settle = .ok t) :
    next.AtLine := by
  obtain ⟨after, hreact, rfl⟩ := ok_of_map hstep
  have hbegun := h.begun
  refine AtLine.withNext ?_ _
  obtain ⟨mode, place, widths, brackets, emitted⟩ := s
  cases mode with
  | margin width =>
    cases hreact
    exact .margin _ _ _ _
  | marginComment =>
    cases hreact
    exact .margin _ _ _ _
  | between => exact atLine_of_begin hreact
  | comment => exact atLine_of_begin hreact
  | pending position first =>
    have hfirst : first ≠ '\\' := by
      rintro rfl
      exact hlast hbegun
    dsimp only [Scanner.react] at hreact
    rw [if_neg (fun hboth => hfirst hboth.1), if_neg (fun hboth => absurd hboth.2 (by decide)),
      twoMark_newline] at hreact
    exact atLine_of_restart hreact
  | name position reversed =>
    dsimp only [Scanner.react] at hreact
    rw [if_neg (by decide), if_neg (fun hboth => absurd hboth.1 (by decide))] at hreact
    exact atLine_of_restart hreact
  | number position reversed =>
    dsimp only [Scanner.react] at hreact
    rw [if_neg (by rw [continuesNumber_newline]; decide)] at hreact
    exact atLine_of_restart hreact
  | opened l =>
    dsimp only [Scanner.react] at hreact
    rw [if_neg (Ne.symm hbegun)] at hreact
    exact absurd hreact (stepShort_newline hbegun)
  | openedTwice l =>
    dsimp only [Scanner.react] at hreact
    rw [if_neg (Ne.symm hbegun)] at hreact
    exact atLine_of_restart hreact
  | short l reversed => exact absurd hreact (stepShort_newline hbegun)
  | shortEscape l reversed =>
    cases hreact
    cases hsettle
  | long l closing reversed =>
    dsimp only [Scanner.react, stepLong] at hreact
    rw [if_neg (Ne.symm hbegun), if_neg (by decide)] at hreact
    cases hreact
    cases hsettle
  | longEscape l reversed =>
    cases hreact
    cases hsettle

/-- Behind a line break that is neither in a literal nor in brackets, nor behind a backslash, a
    margin is measured. -/
theorem Tidied.margin_of_newline {last : Option Char} (h : s.Tidied last)
    (hlast : last ≠ some '\\') (hstep : s.step '\n' = .ok next) (hsettle : next.settle = .ok t)
    (hbrackets : t.brackets = 0) : next.mode = .margin 0 := by
  cases h.atLine_of_newline hlast hstep hsettle with
  | margin _ _ _ _ => rfl
  | joined _ _ _ hopen =>
    cases hsettle
    exact absurd hbrackets hopen

end Ends

end Scanner

end Monorepo.Script
