import Monorepo.Proofs.Scanning

/-!
# The scanner at other places

The scanner notes where things stand and never asks, and of the tokens that it has left it looks at
the last one only, and only to append a literal to it. So a scanner whose places have been renamed,
and that has left other tokens before, does what it did without them, and leaves the same tokens at
the renamed places, as long as a renamed line still starts in its first column and the characters of
a text still stand one behind the other.
-/

namespace Monorepo.Script

variable {f : Position → Position}

/-! ## Renamed places -/

/-- A fault at its renamed place. -/
def SyntaxError.relocated (f : Position → Position) (e : SyntaxError) : SyntaxError :=
  ⟨f e.position, e.fault⟩

/-- A token at its renamed place. -/
def Token.relocated (f : Position → Position) (t : Token) : Token := ⟨t.lexeme, f t.position⟩

/-- A literal at its renamed place. -/
def Literal.relocated (f : Position → Position) (l : Literal) : Literal :=
  ⟨f l.start, l.raw, l.quote⟩

/-- What is begun, at its renamed place. -/
def Mode.relocated (f : Position → Position) : Mode → Mode
  | .margin width => .margin width
  | .marginComment => .marginComment
  | .between => .between
  | .comment => .comment
  | .pending start first => .pending (f start) first
  | .name start reversed => .name (f start) reversed
  | .number start reversed => .number (f start) reversed
  | .opened l => .opened (l.relocated f)
  | .openedTwice l => .openedTwice (l.relocated f)
  | .short l reversed => .short (l.relocated f) reversed
  | .shortEscape l reversed => .shortEscape (l.relocated f) reversed
  | .long l closing reversed => .long (l.relocated f) closing reversed
  | .longEscape l reversed => .longEscape (l.relocated f) reversed

/-- A renaming that keeps the starts of lines, on the line of a place. -/
def KeepsLine (f : Position → Position) (p : Position) : Prop := f ⟨p.line, 1⟩ = ⟨(f p).line, 1⟩

/-- A renaming under which a text that begins at a place can begin at the renamed one. -/
def Carries (f : Position → Position) : Position → List Char → Prop
  | _, [] => True
  | p, c :: cs => KeepsLine f p ∧ f (p.after c) = (f p).after c ∧ Carries f (p.after c) cs

namespace Scanner

/-- A scanner with all its places renamed that has left the tokens of `base` before, the last one
    first. -/
def relocated (f : Position → Position) (base : List Token) (s : Scanner) : Scanner :=
  ⟨s.mode.relocated f, f s.next, s.widths, s.brackets, s.emitted.map (Token.relocated f) ++ base⟩

/-- No literal can be appended to the tokens left before. -/
def Closes (base : List Token) : Prop := ∀ t ∈ base.head?, ∀ value, t.lexeme ≠ .text value

theorem closes_nil : Closes [] := nofun

/-- Two results of which the second is the first at renamed places, behind other tokens. -/
inductive Relocates (f : Position → Position) (base : List Token) :
    (result result' : Except SyntaxError Scanner) → Prop
  | ok (s : Scanner) : Relocates f base (.ok s) (.ok (s.relocated f base))
  | error (e : SyntaxError) : Relocates f base (.error e) (.error (e.relocated f))

namespace Relocates

variable {base : List Token} {result result' other other' : Except SyntaxError Scanner}

theorem ite {b : Prop} [Decidable b] (h : Relocates f base result result')
    (h' : Relocates f base other other') :
    Relocates f base (if b then result else other) (if b then result' else other') := by
  split
  · exact h
  · exact h'

theorem bind (h : Relocates f base result result')
    {next next' : Scanner → Except SyntaxError Scanner}
    (hnext : ∀ s, result = .ok s → Relocates f base (next s) (next' (s.relocated f base))) :
    Relocates f base (result.bind next) (result'.bind next') := by
  cases h with
  | ok s => exact hnext s rfl
  | error e => exact .error e

theorem eq_relocated {s t : Scanner} (h : Relocates f base (.ok s) (.ok t)) :
    t = s.relocated f base := by
  cases h
  rfl

end Relocates

variable {base : List Token} {s t : Scanner}

theorem relocates_mode (s : Scanner) (mode : Mode) :
    Relocates f base (.ok { s with mode := mode })
      (.ok { s.relocated f base with mode := mode.relocated f }) :=
  .ok { s with mode := mode }

theorem relocates_emitText (hbase : Closes base) (s : Scanner) (position : Position)
    (value : String) :
    Relocates f base (.ok (s.emitText position value))
      (.ok ((s.relocated f base).emitText (f position) value)) := by
  have hemit : (s.relocated f base).emitText (f position) value =
      (s.emitText position value).relocated f base := by
    obtain ⟨mode, next, widths, brackets, emitted⟩ := s
    cases emitted with
    | nil =>
      cases base with
      | nil => rfl
      | cons t ts =>
        obtain ⟨lexeme, place⟩ := t
        cases lexeme with
        | text before => exact absurd rfl (hbase _ rfl before)
        | _ => rfl
    | cons t ts =>
      obtain ⟨lexeme, place⟩ := t
      cases lexeme <;> rfl
  rw [hemit]
  exact .ok _

theorem relocates_indentTo (hline : KeepsLine f s.next) (width : Nat) :
    Relocates f base (s.indentTo width) ((s.relocated f base).indentTo width) := by
  by_cases hgt : s.widths.headD 0 < width
  · rw [indentTo_of_lt hgt, indentTo_of_lt (s := s.relocated f base) hgt]
    have hplace : (⟨(f s.next).line, 1⟩ : Position) = f ⟨s.next.line, 1⟩ := hline.symm
    dsimp only [relocated]
    rw [hplace]
    exact .ok _
  · rw [indentTo_of_le hgt, indentTo_of_le (s := s.relocated f base) hgt]
    refine .ite ?_ (.error _)
    have hdedents (n : Nat) : List.replicate n (⟨.dedent, ⟨(f s.next).line, 1⟩⟩ : Token) ++
        (s.emitted.map (Token.relocated f) ++ base) =
          (List.replicate n (⟨.dedent, ⟨s.next.line, 1⟩⟩ : Token) ++ s.emitted).map
            (Token.relocated f) ++ base := by
      rw [List.map_append, List.map_replicate, Token.relocated, hline, List.append_assoc]
    dsimp only [relocated]
    rw [hdedents]
    exact .ok _

theorem relocates_settle (hbase : Closes base) (s : Scanner) :
    Relocates f base s.settle (s.relocated f base).settle := by
  obtain ⟨mode, next, widths, brackets, emitted⟩ := s
  cases mode with
  | margin _ | marginComment | between | comment => exact .ok _
  | pending start first =>
    unfold settle
    dsimp only [relocated, Mode.relocated]
    split
    · exact .ok _
    · exact .error _
  | name start reversed => exact .ok _
  | number start reversed =>
    unfold settle
    dsimp only [relocated, Mode.relocated]
    split
    · exact .ok _
    · exact .error _
  | openedTwice l => exact relocates_emitText hbase _ l.start ""
  | opened _ | short _ _ | shortEscape _ _ | long _ _ _ | longEscape _ _ => exact .error _

theorem relocates_begin (s : Scanner) (c : Char) :
    Relocates f base (s.begin c) ((s.relocated f base).begin c) := by
  have hmode (mode : Mode) : Relocates f base (.ok { s with mode := mode })
      (.ok { s.relocated f base with mode := mode.relocated f }) := relocates_mode s mode
  refine .ite (hmode _) (.ite (hmode _) (.ite (.ite (.ok _) (hmode _)) (.ite (hmode _)
    (.ite (hmode _) (.ite (hmode _) ?_)))))
  split
  · exact .ok _
  · exact .ite (hmode _) (.error _)

theorem relocates_restart (hbase : Closes base) (s : Scanner) (c : Char) :
    Relocates f base (s.restart c) ((s.relocated f base).restart c) :=
  (relocates_settle hbase s).bind fun s _ => relocates_begin s c

theorem relocates_stepShort (hbase : Closes base) (s : Scanner) (l : Literal)
    (reversed : List Char) (c : Char) :
    Relocates f base (s.stepShort l reversed c)
      ((s.relocated f base).stepShort (l.relocated f) reversed c) :=
  .ite (relocates_emitText hbase s l.start _) (.ite (.error _)
    (.ite (relocates_mode s (.shortEscape l reversed))
      (relocates_mode s (.short l (c :: reversed)))))

theorem relocates_stepLong (hbase : Closes base) (s : Scanner) (l : Literal) (closing : Nat)
    (reversed : List Char) (c : Char) :
    Relocates f base (.ok (s.stepLong l closing reversed c))
      (.ok ((s.relocated f base).stepLong (l.relocated f) closing reversed c)) := by
  unfold stepLong
  dsimp only [Literal.relocated]
  split
  · split
    · exact relocates_emitText hbase s l.start _
    · exact relocates_mode s (.long l (closing + 1) reversed)
  · split
    · exact relocates_mode s (.longEscape l _)
    · exact relocates_mode s (.long l 0 _)

theorem relocates_react (hbase : Closes base) (hline : KeepsLine f s.next) (c : Char) :
    Relocates f base (s.react c) ((s.relocated f base).react c) := by
  have hindent (width : Nat) : Relocates f base (s.indentTo width)
      ((s.relocated f base).indentTo width) := relocates_indentTo hline width
  have hmode (mode : Mode) : Relocates f base (.ok { s with mode := mode })
      (.ok { s.relocated f base with mode := mode.relocated f }) := relocates_mode s mode
  obtain ⟨mode, next, widths, brackets, emitted⟩ := s
  cases mode with
  | margin width =>
    refine .ite (.ok _) (.ite (.ok _) (.ite (.ok _) (.ite (.ok _) (.ite (.ok _) ?_))))
    exact (hindent width).bind fun s _ => relocates_begin s c
  | marginComment =>
    unfold react
    dsimp only [relocated, Mode.relocated]
    split
    · exact .ok _
    · exact .ok _
  | between => exact relocates_begin _ c
  | comment => exact .ite (relocates_begin _ c) (.ok _)
  | pending start first =>
    refine .ite (.ok _) (.ite (hmode (.number start [c, '.'])) ?_)
    dsimp only [relocated, Mode.relocated]
    split
    · exact .ok _
    · exact relocates_restart hbase _ c
  | name start reversed =>
    exact .ite (hmode (.name start (c :: reversed)))
      (.ite (hmode (.opened ⟨next, reversed.any (·.toLower == 'r'), c⟩))
        (relocates_restart hbase _ c))
  | number start reversed =>
    exact .ite (hmode (.number start (if c = '_' then reversed else c :: reversed)))
      (relocates_restart hbase _ c)
  | opened l => exact .ite (.ok _) (relocates_stepShort hbase _ l [] c)
  | openedTwice l => exact .ite (.ok _) (relocates_restart hbase _ c)
  | short l reversed => exact relocates_stepShort hbase _ l reversed c
  | shortEscape l reversed => exact .ok _
  | long l closing reversed => exact relocates_stepLong hbase _ l closing reversed c
  | longEscape l reversed => exact .ok _

theorem relocates_step (hbase : Closes base) {c : Char} (hline : KeepsLine f s.next)
    (hafter : f (s.next.after c) = (f s.next).after c) :
    Relocates f base (s.step c) ((s.relocated f base).step c) := by
  have hreact := relocates_react hbase hline c
  unfold step
  generalize s.react c = result, (s.relocated f base).react c = result' at hreact
  cases hreact with
  | ok t =>
    change Relocates f base _ (.ok { t.relocated f base with next := (f s.next).after c })
    rw [← hafter]
    exact .ok { t with next := s.next.after c }
  | error e => exact .error e

theorem relocates_run (hbase : Closes base) {cs : List Char} (hcarries : Carries f s.next cs) :
    Relocates f base (s.run cs) ((s.relocated f base).run cs) := by
  induction cs generalizing s with
  | nil => exact .ok s
  | cons c cs ih =>
    obtain ⟨hline, hafter, hrest⟩ := hcarries
    refine (relocates_step hbase hline hafter).bind fun t ht => ih ?_
    rw [next_of_step ht]
    exact hrest

/-! ## Renamed places only -/

/-- If a renaming keeps the places of a scanner it keeps those that a character adds. -/
theorem relocated_of_react {c : Char} (hline : KeepsLine f s.next) (hs : s.relocated f [] = s)
    (hreact : s.react c = .ok t) : t.relocated f [] = t := by
  have hrelocates := relocates_react closes_nil hline c
  rw [hs, hreact] at hrelocates
  exact hrelocates.eq_relocated.symm

/-- If a renaming keeps the places of a scanner it keeps those that a text adds. -/
theorem relocated_of_run {cs : List Char} (hcarries : Carries f s.next cs)
    (hs : s.relocated f [] = s) (hrun : s.run cs = .ok t) : t.relocated f [] = t := by
  have hrelocates := relocates_run closes_nil hcarries
  rw [hs, hrun] at hrelocates
  exact hrelocates.eq_relocated.symm

theorem tokens_relocated (f : Position → Position) (s : Scanner) :
    (s.relocated f []).tokens = s.tokens.map (Token.relocated f) := by
  have hend : (s.relocated f []).endLine = s.endLine.relocated f [] := by
    obtain ⟨mode, next, widths, brackets, emitted⟩ := s
    cases emitted with
    | nil => rfl
    | cons t ts =>
      obtain ⟨lexeme, place⟩ := t
      cases lexeme <;> rfl
  have hended : (s.relocated f []).ended = s.ended.map (Token.relocated f) := by
    unfold ended closedAt
    rw [hend, List.map_append, List.map_replicate]
    exact congrArg _ (List.append_nil _)
  unfold tokens
  rw [hended, List.map_append, List.map_reverse]
  rfl

theorem close_relocated (f : Position → Position) (s : Scanner) :
    (s.relocated f []).close = match s.close with
      | .ok tokens => .ok (tokens.map (Token.relocated f))
      | .error e => .error (e.relocated f) := by
  have hsettle := relocates_settle (f := f) closes_nil s
  generalize heq : s.settle = result, heq' : (s.relocated f []).settle = result' at hsettle
  cases hsettle with
  | ok t => rw [close_of_settle heq, close_of_settle heq', tokens_relocated]
  | error e =>
    unfold close
    rw [heq, heq']
    rfl

/-- The tokens of a text from a scanner at renamed places. -/
theorem close_run_relocated {cs : List Char} (hcarries : Carries f s.next cs) :
    ((s.relocated f []).run cs).bind close = match (s.run cs).bind close with
      | .ok tokens => .ok (tokens.map (Token.relocated f))
      | .error e => .error (e.relocated f) := by
  have hrun := relocates_run closes_nil hcarries
  generalize s.run cs = result, (s.relocated f []).run cs = result' at hrun
  cases hrun with
  | ok t => exact close_relocated f t
  | error e => rfl

end Scanner

end Monorepo.Script
