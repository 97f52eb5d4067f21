import Monorepo.Proofs.Sorting
import Monorepo.Script.Syntax.Grammar

/-!
# The characters of names

A name in a script is made of letters, numerals and underscores: each character that the scanner
adds to a name is one of them, and so are those of the names among the tokens that it leaves.
-/

namespace Monorepo.Script

/-- Whether a character may stand in a name. -/
def isWordChar (c : Char) : Bool := Text.isLetter c || Text.isNumeral c || c == '_'

/-- Characters that may all stand in a name. -/
def IsWord (cs : List Char) : Prop := ∀ c ∈ cs, isWordChar c = true

/-- A lexeme that is a name is made of the characters of names. -/
def Lexeme.IsWordly (lexeme : Lexeme) : Prop := ∀ name, lexeme = .name name → IsWord name.toList

theorem Lexeme.isWordly_of_ne {lexeme : Lexeme} (h : ∀ name, lexeme ≠ .name name) :
    lexeme.IsWordly :=
  fun name heq => absurd heq (h name)

namespace Scanner

/-- All names so far, the one under way included, are made of the characters of names. -/
structure Wordly (s : Scanner) : Prop where
  emitted : ∀ t ∈ s.emitted, t.lexeme.IsWordly
  mode : ∀ position reversed, s.mode = .name position reversed → IsWord reversed

/-- A step that leads to such a scanner, or fails. -/
def ToWordly (step : Except SyntaxError Scanner) : Prop := ∀ s, step = .ok s → s.Wordly

namespace ToWordly

variable {step step' : Except SyntaxError Scanner}

theorem ok {s : Scanner} (h : s.Wordly) : ToWordly (.ok s) := by
  intro s' heq
  cases heq
  exact h

theorem error (e : SyntaxError) : ToWordly (.error e) := nofun

theorem ite {b : Prop} [Decidable b] (h : ToWordly step) (h' : ToWordly step') :
    ToWordly (if b then step else step') := by
  split
  · exact h
  · exact h'

theorem bind (h : ToWordly step) {next : Scanner → Except SyntaxError Scanner}
    (hnext : ∀ s : Scanner, s.Wordly → ToWordly (next s)) : ToWordly (step.bind next) := by
  intro s' heq
  obtain ⟨s, hstep, hrest⟩ := ok_of_bind heq
  exact hnext s (h s hstep) s' hrest

end ToWordly

namespace Wordly

variable {s : Scanner}

/-- What is begun is no name. -/
theorem withMode (h : s.Wordly) {mode : Mode}
    (hmode : ∀ position reversed, mode ≠ .name position reversed) :
    { s with mode := mode }.Wordly :=
  ⟨h.emitted, fun position reversed heq => absurd heq (hmode position reversed)⟩

/-- What is begun is a name. -/
theorem withName (h : s.Wordly) (position : Position) {reversed : List Char}
    (hreversed : IsWord reversed) : { s with mode := .name position reversed }.Wordly := by
  refine ⟨h.emitted, fun position' reversed' heq => ?_⟩
  cases heq
  exact hreversed

theorem emit (h : s.Wordly) (position : Position) {lexeme : Lexeme} (hlexeme : lexeme.IsWordly) :
    (s.emit position lexeme).Wordly :=
  ⟨List.forall_mem_cons.mpr ⟨hlexeme, h.emitted⟩, nofun⟩

/-- A token that is no name. -/
theorem emitOther (h : s.Wordly) (position : Position) (lexeme : Lexeme)
    (hlexeme : ∀ name, lexeme ≠ .name name) : (s.emit position lexeme).Wordly :=
  h.emit position (Lexeme.isWordly_of_ne hlexeme)

theorem emitText (h : s.Wordly) (position : Position) (value : String) :
    (s.emitText position value).Wordly := by
  unfold Scanner.emitText
  split
  · rename_i heq
    have hemitted := h.emitted
    rw [heq] at hemitted
    refine ⟨List.forall_mem_cons.mpr ⟨?_, (List.forall_mem_cons.mp hemitted).2⟩, nofun⟩
    exact Lexeme.isWordly_of_ne nofun
  · exact h.emitOther position (.text value) nofun

theorem emitMark (h : s.Wordly) (position : Position) (m : Mark) :
    (s.emitMark position m).Wordly :=
  ⟨(h.emitOther position (.mark m) nofun).emitted, nofun⟩

theorem foldl_emit {α : Type} (h : s.Wordly) (items : List α)
    (position : Scanner → Position) (lexeme : Lexeme) (hlexeme : ∀ name, lexeme ≠ .name name) :
    (items.foldl (fun s _ => s.emit (position s) lexeme) s).Wordly := by
  induction items generalizing s with
  | nil => exact h
  | cons item items ih => exact ih (h.emitOther (position s) lexeme hlexeme)

theorem indentTo (h : s.Wordly) (width : Nat) : ToWordly (s.indentTo width) := by
  refine .ite (.ok ⟨(h.emitOther _ .indent nofun).emitted, nofun⟩)
    (.ite (.ok ⟨?_, nofun⟩) (.error _))
  exact (h.foldl_emit _ (fun _ => _) .dedent nofun).emitted

theorem readNumber?_ne_name {cs : List Char} {lexeme : Lexeme}
    (h : readNumber? cs = some lexeme) (name : String) : lexeme ≠ .name name := by
  unfold readNumber? at h
  dsimp only at h
  split at h
  case h_4 =>
    split at h
    all_goals
      obtain ⟨n, -, rfl⟩ := Option.map_eq_some_iff.mp h
      exact nofun
  all_goals
    obtain ⟨n, -, rfl⟩ := Option.map_eq_some_iff.mp h
    exact nofun

theorem settle (h : s.Wordly) : ToWordly s.settle := by
  unfold Scanner.settle
  split
  · exact .ok h
  · exact .ok h
  · exact .ok h
  · exact .ok h
  · split
    · exact .ok (h.emitMark _ _)
    · exact .error _
  · rename_i position reversed hmode
    refine .ok (h.emit position fun name hname => ?_)
    cases hname
    rw [String.toList_ofList]
    exact fun c hc => h.mode position reversed hmode c (List.mem_reverse.mp hc)
  · split
    · rename_i hlexeme
      exact .ok (h.emitOther _ _ (readNumber?_ne_name hlexeme))
    · exact .error _
  · exact .ok (h.emitText _ _)
  all_goals exact .error _

theorem begin (h : s.Wordly) (c : Char) : ToWordly (s.begin c) := by
  have hmode {mode : Mode} (hne : ∀ position reversed, mode ≠ .name position reversed) :
      ToWordly (.ok { s with mode := mode }) := .ok (h.withMode hne)
  refine .ite (hmode nofun) (.ite (hmode nofun) (.ite ?_ (.ite (hmode nofun)
    (.ite (hmode nofun) (.ite (hmode nofun) ?_)))))
  · exact .ite (.ok ((h.emitOther _ .newline nofun).withMode nofun)) (hmode nofun)
  · split
    · exact .ok (h.emitMark _ _)
    · split
      · rename_i hc
        refine .ok (h.withName _ (List.forall_mem_singleton.mpr ?_))
        unfold isWordChar
        rcases (Bool.or_eq_true _ _).mp hc with hletter | hunderscore
        · simp [hletter]
        · simp [hunderscore]
      · exact .error _

theorem restart (h : s.Wordly) (c : Char) : ToWordly (s.restart c) :=
  h.settle.bind fun _ hs => hs.begin c

theorem stepShort (h : s.Wordly) (l : Literal) (reversed : List Char) (c : Char) :
    ToWordly (s.stepShort l reversed c) :=
  .ite (.ok (h.emitText _ _)) (.ite (.error _)
    (.ite (.ok (h.withMode nofun)) (.ok (h.withMode nofun))))

theorem stepLong (h : s.Wordly) (l : Literal) (closing : Nat) (reversed : List Char) (c : Char) :
    (s.stepLong l closing reversed c).Wordly := by
  unfold Scanner.stepLong
  dsimp only
  split
  · split
    · exact h.emitText _ _
    · exact h.withMode nofun
  · split
    · exact h.withMode nofun
    · exact h.withMode nofun

theorem react (h : s.Wordly) (c : Char) : ToWordly (s.react c) := by
  have hmode {mode : Mode} (hne : ∀ position reversed, mode ≠ .name position reversed) :
      ToWordly (.ok { s with mode := mode }) := .ok (h.withMode hne)
  unfold Scanner.react
  split
  · exact .ite (hmode nofun) (.ite (hmode nofun) (.ite (.ok h) (.ite (hmode nofun)
      (.ite (hmode nofun) ((h.indentTo _).bind fun _ hs => hs.begin c)))))
  · refine .ok ?_
    split
    · exact h.withMode nofun
    · exact h
  · exact h.begin c
  · exact .ite (h.begin c) (.ok h)
  · refine .ite (hmode nofun) (.ite (hmode nofun) ?_)
    split
    · exact .ok (h.emitMark _ _)
    · exact h.restart c
  · rename_i position reversed heq
    split
    · rename_i hc
      exact .ok (h.withName _ (List.forall_mem_cons.mpr ⟨hc, h.mode position reversed heq⟩))
    · exact .ite (hmode nofun) (h.restart c)
  · exact .ite (hmode nofun) (h.restart c)
  · exact .ite (hmode nofun) (h.stepShort _ _ c)
  · exact .ite (hmode nofun) (h.restart c)
  · exact h.stepShort _ _ c
  · exact hmode nofun
  · exact .ok (h.stepLong _ _ _ c)
  · exact hmode nofun

theorem step (h : s.Wordly) (c : Char) : ToWordly (s.step c) := by
  intro s' heq
  obtain ⟨next, hreact, rfl⟩ := ok_of_map heq
  exact ⟨(h.react c next hreact).emitted, (h.react c next hreact).mode⟩

theorem run (h : s.Wordly) (cs : List Char) : ToWordly (s.run cs) := by
  induction cs generalizing s with
  | nil => exact .ok h
  | cons c cs ih => exact (h.step c).bind fun _ hs => ih hs

theorem ended (h : s.Wordly) :
    (match s.emitted with
      | [] => s
      | ⟨.newline, _⟩ :: _ => s
      | _ => s.emit s.next .newline).Wordly := by
  split
  · exact h
  · exact h
  · exact h.emitOther _ .newline (by simp)

theorem close (h : s.Wordly) {tokens : List Token} (hclose : s.close = .ok tokens) :
    ∀ t ∈ tokens, t.lexeme.IsWordly := by
  obtain ⟨settled, hsettle, rfl⟩ := ok_of_map hclose
  have hsettled := h.settle settled hsettle
  have hclosed := hsettled.ended.foldl_emit settled.widths Scanner.next .dedent (by simp)
  exact fun t ht =>
    (hclosed.emitOther settled.next .finish (by simp)).emitted t (List.mem_reverse.mp ht)

end Wordly

end Scanner

/-- The names among the tokens of a text are made of the characters of names. -/
theorem isWordly_of_tokenize {source : String} {tokens : List Token}
    (h : tokenize source = .ok tokens) : ∀ t ∈ tokens, t.lexeme.IsWordly := by
  obtain ⟨s, hrun, hclose⟩ := ok_of_bind h
  have hstart : Scanner.start.Wordly := ⟨List.forall_mem_nil _, nofun⟩
  exact (hstart.run _ s hrun).close hclose

end Monorepo.Script
