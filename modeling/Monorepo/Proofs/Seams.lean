import Monorepo.Proofs.Levels
import Monorepo.Proofs.Sorting

/-!
# Streams with a seam

A stream of tokens that ends may be the beginning of one that goes on: up to the seam both hold the
same lexemes, on lines that differ by a shift, and behind it one holds nothing but the end of the
input. A parser that succeeds on the first stream does on the second one what it does on the first,
if no token that it looks at lies behind the seam. Expressions never look there, since a line has
more to it than words; a statement looks there for the branches of an `if`, and no text begins with
one of these.

Two numbers are kept with a place in the streams: how many blocks and how many brackets are open.
-/

namespace Monorepo.Script

open Monorepo.Script.Parser

/-! ## Lexemes -/

namespace Lexeme

/-- Whether a lexeme stands for characters of the text; the others are its layout. -/
def isPrinted : Lexeme → Bool
  | .newline | .indent | .dedent | .finish => false
  | _ => true

/-- How many brackets are open behind a lexeme; a closing one too many is not counted. -/
def brackets (n : Nat) : Lexeme → Nat
  | .mark .leftParen | .mark .leftBracket | .mark .leftBrace => n + 1
  | .mark .rightParen | .mark .rightBracket | .mark .rightBrace => n - 1
  | _ => n

/-- A lexeme that is printed and leads from `m` open brackets to `n`. -/
structure Takes (m n : Nat) (lexeme : Lexeme) : Prop where
  printed : lexeme.isPrinted = true
  brackets : ∀ b, lexeme.brackets (b + m) = b + n

/-- A lexeme that goes on with a line, or ends it. -/
def IsOnLine (lexeme : Lexeme) : Prop := lexeme.isPrinted = true ∨ lexeme = .newline

end Lexeme

/-! ## Seams -/

/-- The end of a stream, and what another one holds in its place. -/
structure Seam where
  /-- By how much the lines of the second stream are greater. -/
  shift : Nat
  /-- How many brackets are open at the end. -/
  brackets : Nat
  /-- The end of the first stream. -/
  stop : Token
  /-- The rest of the second stream. -/
  onward : List Token
  stops : stop.lexeme = .finish
  goes : onward ≠ []
  /-- No branch of an `if` follows. -/
  detached : ∀ t ∈ onward.head?, t.lexeme ≠ .name "elif" ∧ t.lexeme ≠ .name "else"

namespace Seam

/-- Two streams in front of a seam, in which some blocks and some brackets are open. What is
    printed does not stand at the end of a line. The line of a dedent is of no importance. -/
inductive Along (seam : Seam) : (depth brackets : Nat) → List Token → List Token → Prop
  | seam {b : Nat} {ts ts' : List Token} (hb : b = seam.brackets) (hts : ts = [seam.stop])
    (hts' : ts' = seam.onward) : Along seam 0 b ts ts'
  | printed {d b : Nat} {lexeme : Lexeme} {place place' : Position} {ts ts' : List Token}
    (hprinted : lexeme.isPrinted = true) (hline : place'.line = place.line + seam.shift)
    (hnext : ∀ t ∈ ts.head?, t.lexeme.IsOnLine) (h : Along seam d (lexeme.brackets b) ts ts') :
    Along seam d b (⟨lexeme, place⟩ :: ts) (⟨lexeme, place'⟩ :: ts')
  | newline {d b : Nat} {place place' : Position} {ts ts' : List Token}
    (hline : place'.line = place.line + seam.shift) (h : Along seam d b ts ts') :
    Along seam d b (⟨.newline, place⟩ :: ts) (⟨.newline, place'⟩ :: ts')
  | indent {d b : Nat} {place place' : Position} {ts ts' : List Token}
    (hline : place'.line = place.line + seam.shift) (h : Along seam (d + 1) b ts ts') :
    Along seam d b (⟨.indent, place⟩ :: ts) (⟨.indent, place'⟩ :: ts')
  | dedent {d b : Nat} {place place' : Position} {ts ts' : List Token} (h : Along seam d b ts ts') :
    Along seam (d + 1) b (⟨.dedent, place⟩ :: ts) (⟨.dedent, place'⟩ :: ts')

variable {seam : Seam} {d b : Nat}

/-- The streams differ in what follows the seam. -/
theorem Along.length_eq {ts ts' : List Token} (h : seam.Along d b ts ts') :
    ts'.length + 1 = ts.length + seam.onward.length := by
  induction h with
  | seam hb hts hts' =>
    rw [hts, hts', List.length_singleton, Nat.add_comm]
  | printed _ _ _ _ ih => simp only [List.length_cons]; omega
  | newline _ _ ih => simp only [List.length_cons]; omega
  | indent _ _ ih => simp only [List.length_cons]; omega
  | dedent _ ih => simp only [List.length_cons]; omega

/-- The second stream is at least as long. -/
theorem Along.length_le {ts ts' : List Token} (h : seam.Along d b ts ts') :
    ts.length ≤ ts'.length := by
  have hlength := h.length_eq
  have hpos := List.length_pos_iff.mpr seam.goes
  omega

theorem Along.ne_nil {ts' : List Token} : ¬ seam.Along d b [] ts' := by
  intro h
  cases h with
  | seam _ hts _ => cases hts

theorem Along.lexeme_eq {t t' : Token} {ts ts' : List Token}
    (h : seam.Along d b (t :: ts) (t' :: ts')) (hne : t.lexeme ≠ .finish) :
    t'.lexeme = t.lexeme := by
  cases h with
  | seam _ hts _ =>
    obtain ⟨rfl, -⟩ := List.cons.inj hts
    exact absurd seam.stops hne
  | _ => rfl

/-! ### Cursors -/

/-- Two cursors in front of a seam. -/
def Stand (seam : Seam) (d b : Nat) (c c' : Cursor) : Prop := seam.Along d b c.tokens c'.tokens

/-- Two cursors in front of a seam, on tokens that do not end a block. -/
structure Inside (seam : Seam) (d b : Nat) (c c' : Cursor) : Prop where
  stand : seam.Stand d b c c'
  ne_finish : c.here.lexeme ≠ .finish
  ne_dedent : c.here.lexeme ≠ .dedent

section Cursors

variable {c c' : Cursor}

/-- Behind a token both streams go on. -/
theorem stand_next {here here' : Token} {ahead ahead' : List Token}
    (h : seam.Along d b ahead ahead') :
    seam.Stand d b (Cursor.next ⟨here, ahead⟩) (Cursor.next ⟨here', ahead'⟩) := by
  cases ahead with
  | nil => exact absurd h Along.ne_nil
  | cons t ts =>
    cases ahead' with
    | nil => exact absurd h.length_le (by simp)
    | cons t' ts' => exact h

theorem Stand.inside_of_isOnLine (h : seam.Stand d b c c') (hon : c.here.lexeme.IsOnLine) :
    seam.Inside d b c c' := by
  refine ⟨h, ?_, ?_⟩
  · intro heq
    rw [heq] at hon
    simp [Lexeme.IsOnLine, Lexeme.isPrinted] at hon
  · intro heq
    rw [heq] at hon
    simp [Lexeme.IsOnLine, Lexeme.isPrinted] at hon

theorem Inside.lexeme_eq (h : seam.Inside d b c c') : c'.here.lexeme = c.here.lexeme :=
  Along.lexeme_eq h.stand h.ne_finish

/-- What two cursors in front of a seam stand on, and how they go on from there. -/
inductive Meets (seam : Seam) (c c' : Cursor) : Lexeme → (depth brackets : Nat) → Prop
  | seam (htokens : c'.tokens = seam.onward) : Meets seam c c' .finish 0 seam.brackets
  | printed {lexeme : Lexeme} {d b : Nat} (hprinted : lexeme.isPrinted = true)
    (hlexeme : c'.here.lexeme = lexeme)
    (hline : c'.here.position.line = c.here.position.line + seam.shift)
    (hahead : c'.ahead.head?.map Token.lexeme = c.ahead.head?.map Token.lexeme)
    (hnext : seam.Inside d (lexeme.brackets b) c.next c'.next) : Meets seam c c' lexeme d b
  | newline {d b : Nat} (hlexeme : c'.here.lexeme = .newline)
    (hline : c'.here.position.line = c.here.position.line + seam.shift)
    (hnext : seam.Stand d b c.next c'.next) : Meets seam c c' .newline d b
  | indent {d b : Nat} (hlexeme : c'.here.lexeme = .indent)
    (hline : c'.here.position.line = c.here.position.line + seam.shift)
    (hnext : seam.Stand (d + 1) b c.next c'.next) : Meets seam c c' .indent d b
  | dedent {d b : Nat} (hlexeme : c'.here.lexeme = .dedent)
    (hnext : seam.Stand d b c.next c'.next) : Meets seam c c' .dedent (d + 1) b

theorem Stand.meets (h : seam.Stand d b c c') : seam.Meets c c' c.here.lexeme d b := by
  obtain ⟨here, ahead⟩ := c
  obtain ⟨here', ahead'⟩ := c'
  change seam.Along d b (here :: ahead) (here' :: ahead') at h
  cases h with
  | seam hb hts hts' =>
    obtain ⟨rfl, rfl⟩ := List.cons.inj hts
    subst hb
    have hmeets : seam.Meets ⟨seam.stop, []⟩ ⟨here', ahead'⟩ .finish 0 seam.brackets := .seam hts'
    rw [← seam.stops] at hmeets
    exact hmeets
  | printed hprinted hline hnext h =>
    cases ahead with
    | nil => exact absurd h Along.ne_nil
    | cons t ts =>
      cases ahead' with
      | nil => exact absurd h.length_le (by simp)
      | cons t' ts' =>
        have hinside : seam.Inside _ _ ⟨t, ts⟩ ⟨t', ts'⟩ :=
          Stand.inside_of_isOnLine h (hnext t rfl)
        exact .printed hprinted rfl hline (congrArg some hinside.lexeme_eq) hinside
  | newline hline h => exact .newline rfl hline (stand_next h)
  | indent hline h => exact .indent rfl hline (stand_next h)
  | dedent h => exact .dedent rfl (stand_next h)

theorem Inside.line_eq (h : seam.Inside d b c c') :
    c'.here.position.line = c.here.position.line + seam.shift := by
  have hfinish := h.ne_finish
  have hdedent := h.ne_dedent
  have hmeets := h.stand.meets
  generalize c.here.lexeme = lexeme at hmeets hfinish hdedent
  cases hmeets with
  | seam _ => exact absurd rfl hfinish
  | printed _ _ hline _ _ => exact hline
  | newline _ hline _ => exact hline
  | indent _ hline _ => exact hline
  | dedent _ _ => exact absurd rfl hdedent

/-- Behind a printed token the line goes on. -/
theorem Stand.printed (h : seam.Stand d b c c') (hprinted : c.here.lexeme.isPrinted = true) :
    seam.Inside d (c.here.lexeme.brackets b) c.next c'.next ∧
      c'.ahead.head?.map Token.lexeme = c.ahead.head?.map Token.lexeme := by
  have hmeets := h.meets
  generalize c.here.lexeme = lexeme at hmeets hprinted
  cases hmeets with
  | printed _ _ _ hahead hnext => exact ⟨hnext, hahead⟩
  | _ => cases hprinted

/-- Behind a line another one begins, or a block does or ends. -/
theorem Stand.newline (h : seam.Stand d b c c') (hhere : c.here.lexeme = .newline) :
    seam.Stand d b c.next c'.next := by
  have hmeets := h.meets
  rw [hhere] at hmeets
  cases hmeets with
  | printed hprinted _ _ _ _ => cases hprinted
  | newline _ _ hnext => exact hnext

/-- An indent opens a block in both streams. -/
theorem Stand.indent (h : seam.Stand d b c c') (hhere : c.here.lexeme = .indent) :
    c'.here.lexeme = .indent ∧ seam.Stand (d + 1) b c.next c'.next := by
  have hmeets := h.meets
  rw [hhere] at hmeets
  cases hmeets with
  | printed hprinted _ _ _ _ => cases hprinted
  | indent hlexeme _ hnext => exact ⟨hlexeme, hnext⟩

/-- A dedent ends a block in both streams. -/
theorem Stand.dedent (h : seam.Stand (d + 1) b c c') (hhere : c.here.lexeme = .dedent) :
    c'.here.lexeme = .dedent ∧ seam.Stand d b c.next c'.next := by
  have hmeets := h.meets
  rw [hhere] at hmeets
  cases hmeets with
  | printed hprinted _ _ _ _ => cases hprinted
  | dedent hlexeme hnext => exact ⟨hlexeme, hnext⟩

/-- In a block the first stream does not end. -/
theorem Stand.inside_of_block (h : seam.Stand (d + 1) b c c') (hhere : c.here.lexeme ≠ .dedent) :
    seam.Inside (d + 1) b c c' := by
  refine ⟨h, fun hfinish => ?_, hhere⟩
  have hmeets := h.meets
  rw [hfinish] at hmeets
  cases hmeets with
  | printed hprinted _ _ _ _ => cases hprinted

/-- Outside of all blocks no block ends. -/
theorem Stand.inside_of_script (h : seam.Stand 0 b c c') (hhere : c.here.lexeme ≠ .finish) :
    seam.Inside 0 b c c' := by
  refine ⟨h, hhere, fun hdedent => ?_⟩
  have hmeets := h.meets
  rw [hdedent] at hmeets
  cases hmeets with
  | printed hprinted _ _ _ _ => cases hprinted

/-- The first stream ends at the seam. -/
theorem Stand.finish (h : seam.Stand d b c c') (hhere : c.here.lexeme = .finish) :
    b = seam.brackets ∧ c'.tokens = seam.onward := by
  have hmeets := h.meets
  rw [hhere] at hmeets
  cases hmeets with
  | seam htokens => exact ⟨rfl, htokens⟩
  | printed hprinted _ _ _ _ => cases hprinted

end Cursors

end Seam

/-! ## Parsers on two streams -/

theorem eat_of_eq {c : Cursor} {lexeme : Lexeme} (h : c.here.lexeme = lexeme) :
    eat lexeme c = .ok (true, c.next) :=
  bind_run (at?_of_eq h)

namespace Parser

variable {α β γ δ : Type}

/-- Where `p` succeeds from a cursor, `q` does from all cursors that are related to it: the result
    is that of `p` under `φ`, and the cursors behind are related again. -/
def Tracks (P : Cursor → Cursor → Prop) (φ : α → β) (Q : α → Cursor → Cursor → Prop)
    (p : Parser α) (q : Parser β) : Prop :=
  ∀ c c', P c c' → ∀ a e, p c = .ok (a, e) → ∃ e', q c' = .ok (φ a, e') ∧ Q a e e'

namespace Tracks

variable {P P' : Cursor → Cursor → Prop} {φ : α → β} {ψ : γ → δ} {Q Q' : α → Cursor → Cursor → Prop}
  {R : γ → Cursor → Cursor → Prop} {p : Parser α} {q : Parser β}

theorem pure {a : α} {b : β} (hb : φ a = b) (h : ∀ c c', P c c' → Q a c c') :
    Tracks P φ Q (pure a) (pure b) := by
  intro c c' hc a' e heq
  cases heq
  exact ⟨c', hb ▸ rfl, h c c' hc⟩

/-- What fails need not be tracked. -/
theorem fail (fault : SyntaxFault) : Tracks P φ Q (fail fault) q := by
  intro c c' _ a e heq
  cases heq

theorem unexpected (e : Expectation) : Tracks P φ Q (unexpected e) q := by
  intro c c' _ a e heq
  cases heq

theorem bind {f : α → Parser γ} {g : β → Parser δ} (h : Tracks P φ Q p q)
    (hf : ∀ a, Tracks (Q a) ψ R (f a) (g (φ a))) : Tracks P ψ R (p >>= f) (q >>= g) := by
  intro c c' hc b e heq
  obtain ⟨⟨a, mid⟩, hp, hrest⟩ := ok_of_bind (x := p c) (f := fun r => f r.1 r.2) heq
  obtain ⟨mid', hq, hmid⟩ := h c c' hc a mid hp
  obtain ⟨e', hg, he⟩ := hf a mid mid' hmid b e hrest
  exact ⟨e', (bind_run hq).trans hg, he⟩

theorem mono (h : Tracks P φ Q p q) (hP : ∀ c c', P' c c' → P c c')
    (hQ : ∀ a c c', Q a c c' → Q' a c c') : Tracks P' φ Q' p q := by
  intro c c' hc a e heq
  obtain ⟨e', hq, he⟩ := h c c' (hP c c' hc) a e heq
  exact ⟨e', hq, hQ a e e' he⟩

/-! ### Repetitions -/

variable {more more' : Parser Bool} {again stop : Cursor → Cursor → Prop}

theorem collectWithin
    (hmore : Tracks P id (fun b c c' => if b = true then again c c' else stop c c') more more')
    (h : Tracks again φ (fun _ => P) p q) (budget budget' : List Token)
    (hbudget : budget.length ≤ budget'.length) (done : List α) :
    Tracks P (List.map φ) (fun _ => stop) (Parser.collectWithin more p budget done)
      (Parser.collectWithin more' q budget' (done.map φ)) := by
  induction budget generalizing budget' done with
  | nil => exact fail .stalled
  | cons token budget ih =>
    cases budget' with
    | nil => cases hbudget
    | cons token' budget' =>
      refine hmore.bind fun b => ?_
      cases b with
      | true =>
        exact h.bind fun a => ih budget' (Nat.le_of_succ_le_succ hbudget) (a :: done)
      | false => exact pure List.map_reverse fun _ _ hstop => hstop

/-- A loop makes the same turns, as the second stream is not shorter. -/
theorem collect
    (hmore : Tracks P id (fun b c c' => if b = true then again c c' else stop c c') more more')
    (h : Tracks again φ (fun _ => P) p q)
    (hlength : ∀ c c', P c c' → c.tokens.length ≤ c'.tokens.length) :
    Tracks P (List.map φ) (fun _ => stop) (Parser.collect more p) (Parser.collect more' q) :=
  fun c c' hc => collectWithin hmore h c.tokens c'.tokens (hlength c c' hc) [] c c' hc

end Tracks

end Parser

namespace Seam

variable {α β γ δ : Type}

/-! ### Parsers on a line -/

/-- From inside a line, with `m` brackets more than before, `q` does in the second stream what `p`
    does in the first; `R` says where that leads. -/
def Passes (seam : Seam) (φ : α → β) (m : Nat) (R : (depth brackets : Nat) → Cursor → Cursor → Prop)
    (p : Parser α) (q : Parser β) : Prop :=
  ∀ d b, Tracks (seam.Inside d (b + m)) φ (fun _ => R d b) p q

/-- The same from a given lexeme. -/
def PassesAt (seam : Seam) (lexeme : Lexeme) (φ : α → β) (m : Nat)
    (R : (depth brackets : Nat) → Cursor → Cursor → Prop) (p : Parser α) (q : Parser β) : Prop :=
  ∀ d b, Tracks (fun c c' => seam.Inside d (b + m) c c' ∧ c.here.lexeme = lexeme) φ (fun _ => R d b)
    p q

/-- The same from a given lexeme in front of another one. -/
def PassesBefore (seam : Seam) (lexeme : Lexeme) (next : Option Lexeme) (φ : α → β) (m : Nat)
    (R : (depth brackets : Nat) → Cursor → Cursor → Prop) (p : Parser α) (q : Parser β) : Prop :=
  ∀ d b, Tracks (fun c c' => (seam.Inside d (b + m) c c' ∧ c.here.lexeme = lexeme) ∧
    c.ahead.head?.map Token.lexeme = next) φ (fun _ => R d b) p q

/-- A parser that stays on a line, and leads from `m` brackets to `n`. -/
def Follows (seam : Seam) (m n : Nat) (p q : Parser α) : Prop :=
  seam.Passes id m (fun d b => seam.Inside d (b + n)) p q

/-- A parser that may get behind the end of a line. -/
def Carries (seam : Seam) (φ : α → β) (p : Parser α) (q : Parser β) : Prop :=
  seam.Passes φ 0 seam.Stand p q

section Lines

variable {seam : Seam} {φ : α → β} {l m n : Nat}
  {R : (depth brackets : Nat) → Cursor → Cursor → Prop} {p : Parser α} {q : Parser β}

theorem Passes.at_lexeme (h : seam.Passes φ m R p q) (lexeme : Lexeme) :
    seam.PassesAt lexeme φ m R p q :=
  fun d b => (h d b).mono (fun _ _ hc => hc.1) fun _ _ _ he => he

theorem PassesAt.before {lexeme : Lexeme} (h : seam.PassesAt lexeme φ m R p q)
    (next : Option Lexeme) : seam.PassesBefore lexeme next φ m R p q :=
  fun d b => (h d b).mono (fun _ _ hc => hc.1) fun _ _ _ he => he

theorem Passes.pure {a : α} {b : β} (h : φ a = b) :
    seam.Passes φ m (fun d b => seam.Inside d (b + m)) (pure a) (pure b) :=
  fun _ _ => Tracks.pure h fun _ _ hc => hc

theorem Follows.pure (a : α) : seam.Follows m m (pure a) (pure a) := Passes.pure rfl

theorem Passes.fail (fault : SyntaxFault) : seam.Passes φ m R (Parser.fail fault) q :=
  fun _ _ => Tracks.fail fault

theorem Passes.unexpected (e : Expectation) : seam.Passes φ m R (Parser.unexpected e) q :=
  fun _ _ => Tracks.unexpected e

/-- Brackets that are open around it do not matter. -/
theorem Follows.lift {p q : Parser γ} (h : seam.Follows 0 0 p q) : seam.Follows n n p q :=
  fun d b => h d (b + n)

theorem Passes.bind {χ : γ → δ} {p : Parser γ} {q : Parser δ} {f : γ → Parser α}
    {g : δ → Parser β} (h : seam.Passes χ l (fun d b => seam.Inside d (b + m)) p q)
    (hf : ∀ a, seam.Passes φ m R (f a) (g (χ a))) : seam.Passes φ l R (p >>= f) (q >>= g) :=
  fun d b => (h d b).bind fun a => hf a d b

theorem Follows.bind {p q : Parser γ} {f : γ → Parser α} {g : γ → Parser β}
    (h : seam.Follows l m p q) (hf : ∀ a, seam.Passes φ m R (f a) (g a)) :
    seam.Passes φ l R (p >>= f) (q >>= g) :=
  Passes.bind h hf

theorem Follows.map {p q : Parser γ} (f : γ → α) (h : seam.Follows l n p q) :
    seam.Follows l n (f <$> p) (f <$> q) := by
  rw [map_eq_pure_bind, map_eq_pure_bind]
  exact h.bind fun a => Follows.pure (f a)

/-- Both cursors stand on the same lexeme. -/
theorem Passes.peek {f : Lexeme → Parser α} {g : Lexeme → Parser β}
    (h : ∀ lexeme, seam.PassesAt lexeme φ m R (f lexeme) (g lexeme)) :
    seam.Passes φ m R (peek >>= f) (peek >>= g) := by
  intro d b c c' hc a e heq
  obtain ⟨e', hg, he⟩ := h c.here.lexeme d b c c' ⟨hc, rfl⟩ a e heq
  rw [← hc.lexeme_eq] at hg
  exact ⟨e', hg, he⟩

theorem PassesAt.peek {lexeme : Lexeme} {f : Lexeme → Parser α} {g : Lexeme → Parser β}
    (h : seam.PassesAt lexeme φ m R (f lexeme) (g lexeme)) :
    seam.PassesAt lexeme φ m R (Parser.peek >>= f) (Parser.peek >>= g) := by
  intro d b c c' hc a e heq
  obtain ⟨hinside, rfl⟩ := hc
  obtain ⟨e', hg, he⟩ := h d b c c' ⟨hinside, rfl⟩ a e heq
  rw [← hinside.lexeme_eq] at hg
  exact ⟨e', hg, he⟩

/-- Behind a printed lexeme both streams have the same lexeme. -/
theorem PassesAt.peekNext {lexeme : Lexeme} {f : Option Lexeme → Parser α}
    {g : Option Lexeme → Parser β}
    (h : ∀ next next', (lexeme.isPrinted = true → next = next') →
      seam.PassesBefore lexeme next φ m R (f next) (g next')) :
    seam.PassesAt lexeme φ m R (peekNext >>= f) (peekNext >>= g) := by
  intro d b c c' hc a e heq
  refine h _ _ (fun hprinted => ?_) d b c c' ⟨hc, rfl⟩ a e heq
  obtain ⟨hinside, hhere⟩ := hc
  exact (hinside.stand.printed (hhere ▸ hprinted)).2.symm

/-- The lines of the second stream are shifted. -/
theorem Passes.line {f : Nat → Parser α} {g : Nat → Parser β}
    (h : ∀ line, seam.Passes φ m R (f line) (g (line + seam.shift))) :
    seam.Passes φ m R (line >>= f) (line >>= g) := by
  intro d b c c' hc a e heq
  obtain ⟨e', hg, he⟩ := h c.here.position.line d b c c' hc a e heq
  rw [← hc.line_eq] at hg
  exact ⟨e', hg, he⟩

theorem PassesAt.advance {lexeme : Lexeme} {f : Unit → Parser α} {g : Unit → Parser β}
    (h : seam.Passes φ n R (f ()) (g ())) (htakes : lexeme.Takes m n) :
    seam.PassesAt lexeme φ m R (advance >>= f) (advance >>= g) := by
  intro d b c c' hc a e heq
  obtain ⟨hinside, rfl⟩ := hc
  have hnext := (hinside.stand.printed htakes.printed).1
  rw [htakes.brackets] at hnext
  exact h d b c.next c'.next hnext a e heq

theorem PassesBefore.advance {lexeme next : Lexeme} {f : Unit → Parser α} {g : Unit → Parser β}
    (h : seam.PassesAt next φ n R (f ()) (g ())) (htakes : lexeme.Takes m n) :
    seam.PassesBefore lexeme (some next) φ m R (advance >>= f) (advance >>= g) := by
  intro d b c c' hc a e heq
  obtain ⟨⟨hinside, rfl⟩, hahead⟩ := hc
  have hnext := (hinside.stand.printed htakes.printed).1
  rw [htakes.brackets] at hnext
  have hhere : c.next.here.lexeme = next := by
    obtain ⟨here, ahead⟩ := c
    cases ahead with
    | nil => cases hahead
    | cons t ts => exact Option.some.inj hahead
  exact h d b c.next c'.next ⟨hnext, hhere⟩ a e heq

theorem Follows.at? (lexeme : Lexeme) : seam.Follows m m (at? lexeme) (at? lexeme) := by
  intro d b c c' hc a e heq
  cases heq
  refine ⟨c', ?_, hc⟩
  rw [Parser.at?, hc.lexeme_eq]
  rfl

theorem Passes.eat {lexeme : Lexeme} {f : Bool → Parser α} {g : Bool → Parser β}
    (htrue : seam.Passes φ n R (f true) (g true)) (hfalse : seam.Passes φ m R (f false) (g false))
    (htakes : lexeme.Takes m n) : seam.Passes φ m R (eat lexeme >>= f) (eat lexeme >>= g) := by
  intro d b c c' hc a e heq
  by_cases hhere : c.here.lexeme = lexeme
  · have hhere' : c'.here.lexeme = lexeme := hc.lexeme_eq.trans hhere
    have hnext := (hc.stand.printed (hhere ▸ htakes.printed)).1
    rw [hhere, htakes.brackets] at hnext
    rw [bind_run (eat_of_eq hhere)] at heq
    obtain ⟨e', hg, he⟩ := htrue d b c.next c'.next hnext a e heq
    exact ⟨e', (bind_run (eat_of_eq hhere')).trans hg, he⟩
  · have hhere' : c'.here.lexeme ≠ lexeme := hc.lexeme_eq ▸ hhere
    rw [bind_run (eat_of_ne hhere)] at heq
    obtain ⟨e', hg, he⟩ := hfalse d b c c' hc a e heq
    exact ⟨e', (bind_run (eat_of_ne hhere')).trans hg, he⟩

/-- A lexeme that has to be there leads to another number of brackets. -/
theorem Follows.expect {lexeme : Lexeme} (e : Expectation) (htakes : lexeme.Takes m n) :
    seam.Follows m n (expect lexeme e) (expect lexeme e) :=
  Passes.eat (Follows.pure ()) (Passes.unexpected e) htakes

theorem Follows.eat {lexeme : Lexeme} (htakes : lexeme.Takes m m) :
    seam.Follows m m (eat lexeme) (eat lexeme) := by
  have h : seam.Follows m m (Parser.eat lexeme >>= Pure.pure) (Parser.eat lexeme >>= Pure.pure) :=
    Passes.eat (Follows.pure true) (Follows.pure false) htakes
  rwa [bind_pure] at h

/-! ### Repetitions on a line -/

variable {more more' : Parser Bool} {item item' : Parser γ}

theorem Inside.length_le {d b : Nat} {c c' : Cursor} (h : seam.Inside d b c c') :
    c.tokens.length ≤ c'.tokens.length := Along.length_le h.stand

theorem Passes.collect {χ : γ → δ} {item : Parser γ} {item' : Parser δ}
    (hmore : seam.Follows m m more more')
    (h : seam.Passes χ m (fun d b => seam.Inside d (b + m)) item item') :
    seam.Passes (List.map χ) m (fun d b => seam.Inside d (b + m)) (collect more item)
      (collect more' item') := by
  intro d b
  have hmore' : Tracks (seam.Inside d (b + m)) id (fun again c c' =>
      if again = true then seam.Inside d (b + m) c c' else seam.Inside d (b + m) c c') more more' :=
    (hmore d b).mono (fun _ _ hc => hc) fun again c c' hc => by cases again <;> exact hc
  exact Tracks.collect hmore' (h d b) fun _ _ hc => hc.length_le

theorem Follows.collect (hmore : seam.Follows m m more more') (h : seam.Follows m m item item') :
    seam.Follows m m (collect more item) (collect more' item') := by
  have hcollect := Passes.collect hmore h
  rwa [List.map_id_fun] at hcollect

theorem Follows.commaRest {stop stop' : Parser Bool} (hstop : seam.Follows m m stop stop')
    (h : seam.Follows m m item item') :
    seam.Follows m m (commaRest stop item) (commaRest stop' item') :=
  Follows.collect (Passes.eat (hstop.bind fun _ => Follows.pure _) (Follows.pure false)
    ⟨rfl, fun _ => rfl⟩) h

theorem Follows.commaList {stop stop' : Parser Bool} (hstop : seam.Follows m m stop stop')
    (h : seam.Follows m m item item') :
    seam.Follows m m (commaList stop item) (commaList stop' item') := by
  refine hstop.bind fun stopped => ?_
  cases stopped with
  | true => exact Follows.pure []
  | false => exact h.bind fun first => (hstop.commaRest h).bind fun rest => Follows.pure _

end Lines

/-! ### Parsers between lines -/

/-- A parser that begins and ends where a line may end. -/
def Resumes (seam : Seam) (φ : α → β) (p : Parser α) (q : Parser β) : Prop :=
  ∀ d b, Tracks (seam.Stand d b) φ (fun _ => seam.Stand d b) p q

section Layout

variable {seam : Seam} {φ : α → β} {χ : γ → δ}

theorem Resumes.pure {a : α} {b : β} (h : φ a = b) : seam.Resumes φ (pure a) (pure b) :=
  fun _ _ => Tracks.pure h fun _ _ hc => hc

theorem Resumes.carries {p : Parser α} {q : Parser β} (h : seam.Resumes φ p q) :
    seam.Carries φ p q :=
  fun d b => (h d b).mono (fun _ _ hc => hc.stand) fun _ _ _ he => he

theorem Resumes.bind {p : Parser γ} {q : Parser δ} {f : γ → Parser α} {g : δ → Parser β}
    (h : seam.Resumes χ p q) (hf : ∀ a, seam.Resumes φ (f a) (g (χ a))) :
    seam.Resumes φ (p >>= f) (q >>= g) :=
  fun d b => (h d b).bind fun a => hf a d b

theorem Carries.bind {p : Parser γ} {q : Parser δ} {f : γ → Parser α} {g : δ → Parser β}
    (h : seam.Carries χ p q) (hf : ∀ a, seam.Resumes φ (f a) (g (χ a))) :
    seam.Carries φ (p >>= f) (q >>= g) :=
  fun d b => (h d b).bind fun a => hf a d b

/-- A line ends, and the next one begins. -/
theorem PassesAt.newline {f : Unit → Parser α} {g : Unit → Parser β}
    (h : seam.Resumes φ (f ()) (g ())) :
    seam.PassesAt .newline φ 0 seam.Stand (Parser.advance >>= f) (Parser.advance >>= g) := by
  intro d b c c' hc a e heq
  obtain ⟨hinside, hhere⟩ := hc
  exact h d b c.next c'.next (hinside.stand.newline hhere) a e heq

theorem Carries.eatNewline {f : Bool → Parser α} {g : Bool → Parser β}
    (htrue : seam.Resumes φ (f true) (g true)) (hfalse : seam.Carries φ (f false) (g false)) :
    seam.Carries φ (eat .newline >>= f) (eat .newline >>= g) := by
  intro d b c c' hc a e heq
  by_cases hhere : c.here.lexeme = .newline
  · have hhere' : c'.here.lexeme = .newline := hc.lexeme_eq.trans hhere
    rw [bind_run (eat_of_eq hhere)] at heq
    obtain ⟨e', hg, he⟩ := htrue d b c.next c'.next (hc.stand.newline hhere) a e heq
    exact ⟨e', (bind_run (eat_of_eq hhere')).trans hg, he⟩
  · have hhere' : c'.here.lexeme ≠ .newline := hc.lexeme_eq ▸ hhere
    rw [bind_run (eat_of_ne hhere)] at heq
    obtain ⟨e', hg, he⟩ := hfalse d b c c' hc a e heq
    exact ⟨e', (bind_run (eat_of_ne hhere')).trans hg, he⟩

/-- Behind the seam there is no branch, so there is one in both streams or in none. -/
theorem tracks_branch {word : String} (hword : word = "elif" ∨ word = "else") (d b : Nat) :
    Tracks (seam.Stand d b) id
      (fun again c c' => if again = true then seam.Inside d b c c' else seam.Stand d b c c')
      (eatKeyword word) (eatKeyword word) := by
  intro c c' hc a e heq
  by_cases hhere : c.here.lexeme = .name word
  · have hprinted : c.here.lexeme.isPrinted = true := by rw [hhere]; rfl
    have hhere' : c'.here.lexeme = .name word :=
      (Along.lexeme_eq hc (by rw [hhere]; simp)).trans hhere
    have hnext := (hc.printed hprinted).1
    rw [hhere] at hnext
    cases (eat_of_eq hhere).symm.trans heq
    exact ⟨c'.next, eat_of_eq hhere', hnext⟩
  · have hhere' : c'.here.lexeme ≠ .name word := by
      -- Only here does a parser look behind the seam.
      by_cases hfinish : c.here.lexeme = .finish
      · have htokens := (hc.finish hfinish).2
        obtain ⟨helif, helse⟩ := seam.detached c'.here (by rw [← htokens]; rfl)
        rcases hword with rfl | rfl
        · exact helif
        · exact helse
      · exact Along.lexeme_eq hc hfinish ▸ hhere
    cases (eat_of_ne hhere).symm.trans heq
    exact ⟨c', eat_of_ne hhere', hc⟩

theorem Resumes.branch {word : String} (hword : word = "elif" ∨ word = "else")
    {f : Bool → Parser α} {g : Bool → Parser β} (htrue : seam.Carries φ (f true) (g true))
    (hfalse : seam.Resumes φ (f false) (g false)) :
    seam.Resumes φ (eatKeyword word >>= f) (eatKeyword word >>= g) := by
  intro d b
  refine (tracks_branch hword d b).bind fun again => ?_
  cases again with
  | true => exact htrue d b
  | false => exact hfalse d b

/-- A block opens in both streams. -/
theorem tracks_indent (e : Expectation) (d b : Nat) :
    Tracks (seam.Stand d b) id (fun _ => seam.Stand (d + 1) b) (expect .indent e)
      (expect .indent e) := by
  intro c c' hc a rest heq
  by_cases hhere : c.here.lexeme = .indent
  · obtain ⟨hhere', hnext⟩ := hc.indent hhere
    cases (bind_run (eat_of_eq hhere)).symm.trans heq
    exact ⟨c'.next, bind_run (eat_of_eq hhere'), hnext⟩
  · cases (bind_run (eat_of_ne hhere)).symm.trans heq

/-- A block goes on in both streams, or it ends in both. -/
theorem tracks_block (d b : Nat) :
    Tracks (seam.Stand (d + 1) b) id
      (fun again c c' => if again = true then seam.Inside (d + 1) b c c' else
        seam.Stand (d + 1) b c c' ∧ c.here.lexeme = .dedent)
      (do return !((← at? .dedent) || (← at? .finish)))
      (do return !((← at? .dedent) || (← at? .finish))) := by
  intro c c' hc a e heq
  by_cases hhere : c.here.lexeme = .dedent
  · have hhere' := (hc.dedent hhere).1
    have hends {x : Cursor} (hx : x.here.lexeme = .dedent) :
        (do return !((← at? .dedent) || (← at? .finish)) : Parser Bool) x = .ok (false, x) :=
      bind_run (at?_of_eq hx)
    cases (hends hhere).symm.trans heq
    exact ⟨c', hends hhere', hc, hhere⟩
  · have hinside := hc.inside_of_block hhere
    have hhere' : c'.here.lexeme ≠ .dedent := hinside.lexeme_eq ▸ hhere
    have hfinish' : c'.here.lexeme ≠ .finish := hinside.lexeme_eq ▸ hinside.ne_finish
    have hgoes {x : Cursor} (hx : x.here.lexeme ≠ .dedent) (hx' : x.here.lexeme ≠ .finish) :
        (do return !((← at? .dedent) || (← at? .finish)) : Parser Bool) x = .ok (true, x) :=
      (bind_run (at?_of_ne hx)).trans (bind_run (at?_of_ne hx'))
    cases (hgoes hhere hinside.ne_finish).symm.trans heq
    exact ⟨c', hgoes hhere' hfinish', hinside⟩

/-- A block closes in both streams. -/
theorem tracks_dedent (d b : Nat) :
    Tracks (fun c c' => seam.Stand (d + 1) b c c' ∧ c.here.lexeme = .dedent) id
      (fun _ => seam.Stand d b) (eat .dedent) (eat .dedent) := by
  intro c c' hc a e heq
  obtain ⟨hstand, hhere⟩ := hc
  obtain ⟨hhere', hnext⟩ := hstand.dedent hhere
  cases (eat_of_eq hhere).symm.trans heq
  exact ⟨c'.next, eat_of_eq hhere', hnext⟩

end Layout

end Seam

end Monorepo.Script
