import Monorepo.Proofs.Rendering

/-!
# Levels of the grammar

The parser of a level reads an operand of the next level and then, in its tail, the links of a
chain. An expression is read where its level or one below is asked for, if what follows continues
none of these levels. Of a left operand it is said that the parser gets from its tokens to its tail,
with less room; the next link is read from there.
-/

namespace Monorepo.Script

open Monorepo.Script.Parser

/-! ## Cursors over given tokens -/

/-- The tokens from one cursor to another one. -/
inductive Cursor.Spells : Cursor → List Lexeme → Cursor → Prop
  | nil (c : Cursor) : Spells c [] c
  | cons {lexeme : Lexeme} {lexemes : List Lexeme} {position : Position} {token : Token}
    {ahead : List Token} {rest : Cursor} (h : Spells ⟨token, ahead⟩ lexemes rest) :
    Spells ⟨⟨lexeme, position⟩, token :: ahead⟩ (lexeme :: lexemes) rest

namespace Cursor.Spells

variable {c rest : Cursor} {lexemes more : List Lexeme} {lexeme : Lexeme}

theorem split (h : c.Spells (lexemes ++ more) rest) :
    ∃ mid : Cursor, c.Spells lexemes mid ∧ mid.Spells more rest := by
  induction lexemes generalizing c with
  | nil => exact ⟨c, .nil c, h⟩
  | cons lexeme lexemes ih =>
    cases h with
    | cons h =>
      obtain ⟨mid, hfirst, hrest⟩ := ih h
      exact ⟨mid, .cons hfirst, hrest⟩

theorem head (h : c.Spells (lexeme :: lexemes) rest) :
    ∃ mid : Cursor, c.Spells [lexeme] mid ∧ mid.Spells lexemes rest :=
  (show c.Spells ([lexeme] ++ lexemes) rest from h).split

theorem here (h : c.Spells (lexeme :: lexemes) rest) : c.here.lexeme = lexeme := by
  cases h
  rfl

theorem eq_of_nil (h : c.Spells [] rest) : c = rest := by
  cases h
  rfl

theorem here_ne (h : c.Spells (lexeme :: lexemes) rest) {other : Lexeme} (hne : lexeme ≠ other) :
    c.here.lexeme ≠ other :=
  h.here ▸ hne

theorem single (h : c.Spells [lexeme] rest) :
    ∃ position token ahead, c = ⟨⟨lexeme, position⟩, token :: ahead⟩ ∧ rest = ⟨token, ahead⟩ := by
  cases h with
  | cons h => exact ⟨_, _, _, rfl, h.eq_of_nil.symm⟩

theorem map_tokens (h : c.Spells lexemes rest) :
    c.tokens.map Token.lexeme = lexemes ++ rest.tokens.map Token.lexeme := by
  induction h with
  | nil => rfl
  | cons _ ih => exact congrArg (List.cons _) ih

theorem length_tokens (h : c.Spells lexemes rest) :
    c.tokens.length = lexemes.length + rest.tokens.length := by
  have hlength := congrArg List.length h.map_tokens
  rwa [List.length_append, List.length_map, List.length_map] at hlength

/-- The tokens of a stream, up to its last one. -/
theorem of_map (lexemes : List Lexeme) {last : Lexeme} {first : Token} {ahead : List Token}
    (h : (first :: ahead).map Token.lexeme = lexemes ++ [last]) :
    ∃ position, Spells ⟨first, ahead⟩ lexemes ⟨⟨last, position⟩, []⟩ := by
  induction lexemes generalizing first ahead with
  | nil =>
    obtain ⟨hfirst, hahead⟩ := List.cons.inj h
    obtain rfl := List.map_eq_nil_iff.mp hahead
    subst hfirst
    exact ⟨first.position, .nil _⟩
  | cons lexeme lexemes ih =>
    obtain ⟨hfirst, hahead⟩ := List.cons.inj h
    subst hfirst
    cases ahead with
    | nil => simp at hahead
    | cons token ahead =>
      obtain ⟨position, hrest⟩ := ih hahead
      exact ⟨position, .cons hrest⟩

end Cursor.Spells

/-! ## Running parsers -/

section Running

variable {α β : Type} {c c' : Cursor}

theorem bind_run {p : Parser α} {f : α → Parser β} {a : α} (h : p c = .ok (a, c')) :
    (p >>= f) c = f a c' := by
  change (p c).bind (fun r => f r.1 r.2) = f a c'
  rw [h]
  rfl

theorem map_run {p : Parser α} {f : α → β} {a : α} (h : p c = .ok (a, c')) :
    (f <$> p) c = .ok (f a, c') := by
  rw [map_eq_pure_bind]
  exact bind_run h

theorem pure_run (a : α) : (pure a : Parser α) c = .ok (a, c) := rfl

theorem peek_bind {f : Lexeme → Parser β} : (peek >>= f) c = f c.here.lexeme c := rfl

theorem line_bind {f : Nat → Parser β} : (line >>= f) c = f c.here.position.line c := rfl

theorem peekNext_bind {f : Option Lexeme → Parser β} :
    (peekNext >>= f) c = f (c.ahead.head?.map Token.lexeme) c := rfl

theorem eat_of_ne {lexeme : Lexeme} (h : c.here.lexeme ≠ lexeme) :
    eat lexeme c = .ok (false, c) := by
  have hat : at? lexeme c = .ok (false, c) := by
    rw [at?, decide_eq_false h]
  exact bind_run hat

theorem eat_run {lexeme : Lexeme} (h : c.Spells [lexeme] c') : eat lexeme c = .ok (true, c') := by
  cases h with
  | cons h =>
    obtain rfl := h.eq_of_nil
    rename_i position token ahead
    have hat : at? lexeme ⟨⟨lexeme, position⟩, token :: ahead⟩ =
        .ok (true, ⟨⟨lexeme, position⟩, token :: ahead⟩) := by
      rw [at?, decide_eq_true rfl]
    exact bind_run hat

theorem advance_run {lexeme : Lexeme} (h : c.Spells [lexeme] c') : c.next = c' := by
  cases h with
  | cons h => exact h.eq_of_nil

theorem at?_of_ne {lexeme : Lexeme} (h : c.here.lexeme ≠ lexeme) :
    at? lexeme c = .ok (false, c) := by
  rw [at?, decide_eq_false h]

theorem at?_of_eq {lexeme : Lexeme} (h : c.here.lexeme = lexeme) :
    at? lexeme c = .ok (true, c) := by
  rw [at?, decide_eq_true h]

theorem expect_run {lexeme : Lexeme} (e : Expectation) (h : c.Spells [lexeme] c') :
    expect lexeme e c = .ok ((), c') :=
  bind_run (eat_run h)

/-- There may be no item. -/
theorem collect_none {more : Parser Bool} {item : Parser α} (h : more c = .ok (false, c)) :
    collect more item c = .ok ([], c) :=
  bind_run h

/-- There may be one item. -/
theorem collect_one {more : Parser Bool} {item : Parser α} {a : α} {first : Cursor}
    (hmore : more c = .ok (true, first)) (hitem : item first = .ok (a, c'))
    (hlast : more c' = .ok (false, c')) (htokens : 2 ≤ c.tokens.length) :
    collect more item c = .ok ([a], c') := by
  obtain ⟨here, ahead⟩ := c
  cases ahead with
  | nil => simp [Cursor.tokens] at htokens
  | cons token ahead => exact (bind_run hmore).trans ((bind_run hitem).trans (bind_run hlast))

end Running

/-! ## Levels of the grammar -/

/-- The parser of the expressions of a level and above. -/
def parserAt (inner : Inner) : Nat → Parser Expr
  | 0 => conditional inner
  | 1 => disjunction inner
  | 2 => conjunction inner
  | 3 => negation inner
  | 4 => do compareTail inner (← sum inner)
  | 5 => sum inner
  | 6 => product inner
  | 7 => factor inner
  | 8 => do trailers inner (← atom inner)
  | _ => atom inner

/-- What follows a left operand of a level that has chains. -/
def tailAt (inner : Inner) : Nat → Expr → Parser Expr
  | 1 => orTail inner
  | 2 => andTail inner
  | 4 => compareTail inner
  | 5 => sumTail inner
  | 6 => productTail inner
  | 8 => trailers inner
  | _ => pure

/-- The levels that have chains. -/
def HasChains (level : Nat) : Prop := level ∈ [1, 2, 4, 5, 6, 8]

instance (level : Nat) : Decidable (HasChains level) :=
  inferInstanceAs (Decidable (level ∈ [1, 2, 4, 5, 6, 8]))

theorem parserAt_eq_tailAt (inner : Inner) {level : Nat} (h : HasChains level) :
    parserAt inner level = (parserAt inner (level + 1) >>= tailAt inner level) := by
  unfold HasChains at h
  simp only [List.mem_cons, List.not_mem_nil, or_false] at h
  rcases h with rfl | rfl | rfl | rfl | rfl | rfl <;> rfl

/-- The level of the operator that a lexeme may begin behind an operand. -/
def grip : Lexeme → Option Nat
  | .name "if" => some 0
  | .name "or" => some 1
  | .name "and" => some 2
  | .name "in" | .name "is" | .name "not" => some 4
  | .mark .equal | .mark .notEqual | .mark .less | .mark .lessEqual | .mark .greater
  | .mark .greaterEqual => some 4
  | .mark .plus | .mark .minus => some 5
  | .mark .star | .mark .slash | .mark .doubleSlash | .mark .percent => some 6
  | .mark .leftParen | .mark .leftBracket | .mark .dot => some 8
  | _ => none

/-- A lexeme with which no expression of a level or above goes on. -/
def Stops (level : Nat) (lexeme : Lexeme) : Prop := ∀ g ∈ grip lexeme, g < level

theorem Stops.of_le {level level' : Nat} {lexeme : Lexeme} (h : Stops level lexeme)
    (hle : level ≤ level') : Stops level' lexeme :=
  fun g hg => Nat.lt_of_lt_of_le (h g hg) hle

theorem Stops.ne {level : Nat} {lexeme other : Lexeme} (h : Stops level lexeme) {g : Nat}
    (hg : grip other = some g) (hle : level ≤ g) : lexeme ≠ other := by
  rintro rfl
  exact absurd (h g hg) (Nat.not_lt.mpr hle)

theorem stops_of_grip_none {lexeme : Lexeme} (h : grip lexeme = none) (level : Nat) :
    Stops level lexeme := by
  intro g hg
  rw [h] at hg
  cases hg

theorem Cursor.Spells.stops {c rest : Cursor} {lexeme : Lexeme} {lexemes : List Lexeme}
    (h : c.Spells (lexeme :: lexemes) rest) (hgrip : grip lexeme = none) (level : Nat) :
    Stops level c.here.lexeme :=
  h.here ▸ stops_of_grip_none hgrip level

section Stopping

variable {inner : Inner} {c : Cursor} {e : Expr}

theorem comparisonOp_stops (h : Stops 4 c.here.lexeme) : comparisonOp c = .ok (none, c) := by
  unfold comparisonOp
  rw [peek_bind, peekNext_bind]
  generalize c.here.lexeme = lexeme at h
  generalize c.ahead.head?.map Token.lexeme = next
  split
  case h_11 => rfl
  all_goals exact absurd rfl (h.ne rfl (Nat.le_refl 4))

/-- Nothing to follow is no link. -/
theorem tailAt_stops {level : Nat} (h : Stops level c.here.lexeme) :
    tailAt inner level e c = .ok (e, c) := by
  unfold tailAt
  split
  · exact bind_run (eat_of_ne (h.ne rfl (Nat.le_refl 1)))
  · exact bind_run (eat_of_ne (h.ne rfl (Nat.le_refl 2)))
  · exact bind_run (comparisonOp_stops h)
  · unfold sumTail
    rw [peek_bind]
    generalize c.here.lexeme = lexeme at h
    split
    case h_3 => rfl
    all_goals exact absurd rfl (h.ne rfl (Nat.le_refl 5))
  · unfold productTail
    rw [peek_bind]
    generalize c.here.lexeme = lexeme at h
    split
    case h_5 => rfl
    all_goals exact absurd rfl (h.ne rfl (Nat.le_refl 6))
  · unfold trailers
    rw [peek_bind]
    generalize c.here.lexeme = lexeme at h
    split
    case h_4 => rfl
    all_goals exact absurd rfl (h.ne rfl (Nat.le_refl 8))
  · rfl

theorem not_keyword_of_starts {level : Nat} {keyword : String}
    (h : starts level c.here.lexeme = true) (hkeyword : isKeyword keyword = true)
    (hne : keyword ≠ "not" ∨ 4 ≤ level) : c.here.lexeme ≠ .name keyword := by
  intro heq
  rw [heq, starts, hkeyword] at h
  simp only [Bool.not_true, Bool.false_or, Bool.and_eq_true, beq_iff_eq, decide_eq_true_eq] at h
  rcases hne with hne | hle
  · exact hne h.1
  · omega

variable {rest : Cursor}

/-- An expression of the next level is one of this level, where this level stops. -/
theorem parserAt_of_succ {level : Nat} (h : parserAt inner (level + 1) c = .ok (e, rest))
    (hstart : starts (level + 1) c.here.lexeme = true) (hstop : Stops level rest.here.lexeme) :
    parserAt inner level c = .ok (e, rest) := by
  have hchain (hlevel : HasChains level) : parserAt inner level c = .ok (e, rest) := by
    rw [parserAt_eq_tailAt inner hlevel, bind_run h]
    exact tailAt_stops hstop
  match level with
  | 0 =>
    have hlambda : c.here.lexeme ≠ .name "lambda" :=
      not_keyword_of_starts hstart (by decide) (Or.inl (by decide))
    refine (bind_run (at?_of_ne hlambda)).trans ((bind_run h).trans ?_)
    exact bind_run (eat_of_ne (hstop.ne rfl (Nat.le_refl 0)))
  | 3 =>
    have hnot : c.here.lexeme ≠ .name "not" :=
      not_keyword_of_starts hstart (by decide) (Or.inr (Nat.le_refl 4))
    exact (bind_run (eat_of_ne hnot)).trans h
  | 7 =>
    change factor inner c = .ok (e, rest)
    unfold factor
    rw [peek_bind]
    generalize c.here.lexeme = lexeme at hstart
    split
    · cases hstart
    · cases hstart
    · exact h
  | 1 | 2 | 4 | 5 | 6 | 8 => exact hchain (by simp [HasChains])
  | level + 9 => exact h

/-- An expression of some level is one of all levels below, where these stop. -/
theorem parserAt_of_le {level asked : Nat} (h : parserAt inner level c = .ok (e, rest))
    (hle : asked ≤ level) (hstart : starts level c.here.lexeme = true)
    (hstop : Stops asked rest.here.lexeme) : parserAt inner asked c = .ok (e, rest) := by
  induction hle with
  | refl => exact h
  | step hle ih =>
    refine ih (parserAt_of_succ h hstart (hstop.of_le hle)) ?_
    exact starts_of_le (Nat.le_succ _) hstart

end Stopping

/-! ## Room for tokens -/

/-- Parsers with a unit of room for each of some tokens, in clauses as well as elsewhere. -/
def Inner.Ample : Nat → Inner → Prop
  | 0, _ => True
  | n + 1, inner => ∃ closer clauses : Inner, Ample n closer ∧ Ample n clauses ∧
      inner = { closer.deeper with clause := disjunction clauses }

namespace Inner

/-- With room for a token there is room to go further in. -/
theorem Ample.exists_closer {n : Nat} {inner : Inner} (h : inner.Ample n) (hn : 0 < n) :
    ∃ closer clauses : Inner, closer.Ample (n - 1) ∧ clauses.Ample (n - 1) ∧
      inner = { closer.deeper with clause := disjunction clauses } := by
  obtain ⟨n, rfl⟩ := Nat.exists_eq_add_one.mpr hn
  exact h

theorem Ample.of_le {n : Nat} {inner : Inner} (h : inner.Ample n) {k : Nat} (hle : k ≤ n) :
    inner.Ample k := by
  induction n generalizing inner k with
  | zero =>
    obtain rfl := Nat.le_zero.mp hle
    exact h
  | succ n ih =>
    cases k with
    | zero => exact trivial
    | succ k =>
      obtain ⟨closer, clauses, hcloser, hclauses, rfl⟩ := h
      have hle := Nat.le_of_succ_le_succ hle
      exact ⟨closer, clauses, ih hcloser hle, ih hclauses hle, rfl⟩

theorem ample_withClauses {closer : Inner} {n m : Nat} (h : closer.Ample n) (hm : n ≤ m) :
    (closer.deeper.withClauses (m + 1)).Ample (n + 1) := by
  induction n generalizing m with
  | zero => exact ⟨closer, closer.deeper.withClauses m, trivial, trivial, rfl⟩
  | succ n ih =>
    obtain ⟨m, rfl⟩ := Nat.exists_eq_add_one.mpr (show 0 < m by omega)
    exact ⟨closer, closer.deeper.withClauses (m + 1), h,
      ih (h.of_le (Nat.le_succ n)) (Nat.le_of_succ_le_succ hm), rfl⟩

theorem ample_ofRoom {tokens room n : Nat} (hroom : n ≤ room) (htokens : n ≤ tokens) :
    (ofRoom tokens room).Ample n := by
  induction room generalizing n with
  | zero =>
    obtain rfl := Nat.le_zero.mp hroom
    exact trivial
  | succ room ih =>
    cases n with
    | zero => exact trivial
    | succ n =>
      obtain ⟨tokens, rfl⟩ := Nat.exists_eq_add_one.mpr (show 0 < tokens by omega)
      exact ample_withClauses (ih (by omega) (by omega)) (by omega)

end Inner

/-! ## Expressions that are read back -/

/-- A parser that makes something of given tokens, in front of a lexeme of some kind. -/
def Reads {α : Type} (p : Parser α) (follow : Lexeme → Prop) (lexemes : List Lexeme) (a : α) :
    Prop :=
  ∀ c rest : Cursor, c.Spells lexemes rest → follow rest.here.lexeme → p c = .ok (a, rest)

/-- A parser that gets from the tokens of a left operand to the tail of its chain. -/
def LeadsOn (level n : Nat) (inner : Inner) (lexemes : List Lexeme) (e : Expr) : Prop :=
  ∀ c rest : Cursor, c.Spells lexemes rest → Stops (level + 1) rest.here.lexeme →
    ∃ inner' : Inner, inner'.Ample (n - lexemes.length) ∧
      parserAt inner level c = tailAt inner' level e rest

/-- An expression that is read back where some level is asked for. -/
structure Expr.Readable (e : Expr) : Prop where
  reads : ∀ {asked n : Nat} {inner : Inner}, asked ≤ 9 → inner.Ample n →
    (e.render asked).length ≤ n → Reads (parserAt inner asked) (Stops asked) (e.render asked) e
  leads : ∀ {level n : Nat} {inner : Inner}, HasChains level → inner.Ample n →
    (e.render level).length ≤ n → LeadsOn level n inner (e.render level) e

theorem Expr.starts_here {e : Expr} (he : e.Spellable) {asked : Nat} {c rest : Cursor}
    (h : c.Spells (e.render asked) rest) : starts asked c.here.lexeme = true := by
  obtain ⟨first, more, heq, hfirst⟩ := (e.opens_render he asked).begins
  rw [heq] at h
  rwa [h.here]

theorem ne_of_starts {level : Nat} {lexeme other : Lexeme} (h : starts level lexeme = true)
    (hother : starts level other = false) : lexeme ≠ other := by
  rintro rfl
  rw [h] at hother
  cases hother

theorem atom_leftParen {inner : Inner} {c c' : Cursor} (h : c.Spells [.mark .leftParen] c') :
    atom inner c = parenthesized inner c' := by
  obtain ⟨position, token, ahead, rfl, rfl⟩ := h.single
  rfl

theorem atom_leftBracket {inner : Inner} {c c' : Cursor} (h : c.Spells [.mark .leftBracket] c') :
    atom inner c = bracketed inner c' := by
  obtain ⟨position, token, ahead, rfl, rfl⟩ := h.single
  rfl

theorem atom_leftBrace {inner : Inner} {c c' : Cursor} (h : c.Spells [.mark .leftBrace] c') :
    atom inner c = braced inner c' := by
  obtain ⟨position, token, ahead, rfl, rfl⟩ := h.single
  rfl

section Bodies

variable {e : Expr} {n : Nat}

theorem Expr.render_of_le {asked : Nat} (h : asked ≤ e.level) : e.render asked = e.body :=
  if_neg (Nat.not_lt.mpr h)

theorem Expr.render_of_lt {asked : Nat} (h : e.level < asked) :
    e.render asked = inParens e.body :=
  if_pos h

theorem Expr.body_eq_render : e.body = e.render 0 := (render_of_le (Nat.zero_le _)).symm

/-- An expression that is read back at its own level. -/
def Expr.ReadsBody (e : Expr) : Prop :=
  ∀ {n : Nat} {inner : Inner}, inner.Ample n → e.body.length ≤ n →
    Reads (parserAt inner e.level) (Stops e.level) e.body e

/-- An expression that can be a left operand at its own level. -/
def Expr.LeadsBody (e : Expr) : Prop :=
  ∀ {n : Nat} {inner : Inner}, HasChains e.level → inner.Ample n → e.body.length ≤ n →
    LeadsOn e.level n inner e.body e

variable (he : e.Spellable)
include he

/-- An expression that is read at its own level is read at the levels below. -/
theorem Expr.reads_of_le {inner : Inner} {asked : Nat} (hle : asked ≤ e.level)
    (h : Reads (parserAt inner e.level) (Stops e.level) e.body e) :
    Reads (parserAt inner asked) (Stops asked) e.body e := by
  intro c rest hc hrest
  refine parserAt_of_le (h c rest hc (hrest.of_le hle)) hle ?_ hrest
  rw [← render_of_le (Nat.le_refl e.level)] at hc
  exact starts_here he hc

theorem Expr.ReadsBody.of_le (h : e.ReadsBody) {inner : Inner} (hinner : inner.Ample n)
    (hn : e.body.length ≤ n) {asked : Nat} (hle : asked ≤ e.level) :
    Reads (parserAt inner asked) (Stops asked) e.body e :=
  reads_of_le he hle (h hinner hn)

/-- What is read back at its own level is read back in parentheses as well. -/
theorem Expr.ReadsBody.inParens (h : e.ReadsBody) {inner : Inner} (hinner : inner.Ample n)
    (hn : (inParens e.body).length ≤ n) :
    Reads (atom inner) (fun _ => True) (inParens e.body) e := by
  intro c rest hc _
  have hlength : (Script.inParens e.body).length = e.body.length + 2 := by simp [Script.inParens]
  obtain ⟨closer, clauses, hcloser, -, rfl⟩ := hinner.exists_closer (by omega)
  rw [Script.inParens, List.cons_append] at hc
  obtain ⟨first, hopen, hc⟩ := hc.head
  obtain ⟨last, hbody, hclose⟩ := hc.split
  have hstarts : starts 0 first.here.lexeme = true := starts_here he (body_eq_render ▸ hbody)
  have htest := h.of_le he hcloser (by omega) (Nat.zero_le _) first last hbody (hclose.stops rfl 0)
  rw [atom_leftParen hopen]
  exact (bind_run (eat_of_ne (ne_of_starts hstarts rfl))).trans ((bind_run htest).trans
    (bind_run (eat_run hclose)))

/-- What is read back at its own level is read back wherever it stands. -/
theorem Expr.ReadsBody.readable (h : e.ReadsBody) (hleads : e.LeadsBody) : e.Readable := by
  have hreads : ∀ {asked n : Nat} {inner : Inner}, asked ≤ 9 → inner.Ample n →
      (e.render asked).length ≤ n →
      Reads (parserAt inner asked) (Stops asked) (e.render asked) e := by
    intro asked n inner hasked hinner hn
    rcases Nat.lt_or_ge e.level asked with hlt | hle
    · rw [render_of_lt hlt] at hn ⊢
      intro c rest hc hrest
      have hatom : parserAt inner 9 c = .ok (e, rest) := h.inParens he hinner hn c rest hc trivial
      refine parserAt_of_le hatom hasked ?_ hrest
      rw [Script.inParens, List.cons_append] at hc
      rw [hc.here]
      rfl
    · rw [render_of_le hle] at hn ⊢
      exact h.of_le he hinner hn hle
  refine ⟨hreads, ?_⟩
  intro level n inner hchains hinner hn c rest hc hrest
  by_cases heq : level = e.level
  · subst heq
    rw [render_of_le (Nat.le_refl _)] at hn hc ⊢
    exact hleads hchains hinner hn c rest hc hrest
  · -- at another level the operand is an expression of the next one
    have hrender : e.render level = e.render (level + 1) := by
      rcases Nat.lt_or_gt_of_ne heq with hlt | hgt
      · rw [render_of_le (Nat.le_of_lt hlt), render_of_le hlt]
      · rw [render_of_lt hgt, render_of_lt (Nat.lt_succ_of_lt hgt)]
    have hlevel : level + 1 ≤ 9 := by
      unfold HasChains at hchains
      simp only [List.mem_cons, List.not_mem_nil, or_false] at hchains
      omega
    refine ⟨inner, hinner.of_le (Nat.sub_le _ _), ?_⟩
    rw [hrender] at hn hc
    rw [parserAt_eq_tailAt inner hchains]
    exact bind_run (hreads hlevel hinner hn c rest hc hrest)

end Bodies

theorem Expr.LeadsBody.reads {e : Expr} (h : e.LeadsBody) (hchains : HasChains e.level) :
    e.ReadsBody := by
  intro n inner hinner hn c rest hc hrest
  obtain ⟨inner', -, heq⟩ := h hchains hinner hn c rest hc (hrest.of_le (Nat.le_succ _))
  rw [heq]
  exact tailAt_stops hrest

theorem Expr.Readable.test {e : Expr} (h : e.Readable) {n : Nat} {inner : Inner}
    (hinner : inner.Ample n) (hn : e.body.length < n) :
    Reads inner.test (Stops 0) e.body e := by
  obtain ⟨closer, clauses, hcloser, -, rfl⟩ := hinner.exists_closer (Nat.zero_lt_of_lt hn)
  rw [body_eq_render] at hn ⊢
  exact h.reads (Nat.zero_le _) hcloser (Nat.le_sub_one_of_lt hn)

theorem HasChains.lt {level : Nat} (h : HasChains level) : level < 9 := by
  unfold HasChains at h
  simp only [List.mem_cons, List.not_mem_nil, or_false] at h
  omega

end Monorepo.Script
