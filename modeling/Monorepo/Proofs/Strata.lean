import Monorepo.Proofs.Mirrors

/-!
# Routines and their parsers

A routine of a descent mirrors a parser of the grammar, as long as the routines that it begins do.
The parser is one at the depth where the descent stands: the parsers one level further in are those
at the next depth, and where no level is left the descent fails as they do. The clauses of a
comprehension are read at one depth; that there are enough of them follows from the tokens, since
each stands behind another `for`. Here are the routines that read expressions.
-/

namespace Monorepo.Script

open Monorepo.Script.Parser

/-! ## The grammar at a depth -/

/-- The parsers of the grammar where a number of levels are open, on streams of at most `size`
tokens and with at most `n` comprehensions inside one another. -/
def innerAt (size n depth : Nat) : Inner :=
  if depth < maxNesting then (Inner.ofRoom size (maxNesting - (depth + 1))).deeper.withClauses n
  else .exhausted

variable {size n d : Nat}

theorem ofRoom_eq_innerAt (hd : d ≤ maxNesting) :
    Inner.ofRoom size (maxNesting - d) = innerAt size size d := by
  unfold innerAt
  by_cases hroom : d < maxNesting
  · have hsucc : maxNesting - d = maxNesting - (d + 1) + 1 := by omega
    rw [if_pos hroom, hsucc, Inner.ofRoom]
  · have hzero : maxNesting - d = 0 := by omega
    rw [if_neg hroom, hzero, Inner.ofRoom]

theorem innerAt_of_lt (hd : d < maxNesting) :
    innerAt size n d = (innerAt size size (d + 1)).deeper.withClauses n := by
  rw [innerAt, if_pos hd, ofRoom_eq_innerAt hd]

theorem innerAt_of_not_lt (hd : ¬ d < maxNesting) : innerAt size n d = .exhausted := if_neg hd

/-- A field of the parsers at a depth works one level further in, or fails because there is no
room. -/
theorem innerAt_field {α : Type} (field : Inner → Parser α)
    (hclauses : ∀ inner n, field (Inner.withClauses inner n) = field inner)
    (hexhausted : field .exhausted = Parser.fail .nesting) :
    field (innerAt size n d) =
      if d < maxNesting then field (innerAt size size (d + 1)).deeper
      else Parser.fail .nesting := by
  by_cases hd : d < maxNesting
  · rw [if_pos hd, innerAt_of_lt hd, hclauses]
  · rw [if_neg hd, innerAt_of_not_lt hd, hexhausted]

/-- What does not read clauses does not depend on how many of them are allowed. -/
theorem innerAt_tail {α : Type} (tail : Inner → α)
    (hclauses : ∀ inner n, tail (Inner.withClauses inner n) = tail inner) :
    tail (innerAt size n d) = tail (innerAt size size d) := by
  by_cases hd : d < maxNesting
  · rw [innerAt_of_lt hd, innerAt_of_lt hd, hclauses, hclauses]
  · rw [innerAt_of_not_lt hd, innerAt_of_not_lt hd]

theorem innerAt_test : (innerAt size n d).test =
    if d < maxNesting then conditional (innerAt size size (d + 1)) else Parser.fail .nesting :=
  innerAt_field (·.test) (fun _ n => by cases n <;> rfl) rfl

theorem innerAt_negation : (innerAt size n d).negation =
    if d < maxNesting then negation (innerAt size size (d + 1)) else Parser.fail .nesting :=
  innerAt_field (·.negation) (fun _ n => by cases n <;> rfl) rfl

theorem innerAt_factor : (innerAt size n d).factor =
    if d < maxNesting then factor (innerAt size size (d + 1)) else Parser.fail .nesting :=
  innerAt_field (·.factor) (fun _ n => by cases n <;> rfl) rfl

theorem innerAt_block : (innerAt size n d).block =
    if d < maxNesting then suite (innerAt size size (d + 1)) else Parser.fail .nesting :=
  innerAt_field (·.block) (fun _ n => by cases n <;> rfl) rfl

theorem innerAt_clause (hd : d < maxNesting) :
    (innerAt size (n + 1) d).clause = disjunction (innerAt size n d) := by
  rw [innerAt_of_lt hd, innerAt_of_lt hd]
  rfl

theorem innerAt_orLink (left : Expr) : (innerAt size n d).orLink left =
    if d < maxNesting then do
      orTail (innerAt size size (d + 1))
        (.either left (← conjunction (innerAt size size (d + 1))))
    else Parser.fail .nesting :=
  innerAt_field (·.orLink left) (fun _ n => by cases n <;> rfl) rfl

theorem innerAt_andLink (left : Expr) : (innerAt size n d).andLink left =
    if d < maxNesting then do
      andTail (innerAt size size (d + 1)) (.both left (← negation (innerAt size size (d + 1))))
    else Parser.fail .nesting :=
  innerAt_field (·.andLink left) (fun _ n => by cases n <;> rfl) rfl

theorem innerAt_compareLink (op : ComparisonOp) (left : Expr) :
    (innerAt size n d).compareLink op left =
      if d < maxNesting then do
        compareTail (innerAt size size (d + 1))
          (.compare op left (← sum (innerAt size size (d + 1))))
      else Parser.fail .nesting :=
  innerAt_field (·.compareLink op left) (fun _ n => by cases n <;> rfl) rfl

theorem innerAt_sumLink (op : ArithmeticOp) (left : Expr) :
    (innerAt size n d).sumLink op left =
      if d < maxNesting then do
        sumTail (innerAt size size (d + 1))
          (.arithmetic op left (← product (innerAt size size (d + 1))))
      else Parser.fail .nesting :=
  innerAt_field (·.sumLink op left) (fun _ n => by cases n <;> rfl) rfl

theorem innerAt_productLink (op : ArithmeticOp) (left : Expr) :
    (innerAt size n d).productLink op left =
      if d < maxNesting then do
        productTail (innerAt size size (d + 1))
          (.arithmetic op left (← factor (innerAt size size (d + 1))))
      else Parser.fail .nesting :=
  innerAt_field (·.productLink op left) (fun _ n => by cases n <;> rfl) rfl

theorem innerAt_trailer (e : Expr) : (innerAt size n d).trailer e =
    if d < maxNesting then Inner.readTrailer (innerAt size size (d + 1)) e
    else Parser.fail .nesting :=
  innerAt_field (·.trailer e) (fun _ n => by cases n <;> rfl) rfl

/-! ## Routines and parsers -/

/-- The parser of what a routine reads. -/
def parserOf (inner : Inner) : {α : Type} → Routine α → Parser α
  | _, .statements => statements inner
  | _, .simpleLine => simpleLine inner
  | _, .simpleAction => simpleAction inner
  | _, .branchAction => do advance; branchAction inner
  | _, .loopAction => do advance; loopAction inner
  | _, .defineAction => do advance; defineAction inner
  | _, .block => inner.block
  | _, .suite => suite inner
  | _, .testList => testList inner
  | _, .test => inner.test
  | _, .conditional => conditional inner
  | _, .disjunction => disjunction inner
  | _, .conjunction => conjunction inner
  | _, .negation => negation inner
  | _, .comparison => do compareTail inner (← sum inner)
  | _, .sum => sum inner
  | _, .product => product inner
  | _, .factor => factor inner
  | _, .primary => do trailers inner (← atom inner)
  | _, .callArguments => callArguments inner
  | _, .atom => atom inner

namespace Descent

/-- What a routine begins mirrors its parser, if it begins behind the index `i` or on a level below
`level`. -/
def Begins (tokens : List Token) (call : {α : Type} → Routine α → Descent α) (i level : Nat) :
    Prop :=
  ∀ {α : Type} (r : Routine α) (j n d : Nat), i < j ∨ i = j ∧ r.level < level →
    tokens.length - j ≤ n → d ≤ maxNesting →
      Mirrors tokens ⟨j, d⟩ d (fun _ k => j < k) (call r) (parserOf (innerAt tokens.length n d) r)

variable {tokens : List Token} {call : {α : Type} → Routine α → Descent α}
variable {i j level : Nat}

section Plain

variable (hend : EndsInFinish tokens)

theorem mirrors_startsExpression :
    Mirrors tokens ⟨i, d⟩ d (fun _ _ => True) startsExpression Script.startsExpression := by
  refine .peek fun t _ => ?_
  obtain ⟨lexeme, position⟩ := t
  cases lexeme with
  | mark m => cases m <;> exact .pure trivial
  | _ => exact .pure trivial

include hend

theorem mirrors_identifier :
    Mirrors tokens ⟨i, d⟩ d (fun _ j => i < j) identifier Script.identifier := by
  refine .peek fun t ht => ?_
  obtain ⟨lexeme, position⟩ := t
  cases lexeme with
  | name name =>
    refine .ite (fun _ => .unexpected (Nat.le_refl d)) fun _ => ?_
    exact .advance hend ht (Lexeme.name_ne_finish name) (.pure (Nat.lt_succ_self i))
  | _ => exact .unexpected (Nat.le_refl d)

theorem mirrors_loopTargets :
    Mirrors tokens ⟨i, d⟩ d (fun _ j => i < j) loopTargets Script.loopTargets := by
  have hstop (j : Nat) : Mirrors tokens ⟨j, d⟩ d (fun _ _ => True)
      (do return (← at? (.name "in")) || (← at? (.mark .rightParen)))
      (do return (← Parser.at? (.name "in")) || (← Parser.at? (.mark .rightParen))) :=
    .at? fun _ _ => .at? fun _ _ => .pure trivial
  refine (Mirrors.eatMark hend).bind fun parenthesized j hij _ => ?_
  refine (mirrors_identifier hend).bind fun first k _ hjk => ?_
  have hrest := Mirrors.commaRest hend (fun l (_ : k ≤ l) => mirrors_identifier hend)
    fun l _ => hstop l
  refine hrest.bind fun rest l hkl _ => .ite (fun _ => ?_) fun _ => .pure (by omega)
  exact (Mirrors.expectMark hend).bind fun _ m _ hlm => .pure (by omega)

end Plain

/-! ### Chains -/

section Chains

variable {size : Nat} (hend : EndsInFinish tokens)
include hend

theorem leads_product : Leads tokens productOp
    (fun e op left => do return .arithmetic op left (← Script.factor (innerAt size size e)))
    (fun e => productTail (innerAt size size e)) fun _ _ => True := by
  refine .peek hend (fun _ _ => rfl) fun lexeme => ?_
  have hlink (op : ArithmeticOp) (e : Nat) (left : Expr) :
      (innerAt size size e).productLink op left = chainRest
        (fun e op left => do return .arithmetic op left (← Script.factor (innerAt size size e)))
        (fun e => productTail (innerAt size size e)) e left (some op) := by
    simp only [innerAt_productLink, chainRest, bind_assoc, pure_bind]
  cases lexeme with
  | mark m =>
    cases m with
    | star | slash | doubleSlash | percent =>
      exact Or.inr ⟨Lexeme.mark_ne_finish _, _, rfl, fun e left => by rw [← hlink]⟩
    | _ => exact Or.inl ⟨rfl, fun _ _ => rfl⟩
  | _ => exact Or.inl ⟨rfl, fun _ _ => rfl⟩

theorem leads_sum : Leads tokens sumOp
    (fun e op left => do return .arithmetic op left (← Script.product (innerAt size size e)))
    (fun e => sumTail (innerAt size size e)) fun _ _ => True := by
  refine .peek hend (fun _ _ => rfl) fun lexeme => ?_
  have hlink (op : ArithmeticOp) (e : Nat) (left : Expr) :
      (innerAt size size e).sumLink op left = chainRest
        (fun e op left => do return .arithmetic op left (← Script.product (innerAt size size e)))
        (fun e => sumTail (innerAt size size e)) e left (some op) := by
    simp only [innerAt_sumLink, chainRest, bind_assoc, pure_bind]
  cases lexeme with
  | mark m =>
    cases m with
    | plus | minus =>
      exact Or.inr ⟨Lexeme.mark_ne_finish _, _, rfl, fun e left => by rw [← hlink]⟩
    | _ => exact Or.inl ⟨rfl, fun _ _ => rfl⟩
  | _ => exact Or.inl ⟨rfl, fun _ _ => rfl⟩

theorem leads_conjunction : Leads tokens (keywordOp "and")
    (fun e _ left => do return .both left (← Script.negation (innerAt size size e)))
    (fun e => andTail (innerAt size size e)) fun _ _ => True := by
  refine .keyword hend fun e left => ?_
  have hlink : (innerAt size size e).andLink left = chainRest
      (fun e _ left => do return .both left (← Script.negation (innerAt size size e)))
      (fun e => andTail (innerAt size size e)) e left (some ()) := by
    simp only [innerAt_andLink, chainRest, bind_assoc, pure_bind]
  rw [← hlink]
  rfl

theorem leads_disjunction : Leads tokens (keywordOp "or")
    (fun e _ left => do return .either left (← Script.conjunction (innerAt size size e)))
    (fun e => orTail (innerAt size size e)) fun _ _ => True := by
  refine .keyword hend fun e left => ?_
  have hlink : (innerAt size size e).orLink left = chainRest
      (fun e _ left => do return .either left (← Script.conjunction (innerAt size size e)))
      (fun e => orTail (innerAt size size e)) e left (some ()) := by
    simp only [innerAt_orLink, chainRest, bind_assoc, pure_bind]
  rw [← hlink]
  rfl

omit hend in
/-- The comparison operator under a cursor. -/
theorem comparisonOp_eq (c : Cursor) : Script.comparisonOp c =
    .ok (comparisonOf c.here.lexeme (c.ahead.head?.map Token.lexeme), c) := by
  have hpeek {f : Lexeme → Parser (Option (ComparisonOp × Nat))} :
      (Parser.peek >>= f) c = f c.here.lexeme c := rfl
  have hnext {f : Option Lexeme → Parser (Option (ComparisonOp × Nat))} :
      (Parser.peekNext >>= f) c = f (c.ahead.head?.map Token.lexeme) c := rfl
  unfold Script.comparisonOp
  rw [hpeek, hnext]
  generalize c.here.lexeme = lexeme
  generalize c.ahead.head?.map Token.lexeme = next
  split
  case h_9 | h_11 =>
    unfold comparisonOf
    simp only
    rfl
  all_goals rfl

omit hend in
/-- The tokens that a comparison operator takes are there, and not the end of the input. -/
theorem taken_of_comparisonOf {lexeme : Lexeme} {next : Option Token} {op : ComparisonOp}
    {width : Nat} (h : comparisonOf lexeme (next.map Token.lexeme) = some (op, width)) :
    lexeme ≠ .finish ∧ (width = 2 → ∃ second, next = some second ∧ second.lexeme ≠ .finish) := by
  unfold comparisonOf at h
  split at h <;> cases h
  case h_8.refl hnext | h_10.refl hnext =>
    obtain ⟨second, hsecond, hname⟩ := Option.map_eq_some_iff.mp hnext
    exact ⟨nofun, fun _ => ⟨second, hsecond, by rw [hname]; nofun⟩⟩
  all_goals exact ⟨nofun, nofun⟩

theorem leads_comparison : Leads tokens comparisonOp
    (fun e op left => do return .compare op left (← Script.sum (innerAt size size e)))
    (fun e => compareTail (innerAt size size e)) fun _ _ => True := by
  intro left i e c hc
  have hlink (op : ComparisonOp) : (innerAt size size e).compareLink op left = chainRest
      (fun e op left => do return .compare op left (← Script.sum (innerAt size size e)))
      (fun e => compareTail (innerAt size size e)) e left (some op) := by
    simp only [innerAt_compareLink, chainRest, bind_assoc, pure_bind]
  have hcompare {f : Option (ComparisonOp × Nat) → Parser Expr} :
      (Script.comparisonOp >>= f) c =
        f (comparisonOf c.here.lexeme (c.ahead.head?.map Token.lexeme)) c := by
    change (Script.comparisonOp c).bind _ = _
    rw [comparisonOp_eq]
    rfl
  have hnext : peekNext tokens ⟨i, e⟩ = (.ok (c.ahead.head?.map Token.lexeme), ⟨i, e⟩) := by
    unfold peekNext
    rw [hc.getElem?_succ]
  unfold comparisonOp
  rw [bind_ok (peek_of_isAt hc), bind_ok hnext]
  change ∃ r c' j, _ ∧ compareTail (innerAt size size e) left c = _ ∧ _
  unfold compareTail
  rw [hcompare]
  cases hop : comparisonOf c.here.lexeme (c.ahead.head?.map Token.lexeme) with
  | none => exact ⟨none, c, i, rfl, rfl, hc, Nat.le_refl i, fun _ _ => trivial⟩
  | some found =>
    obtain ⟨op, width⟩ := found
    obtain ⟨hne, hsecond⟩ := taken_of_comparisonOf hop
    obtain ⟨hmove, hc₁⟩ := advance_of_isAt (d := e) hend hc hne
    dsimp only
    rw [bind_ok hmove, hlink]
    by_cases hwidth : width = 2
    · obtain ⟨second, hahead, hne'⟩ := hsecond hwidth
      have hhere : c.next.here = second := by
        have hget := hc₁.getElem?
        rw [hc.getElem?_succ, hahead] at hget
        exact (Option.some.inj hget).symm
      obtain ⟨hmove', hc₂⟩ := advance_of_isAt (d := e) hend hc₁ (hhere ▸ hne')
      rw [if_pos hwidth, bind_ok hmove', if_pos hwidth]
      exact ⟨some op, c.next.next, i + 1 + 1, rfl, rfl, hc₂, by omega, fun _ _ => trivial⟩
    · rw [if_neg hwidth, if_neg hwidth]
      exact ⟨some op, c.next, i + 1, rfl, rfl, hc₁, Nat.le_succ i, fun _ _ => trivial⟩

/-- A call, a subscript or an attribute, by the mark it begins with. -/
def trailerOf (inner : Inner) (m : Mark) (object : Expr) : Parser Expr := do
  Parser.advance
  match m with
  | .leftParen => return .call object (← Script.callArguments inner)
  | .leftBracket =>
    if ← Parser.at? (.mark .colon) then Parser.fail .slice
    let index ← Script.testList inner
    if ← Parser.at? (.mark .colon) then Parser.fail .slice
    Parser.expectMark .rightBracket
    return .subscript object index
  | _ => return .attribute object (← Script.identifier)

omit hend in
/-- A call, a subscript or an attribute is read, and then what follows it. -/
theorem readTrailer_eq {inner : Inner} {m : Mark} {object : Expr} {c : Cursor}
    (hhere : c.here.lexeme = .mark m) (hm : m ∈ [.leftParen, .leftBracket, .dot]) :
    inner.readTrailer object c = (do trailers inner (← trailerOf inner m object)) c := by
  have hpeek {f : Lexeme → Parser Expr} : (Parser.peek >>= f) c = f c.here.lexeme c := rfl
  unfold Inner.readTrailer
  rw [hpeek, hhere]
  simp only [List.mem_cons, List.not_mem_nil, or_false] at hm
  have hite {b : Bool} {p q : Parser Expr} {f : Expr → Parser Expr} :
      (if b then p else q) >>= f = if b then p >>= f else q >>= f := by cases b <;> rfl
  rcases hm with rfl | rfl | rfl
  all_goals simp [trailerOf, hite]

omit hend in
theorem leads_primary : Leads tokens trailerMark
    (fun e m object => trailerOf (innerAt size size e) m object)
    (fun e => trailers (innerAt size size e))
    fun m i => ∃ t, tokens[i]? = some t ∧ t.lexeme = .mark m := by
  intro left i e c hc
  unfold trailerMark
  rw [bind_ok (peek_of_isAt hc)]
  have hpeek {f : Lexeme → Parser Expr} : (Parser.peek >>= f) c = f c.here.lexeme c := rfl
  change ∃ r c' j, _ ∧ trailers (innerAt size size e) left c = _ ∧ _
  unfold trailers
  rw [hpeek]
  have hsome {m : Mark} (hhere : c.here.lexeme = .mark m)
      (hm : m ∈ [.leftParen, .leftBracket, .dot]) : (innerAt size size e).trailer left c =
        chainRest (fun e m object => trailerOf (innerAt size size e) m object)
          (fun e => trailers (innerAt size size e)) e left (some m) c := by
    rw [innerAt_trailer, chainRest]
    split
    · exact readTrailer_eq hhere hm
    · rfl
  cases hhere : c.here.lexeme with
  | mark m =>
    cases m with
    | leftParen | leftBracket | dot =>
      exact ⟨_, c, i, rfl, hsome hhere (by decide), hc, Nat.le_refl i,
        fun m hm => ⟨c.here, hc.getElem?, by rw [hhere, Option.some.inj hm]⟩⟩
    | _ => exact ⟨none, c, i, rfl, rfl, hc, Nat.le_refl i, by simp⟩
  | _ => exact ⟨none, c, i, rfl, rfl, hc, Nat.le_refl i, by simp⟩

end Chains

/-! ### Expressions -/

section Expressions

variable (hend : EndsInFinish tokens) (hbegins : Begins tokens call i level)
variable (hn : tokens.length - i ≤ n) (hd : d ≤ maxNesting)
include hend hbegins hn hd

omit hend in
/-- A routine of a lower level begins at the same token or behind it. -/
theorem begins_lower {α : Type} {r : Routine α} (hij : i ≤ j) (hlevel : r.level < level) :
    Mirrors tokens ⟨j, d⟩ d (fun _ k => j < k) (call r)
      (parserOf (innerAt tokens.length n d) r) := by
  refine hbegins r j n d ?_ (by omega) hd
  rcases Nat.lt_or_eq_of_le hij with hlt | heq
  · exact Or.inl hlt
  · exact Or.inr ⟨heq, hlevel⟩

omit hend in
/-- Every routine begins behind a token that was taken. -/
theorem begins_later {α : Type} {r : Routine α} (hij : i < j) :
    Mirrors tokens ⟨j, d⟩ d (fun _ k => j < k) (call r)
      (parserOf (innerAt tokens.length n d) r) :=
  hbegins r j n d (Or.inl hij) (by omega) hd

omit hend hn hd in
/-- A level further in, a routine of a lower level begins as well. -/
theorem begins_nested {α : Type} {r : Routine α} (hr : i < j ∨ i = j ∧ r.level < level) :
    Mirrors tokens ⟨j, d⟩ d (fun _ k => j < k) (nested (call r))
      (if d < maxNesting then parserOf (innerAt tokens.length tokens.length (d + 1)) r
        else Parser.fail .nesting) :=
  .nested fun hroom => hbegins r j tokens.length (d + 1) hr (Nat.sub_le _ _) hroom

theorem mirrors_testList (hlevel : Routine.test.level < level) :
    Mirrors tokens ⟨i, d⟩ d (fun _ j => i < j) (testList call)
      (Script.testList (innerAt tokens.length n d)) := by
  have htest (j : Nat) (hij : i ≤ j) : Mirrors tokens ⟨j, d⟩ d (fun _ k => j < k)
      (call .test) (innerAt tokens.length n d).test := begins_lower hbegins hn hd hij hlevel
  refine (htest i (Nat.le_refl i)).bind fun first j hij hlt => .at? fun _ _ => ?_
  refine .ite (fun _ => ?_) fun _ => .pure hlt
  have hrest : Mirrors tokens ⟨j, d⟩ d (fun _ _ => True)
      (commaRest (do return !(← startsExpression)) (call .test))
      (Parser.commaRest (do return !(← Script.startsExpression))
        (innerAt tokens.length n d).test) :=
    .commaRest hend (fun k hjk => htest k (Nat.le_trans hij hjk))
      fun k _ => mirrors_startsExpression.bind fun _ _ _ _ => .pure trivial
  exact hrest.bind fun rest k hjk _ => .pure (Nat.lt_of_lt_of_le hlt hjk)

omit hend in
theorem mirrors_positional (hij : i ≤ j) (hlevel : Routine.test.level < level) :
    Mirrors tokens ⟨j, d⟩ d (fun _ k => j < k) (positional call)
      (Script.argument.positional (innerAt tokens.length n d)) := by
  have htest : Mirrors tokens ⟨j, d⟩ d (fun _ k => j < k)
      (call .test) (innerAt tokens.length n d).test := begins_lower hbegins hn hd hij hlevel
  refine htest.bind fun value k _ hjk => .at? fun _ _ => ?_
  exact .ite (fun _ => .fail_bind nofun) fun _ => .pure hjk

theorem mirrors_argument (hij : i ≤ j) (hlevel : Routine.test.level < level) :
    Mirrors tokens ⟨j, d⟩ d (fun _ k => j < k) (argument call)
      (Script.argument (innerAt tokens.length n d)) := by
  have hpositional := mirrors_positional hbegins hn hd hij hlevel
  have htest {k : Nat} (hjk : j < k) : Mirrors tokens ⟨k, d⟩ d (fun _ l => j < l)
      (call .test) (innerAt tokens.length n d).test :=
    (begins_later hbegins hn hd (Nat.lt_of_le_of_lt hij hjk)).mono
      fun _ _ _ => Nat.lt_trans hjk
  refine .peek fun t ht => .peekNext ?_
  obtain ⟨lexeme, position⟩ := t
  cases lexeme with
  | mark m =>
    cases m with
    | star =>
      exact .advance hend ht (Lexeme.mark_ne_finish _)
        ((htest (Nat.lt_succ_self j)).bind fun value k _ hjk => .pure hjk)
    | doubleStar =>
      exact .advance hend ht (Lexeme.mark_ne_finish _)
        ((htest (Nat.lt_succ_self j)).bind fun value k _ hjk => .pure hjk)
    | _ => exact hpositional
  | name name =>
    cases hsecond : tokens[j + 1]? with
    | none => exact hpositional
    | some second =>
      obtain ⟨lexeme, position⟩ := second
      cases lexeme with
      | mark m =>
        cases m with
        | assign =>
          have hjk : j < j + 1 + 1 := by omega
          refine .ite (fun _ => hpositional) fun _ => ?_
          refine .advance hend ht (Lexeme.name_ne_finish name) ?_
          refine .advance hend hsecond (Lexeme.mark_ne_finish _) ?_
          exact (htest hjk).bind fun value k _ hjk => .pure hjk
        | _ => exact hpositional
      | _ => exact hpositional
  | _ => exact hpositional

theorem mirrors_callArguments (hlevel : Routine.test.level < level) :
    Mirrors tokens ⟨i, d⟩ d (fun _ j => i < j) (callArguments call)
      (Script.callArguments (innerAt tokens.length n d)) := by
  have harguments : Mirrors tokens ⟨i, d⟩ d (fun _ _ => True)
      (commaItems (at? (.mark .rightParen)) (argument call))
      (commaList (Parser.at? (.mark .rightParen))
        (Script.argument (innerAt tokens.length n d))) :=
    .commaItems hend (fun j hij => mirrors_argument hend hbegins hn hd hij hlevel)
      fun j _ => Mirrors.test
  refine harguments.bind fun arguments j hij _ => (Mirrors.expectMark hend).bind ?_
  exact fun _ k _ hjk => .pure (Nat.lt_of_le_of_lt hij hjk)

section Brackets

variable (hij : i < j)
include hij

omit hend in
/-- Behind an expression there was room for it. -/
theorem mirrors_test : Mirrors tokens ⟨j, d⟩ d (fun _ k => j < k ∧ d < maxNesting) (call .test)
    (innerAt tokens.length n d).test := by
  have htest : Mirrors tokens ⟨j, d⟩ d (fun _ k => j < k) (call .test)
      (innerAt tokens.length n d).test := begins_later hbegins hn hd hij
  by_cases hroom : d < maxNesting
  · exact htest.mono fun _ _ _ hjk => ⟨hjk, hroom⟩
  · intro c hc
    rcases htest c hc with ⟨a, c', k, hp, -⟩ | hfault
    · rw [innerAt_test, if_neg hroom] at hp
      cases hp
    · exact Or.inr hfault

theorem mirrors_tests {stop : Descent Bool} {pstop : Parser Bool}
    (hstop : ∀ k, j ≤ k → Mirrors tokens ⟨k, d⟩ d (fun _ _ => True) stop pstop) :
    Mirrors tokens ⟨j, d⟩ d (fun _ _ => True) (commaRest stop (call .test))
      (Parser.commaRest pstop (innerAt tokens.length n d).test) :=
  .commaRest hend (fun _ hjk => begins_later hbegins hn hd (Nat.lt_of_lt_of_le hij hjk)) hstop

theorem mirrors_parenthesized : Mirrors tokens ⟨j, d⟩ d (fun _ _ => True) (parenthesized call)
    (Script.parenthesized (innerAt tokens.length n d)) := by
  refine (Mirrors.eatMark hend).bind fun empty k hjk _ => .ite (fun _ => .pure trivial) fun _ => ?_
  refine (mirrors_test hbegins hn hd (j := k) (by omega)).bind fun first l hkl _ => ?_
  refine (Mirrors.eatMark hend).bind fun single m hlm _ => .ite (fun _ => .pure trivial) fun _ => ?_
  refine (mirrors_tests hend hbegins hn hd (j := m) (by omega) fun _ _ => Mirrors.test).bind ?_
  intro rest o hmo _
  exact (Mirrors.expectMark hend).bind fun _ _ _ _ => .pure trivial

theorem mirrors_entry : Mirrors tokens ⟨j, d⟩ d (fun _ k => j < k) (entry call)
    (Script.entry (innerAt tokens.length n d)) := by
  refine (mirrors_test hbegins hn hd hij).bind fun key k hjk _ => ?_
  refine (Mirrors.expectMark hend).bind fun _ l hkl _ => ?_
  refine (mirrors_test hbegins hn hd (j := l) (by omega)).bind fun value m hlm hm => ?_
  exact .pure (by omega)

theorem mirrors_braced : Mirrors tokens ⟨j, d⟩ d (fun _ _ => True) (braced call)
    (Script.braced (innerAt tokens.length n d)) := by
  have hentries : Mirrors tokens ⟨j, d⟩ d (fun _ _ => True)
      (commaItems (at? (.mark .rightBrace)) (entry call))
      (commaList (Parser.at? (.mark .rightBrace)) (Script.entry (innerAt tokens.length n d))) :=
    .commaItems hend (fun k hjk => mirrors_entry hend hbegins hn hd (Nat.lt_of_lt_of_le hij hjk))
      fun k _ => Mirrors.test
  refine hentries.bind fun entries k hjk _ => (Mirrors.expectMark hend).bind ?_
  exact fun _ _ _ _ => .pure trivial

omit hend in
/-- A clause of a comprehension is read at the same depth, and with a token less. -/
theorem mirrors_clause (hroom : d < maxNesting) :
    Mirrors tokens ⟨j, d⟩ d (fun _ k => j < k) (call .disjunction)
      (innerAt tokens.length n d).clause := by
  -- No clause is left only where no token is: one was taken since the index `i`.
  cases n with
  | zero => exact .of_length_le (by omega)
  | succ n =>
    rw [innerAt_clause hroom]
    exact hbegins .disjunction j n d (Or.inl hij) (by omega) hd

theorem mirrors_comprehension (hroom : d < maxNesting) (element : Expr) :
    Mirrors tokens ⟨j, d⟩ d (fun _ _ => True) (comprehension call element)
      (do
        let targets ← Script.loopTargets
        Parser.expectKeyword "in"
        let source ← (innerAt tokens.length n d).clause
        let condition ← if ← Parser.eatKeyword "if" then
            some <$> (innerAt tokens.length n d).clause else pure none
        Parser.expectMark .rightBracket
        return .comprehension element targets source condition) := by
  refine (mirrors_loopTargets hend).bind fun targets k _ hjk => ?_
  refine (Mirrors.expectKeyword hend).bind fun _ l hkl _ => ?_
  refine (mirrors_clause hbegins hn hd (j := l) (by omega) hroom).bind fun source m hlm _ => ?_
  refine (Mirrors.eatKeyword hend).bind fun filtered o hmo _ => .ite (fun _ => ?_) fun _ => ?_
  · rw [map_eq_pure_bind, map_eq_pure_bind, bind_assoc, bind_assoc]
    refine (mirrors_clause hbegins hn hd (j := o) (by omega) hroom).bind fun condition _ _ _ => ?_
    exact (Mirrors.expectMark hend).bind fun _ _ _ _ => .pure trivial
  · exact (Mirrors.expectMark hend).bind fun _ _ _ _ => .pure trivial

theorem mirrors_bracketed : Mirrors tokens ⟨j, d⟩ d (fun _ _ => True) (bracketed call)
    (Script.bracketed (innerAt tokens.length n d)) := by
  refine (Mirrors.eatMark hend).bind fun empty k hjk _ => .ite (fun _ => .pure trivial) fun _ => ?_
  refine (mirrors_test hbegins hn hd (j := k) (by omega)).bind fun first l hkl hroom => ?_
  refine (Mirrors.eatKeyword hend).bind fun comprehension m hlm _ => ?_
  refine .ite (fun _ => ?_) fun _ => ?_
  · exact mirrors_comprehension hend hbegins hn hd (by omega) hroom.2 first
  · refine (mirrors_tests hend hbegins hn hd (j := m) (by omega) fun _ _ => Mirrors.test).bind ?_
    intro rest o hmo _
    exact (Mirrors.expectMark hend).bind fun _ _ _ _ => .pure trivial

end Brackets

theorem mirrors_atom : Mirrors tokens ⟨i, d⟩ d (fun _ j => i < j) (atom call)
    (Script.atom (innerAt tokens.length n d)) := by
  have hnext : i < i + 1 := Nat.lt_succ_self i
  refine .peek fun t ht => ?_
  obtain ⟨lexeme, position⟩ := t
  cases lexeme with
  | int _ | float _ | text _ => exact .advance hend ht (by simp) (.pure hnext)
  | name name =>
    have hleaf {e : Expr} : Mirrors tokens ⟨i, d⟩ d (fun _ j => i < j)
        (do advance; return e) (do Parser.advance; return e) :=
      .advance hend ht (Lexeme.name_ne_finish name) (.pure hnext)
    by_cases htrue : name = "True"
    · subst htrue
      exact hleaf
    by_cases hfalse : name = "False"
    · subst hfalse
      exact hleaf
    by_cases hnone : name = "None"
    · subst hnone
      exact hleaf
    simp only
    exact .ite (fun _ => .unexpected (Nat.le_refl d)) fun _ => hleaf
  | mark m =>
    cases m with
    | leftParen =>
      refine .advance hend ht (Lexeme.mark_ne_finish _) ?_
      exact (mirrors_parenthesized hend hbegins hn hd hnext).mono fun _ _ hij _ => hij
    | leftBracket =>
      refine .advance hend ht (Lexeme.mark_ne_finish _) ?_
      exact (mirrors_bracketed hend hbegins hn hd hnext).mono fun _ _ hij _ => hij
    | leftBrace =>
      refine .advance hend ht (Lexeme.mark_ne_finish _) ?_
      exact (mirrors_braced hend hbegins hn hd hnext).mono fun _ _ hij _ => hij
    | _ => exact .unexpected (Nat.le_refl d)
  | _ => exact .unexpected (Nat.le_refl d)

theorem mirrors_trailer {m : Mark} {object : Expr} {t : Token} (hij : i < j)
    (ht : tokens[j]? = some t) (hm : t.lexeme = .mark m) :
    Mirrors tokens ⟨j, d⟩ d (fun _ k => j < k) (trailer call m object)
      (trailerOf (innerAt tokens.length n d) m object) := by
  have hnext : i < j + 1 := Nat.lt_succ_of_lt hij
  have hne : t.lexeme ≠ .finish := by
    rw [hm]
    exact Lexeme.mark_ne_finish m
  refine .advance hend ht hne ?_
  cases m with
  | leftParen =>
    refine (begins_later hbegins hn hd hnext).bind fun arguments k hjk _ => ?_
    exact .pure (by omega)
  | leftBracket =>
    refine .at? fun _ _ => .ite (fun _ => .fail_bind nofun) fun _ => ?_
    refine (begins_later hbegins hn hd hnext).bind fun index k hjk _ => ?_
    refine .at? fun _ _ => .ite (fun _ => .fail_bind nofun) fun _ => ?_
    exact (Mirrors.expectMark hend).bind fun _ l hkl _ => .pure (by omega)
  | _ => exact (mirrors_identifier hend).bind fun name k _ hjk => .pure (by omega)

theorem mirrors_primary (hlevel : Routine.atom.level < level) :
    Mirrors tokens ⟨i, d⟩ d (fun _ j => i < j) (primary call)
      (parserOf (innerAt tokens.length n d) .primary) := by
  have hatom : Mirrors tokens ⟨i, d⟩ d (fun _ j => i < j) (call .atom)
      (Script.atom (innerAt tokens.length n d)) :=
    begins_lower hbegins hn hd (Nat.le_refl i) hlevel
  unfold parserOf
  rw [innerAt_tail trailers fun _ n => by cases n <;> rfl]
  refine .chain hatom leads_primary ?_ hd
  intro m object j e hij ⟨t, ht, hm⟩ he
  exact mirrors_trailer hend hbegins (Nat.sub_le _ _) he hij ht hm

theorem mirrors_factor (hlevel : Routine.primary.level < level) :
    Mirrors tokens ⟨i, d⟩ d (fun _ j => i < j) (factor call)
      (Script.factor (innerAt tokens.length n d)) := by
  have hsigned (op : UnaryOp) : Mirrors tokens ⟨i + 1, d⟩ d (fun _ j => i < j)
      (do return Expr.unary op (← nested (call .factor)))
      (do return Expr.unary op (← (innerAt tokens.length n d).factor)) := by
    rw [innerAt_factor]
    refine (begins_nested hbegins (Or.inl (Nat.lt_succ_self i))).bind fun operand j _ hij => ?_
    exact .pure (Nat.lt_of_succ_lt hij)
  have hprimary : Mirrors tokens ⟨i, d⟩ d (fun _ j => i < j) (call .primary)
      (parserOf (innerAt tokens.length n d) .primary) :=
    begins_lower hbegins hn hd (Nat.le_refl i) hlevel
  refine .peek fun t ht => ?_
  obtain ⟨lexeme, position⟩ := t
  cases lexeme with
  | mark m =>
    cases m with
    | minus => exact .advance hend ht (Lexeme.mark_ne_finish _) (hsigned .minus)
    | plus => exact .advance hend ht (Lexeme.mark_ne_finish _) (hsigned .plus)
    | _ => exact hprimary
  | _ => exact hprimary

omit hend in
/-- Operands of a lower level with operators between them. -/
theorem mirrors_operands {κ : Type} {r : Routine Expr} {operator : Descent (Option κ)}
    {build : κ → Expr → Expr → Expr} {tail : Inner → Expr → Parser Expr}
    (hlevel : r.level < level)
    (hclauses : ∀ inner n, tail (Inner.withClauses inner n) = tail inner)
    (hoperator : Leads tokens operator
      (fun e op left => do
        return build op left (← parserOf (innerAt tokens.length tokens.length e) r))
      (fun e => tail (innerAt tokens.length tokens.length e)) fun _ _ => True) :
    Mirrors tokens ⟨i, d⟩ d (fun _ j => i < j)
      (chain (call r) operator fun op left => do return build op left (← call r))
      (do tail (innerAt tokens.length n d) (← parserOf (innerAt tokens.length n d) r)) := by
  rw [innerAt_tail tail hclauses]
  refine .chain (begins_lower hbegins hn hd (Nat.le_refl i) hlevel) hoperator ?_ hd
  intro op left j e hij _ he
  exact (hbegins r j tokens.length e (Or.inl hij) (Nat.sub_le _ _) he).bind
    fun operand k _ hjk => .pure hjk

theorem mirrors_product (hlevel : Routine.factor.level < level) :
    Mirrors tokens ⟨i, d⟩ d (fun _ j => i < j) (product call)
      (Script.product (innerAt tokens.length n d)) :=
  mirrors_operands hbegins hn hd hlevel (fun _ n => by cases n <;> rfl) (leads_product hend)

theorem mirrors_sum (hlevel : Routine.product.level < level) :
    Mirrors tokens ⟨i, d⟩ d (fun _ j => i < j) (sum call)
      (Script.sum (innerAt tokens.length n d)) :=
  mirrors_operands hbegins hn hd hlevel (fun _ n => by cases n <;> rfl) (leads_sum hend)

theorem mirrors_comparison (hlevel : Routine.sum.level < level) :
    Mirrors tokens ⟨i, d⟩ d (fun _ j => i < j) (comparison call)
      (parserOf (innerAt tokens.length n d) .comparison) :=
  mirrors_operands hbegins hn hd hlevel (fun _ n => by cases n <;> rfl) (leads_comparison hend)

theorem mirrors_negation (hlevel : Routine.comparison.level < level) :
    Mirrors tokens ⟨i, d⟩ d (fun _ j => i < j) (negation call)
      (Script.negation (innerAt tokens.length n d)) := by
  refine (Mirrors.eatKeyword hend).bind fun negated j hij hj => .ite (fun hb => ?_) fun _ => ?_
  · rw [innerAt_negation]
    refine (begins_nested hbegins (Or.inl (hj hb))).bind fun operand k _ hjk => ?_
    exact .pure (Nat.lt_of_le_of_lt hij hjk)
  · exact (begins_lower hbegins hn hd hij hlevel).mono fun _ _ _ => Nat.lt_of_le_of_lt hij

theorem mirrors_conjunction (hlevel : Routine.negation.level < level) :
    Mirrors tokens ⟨i, d⟩ d (fun _ j => i < j) (conjunction call)
      (Script.conjunction (innerAt tokens.length n d)) :=
  mirrors_operands hbegins hn hd hlevel (fun _ n => by cases n <;> rfl) (leads_conjunction hend)

theorem mirrors_disjunction (hlevel : Routine.conjunction.level < level) :
    Mirrors tokens ⟨i, d⟩ d (fun _ j => i < j) (disjunction call)
      (Script.disjunction (innerAt tokens.length n d)) :=
  mirrors_operands hbegins hn hd hlevel (fun _ n => by cases n <;> rfl) (leads_disjunction hend)

theorem mirrors_conditional (hlevel : Routine.disjunction.level < level) :
    Mirrors tokens ⟨i, d⟩ d (fun _ j => i < j) (conditional call)
      (Script.conditional (innerAt tokens.length n d)) := by
  refine .at? fun _ _ => .ite (fun _ => .fail_bind nofun) fun _ => ?_
  refine (begins_lower hbegins hn hd (Nat.le_refl i) hlevel).bind fun positive j _ hij => ?_
  refine (Mirrors.eatKeyword hend).bind fun chosen k hjk _ => .ite (fun _ => ?_) fun _ => ?_
  · refine (begins_later hbegins hn hd (j := k) (by omega)).bind fun condition l hkl _ => ?_
    refine (Mirrors.expectKeyword hend).bind fun _ m hlm _ => ?_
    refine (begins_later hbegins hn hd (j := m) (by omega)).bind fun negative o hmo _ => ?_
    exact .pure (by omega)
  · exact .pure (Nat.lt_of_lt_of_le hij hjk)

end Expressions

end Descent

end Monorepo.Script
