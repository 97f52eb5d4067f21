import Monorepo.Proofs.Policies

/-!
# The words of a script

The grammar invents no words: a script that is read from tokens reads no variable and spells no text
but those of its tokens. So a policy that is met by the tokens allows the statements. Said of a
parser: if the tokens in front of it meet the policy then so do its result and the tokens it leaves.
-/

namespace Monorepo.Script

open Monorepo.Script.Parser

namespace Policy

/-- What is asked of a token. -/
def AllowsLexeme (p : Policy) : Lexeme → Prop
  | .name name => p.names name
  | .text s => p.texts s
  | _ => True

/-- Tokens that are all as asked. -/
def Speaks (p : Policy) (tokens : List Token) : Prop := ∀ t ∈ tokens, p.AllowsLexeme t.lexeme

/-- What is asked of an action with all that is in it. -/
structure AllowsAction (p : Policy) (a : Action) : Prop where
  expressions : ∀ e ∈ a.expressions, e.All p.Reads
  augmented : ∀ name op e, a = .augment name op e → p.names name
  blocks : ∀ b ∈ a.blocks, ∀ s ∈ b, p.Allows s

theorem AllowsAction.statement {p : Policy} {a : Action} (h : p.AllowsAction a) (line : Nat) :
    p.Allows (.at line a) := by
  intro inner hinner
  cases hinner with
  | self => exact ⟨h.expressions, h.augmented⟩
  | block hb hs hinner => exact h.blocks _ hb _ hs _ hinner

/-- An action without blocks that assigns to no variable what it makes of it. -/
theorem allowsAction_of_expressions {p : Policy} {a : Action} (hblocks : a.blocks = [])
    (haugment : ∀ name op e, a ≠ .augment name op e)
    (h : ∀ e ∈ a.expressions, e.All p.Reads) : p.AllowsAction a where
  expressions := h
  augmented name op e he := absurd he (haugment name op e)
  blocks b hb := by
    rw [hblocks] at hb
    cases hb

end Policy

namespace Parser

/-- A parser that takes words from its tokens only: if they are as a policy asks, so are those that
    it leaves, and its result has the property `Q`. -/
def Echoes {α : Type} (p : Policy) (Q : α → Prop) (parser : Parser α) : Prop :=
  ∀ c, p.Speaks c.tokens → ∀ a c', parser c = .ok (a, c') → p.Speaks c'.tokens ∧ Q a

namespace Echoes

variable {α β : Type} {p : Policy} {Q : α → Prop} {R : β → Prop} {parser : Parser α}

theorem pure {a : α} (h : Q a) : Echoes p Q (pure a) := by
  intro c hc a' c' heq
  cases heq
  exact ⟨hc, h⟩

theorem fail (fault : SyntaxFault) : Echoes p Q (fail fault) := by
  intro c _ a c' heq
  cases heq

theorem unexpected (e : Expectation) : Echoes p Q (unexpected e) := by
  intro c _ a c' heq
  cases heq

theorem bind {f : α → Parser β} (h : Echoes p Q parser) (hf : ∀ a, Q a → Echoes p R (f a)) :
    Echoes p R (parser >>= f) := by
  intro c hc b c' heq
  obtain ⟨⟨a, c₁⟩, hfirst, hrest⟩ := ok_of_bind heq
  obtain ⟨hc₁, ha⟩ := h c hc a c₁ hfirst
  exact hf a ha c₁ hc₁ b c' hrest

theorem mono (h : Echoes p Q parser) {Q' : α → Prop} (hQ : ∀ a, Q a → Q' a) :
    Echoes p Q' parser :=
  fun c hc a c' heq => ⟨(h c hc a c' heq).1, hQ a (h c hc a c' heq).2⟩

/-- Nothing is read after a failure. -/
theorem fail_bind (fault : SyntaxFault) (f : α → Parser β) :
    Echoes p R (Parser.fail fault >>= f) :=
  (fail (Q := fun _ => False) fault).bind fun _ h => h.elim

theorem ite {b : Prop} [Decidable b] {parser' : Parser α} (h : Echoes p Q parser)
    (h' : Echoes p Q parser') : Echoes p Q (if b then parser else parser') := by
  split
  · exact h
  · exact h'

/-! ### Looking and moving -/

theorem peek : Echoes p p.AllowsLexeme peek := by
  intro c hc a c' heq
  cases heq
  exact ⟨hc, hc c.here List.mem_cons_self⟩

theorem line : Echoes p (fun _ => True) line := by
  intro c hc a c' heq
  cases heq
  exact ⟨hc, trivial⟩

theorem peekNext : Echoes p (fun _ => True) peekNext := by
  intro c hc a c' heq
  cases heq
  exact ⟨hc, trivial⟩

theorem at? (lexeme : Lexeme) : Echoes p (fun _ => True) (at? lexeme) := by
  intro c hc a c' heq
  cases heq
  exact ⟨hc, trivial⟩

theorem advance : Echoes p (fun _ => True) advance := by
  intro c hc a c' heq
  cases heq
  obtain ⟨here, ahead⟩ := c
  cases ahead with
  | nil => exact ⟨hc, trivial⟩
  | cons token ahead => exact ⟨fun t ht => hc t (List.mem_cons_of_mem _ ht), trivial⟩

theorem eat (lexeme : Lexeme) : Echoes p (fun _ => True) (eat lexeme) :=
  (at? lexeme).bind fun _ _ => ite (advance.bind fun _ _ => pure trivial) (pure trivial)

theorem expect (lexeme : Lexeme) (e : Expectation) :
    Echoes p (fun _ => True) (expect lexeme e) :=
  (eat lexeme).bind fun _ _ => ite (pure trivial) (unexpected e)

/-! ### Repetitions -/

theorem collect {more : Parser Bool} (hmore : Echoes p (fun _ => True) more)
    (h : Echoes p Q parser) : Echoes p (fun as => ∀ a ∈ as, Q a) (collect more parser) := by
  have hwithin (budget : List Token) : ∀ done : List α, (∀ a ∈ done, Q a) →
      Echoes p (fun as => ∀ a ∈ as, Q a) (collectWithin more parser budget done) := by
    induction budget with
    | nil => exact fun _ _ => fail .stalled
    | cons token budget ih =>
      refine fun done hdone => hmore.bind fun _ _ => ite ?_ ?_
      · exact h.bind fun a ha => ih (a :: done) (List.forall_mem_cons.mpr ⟨ha, hdone⟩)
      · exact pure fun a ha => hdone a (List.mem_reverse.mp ha)
  exact fun c => hwithin c.tokens [] (List.forall_mem_nil _) c

theorem commaRest {stop : Parser Bool} (hstop : Echoes p (fun _ => True) stop)
    (h : Echoes p Q parser) : Echoes p (fun as => ∀ a ∈ as, Q a) (commaRest stop parser) :=
  collect ((eat _).bind fun _ _ => ite (hstop.bind fun _ _ => pure trivial) (pure trivial)) h

theorem commaList {stop : Parser Bool} (hstop : Echoes p (fun _ => True) stop)
    (h : Echoes p Q parser) : Echoes p (fun as => ∀ a ∈ as, Q a) (commaList stop parser) :=
  hstop.bind fun _ _ => ite (pure (List.forall_mem_nil _)) <| h.bind fun _ hfirst =>
    (commaRest hstop h).bind fun _ hrest => pure (List.forall_mem_cons.mpr ⟨hfirst, hrest⟩)

end Echoes

end Parser

/-! ## Expressions -/

/-- Links of a chain that take words from their tokens only. -/
def LinkEchoes (p : Policy) (link : Expr → Parser Expr) : Prop :=
  ∀ left : Expr, left.All p.Reads → Echoes p (Expr.All p.Reads) (link left)

/-- Parsers that take words from their tokens only. -/
structure Inner.Echoes (p : Policy) (inner : Inner) : Prop where
  test : Parser.Echoes p (Expr.All p.Reads) inner.test
  negation : Parser.Echoes p (Expr.All p.Reads) inner.negation
  factor : Parser.Echoes p (Expr.All p.Reads) inner.factor
  orLink : LinkEchoes p inner.orLink
  andLink : LinkEchoes p inner.andLink
  compareLink : ∀ op, LinkEchoes p (inner.compareLink op)
  sumLink : ∀ op, LinkEchoes p (inner.sumLink op)
  productLink : ∀ op, LinkEchoes p (inner.productLink op)
  trailer : LinkEchoes p inner.trailer
  block : Parser.Echoes p (fun b => ∀ s ∈ b, p.Allows s) inner.block
  clause : Parser.Echoes p (Expr.All p.Reads) inner.clause

section Expressions

variable {p : Policy} {inner : Inner} (h : inner.Echoes p)

theorem startsExpression_echoes : Echoes p (fun _ => True) startsExpression := by
  refine Echoes.peek.bind fun lexeme _ => ?_
  split <;> exact Echoes.pure trivial

theorem identifier_echoes : Echoes p (fun _ => True) identifier := by
  refine Echoes.peek.bind fun lexeme _ => ?_
  split
  · exact Echoes.ite (Echoes.unexpected _)
      (Echoes.advance.bind fun _ _ => Echoes.pure trivial)
  · exact Echoes.unexpected _

theorem loopTargets_echoes : Echoes p (fun _ => True) loopTargets := by
  have hstop : Echoes p (fun _ => True)
      (do return (← at? (.name "in")) || (← at? (.mark .rightParen))) :=
    (Echoes.at? _).bind fun _ _ => (Echoes.at? _).bind fun _ _ => Echoes.pure trivial
  refine (Echoes.eat _).bind fun _ _ => identifier_echoes.bind fun _ _ =>
    (Echoes.commaRest hstop identifier_echoes).bind fun _ _ => Echoes.ite ?_ ?_
  · exact (Echoes.expect _ _).bind fun _ _ => Echoes.pure trivial
  · exact Echoes.pure trivial

include h

theorem testList_echoes : Echoes p (Expr.All p.Reads) (testList inner) := by
  have hstop : Echoes p (fun _ => True) (do return !(← startsExpression)) :=
    startsExpression_echoes.bind fun _ _ => Echoes.pure trivial
  refine h.test.bind fun first hfirst => (Echoes.at? _).bind fun _ _ => Echoes.ite ?_ ?_
  · refine (Echoes.commaRest hstop h.test).bind fun rest hrest => Echoes.pure ?_
    exact Expr.all_tuple trivial (List.forall_mem_cons.mpr ⟨hfirst, hrest⟩)
  · exact Echoes.pure hfirst

theorem argument_echoes :
    Echoes p (fun a : Argument => a.value.All p.Reads) (argument inner) := by
  have hpositional : Echoes p (fun a : Argument => a.value.All p.Reads)
      (argument.positional inner) :=
    h.test.bind fun value hvalue => (Echoes.at? _).bind fun _ _ => Echoes.ite
      (Echoes.fail_bind _ _) (Echoes.pure hvalue)
  refine Echoes.peek.bind fun _ _ => Echoes.peekNext.bind fun _ _ => ?_
  split
  · exact Echoes.advance.bind fun _ _ => h.test.bind fun value hvalue => Echoes.pure hvalue
  · exact Echoes.advance.bind fun _ _ => h.test.bind fun value hvalue => Echoes.pure hvalue
  · refine Echoes.ite hpositional ?_
    exact Echoes.advance.bind fun _ _ => Echoes.advance.bind fun _ _ =>
      h.test.bind fun value hvalue => Echoes.pure hvalue
  · exact hpositional

theorem callArguments_echoes :
    Echoes p (fun as : List Argument => ∀ a ∈ as, a.value.All p.Reads) (callArguments inner) :=
  (Echoes.commaList (Echoes.at? _) (argument_echoes h)).bind fun _ harguments =>
    (Echoes.expect _ _).bind fun _ _ => Echoes.pure harguments

theorem parenthesized_echoes : Echoes p (Expr.All p.Reads) (parenthesized inner) := by
  have hempty : (Expr.tuple []).All p.Reads := Expr.all_tuple trivial (List.forall_mem_nil _)
  refine (Echoes.eat _).bind fun _ _ => Echoes.ite (Echoes.pure hempty) ?_
  refine h.test.bind fun first hfirst => (Echoes.eat _).bind fun _ _ =>
    Echoes.ite (Echoes.pure hfirst) ?_
  refine (Echoes.commaRest (Echoes.at? _) h.test).bind fun rest hrest =>
    (Echoes.expect _ _).bind fun _ _ => Echoes.pure ?_
  exact Expr.all_tuple trivial (List.forall_mem_cons.mpr ⟨hfirst, hrest⟩)

theorem braced_echoes : Echoes p (Expr.All p.Reads) (braced inner) := by
  have hentry : Echoes p
      (fun entry : Expr × Expr => entry.1.All p.Reads ∧ entry.2.All p.Reads) (entry inner) :=
    h.test.bind fun key hkey => (Echoes.expect _ _).bind fun _ _ =>
      h.test.bind fun value hvalue => Echoes.pure ⟨hkey, hvalue⟩
  exact (Echoes.commaList (Echoes.at? _) hentry).bind fun entries hentries =>
    (Echoes.expect _ _).bind fun _ _ => Echoes.pure (Expr.all_dict trivial hentries)

theorem bracketed_echoes : Echoes p (Expr.All p.Reads) (bracketed inner) := by
  have hempty : (Expr.list []).All p.Reads := Expr.all_list trivial (List.forall_mem_nil _)
  refine (Echoes.eat _).bind fun _ _ => Echoes.ite (Echoes.pure hempty) ?_
  refine h.test.bind fun first hfirst => (Echoes.eat _).bind fun _ _ => Echoes.ite ?_ ?_
  · refine loopTargets_echoes.bind fun targets _ => (Echoes.expect _ _).bind fun _ _ =>
      h.clause.bind fun source hsource => ?_
    have hcondition : Echoes p (fun condition => ∀ e ∈ condition, e.All p.Reads)
        (do return some (← inner.clause)) :=
      h.clause.bind fun c hc => Echoes.pure fun e he => Option.mem_some.mp he ▸ hc
    have hrest (condition : Option Expr) (hcondition : ∀ e ∈ condition, e.All p.Reads) :
        Echoes p (Expr.All p.Reads)
          (do expectMark .rightBracket; return .comprehension first targets source condition) :=
      (Echoes.expect _ _).bind fun _ _ => Echoes.pure
        (Expr.all_comprehension trivial hfirst hsource hcondition)
    refine (Echoes.eat _).bind fun _ _ => Echoes.ite ?_ ?_
    · rw [map_eq_pure_bind]
      exact hcondition.bind hrest
    · exact (Echoes.pure nofun).bind hrest
  · refine (Echoes.commaRest (Echoes.at? _) h.test).bind fun rest hrest =>
      (Echoes.expect _ _).bind fun _ _ => Echoes.pure ?_
    exact Expr.all_list trivial (List.forall_mem_cons.mpr ⟨hfirst, hrest⟩)

theorem atom_echoes : Echoes p (Expr.All p.Reads) (atom inner) := by
  have hleaf {e : Expr} (he : p.Reads e) (hparts : e.parts = []) :
      Echoes p (Expr.All p.Reads) (do advance; return e) :=
    Echoes.advance.bind fun _ _ => Echoes.pure <| Expr.all_of_parts he fun part hpart => by
      rw [hparts] at hpart
      cases hpart
  refine Echoes.peek.bind fun lexeme hlexeme => ?_
  split
  · exact hleaf trivial rfl
  · exact hleaf trivial rfl
  · exact hleaf hlexeme rfl
  · exact hleaf trivial rfl
  · exact hleaf trivial rfl
  · exact hleaf trivial rfl
  · exact Echoes.ite (Echoes.unexpected _) (hleaf hlexeme rfl)
  · exact Echoes.advance.bind fun _ _ => parenthesized_echoes h
  · exact Echoes.advance.bind fun _ _ => bracketed_echoes h
  · exact Echoes.advance.bind fun _ _ => braced_echoes h
  · exact Echoes.unexpected _

/-! ### Chains -/

theorem trailers_echoes : LinkEchoes p (trailers inner) := by
  intro left hleft
  refine Echoes.peek.bind fun _ _ => ?_
  split
  · exact h.trailer left hleft
  · exact h.trailer left hleft
  · exact h.trailer left hleft
  · exact Echoes.pure hleft

theorem productTail_echoes : LinkEchoes p (productTail inner) := by
  intro left hleft
  have hlink (op : ArithmeticOp) := Echoes.advance.bind fun _ _ => h.productLink op left hleft
  refine Echoes.peek.bind fun _ _ => ?_
  split
  · exact hlink .multiply
  · exact hlink .divide
  · exact hlink .floorDivide
  · exact hlink .modulo
  · exact Echoes.pure hleft

theorem sumTail_echoes : LinkEchoes p (sumTail inner) := by
  intro left hleft
  have hlink (op : ArithmeticOp) := Echoes.advance.bind fun _ _ => h.sumLink op left hleft
  refine Echoes.peek.bind fun _ _ => ?_
  split
  · exact hlink .add
  · exact hlink .subtract
  · exact Echoes.pure hleft

omit h in
theorem comparisonOp_echoes : Echoes p (fun _ => True) comparisonOp := by
  refine Echoes.peek.bind fun _ _ => Echoes.peekNext.bind fun _ _ => ?_
  split <;> exact Echoes.pure trivial

theorem compareTail_echoes : LinkEchoes p (compareTail inner) := by
  intro left hleft
  refine comparisonOp_echoes.bind fun op _ => ?_
  split
  · rename_i op width
    have hlink := h.compareLink op left hleft
    exact Echoes.advance.bind fun _ _ =>
      Echoes.ite (Echoes.advance.bind fun _ _ => hlink) hlink
  · exact Echoes.pure hleft

theorem andTail_echoes : LinkEchoes p (andTail inner) :=
  fun left hleft => (Echoes.eat _).bind fun _ _ =>
    Echoes.ite (h.andLink left hleft) (Echoes.pure hleft)

theorem orTail_echoes : LinkEchoes p (orTail inner) :=
  fun left hleft => (Echoes.eat _).bind fun _ _ =>
    Echoes.ite (h.orLink left hleft) (Echoes.pure hleft)

theorem factor_echoes : Echoes p (Expr.All p.Reads) (factor inner) := by
  have hsign (op : UnaryOp) : Echoes p (Expr.All p.Reads)
      (do advance; return .unary op (← inner.factor)) :=
    Echoes.advance.bind fun _ _ => h.factor.bind fun operand hoperand =>
      Echoes.pure (Expr.all_unary trivial hoperand)
  refine Echoes.peek.bind fun _ _ => ?_
  split
  · exact hsign .minus
  · exact hsign .plus
  · exact (atom_echoes h).bind (trailers_echoes h)

theorem product_echoes : Echoes p (Expr.All p.Reads) (product inner) :=
  (factor_echoes h).bind (productTail_echoes h)

theorem sum_echoes : Echoes p (Expr.All p.Reads) (sum inner) :=
  (product_echoes h).bind (sumTail_echoes h)

theorem negation_echoes : Echoes p (Expr.All p.Reads) (negation inner) := by
  refine (Echoes.eat _).bind fun _ _ => Echoes.ite ?_ ?_
  · exact h.negation.bind fun operand hoperand =>
      Echoes.pure (Expr.all_unary trivial hoperand)
  · exact (sum_echoes h).bind (compareTail_echoes h)

theorem conjunction_echoes : Echoes p (Expr.All p.Reads) (conjunction inner) :=
  (negation_echoes h).bind (andTail_echoes h)

theorem disjunction_echoes : Echoes p (Expr.All p.Reads) (disjunction inner) :=
  (conjunction_echoes h).bind (orTail_echoes h)

theorem conditional_echoes : Echoes p (Expr.All p.Reads) (conditional inner) := by
  have hrest : Echoes p (Expr.All p.Reads)
      (do
        let positive ← disjunction inner
        if ← eatKeyword "if" then
          let condition ← disjunction inner
          expectKeyword "else"
          return .conditional condition positive (← inner.test)
        else return positive) := by
    refine (disjunction_echoes h).bind fun positive hpositive => (Echoes.eat _).bind fun _ _ =>
      Echoes.ite ?_ (Echoes.pure hpositive)
    exact (disjunction_echoes h).bind fun condition hcondition => (Echoes.expect _ _).bind
      fun _ _ => h.test.bind fun negative hnegative =>
        Echoes.pure (Expr.all_conditional trivial hcondition hpositive hnegative)
  exact (Echoes.at? _).bind fun _ _ =>
    Echoes.ite (Echoes.fail_bind _ _) hrest

end Expressions

/-! ## Statements -/

section Statements

variable {p : Policy} {inner : Inner} (h : inner.Echoes p)

omit h in
theorem allowsAction_imports (bindings : List (String × String)) :
    p.AllowsAction (.imports bindings) :=
  Policy.allowsAction_of_expressions rfl nofun nofun

theorem targetNames_echoes (items : List Expr) :
    Echoes p (fun _ => True)
      (items.mapM fun
        | .name name => pure name
        | _ => Parser.fail .unpackTarget) := by
  induction items with
  | nil => exact Echoes.pure trivial
  | cons item items ih =>
    rw [List.mapM_cons]
    split
    · refine (Echoes.pure (Q := fun _ => True) trivial).bind fun name _ => ?_
      exact ih.bind fun _ _ => Echoes.pure trivial
    · exact Echoes.fail_bind _ _

/-- An assignment to a place assigns to the expression that it was read as. -/
theorem assignTarget_echoes (e : Expr) :
    Echoes p (fun target => ∀ e', target = .place e' → e' = e) (assignTarget e) := by
  unfold assignTarget
  split
  · exact Echoes.pure (by simp)
  · exact (targetNames_echoes _).bind fun _ _ => Echoes.pure (by simp)
  · exact (targetNames_echoes _).bind fun _ _ => Echoes.pure (by simp)
  · exact Echoes.pure fun e' he => (Target.place.inj he).symm
  · exact Echoes.pure fun e' he => (Target.place.inj he).symm
  · exact Echoes.fail _

theorem dottedName_echoes : Echoes p (fun _ => True) dottedName :=
  identifier_echoes.bind fun _ _ => (Echoes.collect (Echoes.eat _) identifier_echoes).bind
    fun _ _ => Echoes.pure trivial

theorem importModules_echoes : Echoes p p.AllowsAction importModules := by
  have hentry : Echoes p (fun _ => True) importEntry := by
    refine dottedName_echoes.bind fun _ _ => (Echoes.eat _).bind fun _ _ => Echoes.ite ?_ ?_
    · exact identifier_echoes.bind fun _ _ => Echoes.pure trivial
    · exact Echoes.pure trivial
  exact hentry.bind fun _ _ => (Echoes.collect (Echoes.eat _) hentry).bind fun _ _ =>
    Echoes.pure (allowsAction_imports _)

theorem importFrom_echoes : Echoes p p.AllowsAction importFrom := by
  have himported (origin : String) : Echoes p (fun _ => True) (importedName origin) := by
    refine identifier_echoes.bind fun _ _ => (Echoes.eat _).bind fun _ _ => Echoes.ite ?_ ?_
    · exact identifier_echoes.bind fun _ _ => Echoes.pure trivial
    · exact (Echoes.pure (Q := fun _ => True) trivial).bind fun _ _ => Echoes.pure trivial
  have hstop (parenthesized : Bool) : Echoes p (fun _ => True)
      (do return parenthesized && (← at? (.mark .rightParen))) :=
    (Echoes.at? _).bind fun _ _ => Echoes.pure trivial
  have hrest (path : List String) (dots : List Char) : Echoes p p.AllowsAction
      (do
        let origin := String.ofList dots ++ ".".intercalate path
        expectKeyword "import"
        if ← eatMark .star then return .imports []
        let parenthesized ← eatMark .leftParen
        let stop : Parser Bool := do return parenthesized && (← at? (.mark .rightParen))
        let bindings ← commaList stop (importedName origin)
        if parenthesized then expectMark .rightParen
        return .imports bindings) := by
    refine (Echoes.expect _ _).bind fun _ _ => (Echoes.eat _).bind fun _ _ =>
      Echoes.ite (Echoes.pure (allowsAction_imports _)) ?_
    refine (Echoes.eat _).bind fun parenthesized _ =>
      (Echoes.commaList (hstop parenthesized) (himported _)).bind fun _ _ => Echoes.ite ?_ ?_
    · exact (Echoes.expect _ _).bind fun _ _ => Echoes.pure (allowsAction_imports _)
    · exact Echoes.pure (allowsAction_imports _)
  have hdot : Echoes p (fun _ => True) (pure '.') := Echoes.pure trivial
  refine (Echoes.collect (Echoes.eat _) hdot).bind fun dots _ =>
    (Echoes.at? _).bind fun _ _ => Echoes.ite ?_ ?_
  · exact (Echoes.pure (Q := fun _ => True) trivial).bind fun path _ => hrest path dots
  · exact dottedName_echoes.bind fun path _ => hrest path dots

include h

theorem expressionAction_echoes : Echoes p p.AllowsAction (expressionAction inner) := by
  have haugment (op : ArithmeticOp) {e : Expr} (he : e.All p.Reads) :
      Echoes p p.AllowsAction (expressionAction.augment inner op e) := by
    unfold expressionAction.augment
    split
    · rename_i name
      refine (testList_echoes h).bind fun value hvalue => Echoes.pure ⟨?_, ?_, nofun⟩
      · exact List.forall_mem_singleton.mpr hvalue
      · intro name' op' e' heq
        cases heq
        exact he.self
    · exact Echoes.fail _
  refine (testList_echoes h).bind fun e he => Echoes.peek.bind fun _ _ => ?_
  split
  · refine Echoes.advance.bind fun _ _ => (testList_echoes h).bind fun value hvalue =>
      (Echoes.collect (Echoes.eat _) (testList_echoes h)).bind fun more _ => ?_
    have hassign : Echoes p p.AllowsAction (do return .assign (← assignTarget e) value) := by
      refine (assignTarget_echoes e).bind fun target htarget => Echoes.pure <|
        Policy.allowsAction_of_expressions rfl nofun (List.forall_mem_append.mpr ⟨?_, ?_⟩)
      · cases target with
        | place e' =>
          obtain rfl := htarget e' rfl
          exact List.forall_mem_singleton.mpr he
        | _ => exact nofun
      · exact List.forall_mem_singleton.mpr hvalue
    exact Echoes.ite hassign (Echoes.fail_bind _ _)
  · exact Echoes.advance.bind fun _ _ => haugment .add he
  · exact Echoes.advance.bind fun _ _ => haugment .subtract he
  · exact Echoes.pure (Policy.allowsAction_of_expressions rfl nofun
      (List.forall_mem_singleton.mpr he))

theorem simpleAction_echoes : Echoes p p.AllowsAction (simpleAction inner) := by
  have hplain {a : Action} (hblocks : a.blocks = []) (hexpressions : a.expressions = [])
      (haugment : ∀ name op e, a ≠ .augment name op e) : Echoes p p.AllowsAction (pure a) := by
    refine Echoes.pure (Policy.allowsAction_of_expressions hblocks haugment ?_)
    rw [hexpressions]
    exact nofun
  refine Echoes.peek.bind fun _ _ => ?_
  split
  · exact Echoes.advance.bind fun _ _ => hplain rfl rfl nofun
  · exact Echoes.advance.bind fun _ _ => hplain rfl rfl nofun
  · exact Echoes.advance.bind fun _ _ => hplain rfl rfl nofun
  · refine Echoes.advance.bind fun _ _ => Echoes.peek.bind fun _ _ => ?_
    split
    · exact hplain rfl rfl nofun
    · exact hplain rfl rfl nofun
    · exact hplain rfl rfl nofun
    · exact (testList_echoes h).bind fun value hvalue => Echoes.pure <|
        Policy.allowsAction_of_expressions rfl nofun (List.forall_mem_singleton.mpr hvalue)
  · exact Echoes.advance.bind fun _ _ => importModules_echoes
  · exact Echoes.advance.bind fun _ _ => importFrom_echoes
  · exact expressionAction_echoes h

theorem simpleStatement_echoes : Echoes p p.Allows (simpleStatement inner) :=
  Echoes.line.bind fun line _ => (simpleAction_echoes h).bind fun _ ha =>
    Echoes.pure (ha.statement line)

theorem simpleLine_echoes : Echoes p (fun ss => ∀ s ∈ ss, p.Allows s) (simpleLine inner) := by
  have hmore : Echoes p (fun _ => True)
      (do
        if ← eatMark .semicolon then
          return !((← at? .newline) || (← at? .finish))
        else return false) :=
    (Echoes.eat _).bind fun _ _ => Echoes.ite
      ((Echoes.at? _).bind fun _ _ => (Echoes.at? _).bind fun _ _ => Echoes.pure trivial)
      (Echoes.pure trivial)
  refine (simpleStatement_echoes h).bind fun first hfirst =>
    (Echoes.collect hmore (simpleStatement_echoes h)).bind fun rest hrest =>
      Echoes.peek.bind fun _ _ => ?_
  have hline : Echoes p (fun ss => ∀ s ∈ ss, p.Allows s) (pure (first :: rest)) :=
    Echoes.pure (List.forall_mem_cons.mpr ⟨hfirst, hrest⟩)
  split
  · exact Echoes.advance.bind fun _ _ => hline
  · exact hline
  · exact hline
  · exact (Echoes.unexpected (Q := fun _ => True) _).bind fun _ _ => hline

theorem branchAction_echoes : Echoes p p.AllowsAction (branchAction inner) := by
  have hguarded : Echoes p
      (fun b : Expr × List Statement => b.1.All p.Reads ∧ ∀ s ∈ b.2, p.Allows s)
      (branchAction.guarded inner) :=
    h.test.bind fun condition hcondition => h.block.bind fun body hbody =>
      Echoes.pure ⟨hcondition, hbody⟩
  refine hguarded.bind fun first hfirst => (Echoes.collect (Echoes.eat _) hguarded).bind
    fun more hmore => (Echoes.eat _).bind fun _ _ => ?_
  have hbranches : ∀ b ∈ first :: more, b.1.All p.Reads ∧ ∀ s ∈ b.2, p.Allows s :=
    List.forall_mem_cons.mpr ⟨hfirst, hmore⟩
  have hrest (otherwise : List Statement) (hotherwise : ∀ s ∈ otherwise, p.Allows s) :
      Echoes p p.AllowsAction (pure (.branch (first :: more) otherwise)) := by
    refine Echoes.pure ⟨?_, nofun, List.forall_mem_cons.mpr ⟨hotherwise, ?_⟩⟩
    · refine List.forall_mem_append.mpr ⟨List.forall_mem_map.mpr fun b hb => ?_, nofun⟩
      exact (hbranches b hb).1
    · exact List.forall_mem_map.mpr fun b hb => (hbranches b hb).2
  exact Echoes.ite (h.block.bind hrest) ((Echoes.pure nofun).bind hrest)

theorem loopAction_echoes : Echoes p p.AllowsAction (loopAction inner) := by
  refine loopTargets_echoes.bind fun targets _ => (Echoes.expect _ _).bind fun _ _ =>
    (testList_echoes h).bind fun source hsource => h.block.bind fun body hbody =>
      Echoes.pure ⟨?_, nofun, ?_⟩
  · exact List.forall_mem_singleton.mpr hsource
  · exact List.forall_mem_singleton.mpr hbody

theorem parameter_echoes :
    Echoes p (fun parameter : Parameter => ∀ e ∈ parameter.default, e.All p.Reads)
      (parameter inner) := by
  have hnamed : Echoes p (fun parameter : Parameter => ∀ e ∈ parameter.default, e.All p.Reads)
      (do
        let name ← identifier
        if ← eatMark .assign then return ⟨name, some (← inner.test)⟩
        else return ⟨name, none⟩) := by
    refine identifier_echoes.bind fun name _ => (Echoes.eat _).bind fun _ _ =>
      Echoes.ite ?_ (Echoes.pure nofun)
    exact h.test.bind fun e he => Echoes.pure fun e' he' => by cases he'; exact he
  refine Echoes.peek.bind fun _ _ => ?_
  split
  · exact Echoes.fail_bind _ _
  · exact Echoes.fail_bind _ _
  · exact hnamed

theorem defineAction_echoes : Echoes p p.AllowsAction (defineAction inner) := by
  refine identifier_echoes.bind fun name _ => (Echoes.expect _ _).bind fun _ _ =>
    (Echoes.commaList (Echoes.at? _) (parameter_echoes h)).bind fun parameters hparameters =>
      (Echoes.expect _ _).bind fun _ _ => h.block.bind fun body hbody =>
        Echoes.pure ⟨?_, nofun, List.forall_mem_singleton.mpr hbody⟩
  refine List.forall_mem_append.mpr ⟨fun e he => ?_, nofun⟩
  obtain ⟨parameter, hparameter, hdefault⟩ := List.mem_filterMap.mp he
  exact hparameters parameter hparameter e hdefault

theorem statements_echoes : Echoes p (fun ss => ∀ s ∈ ss, p.Allows s) (statements inner) := by
  have hone (line : Nat) {parser : Parser Action} (ha : Echoes p p.AllowsAction parser) :
      Echoes p (fun ss => ∀ s ∈ ss, p.Allows s) (do return [.at line (← parser)]) :=
    ha.bind fun a ha => Echoes.pure (List.forall_mem_singleton.mpr (ha.statement line))
  refine Echoes.line.bind fun line _ => Echoes.peek.bind fun _ _ => ?_
  split
  · exact Echoes.advance.bind fun _ _ => hone line (branchAction_echoes h)
  · exact Echoes.advance.bind fun _ _ => hone line (loopAction_echoes h)
  · exact Echoes.advance.bind fun _ _ => hone line (defineAction_echoes h)
  · exact Echoes.ite (Echoes.fail _) (simpleLine_echoes h)
  · exact simpleLine_echoes h

theorem suite_echoes : Echoes p (fun ss => ∀ s ∈ ss, p.Allows s) (suite inner) := by
  have hmore : Echoes p (fun _ => True) (do return !((← at? .dedent) || (← at? .finish))) :=
    (Echoes.at? _).bind fun _ _ => (Echoes.at? _).bind fun _ _ => Echoes.pure trivial
  refine (Echoes.expect _ _).bind fun _ _ => (Echoes.eat _).bind fun _ _ => Echoes.ite ?_ ?_
  · refine (Echoes.expect _ _).bind fun _ _ => (Echoes.collect hmore (statements_echoes h)).bind
      fun lines hlines => (Echoes.eat _).bind fun _ _ => Echoes.pure fun s hs => ?_
    obtain ⟨line, hline, hs⟩ := List.mem_flatten.mp hs
    exact hlines line hline s hs
  · exact simpleLine_echoes h

theorem wholeScript_echoes :
    Echoes p (fun ss => ∀ s ∈ ss, p.Allows s) (wholeScript inner) := by
  have hmore : Echoes p (fun _ => True) (do return !(← at? .finish)) :=
    (Echoes.at? _).bind fun _ _ => Echoes.pure trivial
  have hitem : Echoes p (fun ss => ∀ s ∈ ss, p.Allows s)
      (do if ← eat .newline then return [] else statements inner) :=
    (Echoes.eat _).bind fun _ _ => Echoes.ite (Echoes.pure nofun) (statements_echoes h)
  refine (Echoes.collect hmore hitem).bind fun lines hlines => Echoes.pure fun s hs => ?_
  obtain ⟨line, hline, hs⟩ := List.mem_flatten.mp hs
  exact hlines line hline s hs

end Statements

/-! ## The recursion on the room -/

namespace Inner

variable {p : Policy} {inner : Inner}

theorem exhausted_echoes : exhausted.Echoes p where
  test := .fail _
  negation := .fail _
  factor := .fail _
  orLink _ _ := .fail _
  andLink _ _ := .fail _
  compareLink _ _ _ := .fail _
  sumLink _ _ _ := .fail _
  productLink _ _ _ := .fail _
  trailer _ _ := .fail _
  block := .fail _
  clause := .fail _

theorem readTrailer_echoes (h : inner.Echoes p) : LinkEchoes p inner.readTrailer := by
  intro left hleft
  refine Echoes.peek.bind fun _ _ => ?_
  split
  · exact Echoes.advance.bind fun _ _ => (callArguments_echoes h).bind fun _ harguments =>
      trailers_echoes h _ (Expr.all_call trivial hleft harguments)
  · refine Echoes.advance.bind fun _ _ => (Echoes.at? _).bind fun _ _ =>
      Echoes.ite (Echoes.fail_bind _ _) ?_
    refine (testList_echoes h).bind fun index hindex => (Echoes.at? _).bind fun _ _ =>
      Echoes.ite (Echoes.fail_bind _ _) ?_
    exact (Echoes.expect _ _).bind fun _ _ =>
      trailers_echoes h _ (Expr.all_link trivial rfl hleft hindex)
  · exact Echoes.advance.bind fun _ _ => identifier_echoes.bind fun _ _ =>
      trailers_echoes h _ (Expr.all_attribute trivial hleft)

/-- A right operand and what follows it. -/
theorem link_echoes {node : Expr → Expr → Expr} {operand : Parser Expr}
    {tail : Expr → Parser Expr} (hparts : ∀ l r, (node l r).parts = [(.left, l), (.inside, r)])
    (hreads : ∀ l r, p.Reads (node l r)) (hoperand : Parser.Echoes p (Expr.All p.Reads) operand)
    (htail : LinkEchoes p tail) : LinkEchoes p (fun left => do tail (node left (← operand))) :=
  fun left hleft => hoperand.bind fun right hright =>
    htail _ (Expr.all_link (hreads left right) (hparts left right) hleft hright)

theorem deeper_echoes (h : inner.Echoes p) : inner.deeper.Echoes p where
  test := conditional_echoes h
  negation := negation_echoes h
  factor := factor_echoes h
  orLink := link_echoes (fun _ _ => rfl) (fun _ _ => trivial) (conjunction_echoes h)
    (orTail_echoes h)
  andLink := link_echoes (fun _ _ => rfl) (fun _ _ => trivial) (Script.negation_echoes h)
    (andTail_echoes h)
  compareLink _ := link_echoes (fun _ _ => rfl) (fun _ _ => trivial) (sum_echoes h)
    (compareTail_echoes h)
  sumLink _ := link_echoes (fun _ _ => rfl) (fun _ _ => trivial) (product_echoes h)
    (sumTail_echoes h)
  productLink _ := link_echoes (fun _ _ => rfl) (fun _ _ => trivial) (factor_echoes h)
    (productTail_echoes h)
  trailer := readTrailer_echoes h
  block := suite_echoes h
  clause := .fail _

theorem withClauses_echoes (h : inner.Echoes p) (n : Nat) : (inner.withClauses n).Echoes p := by
  induction n with
  | zero => exact { h with clause := .fail _ }
  | succ n ih => exact { h with clause := disjunction_echoes ih }

theorem ofRoom_echoes (tokens room : Nat) : (ofRoom tokens room).Echoes p := by
  induction room with
  | zero => exact exhausted_echoes
  | succ room ih => exact withClauses_echoes (deeper_echoes ih) tokens

end Inner

/-- A policy that the tokens meet allows what is read from them. -/
theorem parseTokens_allows {p : Policy} {tokens : List Token} {script : List Statement}
    (h : parseTokens tokens = .ok script) (hp : p.Speaks tokens) : ∀ s ∈ script, p.Allows s := by
  cases tokens with
  | nil =>
    cases h
    exact nofun
  | cons here ahead =>
    obtain ⟨⟨out, rest⟩, hrun, rfl⟩ := ok_of_map h
    exact (wholeScript_echoes (Inner.ofRoom_echoes _ _) ⟨here, ahead⟩ hp out rest hrun).2

end Monorepo.Script
