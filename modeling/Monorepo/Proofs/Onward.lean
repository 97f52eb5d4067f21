import Monorepo.Proofs.Seams

/-!
# The grammar in front of a seam

The parsers of the grammar do on a stream that goes on what they do on one that ends at the seam.
This is shown of one parser after another, from the parsers one level further in; the second stream
may have more clauses and more turns to spend. An expression leaves as many brackets open as it
found; a statement leaves none, and its lines are shifted like those of its tokens.
-/

namespace Monorepo.Script

open Monorepo.Script.Parser

/-! ## Statements on later lines -/

mutual

/-- A statement, the lines of which are greater by `k`. -/
def Statement.lowered (k : Nat) : Statement → Statement
  | .at line action => .at (line + k) (action.lowered k)

/-- What a statement does, the lines of its blocks greater by `k`. -/
def Action.lowered (k : Nat) : Action → Action
  | .branch branches otherwise => .branch (loweredBranches k branches) (loweredBlock k otherwise)
  | .loop targets source body => .loop targets source (loweredBlock k body)
  | .define name parameters body => .define name parameters (loweredBlock k body)
  | action => action

/-- A block, the lines of which are greater by `k`. -/
def loweredBlock (k : Nat) : List Statement → List Statement
  | [] => []
  | s :: block => s.lowered k :: loweredBlock k block

/-- Branches, the lines of which are greater by `k`. -/
def loweredBranches (k : Nat) : List (Expr × List Statement) → List (Expr × List Statement)
  | [] => []
  | (condition, block) :: branches =>
    (condition, loweredBlock k block) :: loweredBranches k branches

end

theorem loweredBlock_eq_map (k : Nat) (block : List Statement) :
    loweredBlock k block = block.map (Statement.lowered k) := by
  induction block with
  | nil => rfl
  | cons s block ih => rw [loweredBlock, ih, List.map_cons]

theorem loweredBranches_eq_map (k : Nat) (branches : List (Expr × List Statement)) :
    loweredBranches k branches =
      branches.map fun branch => (branch.1, loweredBlock k branch.2) := by
  induction branches with
  | nil => rfl
  | cons branch branches ih => rw [loweredBranches, ih, List.map_cons]

/-! ## Expressions -/

/-- Parsers one level further in, and those that go on where these end. -/
structure Inner.Follows (seam : Seam) (inner inner' : Inner) : Prop where
  test : seam.Follows 0 0 inner.test inner'.test
  negation : seam.Follows 0 0 inner.negation inner'.negation
  factor : seam.Follows 0 0 inner.factor inner'.factor
  orLink : ∀ e, seam.Follows 0 0 (inner.orLink e) (inner'.orLink e)
  andLink : ∀ e, seam.Follows 0 0 (inner.andLink e) (inner'.andLink e)
  compareLink : ∀ op e, seam.Follows 0 0 (inner.compareLink op e) (inner'.compareLink op e)
  sumLink : ∀ op e, seam.Follows 0 0 (inner.sumLink op e) (inner'.sumLink op e)
  productLink : ∀ op e, seam.Follows 0 0 (inner.productLink op e) (inner'.productLink op e)
  /-- A trailer is read where one begins. -/
  trailer : ∀ e, ∀ mark ∈ [Mark.leftParen, .leftBracket, .dot],
    seam.PassesAt (.mark mark) id 0 (fun d b => seam.Inside d (b + 0)) (inner.trailer e)
      (inner'.trailer e)
  block : seam.Carries (loweredBlock seam.shift) inner.block inner'.block
  clause : seam.Follows 0 0 inner.clause inner'.clause

section Expressions

variable {seam : Seam} {n : Nat}

/-- Where an expression can begin is seen from one token. -/
theorem startsExpression_follows : seam.Follows n n startsExpression startsExpression := by
  refine Seam.Passes.peek fun lexeme => Seam.Passes.at_lexeme ?_ lexeme
  split <;> exact Seam.Follows.pure _

theorem identifier_follows : seam.Follows n n identifier identifier := by
  refine Seam.Passes.peek fun lexeme => ?_
  split
  · split
    · exact (Seam.Passes.unexpected _).at_lexeme _
    · exact Seam.PassesAt.advance (Seam.Follows.pure _) ⟨rfl, fun _ => rfl⟩
  · exact (Seam.Passes.unexpected _).at_lexeme _

theorem loopTargets_follows : seam.Follows 0 0 loopTargets loopTargets := by
  have hstop {m : Nat} : seam.Follows m m
      (do return (← at? (.name "in")) || (← at? (.mark .rightParen)))
      (do return (← at? (.name "in")) || (← at? (.mark .rightParen))) :=
    (Seam.Follows.at? _).bind fun _ => (Seam.Follows.at? _).bind fun _ => Seam.Follows.pure _
  refine Seam.Passes.eat (n := 1) ?_ ?_ ⟨rfl, fun _ => rfl⟩
  · refine identifier_follows.bind fun first => ?_
    refine (hstop.commaRest identifier_follows).bind fun rest => ?_
    exact (Seam.Follows.expect _ ⟨rfl, fun _ => rfl⟩).bind fun _ => Seam.Follows.pure _
  · refine identifier_follows.bind fun first => ?_
    exact (hstop.commaRest identifier_follows).bind fun rest => Seam.Follows.pure _

variable {inner inner' : Inner} (h : inner.Follows seam inner')
include h

theorem testList_follows : seam.Follows n n (testList inner) (testList inner') := by
  refine h.test.lift.bind fun first => (Seam.Follows.at? _).bind fun comma => ?_
  split
  · refine (Seam.Follows.commaRest ?_ h.test.lift).bind fun rest => Seam.Follows.pure _
    exact startsExpression_follows.bind fun _ => Seam.Follows.pure _
  · exact Seam.Follows.pure _

theorem argument_follows : seam.Follows n n (argument inner) (argument inner') := by
  have hpositional : seam.Follows n n (argument.positional inner) (argument.positional inner') := by
    refine h.test.lift.bind fun value => (Seam.Follows.at? _).bind fun generator => ?_
    split
    · exact (Seam.Passes.fail _)
    · exact Seam.Follows.pure _
  have hadvance {lexeme : Lexeme} (f : Expr → Argument) (htakes : lexeme.Takes n n) :
      seam.PassesAt lexeme id n (fun d b => seam.Inside d (b + n))
        (do advance; return f (← inner.test)) (do advance; return f (← inner'.test)) :=
    Seam.PassesAt.advance (h.test.lift.bind fun _ => Seam.Follows.pure _) htakes
  refine Seam.Passes.peek fun lexeme => Seam.PassesAt.peekNext fun next next' hnext => ?_
  cases hprinted : lexeme.isPrinted with
  | false =>
    -- an argument is not decided by what stands behind the end of a line
    cases lexeme with
    | newline | indent | dedent | finish => exact (hpositional.at_lexeme _).before _
    | _ => cases hprinted
  | true =>
    obtain rfl := hnext hprinted
    split
    · exact (hadvance .spread ⟨rfl, fun _ => rfl⟩).before _
    · exact (hadvance .spreadKeywords ⟨rfl, fun _ => rfl⟩).before _
    · rename_i name
      split
      · exact (hpositional.at_lexeme _).before _
      · exact Seam.PassesBefore.advance (hadvance (.keyword name) ⟨rfl, fun _ => rfl⟩)
          ⟨rfl, fun _ => rfl⟩
    · exact (hpositional.at_lexeme _).before _

theorem callArguments_follows :
    seam.Follows (n + 1) n (callArguments inner) (callArguments inner') := by
  refine (Seam.Follows.commaList (Seam.Follows.at? _) (argument_follows h)).bind fun _ => ?_
  exact (Seam.Follows.expect _ ⟨rfl, fun _ => rfl⟩).bind fun _ => Seam.Follows.pure _

/-! ### Atoms -/

theorem parenthesized_follows :
    seam.Follows (n + 1) n (parenthesized inner) (parenthesized inner') := by
  refine Seam.Passes.eat (n := n) (Seam.Follows.pure _) ?_ ⟨rfl, fun _ => rfl⟩
  refine h.test.lift.bind fun first => ?_
  refine Seam.Passes.eat (n := n) (Seam.Follows.pure _) ?_ ⟨rfl, fun _ => rfl⟩
  refine (Seam.Follows.commaRest (Seam.Follows.at? _) h.test.lift).bind fun rest => ?_
  exact (Seam.Follows.expect _ ⟨rfl, fun _ => rfl⟩).bind fun _ => Seam.Follows.pure _

theorem braced_follows : seam.Follows (n + 1) n (braced inner) (braced inner') := by
  have hentry : seam.Follows (n + 1) (n + 1) (entry inner) (entry inner') := by
    refine h.test.lift.bind fun key => ?_
    refine (Seam.Follows.expect (n := n + 1) _ ⟨rfl, fun _ => rfl⟩).bind fun _ => ?_
    exact h.test.lift.bind fun value => Seam.Follows.pure _
  refine (Seam.Follows.commaList (Seam.Follows.at? _) hentry).bind fun entries => ?_
  exact (Seam.Follows.expect _ ⟨rfl, fun _ => rfl⟩).bind fun _ => Seam.Follows.pure _

theorem bracketed_follows : seam.Follows (n + 1) n (bracketed inner) (bracketed inner') := by
  refine Seam.Passes.eat (n := n) (Seam.Follows.pure _) ?_ ⟨rfl, fun _ => rfl⟩
  refine h.test.lift.bind fun first => ?_
  refine Seam.Passes.eat (n := n + 1) ?_ ?_ ⟨rfl, fun _ => rfl⟩
  · refine loopTargets_follows.lift.bind fun targets => ?_
    refine (Seam.Follows.expect (n := n + 1) _ ⟨rfl, fun _ => rfl⟩).bind fun _ => ?_
    refine h.clause.lift.bind fun source => ?_
    have hclose (e : Expr) : seam.Follows (n + 1) n
        (do expectMark .rightBracket; return e) (do expectMark .rightBracket; return e) :=
      (Seam.Follows.expect _ ⟨rfl, fun _ => rfl⟩).bind fun _ => Seam.Follows.pure _
    refine Seam.Passes.eat (n := n + 1) ?_ ?_ ⟨rfl, fun _ => rfl⟩
    · exact (Seam.Follows.map some h.clause.lift).bind fun condition => hclose _
    · exact (Seam.Follows.pure none).bind fun condition => hclose _
  · refine (Seam.Follows.commaRest (Seam.Follows.at? _) h.test.lift).bind fun rest => ?_
    exact (Seam.Follows.expect _ ⟨rfl, fun _ => rfl⟩).bind fun _ => Seam.Follows.pure _

theorem atom_follows : seam.Follows n n (atom inner) (atom inner') := by
  have hleaf {lexeme : Lexeme} (e : Expr) (htakes : lexeme.Takes n n) :
      seam.PassesAt lexeme id n (fun d b => seam.Inside d (b + n))
        (do advance; return e) (do advance; return e) :=
    Seam.PassesAt.advance (Seam.Follows.pure e) htakes
  refine Seam.Passes.peek fun lexeme => ?_
  split
  · exact hleaf _ ⟨rfl, fun _ => rfl⟩
  · exact hleaf _ ⟨rfl, fun _ => rfl⟩
  · exact hleaf _ ⟨rfl, fun _ => rfl⟩
  · exact hleaf _ ⟨rfl, fun _ => rfl⟩
  · exact hleaf _ ⟨rfl, fun _ => rfl⟩
  · exact hleaf _ ⟨rfl, fun _ => rfl⟩
  · split
    · exact (Seam.Passes.unexpected _).at_lexeme _
    · exact hleaf _ ⟨rfl, fun _ => rfl⟩
  · exact Seam.PassesAt.advance (parenthesized_follows h) ⟨rfl, fun _ => rfl⟩
  · exact Seam.PassesAt.advance (bracketed_follows h) ⟨rfl, fun _ => rfl⟩
  · exact Seam.PassesAt.advance (braced_follows h) ⟨rfl, fun _ => rfl⟩
  · exact (Seam.Passes.unexpected _).at_lexeme _

/-! ### Chains -/

theorem trailers_follows (e : Expr) : seam.Follows 0 0 (trailers inner e) (trailers inner' e) := by
  refine Seam.Passes.peek fun lexeme => ?_
  split
  · exact h.trailer e .leftParen (by simp)
  · exact h.trailer e .leftBracket (by simp)
  · exact h.trailer e .dot (by simp)
  · exact (Seam.Follows.pure e).at_lexeme _

theorem productTail_follows (e : Expr) :
    seam.Follows 0 0 (productTail inner e) (productTail inner' e) := by
  refine Seam.Passes.peek fun lexeme => ?_
  split
  · exact Seam.PassesAt.advance (h.productLink .multiply e) ⟨rfl, fun _ => rfl⟩
  · exact Seam.PassesAt.advance (h.productLink .divide e) ⟨rfl, fun _ => rfl⟩
  · exact Seam.PassesAt.advance (h.productLink .floorDivide e) ⟨rfl, fun _ => rfl⟩
  · exact Seam.PassesAt.advance (h.productLink .modulo e) ⟨rfl, fun _ => rfl⟩
  · exact (Seam.Follows.pure e).at_lexeme _

theorem sumTail_follows (e : Expr) : seam.Follows 0 0 (sumTail inner e) (sumTail inner' e) := by
  refine Seam.Passes.peek fun lexeme => ?_
  split
  · exact Seam.PassesAt.advance (h.sumLink .add e) ⟨rfl, fun _ => rfl⟩
  · exact Seam.PassesAt.advance (h.sumLink .subtract e) ⟨rfl, fun _ => rfl⟩
  · exact (Seam.Follows.pure e).at_lexeme _

theorem compareTail_follows (e : Expr) :
    seam.Follows 0 0 (compareTail inner e) (compareTail inner' e) := by
  have hone {lexeme : Lexeme} (op : ComparisonOp) (htakes : lexeme.Takes 0 0) :
      seam.PassesAt lexeme id 0 (fun d b => seam.Inside d (b + 0))
        (do advance; inner.compareLink op e) (do advance; inner'.compareLink op e) :=
    Seam.PassesAt.advance (h.compareLink op e) htakes
  have htwo {lexeme next : Lexeme} (op : ComparisonOp) (htakes : lexeme.Takes 0 0)
      (hnext : next.Takes 0 0) :
      seam.PassesBefore lexeme (some next) id 0 (fun d b => seam.Inside d (b + 0))
        (do advance; advance; inner.compareLink op e)
        (do advance; advance; inner'.compareLink op e) :=
    Seam.PassesBefore.advance (hone op hnext) htakes
  unfold compareTail comparisonOp
  rw [bind_assoc, bind_assoc]
  refine Seam.Passes.peek fun lexeme => ?_
  rw [bind_assoc, bind_assoc]
  refine Seam.PassesAt.peekNext fun next next' hnext => ?_
  cases hprinted : lexeme.isPrinted with
  | false =>
    cases lexeme with
    | newline | indent | dedent | finish => exact ((Seam.Follows.pure e).at_lexeme _).before _
    | _ => cases hprinted
  | true =>
    obtain rfl := hnext hprinted
    split
    · exact (hone .equal ⟨rfl, fun _ => rfl⟩).before _
    · exact (hone .notEqual ⟨rfl, fun _ => rfl⟩).before _
    · exact (hone .less ⟨rfl, fun _ => rfl⟩).before _
    · exact (hone .lessEqual ⟨rfl, fun _ => rfl⟩).before _
    · exact (hone .greater ⟨rfl, fun _ => rfl⟩).before _
    · exact (hone .greaterEqual ⟨rfl, fun _ => rfl⟩).before _
    · exact (hone .within ⟨rfl, fun _ => rfl⟩).before _
    · exact htwo .notSame ⟨rfl, fun _ => rfl⟩ ⟨rfl, fun _ => rfl⟩
    · exact (hone .same ⟨rfl, fun _ => rfl⟩).before _
    · exact htwo .notWithin ⟨rfl, fun _ => rfl⟩ ⟨rfl, fun _ => rfl⟩
    · exact ((Seam.Follows.pure e).at_lexeme _).before _

theorem andTail_follows (e : Expr) : seam.Follows 0 0 (andTail inner e) (andTail inner' e) := by
  refine Seam.Passes.eat (n := 0) ?_ ?_ ⟨rfl, fun _ => rfl⟩
  · exact h.andLink e
  · exact Seam.Follows.pure e

theorem orTail_follows (e : Expr) : seam.Follows 0 0 (orTail inner e) (orTail inner' e) := by
  refine Seam.Passes.eat (n := 0) ?_ ?_ ⟨rfl, fun _ => rfl⟩
  · exact h.orLink e
  · exact Seam.Follows.pure e

theorem factor_follows : seam.Follows 0 0 (factor inner) (factor inner') := by
  have hsign (op : UnaryOp) : seam.Follows 0 0
      (do return Expr.unary op (← inner.factor)) (do return Expr.unary op (← inner'.factor)) :=
    h.factor.bind fun operand => Seam.Follows.pure _
  refine Seam.Passes.peek fun lexeme => ?_
  split
  · exact Seam.PassesAt.advance (hsign .minus) ⟨rfl, fun _ => rfl⟩
  · exact Seam.PassesAt.advance (hsign .plus) ⟨rfl, fun _ => rfl⟩
  · exact Seam.Passes.at_lexeme ((atom_follows h).bind (trailers_follows h)) _

theorem product_follows : seam.Follows 0 0 (product inner) (product inner') :=
  (factor_follows h).bind (productTail_follows h)

theorem sum_follows : seam.Follows 0 0 (sum inner) (sum inner') :=
  (product_follows h).bind (sumTail_follows h)

theorem negation_follows :
    seam.Follows 0 0 (Script.negation inner) (Script.negation inner') := by
  refine Seam.Passes.eat (n := 0) ?_ ?_ ⟨rfl, fun _ => rfl⟩
  · exact h.negation.bind fun operand => Seam.Follows.pure _
  · exact (sum_follows h).bind (compareTail_follows h)

theorem conjunction_follows : seam.Follows 0 0 (conjunction inner) (conjunction inner') :=
  (negation_follows h).bind (andTail_follows h)

theorem disjunction_follows : seam.Follows 0 0 (disjunction inner) (disjunction inner') :=
  (conjunction_follows h).bind (orTail_follows h)

theorem conditional_follows : seam.Follows 0 0 (conditional inner) (conditional inner') := by
  refine (Seam.Follows.at? _).bind fun lambda => ?_
  split
  · exact Seam.Passes.fail _
  · refine (disjunction_follows h).bind fun positive => ?_
    refine Seam.Passes.eat (n := 0) ?_ (Seam.Follows.pure positive) ⟨rfl, fun _ => rfl⟩
    refine (disjunction_follows h).bind fun condition => ?_
    refine (Seam.Follows.expect (n := 0) _ ⟨rfl, fun _ => rfl⟩).bind fun _ => ?_
    exact h.test.bind fun negative => Seam.Follows.pure _

end Expressions

/-! ## Statements -/

section Statements

variable {seam : Seam} {n : Nat}

/-- What reads no tokens does the same everywhere. -/
theorem targetNames_follows (items : List Expr) :
    seam.Follows n n
      (items.mapM fun
        | .name name => pure name
        | _ => Parser.fail .unpackTarget)
      (items.mapM fun
        | .name name => pure name
        | _ => Parser.fail .unpackTarget) := by
  induction items with
  | nil => exact Seam.Follows.pure []
  | cons item items ih =>
    rw [List.mapM_cons]
    refine Seam.Follows.bind (m := n) ?_ fun name => ih.bind fun names => Seam.Follows.pure _
    split
    · exact Seam.Follows.pure _
    · exact Seam.Passes.fail _

theorem assignTarget_follows (e : Expr) : seam.Follows n n (assignTarget e) (assignTarget e) := by
  unfold assignTarget
  split
  · exact Seam.Follows.pure _
  · exact (targetNames_follows _).bind fun names => Seam.Follows.pure _
  · exact (targetNames_follows _).bind fun names => Seam.Follows.pure _
  · exact Seam.Follows.pure _
  · exact Seam.Follows.pure _
  · exact Seam.Passes.fail _

/-! ### Imports -/

theorem dottedName_follows : seam.Follows n n dottedName dottedName := by
  refine identifier_follows.bind fun first => ?_
  refine (Seam.Follows.collect ?_ identifier_follows).bind fun rest => Seam.Follows.pure _
  exact Seam.Follows.eat ⟨rfl, fun _ => rfl⟩

theorem importEntry_follows : seam.Follows n n importEntry importEntry := by
  refine dottedName_follows.bind fun path => ?_
  refine Seam.Passes.eat (n := n) ?_ (Seam.Follows.pure _) ⟨rfl, fun _ => rfl⟩
  exact identifier_follows.bind fun name => Seam.Follows.pure _

/-- A statement without a block has no lines to shift. -/
def Seam.Acts (seam : Seam) (p q : Parser Action) : Prop :=
  seam.Passes (Action.lowered seam.shift) 0 (fun d b => seam.Inside d (b + 0)) p q

theorem importModules_acts : seam.Acts importModules importModules := by
  refine importEntry_follows.bind fun first => ?_
  refine (Seam.Follows.collect ?_ importEntry_follows).bind fun rest => Seam.Passes.pure rfl
  exact Seam.Follows.eat ⟨rfl, fun _ => rfl⟩

theorem importedName_follows (origin : String) :
    seam.Follows n n (importedName origin) (importedName origin) := by
  refine identifier_follows.bind fun name => ?_
  refine Seam.Passes.eat (n := n) ?_ ?_ ⟨rfl, fun _ => rfl⟩
  · exact identifier_follows.bind fun bound => Seam.Follows.pure _
  · exact Seam.Follows.pure _

/-- What follows the path of an import: the names of one module, in parentheses or not. -/
theorem importNames_acts (origin : String) :
    seam.Acts
      (do
        expectKeyword "import"
        if ← eatMark .star then return .imports []
        let parenthesized ← eatMark .leftParen
        let stop : Parser Bool := do return parenthesized && (← at? (.mark .rightParen))
        let bindings ← commaList stop (importedName origin)
        if parenthesized then expectMark .rightParen
        return .imports bindings)
      (do
        expectKeyword "import"
        if ← eatMark .star then return .imports []
        let parenthesized ← eatMark .leftParen
        let stop : Parser Bool := do return parenthesized && (← at? (.mark .rightParen))
        let bindings ← commaList stop (importedName origin)
        if parenthesized then expectMark .rightParen
        return .imports bindings) := by
  have hnames {m : Nat} (parenthesized : Bool) :
      seam.Follows m m
        (commaList (do return parenthesized && (← at? (.mark .rightParen))) (importedName origin))
        (commaList (do return parenthesized && (← at? (.mark .rightParen)))
          (importedName origin)) :=
    Seam.Follows.commaList ((Seam.Follows.at? _).bind fun _ => Seam.Follows.pure _)
      (importedName_follows origin)
  refine (Seam.Follows.expect (n := 0) _ ⟨rfl, fun _ => rfl⟩).bind fun _ => ?_
  refine Seam.Passes.eat (n := 0) (Seam.Passes.pure rfl) ?_ ⟨rfl, fun _ => rfl⟩
  refine Seam.Passes.eat (n := 1) ?_ ?_ ⟨rfl, fun _ => rfl⟩
  · refine (hnames true).bind fun bindings => ?_
    exact (Seam.Follows.expect _ ⟨rfl, fun _ => rfl⟩).bind fun _ => Seam.Passes.pure rfl
  · exact (hnames false).bind fun bindings => Seam.Passes.pure rfl

theorem importFrom_acts : seam.Acts importFrom importFrom := by
  refine (Seam.Follows.collect ?_ (Seam.Follows.pure '.')).bind fun dots => ?_
  · exact Seam.Follows.eat ⟨rfl, fun _ => rfl⟩
  refine (Seam.Follows.at? _).bind fun bare => ?_
  split
  · exact importNames_acts _
  · exact dottedName_follows.bind fun path => importNames_acts _

/-! ### Statements without blocks -/

variable {inner inner' : Inner} (h : inner.Follows seam inner')
include h

theorem augment_acts (op : ArithmeticOp) (e : Expr) :
    seam.Acts (expressionAction.augment inner op e) (expressionAction.augment inner' op e) := by
  unfold expressionAction.augment
  split
  · exact (testList_follows h).bind fun value => Seam.Passes.pure rfl
  · exact Seam.Passes.fail _

theorem expressionAction_acts : seam.Acts (expressionAction inner) (expressionAction inner') := by
  refine (testList_follows h).bind fun e => Seam.Passes.peek fun lexeme => ?_
  split
  · refine Seam.PassesAt.advance (n := 0) ?_ ⟨rfl, fun _ => rfl⟩
    refine (testList_follows h).bind fun value => ?_
    refine (Seam.Follows.collect (Seam.Follows.eat ⟨rfl, fun _ => rfl⟩)
      (testList_follows h)).bind fun more => ?_
    split
    · exact (assignTarget_follows e).bind fun target => Seam.Passes.pure rfl
    · exact Seam.Passes.fail _
  · exact Seam.PassesAt.advance (augment_acts h .add e) ⟨rfl, fun _ => rfl⟩
  · exact Seam.PassesAt.advance (augment_acts h .subtract e) ⟨rfl, fun _ => rfl⟩
  · exact Seam.Passes.at_lexeme (Seam.Passes.pure rfl) _

theorem simpleAction_acts : seam.Acts (simpleAction inner) (simpleAction inner') := by
  have hkeyword {word : String} {action : Action}
      (haction : action.lowered seam.shift = action) :
      seam.PassesAt (.name word) (Action.lowered seam.shift) 0 (fun d b => seam.Inside d (b + 0))
        (do advance; return action) (do advance; return action) :=
    Seam.PassesAt.advance (n := 0) (Seam.Passes.pure haction) ⟨rfl, fun _ => rfl⟩
  refine Seam.Passes.peek fun lexeme => ?_
  split
  · exact hkeyword rfl
  · exact hkeyword rfl
  · exact hkeyword rfl
  · refine Seam.PassesAt.advance (n := 0) ?_ ⟨rfl, fun _ => rfl⟩
    refine Seam.Passes.peek fun behind => Seam.Passes.at_lexeme ?_ behind
    split
    · exact Seam.Passes.pure rfl
    · exact Seam.Passes.pure rfl
    · exact Seam.Passes.pure rfl
    · exact (testList_follows h).bind fun value => Seam.Passes.pure rfl
  · exact Seam.PassesAt.advance importModules_acts ⟨rfl, fun _ => rfl⟩
  · exact Seam.PassesAt.advance importFrom_acts ⟨rfl, fun _ => rfl⟩
  · exact (expressionAction_acts h).at_lexeme _

theorem simpleStatement_passes :
    seam.Passes (Statement.lowered seam.shift) 0 (fun d b => seam.Inside d (b + 0))
      (simpleStatement inner) (simpleStatement inner') := by
  refine Seam.Passes.line fun line => ?_
  exact Seam.Passes.bind (simpleAction_acts h) fun action => Seam.Passes.pure rfl

theorem simpleLine_carries :
    seam.Carries (loweredBlock seam.shift) (simpleLine inner) (simpleLine inner') := by
  have hmore : seam.Follows 0 0
      (do
        if ← eatMark .semicolon then return !((← at? .newline) || (← at? .finish))
        else return false)
      (do
        if ← eatMark .semicolon then return !((← at? .newline) || (← at? .finish))
        else return false) := by
    refine Seam.Passes.eat (n := 0) ?_ (Seam.Follows.pure false) ⟨rfl, fun _ => rfl⟩
    exact (Seam.Follows.at? _).bind fun _ => (Seam.Follows.at? _).bind fun _ =>
      Seam.Follows.pure _
  refine (simpleStatement_passes h).bind fun first => ?_
  refine (Seam.Passes.collect hmore (simpleStatement_passes h)).bind fun rest => ?_
  have hresult : seam.Resumes (loweredBlock seam.shift) (do return first :: rest)
      (do return first.lowered seam.shift :: rest.map (Statement.lowered seam.shift)) :=
    Seam.Resumes.pure (by rw [loweredBlock, loweredBlock_eq_map])
  refine Seam.Passes.peek fun lexeme => ?_
  split
  · exact Seam.PassesAt.newline hresult
  · exact hresult.carries.at_lexeme _
  · exact hresult.carries.at_lexeme _
  · exact (Seam.Passes.unexpected _).at_lexeme _

/-! ### Statements with blocks -/

theorem guarded_carries :
    seam.Carries (fun branch => (branch.1, loweredBlock seam.shift branch.2))
      (branchAction.guarded inner) (branchAction.guarded inner') := by
  refine Seam.Follows.bind h.test fun condition => ?_
  exact h.block.bind fun block => Seam.Resumes.pure rfl

theorem branchAction_carries :
    seam.Carries (Action.lowered seam.shift) (branchAction inner) (branchAction inner') := by
  have hmore : seam.Resumes (List.map fun branch => (branch.1, loweredBlock seam.shift branch.2))
      (collect (eatKeyword "elif") (branchAction.guarded inner))
      (collect (eatKeyword "elif") (branchAction.guarded inner')) := fun d b =>
    Tracks.collect (Seam.tracks_branch (Or.inl rfl) d b) (guarded_carries h d b)
      fun _ _ hc => Seam.Along.length_le hc
  have hotherwise (branches : List (Expr × List Statement)) :
      seam.Resumes (Action.lowered seam.shift)
        (do
          let otherwise ← if ← eatKeyword "else" then inner.block else pure []
          return .branch branches otherwise)
        (do
          let otherwise ← if ← eatKeyword "else" then inner'.block else pure []
          return .branch (loweredBranches seam.shift branches) otherwise) := by
    refine Seam.Resumes.branch (Or.inr rfl) ?_ ?_
    · exact h.block.bind fun block => Seam.Resumes.pure rfl
    · exact Seam.Resumes.pure rfl
  refine (guarded_carries h).bind fun first => hmore.bind fun more => ?_
  have hbranches := hotherwise (first :: more)
  rw [loweredBranches_eq_map, List.map_cons] at hbranches
  exact hbranches

theorem loopAction_carries :
    seam.Carries (Action.lowered seam.shift) (loopAction inner) (loopAction inner') := by
  refine Seam.Follows.bind loopTargets_follows fun targets => ?_
  refine (Seam.Follows.expect (n := 0) _ ⟨rfl, fun _ => rfl⟩).bind fun _ => ?_
  refine (testList_follows h).bind fun source => ?_
  exact h.block.bind fun body => Seam.Resumes.pure rfl

theorem parameter_follows : seam.Follows n n (parameter inner) (parameter inner') := by
  refine Seam.Passes.peek fun lexeme => Seam.Passes.at_lexeme ?_ lexeme
  split
  · exact Seam.Passes.fail _
  · exact Seam.Passes.fail _
  · refine identifier_follows.bind fun name => ?_
    refine Seam.Passes.eat (n := n) ?_ (Seam.Follows.pure _) ⟨rfl, fun _ => rfl⟩
    exact h.test.lift.bind fun value => Seam.Follows.pure _

theorem defineAction_carries :
    seam.Carries (Action.lowered seam.shift) (defineAction inner) (defineAction inner') := by
  refine Seam.Follows.bind identifier_follows fun name => ?_
  refine (Seam.Follows.expect (n := 1) _ ⟨rfl, fun _ => rfl⟩).bind fun _ => ?_
  refine (Seam.Follows.commaList (Seam.Follows.at? _) (parameter_follows h)).bind
    fun parameters => ?_
  refine (Seam.Follows.expect (n := 0) _ ⟨rfl, fun _ => rfl⟩).bind fun _ => ?_
  exact h.block.bind fun body => Seam.Resumes.pure rfl

theorem statements_carries :
    seam.Carries (loweredBlock seam.shift) (statements inner) (statements inner') := by
  have hkeyword {word : String} {p q : Parser Action} (line : Nat)
      (hp : seam.Carries (Action.lowered seam.shift) p q) :
      seam.PassesAt (.name word) (loweredBlock seam.shift) 0 seam.Stand
        (do advance; return [.at line (← p)])
        (do advance; return [.at (line + seam.shift) (← q)]) :=
    Seam.PassesAt.advance (n := 0) (hp.bind fun action => Seam.Resumes.pure rfl)
      ⟨rfl, fun _ => rfl⟩
  refine Seam.Passes.line fun line => Seam.Passes.peek fun lexeme => ?_
  split
  · exact hkeyword line (branchAction_carries h)
  · exact hkeyword line (loopAction_carries h)
  · exact hkeyword line (defineAction_carries h)
  · split
    · exact (Seam.Passes.fail _).at_lexeme _
    · exact (simpleLine_carries h).at_lexeme _
  · exact (simpleLine_carries h).at_lexeme _

/-- A block ends in both streams with the same dedent. -/
theorem suite_carries : seam.Carries (loweredBlock seam.shift) (suite inner) (suite inner') := by
  refine (Seam.Follows.expect (n := 0) _ ⟨rfl, fun _ => rfl⟩).bind fun _ => ?_
  refine Seam.Carries.eatNewline (fun d b => ?_) (simpleLine_carries h)
  refine (Seam.tracks_indent _ d b).bind fun _ => ?_
  refine (Tracks.collect (Seam.tracks_block d b) (statements_carries h (d + 1) b)
    fun _ _ hc => Seam.Along.length_le hc).bind fun body => ?_
  refine (Seam.tracks_dedent d b).bind fun _ => Tracks.pure ?_ fun _ _ he => he
  rw [loweredBlock_eq_map, List.map_flatten]
  exact congrArg List.flatten (List.map_congr_left fun lines _ => (loweredBlock_eq_map _ _).symm)

end Statements

/-! ## The recursion on the room -/

namespace Inner

variable {seam : Seam} {inner inner' : Inner}

theorem readTrailer_passes (h : inner.Follows seam inner') (e : Expr) {mark : Mark}
    (hmark : mark ∈ [Mark.leftParen, .leftBracket, .dot]) :
    seam.PassesAt (.mark mark) id 0 (fun d b => seam.Inside d (b + 0)) (inner.readTrailer e)
      (inner'.readTrailer e) := by
  refine Seam.PassesAt.peek ?_
  simp only [List.mem_cons, List.not_mem_nil, or_false] at hmark
  rcases hmark with rfl | rfl | rfl
  · refine Seam.PassesAt.advance (n := 1) ?_ ⟨rfl, fun _ => rfl⟩
    exact (callArguments_follows h).bind fun arguments => trailers_follows h _
  · refine Seam.PassesAt.advance (n := 1) ?_ ⟨rfl, fun _ => rfl⟩
    refine (Seam.Follows.at? _).bind fun empty => ?_
    split
    · exact Seam.Passes.fail _
    · refine (testList_follows h).bind fun index => (Seam.Follows.at? _).bind fun sliced => ?_
      split
      · exact Seam.Passes.fail _
      · refine (Seam.Follows.expect (n := 0) _ ⟨rfl, fun _ => rfl⟩).bind fun _ => ?_
        exact trailers_follows h _
  · refine Seam.PassesAt.advance (n := 0) ?_ ⟨rfl, fun _ => rfl⟩
    exact identifier_follows.bind fun name => trailers_follows h _

theorem follows_exhausted : exhausted.Follows seam inner' where
  test := Seam.Passes.fail _
  negation := Seam.Passes.fail _
  factor := Seam.Passes.fail _
  orLink _ := Seam.Passes.fail _
  andLink _ := Seam.Passes.fail _
  compareLink _ _ := Seam.Passes.fail _
  sumLink _ _ := Seam.Passes.fail _
  productLink _ _ := Seam.Passes.fail _
  trailer _ _ _ := (Seam.Passes.fail _).at_lexeme _
  block := Seam.Passes.fail _
  clause := Seam.Passes.fail _

theorem follows_deeper (h : inner.Follows seam inner') :
    inner.deeper.Follows seam inner'.deeper := by
  constructor
  case test => exact conditional_follows h
  case negation => exact negation_follows h
  case factor => exact factor_follows h
  case orLink => exact fun e => (conjunction_follows h).bind fun _ => orTail_follows h _
  case andLink => exact fun e => (negation_follows h).bind fun _ => andTail_follows h _
  case compareLink => exact fun op e => (sum_follows h).bind fun _ => compareTail_follows h _
  case sumLink => exact fun op e => (product_follows h).bind fun _ => sumTail_follows h _
  case productLink => exact fun op e => (factor_follows h).bind fun _ => productTail_follows h _
  case trailer => exact fun e _ hmark => readTrailer_passes h e hmark
  case block => exact suite_carries h
  case clause => exact Seam.Passes.fail _

/-- The second stream may have more clauses inside one another. -/
theorem follows_withClauses (h : inner.Follows seam inner') {n n' : Nat} (hle : n ≤ n') :
    (inner.withClauses n).Follows seam (inner'.withClauses n') := by
  induction n generalizing n' with
  | zero =>
    cases n' with
    | zero => exact { h with clause := Seam.Passes.fail _ }
    | succ n' => exact { h with clause := Seam.Passes.fail _ }
  | succ n ih =>
    cases n' with
    | zero => cases hle
    | succ n' => exact { h with clause := disjunction_follows (ih (Nat.le_of_succ_le_succ hle)) }

theorem follows_ofRoom (seam : Seam) {tokens tokens' : Nat} (hle : tokens ≤ tokens') (room : Nat) :
    (ofRoom tokens room).Follows seam (ofRoom tokens' room) := by
  induction room with
  | zero => exact follows_exhausted
  | succ room ih => exact follows_withClauses (follows_deeper ih) hle

end Inner

/-! ## Scripts -/

/-- The loop over the lines of a script; `done` holds those so far, the last one first. -/
def scriptLoop (inner : Inner) (budget : List Token) (done : List (List Statement)) :
    Parser (List (List Statement)) :=
  collectWithin (do return !(← at? .finish))
    (do if ← eat .newline then return [] else statements inner) budget done

section Scripts

variable {inner : Inner} {budget : List Token} {done items : List (List Statement)}
  {token : Token} {c c' e : Cursor}

theorem scriptLoop_finish (hc : c.here.lexeme = .finish) (hbudget : budget ≠ []) :
    scriptLoop inner budget done c = .ok (done.reverse, c) := by
  obtain ⟨token, budget, rfl⟩ := List.exists_cons_of_ne_nil hbudget
  rw [scriptLoop, collectWithin, bind_run (bind_run (at?_of_eq hc))]
  rfl

theorem scriptLoop_of_ne (hc : c.here.lexeme ≠ .finish) :
    scriptLoop inner (token :: budget) done c =
      ((do if ← eat .newline then return [] else statements inner) >>= fun item =>
        scriptLoop inner budget (item :: done)) c := by
  rw [scriptLoop, collectWithin, bind_run (bind_run (at?_of_ne hc))]
  rfl

theorem scriptLoop_newline (hc : c.here.lexeme = .newline) :
    scriptLoop inner (token :: budget) done c = scriptLoop inner budget ([] :: done) c.next := by
  rw [scriptLoop_of_ne (by rw [hc]; simp)]
  exact bind_run (bind_run (eat_of_eq hc))

/-- The loop over a script makes the same turns up to the seam, and goes on behind it. All brackets
    are closed there. -/
theorem script_turns {seam : Seam} {inner' : Inner} (h : inner.Follows seam inner') {b : Nat}
    (hc : seam.Stand 0 b c c') (hrun : scriptLoop inner budget done c = .ok (items, e)) :
    b = seam.brackets ∧ ∃ new e', items = done.reverse ++ new ∧ new.length < budget.length ∧
      e'.tokens = seam.onward ∧ ∀ (budget' : List Token) done', new.length ≤ budget'.length →
        scriptLoop inner' budget' done' c' = scriptLoop inner' (budget'.drop new.length)
          ((new.map (loweredBlock seam.shift)).reverse ++ done') e' := by
  have hitem : seam.Carries (loweredBlock seam.shift)
      (do if ← eat .newline then return [] else statements inner)
      (do if ← eat .newline then return [] else statements inner') :=
    Seam.Carries.eatNewline (Seam.Resumes.pure rfl) (statements_carries h)
  induction budget generalizing done c c' with
  | nil => cases hrun
  | cons token budget ih =>
    by_cases hfinish : c.here.lexeme = .finish
    · obtain ⟨hb, htokens⟩ := hc.finish hfinish
      cases (scriptLoop_finish hfinish (List.cons_ne_nil _ _)).symm.trans hrun
      exact ⟨hb, [], c', (List.append_nil _).symm, Nat.zero_lt_succ _, htokens,
        fun budget' done' _ => rfl⟩
    · have hinside := hc.inside_of_script hfinish
      have hfinish' : c'.here.lexeme ≠ .finish := hinside.lexeme_eq ▸ hfinish
      rw [scriptLoop_of_ne hfinish] at hrun
      obtain ⟨⟨a, mid⟩, hfirst, hrun⟩ := ok_of_bind hrun
      obtain ⟨mid', hfirst', hmid⟩ := hitem 0 b c c' hinside a mid hfirst
      obtain ⟨hb, new, e', hitems, hlength, htokens, hrest⟩ := ih hmid hrun
      refine ⟨hb, a :: new, e', ?_, Nat.succ_lt_succ hlength, htokens, ?_⟩
      · rw [hitems, List.reverse_cons, List.append_assoc]
        rfl
      · intro budget' done' hle
        cases budget' with
        | nil => cases hle
        | cons token' budget' =>
          have hstep := hrest budget' (loweredBlock seam.shift a :: done')
            (Nat.le_of_succ_le_succ hle)
          rw [scriptLoop_of_ne hfinish']
          refine (bind_run hfirst').trans (hstep.trans ?_)
          rw [List.map_cons, List.reverse_cons, List.append_assoc]
          rfl

end Scripts

end Monorepo.Script
