import Monorepo.Proofs.Trails

/-!
# What room is for

A parser with less room does what the same parser does with more room, or fails because its room is
used up; and what it reads fits its room. Both are said of a parser and one with more room at once,
and hold for the parsers of the grammar one after another. The grammar is one recursion on the room,
so an induction on the room carries them to whole scripts.
-/

namespace Monorepo.Script

namespace Parser

variable {α β : Type}

/-- `p` does what `q` does, or fails because no room is left; its results have the property `Q`. -/
def Cut (Q : α → Prop) (p q : Parser α) : Prop :=
  ∀ c, (∃ position, p c = .error ⟨position, .nesting⟩) ∨
    p c = q c ∧ ∀ a c', p c = .ok (a, c') → Q a

namespace Cut

variable {Q : α → Prop} {Q' : β → Prop} {p q : Parser α}

/-- A parser does what it does itself. -/
theorem of_results (h : ∀ c a c', p c = .ok (a, c') → Q a) : Cut Q p p :=
  fun c => Or.inr ⟨rfl, h c⟩

theorem refl (p : Parser α) : Cut (fun _ => True) p p := of_results fun _ _ _ _ => trivial

theorem pure {a : α} (h : Q a) : Cut Q (pure a) (pure a) := by
  refine of_results fun c a' c' heq => ?_
  cases heq
  exact h

theorem fail (fault : SyntaxFault) : Cut Q (fail fault) (fail fault) :=
  of_results fun c a c' heq => by cases heq

theorem unexpected (e : Expectation) : Cut Q (unexpected e) (unexpected e) :=
  of_results fun c a c' heq => by cases heq

/-- A parser without room is any parser cut short. -/
theorem exhausted (q : Parser α) : Cut Q (Parser.fail .nesting) q :=
  fun c => Or.inl ⟨c.here.position, rfl⟩

theorem mono {Q₂ : α → Prop} (h : Cut Q p q) (hQ : ∀ a, Q a → Q₂ a) : Cut Q₂ p q := by
  intro c
  rcases h c with hnesting | ⟨heq, hresult⟩
  · exact Or.inl hnesting
  · exact Or.inr ⟨heq, fun a c' hok => hQ a (hresult a c' hok)⟩

theorem bind {f g : α → Parser β} (hp : Cut Q p q) (hf : ∀ a, Q a → Cut Q' (f a) (g a)) :
    Cut Q' (p >>= f) (q >>= g) := by
  intro c
  change (∃ position, (p c).bind (fun r => f r.1 r.2) = .error ⟨position, .nesting⟩) ∨
    (p c).bind (fun r => f r.1 r.2) = (q c).bind (fun r => g r.1 r.2) ∧
      ∀ b c', (p c).bind (fun r => f r.1 r.2) = .ok (b, c') → Q' b
  rcases hp c with ⟨position, hnesting⟩ | ⟨heq, hresult⟩
  · exact Or.inl ⟨position, by rw [hnesting]; rfl⟩
  · rw [← heq]
    cases hp : p c with
    | error e => exact Or.inr ⟨rfl, fun b c' hok => by cases hok⟩
    | ok r => exact hf r.1 (hresult r.1 r.2 hp) r.2

/-- What takes no room goes the same way. -/
theorem bind_same {f g : α → Parser β} (hf : ∀ a, Cut Q' (f a) (g a)) :
    Cut Q' (p >>= f) (p >>= g) :=
  (refl p).bind fun a _ => hf a

theorem map {f : α → β} (hp : Cut Q p q) (hf : ∀ a, Q a → Q' (f a)) :
    Cut Q' (f <$> p) (f <$> q) := by
  rw [map_eq_pure_bind, map_eq_pure_bind]
  exact hp.bind fun a ha => pure (hf a ha)

theorem ite {b : Prop} [Decidable b] {p' q' : Parser α} (h : Cut Q p q) (h' : Cut Q p' q') :
    Cut Q (if b then p else p') (if b then q else q') := by
  split
  · exact h
  · exact h'

/-! ### Repetitions -/

theorem collectWithin (more : Parser Bool) (h : Cut Q p q) (budget : List Token) (done : List α)
    (hdone : ∀ a ∈ done, Q a) :
    Cut (fun as => ∀ a ∈ as, Q a) (Parser.collectWithin more p budget done)
      (Parser.collectWithin more q budget done) := by
  induction budget generalizing done with
  | nil => exact fail .stalled
  | cons token budget ih =>
    refine bind_same fun b => ite ?_ ?_
    · exact h.bind fun a ha => ih (a :: done) (List.forall_mem_cons.mpr ⟨ha, hdone⟩)
    · exact pure fun a ha => hdone a (List.mem_reverse.mp ha)

theorem collect (more : Parser Bool) (h : Cut Q p q) :
    Cut (fun as => ∀ a ∈ as, Q a) (Parser.collect more p) (Parser.collect more q) :=
  fun c => collectWithin more h c.tokens [] (fun a ha => by cases ha) c

theorem commaRest (stop : Parser Bool) (h : Cut Q p q) :
    Cut (fun as => ∀ a ∈ as, Q a) (Parser.commaRest stop p) (Parser.commaRest stop q) :=
  collect _ h

theorem commaList (stop : Parser Bool) (h : Cut Q p q) :
    Cut (fun as => ∀ a ∈ as, Q a) (Parser.commaList stop p) (Parser.commaList stop q) := by
  refine bind_same fun b => ite (pure fun a ha => by cases ha) ?_
  refine h.bind fun first hfirst => (commaRest stop h).bind fun rest hrest => pure ?_
  exact List.forall_mem_cons.mpr ⟨hfirst, hrest⟩

end Cut

end Parser

open Monorepo.Script.Parser

/-- The length of the longest trail without clauses from an expression that is read with some room:
    a conditional expression, six chains and a construct for every unit of room. -/
def reach : Nat → Nat
  | 0 => 0
  | room + 1 => reach room + 6 * room + 2

theorem reach_succ (room : Nat) : reach (room + 1) = reach room + 6 * room + 2 := rfl

/-- Links of a chain that work with some room: the trails may get longer by that many steps. -/
def LinkCut (room : Nat) (f g : Expr → Parser Expr) : Prop :=
  ∀ depth length left, room ≤ depth → reach room ≤ length → left.Fits (depth + 1) length →
    Cut (Expr.Fits (depth + 1) (length + room)) (f left) (g left)

/-- A block that is read with some room, as seen from the statement that holds it. -/
def FitsBlock (room : Nat) (b : List Statement) : Prop :=
  ∀ s ∈ b, ∀ t, s.HasTrail t → Trail.Fits room (reach room + 2) (.inside :: t)

/-- Parsers with some room, and the same with more room. -/
structure Inner.Cut (room : Nat) (inner inner' : Inner) : Prop where
  test : Parser.Cut (Expr.Fits room (reach room)) inner.test inner'.test
  negation : Parser.Cut (Expr.Fits room (reach room)) inner.negation inner'.negation
  factor : Parser.Cut (Expr.Fits room (reach room)) inner.factor inner'.factor
  orLink : LinkCut room inner.orLink inner'.orLink
  andLink : LinkCut room inner.andLink inner'.andLink
  compareLink : ∀ op, LinkCut room (inner.compareLink op) (inner'.compareLink op)
  sumLink : ∀ op, LinkCut room (inner.sumLink op) (inner'.sumLink op)
  productLink : ∀ op, LinkCut room (inner.productLink op) (inner'.productLink op)
  trailer : LinkCut room inner.trailer inner'.trailer
  block : Parser.Cut (FitsBlock room) inner.block inner'.block
  /-- A clause is read with the room of the comprehension, brackets included. -/
  clause : Parser.Cut (Expr.Fits (room + 1) (reach room + 1 + 6 * room)) inner.clause inner'.clause

section Expressions

variable {room : Nat} {inner inner' : Inner} (h : inner.Cut room inner')
include h

theorem cut_testList :
    Cut (Expr.FitsBare room (reach room + 1)) (testList inner) (testList inner') := by
  refine h.test.bind fun first hfirst => Cut.bind_same fun comma => Cut.ite ?_ ?_
  · refine (Cut.commaRest _ h.test).bind fun rest hrest => Cut.pure ?_
    exact Expr.fitsBare_tuple (List.forall_mem_cons.mpr ⟨hfirst, hrest⟩)
  · exact Cut.pure (hfirst.fitsBare.mono (Nat.le_refl _) (Nat.le_succ _))

theorem cut_argument :
    Cut (fun a => a.value.Fits room (reach room)) (argument inner) (argument inner') := by
  have hpositional : Cut (fun a => a.value.Fits room (reach room))
      (argument.positional inner) (argument.positional inner') :=
    h.test.bind fun value hvalue => Cut.bind_same fun generator => Cut.ite
      (Cut.bind_same fun _ => Cut.pure hvalue) (Cut.pure hvalue)
  refine Cut.bind_same fun here => Cut.bind_same fun next => ?_
  split
  · exact Cut.bind_same fun _ => h.test.bind fun value hvalue => Cut.pure hvalue
  · exact Cut.bind_same fun _ => h.test.bind fun value hvalue => Cut.pure hvalue
  · refine Cut.ite hpositional ?_
    exact Cut.bind_same fun _ => Cut.bind_same fun _ =>
      h.test.bind fun value hvalue => Cut.pure hvalue
  · exact hpositional

theorem cut_callArguments :
    Cut (fun as => ∀ a ∈ as, a.value.Fits room (reach room))
      (callArguments inner) (callArguments inner') :=
  (Cut.commaList _ (cut_argument h)).bind fun _ harguments =>
    Cut.bind_same fun _ => Cut.pure harguments

/-! ### Atoms -/

theorem cut_parenthesized :
    Cut (Expr.Fits (room + 1) (reach room + 1)) (parenthesized inner) (parenthesized inner') := by
  refine Cut.bind_same fun empty => Cut.ite (Cut.pure (Expr.fits_tuple nofun)) ?_
  refine h.test.bind fun first hfirst => Cut.bind_same fun single => Cut.ite ?_ ?_
  · exact Cut.pure (hfirst.mono (Nat.le_succ _) (Nat.le_succ _))
  · refine (Cut.commaRest _ h.test).bind fun rest hrest => Cut.bind_same fun _ => Cut.pure ?_
    exact Expr.fits_tuple (List.forall_mem_cons.mpr ⟨hfirst, hrest⟩)

theorem cut_braced :
    Cut (Expr.Fits (room + 1) (reach room + 1)) (braced inner) (braced inner') := by
  have hentry : Cut (fun entry => entry.1.Fits room (reach room) ∧ entry.2.Fits room (reach room))
      (entry inner) (entry inner') :=
    h.test.bind fun key hkey => Cut.bind_same fun _ => h.test.bind fun value hvalue =>
      Cut.pure ⟨hkey, hvalue⟩
  exact (Cut.commaList _ hentry).bind fun entries hentries =>
    Cut.bind_same fun _ => Cut.pure (Expr.fits_dict hentries)

theorem cut_bracketed (hroom : room ≤ maxNesting) :
    Cut (Expr.Fits (room + 1) (reach room + 1)) (bracketed inner) (bracketed inner') := by
  have hclause : reach room + 1 + 6 * room ≤ reach room + clauseLength := by
    unfold clauseLength
    omega
  refine Cut.bind_same fun empty => Cut.ite (Cut.pure (Expr.fits_list nofun)) ?_
  refine h.test.bind fun first hfirst => Cut.bind_same fun comprehension => Cut.ite ?_ ?_
  · refine Cut.bind_same fun targets => Cut.bind_same fun _ => ?_
    refine h.clause.bind fun source hsource => ?_
    have hrest (condition : Option Expr)
        (hcondition : ∀ e ∈ condition, e.Fits (room + 1) (reach room + 1 + 6 * room)) :
        Cut (Expr.Fits (room + 1) (reach room + 1))
          (do expectMark .rightBracket; return .comprehension first targets source condition)
          (do expectMark .rightBracket; return .comprehension first targets source condition) :=
      Cut.bind_same fun _ => Cut.pure
        (Expr.fits_comprehension hfirst hsource hcondition hclause)
    refine Cut.bind_same fun filtered => Cut.ite ?_ ?_
    · exact (h.clause.map fun c hc e he => by cases he; exact hc).bind hrest
    · exact (Cut.pure nofun).bind hrest
  · refine (Cut.commaRest _ h.test).bind fun rest hrest => Cut.bind_same fun _ => Cut.pure ?_
    exact Expr.fits_list (List.forall_mem_cons.mpr ⟨hfirst, hrest⟩)

theorem cut_atom (hroom : room ≤ maxNesting) :
    Cut (Expr.Fits (room + 1) (reach room + 1)) (atom inner) (atom inner') := by
  have hleaf {e : Expr} (hends : e.ends = []) (hparts : e.parts = []) :
      Cut (Expr.Fits (room + 1) (reach room + 1)) (do advance; return e) (do advance; return e) :=
    Cut.bind_same fun _ => Cut.pure (Expr.fits_leaf hends hparts)
  refine Cut.bind_same fun here => ?_
  split
  · exact hleaf rfl rfl
  · exact hleaf rfl rfl
  · exact hleaf rfl rfl
  · exact hleaf rfl rfl
  · exact hleaf rfl rfl
  · exact hleaf rfl rfl
  · exact Cut.ite (Cut.unexpected _) (hleaf rfl rfl)
  · exact Cut.bind_same fun _ => cut_parenthesized h
  · exact Cut.bind_same fun _ => cut_bracketed h hroom
  · exact Cut.bind_same fun _ => cut_braced h
  · exact Cut.unexpected _

/-! ### Chains -/

omit h in
/-- Nothing to follow is no link. -/
theorem LinkCut.stop {depth length : Nat} {left : Expr} (hleft : left.Fits depth length) :
    Cut (Expr.Fits depth (length + room)) (pure left) (pure left) :=
  Cut.pure (hleft.mono (Nat.le_refl _) (Nat.le_add_right _ _))

theorem cut_trailers : LinkCut room (trailers inner) (trailers inner') := by
  intro depth length left hdepth hlength hleft
  refine Cut.bind_same fun here => ?_
  split
  · exact h.trailer depth length left hdepth hlength hleft
  · exact h.trailer depth length left hdepth hlength hleft
  · exact h.trailer depth length left hdepth hlength hleft
  · exact LinkCut.stop hleft

theorem cut_productTail : LinkCut room (productTail inner) (productTail inner') := by
  intro depth length left hdepth hlength hleft
  have hlink (op : ArithmeticOp) := h.productLink op depth length left hdepth hlength hleft
  refine Cut.bind_same fun here => ?_
  split
  · exact Cut.bind_same fun _ => hlink .multiply
  · exact Cut.bind_same fun _ => hlink .divide
  · exact Cut.bind_same fun _ => hlink .floorDivide
  · exact Cut.bind_same fun _ => hlink .modulo
  · exact LinkCut.stop hleft

theorem cut_sumTail : LinkCut room (sumTail inner) (sumTail inner') := by
  intro depth length left hdepth hlength hleft
  have hlink (op : ArithmeticOp) := h.sumLink op depth length left hdepth hlength hleft
  refine Cut.bind_same fun here => ?_
  split
  · exact Cut.bind_same fun _ => hlink .add
  · exact Cut.bind_same fun _ => hlink .subtract
  · exact LinkCut.stop hleft

theorem cut_compareTail : LinkCut room (compareTail inner) (compareTail inner') := by
  intro depth length left hdepth hlength hleft
  refine Cut.bind_same fun op => ?_
  split
  · rename_i op width
    have hlink := h.compareLink op depth length left hdepth hlength hleft
    exact Cut.bind_same fun _ => Cut.ite (Cut.bind_same fun _ => hlink) hlink
  · exact LinkCut.stop hleft

theorem cut_andTail : LinkCut room (andTail inner) (andTail inner') :=
  fun depth length left hdepth hlength hleft => Cut.bind_same fun _ =>
    Cut.ite (h.andLink depth length left hdepth hlength hleft) (LinkCut.stop hleft)

theorem cut_orTail : LinkCut room (orTail inner) (orTail inner') :=
  fun depth length left hdepth hlength hleft => Cut.bind_same fun _ =>
    Cut.ite (h.orLink depth length left hdepth hlength hleft) (LinkCut.stop hleft)

omit h in
/-- An operand and the links of its chain. -/
theorem LinkCut.chain {p q : Parser Expr} {f g : Expr → Parser Expr} {length : Nat}
    (hlink : LinkCut room f g) (hp : Cut (Expr.Fits (room + 1) length) p q)
    (hlength : reach room ≤ length) :
    Cut (Expr.Fits (room + 1) (length + room)) (p >>= f) (q >>= g) :=
  hp.bind fun left hleft => hlink room length left (Nat.le_refl _) hlength hleft

variable (hroom : room ≤ maxNesting)
include hroom

theorem cut_factor :
    Cut (Expr.Fits (room + 1) (reach room + 1 + room)) (factor inner) (factor inner') := by
  have hsign (op : UnaryOp) : Cut (Expr.Fits (room + 1) (reach room + 1 + room))
      (do advance; return .unary op (← inner.factor))
      (do advance; return .unary op (← inner'.factor)) :=
    Cut.bind_same fun _ => h.factor.bind fun operand hoperand => LinkCut.stop
      (Expr.fits_unary hoperand)
  refine Cut.bind_same fun here => ?_
  split
  · exact hsign .minus
  · exact hsign .plus
  · exact (cut_trailers h).chain (cut_atom h hroom) (Nat.le_succ _)

theorem cut_product :
    Cut (Expr.Fits (room + 1) (reach room + 1 + room + room)) (product inner) (product inner') :=
  (cut_productTail h).chain (cut_factor h hroom) (by omega)

theorem cut_sum :
    Cut (Expr.Fits (room + 1) (reach room + 1 + room + room + room)) (sum inner) (sum inner') :=
  (cut_sumTail h).chain (cut_product h hroom) (by omega)

theorem cut_negation :
    Cut (Expr.Fits (room + 1) (reach room + 1 + 4 * room))
      (Script.negation inner) (Script.negation inner') := by
  refine Cut.bind_same fun not => Cut.ite ?_ ?_
  · refine h.negation.bind fun operand hoperand => Cut.pure ?_
    exact (Expr.fits_unary hoperand).mono (Nat.le_refl _) (by omega)
  · exact ((cut_compareTail h).chain (cut_sum h hroom) (by omega)).mono fun e he =>
      he.mono (Nat.le_refl _) (by omega)

theorem cut_conjunction :
    Cut (Expr.Fits (room + 1) (reach room + 1 + 4 * room + room))
      (conjunction inner) (conjunction inner') :=
  (cut_andTail h).chain (cut_negation h hroom) (by omega)

theorem cut_disjunction :
    Cut (Expr.Fits (room + 1) (reach room + 1 + 6 * room))
      (disjunction inner) (disjunction inner') :=
  ((cut_orTail h).chain (cut_conjunction h hroom) (by omega)).mono fun e he =>
    he.mono (Nat.le_refl _) (by omega)

theorem cut_conditional :
    Cut (Expr.Fits (room + 1) (reach (room + 1))) (conditional inner) (conditional inner') := by
  have hreach : reach (room + 1) = reach room + 1 + 6 * room + 1 := by
    rw [reach_succ]
    omega
  have hdisjunction := cut_disjunction h hroom
  have hrest : Cut (Expr.Fits (room + 1) (reach (room + 1)))
      (do
        let positive ← disjunction inner
        if ← eatKeyword "if" then
          let condition ← disjunction inner
          expectKeyword "else"
          return .conditional condition positive (← inner.test)
        else return positive)
      (do
        let positive ← disjunction inner'
        if ← eatKeyword "if" then
          let condition ← disjunction inner'
          expectKeyword "else"
          return .conditional condition positive (← inner'.test)
        else return positive) := by
    refine hdisjunction.bind fun positive hpositive => ?_
    refine Cut.bind_same fun conditional => Cut.ite ?_ ?_
    · refine hdisjunction.bind fun condition hcondition => Cut.bind_same fun _ =>
        h.test.bind fun negative hnegative => Cut.pure ?_
      rw [hreach]
      exact Expr.fits_conditional hcondition hpositive
        (hnegative.mono (Nat.le_succ _) (by omega))
    · exact Cut.pure (hpositive.mono (Nat.le_refl _) (by omega))
  exact Cut.bind_same fun lambda => Cut.ite (Cut.bind_same fun _ => hrest) hrest

end Expressions

/-! ## Statements -/

/-- An assignment to a place assigns to the expression that it was read as. -/
theorem cut_assignTarget (e : Expr) :
    Cut (fun target => ∀ e', target = .place e' → e' = e ∧ ∀ items, e ≠ .tuple items)
      (assignTarget e) (assignTarget e) := by
  unfold assignTarget
  split
  · exact Cut.pure nofun
  · exact Cut.bind_same fun names => Cut.pure nofun
  · exact Cut.bind_same fun names => Cut.pure nofun
  · exact Cut.pure fun e' he => ⟨(Target.place.inj he).symm, nofun⟩
  · exact Cut.pure fun e' he => ⟨(Target.place.inj he).symm, nofun⟩
  · exact Cut.fail _

section Statements

variable {room : Nat} {inner inner' : Inner} (h : inner.Cut room inner')

omit h in
/-- An action without expressions and blocks fits everywhere. -/
theorem Action.fits_of_empty {depth length : Nat} {a : Action} (hvalues : a.values = [])
    (htests : a.tests = []) (hblocks : a.blocks = []) : a.Fits depth length := by
  constructor
  · rw [hvalues]
    exact nofun
  · rw [htests]
    exact nofun
  · rw [hblocks]
    exact nofun

omit h in
theorem cut_importModules : Cut (Action.Fits room (reach room)) importModules importModules :=
  Cut.bind_same fun _ => Cut.bind_same fun _ => Cut.pure (Action.fits_of_empty rfl rfl rfl)

omit h in
theorem cut_importFrom : Cut (Action.Fits room (reach room)) importFrom importFrom := by
  have himports (bindings : List (String × String)) : Cut (Action.Fits room (reach room))
      (pure (.imports bindings)) (pure (.imports bindings)) :=
    Cut.pure (Action.fits_of_empty rfl rfl rfl)
  -- with a path in front of `import` or without one, the same follows
  refine Cut.bind_same fun dots => Cut.bind_same fun bare =>
    Cut.ite (Cut.bind_same fun path => ?_) (Cut.bind_same fun path => ?_)
  all_goals
    refine Cut.bind_same fun _ => Cut.bind_same fun star => Cut.ite (himports []) ?_
    refine Cut.bind_same fun parenthesized => Cut.bind_same fun bindings => ?_
    exact Cut.ite (Cut.bind_same fun _ => himports bindings) (himports bindings)

include h

theorem cut_expressionAction :
    Cut (Action.Fits room (reach room)) (expressionAction inner) (expressionAction inner') := by
  have haugment (op : ArithmeticOp) (e : Expr) : Cut (Action.Fits room (reach room))
      (expressionAction.augment inner op e) (expressionAction.augment inner' op e) := by
    unfold expressionAction.augment
    split
    · refine (cut_testList h).bind fun value hvalue => Cut.pure ⟨?_, nofun, nofun⟩
      exact List.forall_mem_singleton.mpr hvalue
    · exact Cut.fail _
  refine (cut_testList h).bind fun e he => Cut.bind_same fun here => ?_
  split
  · refine Cut.bind_same fun _ => (cut_testList h).bind fun value hvalue =>
      (Cut.collect _ (cut_testList h)).bind fun more _ => ?_
    have hassign : Cut (Action.Fits room (reach room))
        (do return .assign (← assignTarget e) value)
        (do return .assign (← assignTarget e) value) := by
      refine (cut_assignTarget e).bind fun target htarget => Cut.pure ⟨?_, ?_, ?_⟩
      · exact List.forall_mem_singleton.mpr hvalue
      · cases target with
        | name name => exact nofun
        | unpack names => exact nofun
        | place e' =>
          obtain ⟨rfl, hne⟩ := htarget e' rfl
          exact List.forall_mem_singleton.mpr (he.fits_of_ne_tuple hne)
      · cases target <;> exact nofun
    exact Cut.ite hassign (Cut.bind_same fun _ => hassign)
  · exact Cut.bind_same fun _ => haugment .add e
  · exact Cut.bind_same fun _ => haugment .subtract e
  · exact Cut.pure ⟨List.forall_mem_singleton.mpr he, nofun, nofun⟩

theorem cut_simpleAction :
    Cut (Action.Fits room (reach room)) (simpleAction inner) (simpleAction inner') := by
  refine Cut.bind_same fun here => ?_
  split
  · exact Cut.bind_same fun _ => Cut.pure (Action.fits_of_empty rfl rfl rfl)
  · exact Cut.bind_same fun _ => Cut.pure (Action.fits_of_empty rfl rfl rfl)
  · exact Cut.bind_same fun _ => Cut.pure (Action.fits_of_empty rfl rfl rfl)
  · refine Cut.bind_same fun _ => Cut.bind_same fun next => ?_
    have hvalue : Cut (Action.Fits room (reach room))
        (do return .give (some (← testList inner))) (do return .give (some (← testList inner'))) :=
      (cut_testList h).bind fun value hvalue => Cut.pure
        ⟨List.forall_mem_singleton.mpr hvalue, nofun, nofun⟩
    split
    · exact Cut.pure (Action.fits_of_empty rfl rfl rfl)
    · exact Cut.pure (Action.fits_of_empty rfl rfl rfl)
    · exact Cut.pure (Action.fits_of_empty rfl rfl rfl)
    · exact hvalue
  · exact Cut.bind_same fun _ => cut_importModules
  · exact Cut.bind_same fun _ => cut_importFrom
  · exact cut_expressionAction h

theorem cut_simpleStatement :
    Cut (Statement.Fits room (reach room + 2)) (simpleStatement inner) (simpleStatement inner') :=
  Cut.bind_same fun line => (cut_simpleAction h).bind fun _ ha => Cut.pure (ha.statement line)

theorem cut_simpleLine :
    Cut (fun ss => ∀ s ∈ ss, s.Fits room (reach room + 2))
      (simpleLine inner) (simpleLine inner') := by
  refine (cut_simpleStatement h).bind fun first hfirst =>
    (Cut.collect _ (cut_simpleStatement h)).bind fun rest hrest => Cut.bind_same fun here => ?_
  have hline : Cut (fun ss => ∀ s ∈ ss, Statement.Fits room (reach room + 2) s)
      (pure (first :: rest)) (pure (first :: rest)) :=
    Cut.pure (List.forall_mem_cons.mpr ⟨hfirst, hrest⟩)
  split
  · exact Cut.bind_same fun _ => hline
  · exact hline
  · exact hline
  · exact Cut.bind_same fun _ => hline

theorem cut_branchAction :
    Cut (Action.Fits room (reach room)) (branchAction inner) (branchAction inner') := by
  have hguarded : Cut (fun b => b.1.Fits room (reach room) ∧ FitsBlock room b.2)
      (branchAction.guarded inner) (branchAction.guarded inner') :=
    h.test.bind fun condition hcondition => h.block.bind fun body hbody =>
      Cut.pure ⟨hcondition, hbody⟩
  refine hguarded.bind fun first hfirst => (Cut.collect _ hguarded).bind fun more hmore =>
    Cut.bind_same fun hasOther => ?_
  have hbranches : ∀ b ∈ first :: more, b.1.Fits room (reach room) ∧ FitsBlock room b.2 :=
    List.forall_mem_cons.mpr ⟨hfirst, hmore⟩
  have hrest (otherwise : List Statement) (hotherwise : FitsBlock room otherwise) :
      Cut (Action.Fits room (reach room)) (pure (.branch (first :: more) otherwise))
        (pure (.branch (first :: more) otherwise)) := by
    refine Cut.pure ⟨nofun, fun e he => ?_, fun b hb => ?_⟩
    · obtain ⟨branch, hbranch, rfl⟩ := List.mem_map.mp he
      exact (hbranches branch hbranch).1.mono (Nat.le_refl _) (Nat.le_succ _)
    · rcases List.mem_cons.mp hb with rfl | hb
      · exact hotherwise
      · obtain ⟨branch, hbranch, rfl⟩ := List.mem_map.mp hb
        exact (hbranches branch hbranch).2
  exact Cut.ite (h.block.bind hrest) ((Cut.pure nofun).bind hrest)

theorem cut_loopAction :
    Cut (Action.Fits room (reach room)) (loopAction inner) (loopAction inner') := by
  refine Cut.bind_same fun targets => Cut.bind_same fun _ => (cut_testList h).bind
    fun source hsource => h.block.bind fun body hbody => Cut.pure ⟨?_, nofun, ?_⟩
  · exact List.forall_mem_singleton.mpr hsource
  · exact List.forall_mem_singleton.mpr hbody

theorem cut_parameter :
    Cut (fun parameter : Parameter => ∀ e ∈ parameter.default, e.Fits room (reach room))
      (parameter inner) (parameter inner') := by
  have hnamed : Cut (fun parameter : Parameter => ∀ e ∈ parameter.default, e.Fits room (reach room))
      (do
        let name ← identifier
        if ← eatMark .assign then return ⟨name, some (← inner.test)⟩
        else return ⟨name, none⟩)
      (do
        let name ← identifier
        if ← eatMark .assign then return ⟨name, some (← inner'.test)⟩
        else return ⟨name, none⟩) := by
    refine Cut.bind_same fun name => Cut.bind_same fun defaulted => Cut.ite ?_ (Cut.pure nofun)
    exact h.test.bind fun e he => Cut.pure fun e' he' => by cases he'; exact he
  refine Cut.bind_same fun here => ?_
  split
  · exact Cut.bind_same fun _ => hnamed
  · exact Cut.bind_same fun _ => hnamed
  · exact hnamed

theorem cut_defineAction :
    Cut (Action.Fits room (reach room)) (defineAction inner) (defineAction inner') := by
  refine Cut.bind_same fun name => Cut.bind_same fun _ => (Cut.commaList _ (cut_parameter h)).bind
    fun parameters hparameters => Cut.bind_same fun _ => h.block.bind fun body hbody =>
      Cut.pure ⟨nofun, fun e he => ?_, List.forall_mem_singleton.mpr hbody⟩
  obtain ⟨parameter, hparameter, hdefault⟩ := List.mem_filterMap.mp he
  exact (hparameters parameter hparameter e hdefault).mono (Nat.le_refl _) (Nat.le_succ _)

theorem cut_statements :
    Cut (fun ss => ∀ s ∈ ss, s.Fits room (reach room + 2))
      (statements inner) (statements inner') := by
  have hone (line : Nat) {p q : Parser Action} (hp : Cut (Action.Fits room (reach room)) p q) :
      Cut (fun ss => ∀ s ∈ ss, Statement.Fits room (reach room + 2) s)
        (do return [.at line (← p)]) (do return [.at line (← q)]) :=
    hp.bind fun a ha => Cut.pure (List.forall_mem_singleton.mpr (ha.statement line))
  refine Cut.bind_same fun line => Cut.bind_same fun here => ?_
  split
  · exact Cut.bind_same fun _ => hone line (cut_branchAction h)
  · exact Cut.bind_same fun _ => hone line (cut_loopAction h)
  · exact Cut.bind_same fun _ => hone line (cut_defineAction h)
  · exact Cut.ite (Cut.fail _) (cut_simpleLine h)
  · exact cut_simpleLine h

omit h in
/-- Statements are a block of the statement around them. -/
theorem FitsBlock.of_fits {b : List Statement} (hb : ∀ s ∈ b, s.Fits room (reach room + 2)) :
    FitsBlock (room + 1) b := by
  intro s hs t ht
  refine (hb s hs t ht).inside.mono (Nat.le_refl _) ?_
  rw [reach_succ]
  omega

theorem cut_suite : Cut (FitsBlock (room + 1)) (suite inner) (suite inner') := by
  refine Cut.bind_same fun _ => Cut.bind_same fun indented => Cut.ite ?_ ?_
  · refine Cut.bind_same fun _ => (Cut.collect _ (cut_statements h)).bind fun body hbody =>
      Cut.bind_same fun _ => Cut.pure (FitsBlock.of_fits fun s hs => ?_)
    obtain ⟨line, hline, hs⟩ := List.mem_flatten.mp hs
    exact hbody line hline s hs
  · exact (cut_simpleLine h).mono fun b hb => FitsBlock.of_fits hb

theorem cut_wholeScript :
    Cut (fun ss => ∀ s ∈ ss, s.Fits room (reach room + 2)) (wholeScript inner)
      (wholeScript inner') := by
  have hitem : Cut (fun ss => ∀ s ∈ ss, Statement.Fits room (reach room + 2) s)
      (do if ← eat .newline then return [] else statements inner)
      (do if ← eat .newline then return [] else statements inner') :=
    Cut.bind_same fun blank => Cut.ite (Cut.pure nofun) (cut_statements h)
  refine (Cut.collect _ hitem).bind fun lines hlines => Cut.pure fun s hs => ?_
  obtain ⟨line, hline, hs⟩ := List.mem_flatten.mp hs
  exact hlines line hline s hs

end Statements

/-! ## The recursion on the room -/

section Links

variable {room : Nat} {inner inner' : Inner}

/-- One link takes one unit of room, and the rest of the chain works in the room left over. -/
theorem LinkCut.deeper {node : Expr → Expr → Expr} {p q : Parser Expr} {f g : Expr → Parser Expr}
    (hlink : LinkCut room f g)
    (hnode : ∀ {depth length left right}, Expr.Fits (depth + 1) length left →
      Expr.Fits depth length right → (node left right).Fits (depth + 1) (length + 1))
    (hp : Cut (Expr.Fits (room + 1) (reach (room + 1))) p q) :
    LinkCut (room + 1) (fun left => do f (node left (← p)))
      (fun left => do g (node left (← q))) := by
  intro depth length left hdepth hlength hleft
  refine hp.bind fun right hright => ?_
  have hfits := hnode hleft (hright.mono hdepth hlength)
  -- the operand has the room of the link, the rest of the chain one unit less
  rw [reach_succ] at hlength
  refine (hlink depth (length + 1) _ (by omega) (by omega) hfits).mono fun e he => ?_
  exact he.mono (Nat.le_refl _) (by omega)

theorem cut_readTrailer (h : inner.Cut room inner') :
    LinkCut (room + 1) inner.readTrailer inner'.readTrailer := by
  intro depth length left hdepth hlength hleft
  rw [reach_succ] at hlength
  have hrest {e : Expr} (he : e.Fits (depth + 1) (length + 1)) :
      Cut (Expr.Fits (depth + 1) (length + (room + 1))) (trailers inner e) (trailers inner' e) :=
    (cut_trailers h depth (length + 1) e (by omega) (by omega) he).mono fun e he =>
      he.mono (Nat.le_refl _) (by omega)
  refine Cut.bind_same fun here => ?_
  split
  · refine Cut.bind_same fun _ => (cut_callArguments h).bind fun arguments harguments => ?_
    exact hrest (Expr.fits_call hleft fun a ha => (harguments a ha).mono (by omega) (by omega))
  · have hindex : Cut (Expr.Fits (depth + 1) (length + (room + 1)))
        (do
          let index ← testList inner
          if ← at? (.mark .colon) then fail .slice
          expectMark .rightBracket
          trailers inner (.subscript left index))
        (do
          let index ← testList inner'
          if ← at? (.mark .colon) then fail .slice
          expectMark .rightBracket
          trailers inner' (.subscript left index)) := by
      refine (cut_testList h).bind fun index hindex => Cut.bind_same fun sliced => ?_
      have hfits := hrest (e := .subscript left index)
        (Expr.fits_link rfl hleft (hindex.fits.mono (by omega) (by omega)))
      have hclosed := Cut.bind_same (p := expectMark .rightBracket) fun _ => hfits
      exact Cut.ite (Cut.bind_same fun _ => hclosed) hclosed
    exact Cut.bind_same fun _ => Cut.bind_same fun sliced =>
      Cut.ite (Cut.bind_same fun _ => hindex) hindex
  · exact Cut.bind_same fun _ => Cut.bind_same fun name => hrest (Expr.fits_attribute hleft)

end Links

namespace Inner

theorem cut_exhausted (inner : Inner) : Cut 0 exhausted inner where
  test := .exhausted _
  negation := .exhausted _
  factor := .exhausted _
  orLink _ _ _ _ _ _ := .exhausted _
  andLink _ _ _ _ _ _ := .exhausted _
  compareLink _ _ _ _ _ _ _ := .exhausted _
  sumLink _ _ _ _ _ _ _ := .exhausted _
  productLink _ _ _ _ _ _ _ := .exhausted _
  trailer _ _ _ _ _ _ := .exhausted _
  block := .exhausted _
  clause := .exhausted _

variable {room : Nat} {inner inner' : Inner}

theorem cut_deeper (h : inner.Cut room inner') (hroom : room ≤ maxNesting) :
    inner.deeper.Cut (room + 1) inner'.deeper := by
  -- every operand is shorter than an expression with its conditions
  have hshort {length : Nat} {p q : Parser Expr} (hp : Parser.Cut (Expr.Fits (room + 1) length) p q)
      (hlength : length ≤ reach room + 6 * room + 2) :
      Parser.Cut (Expr.Fits (room + 1) (reach (room + 1))) p q :=
    hp.mono fun e he => he.mono (Nat.le_refl _) hlength
  constructor
  case test => exact cut_conditional h hroom
  case negation => exact hshort (cut_negation h hroom) (by omega)
  case factor => exact hshort (cut_factor h hroom) (by omega)
  case orLink =>
    exact (cut_orTail h).deeper (Expr.fits_link rfl) (hshort (cut_conjunction h hroom) (by omega))
  case andLink =>
    exact (cut_andTail h).deeper (Expr.fits_link rfl) (hshort (cut_negation h hroom) (by omega))
  case compareLink =>
    exact fun op => (cut_compareTail h).deeper (Expr.fits_link rfl)
      (hshort (cut_sum h hroom) (by omega))
  case sumLink =>
    exact fun op => (cut_sumTail h).deeper (Expr.fits_link rfl)
      (hshort (cut_product h hroom) (by omega))
  case productLink =>
    exact fun op => (cut_productTail h).deeper (Expr.fits_link rfl)
      (hshort (cut_factor h hroom) (by omega))
  case trailer => exact cut_readTrailer h
  case block => exact cut_suite h
  case clause => exact .fail _

theorem cut_withClauses (h : inner.Cut room inner') (hroom : room ≤ maxNesting) (n : Nat) :
    (inner.withClauses n).Cut room (inner'.withClauses n) := by
  induction n with
  | zero => exact { h with clause := .fail _ }
  | succ n ih => exact { h with clause := cut_disjunction ih hroom }

/-- The parsers with some room are those with more room, cut short. -/
theorem cut_ofRoom (tokens : Nat) {room room' : Nat} (hle : room ≤ room')
    (hroom : room ≤ maxNesting) : (ofRoom tokens room).Cut room (ofRoom tokens room') := by
  induction room generalizing room' with
  | zero => exact cut_exhausted _
  | succ room ih =>
    cases room' with
    | zero => omega
    | succ room' =>
      exact cut_withClauses (cut_deeper (ih (by omega) (by omega)) (by omega)) hroom tokens

end Inner

end Monorepo.Script
