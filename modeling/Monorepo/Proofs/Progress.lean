import Monorepo.Proofs.Strata

/-!
# Progress

Every routine of a descent mirrors its parser: the routines that read statements do as long as those
that they begin do, and by induction on the tokens that are left and on the level of the grammar all
of them do, since what a routine begins descends. So on a stream that ends with the end of the input
a descent halts for a fault of the text only. It never reads a token that is not there, never leaves
a level that is not open, never turns a loop without taking a token, and never begins a routine in a
circle.
-/

namespace Monorepo.Script

open Monorepo.Script.Parser

variable {n d : Nat}

namespace Descent

variable {tokens : List Token} {call : {α : Type} → Routine α → Descent α}
variable {i j level : Nat}

/-! ### Targets -/

theorem mirrors_mapM {α β : Type} {f : α → Descent β} {g : α → Parser β}
    (h : ∀ a, Mirrors tokens ⟨i, d⟩ d (fun _ j => j = i) (f a) (g a)) (as : List α) :
    Mirrors tokens ⟨i, d⟩ d (fun _ j => j = i) (as.mapM f) (as.mapM g) := by
  induction as with
  | nil => exact .pure rfl
  | cons a as ih =>
    rw [List.mapM_cons, List.mapM_cons]
    refine (h a).bind fun b j _ hj => ?_
    subst hj
    exact ih.bind fun bs k _ hk => .pure hk

/-- The name that an item of an unpacked target is. -/
def unpackedName : Expr → Parser String
  | .name name => pure name
  | _ => Parser.fail .unpackTarget

theorem mirrors_targetName (e : Expr) :
    Mirrors tokens ⟨i, d⟩ d (fun _ j => j = i) (targetName e) (unpackedName e) := by
  cases e with
  | name name => exact .pure rfl
  | _ => exact .fail (by simp) (Nat.le_refl d)

theorem mirrors_assignTarget (e : Expr) :
    Mirrors tokens ⟨i, d⟩ d (fun _ j => j = i) (assignTarget e) (Script.assignTarget e) := by
  cases e with
  | name name => exact .pure rfl
  | tuple items => exact (mirrors_mapM mirrors_targetName items).bind fun names j _ hj => .pure hj
  | list items => exact (mirrors_mapM mirrors_targetName items).bind fun names j _ hj => .pure hj
  | «attribute» object name => exact .pure rfl
  | subscript object index => exact .pure rfl
  | _ => exact .fail (by simp) (Nat.le_refl d)

/-! ### Imports -/

section Imports

variable (hend : EndsInFinish tokens)
include hend

theorem mirrors_dottedName :
    Mirrors tokens ⟨i, d⟩ d (fun _ j => i < j) dottedName Script.dottedName := by
  refine (mirrors_identifier hend).bind fun first j _ hij => ?_
  have hrest : Mirrors tokens ⟨j, d⟩ d (fun _ _ => True)
      (whileMore (eatMark .dot) identifier) (collect (Parser.eatMark .dot) Script.identifier) :=
    .whileMore (R := fun i j => i < j) (fun k _ => Mirrors.eatMark hend)
      fun k l _ hkl _ => (mirrors_identifier hend).mono fun _ _ _ => Nat.lt_of_le_of_lt hkl
  exact hrest.bind fun rest k hjk _ => .pure (Nat.lt_of_lt_of_le hij hjk)

theorem mirrors_importEntry :
    Mirrors tokens ⟨i, d⟩ d (fun _ j => i < j) importEntry Script.importEntry := by
  refine (mirrors_dottedName hend).bind fun path j _ hij => (Mirrors.eatKeyword hend).bind ?_
  intro renamed k hjk _
  refine .ite (fun _ => ?_) fun _ => .pure (Nat.lt_of_lt_of_le hij hjk)
  exact (mirrors_identifier hend).bind fun name l _ hkl => .pure (by omega)

theorem mirrors_importModules :
    Mirrors tokens ⟨i, d⟩ d (fun _ j => i < j) importModules Script.importModules := by
  have hmodel : Script.importModules = (do
      let first ← Script.importEntry
      return first :: (← collect (Parser.eatMark .comma) Script.importEntry) : Parser _) >>=
        fun modules => return .imports modules := by
    simp [Script.importModules]
  rw [hmodel]
  have hmodules := Mirrors.itemsWhile (fun j (_ : i ≤ j) => mirrors_importEntry hend (d := d))
    fun j _ => (Mirrors.eatMark hend (m := .comma)).mono fun _ _ _ _ => trivial
  exact hmodules.bind fun modules j _ hij => .pure hij

theorem mirrors_importedName (origin : String) :
    Mirrors tokens ⟨i, d⟩ d (fun _ j => i < j) (importedName origin)
      (Script.importedName origin) := by
  refine (mirrors_identifier hend).bind fun name j _ hij => (Mirrors.eatKeyword hend).bind ?_
  intro renamed k hjk _
  refine .ite (fun _ => ?_) fun _ => .pure (Nat.lt_of_lt_of_le hij hjk)
  exact (mirrors_identifier hend).bind fun bound l _ hkl => .pure (by omega)

theorem mirrors_importNames (origin : String) :
    Mirrors tokens ⟨i, d⟩ d (fun _ j => i < j) (importNames origin)
      (do
        Parser.expectKeyword "import"
        if ← Parser.eatMark .star then return .imports []
        let parenthesized ← Parser.eatMark .leftParen
        let stop : Parser Bool := do return parenthesized && (← Parser.at? (.mark .rightParen))
        let bindings ← commaList stop (Script.importedName origin)
        if parenthesized then Parser.expectMark .rightParen
        return .imports bindings) := by
  refine (Mirrors.expectKeyword hend).bind fun _ j _ hij => (Mirrors.eatMark hend).bind ?_
  refine fun star k hjk _ => .ite (fun _ => .pure (Nat.lt_of_lt_of_le hij hjk)) fun _ => ?_
  refine (Mirrors.eatMark hend).bind fun parenthesized l hkl _ => ?_
  have hbindings : Mirrors tokens ⟨l, d⟩ d (fun _ _ => True)
      (commaItems (do return parenthesized && (← at? (.mark .rightParen))) (importedName origin))
      (commaList (do return parenthesized && (← Parser.at? (.mark .rightParen)))
        (Script.importedName origin)) :=
    .commaItems hend (fun m _ => mirrors_importedName hend origin)
      fun m _ => .at? fun _ _ => .pure trivial
  refine hbindings.bind fun bindings m hlm _ => ?_
  refine .ite (fun _ => ?_) fun _ => .pure (by omega)
  exact (Mirrors.expectMark hend).bind fun _ o _ hmo => .pure (by omega)

theorem mirrors_importFrom :
    Mirrors tokens ⟨i, d⟩ d (fun _ j => i < j) importFrom Script.importFrom := by
  have hdots : Mirrors tokens ⟨i, d⟩ d (fun _ _ => True)
      (whileMore (eatMark .dot) (pure '.')) (collect (Parser.eatMark .dot) (pure '.')) :=
    .whileMore (R := fun i j => i < j) (fun j _ => Mirrors.eatMark hend)
      fun j k _ _ hjk => .pure hjk
  refine hdots.bind fun dots j hij _ => .at? fun _ _ => .ite (fun _ => ?_) fun _ => ?_
  · exact (mirrors_importNames hend _).mono fun _ k _ hjk => Nat.lt_of_le_of_lt hij hjk
  · refine (mirrors_dottedName hend).bind fun path k _ hjk => ?_
    exact (mirrors_importNames hend _).mono fun _ l _ hkl => by omega

end Imports

/-! ### Statements -/

section Statements

variable (hend : EndsInFinish tokens) (hbegins : Begins tokens call i level)
variable (hn : tokens.length - i ≤ n) (hd : d ≤ maxNesting)
include hend hbegins hn hd

omit hend in
theorem mirrors_augment (hij : i ≤ j) (hlevel : Routine.testList.level < level)
    (op : ArithmeticOp) (e : Expr) : Mirrors tokens ⟨j, d⟩ d (fun _ _ => True)
      (augment call op e) (Script.expressionAction.augment (innerAt tokens.length n d) op e) := by
  cases e with
  | name name => exact (begins_lower hbegins hn hd hij hlevel).bind fun _ _ _ _ => .pure trivial
  | _ => exact .fail nofun (Nat.le_refl d)

theorem mirrors_expressionAction (hlevel : Routine.testList.level < level) :
    Mirrors tokens ⟨i, d⟩ d (fun _ j => i < j) (expressionAction call)
      (Script.expressionAction (innerAt tokens.length n d)) := by
  refine (begins_lower hbegins hn hd (Nat.le_refl i) hlevel).bind fun e j _ hij => ?_
  have haugment (op : ArithmeticOp) :=
    (mirrors_augment hbegins hn hd (j := j + 1) (by omega) hlevel op e).mono
      fun _ k hjk _ => Nat.lt_of_lt_of_le (Nat.lt_succ_of_lt hij) hjk
  refine .peek fun t ht => ?_
  obtain ⟨lexeme, position⟩ := t
  cases lexeme with
  | mark m =>
    cases m with
    | assign =>
      refine .advance hend ht (Lexeme.mark_ne_finish _) ?_
      refine (begins_later hbegins hn hd (j := j + 1) (by omega)).bind fun value k hjk _ => ?_
      have hmore : Mirrors tokens ⟨k, d⟩ d (fun _ _ => True)
          (whileMore (eatMark .assign) (call .testList))
          (collect (Parser.eatMark .assign) (Script.testList (innerAt tokens.length n d))) :=
        .whileMore (R := fun i j => i < j) (fun l _ => Mirrors.eatMark hend) fun l m _ _ hlm =>
          (begins_later hbegins hn hd (j := m) (by omega)).mono fun _ _ _ => Nat.lt_trans hlm
      refine hmore.bind fun more l hkl _ => .ite (fun _ => ?_) fun _ => .fail_bind nofun
      exact (mirrors_assignTarget e).bind fun target m _ hm => .pure (by omega)
    | plusAssign => exact .advance hend ht (Lexeme.mark_ne_finish _) (haugment .add)
    | minusAssign => exact .advance hend ht (Lexeme.mark_ne_finish _) (haugment .subtract)
    | _ => exact .pure hij
  | _ => exact .pure hij

theorem mirrors_simpleAction (hlevel : Routine.testList.level < level) :
    Mirrors tokens ⟨i, d⟩ d (fun _ j => i < j) (simpleAction call)
      (Script.simpleAction (innerAt tokens.length n d)) := by
  have hnext : i < i + 1 := Nat.lt_succ_self i
  refine .peek fun t ht => ?_
  obtain ⟨lexeme, position⟩ := t
  by_cases hpass : lexeme = .name "pass"
  · subst hpass
    exact .advance hend ht (Lexeme.name_ne_finish _) (.pure hnext)
  by_cases hbreak : lexeme = .name "break"
  · subst hbreak
    exact .advance hend ht (Lexeme.name_ne_finish _) (.pure hnext)
  by_cases hcontinue : lexeme = .name "continue"
  · subst hcontinue
    exact .advance hend ht (Lexeme.name_ne_finish _) (.pure hnext)
  by_cases hreturn : lexeme = .name "return"
  · subst hreturn
    refine .advance hend ht (Lexeme.name_ne_finish _) (.peek fun t _ => ?_)
    obtain ⟨lexeme, position⟩ := t
    have hvalue : Mirrors tokens ⟨i + 1, d⟩ d (fun _ j => i < j)
        (do return Action.give (some (← call .testList)))
        (do return Action.give (some (← Script.testList (innerAt tokens.length n d)))) :=
      (begins_later hbegins hn hd hnext).bind fun value j _ hij => .pure (Nat.lt_of_succ_lt hij)
    cases lexeme with
    | newline | finish => exact .pure hnext
    | mark m =>
      cases m with
      | semicolon => exact .pure hnext
      | _ => exact hvalue
    | _ => exact hvalue
  by_cases himport : lexeme = .name "import"
  · subst himport
    exact .advance hend ht (Lexeme.name_ne_finish _)
      ((mirrors_importModules hend).mono fun _ j _ => Nat.lt_of_succ_lt)
  by_cases hfrom : lexeme = .name "from"
  · subst hfrom
    exact .advance hend ht (Lexeme.name_ne_finish _)
      ((mirrors_importFrom hend).mono fun _ j _ => Nat.lt_of_succ_lt)
  simp only
  exact mirrors_expressionAction hend hbegins hn hd hlevel

omit hend in
theorem mirrors_simpleStatement (hij : i ≤ j) (hlevel : Routine.simpleAction.level < level) :
    Mirrors tokens ⟨j, d⟩ d (fun _ k => j < k) (simpleStatement call)
      (Script.simpleStatement (innerAt tokens.length n d)) := by
  refine .line fun t _ => (begins_lower hbegins hn hd hij hlevel).bind fun action k _ hjk => ?_
  exact .pure hjk

/-- The end of a line of statements. -/
def endOfLine (body : List Statement) : Parser (List Statement) := do
  match ← Parser.peek with
  | .newline => Parser.advance
  | .finish | .dedent => pure ()
  | _ => Parser.unexpected .endOfStatement
  return body

theorem mirrors_simpleLine (hlevel : Routine.simpleAction.level < level) :
    Mirrors tokens ⟨i, d⟩ d (fun _ j => i < j) (simpleLine call)
      (Script.simpleLine (innerAt tokens.length n d)) := by
  have hmore (j : Nat) : Mirrors tokens ⟨j, d⟩ d (fun _ _ => True)
      (do
        if ← eatMark .semicolon then return !((← at? .newline) || (← at? .finish))
        else return false)
      (do
        if ← Parser.eatMark .semicolon then
          return !((← Parser.at? .newline) || (← Parser.at? .finish))
        else return false) := by
    refine (Mirrors.eatMark hend).bind fun _ _ _ _ => .ite (fun _ => ?_) fun _ => .pure trivial
    exact .at? fun _ _ => .at? fun _ _ => .pure trivial
  have hitems := Mirrors.itemsWhile (fun j (hij : i ≤ j) =>
    mirrors_simpleStatement hbegins hn hd hij hlevel) fun j _ => hmore j
  have hmodel : Script.simpleLine (innerAt tokens.length n d) = (do
      let first ← Script.simpleStatement (innerAt tokens.length n d)
      let more : Parser Bool := do
        if ← Parser.eatMark .semicolon then
          return !((← Parser.at? .newline) || (← Parser.at? .finish))
        else return false
      return first :: (← collect more (Script.simpleStatement (innerAt tokens.length n d)))
      : Parser _) >>= endOfLine := by
    unfold Script.simpleLine
    rw [bind_assoc]
    refine bind_congr fun first => ?_
    rw [bind_assoc]
    refine bind_congr fun rest => ?_
    exact (pure_bind _ _).symm
  rw [hmodel]
  refine hitems.bind fun body j _ hij => .peek fun t ht => ?_
  obtain ⟨lexeme, position⟩ := t
  cases lexeme with
  | newline => exact .advance hend ht Lexeme.newline_ne_finish (.pure (Nat.lt_succ_of_lt hij))
  | finish | dedent => exact .pure hij
  | _ => exact (Mirrors.unexpected (Nat.le_refl d)).bind (Q := fun _ _ => False) (by simp)

omit hend in
theorem mirrors_guarded (hij : i ≤ j) (hlevel : Routine.block.level < level) :
    Mirrors tokens ⟨j, d⟩ d (fun _ k => j < k) (guarded call)
      (Script.branchAction.guarded (innerAt tokens.length n d)) := by
  have htest : Mirrors tokens ⟨j, d⟩ d (fun _ k => j < k) (call .test)
      (innerAt tokens.length n d).test :=
    begins_lower hbegins hn hd hij (Nat.lt_trans (by decide) hlevel)
  refine htest.bind fun condition k _ hjk => ?_
  refine (begins_later hbegins hn hd (j := k) (by omega)).bind fun body l hkl _ => ?_
  exact .pure (Nat.lt_of_lt_of_le hjk hkl)

theorem mirrors_branchAction (hlevel : Routine.block.level < level) :
    Mirrors tokens ⟨i, d⟩ d (fun _ j => i < j) (branchAction call)
      (parserOf (innerAt tokens.length n d) .branchAction) := by
  refine .step fun j hij => ?_
  refine (mirrors_guarded hbegins hn hd hij hlevel).bind fun first k _ hjk => ?_
  have hmore : Mirrors tokens ⟨k, d⟩ d (fun _ _ => True)
      (whileMore (eatKeyword "elif") (guarded call))
      (collect (Parser.eatKeyword "elif")
        (Script.branchAction.guarded (innerAt tokens.length n d))) :=
    .whileMore (R := fun i j => i < j) (fun l _ => Mirrors.eatKeyword hend) fun l m _ _ hlm =>
      (mirrors_guarded hbegins hn hd (j := m) (by omega) hlevel).mono
        fun _ _ _ => Nat.lt_trans hlm
  refine hmore.bind fun more l hkl _ => ?_
  refine (Mirrors.eatKeyword hend).bind fun otherwise m hlm _ => .ite (fun _ => ?_) fun _ => ?_
  · refine (begins_later hbegins hn hd (j := m) (by omega)).bind fun body o hmo _ => ?_
    exact .pure (by omega)
  · exact .pure (by omega)

theorem mirrors_loopAction :
    Mirrors tokens ⟨i, d⟩ d (fun _ j => i < j) (loopAction call)
      (parserOf (innerAt tokens.length n d) .loopAction) := by
  refine .step fun j hij => (mirrors_loopTargets hend).bind fun targets k _ hjk => ?_
  refine (Mirrors.expectKeyword hend).bind fun _ l hkl _ => ?_
  refine (begins_later hbegins hn hd (j := l) (by omega)).bind fun source m hlm _ => ?_
  refine (begins_later hbegins hn hd (j := m) (by omega)).bind fun body o hmo _ => ?_
  exact .pure (by omega)

theorem mirrors_parameter (hij : i ≤ j) :
    Mirrors tokens ⟨j, d⟩ d (fun _ k => j < k) (parameter call)
      (Script.parameter (innerAt tokens.length n d)) := by
  have hplain : Mirrors tokens ⟨j, d⟩ d (fun _ k => j < k)
      (do
        let name ← identifier
        if ← eatMark .assign then return Parameter.mk name (some (← call .test))
        else return Parameter.mk name none)
      (do
        let name ← Script.identifier
        if ← Parser.eatMark .assign then
          return Parameter.mk name (some (← (innerAt tokens.length n d).test))
        else return Parameter.mk name none) := by
    refine (mirrors_identifier hend).bind fun name k _ hjk => ?_
    refine (Mirrors.eatMark hend).bind fun given l hkl _ => .ite (fun _ => ?_) fun _ => ?_
    · refine (begins_later hbegins hn hd (j := l) (by omega)).bind fun value m hlm _ => ?_
      exact .pure (by omega)
    · exact .pure (Nat.lt_of_lt_of_le hjk hkl)
  refine .peek fun t ht => ?_
  obtain ⟨lexeme, position⟩ := t
  cases lexeme with
  | mark m =>
    cases m with
    | star | doubleStar => exact .fail_bind nofun
    | _ => exact hplain
  | _ => exact hplain

theorem mirrors_defineAction :
    Mirrors tokens ⟨i, d⟩ d (fun _ j => i < j) (defineAction call)
      (parserOf (innerAt tokens.length n d) .defineAction) := by
  refine .step fun j hij => (mirrors_identifier hend).bind fun name k _ hjk => ?_
  refine (Mirrors.expectMark hend).bind fun _ l hkl _ => ?_
  have hparameters : Mirrors tokens ⟨l, d⟩ d (fun _ _ => True)
      (commaItems (at? (.mark .rightParen)) (parameter call))
      (commaList (Parser.at? (.mark .rightParen))
        (Script.parameter (innerAt tokens.length n d))) :=
    .commaItems hend (fun m hlm => mirrors_parameter hend hbegins hn hd (by omega))
      fun m _ => Mirrors.test
  refine hparameters.bind fun parameters m hlm _ => ?_
  refine (Mirrors.expectMark hend).bind fun _ o hmo _ => ?_
  refine (begins_later hbegins hn hd (j := o) (by omega)).bind fun body q hoq _ => ?_
  exact .pure (by omega)

omit hend in
theorem mirrors_statements (hlevel : Routine.simpleLine.level < level) :
    Mirrors tokens ⟨i, d⟩ d (fun _ j => i < j) (statements call)
      (Script.statements (innerAt tokens.length n d)) := by
  have hcompound {r : Routine Action} {p : Parser Action} {line : Nat}
      (hparser : parserOf (innerAt tokens.length n d) r = do Parser.advance; p)
      (hr : r.level < level) : Mirrors tokens ⟨i, d⟩ d (fun _ j => i < j)
        (do return [Statement.at line (← call r)])
        (do
          Parser.advance
          return [Statement.at line (← p)]) := by
    have haction : (do
        Parser.advance
        return [.at line (← p)] : Parser (List Statement)) =
        parserOf (innerAt tokens.length n d) r >>= fun action => return [.at line action] := by
      rw [hparser, bind_assoc]
    rw [haction]
    refine (begins_lower hbegins hn hd (Nat.le_refl i) hr).bind fun action j _ hij => ?_
    exact .pure hij
  have hline : Mirrors tokens ⟨i, d⟩ d (fun _ j => i < j) (call .simpleLine)
      (Script.simpleLine (innerAt tokens.length n d)) :=
    begins_lower hbegins hn hd (Nat.le_refl i) hlevel
  have hlower : Routine.loopAction.level < level := Nat.lt_trans (by decide) hlevel
  refine .line fun t _ => .peek fun t ht => ?_
  obtain ⟨lexeme, position⟩ := t
  cases lexeme with
  | name name =>
    by_cases hif : name = "if"
    · subst hif
      exact hcompound (r := .branchAction) rfl hlower
    by_cases hfor : name = "for"
    · subst hfor
      exact hcompound (r := .loopAction) rfl hlower
    by_cases hdef : name = "def"
    · subst hdef
      exact hcompound (r := .defineAction) rfl hlower
    simp only
    exact .ite (fun _ => .fail (by simp) (Nat.le_refl d)) fun _ => hline
  | _ => exact hline

theorem mirrors_suite :
    Mirrors tokens ⟨i, d⟩ d (fun _ j => i < j) (suite call)
      (Script.suite (innerAt tokens.length n d)) := by
  refine (Mirrors.expectMark hend).bind fun _ j _ hij => ?_
  have hnewline := Lexeme.newline_ne_finish
  have hindent : Lexeme.indent ≠ .finish := nofun
  have hdedent : Lexeme.dedent ≠ .finish := nofun
  refine (Mirrors.eat hend hnewline).bind fun below k hjk _ => .ite (fun _ => ?_) fun _ => ?_
  · refine (Mirrors.expect hend hindent).bind fun _ l hkl _ => ?_
    have hbody : Mirrors tokens ⟨l, d⟩ d (fun _ _ => True)
        (whileMore (do return !((← at? .dedent) || (← at? .finish))) (call .statements))
        (collect (do return !((← Parser.at? .dedent) || (← Parser.at? .finish)))
          (Script.statements (innerAt tokens.length n d))) := by
      refine .whileMore (R := fun i j => i ≤ j) (fun m _ => ?_) fun m o _ hmo _ => ?_
      · exact .at? fun _ _ => .at? fun _ _ => .pure fun _ => Nat.le_refl m
      · exact (begins_later hbegins hn hd (j := o) (by omega)).mono
          fun _ _ _ => Nat.lt_of_le_of_lt hmo
    refine hbody.bind fun body m hlm _ => ?_
    exact (Mirrors.eat hend hdedent).bind fun _ o hmo _ => .pure (by omega)
  · exact (begins_later hbegins hn hd (j := k) (by omega)).mono fun _ _ hkl _ => by omega

end Statements

/-- What a routine does mirrors its parser. -/
theorem mirrors_body {α : Type} (r : Routine α) (hend : EndsInFinish tokens)
    (hbegins : Begins tokens call i r.level) (hn : tokens.length - i ≤ n) (hd : d ≤ maxNesting) :
    Mirrors tokens ⟨i, d⟩ d (fun _ j => i < j) (body call r)
      (parserOf (innerAt tokens.length n d) r) := by
  cases r with
  | statements => exact mirrors_statements hbegins hn hd (by decide)
  | simpleLine => exact mirrors_simpleLine hend hbegins hn hd (by decide)
  | simpleAction => exact mirrors_simpleAction hend hbegins hn hd (by decide)
  | branchAction => exact mirrors_branchAction hend hbegins hn hd (by decide)
  | loopAction => exact mirrors_loopAction hend hbegins hn hd
  | defineAction => exact mirrors_defineAction hend hbegins hn hd
  | block =>
    change Mirrors _ _ _ _ _ (innerAt tokens.length n d).block
    rw [innerAt_block]
    exact begins_nested hbegins (Or.inr ⟨rfl, by decide⟩)
  | suite => exact mirrors_suite hend hbegins hn hd
  | testList => exact mirrors_testList hend hbegins hn hd (by decide)
  | test =>
    change Mirrors _ _ _ _ _ (innerAt tokens.length n d).test
    rw [innerAt_test]
    exact begins_nested hbegins (Or.inr ⟨rfl, by decide⟩)
  | conditional => exact mirrors_conditional hend hbegins hn hd (by decide)
  | disjunction => exact mirrors_disjunction hend hbegins hn hd (by decide)
  | conjunction => exact mirrors_conjunction hend hbegins hn hd (by decide)
  | negation => exact mirrors_negation hend hbegins hn hd (by decide)
  | comparison => exact mirrors_comparison hend hbegins hn hd (by decide)
  | sum => exact mirrors_sum hend hbegins hn hd (by decide)
  | product => exact mirrors_product hend hbegins hn hd (by decide)
  | factor => exact mirrors_factor hend hbegins hn hd (by decide)
  | primary => exact mirrors_primary hend hbegins hn hd (by decide)
  | callArguments => exact mirrors_callArguments hend hbegins hn hd (by decide)
  | atom => exact mirrors_atom hend hbegins hn hd

end Descent

/-! ## Runs -/

open Descent (Mirrors Begins)

variable {tokens : List Token}

/-- A routine mirrors its parser: what it begins descends, so that its check always passes. -/
theorem Routine.mirrors_run {α : Type} (r : Routine α) (hend : EndsInFinish tokens) {i n d : Nat}
    (hn : tokens.length - i ≤ n) (hd : d ≤ maxNesting) :
    Mirrors tokens ⟨i, d⟩ d (fun _ j => i < j) r.run (parserOf (innerAt tokens.length n d) r) := by
  intro c hc
  have hlt := hc.lt_length
  rw [Routine.run]
  refine Descent.mirrors_body r hend (fun next j n' d' hnext hn' hd' c' hc' => ?_) hn hd c hc
  -- The index is in range, so that a token that is taken leaves fewer of them.
  have hbelow : Descent.Below (tokens.length - j, next.level) (tokens.length - i, r.level) := by
    rcases hnext with hij | ⟨rfl, hlevel⟩
    · exact Or.inl (by dsimp only at hlt ⊢; omega)
    · exact Or.inr ⟨rfl, hlevel⟩
  dsimp only
  rw [if_pos hbelow]
  exact mirrors_run next hend hn' hd' c' hc'
termination_by (tokens.length - i, r.level)
decreasing_by exact Prod.lex_def.mpr hbelow

/-- What is left of a script behind the statements `done`, as long as there are tokens to pay for
it. -/
def restOfScript (inner : Inner) (budget : List Token) (done : List Statement) :
    Parser (List Statement) := do
  let item : Parser (List Statement) := do
    if ← Parser.eat .newline then return [] else statements inner
  return done ++ (← collectWithin (do return !(← Parser.at? .finish)) item budget []).flatten

/-- The rest of a script is an empty line or a statement, and the rest behind it. -/
theorem restOfScript_cons (inner : Inner) (token : Token) (budget : List Token)
    (done : List Statement) :
    restOfScript inner (token :: budget) done =
      (do
        match ← Parser.peek with
        | .finish => return .inr done
        | .newline =>
          Parser.advance
          return .inl done
        | _ => return .inl (done ++ (← statements inner)) :
          Parser (List Statement ⊕ List Statement)) >>=
        Sum.elim (restOfScript inner budget) Pure.pure := by
  funext c
  have hpeek {β : Type} {f : Lexeme → Parser β} :
      (Parser.peek >>= f) c = f c.here.lexeme c := rfl
  have hat {β : Type} {lexeme : Lexeme} {f : Bool → Parser β} :
      (Parser.at? lexeme >>= f) c = f (decide (c.here.lexeme = lexeme)) c := rfl
  unfold restOfScript
  rw [Parser.collectWithin]
  simp only [Parser.collectWithin_append _ _ budget [_], bind_assoc]
  rw [hpeek, hat, Parser.eat, bind_assoc]
  cases hhere : c.here.lexeme with
  | finish => simp
  | _ => simp [hat, hhere]

/-- A whole script mirrors its parser. -/
theorem mirrors_script (hend : EndsInFinish tokens) :
    Mirrors tokens ⟨0, 0⟩ 0 (fun _ _ => True) Descent.script
      (wholeScript (innerAt tokens.length tokens.length 0)) := by
  intro c hc
  have hrest : Mirrors tokens ⟨0, 0⟩ 0 (fun _ _ => True) (Descent.turns Descent.scriptTurn [])
      (restOfScript (innerAt tokens.length tokens.length 0) c.tokens []) := by
    refine .loop (P := fun i r j => r.isLeft = true → i < j) (R := fun _ _ _ => True)
      (restOfScript_cons (innerAt tokens.length tokens.length 0)) (fun i done _ => ?_)
      (fun i y j hij => ⟨hij rfl, fun _ _ _ => trivial⟩) (fun _ _ _ _ => trivial)
      (Nat.zero_le 0) (Nat.le_of_eq hc.length_tokens.symm)
    have hstatements :=
      Routine.statements.mirrors_run hend (Nat.sub_le tokens.length i) (Nat.zero_le _)
    refine .peek fun t ht => ?_
    obtain ⟨lexeme, position⟩ := t
    cases lexeme with
    | finish => exact .pure nofun
    | newline =>
      exact .advance hend ht Lexeme.newline_ne_finish (.pure fun _ => Nat.lt_succ_self i)
    | _ => exact hstatements.bind fun _ _ _ hij => .pure fun _ => hij
  exact hrest c hc

/-- A routine does what its text says: what it begins is never held up by the check that it
descends. -/
theorem Routine.run_body {α : Type} (r : Routine α) (hend : EndsInFinish tokens) {s : Place}
    (hs : s.index < tokens.length) (hdepth : s.depth ≤ maxNesting) :
    (r.run tokens s).1 = (Descent.body (fun next => next.run) r tokens s).1 := by
  have hbegins : Begins tokens (fun next => next.run) s.index r.level :=
    fun next _ _ _ _ hn hd => next.mirrors_run hend hn hd
  have hbody := Descent.mirrors_body r hend hbegins (Nat.sub_le tokens.length s.index) hdepth
  have hrun := r.mirrors_run hend (Nat.sub_le tokens.length s.index) hdepth
  exact hrun.result_unique hbody (Cursor.isAt_of_getElem? (List.getElem?_eq_getElem hs))

/-- Wherever a routine begins in a stream that ends with the end of the input, it gives a result
behind the token where it began and leaves every level that it opened, or it fails with a fault of
the text; and the machine reads the same script as the grammar, or fails in the same way. So it
reads no token that is not there, leaves no level that is not open, turns no loop in vain and
begins no routine in a circle. -/
theorem parseTokens_descends (hend : EndsInFinish tokens) :
    (∀ {α : Type} (r : Routine α) (s : Place),
      s.index < tokens.length → s.depth ≤ maxNesting →
        (∃ a i, r.run tokens s = (.ok a, ⟨i, s.depth⟩) ∧ s.index < i ∧ i < tokens.length) ∨
        ∃ e s', r.run tokens s = (.error (.fault e), s') ∧ s.depth ≤ s'.depth ∧
          e.fault ≠ .stalled) ∧
    ((∃ statements i, Descent.script tokens ⟨0, 0⟩ = (.ok statements, ⟨i, 0⟩) ∧
        parseTokens tokens = .ok statements) ∨
      ∃ e s', Descent.script tokens ⟨0, 0⟩ = (.error (.fault e), s') ∧
        parseTokens tokens = .error e ∧ e.fault ≠ .stalled) := by
  constructor
  · intro α r s hs hdepth
    have hc := Cursor.isAt_of_getElem? (List.getElem?_eq_getElem hs)
    rcases r.mirrors_run hend (Nat.sub_le _ _) hdepth _ hc with
      ⟨a, c', i, -, hrun, hc', -, hlt⟩ | ⟨e, s', -, hrun, hle, hgenuine⟩
    · exact Or.inl ⟨a, i, hrun, hlt, hc'.lt_length⟩
    · exact Or.inr ⟨e, s', hrun, hle, hgenuine⟩
  · cases tokens with
    | nil =>
      obtain ⟨t, ht, -⟩ := hend
      cases ht
    | cons here ahead =>
      have hparse : parseTokens (here :: ahead) =
          (wholeScript (innerAt (ahead.length + 1) (ahead.length + 1) 0) ⟨here, ahead⟩).map
            (·.1) := by
        rw [← ofRoom_eq_innerAt (Nat.zero_le maxNesting)]
        rfl
      rw [hparse]
      rcases mirrors_script hend ⟨here, ahead⟩ rfl with
        ⟨statements, c', i, hp, hscript, -⟩ | ⟨e, s', hp, hscript, -, hgenuine⟩
      · exact Or.inl ⟨statements, i, hscript, congrArg _ hp⟩
      · exact Or.inr ⟨e, s', hscript, congrArg _ hp, hgenuine⟩

/-- No text has these tokens: the machine stops at the end of the input, though tokens follow. -/
theorem parseTokens_descends_finished :
    let tokens := [⟨.name "a", ⟨1, 1⟩⟩, ⟨.finish, ⟨1, 2⟩⟩, ⟨.mark .rightParen, ⟨1, 3⟩⟩,
      ⟨.finish, ⟨1, 4⟩⟩]
    EndsInFinish tokens ∧
      ∃ i, Descent.script tokens ⟨0, 0⟩ = (.ok [.at 1 (.evaluate (.name "a"))], ⟨i, 0⟩) := by
  intro tokens
  have hend : EndsInFinish tokens := ⟨_, rfl, rfl⟩
  have hparse : parseTokens tokens = .ok [.at 1 (.evaluate (.name "a"))] := rfl
  rcases (parseTokens_descends hend).2 with ⟨statements, i, hscript, hok⟩ | ⟨e, s', -, herror, -⟩
  · cases hok.symm.trans hparse
    exact ⟨hend, i, hscript⟩
  · cases herror.symm.trans hparse

end Monorepo.Script
