import Monorepo.Proofs.Blocks
import Monorepo.Proofs.Comprehensions

/-!
# Lists of targets

The variables of a loop and the left side of an assignment are written alike: names with commas
between them, a comma behind the last one or not, in parentheses or not. They are read in two ways.
A loop keeps the names, and binds one name to the whole item and several to its parts. An assignment
reads an expression and unpacks the value if that expression is a tuple. Both bind the same, except
where one name has a comma behind it: that is a tuple, but a loop has forgotten the comma.
-/

namespace Monorepo.Script

open Monorepo.Script.Parser

/-- Variables with commas between them. -/
structure TargetList where
  /-- The first variable. -/
  first : String
  /-- The variables behind it. -/
  others : List String
  /-- Whether a comma stands behind the last one. -/
  closed : Bool
  /-- Whether they are in parentheses. -/
  grouped : Bool
  /-- They are neither keywords nor constants. -/
  named : ∀ name ∈ first :: others, IsVariable name

namespace TargetList

variable (T : TargetList)

/-- The variables. -/
def names : List String := T.first :: T.others

/-- The tokens of the list. -/
def lexemes : List Lexeme :=
  parensIf T.grouped (separated (T.names.map ([.name ·])) ++ commaIf T.closed)

/-- A single variable with a comma behind it. -/
def IsLone : Prop := T.others = [] ∧ T.closed = true

/-- A single variable and no comma. -/
def IsPlain : Prop := T.others = [] ∧ T.closed = false

instance : Decidable T.IsLone := inferInstanceAs (Decidable (_ ∧ _))

instance : Decidable T.IsPlain := inferInstanceAs (Decidable (_ ∧ _))

/-- What the list is as an expression. -/
def expression : Expr := if T.IsPlain then .name T.first else .tuple (T.names.map .name)

/-- What is assigned to, where the list stands in front of `=`. -/
def target : Target := if T.IsPlain then .name T.first else .unpack T.names

/-! ## Reading -/

section Reading

variable {inner : Inner} {c rest : Cursor}

theorem loopTargets_run (hc : c.Spells T.lexemes rest) (hrest : rest.here.lexeme = .name "in") :
    loopTargets c = .ok (T.names, rest) :=
  reads_loopTargets (List.cons_ne_nil _ _) (fun name h => (T.named name h).1) T.closed T.grouped c
    rest hc hrest

/-- The first variable is all that there is, or a comma leads on to the others. -/
theorem tests_run {n : Nat} (hinner : inner.Roomy (n + 1)) {stop : Parser Bool}
    (hopen : ∀ name, IsVariable name → ∀ c : Cursor, c.here.lexeme = .name name →
      stop c = .ok (false, c))
    (hc : c.Spells (separated (T.names.map ([.name ·])) ++ commaIf T.closed) rest)
    (hstops : Stops 0 rest.here.lexeme) (hcomma : rest.here.lexeme ≠ .mark .comma)
    (hlast : stop rest = .ok (true, rest)) :
    ∃ mid : Cursor, inner.test c = .ok (.name T.first, mid) ∧
      (T.IsPlain ∧ mid = rest ∨
        ¬ T.IsPlain ∧ mid.here.lexeme = .mark .comma ∧
          commaRest stop inner.test mid = .ok (T.others.map .name, rest)) := by
  obtain ⟨first, others, closed, grouped, hnamed⟩ := T
  obtain ⟨hfirst, hothers⟩ := List.forall_mem_cons.mp hnamed
  rw [names, List.map_cons, separated, List.flatMap_map, List.append_assoc] at hc
  obtain ⟨mid, hname, hmore⟩ := hc.split
  have htest (h : Stops 0 mid.here.lexeme) : inner.test c = .ok (.name first, mid) :=
    test_name hinner hfirst hname h
  have hitems : ∀ e ∈ others.map Expr.name, Reads inner.test (Stops 0) e.body e := by
    refine List.forall_mem_map.mpr fun name h c rest hc hrest => ?_
    exact test_name hinner (hothers name h) hc hrest
  have hstop : ∀ e ∈ others.map Expr.name, ∀ c rest : Cursor, c.Spells e.body rest →
      stop c = .ok (false, c) := by
    refine List.forall_mem_map.mpr fun name h c rest hc => ?_
    exact hopen name (hothers name h) c hc.here
  have hspells : mid.Spells (((others.map Expr.name).flatMap fun e => .mark .comma :: e.body) ++
      commaIf closed) rest := by
    rw [List.flatMap_map]
    exact hmore
  have hcommas := commaRest_closed hitems hstop (stops_of_grip_none rfl 0) hspells hstops hcomma
    hlast
  by_cases hplain : others = [] ∧ closed = false
  · obtain ⟨rfl, rfl⟩ := hplain
    obtain rfl := hmore.eq_of_nil
    exact ⟨mid, htest hstops, .inl ⟨⟨rfl, rfl⟩, rfl⟩⟩
  · have hhere : mid.here.lexeme = .mark .comma := by
      cases others with
      | cons other others => exact hmore.here
      | nil =>
        cases closed with
        | false => exact absurd ⟨rfl, rfl⟩ hplain
        | true => exact hmore.here
    refine ⟨mid, htest ?_, .inr ⟨hplain, hhere, hcommas⟩⟩
    rw [hhere]
    exact stops_of_grip_none rfl 0

theorem startsExpression_name {name : String} (hname : IsVariable name)
    (hc : c.here.lexeme = .name name) : startsExpression c = .ok (true, c) := by
  unfold startsExpression
  rw [peek_bind, hc]
  dsimp only
  rw [hname.1]
  rfl

/-- Without parentheses, the list in front of `=` is a tuple if it has a comma. -/
theorem testList_bare (hgrouped : T.grouped = false) {n : Nat} (hinner : inner.Roomy (n + 1))
    {behind : Cursor} (hc : c.Spells T.lexemes rest)
    (hassign : rest.Spells [.mark .assign] behind) :
    testList inner c = .ok (T.expression, rest) := by
  have hcomma : rest.here.lexeme ≠ .mark .comma := hassign.here_ne nofun
  have hopen : ∀ name, IsVariable name → ∀ c : Cursor, c.here.lexeme = .name name →
      (do return !(← startsExpression) : Parser Bool) c = .ok (false, c) :=
    fun name hname c hc => bind_run (startsExpression_name hname hc)
  have hlast : (do return !(← startsExpression) : Parser Bool) rest = .ok (true, rest) := by
    have hnone : startsExpression rest = .ok (false, rest) := by
      unfold startsExpression
      rw [peek_bind, hassign.here]
      rfl
    exact bind_run hnone
  rw [lexemes, hgrouped] at hc
  obtain ⟨mid, htest, ⟨hplain, rfl⟩ | ⟨hplain, hhere, hmore⟩⟩ :=
    T.tests_run hinner hopen hc (hassign.stops rfl 0) hcomma hlast
  · rw [expression, if_pos hplain]
    exact Script.testList_run htest hcomma
  · rw [expression, if_neg hplain]
    exact (bind_run htest).trans ((bind_run (at?_of_eq hhere)).trans (bind_run hmore))

/-- In parentheses, the list is a tuple if it has a comma. -/
theorem atom_grouped (hgrouped : T.grouped = true) {n : Nat} (hinner : inner.Roomy (n + 1))
    (hc : c.Spells T.lexemes rest) : atom inner c = .ok (T.expression, rest) := by
  rw [lexemes, hgrouped, parensIf, if_pos rfl, inParens, List.cons_append] at hc
  obtain ⟨start, hparen, hc⟩ := hc.head
  obtain ⟨last, hnames, hclose⟩ := hc.split
  have hopen : ∀ name, IsVariable name → ∀ c : Cursor, c.here.lexeme = .name name →
      at? (.mark .rightParen) c = .ok (false, c) := by
    intro name _ c hc
    refine at?_of_ne fun heq => ?_
    rw [hc] at heq
    cases heq
  have hstart : starts 0 start.here.lexeme = true := by
    rw [hnames.here]
    simp [starts, (T.named T.first List.mem_cons_self).1]
  rw [atom_leftParen hparen]
  obtain ⟨mid, htest, ⟨hplain, rfl⟩ | ⟨hplain, hhere, hmore⟩⟩ :=
    T.tests_run hinner hopen hnames (hclose.stops rfl 0) (hclose.here_ne (by simp))
      (at?_of_eq hclose.here)
  · rw [expression, if_pos hplain]
    exact (bind_run (eat_of_ne (ne_of_starts hstart rfl))).trans ((bind_run htest).trans
      (bind_run (eat_run hclose)))
  · rw [expression, if_neg hplain]
    exact parenthesized_run hstart htest hhere hmore hclose

theorem starts_here (level : Nat) (hc : c.Spells T.lexemes rest) :
    starts level c.here.lexeme = true := by
  rw [lexemes] at hc
  cases hgrouped : T.grouped with
  | false =>
    rw [hgrouped] at hc
    rw [hc.here]
    simp [starts, (T.named T.first List.mem_cons_self).1]
  | true =>
    rw [hgrouped, parensIf, if_pos rfl, inParens, List.cons_append] at hc
    rw [hc.here]
    rfl

/-- The list in front of `=`. -/
theorem testList_run (hinner : inner.Roomy 2) {behind : Cursor} (hc : c.Spells T.lexemes rest)
    (hassign : rest.Spells [.mark .assign] behind) :
    testList inner c = .ok (T.expression, rest) := by
  cases hgrouped : T.grouped with
  | false => exact T.testList_bare hgrouped hinner hc hassign
  | true =>
    obtain ⟨closer, hcloser, htest, -⟩ := hinner
    have hatom : parserAt closer 9 c = .ok (T.expression, rest) :=
      T.atom_grouped hgrouped hcloser hc
    refine Script.testList_run ?_ (hassign.here_ne nofun)
    rw [htest]
    exact parserAt_of_le hatom (Nat.zero_le 9) (T.starts_here 9 hc) (hassign.stops rfl 0)

theorem assignTarget_expression (c : Cursor) :
    assignTarget T.expression c = .ok (T.target, c) := by
  have hnames (f : Expr → Parser String) (hf : ∀ name, f (.name name) = pure name)
      (names : List String) : (names.map .name).mapM f c = .ok (names, c) := by
    induction names with
    | nil => rfl
    | cons name names ih =>
      have hfirst : f (.name name) c = .ok (name, c) := by rw [hf, pure_run]
      rw [List.map_cons, List.mapM_cons]
      exact (bind_run hfirst).trans (bind_run ih)
  unfold expression target
  split
  · rfl
  · exact bind_run (hnames _ (fun _ => rfl) T.names)

/-- The list in front of `in`, in a loop whose other parts are read. -/
theorem statements_loop {c₁ c₂ : Cursor} {source : Expr} {body : List Statement}
    (hc : c.Spells (.name "for" :: T.lexemes ++ [.name "in"]) c₁)
    (hsource : testList inner c₁ = .ok (source, c₂)) (hbody : inner.block c₂ = .ok (body, rest)) :
    statements inner c = .ok ([.at c.here.position.line (.loop T.names source body)], rest) := by
  obtain ⟨start, hfor, hc⟩ := hc.head
  obtain ⟨last, htargets, hin⟩ := hc.split
  exact statements_for hfor (T.loopTargets_run htargets hin.here) hin hsource hbody

/-- The list in front of `=`, where the right side is read. -/
theorem statements_assign (hinner : inner.Roomy 2) {c₁ c₂ : Cursor} {e : Expr}
    (hc : c.Spells (T.lexemes ++ [.mark .assign]) c₁) (he : testList inner c₁ = .ok (e, c₂))
    (hnewline : c₂.Spells [.newline] rest) :
    statements inner c = .ok ([.at c.here.position.line (.assign T.target e)], rest) := by
  obtain ⟨last, htargets, hassign⟩ := hc.split
  have hstarts := T.starts_here 0 htargets
  have haction : simpleAction inner c = .ok (.assign T.target e, c₂) := by
    rw [simpleAction_of_starts hstarts]
    exact expressionAction_assign (T.testList_run hinner htargets hassign)
      T.assignTarget_expression hassign he (hnewline.here_ne nofun)
  rw [statements_of_starts hstarts]
  exact simpleLine_of_action haction hnewline

/-- The list in front of `in`, in a comprehension whose other parts are read. -/
theorem atom_targets {c₁ c₂ c₃ c₄ c₅ : Cursor} {element source : Expr} {condition : Option Expr}
    (hopen : c.Spells [.mark .leftBracket] c₁) (hfirst : c₁.here.lexeme ≠ .mark .rightBracket)
    (helement : inner.test c₁ = .ok (element, c₂))
    (hc : c₂.Spells (.name "for" :: T.lexemes ++ [.name "in"]) c₃)
    (hsource : inner.clause c₃ = .ok (source, c₄))
    (hcondition : ReadsCondition inner condition c₄ c₅)
    (hclose : c₅.Spells [.mark .rightBracket] rest) :
    atom inner c = .ok (.comprehension element T.names source condition, rest) := by
  obtain ⟨start, hfor, hc⟩ := hc.head
  obtain ⟨last, htargets, hin⟩ := hc.split
  exact atom_comprehension hopen hfirst helement hfor (T.loopTargets_run htargets hin.here) hin
    hsource hcondition hclose

end Reading

/-- How the list is read: the variables that a loop and a comprehension bind, and what an assignment
    assigns to, wherever they stand and the rest of them is read. -/
structure IsRead (names : List String) (target : Target) : Prop where
  /-- `for T in source: body`. -/
  loop : ∀ (inner : Inner) (c c₁ c₂ rest : Cursor) (source : Expr) (body : List Statement),
    c.Spells (.name "for" :: T.lexemes ++ [.name "in"]) c₁ →
    testList inner c₁ = .ok (source, c₂) → inner.block c₂ = .ok (body, rest) →
    statements inner c = .ok ([.at c.here.position.line (.loop names source body)], rest)
  /-- `T = e`. -/
  assignment : ∀ (inner : Inner) (c c₁ c₂ rest : Cursor) (e : Expr), inner.Roomy 2 →
    c.Spells (T.lexemes ++ [.mark .assign]) c₁ → testList inner c₁ = .ok (e, c₂) →
    c₂.Spells [.newline] rest →
    statements inner c = .ok ([.at c.here.position.line (.assign target e)], rest)
  /-- `[element for T in source if condition]`. -/
  comprehension : ∀ (inner : Inner) (c c₁ c₂ c₃ c₄ c₅ rest : Cursor) (element source : Expr)
    (condition : Option Expr),
    c.Spells [.mark .leftBracket] c₁ → c₁.here.lexeme ≠ .mark .rightBracket →
    inner.test c₁ = .ok (element, c₂) →
    c₂.Spells (.name "for" :: T.lexemes ++ [.name "in"]) c₃ →
    inner.clause c₃ = .ok (source, c₄) → ReadsCondition inner condition c₄ c₅ →
    c₅.Spells [.mark .rightBracket] rest →
    atom inner c = .ok (.comprehension element names source condition, rest)

theorem isRead : T.IsRead T.names T.target where
  loop _ _ _ _ _ _ _ hc hsource hbody := T.statements_loop hc hsource hbody
  assignment _ _ _ _ _ _ hinner hc he hnewline := T.statements_assign hinner hc he hnewline
  comprehension _ _ _ _ _ _ _ _ _ _ _ hopen hfirst helement hc hsource hcondition hclose :=
    T.atom_targets hopen hfirst helement hc hsource hcondition hclose

/-! ## Binding -/

variable {T}

/-- Unless its one name has a comma behind it, a list binds in a loop what it binds in front of
    `=`. -/
theorem bindTargets_eq_assign (h : ¬ T.IsLone) (c : Context) (item : Value) :
    Eval.bindTargets T.names item = assign c T.target item := by
  obtain ⟨first, others, closed, grouped, hnamed⟩ := T
  cases others with
  | nil =>
    cases closed with
    | false => rfl
    | true => exact absurd ⟨rfl, rfl⟩ h
  | cons other others => rfl

end TargetList

/-! ## Running -/

section Running

variable {c : Context} {s t : State} {line line' : Nat} {e source : Expr} {v : Value}

/-- An assignment whose right side has been evaluated. -/
theorem exec_assign_value (target : Target) (he : eval c e { s with line := line } = .ok v t) :
    exec c (.at line (.assign target e)) s =
      match assign c target v t with
      | .ok _ u => .ok .next u
      | .error fault u => .error fault u := by
  rw [exec_assign_target, he]
  change EStateM.bind (assign c target v) _ t = _
  unfold EStateM.bind
  cases assign c target v t <;> rfl

/-- A loop over one item that does nothing but bind it. -/
theorem exec_loop_value (names : List String)
    (hsource : sourceItems c source { s with line := line } = .ok [v] t) :
    exec c (.at line (.loop names source [.at line' .pass])) s =
      match Eval.bindTargets names v t with
      | .ok _ u => .ok .next { u with line := line' }
      | .error fault u => .error fault u := by
  have hturn : loopTurn c names [.at line' .pass] v t =
      match Eval.bindTargets names v t with
      | .ok _ u => .ok .next { u with line := line' }
      | .error fault u => .error fault u := by
    unfold loopTurn
    rw [execBlock_single, exec, execAction]
    change EStateM.bind (Eval.bindTargets names v) _ t = _
    unfold EStateM.bind
    cases Eval.bindTargets names v t <;> rfl
  rw [exec_loop]
  change (sourceItems c source >>= _) { s with line := line } = _
  rw [bind_of_ok hsource, runLoop]
  cases hbind : Eval.bindTargets names v t with
  | ok bound u =>
    rw [hbind] at hturn
    rw [bind_of_ok hturn]
    rfl
  | error fault u =>
    rw [hbind] at hturn
    rw [eval_bind_error hturn]

/-- The display of a value has that one item, if it passes no limit. -/
theorem sourceItems_display (he : eval c e s = .ok v t) (hv : (Value.list [v]).IsMeasured) :
    sourceItems c (.list [e]) s = .ok [v] t := by
  have hall : evalAll c [e] s = .ok [v] t := by
    rw [evalAll, bind_of_ok he]
    rfl
  have hlist : eval c (.list [e]) s = .ok (.list [v]) t := by
    rw [eval, bind_of_ok hall, bounded_apply, Value.measure_eq_ok hv]
  unfold sourceItems
  rw [bind_of_ok hlist]
  rfl

/-- The element of a comprehension, if the condition holds. -/
def keptElement (c : Context) (element : Expr) : Option Expr → Eval (Option Value)
  | none => return some (← eval c element)
  | some condition => do
    if (← eval c condition).isTrue then return some (← eval c element)
    else return none

theorem comprehensionTurn_eq (element : Expr) (names : List String) (condition : Option Expr)
    (item : Value) : comprehensionTurn c element names condition item = (do
      Eval.bindTargets names item
      keptElement c element condition) := by
  cases condition <;> rfl

/-- **Targets bind alike.** A list of variables, with a comma behind it or not, in parentheses or
    not, is read as the targets of loops and comprehensions and as what is assigned to. Unless it is
    a single variable with a comma behind it, running a loop over one value and assigning that value
    end alike in any state, but for the line of the body, and one faults as the other does; and a
    comprehension evaluates its element after it has assigned the item. -/
theorem targets_bind_alike (T : TargetList) (hlone : ¬ T.IsLone) :
    T.IsRead T.names T.target ∧
    ∀ (c : Context) (line line' : Nat),
      (∀ (source e : Expr) (v : Value) (s t : State),
        sourceItems c source { s with line := line } = .ok [v] t →
        eval c e { s with line := line } = .ok v t →
        exec c (.at line (.loop T.names source [.at line' .pass])) s =
          match exec c (.at line (.assign T.target e)) s with
          | .ok flow u => .ok flow { u with line := line' }
          | .error fault u => .error fault u) ∧
      (∀ (e : Expr) (v : Value) (s t : State), eval c e s = .ok v t →
        (Value.list [v]).IsMeasured → sourceItems c (.list [e]) s = .ok [v] t) ∧
      ∀ (element source : Expr) (condition : Option Expr),
        eval c (.comprehension element T.names source condition) = (do
          let items ← sourceItems c source
          let turn (item : Value) : Eval (Option Value) := do
            assign c T.target item
            keptElement c element condition
          Eval.bounded (.list (← Eval.restoring T.names (gather turn items 0 0 [])))) := by
  refine ⟨T.isRead, fun c line line' => ⟨fun source e v s t hsource he => ?_,
    fun e v s t he hv => sourceItems_display he hv, fun element source condition => ?_⟩⟩
  · rw [exec_loop_value T.names hsource, exec_assign_value T.target he,
      TargetList.bindTargets_eq_assign hlone]
    cases assign c T.target v t <;> rfl
  · have hturn : comprehensionTurn c element T.names condition = (fun item => do
        assign c T.target item
        keptElement c element condition) := by
      funext item
      rw [comprehensionTurn_eq, TargetList.bindTargets_eq_assign hlone]
    rw [eval_comprehension, hturn]

/-- `for (a, b,) in [(1, 2)]: pass` and `(a, b,) = (1, 2)`. -/
theorem targets_bind_alike_pair :
    let T : TargetList := ⟨"a", ["b"], true, true, by decide⟩
    let c : Context := ⟨⟨"", 3, ""⟩, invoke ⟨"", 3, ""⟩ 1⟩
    let pair : Expr := .tuple [.int 1, .int 2]
    let t : State := ⟨[("b", .int 2), ("a", .int 1)], [], 1, [], []⟩
    ¬ T.IsLone ∧ T.IsRead ["a", "b"] (.unpack ["a", "b"]) ∧
      exec c (.at 1 (.assign (.unpack ["a", "b"]) pair)) (.start []) = .ok .next t ∧
      exec c (.at 1 (.loop ["a", "b"] (.list [pair]) [.at 2 .pass])) (.start []) =
        .ok .next { t with line := 2 } := by
  intro T c pair t
  have hlone : ¬ T.IsLone := by decide
  obtain ⟨hread, hbind⟩ := targets_bind_alike T hlone
  obtain ⟨hrun, hdisplay, -⟩ := hbind c 1 2
  have hpair : eval c pair { State.start [] with line := 1 } =
      .ok (.tuple [.int 1, .int 2]) { State.start [] with line := 1 } := rfl
  have hassign : exec c (.at 1 (.assign (.unpack ["a", "b"]) pair)) (.start []) = .ok .next t := rfl
  refine ⟨hlone, hread, hassign, ?_⟩
  have hloop := hrun _ _ _ _ _ (hdisplay _ _ _ _ hpair ⟨_, rfl⟩) hpair
  exact hloop.trans (by rw [show T.target = .unpack ["a", "b"] from rfl, hassign])

end Running

/-- Whether the script of a text binds a variable to a value that is written in a given way. -/
def Setting.binds (setting : Setting) (source name written : String) : Bool :=
  (parseScript source).toOption.any fun script =>
    match execScript setting script (.start []) with
    | .ok _ t => (t.find? name).any fun value => value.repr == written
    | .error _ _ => false

theorem Setting.of_binds {setting : Setting} {source name written : String}
    (h : setting.binds source name written = true) :
    ∃ script t value, parseScript source = .ok script ∧
      execScript setting script (.start []) = .ok () t ∧ t.find? name = some value ∧
      value.repr = written := by
  unfold binds at h
  cases hparse : parseScript source with
  | error e =>
    rw [hparse] at h
    cases h
  | ok script =>
    rw [hparse] at h
    change (match execScript setting script (.start []) with
      | .ok _ t => (t.find? name).any fun value => value.repr == written
      | .error _ _ => false) = true at h
    split at h
    · rename_i t hrun
      obtain ⟨value, hvalue, hwritten⟩ := (Option.any_eq_true _ _).mp h
      exact ⟨script, t, value, rfl, hrun, hvalue, beq_iff_eq.mp hwritten⟩
    · cases h

/-- A loop over one value and the assignment of that value bind a single variable with a comma
    behind it to different values. -/
theorem lone_target_binds_apart :
    let setting : Setting := ⟨"/repo", 20, "/repo/BUILD"⟩
    (∃ script t value, parseScript "for a, in [[1]]:\n    pass\n" = .ok script ∧
      execScript setting script (.start []) = .ok () t ∧ t.find? "a" = some value ∧
      value.repr = "[1]") ∧
    ∃ script t value, parseScript "a, = [1]\n" = .ok script ∧
      execScript setting script (.start []) = .ok () t ∧ t.find? "a" = some value ∧
      value.repr = "1" := by
  intro setting
  exact ⟨Setting.of_binds (by decide +kernel), Setting.of_binds (by decide +kernel)⟩

end Monorepo.Script
