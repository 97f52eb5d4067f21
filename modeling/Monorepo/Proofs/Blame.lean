import Monorepo.Sandbox
import Monorepo.Script.Syntax.Grammar
import Monorepo.Proofs.Congruence

/-!
# The line of a fault

A run knows the line of the statement begun last, and reports a fault on that line. The statement
that raises the fault is the one begun last of those that are not finished. The two differ where a
statement goes on after others in it: when a loop binds its targets again, and when a function finds
that its body would leave a loop.

So a run is compared with one that comes back to the line of a statement whenever those in it are
finished. What that one reports in the two cases is left open. Elsewhere both report the same line,
and in the two cases the run reports the line of the statement begun last and the line of the call.
-/

namespace Monorepo.Script

/-- The lines that are reported where a statement goes on after others in it. -/
structure Reporting where
  /-- For a fault in binding the targets of a loop on the line `loop`, when the statement begun last
      is on the line `last`. -/
  rebinding (loop last : Nat) : Nat
  /-- For a statement on the line `own` that would leave a loop, in the body of a function without
      one that is called on the line `call`. -/
  stray (own call : Nat) : Nat

namespace Reporting

/-- The line of the statement that raises the fault. -/
def exact : Reporting := ⟨fun loop _ => loop, fun own _ => own⟩

/-- The line of the statement begun last, as it is known when the fault is raised. -/
def latest : Reporting := ⟨fun _ last => last, fun _ call => call⟩

end Reporting

/-! ## Located runs -/

namespace Eval

variable {α : Type}

/-- Runs a step on a line and comes back to the line from which it was begun. -/
def underWay (line : Nat) (step : Eval α) : Eval α := fun s =>
  match step { s with line := line } with
  | .ok a t => .ok a { t with line := s.line }
  | .error e t => .error e t

/-- Runs a step whose faults are reported on another line. -/
def reportAt (line : Nat) (step : Eval α) : Eval α := fun s =>
  match step s with
  | .ok a t => .ok a t
  | .error e t => .error { e with line := line } t

end Eval

/-- Runs the turns of a loop. What binds its targets and what executes its body are given the line
    of the statement begun last before. -/
def locatedTurns (bind : Nat → Value → Eval Unit) (body : Nat → Eval (Flow × Nat)) :
    Nat → List Value → Eval (Flow × Nat)
  | last, [] => return (.next, last)
  | last, item :: items => do
    bind last item
    match ← body last with
    | (.leave, last) => return (.next, last)
    | (.give value, last) => return (.give value, last)
    | (.next, last) | (.proceed, last) => locatedTurns bind body last items

section Located

variable (r : Reporting) (context : Context)

mutual

/-- Executes a statement: how it ends, and the line of the statement begun last. -/
def located : Statement → Eval (Flow × Nat)
  | .at line action => Eval.underWay line (locatedAction line action)

/-- Executes what stands on a line. -/
def locatedAction (line : Nat) : Action → Eval (Flow × Nat)
  | .branch branches otherwise => do
    match ← locatedBranches line branches with
    | (some flow, last) => return (flow, last)
    | (none, last) => locatedBlock last otherwise
  | .loop targets source body => do
    let items ← Eval.items (← eval context source)
    let bind (last : Nat) (item : Value) : Eval Unit :=
      Eval.reportAt (r.rebinding line last) (Eval.bindTargets targets item)
    locatedTurns bind (fun last => locatedBlock last body) line items
  | action => do return (← execAction context line action, line)

/-- Executes a block when the statement begun last is on the line `last`. -/
def locatedBlock (last : Nat) : List Statement → Eval (Flow × Nat)
  | [] => return (.next, last)
  | statement :: statements => do
    match ← located statement with
    | (.next, last) => locatedBlock last statements
    | (flow, last) => return (flow, last)

/-- Executes the block of the first condition that holds, if one does. -/
def locatedBranches (line : Nat) : List (Expr × List Statement) → Eval (Option Flow × Nat)
  | [] => return (none, line)
  | (condition, block) :: branches => do
    if (← eval context condition).isTrue then
      let (flow, last) ← locatedBlock line block
      return (some flow, last)
    else locatedBranches line branches

end

/-- Executes the body of a function. -/
def locatedBody (body : List Statement) : Eval Flow := do
  let call := (← get).line
  match ← locatedBlock r context call body with
  | (.leave, own) | (.proceed, own) =>
    Eval.reportAt (r.stray own call) (Eval.fault .exitOutsideLoop)
  | (flow, _) => return flow

end Located

/-- What calls do in a located run. -/
def locatedInvoke (r : Reporting) (setting : Setting) : Nat → Invoke
  | 0 => fun _ _ _ => Eval.fault .recursion
  | pending + 1 =>
    let context : Context := ⟨setting, locatedInvoke r setting pending⟩
    callWith (locatedBody r context) context

/-- Executes a whole script. -/
def locatedScript (r : Reporting) (setting : Setting) (script : List Statement) : Eval Unit := do
  let line := (← get).line
  match ← locatedBlock r ⟨setting, locatedInvoke r setting maxPending⟩ line script with
  | (.next, _) => return
  | (.give _, own) => Eval.reportAt own (Eval.fault .returnOutsideFunction)
  | (.leave, own) | (.proceed, own) => Eval.reportAt own (Eval.fault .exitOutsideLoop)

/-! ## What is reported -/

/-- The faults of binding several names to the items of a value. -/
def EvalFault.IsUnpacking : EvalFault → Prop
  | .notIterable _ | .unpackCount _ _ => True
  | _ => False

/-- The errors that end a run and a located one. -/
inductive Reporting.Blames (r : Reporting) : EvalError → EvalError → Prop
  /-- Both report the same line. -/
  | same (e : EvalError) : r.Blames e e
  /-- A loop could not bind its targets. -/
  | rebinding (loop last : Nat) {fault : EvalFault} (h : fault.IsUnpacking) :
    r.Blames ⟨last, fault⟩ ⟨r.rebinding loop last, fault⟩
  /-- The body of a function would leave a loop. -/
  | stray (own call : Nat) :
    r.Blames ⟨call, .exitOutsideLoop⟩ ⟨r.stray own call, .exitOutsideLoop⟩

namespace Reporting

/-- A located run that reports the statement begun last reports what the run does. -/
theorem Blames.latest {e e' : EvalError} (h : latest.Blames e e') : e' = e := by
  cases h <;> rfl

/-- Results with the same value in the same state, on the line from which both steps were begun, or
    with errors that are reported alike. -/
def Matches (r : Reporting) {α : Type} (line : Nat) :
    (result result' : EStateM.Result EvalError State α) → Prop
  | .ok a t, .ok a' t' => a' = a ∧ t' = t ∧ t.line = line
  | .error e _, .error e' _ => r.Blames e e'
  | _, _ => False

theorem Matches.ok_or_error {r : Reporting} {α : Type} {line : Nat}
    {result result' : EStateM.Result EvalError State α} (h : r.Matches line result result') :
    (∃ a t, result = .ok a t ∧ result' = .ok a t ∧ t.line = line) ∨
    ∃ e t e' t', result = .error e t ∧ result' = .error e' t' ∧ r.Blames e e' := by
  cases result with
  | ok a t =>
    cases result' with
    | ok a' t' =>
      obtain ⟨rfl, rfl, hline⟩ := h
      exact .inl ⟨a', t', rfl, rfl, hline⟩
    | error e' t' => exact h.elim
  | error e t =>
    cases result' with
    | ok a' t' => exact h.elim
    | error e' t' => exact .inr ⟨e, t, e', t', rfl, rfl, h⟩

/-- Steps whose results match from every state, whatever names they bind. -/
def Alike (r : Reporting) (_ : String → Prop) {α : Type} (x y : Eval α) : Prop :=
  ∀ s : State, r.Matches s.line (x s) (y s)

/-- Results with the same value, the second one with the line of the first one's state in addition
    and in the same state on another line, or with errors that are reported alike. -/
def Tracks (r : Reporting) {α : Type} (line : Nat) :
    EStateM.Result EvalError State α → EStateM.Result EvalError State (α × Nat) → Prop
  | .ok a t, .ok (a', last) t' => a' = a ∧ last = t.line ∧ t' = { t with line := line }
  | .error e _, .error e' _ => r.Blames e e'
  | _, _ => False

theorem Tracks.ok_or_error {r : Reporting} {α : Type} {line : Nat}
    {result : EStateM.Result EvalError State α}
    {result' : EStateM.Result EvalError State (α × Nat)} (h : r.Tracks line result result') :
    (∃ a t, result = .ok a t ∧ result' = .ok (a, t.line) { t with line := line }) ∨
    ∃ e t e' t', result = .error e t ∧ result' = .error e' t' ∧ r.Blames e e' := by
  cases result with
  | ok a t =>
    cases result' with
    | ok row t' =>
      obtain ⟨a', last⟩ := row
      obtain ⟨rfl, rfl, rfl⟩ := h
      exact .inl ⟨a', t, rfl, rfl⟩
    | error e' t' => exact h.elim
  | error e t =>
    cases result' with
    | ok a' t' => exact h.elim
    | error e' t' => exact .inr ⟨e, t, e', t', rfl, rfl, h⟩

end Reporting

/-! ## Expressions -/

namespace State

theorem line_withScope (s : State) (scope : Scope) : (s.withScope scope).line = s.line := by
  unfold withScope
  split <;> rfl

theorem line_store (s : State) (name : String) (value : Value) :
    (s.store name value).line = s.line :=
  s.line_withScope _

theorem line_update (s : State) (name : String) (value : Value) :
    (s.update name value).line = s.line := by
  unfold update
  split
  · exact s.line_withScope _
  · rfl

theorem line_restored (saved : List (String × Option Value)) (s : State) :
    (Eval.Leads.restored saved s).line = s.line := by
  induction saved generalizing s with
  | nil => rfl
  | cons row saved ih =>
    obtain ⟨name, value⟩ := row
    cases value with
    | some value => exact (ih _).trans (s.line_withScope _)
    | none => exact (ih _).trans (s.line_withScope _)

end State

namespace Reporting

open Eval (Congruence)

variable (r : Reporting) {α β : Type}

theorem matches_bind {x y : Eval α} {f g : α → Eval β} {s : State}
    (hx : r.Matches s.line (x s) (y s)) (hf : ∀ a t, r.Matches t.line (f a t) (g a t)) :
    r.Matches s.line ((x >>= f) s) ((y >>= g) s) := by
  obtain ⟨a, t, hresult, hresult', hline⟩ | ⟨e, t, e', t', hresult, hresult', hblames⟩ :=
    hx.ok_or_error
  · rw [bind_of_ok hresult, bind_of_ok hresult', ← hline]
    exact hf a t
  · rw [eval_bind_error hresult, eval_bind_error hresult']
    exact hblames

theorem matches_restoring (names : List String) {x y : Eval α} {s : State}
    (hx : r.Matches s.line (x s) (y s)) :
    r.Matches s.line (Eval.restoring names x s) (Eval.restoring names y s) := by
  unfold Eval.restoring
  obtain ⟨a, t, hresult, hresult', hline⟩ | ⟨e, t, e', t', hresult, hresult', hblames⟩ :=
    hx.ok_or_error
  · rw [hresult, hresult']
    exact ⟨rfl, rfl, (State.line_restored _ t).trans hline⟩
  · rw [hresult, hresult']
    exact hblames

/-- To match from every state is a congruence. -/
theorem congruence : Congruence .permissive r.Alike where
  pure _ _ := ⟨rfl, rfl, rfl⟩
  fault _ _ := .same _
  bind hx hf s := r.matches_bind (hx s) hf
  mono _ h := h
  found _ _ := ⟨rfl, rfl, rfl⟩
  height _ := ⟨rfl, rfl, rfl⟩
  warn notice s := by
    refine ⟨rfl, rfl, ?_⟩
    dsimp only
    split <;> rfl
  declare _ _ _ := ⟨rfl, rfl, rfl⟩
  update value _ s := ⟨rfl, rfl, s.line_update _ value⟩
  store value _ s := ⟨rfl, rfl, s.line_store _ value⟩
  restoring hx s := r.matches_restoring _ (hx s)

end Reporting

/-! ## Targets of loops -/

namespace Eval

variable {α β : Type}

/-- A step that neither changes the line nor depends on it, but for the line of its error, which is
    one of unpacking. -/
def OffLine (x : Eval α) : Prop :=
  ∀ s, match x s with
    | .ok a t => t.line = s.line ∧ ∀ line, x { s with line := line } = .ok a { t with line := line }
    | .error e _ => e.line = s.line ∧ e.fault.IsUnpacking ∧
      ∀ line, ∃ t, x { s with line := line } = .error ⟨line, e.fault⟩ t

namespace OffLine

theorem pure (a : α) : OffLine (pure a : Eval α) := fun _ => ⟨rfl, fun _ => rfl⟩

theorem fault {f : EvalFault} (h : f.IsUnpacking) : OffLine (fault f : Eval α) :=
  fun _ => ⟨rfl, h, fun _ => ⟨_, rfl⟩⟩

theorem bind {x : Eval α} {f : α → Eval β} (hx : OffLine x) (hf : ∀ a, OffLine (f a)) :
    OffLine (x >>= f) := by
  intro s
  have hfirst := hx s
  change match EStateM.bind x f s with
    | .ok b t => t.line = s.line ∧
      ∀ line, EStateM.bind x f { s with line := line } = .ok b { t with line := line }
    | .error e _ => e.line = s.line ∧ e.fault.IsUnpacking ∧
      ∀ line, ∃ t, EStateM.bind x f { s with line := line } = .error ⟨line, e.fault⟩ t
  unfold EStateM.bind
  cases hresult : x s with
  | error e t =>
    rw [hresult] at hfirst
    obtain ⟨hline, hfault, hother⟩ := hfirst
    refine ⟨hline, hfault, fun line => ?_⟩
    obtain ⟨t', ht'⟩ := hother line
    exact ⟨t', by rw [ht']⟩
  | ok a t =>
    rw [hresult] at hfirst
    obtain ⟨hline, hother⟩ := hfirst
    have hrest := hf a t
    dsimp only
    cases hthen : f a t with
    | ok b u =>
      rw [hthen] at hrest
      refine ⟨hrest.1.trans hline, fun line => ?_⟩
      rw [hother line]
      exact hrest.2 line
    | error e u =>
      rw [hthen] at hrest
      refine ⟨hrest.1.trans hline, hrest.2.1, fun line => ?_⟩
      rw [hother line]
      exact hrest.2.2 line

theorem store (name : String) (value : Value) : OffLine (store name value) := by
  refine fun s => ⟨s.line_store name value, fun line => ?_⟩
  obtain ⟨globals, frames, last, declared, warned⟩ := s
  cases frames <;> rfl

theorem storeAll (names : List String) (values : List Value) : OffLine (storeAll names values) := by
  induction names generalizing values with
  | nil => exact pure ()
  | cons name names ih =>
    cases values with
    | nil => exact pure ()
    | cons value values => exact bind (store name value) fun _ => ih values

theorem items (value : Value) : OffLine (items value) := by
  unfold Eval.items iterate
  cases value.items? with
  | some items => exact pure items
  | none => exact fault trivial

theorem unpack (names : List String) (value : Value) : OffLine (unpack names value) := by
  unfold Eval.unpack
  split
  · exact storeAll names _
  · refine bind (items value) fun values => ?_
    split
    · exact bind (fault trivial) fun _ => storeAll names values
    · exact storeAll names values

theorem bindTargets (targets : List String) (item : Value) :
    OffLine (bindTargets targets item) := by
  unfold Eval.bindTargets
  split
  · exact store _ item
  · exact unpack targets item

end OffLine

end Eval

/-! ## Statements -/

section Statements

variable {r : Reporting} {α β : Type}

/-- A step and one that tracks its line, the second one begun on another line. -/
theorem Reporting.tracks_bind {line : Nat} {x : Eval α} {y : Eval (α × Nat)} {f : α → Eval β}
    {g : α × Nat → Eval (β × Nat)} {s s' : State} (hx : r.Tracks line (x s) (y s'))
    (hf : ∀ a t, r.Tracks line (f a t) (g (a, t.line) { t with line := line })) :
    r.Tracks line ((x >>= f) s) ((y >>= g) s') := by
  obtain ⟨a, t, hresult, hresult'⟩ | ⟨e, t, e', t', hresult, hresult', hblames⟩ := hx.ok_or_error
  · rw [bind_of_ok hresult, bind_of_ok hresult']
    exact hf a t
  · rw [eval_bind_error hresult, eval_bind_error hresult']
    exact hblames

/-- A step and one that does the same on the same line. -/
theorem Reporting.Matches.tracks_bind {x y : Eval α} {f : α → Eval β} {g : α → Eval (β × Nat)}
    {s : State} (hx : r.Matches s.line (x s) (y s))
    (hf : ∀ a t, t.line = s.line → r.Tracks s.line (f a t) (g a t)) :
    r.Tracks s.line ((x >>= f) s) ((y >>= g) s) := by
  obtain ⟨a, t, hresult, hresult', hline⟩ | ⟨e, t, e', t', hresult, hresult', hblames⟩ :=
    hx.ok_or_error
  · rw [bind_of_ok hresult, bind_of_ok hresult']
    exact hf a t hline
  · rw [eval_bind_error hresult, eval_bind_error hresult']
    exact hblames

theorem Reporting.tracks_pure (a : α) (t : State) (line : Nat) :
    r.Tracks line ((pure a : Eval α) t)
      ((pure (a, t.line) : Eval (α × Nat)) { t with line := line }) :=
  ⟨rfl, rfl, rfl⟩

/-- The turns of a loop, begun on the line of the statement begun last and on that of the loop. -/
theorem locatedTurns_tracks {line : Nat} (targets : List String) (body : Eval Flow)
    (body' : Nat → Eval (Flow × Nat))
    (hbody : ∀ s, r.Tracks line (body s) (body' s.line { s with line := line }))
    (items : List Value) (s : State) :
    r.Tracks line
      (runLoop (fun item => do Eval.bindTargets targets item; body) items s)
      (locatedTurns
        (fun last item => Eval.reportAt (r.rebinding line last) (Eval.bindTargets targets item))
        body' s.line items { s with line := line }) := by
  induction items generalizing s with
  | nil => exact Reporting.tracks_pure Flow.next s line
  | cons item items ih =>
    have hbind := Eval.OffLine.bindTargets targets item s
    unfold runLoop locatedTurns
    change r.Tracks line
      (EStateM.bind (EStateM.bind (Eval.bindTargets targets item) fun _ => body) _ s)
      (EStateM.bind (Eval.reportAt _ (Eval.bindTargets targets item)) _ { s with line := line })
    unfold EStateM.bind Eval.reportAt
    cases hresult : Eval.bindTargets targets item s with
    | error e t =>
      rw [hresult] at hbind
      obtain ⟨hline, hfault, hother⟩ := hbind
      obtain ⟨t', ht'⟩ := hother line
      obtain ⟨last, fault⟩ := e
      obtain rfl : last = s.line := hline
      rw [ht']
      exact .rebinding line s.line hfault
    | ok a t =>
      rw [hresult] at hbind
      obtain ⟨hline, hother⟩ := hbind
      rw [hother line, ← hline]
      refine Reporting.tracks_bind (hbody t) fun flow u => ?_
      cases flow with
      | next => exact ih u
      | proceed => exact ih u
      | leave => exact Reporting.tracks_pure Flow.next u line
      | give value => exact Reporting.tracks_pure (Flow.give value) u line

variable {c c' : Context}

theorem Context.Related.eval_matches (h : c.Related r.Alike c') (e : Expr) (s : State) :
    r.Matches s.line (eval c e s) (eval c' e s) :=
  eval_congruent r.congruence h e (fun _ _ => Policy.permissive_reads _) s

/-- What is no branch and no loop begins no other statement. -/
theorem locatedAction_tracks_simple (h : c.Related r.Alike c') (action : Action)
    (hbranch : ∀ branches otherwise, action ≠ .branch branches otherwise)
    (hloop : ∀ targets source body, action ≠ .loop targets source body) (s : State) :
    r.Tracks s.line (execAction c s.line action s)
      ((do return (← execAction c' s.line action, s.line) : Eval (Flow × Nat)) s) := by
  have hpermits : Policy.permissive.Permits (.at s.line action) := (Policy.permissive_allows _).self
  obtain ⟨flow, t, hresult, hresult', hline⟩ | ⟨e, t, e', t', hresult, hresult', hblames⟩ :=
    (execAction_congruent_simple r.congruence h hpermits hbranch hloop s).ok_or_error
  · rw [hresult, bind_of_ok hresult', ← hline]
    exact ⟨rfl, rfl, rfl⟩
  · rw [hresult, eval_bind_error hresult']
    exact hblames

mutual

theorem located_tracks (h : c.Related r.Alike c') :
    (statement : Statement) → (line : Nat) → (s : State) →
    r.Tracks line (exec c statement s) (located r c' statement { s with line := line })
  | .at own action, line, s => by
    unfold exec located
    change r.Tracks line (execAction c own action { s with line := own }) _
    unfold Eval.underWay
    dsimp only
    obtain ⟨flow, t, hresult, hresult'⟩ | ⟨e, t, e', t', hresult, hresult', hblames⟩ :=
      (locatedAction_tracks h action { s with line := own }).ok_or_error
    · rw [hresult, hresult']
      exact ⟨rfl, rfl, rfl⟩
    · rw [hresult, hresult']
      exact hblames

theorem locatedAction_tracks (h : c.Related r.Alike c') : (action : Action) → (s : State) →
    r.Tracks s.line (execAction c s.line action s) (locatedAction r c' s.line action s)
  | .branch branches otherwise, s => by
    unfold execAction locatedAction
    refine Reporting.tracks_bind (locatedBranches_tracks h branches s) fun flow t => ?_
    cases flow with
    | some flow => exact Reporting.tracks_pure flow t s.line
    | none => exact locatedBlock_tracks h otherwise s.line t
  | .loop targets source body, s => by
    unfold execAction locatedAction
    refine (h.eval_matches source s).tracks_bind fun value t ht => ?_
    rw [← ht]
    have hitems : r.Alike noNames (Eval.items value) (Eval.items value) :=
      r.congruence.lift (iterate value)
    refine Reporting.Matches.tracks_bind (hitems t) fun items u hu => ?_
    have hturns := locatedTurns_tracks targets (execBlock c body)
      (fun last => locatedBlock r c' last body) (locatedBlock_tracks h body t.line) items u
    rw [← hu] at hturns ⊢
    exact hturns
  | .evaluate e, s => by
    unfold locatedAction
    exact locatedAction_tracks_simple h (.evaluate e) nofun nofun s
  | .assign target e, s => by
    unfold locatedAction
    exact locatedAction_tracks_simple h (.assign target e) nofun nofun s
  | .augment name op e, s => by
    unfold locatedAction
    exact locatedAction_tracks_simple h (.augment name op e) nofun nofun s
  | .imports bindings, s => by
    unfold locatedAction
    exact locatedAction_tracks_simple h (.imports bindings) nofun nofun s
  | .define name parameters body, s => by
    unfold locatedAction
    exact locatedAction_tracks_simple h (.define name parameters body) nofun nofun s
  | .give value, s => by
    unfold locatedAction
    exact locatedAction_tracks_simple h (.give value) nofun nofun s
  | .leave, s => by
    unfold locatedAction
    exact locatedAction_tracks_simple h .leave nofun nofun s
  | .proceed, s => by
    unfold locatedAction
    exact locatedAction_tracks_simple h .proceed nofun nofun s
  | .pass, s => by
    unfold locatedAction
    exact locatedAction_tracks_simple h .pass nofun nofun s

theorem locatedBlock_tracks (h : c.Related r.Alike c') :
    (block : List Statement) → (line : Nat) → (s : State) →
    r.Tracks line (execBlock c block s) (locatedBlock r c' s.line block { s with line := line })
  | [], line, s => by
    unfold execBlock locatedBlock
    exact Reporting.tracks_pure Flow.next s line
  | statement :: statements, line, s => by
    unfold execBlock locatedBlock
    refine Reporting.tracks_bind (located_tracks h statement line s) fun flow t => ?_
    cases flow with
    | next => exact locatedBlock_tracks h statements line t
    | leave => exact Reporting.tracks_pure Flow.leave t line
    | proceed => exact Reporting.tracks_pure Flow.proceed t line
    | give value => exact Reporting.tracks_pure (Flow.give value) t line

theorem locatedBranches_tracks (h : c.Related r.Alike c') :
    (branches : List (Expr × List Statement)) → (s : State) →
    r.Tracks s.line (execBranches c branches s) (locatedBranches r c' s.line branches s)
  | [], s => by
    unfold execBranches locatedBranches
    exact Reporting.tracks_pure none s s.line
  | (condition, block) :: branches, s => by
    unfold execBranches locatedBranches
    refine (h.eval_matches condition s).tracks_bind fun value t ht => ?_
    rw [← ht]
    split
    · exact Reporting.tracks_bind (locatedBlock_tracks h block t.line t) fun flow u =>
        Reporting.tracks_pure (some flow) u t.line
    · exact locatedBranches_tracks h branches t

end

end Statements

/-! ## Functions -/

section Functions

variable {r : Reporting}

/-- The body of a function in its frame, with the value that the call takes from it. -/
theorem locatedBody_matches {c c' : Context}
    (h : c.Related r.Alike c') (body : List Statement) (frame : Scope) :
    r.Alike noNames (Eval.inFrame frame (execBlock c body) >>= Flow.result)
      (Eval.inFrame frame (locatedBody r c' body) >>= Flow.result) := by
  intro s
  change r.Matches s.line
    (EStateM.bind (Eval.inFrame frame (execBlock c body)) Flow.result s)
    (EStateM.bind (Eval.inFrame frame (locatedBody r c' body)) Flow.result s)
  unfold EStateM.bind Eval.inFrame
  dsimp only
  have hbody : locatedBody r c' body { s with frames := frame :: s.frames } =
      match locatedBlock r c' s.line body { s with frames := frame :: s.frames } with
      | .ok (.leave, own) t => .error ⟨r.stray own s.line, .exitOutsideLoop⟩ t
      | .ok (.proceed, own) t => .error ⟨r.stray own s.line, .exitOutsideLoop⟩ t
      | .ok (flow, _) t => .ok flow t
      | .error e t => .error e t := by
    change EStateM.bind (locatedBlock r c' s.line body) _ { s with frames := frame :: s.frames } = _
    unfold EStateM.bind
    rcases locatedBlock r c' s.line body { s with frames := frame :: s.frames } with
      ⟨⟨flow, own⟩, t⟩ | ⟨e, t⟩
    · cases flow <;> rfl
    · rfl
  rw [hbody]
  obtain ⟨flow, t, hresult, hresult'⟩ | ⟨e, t, e', t', hresult, hresult', hblames⟩ :=
    (locatedBlock_tracks h body s.line { s with frames := frame :: s.frames }).ok_or_error
  · rw [hresult, hresult']
    cases flow with
    | next => exact ⟨rfl, rfl, rfl⟩
    | give value => exact ⟨rfl, rfl, rfl⟩
    | leave => exact .stray t.line s.line
    | proceed => exact .stray t.line s.line
  · rw [hresult, hresult']
    exact hblames

/-- Calls match those of a located run. -/
theorem locatedInvoke_related (setting : Setting) (pending : Nat) :
    Context.Related r.Alike ⟨setting, invoke setting pending⟩
      ⟨setting, locatedInvoke r setting pending⟩ := by
  induction pending with
  | zero => exact ⟨rfl, fun _ _ _ _ => .same _⟩
  | succ pending ih =>
    refine ⟨rfl, fun f arguments keywords => ?_⟩
    exact callWith_congruent r.congruence ih (fun _ _ _ _ => Policy.permissive_reads _)
      (locatedBody_matches ih f.body) arguments keywords

/-- A run and a located one both succeed, or both fail with errors that are reported alike. -/
def Reporting.Compares (r : Reporting) :
    (result result' : EStateM.Result EvalError State Unit) → Prop
  | .ok _ t, .ok _ t' => t' = { t with line := t'.line }
  | .error e _, .error e' _ => r.Blames e e'
  | _, _ => False

theorem locatedScript_compares (setting : Setting) (script : List Statement) (s : State) :
    r.Compares (execScript setting script s) (locatedScript r setting script s) := by
  change r.Compares (EStateM.bind (execBlock setting.context script) _ s)
    (EStateM.bind (locatedBlock r ⟨setting, locatedInvoke r setting maxPending⟩ s.line script) _ s)
  unfold EStateM.bind Setting.context
  obtain ⟨flow, t, hresult, hresult'⟩ | ⟨e, t, e', t', hresult, hresult', hblames⟩ :=
    (locatedBlock_tracks (locatedInvoke_related setting maxPending) script s.line s).ok_or_error
  · rw [hresult]
    dsimp only at hresult' ⊢
    rw [hresult']
    cases flow with
    | next => rfl
    | give value => exact .same _
    | leave => exact .same _
    | proceed => exact .same _
  · rw [hresult]
    dsimp only at hresult' ⊢
    rw [hresult']
    exact hblames

end Functions

end Monorepo.Script

namespace Monorepo

open Script

/-- Runs a script in fresh variables and comes back to the line of a statement whenever those in it
    are finished. -/
def Sandbox.locatedRun (r : Reporting) (sandbox : Sandbox) (descriptorPath : String)
    (script : List Statement) : EStateM.Result EvalError State Unit :=
  locatedScript r (sandbox.setting descriptorPath) script (.start sandbox.symbols)

/-- **The line of a fault.** A run fails if and only if the located run fails that reports the
    statement begun last, and then with the same error. The statement that raises the fault is on
    the same line, unless a loop could not bind its targets or the body of a function would leave
    a loop. Whatever is reported in these two cases, everything else is the same. -/
theorem Sandbox.run_blames (sandbox : Sandbox) (path : String) (script : List Statement) :
    (∀ r : Reporting, r.Compares (sandbox.run path script) (sandbox.locatedRun r path script)) ∧
    ∀ e t, sandbox.run path script = .error e t →
      (∃ t', sandbox.locatedRun .latest path script = .error e t') ∧
      ∃ own t', sandbox.locatedRun .exact path script = .error ⟨own, e.fault⟩ t' ∧
        (own ≠ e.line → e.fault.IsUnpacking ∨ e.fault = .exitOutsideLoop) := by
  have hcompares (r : Reporting) :
      r.Compares (sandbox.run path script) (sandbox.locatedRun r path script) :=
    locatedScript_compares _ script _
  have hfails (r : Reporting) {e : EvalError} {t : State}
      (h : sandbox.run path script = .error e t) :
      ∃ e' t', sandbox.locatedRun r path script = .error e' t' ∧ r.Blames e e' := by
    have hr := hcompares r
    rw [h] at hr
    rcases hlocated : sandbox.locatedRun r path script with ⟨a, t'⟩ | ⟨e', t'⟩ <;>
      rw [hlocated] at hr
    · exact hr.elim
    · exact ⟨e', t', rfl, hr⟩
  refine ⟨hcompares, fun e t h => ⟨?_, ?_⟩⟩
  · obtain ⟨e', t', hlocated, hblames⟩ := hfails .latest h
    obtain rfl := hblames.latest
    exact ⟨t', hlocated⟩
  · obtain ⟨e', t', hlocated, hblames⟩ := hfails .exact h
    cases hblames with
    | same => exact ⟨e.line, t', hlocated, fun hne => absurd rfl hne⟩
    | rebinding loop last hfault => exact ⟨loop, t', hlocated, fun _ => Or.inl hfault⟩
    | stray own call => exact ⟨own, t', hlocated, fun _ => Or.inr rfl⟩

/-- `x = 1` and `y = -[]`, which is a fault of the second line. -/
theorem Sandbox.run_blames_operand :
    let sandbox : Sandbox := ⟨"/repo", 20, []⟩
    let script : List Statement :=
      [.at 1 (.assign (.name "x") (.int 1)), .at 2 (.assign (.name "y") (.unary .minus (.list [])))]
    let t : State := ⟨[("x", .int 1)], [], 2, [], []⟩
    sandbox.run "BUILD" script = .error ⟨2, .badOperand "-" .list⟩ t ∧
      ∃ t', sandbox.locatedRun .latest "BUILD" script =
        .error ⟨2, .badOperand "-" .list⟩ t' := by
  intro sandbox script t
  have hrun : sandbox.run "BUILD" script = .error ⟨2, .badOperand "-" .list⟩ t := rfl
  exact ⟨hrun, ((sandbox.run_blames "BUILD" script).2 _ _ hrun).1⟩

/-- Whether the script of a text fails on the line `reported`, by a statement on the line `own`. -/
def Sandbox.fails (sandbox : Sandbox) (path source : String) (reported own : Nat) : Bool :=
  (parseScript source).toOption.any fun script =>
    match sandbox.run path script, sandbox.locatedRun .exact path script with
    | .error e _, .error e' _ => e.line == reported && e'.line == own
    | _, _ => false

theorem Sandbox.of_fails {sandbox : Sandbox} {path source : String} {reported own : Nat}
    (h : sandbox.fails path source reported own = true) :
    ∃ script e t e' t', parseScript source = .ok script ∧ sandbox.run path script = .error e t ∧
      sandbox.locatedRun .exact path script = .error e' t' ∧ e.line = reported ∧ e'.line = own := by
  unfold fails at h
  cases hparse : parseScript source with
  | error e =>
    rw [hparse] at h
    cases h
  | ok script =>
    rw [hparse] at h
    change (match sandbox.run path script, sandbox.locatedRun .exact path script with
      | .error e _, .error e' _ => e.line == reported && e'.line == own
      | _, _ => false) = true at h
    split at h
    · rename_i e t e' t' hrun hlocated
      obtain ⟨hreported, hown⟩ := (Bool.and_eq_true _ _).mp h
      exact ⟨script, e, t, e', t', rfl, hrun, hlocated, beq_iff_eq.mp hreported, beq_iff_eq.mp hown⟩
    · cases h

/-- A loop that cannot bind its targets a second time is blamed on the last line of its body, and a
    `break` in the body of a function on the call. -/
theorem Sandbox.run_blames_overtaken :
    let sandbox := Sandbox.ofConfig "/repo" {}
    let path := "/repo/src/app/BUILD"
    (∃ script e t e' t', parseScript "for a, b in [(1, 2), 3]:\n    x = 1\n" = .ok script ∧
      sandbox.run path script = .error e t ∧
      sandbox.locatedRun .exact path script = .error e' t' ∧ e.line = 2 ∧ e'.line = 1) ∧
    ∃ script e t e' t', parseScript "def f():\n    break\nf()\n" = .ok script ∧
      sandbox.run path script = .error e t ∧
      sandbox.locatedRun .exact path script = .error e' t' ∧ e.line = 3 ∧ e'.line = 2 := by
  intro sandbox path
  exact ⟨of_fails (by decide +kernel), of_fails (by decide +kernel)⟩

end Monorepo
