import Monorepo.Proofs.Recursion

/-!
# What holds between statements

A run is watched if something looks at the state before and after every statement, be it of the
script, of a block or of a function. A watch that does nothing leaves the run as it is. So a
property holds at all boundaries between statements if a watch that stops the run where it fails
leaves the run as it is too, whatever the alarm with which it would stop.
-/

namespace Monorepo.Script

open Eval (Leads)

/-! ## Watched runs -/

section Watched

variable (watch : Eval Unit) (context : Context)

mutual

/-- Executes a statement under a watch. -/
def watched : Statement → Eval Flow
  | .at line action => do
    watch
    Eval.setLine line
    let flow ← watchedAction line action
    watch
    return flow

/-- Executes what stands on a line, with a watch on the statements in its blocks. -/
def watchedAction (line : Nat) : Action → Eval Flow
  | .branch branches otherwise => do
    match ← watchedBranches branches with
    | some flow => return flow
    | none => watchedBlock otherwise
  | .loop targets source body => do
    let items ← Eval.items (← eval context source)
    let turn (item : Value) : Eval Flow := do
      Eval.bindTargets targets item
      watchedBlock body
    runLoop turn items
  | action => execAction context line action

/-- Executes the statements of a block under a watch. -/
def watchedBlock : List Statement → Eval Flow
  | [] => return .next
  | statement :: statements => do
    match ← watched statement with
    | .next => watchedBlock statements
    | flow => return flow

/-- Executes the block of the first condition that holds under a watch. -/
def watchedBranches : List (Expr × List Statement) → Eval (Option Flow)
  | [] => return none
  | (condition, block) :: branches => do
    if (← eval context condition).isTrue then return some (← watchedBlock block)
    else watchedBranches branches

end

end Watched

/-- What calls do under a watch. -/
def watchedInvoke (watch : Eval Unit) (setting : Setting) : Nat → Invoke
  | 0 => fun _ _ _ => Eval.fault .recursion
  | pending + 1 =>
    let context : Context := ⟨setting, watchedInvoke watch setting pending⟩
    callWith (watchedBlock watch context) context

/-- Executes a whole script under a watch. -/
def watchedScript (watch : Eval Unit) (setting : Setting) (script : List Statement) :
    Eval Unit := do
  match ← watchedBlock watch ⟨setting, watchedInvoke watch setting maxPending⟩ script with
  | .next => return
  | .give _ => Eval.fault .returnOutsideFunction
  | .leave | .proceed => Eval.fault .exitOutsideLoop

open Classical in
/-- Stops with an alarm where a property fails. -/
noncomputable def guard (P : State → Prop) (alarm : EvalFault) : Eval Unit :=
  fun s => if P s then .ok () s else .error ⟨s.line, alarm⟩ s

/-- At every boundary between statements that a run reaches, `P` holds: to stop the run where it
    fails makes no difference. -/
def AtBoundaries (P : State → Prop) (setting : Setting) (script : List Statement) (s : State) :
    Prop :=
  ∀ alarm, watchedScript (guard P alarm) setting script s = execScript setting script s

/-! ### What a watch sees -/

section Seen

variable {P : State → Prop} {alarm : EvalFault} {setting : Setting} {s t : State}

theorem of_guard {a : Unit} (h : guard P alarm s = .ok a t) : t = s ∧ P s := by
  unfold guard at h
  split at h
  · cases h
    exact ⟨rfl, ‹_›⟩
  · cases h

theorem of_bind_ok {α β : Type} {x : Eval α} {f : α → Eval β} {b : β}
    (h : (x >>= f) s = .ok b t) : ∃ a u, x s = .ok a u ∧ f a u = .ok b t := by
  change EStateM.bind x f s = _ at h
  unfold EStateM.bind at h
  split at h
  · exact ⟨_, _, ‹_›, h⟩
  · cases h

/-- A statement that succeeds under a guard ends where the property holds. -/
theorem of_watched {c : Context} {statement : Statement} {flow : Flow}
    (h : watched (guard P alarm) c statement s = .ok flow t) : P s ∧ P t := by
  obtain ⟨line, action⟩ := statement
  unfold watched at h
  obtain ⟨a, u, hbefore, h⟩ := of_bind_ok h
  obtain ⟨-, u, -, h⟩ := of_bind_ok h
  obtain ⟨flow', u, -, h⟩ := of_bind_ok h
  obtain ⟨b, u', hafter, h⟩ := of_bind_ok h
  cases h
  obtain ⟨rfl, hP⟩ := of_guard hafter
  exact ⟨(of_guard hbefore).2, hP⟩

theorem of_watchedBlock {c : Context} {block : List Statement} {flow : Flow} (hne : block ≠ [])
    (h : watchedBlock (guard P alarm) c block s = .ok flow t) : P t := by
  induction block generalizing s with
  | nil => exact absurd rfl hne
  | cons statement statements ih =>
    unfold watchedBlock at h
    obtain ⟨flow', u, hfirst, h⟩ := of_bind_ok h
    have hu := (of_watched hfirst).2
    cases flow' with
    | next =>
      cases statements with
      | nil =>
        unfold watchedBlock at h
        cases h
        exact hu
      | cons => exact ih (List.cons_ne_nil _ _) h
    | _ =>
      cases h
      exact hu

/-- Where a run ends with success, there is a boundary. -/
theorem AtBoundaries.final {script : List Statement} (h : AtBoundaries P setting script s)
    (hne : script ≠ []) (hrun : execScript setting script s = .ok () t) : P t := by
  have hwatched := (h .recursion).trans hrun
  unfold watchedScript at hwatched
  obtain ⟨flow, u, hblock, hend⟩ := of_bind_ok hwatched
  cases flow with
  | next =>
    cases hend
    exact of_watchedBlock hne hblock
  | _ => cases hend

/-- Where a run begins, there is a boundary. -/
theorem AtBoundaries.first {statement : Statement} {script : List Statement}
    (h : AtBoundaries P setting (statement :: script) s) : P s := by
  refine Classical.byContradiction fun hP => ?_
  have hstops (alarm : EvalFault) :
      watchedScript (guard P alarm) setting (statement :: script) s =
        .error ⟨s.line, alarm⟩ s := by
    have hguard : guard P alarm s = .error ⟨s.line, alarm⟩ s := if_neg hP
    obtain ⟨line, action⟩ := statement
    unfold watchedScript watchedBlock watched
    exact eval_bind_error (eval_bind_error (eval_bind_error hguard))
  have heq := (hstops .recursion).symm.trans ((h _).trans ((h _).symm.trans (hstops .tooDeep)))
  cases heq

end Seen

/-! ## Statements under a policy -/

section Statements

variable {p : Policy} {c c' : Context} {watch : Eval Unit}

theorem assignItem_leads (hp : p.Lawful) {name : String} (hname : p.names name) {key value : Value}
    (hkey : p.Admits key) (hvalue : p.Admits value) :
    Leads p.rule (fun _ => True) (assignItem name key value) (assignItem name key value) := by
  refine Leads.get_bind fun s hs => ?_
  cases hfind : s.find? name with
  | none => exact Leads.warn _ s hs
  | some container =>
    refine Eval.LeadsAt.lift_bind hs (fun changed hchanged => ?_) fun _ _ => trivial
    exact hp.update_leads hs hfind (all_replaceItem hp.kept (hs.find? hfind hname).parts
      hkey.parts hvalue.parts hchanged)

/-- What is assigned to a part of a value that is no variable's is dropped if that is a stub. -/
theorem temporary_leads (hp : p.Lawful) (h : p.Agrees c c') {e : Expr} (he : e.All p.Reads)
    (fault : Value → EvalFault) :
    Leads p.rule (fun _ => True)
      (do match ← eval c e with
        | .stub _ => return
        | other => Eval.fault (fault other))
      (do match ← eval c' e with
        | .stub _ => return
        | other => Eval.fault (fault other)) := by
  refine (eval_leads hp h e he).bind fun object _ => ?_
  cases object with
  | stub trace => exact Leads.pure trivial
  | _ => exact Leads.fault trivial

theorem assign_leads (hp : p.Lawful) (h : p.Agrees c c') {target : Target}
    (htarget : ∀ e, target = .place e → e.All p.Reads) {value : Value} (hvalue : p.Admits value) :
    Leads p.rule (fun _ => True) (assign c target value) (assign c' target value) := by
  unfold assign
  split
  · exact Leads.store fun _ => hvalue
  · exact Leads.unpack hp.admits_stub (fun _ => trivial) (fun _ hi => hp.admits_items hvalue hi) _
  · obtain ⟨hname, hindex⟩ := (htarget _ rfl).link rfl
    exact (eval_leads hp h _ hindex).bind fun key hkey => assignItem_leads hp hname.self hkey hvalue
  · obtain ⟨hof, hindex⟩ := (htarget _ rfl).link rfl
    exact ((eval_leads hp h _ hindex).map (R := fun _ => True) fun _ _ => trivial).bind
      fun _ _ => temporary_leads hp h hof _
  · exact temporary_leads hp h (htarget _ rfl).attribute _
  · exact Leads.fault trivial

theorem augment_leads (hp : p.Lawful) (h : p.Agrees c c') {name : String} (hname : p.names name)
    (op : ArithmeticOp) {e : Expr} (he : e.All p.Reads) :
    Leads p.rule (fun _ => True) (augment c name op e) (augment c' name op e) := by
  refine (Leads.lookup hname (hp.admits_stub name)).bind fun current hcurrent => ?_
  refine (eval_leads hp h e he).bind fun operand hoperand => ?_
  refine (Policy.lift_leads fun v hv =>
    all_operate hp.kept hcurrent.parts hoperand.parts hv).bind fun v hv => ?_
  exact (hp.bounded_leads hv).bind fun w hw => Leads.store fun _ => hw

/-- What is no branch and no loop is executed alike. -/
theorem execAction_leads (hp : p.Lawful) (h : p.Agrees c c') {line : Nat} {action : Action}
    (hallows : p.Allows (.at line action)) (hbranch : ∀ bs o, action ≠ .branch bs o)
    (hloop : ∀ ts e b, action ≠ .loop ts e b) :
    Leads p.rule (Flow.Gives p.Admits) (execAction c line action) (execAction c' line action) := by
  obtain ⟨hexpressions, haugment⟩ := hallows.self
  unfold execAction
  cases action with
  | evaluate e =>
    have he := hexpressions e (List.mem_singleton.mpr rfl)
    exact ((eval_leads hp h e he).map (R := fun _ => True) fun _ _ => trivial).bind
      fun _ _ => Leads.pure trivial
  | assign target e =>
    have he := hexpressions e (List.mem_append_right _ (List.mem_singleton.mpr rfl))
    refine (eval_leads hp h e he).bind fun value hvalue => ?_
    refine (assign_leads hp h (fun place hplace => ?_) hvalue).bind fun _ _ => Leads.pure trivial
    subst hplace
    exact hexpressions place (List.mem_append_left _ (List.mem_singleton.mpr rfl))
  | augment name op e =>
    have he := hexpressions e (List.mem_singleton.mpr rfl)
    exact (augment_leads hp h (haugment name op e rfl) op he).bind fun _ _ => Leads.pure trivial
  | imports bindings =>
    exact (bindImports_leads hp.admits_stub bindings).bind fun _ _ => Leads.pure trivial
  | branch bs o => exact absurd rfl (hbranch bs o)
  | loop ts e b => exact absurd rfl (hloop ts e b)
  | define name parameters body =>
    have hf : p.AllowsFunction ⟨line, name, parameters, body⟩ := by
      refine ⟨fun e he => hexpressions e (List.mem_append_left _ he), fun s hs => ?_⟩
      exact hallows.block (List.mem_singleton.mpr rfl) s hs
    have hadmits : p.Admits (.function ⟨line, name, parameters, body⟩) :=
      ⟨⟨hf, List.forall_mem_nil _⟩, hp.measured ⟨1, rfl⟩⟩
    exact (Leads.store fun _ => hadmits).bind fun _ _ => Leads.pure trivial
  | give value =>
    refine Leads.get_bind fun s hs => ?_
    refine Leads.ite (fun _ => Leads.fault trivial) (fun _ => ?_) s hs
    cases value with
    | none => exact Leads.pure (hp.admits_atom rfl rfl)
    | some e =>
      have he := hexpressions e (List.mem_singleton.mpr rfl)
      exact (eval_leads hp h e he).bind fun v hv => Leads.pure hv
  | leave | proceed | pass => exact Leads.pure trivial

mutual

/-- Under a watch that is silent wherever the policy is kept, statements do what they do without
    it. -/
theorem watched_leads (hp : p.Lawful) (h : p.Agrees c c')
    (hwatch : Leads p.rule (fun _ => True) watch (pure ())) :
    (s : Statement) → p.Allows s →
      Leads p.rule (Flow.Gives p.Admits) (watched watch c s) (exec c' s)
  | .at line action, hs => by
    unfold watched exec
    have haction := watchedAction_leads hp h hwatch line action hs
    have hafter : Leads p.rule (Flow.Gives p.Admits)
        (do let flow ← watchedAction watch c line action; watch; return flow)
        (execAction c' line action) := by
      have hbind := haction.bind (R := Flow.Gives p.Admits) (f := fun flow => do watch; return flow)
        (g := fun flow => do pure (); return flow) fun flow hflow =>
          hwatch.bind fun _ _ => Leads.pure hflow
      simpa using hbind
    have hbefore := hwatch.bind fun _ _ => (Leads.setLine line).bind fun _ _ => hafter
    simpa using hbefore

theorem watchedAction_leads (hp : p.Lawful) (h : p.Agrees c c')
    (hwatch : Leads p.rule (fun _ => True) watch (pure ())) (line : Nat) :
    (action : Action) → p.Allows (.at line action) →
      Leads p.rule (Flow.Gives p.Admits) (watchedAction watch c line action)
        (execAction c' line action)
  | .branch branches otherwise, hs => by
    unfold watchedAction execAction
    have hbranches : ∀ b ∈ branches, b.1.All p.Reads ∧ ∀ s ∈ b.2, p.Allows s := by
      refine fun b hb => ⟨hs.self.1 b.1 ?_, hs.block (List.mem_cons_of_mem _ ?_)⟩
      · exact List.mem_append_left _ (List.mem_map.mpr ⟨b, hb, rfl⟩)
      · exact List.mem_map.mpr ⟨b, hb, rfl⟩
    refine (watchedBranches_leads hp h hwatch branches hbranches).bind fun flow hflow => ?_
    cases flow with
    | some flow => exact Leads.pure (hflow flow rfl)
    | none => exact watchedBlock_leads hp h hwatch otherwise (hs.block List.mem_cons_self)
  | .loop targets source body, hs => by
    unfold watchedAction execAction
    have hsource := hs.self.1 source (List.mem_singleton.mpr rfl)
    have hbody := hs.block (b := body) (List.mem_singleton.mpr rfl)
    refine (eval_leads hp h source hsource).bind fun value hvalue => ?_
    refine (hp.items_leads hvalue).bind fun items hitems => ?_
    exact runLoop_leads (fun item hitem => (hp.bindTargets_leads targets hitem).bind
      fun _ _ => watchedBlock_leads hp h hwatch body hbody) hitems
  | .evaluate _, hs => by
    unfold watchedAction
    exact execAction_leads hp h hs nofun nofun
  | .assign _ _, hs => by
    unfold watchedAction
    exact execAction_leads hp h hs nofun nofun
  | .augment _ _ _, hs => by
    unfold watchedAction
    exact execAction_leads hp h hs nofun nofun
  | .imports _, hs => by
    unfold watchedAction
    exact execAction_leads hp h hs nofun nofun
  | .define _ _ _, hs => by
    unfold watchedAction
    exact execAction_leads hp h hs nofun nofun
  | .give _, hs => by
    unfold watchedAction
    exact execAction_leads hp h hs nofun nofun
  | .leave, hs => by
    unfold watchedAction
    exact execAction_leads hp h hs nofun nofun
  | .proceed, hs => by
    unfold watchedAction
    exact execAction_leads hp h hs nofun nofun
  | .pass, hs => by
    unfold watchedAction
    exact execAction_leads hp h hs nofun nofun

theorem watchedBlock_leads (hp : p.Lawful) (h : p.Agrees c c')
    (hwatch : Leads p.rule (fun _ => True) watch (pure ())) :
    (block : List Statement) → (∀ s ∈ block, p.Allows s) →
      Leads p.rule (Flow.Gives p.Admits) (watchedBlock watch c block) (execBlock c' block)
  | [], _ => by
    unfold watchedBlock execBlock
    exact Leads.pure trivial
  | statement :: statements, hs => by
    unfold watchedBlock execBlock
    obtain ⟨hstatement, hrest⟩ := List.forall_mem_cons.mp hs
    refine (watched_leads hp h hwatch statement hstatement).bind fun flow hflow => ?_
    cases flow with
    | next => exact watchedBlock_leads hp h hwatch statements hrest
    | give value => exact Leads.pure hflow
    | leave | proceed => exact Leads.pure trivial

theorem watchedBranches_leads (hp : p.Lawful) (h : p.Agrees c c')
    (hwatch : Leads p.rule (fun _ => True) watch (pure ())) :
    (branches : List (Expr × List Statement)) →
      (∀ b ∈ branches, b.1.All p.Reads ∧ ∀ s ∈ b.2, p.Allows s) →
      Leads p.rule (fun flow => ∀ f ∈ flow, f.Gives p.Admits) (watchedBranches watch c branches)
        (execBranches c' branches)
  | [], _ => by
    unfold watchedBranches execBranches
    exact Leads.pure nofun
  | (condition, block) :: branches, hs => by
    unfold watchedBranches execBranches
    obtain ⟨⟨hcondition, hblock⟩, hrest⟩ := List.forall_mem_cons.mp hs
    refine (eval_leads hp h condition hcondition).bind fun value _ => ?_
    refine Leads.ite (fun _ => ?_) fun _ => watchedBranches_leads hp h hwatch branches hrest
    exact (watchedBlock_leads hp h hwatch block hblock).bind fun flow hflow =>
      Leads.pure fun f hf => Option.mem_some.mp hf ▸ hflow

end

end Statements

/-! ## Functions under a policy -/

section Functions

variable {p : Policy} {c c' : Context} {watch : Eval Unit}

theorem bindParameters_leads (hp : p.Lawful) (h : p.Agrees c c') (function : String)
    {keywords : Keywords} (hkeywords : ∀ k ∈ keywords, p.Admits k.2) {parameters : List Parameter}
    (hparameters : ∀ e ∈ parameters.filterMap Parameter.default, e.All p.Reads)
    {arguments : List Value} (harguments : ∀ v ∈ arguments, p.Admits v) {frame : Scope}
    (hframe : frame.Obeys p.rule) :
    Leads p.rule (fun frame => frame.Obeys p.rule)
      (bindParameters c function keywords parameters arguments frame)
      (bindParameters c' function keywords parameters arguments frame) := by
  induction parameters generalizing arguments frame with
  | nil => exact Leads.pure hframe
  | cons parameter parameters ih =>
    unfold bindParameters
    have hdefaults : ∀ e ∈ parameters.filterMap Parameter.default, e.All p.Reads := by
      intro e he
      obtain ⟨q, hq, hdefault⟩ := List.mem_filterMap.mp he
      exact hparameters e (List.mem_filterMap.mpr ⟨q, List.mem_cons_of_mem _ hq, hdefault⟩)
    have htail : ∀ v ∈ arguments.tail, p.Admits v :=
      fun v hv => harguments v (List.mem_of_mem_tail hv)
    have hset (value : Value) (hvalue : p.Admits value) :
        (frame.set parameter.name value).Obeys p.rule := hframe.set fun _ => hvalue
    have hrest (value : Value) (hvalue : p.Admits value) :=
      ih hdefaults htail (hset value hvalue)
    split
    · exact (Leads.fault (Q := p.Admits) trivial).bind hrest
    · rename_i hhead _
      exact (Leads.pure (harguments _ (List.mem_of_head? hhead))).bind hrest
    · rename_i hkeyword
      obtain ⟨name, hmem⟩ := Value.mem_of_keywordsGet hkeyword
      exact (Leads.pure (hkeywords _ hmem)).bind hrest
    · rename_i e _ _ hdefault
      have he := hparameters e (List.mem_filterMap.mpr ⟨parameter, List.mem_cons_self, hdefault⟩)
      exact (eval_leads hp h e he).bind hrest
    · exact (Leads.fault (Q := p.Admits) trivial).bind hrest

theorem callWith_leads (hp : p.Lawful) (h : p.Agrees c c')
    {execute execute' : List Statement → Eval Flow}
    (hexecute : ∀ block, (∀ s ∈ block, p.Allows s) →
      Leads p.rule (Flow.Gives p.Admits) (execute block) (execute' block))
    {f : Function} (hf : p.AllowsFunction f) {arguments : List Value}
    (harguments : ∀ v ∈ arguments, p.Admits v) {keywords : Keywords}
    (hkeywords : ∀ k ∈ keywords, p.Admits k.2) :
    Leads p.rule p.Admits (callWith execute c f arguments keywords)
      (callWith execute' c' f arguments keywords) := by
  obtain ⟨hparameters, hbody⟩ := hf
  have hframe := bindParameters_leads hp h f.name hkeywords hparameters harguments
    Scope.obeys_nil
  have hcall := hframe.bind fun frame hframe =>
    (Leads.inFrame hframe (hexecute f.body hbody)).bind (R := p.Admits) (f := Flow.result)
      (g := Flow.result) fun flow hflow => by
        cases flow with
        | next => exact Leads.pure (hp.admits_atom rfl rfl)
        | give value => exact Leads.pure hflow
        | leave | proceed => exact Leads.fault trivial
  have hfault {f : EvalFault} :
      Leads p.rule (fun _ : PUnit => True) (Eval.fault f) (Eval.fault f) :=
    Leads.fault trivial
  -- the checks stand in front of the rest one after another
  refine Leads.get_bind fun s hs => ?_
  refine Leads.ite (fun _ => hfault.bind fun _ _ => ?_) (fun _ => ?_) s hs
  all_goals
    refine Leads.ite (fun _ => hfault.bind fun _ _ => ?_) fun _ => ?_
    all_goals
      dsimp only
      split
      · exact hfault.bind fun _ _ => hcall
      · exact hcall

/-- Calls under a watch do what they do without it. -/
theorem watchedInvoke_agrees (hp : p.Lawful)
    (hwatch : Leads p.rule (fun _ => True) watch (pure ())) (setting : Setting) (pending : Nat) :
    p.Agrees ⟨setting, watchedInvoke watch setting pending⟩ ⟨setting, invoke setting pending⟩ := by
  induction pending with
  | zero => exact ⟨rfl, fun _ _ _ _ _ _ => Leads.fault trivial⟩
  | succ pending ih =>
    refine ⟨rfl, fun f arguments keywords hf harguments hkeywords => ?_⟩
    exact callWith_leads hp ih (watchedBlock_leads hp ih hwatch) hf harguments hkeywords

theorem watchedScript_leads (hp : p.Lawful)
    (hwatch : Leads p.rule (fun _ => True) watch (pure ())) (setting : Setting)
    {script : List Statement} (hscript : ∀ s ∈ script, p.Allows s) :
    Leads p.rule (fun _ => True) (watchedScript watch setting script)
      (execScript setting script) := by
  have hcalls := watchedInvoke_agrees hp hwatch setting maxPending
  refine (watchedBlock_leads hp hcalls hwatch script hscript).bind fun flow _ => ?_
  cases flow with
  | next => exact Leads.pure trivial
  | _ => exact Leads.fault trivial

/-- A lawful policy that a script is allowed under holds at all boundaries of its run. -/
theorem atBoundaries_obeys (hp : p.Lawful) {P : State → Prop}
    (hP : ∀ s, s.Obeys p.rule → P s) (setting : Setting) {script : List Statement}
    (hscript : ∀ s ∈ script, p.Allows s) {s : State} (hs : s.Obeys p.rule) :
    AtBoundaries P setting script s := by
  intro alarm
  have hguard : Leads p.rule (fun _ => True) (guard P alarm) (pure ()) := by
    intro t ht
    have hok : guard P alarm t = .ok () t := if_pos (hP t ht)
    unfold Eval.LeadsAt
    rw [hok]
    exact ⟨rfl, ht, trivial⟩
  exact (watchedScript_leads hp hguard setting hscript s hs).1

/-- A run that succeeds ends as the policy asks. -/
theorem execScript_obeys (hp : p.Lawful) {setting : Setting} {script : List Statement}
    (hscript : ∀ s ∈ script, p.Allows s) {s t : State} (hs : s.Obeys p.rule)
    (h : execScript setting script s = .ok () t) : t.Obeys p.rule := by
  have hidle : Leads p.rule (fun _ => True) (pure ()) (pure ()) := Leads.pure trivial
  obtain ⟨heq, hends⟩ := watchedScript_leads hp hidle setting hscript s hs
  rw [heq, h] at hends
  exact hends.1

end Functions

/-- A watch that does nothing leaves a run as it is. -/
theorem watchedScript_idle (setting : Setting) (script : List Statement) :
    watchedScript (pure ()) setting script = execScript setting script := by
  funext s
  have hs : s.Obeys Policy.permissive.rule :=
    ⟨fun _ _ _ => Policy.permissive_admits _, fun _ _ _ _ _ => Policy.permissive_admits _,
      fun _ _ => ⟨trivial, fun _ _ => Policy.permissive_admits _⟩⟩
  exact (watchedScript_leads Policy.permissive_lawful (Leads.pure trivial) setting
    (fun _ _ => Policy.permissive_allows _) s hs).1

end Monorepo.Script
