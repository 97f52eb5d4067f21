import Monorepo.Sandbox
import Monorepo.Script.Syntax.Grammar
import Monorepo.Proofs.Heights

/-!
# How many calls are in progress

A call is in progress from its check on: first it evaluates the defaults that it needs, then it
executes its body in a frame of its own. The check counts frames, so it bounds the calls that
execute their bodies. It does not count the calls that still wait for a default. So the calls in
progress are bounded just as far as those are: if defaults call functions whose defaults call
functions only so many times in a row, that many calls can wait on top of those with a frame.

Bounds are said without counting: at most so many calls are in progress if it makes no difference
what a further one would do.
-/

namespace Monorepo.Script

open Eval (Same Keeps)

/-! ## Calls and their check -/

/-- A call behind its check. -/
def guarded (beyond : Invoke) : Invoke := fun f arguments keywords => do
  if (← get).frames.length ≥ maxFrames then Eval.fault .recursion
  beyond f arguments keywords

/-- A call past its check, with one context for the defaults and one for the body. -/
def enter (inDefaults inBody : Context) : Invoke := fun f arguments keywords => do
  if arguments.length > f.parameters.length then
    Eval.fault (.tooManyArguments f.name f.parameters.length arguments.length)
  let unexpected := keywords.find? fun (name, _) => !f.parameters.any (·.name == name)
  if let some (name, _) := unexpected then Eval.fault (.unexpectedKeyword f.name name)
  let frame ← bindParameters inDefaults f.name keywords f.parameters arguments []
  match ← Eval.inFrame frame (execBlock inBody f.body) with
  | .give value => return value
  | .next => return .none
  | .leave | .proceed => Eval.fault .exitOutsideLoop

theorem callFunction_eq (c : Context) : callFunction c = guarded (enter c c) := rfl

/-- Calls that come back to the height from which they were made. -/
def Invoke.KeepsHeight (calls : Invoke) : Prop :=
  ∀ height f arguments keywords, Keeps height (calls f arguments keywords)

section Calls

variable {height : Nat}

theorem guarded_of_lt (hheight : height < maxFrames) {calls calls' : Invoke} {f : Function}
    {arguments : List Value} {keywords : Keywords}
    (h : Same height (calls f arguments keywords) (calls' f arguments keywords)) :
    Same height (guarded calls f arguments keywords) (calls' f arguments keywords) := by
  intro s hs
  have hcheck : guarded calls f arguments keywords s = calls f arguments keywords s := by
    have hlt : ¬ s.frames.length ≥ maxFrames := by omega
    change (if s.frames.length ≥ maxFrames then _ else _ : Eval Value) s = _
    rw [if_neg hlt]
  rw [hcheck]
  exact h s hs

theorem guarded_of_le (hheight : maxFrames ≤ height) (calls : Invoke) (f : Function)
    (arguments : List Value) (keywords : Keywords) :
    Same height (guarded calls f arguments keywords) (Eval.fault .recursion) := by
  intro s hs
  have hcheck : guarded calls f arguments keywords s = Eval.fault .recursion s := by
    have hle : s.frames.length ≥ maxFrames := by omega
    change (if s.frames.length ≥ maxFrames then _ else _ : Eval Value) s = _
    rw [if_pos hle]
    rfl
  rw [hcheck]
  exact Same.fault _ s hs

theorem guarded_keeps {calls : Invoke} (h : calls.KeepsHeight) : (guarded calls).KeepsHeight :=
  fun height f arguments keywords => Same.get.bind fun _ =>
    Same.ite ((Same.fault _).bind fun _ => h height f arguments keywords)
      (h height f arguments keywords)

/-- A call does the same if its defaults and its body do. -/
theorem enter_same {d d' b b' : Context} (hd : d.Agrees height d') (hb : b.Agrees (height + 1) b')
    (f : Function) (arguments : List Value) (keywords : Keywords) :
    Same height (enter d b f arguments keywords) (enter d' b' f arguments keywords) := by
  have hbody (frame : Scope) : Same height
      (do match ← Eval.inFrame frame (execBlock b f.body) with
          | .give value => return value
          | .next => return .none
          | .leave | .proceed => Eval.fault .exitOutsideLoop)
      (do match ← Eval.inFrame frame (execBlock b' f.body) with
          | .give value => return value
          | .next => return .none
          | .leave | .proceed => Eval.fault .exitOutsideLoop) := by
    refine (Same.inFrame frame (execBlock_same hb f.body)).bind fun flow => ?_
    cases flow with
    | next => exact Same.pure _
    | give value => exact Same.pure _
    | leave => exact Same.fault _
    | proceed => exact Same.fault _
  have hframe := (bindParameters_same hd f.name keywords f.parameters arguments []).bind hbody
  -- both checks of the arguments stand in front of the same rest
  refine Same.ite ((Same.fault _).bind fun _ => ?_) ?_
  all_goals
    dsimp only
    split
    · exact (Same.fault _).bind fun _ => hframe
    · exact hframe

end Calls

/-! ## Bounds for calls -/

section Bounds

variable (setting : Setting)

/-- What calls do when `beyond` says what a call does that is made while `calls` others are in
    progress. -/
def inProgress (beyond : Invoke) : Nat → Invoke
  | 0 => guarded beyond
  | calls + 1 => callFunction ⟨setting, inProgress beyond calls⟩

/-- What calls do, from a height that leaves room for as many frames, when `inDefaults` says what
    the calls do that defaults make. -/
def bodies (inDefaults : Nat → Invoke) : Nat → Invoke
  | 0 => fun _ _ _ => Eval.fault .recursion
  | frames + 1 =>
    enter ⟨setting, inDefaults (frames + 1)⟩ ⟨setting, bodies inDefaults frames⟩

/-- The same when the calls that defaults make wait for one another at most `waits` times in a row,
    and `beyond` says what calls do that wait longer. -/
def waiting (beyond : Nat → Invoke) : Nat → Nat → Invoke
  | 0 => bodies setting beyond
  | waits + 1 => bodies setting (waiting beyond waits)

variable {setting} {beyond : Invoke}

theorem inProgress_keeps (h : beyond.KeepsHeight) (calls : Nat) :
    (inProgress setting beyond calls).KeepsHeight := by
  induction calls with
  | zero => exact guarded_keeps h
  | succ calls ih =>
    rw [inProgress, callFunction_eq]
    exact guarded_keeps fun height => enter_same (Context.agrees_mk setting (ih height))
      (Context.agrees_mk setting (ih (height + 1)))

/-- Where no frame has room, every call is refused. -/
theorem inProgress_full (beyond : Invoke) (calls : Nat) (f : Function) (arguments : List Value)
    (keywords : Keywords) :
    Same maxFrames (inProgress setting beyond calls f arguments keywords)
      (Eval.fault .recursion) := by
  cases calls with
  | zero => exact guarded_of_le (Nat.le_refl _) beyond f arguments keywords
  | succ calls =>
    rw [inProgress, callFunction_eq]
    exact guarded_of_le (Nat.le_refl _) _ f arguments keywords

theorem bodies_same {inDefaults : Nat → Invoke} {waits : Nat}
    (hdefaults : ∀ frames < maxFrames, ∀ f arguments keywords,
      Same (maxFrames - (frames + 1))
        (inProgress setting beyond (waits + frames) f arguments keywords)
        (inDefaults (frames + 1) f arguments keywords))
    (frames : Nat) (hframes : frames ≤ maxFrames) (f : Function) (arguments : List Value)
    (keywords : Keywords) :
    Same (maxFrames - frames) (inProgress setting beyond (waits + frames) f arguments keywords)
      (bodies setting inDefaults frames f arguments keywords) := by
  induction frames generalizing f arguments keywords with
  | zero => exact inProgress_full beyond (waits + 0) f arguments keywords
  | succ frames ih =>
    have hheight : maxFrames - (frames + 1) + 1 = maxFrames - frames := by omega
    have hlt : maxFrames - (frames + 1) < maxFrames := by omega
    refine guarded_of_lt hlt (enter_same (Context.agrees_mk setting (hdefaults frames hframes))
      (Context.agrees_mk setting fun f arguments keywords => ?_) f arguments keywords)
    rw [hheight]
    exact ih (by omega) f arguments keywords

/-- From a height that leaves room for so many frames, the calls in progress are those that have a
    frame and those that wait. -/
theorem waiting_same (setting : Setting) (h : beyond.KeepsHeight) (waits frames : Nat)
    (hframes : frames ≤ maxFrames) (f : Function) (arguments : List Value) (keywords : Keywords) :
    Same (maxFrames - frames) (inProgress setting beyond (waits + frames) f arguments keywords)
      (waiting setting (fun frames => inProgress setting beyond (frames - 1)) waits frames
        f arguments keywords) := by
  induction waits generalizing frames f arguments keywords with
  | zero =>
    refine bodies_same (fun frames _ f arguments keywords => ?_) frames hframes f arguments keywords
    rw [Nat.zero_add]
    exact inProgress_keeps h frames _ f arguments keywords
  | succ waits ih =>
    refine bodies_same (fun frames hlt f arguments keywords => ?_) frames hframes f arguments
      keywords
    rw [Nat.add_right_comm]
    exact ih (frames + 1) hlt f arguments keywords

/-- What a call does past its check when as many calls are in progress as may wait: one more may
    wait for every one of them that has a frame. -/
def waitingOn (setting : Setting) (beyond : Nat → Invoke) : Invoke := fun f arguments keywords => do
  let height := (← get).frames.length
  waiting setting beyond height (maxFrames - height) f arguments keywords

theorem bodies_keeps {inDefaults : Nat → Invoke} (h : ∀ n, (inDefaults n).KeepsHeight)
    (frames : Nat) : (bodies setting inDefaults frames).KeepsHeight := by
  induction frames with
  | zero => exact fun height _ _ _ => Same.fault _
  | succ frames ih =>
    exact fun height => enter_same (Context.agrees_mk setting (h (frames + 1) height))
      (Context.agrees_mk setting (ih (height + 1)))

theorem waiting_keeps {beyond : Nat → Invoke} (h : ∀ n, (beyond n).KeepsHeight)
    (waits frames : Nat) : (waiting setting beyond waits frames).KeepsHeight := by
  induction waits generalizing frames with
  | zero => exact bodies_keeps h frames
  | succ waits ih => exact bodies_keeps ih frames

theorem waitingOn_keeps {beyond : Nat → Invoke} (h : ∀ n, (beyond n).KeepsHeight) :
    (waitingOn setting beyond).KeepsHeight :=
  fun height f arguments keywords => Same.get.bind fun s =>
    waiting_keeps h s.frames.length (maxFrames - s.frames.length) height f arguments keywords

theorem waiting_zero (beyond : Nat → Invoke) (waits : Nat) :
    waiting setting beyond waits 0 = fun _ _ _ => Eval.fault .recursion := by
  cases waits <;> rfl

/-- From a height that leaves room for so many frames, the calls that may be in progress and have no
    frame below them may wait. -/
theorem inProgress_waitingOn (setting : Setting) {beyond : Nat → Invoke}
    (h : ∀ n, (beyond n).KeepsHeight) (calls frames : Nat) (hframes : frames ≤ maxFrames)
    (f : Function) (arguments : List Value) (keywords : Keywords) :
    Same (maxFrames - frames)
      (inProgress setting (waitingOn setting beyond) calls f arguments keywords)
      (waiting setting beyond (calls + (maxFrames - frames)) frames f arguments keywords) := by
  induction calls generalizing frames f arguments keywords with
  | zero =>
    cases frames with
    | zero =>
      rw [waiting_zero]
      exact inProgress_full _ _ f arguments keywords
    | succ frames =>
      have hlt : maxFrames - (frames + 1) < maxFrames := by omega
      have hroom : maxFrames - (maxFrames - (frames + 1)) = frames + 1 := by omega
      refine guarded_of_lt hlt fun s hs => ?_
      rw [Nat.zero_add]
      change waiting setting beyond s.frames.length (maxFrames - s.frames.length) f arguments
          keywords s = _ ∧
        (endState (waiting setting beyond s.frames.length (maxFrames - s.frames.length) f arguments
          keywords s)).frames.length = _
      rw [hs, hroom]
      exact waiting_keeps h _ _ _ f arguments keywords s hs
  | succ calls ih =>
    cases frames with
    | zero =>
      rw [waiting_zero]
      exact inProgress_full _ _ f arguments keywords
    | succ frames =>
      have hheight : maxFrames - (frames + 1) + 1 = maxFrames - frames := by omega
      have hlt : maxFrames - (frames + 1) < maxFrames := by omega
      rw [Nat.add_right_comm]
      refine guarded_of_lt hlt (enter_same (Context.agrees_mk setting (ih (frames + 1) hframes))
        (Context.agrees_mk setting fun f arguments keywords => ?_) f arguments keywords)
      -- the frame that the body gets is one call more that does not wait
      have hbody := ih frames (by omega) f arguments keywords
      rw [← hheight, ← Nat.add_assoc] at hbody
      exact hbody

end Bounds

/-! ## Runs -/

/-- Executes a whole script in a context. -/
def execIn (c : Context) (script : List Statement) : Eval Unit := do
  match ← execBlock c script with
  | .next => return
  | .give _ => Eval.fault .returnOutsideFunction
  | .leave | .proceed => Eval.fault .exitOutsideLoop

theorem execIn_same {height : Nat} {c c' : Context} (h : c.Agrees height c')
    (script : List Statement) : Same height (execIn c script) (execIn c' script) := by
  refine (execBlock_same h script).bind fun flow => ?_
  cases flow with
  | next => exact Same.pure _
  | _ => exact Same.fault _

/-- At most `calls` calls are in progress at any moment of a run: what a call does that is made
    while as many others are in progress makes no difference, unless the check refuses it. -/
def CallsWithin (setting : Setting) (script : List Statement) (s : State) (calls : Nat) : Prop :=
  ∀ beyond beyond' : Invoke, beyond.KeepsHeight → beyond'.KeepsHeight →
    execIn ⟨setting, inProgress setting beyond calls⟩ script s =
      execIn ⟨setting, inProgress setting beyond' calls⟩ script s

/-- At most `waits` calls wait for one another's defaults in a row at any moment of a run: what the
    calls do that wait longer makes no difference. -/
def WaitsWithin (setting : Setting) (script : List Statement) (s : State) (waits : Nat) : Prop :=
  ∀ beyond beyond' : Nat → Invoke, (∀ n, (beyond n).KeepsHeight) → (∀ n, (beyond' n).KeepsHeight) →
    execIn ⟨setting, waiting setting beyond waits maxFrames⟩ script s =
      execIn ⟨setting, waiting setting beyond' waits maxFrames⟩ script s

section Runs

variable {setting : Setting} {script : List Statement} {s : State}

/-- The calls in progress are those that have a frame, and those that wait. -/
theorem callsWithin_of_waitsWithin (hs : s.frames = []) {waits : Nat}
    (h : WaitsWithin setting script s waits) :
    CallsWithin setting script s (waits + maxFrames) := by
  have hrun {beyond : Invoke} (hbeyond : beyond.KeepsHeight) :
      execIn ⟨setting, inProgress setting beyond (waits + maxFrames)⟩ script s =
        execIn ⟨setting, waiting setting (fun frames => inProgress setting beyond (frames - 1))
          waits maxFrames⟩ script s := by
    have hagrees := Context.agrees_mk setting
      (waiting_same setting hbeyond waits maxFrames (Nat.le_refl _))
    exact (execIn_same hagrees script s ((congrArg List.length hs).trans (Nat.sub_self _).symm)).1
  intro beyond beyond' hbeyond hbeyond'
  rw [hrun hbeyond, hrun hbeyond']
  exact h _ _ (fun n => inProgress_keeps hbeyond _) (fun n => inProgress_keeps hbeyond' _)

/-- A bound for the calls in progress is one for those that wait. -/
theorem waitsWithin_of_callsWithin (hs : s.frames = []) {calls : Nat}
    (h : CallsWithin setting script s calls) : WaitsWithin setting script s calls := by
  have hrun {beyond : Nat → Invoke} (hbeyond : ∀ n, (beyond n).KeepsHeight) :
      execIn ⟨setting, inProgress setting (waitingOn setting beyond) calls⟩ script s =
        execIn ⟨setting, waiting setting beyond calls maxFrames⟩ script s := by
    have hagrees := Context.agrees_mk setting
      (inProgress_waitingOn setting hbeyond calls maxFrames (Nat.le_refl _))
    exact (execIn_same hagrees script s ((congrArg List.length hs).trans (Nat.sub_self _).symm)).1
  intro beyond beyond' hbeyond hbeyond'
  rw [← hrun hbeyond, ← hrun hbeyond']
  exact h _ _ (waitingOn_keeps hbeyond) (waitingOn_keeps hbeyond')

/-- What a call does that is made while others are in progress, if it passes its check. -/
def passed (setting : Setting) (beyond : Invoke) : Nat → Invoke
  | 0 => beyond
  | calls + 1 => enter ⟨setting, inProgress setting beyond calls⟩
      ⟨setting, inProgress setting beyond calls⟩

theorem inProgress_eq (beyond : Invoke) (calls more : Nat) :
    inProgress setting beyond (more + calls) =
      inProgress setting (passed setting beyond more) calls := by
  induction calls with
  | zero => cases more <;> rfl
  | succ calls ih =>
    change callFunction ⟨setting, inProgress setting beyond (more + calls)⟩ = _
    rw [ih]
    rfl

theorem passed_keeps {beyond : Invoke} (h : beyond.KeepsHeight) (calls : Nat) :
    (passed setting beyond calls).KeepsHeight := by
  cases calls with
  | zero => exact h
  | succ calls =>
    exact fun height => enter_same (Context.agrees_mk setting (inProgress_keeps h calls height))
      (Context.agrees_mk setting (inProgress_keeps h calls (height + 1)))

/-- The bound under which calls run is one for the calls in progress. -/
theorem invoke_eq (setting : Setting) (calls : Nat) :
    invoke setting calls = inProgress setting (fun _ _ _ => Eval.fault .recursion) calls := by
  induction calls with
  | zero =>
    funext f arguments keywords s
    change _ = (if s.frames.length ≥ maxFrames then _ else _ : Eval Value) s
    split <;> rfl
  | succ calls ih =>
    change callFunction ⟨setting, invoke setting calls⟩ = _
    rw [ih]
    rfl

/-- A run with few calls in progress is the same under every greater bound. -/
theorem CallsWithin.execIn_invoke {calls : Nat} (h : CallsWithin setting script s calls)
    {bound : Nat} (hbound : calls ≤ bound) {beyond : Invoke} (hbeyond : beyond.KeepsHeight) :
    execIn ⟨setting, invoke setting bound⟩ script s =
      execIn ⟨setting, inProgress setting beyond calls⟩ script s := by
  obtain ⟨more, rfl⟩ := Nat.exists_eq_add_of_le' hbound
  rw [invoke_eq, inProgress_eq]
  exact h _ beyond (passed_keeps (fun height _ _ _ => Same.fault _) more) hbeyond

end Runs

end Monorepo.Script

namespace Monorepo

open Script

/-- **Calls with a frame and calls that wait.** If at most `waits` calls wait for defaults at any
    moment of a run, then at most `maxFrames` more calls are in progress, since a call that would
    have more frames below it is refused; and a bound for the calls in progress is one for those
    that wait. So it is for the waiting calls alone that a run may be without bound. A run with a
    bound is the same under every greater one, and so it ends. -/
theorem Sandbox.run_calls (sandbox : Sandbox) (path : String) (script : List Statement) :
    (∀ waits, WaitsWithin (sandbox.setting path) script (.start sandbox.symbols) waits →
      CallsWithin (sandbox.setting path) script (.start sandbox.symbols) (waits + maxFrames)) ∧
    ∀ calls, CallsWithin (sandbox.setting path) script (.start sandbox.symbols) calls →
      WaitsWithin (sandbox.setting path) script (.start sandbox.symbols) calls ∧
      (∀ bound, calls ≤ bound →
        execIn ⟨sandbox.setting path, invoke (sandbox.setting path) bound⟩ script
            (.start sandbox.symbols) =
          execIn ⟨sandbox.setting path, invoke (sandbox.setting path) calls⟩ script
            (.start sandbox.symbols)) ∧
      (calls ≤ maxPending →
        sandbox.run path script =
          execIn ⟨sandbox.setting path, invoke (sandbox.setting path) calls⟩ script
            (.start sandbox.symbols)) := by
  refine ⟨fun waits h => callsWithin_of_waitsWithin rfl h, fun calls h => ?_⟩
  have hbound (bound : Nat) (hle : calls ≤ bound) :
      execIn ⟨sandbox.setting path, invoke (sandbox.setting path) bound⟩ script
          (.start sandbox.symbols) =
        execIn ⟨sandbox.setting path, invoke (sandbox.setting path) calls⟩ script
          (.start sandbox.symbols) := by
    rw [invoke_eq _ calls]
    exact h.execIn_invoke hle fun height _ _ _ => Eval.Same.fault _
  exact ⟨waitsWithin_of_callsWithin rfl h, hbound, hbound maxPending⟩

/-- A function whose default calls nothing, and a call that needs it. -/
theorem Sandbox.run_calls_default :
    let f : Function := ⟨1, "f", [⟨"x", some (.int 1)⟩], [.at 1 (.give (some (.name "x")))]⟩
    let script : List Statement :=
      [.at 1 (.define f.name f.parameters f.body), .at 2 (.evaluate (.call (.name "f") []))]
    let sandbox : Sandbox := ⟨"/repo", 20, []⟩
    WaitsWithin (sandbox.setting "BUILD") script (.start []) 0 ∧
      CallsWithin (sandbox.setting "BUILD") script (.start []) (0 + maxFrames) := by
  intro f script sandbox
  have hrun (beyond : Nat → Invoke) :
      execIn ⟨sandbox.setting "BUILD", waiting (sandbox.setting "BUILD") beyond 0 maxFrames⟩ script
        (.start []) = .ok () ⟨[("f", .function f)], [], 2, [], []⟩ := rfl
  have hwaits : WaitsWithin (sandbox.setting "BUILD") script (.start []) 0 :=
    fun beyond beyond' _ _ => (hrun beyond).trans (hrun beyond').symm
  exact ⟨hwaits, (sandbox.run_calls "BUILD" script).1 0 hwaits⟩

/-! ## Calls that wait -/

/-- A function that waits for itself sixty-six times, without a frame. -/
def waitingScript : String :=
  "L = []\ndef f(x=L.append(1) or (f() if len(L) < 66 else 0)):\n    return x\ny = f()\n"

/-- Sixty-three calls that have a frame, one that waits, and the one that it waits for. -/
def stackedScript : String :=
  "def g():\n    return 0\ndef h(x=g()):\n    return x\n" ++
    "def f(n):\n    return h() if n == 0 else f(n - 1)\ny = f(62)\n"

/-- Whether a run succeeds. -/
def succeeds : EStateM.Result EvalError State Unit → Bool
  | .ok _ _ => true
  | .error _ _ => false

/-- The run of a script in which at most `maxFrames` calls may be in progress. -/
def runWithin (sandbox : Sandbox) (path : String) (script : List Statement) :
    EStateM.Result EvalError State Unit :=
  execIn ⟨sandbox.setting path,
    inProgress (sandbox.setting path) (fun _ _ _ => Eval.fault .recursion) maxFrames⟩ script
    (.start sandbox.symbols)

/-- A script exceeds a bound if it succeeds and does not under the bound. -/
theorem not_callsWithin_of_runWithin {sandbox : Sandbox} {path source : String}
    (h : (parseScript source).toOption.any (fun script =>
      succeeds (sandbox.run path script) && !succeeds (runWithin sandbox path script)) = true) :
    ∃ script, parseScript source = .ok script ∧ succeeds (sandbox.run path script) = true ∧
      ¬ CallsWithin (sandbox.setting path) script (.start sandbox.symbols) maxFrames := by
  cases hparse : parseScript source with
  | error e =>
    rw [hparse] at h
    cases h
  | ok script =>
    rw [hparse] at h
    obtain ⟨hsucceeds, hfails⟩ := (Bool.and_eq_true _ _).mp h
    refine ⟨script, rfl, hsucceeds, fun hcalls => ?_⟩
    have heq : sandbox.run path script = runWithin sandbox path script :=
      hcalls.execIn_invoke (by decide) fun height _ _ _ => Eval.Same.fault _
    rw [← heq, hsucceeds] at hfails
    cases hfails

/-- Runs succeed with more calls in progress than may have frames, be it that many wait or that one
    waits on top of those with a frame. -/
theorem Sandbox.run_waits_beyond :
    let sandbox := Sandbox.ofConfig "/repo" {}
    let path := "/repo/src/app/BUILD"
    (∃ script, parseScript waitingScript = .ok script ∧
      succeeds (sandbox.run path script) = true ∧
      ¬ CallsWithin (sandbox.setting path) script (.start sandbox.symbols) maxFrames) ∧
    ∃ script, parseScript stackedScript = .ok script ∧
      succeeds (sandbox.run path script) = true ∧
      ¬ CallsWithin (sandbox.setting path) script (.start sandbox.symbols) maxFrames := by
  intro sandbox path
  exact ⟨not_callsWithin_of_runWithin (by decide +kernel),
    not_callsWithin_of_runWithin (by decide +kernel)⟩

/-! ## Calls that wait forever -/

/-- A function that waits for itself. -/
def endless : Function := ⟨1, "f", [⟨"x", some (.call (.name "f") [])⟩], [.at 1 .pass]⟩

/-- The script that defines it and calls it. -/
def endlessScript : List Statement :=
  [.at 1 (.define endless.name endless.parameters endless.body),
   .at 2 (.evaluate (.call (.name "f") []))]

/-- The state in which all calls of it are made. -/
def endlessState : State := ⟨[("f", .function endless)], [], 2, [], []⟩

section Endless

variable {setting : Setting} {i : Invoke} {e : EvalError}
  (h : i endless [] [] endlessState = .error e endlessState)
include h

theorem eval_endless :
    eval ⟨setting, i⟩ (.call (.name "f") []) endlessState = .error e endlessState := by
  unfold eval
  change (i endless [] [] >>= _) endlessState = _
  exact eval_bind_error h

theorem callFunction_endless :
    callFunction ⟨setting, i⟩ endless [] [] endlessState = .error e endlessState := by
  change ((eval ⟨setting, i⟩ (.call (.name "f") []) >>= _) >>= _) endlessState = _
  exact eval_bind_error (eval_bind_error (eval_endless h))

theorem execIn_endless :
    execIn ⟨setting, i⟩ endlessScript (.start []) = .error e endlessState := by
  change ((((eval ⟨setting, i⟩ (.call (.name "f") []) >>= _) >>= _) >>= _) >>= _) endlessState = _
  exact eval_bind_error (eval_bind_error (eval_bind_error (eval_bind_error (eval_endless h))))

end Endless

/-- No bound holds for the calls in progress when a function waits for itself. -/
theorem not_callsWithin_endless (setting : Setting) (calls : Nat) :
    ¬ CallsWithin setting endlessScript (.start []) calls := by
  have hcall (fault : EvalFault) (calls : Nat) :
      inProgress setting (fun _ _ _ => Eval.fault fault) calls endless [] [] endlessState =
        .error ⟨2, fault⟩ endlessState := by
    induction calls with
    | zero => rfl
    | succ calls ih => exact callFunction_endless ih
  intro hcalls
  have heq := hcalls (fun _ _ _ => Eval.fault .recursion) (fun _ _ _ => Eval.fault .unassignable)
    (fun _ _ _ _ => Eval.Same.fault _) (fun _ _ _ _ => Eval.Same.fault _)
  rw [execIn_endless (hcall .recursion calls), execIn_endless (hcall .unassignable calls)] at heq
  cases heq

end Monorepo
