import Monorepo.Proofs.Congruence

/-!
# Compatible properties of steps

A property of steps is compatible if the building blocks of evaluation keep it. Then all that is
evaluated, executed or called has the property, for steps that are the same and have a compatible
property are congruent. A call takes its scope away again, so that it binds nothing for its caller.
-/

namespace Monorepo.Script

namespace Eval

/-- A property of steps that those have which do nothing or stop, and that is kept where steps
    follow one another, chosen by the height of the stack perhaps. -/
structure Sequential (Q : ∀ {α : Type}, Eval α → Prop) : Prop where
  pure {α : Type} (a : α) : Q (pure a : Eval α)
  fault {α : Type} (f : EvalFault) : Q (fault f : Eval α)
  bind {α β : Type} {x : Eval α} {f : α → Eval β} : Q x → (∀ a, Q (f a)) → Q (x >>= f)
  height : Q height

/-- A property of steps, given the names that they may bind, that the building blocks of evaluation
    keep. -/
structure Compatible (P : (String → Prop) → ∀ {α : Type}, Eval α → Prop) : Prop where
  pure {free : String → Prop} {α : Type} (a : α) : P free (pure a : Eval α)
  fault {free : String → Prop} {α : Type} (f : EvalFault) : P free (fault f : Eval α)
  bind {free : String → Prop} {α β : Type} {x : Eval α} {f : α → Eval β} :
    P free x → (∀ a, P free (f a)) → P free (x >>= f)
  /-- What binds few names binds no others. -/
  mono {free free' : String → Prop} {α : Type} {x : Eval α} :
    (∀ name, free name → free' name) → P free x → P free' x
  found {free : String → Prop} (name : String) : P free (found name)
  height {free : String → Prop} : P free height
  warn {free : String → Prop} (notice : Notice) : P free (warn notice)
  setLine {free : String → Prop} (line : Nat) : P free (setLine line)
  declare {free : String → Prop} (kind : String) (keywords : Keywords) :
    P free (modify fun s : State => { s with declared := ⟨kind, keywords, s.line⟩ :: s.declared })
  update {free : String → Prop} (name : String) (value : Value) :
    P free (modify fun s : State => s.update name value)
  store {free : String → Prop} {name : String} (value : Value) :
    free name → P free (store name value)
  restoring {names : List String} {α : Type} {x : Eval α} :
    P (· ∈ names) x → P noNames (restoring names x)
  inFrame (frame : Scope) {α : Type} {x : Eval α} : P allNames x → P noNames (inFrame frame x)

namespace Compatible

variable {P : (String → Prop) → ∀ {α : Type}, Eval α → Prop} (hP : Compatible P)
  {free : String → Prop} {α β : Type}
include hP

theorem sequential : Sequential fun {_} x => P free x where
  pure := hP.pure
  fault := hP.fault
  bind := hP.bind
  height := hP.height

/-- Steps that are the same and have the property. -/
theorem congruence : Congruence .permissive fun free _ x y => x = y ∧ P free x where
  pure a := ⟨rfl, hP.pure a⟩
  fault f := ⟨rfl, hP.fault f⟩
  bind := by
    rintro free α β x y f g ⟨rfl, hx⟩ h
    obtain rfl : f = g := funext fun a => (h a).1
    exact ⟨rfl, hP.bind hx fun a => (h a).2⟩
  mono hfree h := ⟨h.1, hP.mono hfree h.2⟩
  found _ := ⟨rfl, hP.found _⟩
  height := ⟨rfl, hP.height⟩
  warn notice := ⟨rfl, hP.warn notice⟩
  declare kind keywords := ⟨rfl, hP.declare kind keywords⟩
  update value _ := ⟨rfl, hP.update _ value⟩
  store value hname := ⟨rfl, hP.store value hname⟩
  restoring := by
    rintro names α x y ⟨rfl, hx⟩
    exact ⟨rfl, hP.restoring hx⟩

end Compatible

end Eval

open Eval (Compatible Sequential)

/-- A context in which the calls of functions have a property. -/
def Context.Calls (P : (String → Prop) → ∀ {α : Type}, Eval α → Prop) (c : Context) : Prop :=
  ∀ f arguments keywords, P noNames (c.invoke f arguments keywords)

section Evaluation

variable {P : (String → Prop) → ∀ {α : Type}, Eval α → Prop} {c : Context}

theorem Context.Calls.related (hc : c.Calls P) :
    c.Related (fun free _ x y => x = y ∧ P free x) c :=
  ⟨rfl, fun f arguments keywords => ⟨rfl, hc f arguments keywords⟩⟩

/-- Expressions have every compatible property that the calls of functions have. -/
theorem eval_compatible (hP : Compatible P) (hc : c.Calls P) (e : Expr) :
    P noNames (eval c e) :=
  (eval_congruent hP.congruence hc.related e fun _ _ => Policy.permissive_reads _).2

/-- Statements have every compatible property that the calls of functions have. -/
theorem execBlock_compatible (hP : Compatible P) (hc : c.Calls P) (block : List Statement) :
    P allNames (execBlock c block) :=
  (execBlock_congruent hP.congruence (fun line => ⟨rfl, hP.setLine line⟩) hc.related block
    fun _ _ => Policy.permissive_allows _).2

end Evaluation

/-! ## Functions -/

/-- The defaults that a call evaluates: those of the parameters with neither an argument by position
    nor one by name. -/
def neededDefaults (parameters : List Parameter) (arguments : List Value) (keywords : Keywords) :
    List Expr :=
  (parameters.drop arguments.length).filterMap fun p =>
    if (keywords.get? p.name).isSome then none else p.default

theorem mem_neededDefaults_cons {parameters : List Parameter} {arguments : List Value}
    {keywords : Keywords} {e : Expr} (parameter : Parameter)
    (h : e ∈ neededDefaults parameters arguments.tail keywords) :
    e ∈ neededDefaults (parameter :: parameters) arguments keywords := by
  cases arguments with
  | cons argument arguments => exact h
  | nil =>
    obtain ⟨p, hp, he⟩ := List.mem_filterMap.mp h
    exact List.mem_filterMap.mpr ⟨p, List.mem_cons_of_mem _ hp, he⟩

theorem mem_neededDefaults_self {parameters : List Parameter} {parameter : Parameter}
    {arguments : List Value} {keywords : Keywords} {e : Expr} (harguments : arguments.head? = none)
    (hkeywords : keywords.get? parameter.name = none) (hdefault : parameter.default = some e) :
    e ∈ neededDefaults (parameter :: parameters) arguments keywords := by
  obtain rfl := List.head?_eq_none_iff.mp harguments
  refine List.mem_filterMap.mpr ⟨parameter, List.mem_cons_self, ?_⟩
  rw [hkeywords, hdefault]
  rfl

section Calls

variable {Q : ∀ {α : Type}, Eval α → Prop} {c : Context}

/-- The frame of a call has the properties of the defaults that are evaluated for it. -/
theorem bindParameters_sequential (hQ : Sequential Q) (function : String) (keywords : Keywords)
    (parameters : List Parameter) (arguments : List Value) (frame : Scope)
    (h : ∀ e ∈ neededDefaults parameters arguments keywords, Q (eval c e)) :
    Q (bindParameters c function keywords parameters arguments frame) := by
  induction parameters generalizing arguments frame with
  | nil => exact hQ.pure _
  | cons parameter parameters ih =>
    unfold bindParameters
    have hrest (value : Value) := ih arguments.tail (frame.set parameter.name value)
      fun e he => h e (mem_neededDefaults_cons parameter he)
    split
    · exact hQ.bind (hQ.fault _) hrest
    · exact hQ.bind (hQ.pure _) hrest
    · exact hQ.bind (hQ.pure _) hrest
    · rename_i e harguments hkeywords hdefault
      exact hQ.bind (h e (mem_neededDefaults_self harguments hkeywords hdefault)) hrest
    · exact hQ.bind (hQ.fault _) hrest

/-- A call checks its arguments, makes the frame, executes the body in it and takes the value that
    the body returns. -/
theorem callFunction_sequential (hQ : Sequential Q) (f : Function) (arguments : List Value)
    (keywords : Keywords)
    (hdefaults : ∀ e ∈ neededDefaults f.parameters arguments keywords, Q (eval c e))
    (hbody : ∀ frame, Q (Eval.inFrame frame (execBlock c f.body))) :
    Q (callFunction c f arguments keywords) := by
  have hfault {α β : Type} (fault : EvalFault) (g : α → Eval β) : Q (Eval.fault fault >>= g) :=
    hQ.fault fault
  -- the height of the stack decides before all the rest
  change Q (Eval.height >>= fun n => if n ≥ maxFrames then _ else _)
  refine hQ.bind hQ.height fun n => ?_
  split
  · exact hfault _ _
  · split
    · exact hfault _ _
    · dsimp only
      split
      · exact hfault _ _
      · refine hQ.bind (bindParameters_sequential hQ f.name keywords f.parameters arguments []
          hdefaults) fun frame => ?_
        refine hQ.bind (hbody frame) fun flow => ?_
        cases flow with
        | give value => exact hQ.pure value
        | next => exact hQ.pure _
        | leave => exact hQ.fault _
        | proceed => exact hQ.fault _

end Calls

section Invocations

variable {P : (String → Prop) → ∀ {α : Type}, Eval α → Prop} {c : Context}

theorem callFunction_compatible (hP : Compatible P) (hc : c.Calls P) (f : Function)
    (arguments : List Value) (keywords : Keywords) :
    P noNames (callFunction c f arguments keywords) := by
  refine callFunction_sequential hP.sequential f arguments keywords (fun e _ => ?_) fun frame => ?_
  · exact eval_compatible hP hc e
  · exact hP.inFrame frame (execBlock_compatible hP hc f.body)

/-- Whatever calls may be in progress, a call has every compatible property. -/
theorem invoke_compatible (hP : Compatible P) (setting : Setting) (pending : Nat) (f : Function)
    (arguments : List Value) (keywords : Keywords) :
    P noNames (invoke setting pending f arguments keywords) := by
  induction pending generalizing f arguments keywords with
  | zero => exact hP.fault _
  | succ pending ih =>
    have hc : Context.Calls P ⟨setting, invoke setting pending⟩ := ih
    exact callFunction_compatible hP hc f arguments keywords

end Invocations

end Monorepo.Script
