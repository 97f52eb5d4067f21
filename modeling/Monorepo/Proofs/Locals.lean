import Monorepo.Proofs.Compatible
import Monorepo.Proofs.Steps

/-!
# What a call sees of its caller

Two states agree on some frames if these are the same in both, with all that is not a frame. A step
that looks at the innermost frame only does the same in states that agree on that one, and leaves
states that agree again. The body of a function has a frame of its own, which is the same wherever
the call stands; so it sees nothing of the frames of its callers. The defaults of the parameters are
evaluated before there is that frame, in the frame of the caller. A call is therefore blind to the
locals of its caller as far as the defaults that it needs are, and no further.
-/

namespace Monorepo.Script

/-! ## States that agree -/

/-- Two states are the same but for the frames below the `shared` innermost ones, of which there are
    as many in both. -/
structure State.Agree (shared : Nat) (s s' : State) : Prop where
  globals : s'.globals = s.globals
  line : s'.line = s.line
  declared : s'.declared = s.declared
  warned : s'.warned = s.warned
  height : s'.frames.length = s.frames.length
  top : s'.frames.take shared = s.frames.take shared

namespace State.Agree

variable {shared : Nat} {s s' : State}

theorem frame (h : Agree (shared + 1) s s') : s'.frames.head? = s.frames.head? := by
  have hhead := congrArg List.head? h.top
  rw [List.head?_take, List.head?_take] at hhead
  simpa using hhead

theorem scope (h : Agree (shared + 1) s s') : s'.scope = s.scope := by
  unfold State.scope
  rw [List.headD_eq_head?_getD, List.headD_eq_head?_getD, h.frame, h.globals]

theorem find? (h : Agree (shared + 1) s s') (name : String) : s'.find? name = s.find? name := by
  unfold State.find?
  rw [h.frame, h.globals]

theorem setGlobals (h : Agree shared s s') (globals : Scope) :
    Agree shared { s with globals := globals } { s' with globals := globals } :=
  ⟨rfl, h.line, h.declared, h.warned, h.height, h.top⟩

theorem withScope (h : Agree shared s s') (scope : Scope) :
    Agree shared (s.withScope scope) (s'.withScope scope) := by
  obtain ⟨globals, frames, line, declared, warned⟩ := s
  obtain ⟨globals', frames', line', declared', warned'⟩ := s'
  cases frames with
  | nil =>
    obtain rfl : frames' = [] := List.length_eq_zero_iff.mp h.height
    exact h.setGlobals scope
  | cons frame frames =>
    obtain ⟨frame', frames', rfl⟩ := List.exists_cons_of_length_eq_add_one h.height
    refine ⟨h.globals, h.line, h.declared, h.warned, h.height, ?_⟩
    have htop := h.top
    cases shared with
    | zero => rfl
    | succ shared => exact congrArg (scope :: ·) (List.cons.inj htop).2

theorem store (h : Agree (shared + 1) s s') (name : String) (value : Value) :
    Agree (shared + 1) (s.store name value) (s'.store name value) := by
  unfold State.store
  rw [h.scope]
  exact h.withScope _

theorem erase (h : Agree (shared + 1) s s') (name : String) :
    Agree (shared + 1) (s.withScope (s.scope.erase name))
      (s'.withScope (s'.scope.erase name)) := by
  rw [h.scope]
  exact h.withScope _

theorem update (h : Agree (shared + 1) s s') (name : String) (value : Value) :
    Agree (shared + 1) (s.update name value) (s'.update name value) := by
  unfold State.update
  rw [h.scope, h.globals]
  split
  · exact h.withScope _
  · exact h.setGlobals _

/-- A new frame is one more that the states agree on. -/
theorem push (h : Agree shared s s') (frame : Scope) :
    Agree (shared + 1) { s with frames := frame :: s.frames }
      { s' with frames := frame :: s'.frames } :=
  ⟨h.globals, h.line, h.declared, h.warned, congrArg (· + 1) h.height,
    congrArg (frame :: ·) h.top⟩

theorem pop (h : Agree (shared + 1) s s') {line line' : Nat} (hline : line' = line) :
    Agree shared { s with frames := s.frames.tail, line := line }
      { s' with frames := s'.frames.tail, line := line' } := by
  refine ⟨h.globals, hline, h.declared, h.warned, ?_, ?_⟩
  · change s'.frames.tail.length = s.frames.tail.length
    rw [List.length_tail, List.length_tail, h.height]
  · change s'.frames.tail.take shared = s.frames.tail.take shared
    have htail (frames : List Scope) :
        (frames.take (shared + 1)).tail = frames.tail.take shared := by
      cases frames with
      | nil => rw [List.tail_nil, List.take_nil, List.take_nil, List.tail_nil]
      | cons frame frames => rfl
    rw [← htail, ← htail, h.top]

end State.Agree

/-! ## Steps that do the same -/

namespace Eval

open Leads (restored)

variable {α β : Type} {shared : Nat}

/-- Two results with the same value or the same fault, in states that agree. -/
def Alike (shared : Nat) : (result result' : EStateM.Result EvalError State α) → Prop
  | .ok a t, .ok a' t' => a' = a ∧ t.Agree shared t'
  | .error e t, .error e' t' => e' = e ∧ t.Agree shared t'
  | _, _ => False

/-- From states that agree on the `shared` innermost frames a step has the same result, and leaves
    states that agree on them. -/
def Mirrors (shared : Nat) (x : Eval α) : Prop :=
  ∀ s s', State.Agree shared s s' → Alike shared (x s) (x s')

namespace Mirrors

theorem pure (a : α) : Mirrors shared (pure a : Eval α) := fun _ _ h => ⟨rfl, h⟩

theorem fault (f : EvalFault) : Mirrors shared (fault f : Eval α) := by
  intro s s' h
  refine ⟨?_, h⟩
  rw [h.line]

theorem modify {f : State → State}
    (hf : ∀ s s', State.Agree shared s s' → State.Agree shared (f s) (f s')) :
    Mirrors shared (modify f : Eval Unit) :=
  fun s s' h => ⟨rfl, hf s s' h⟩

theorem height : Mirrors shared height := fun _ _ h => ⟨h.height, h⟩

theorem bind {x : Eval α} {f : α → Eval β} (hx : Mirrors shared x)
    (hf : ∀ a, Mirrors shared (f a)) : Mirrors shared (x >>= f) := by
  intro s s' h
  have hfirst := hx s s' h
  change Alike shared (EStateM.bind x f s) (EStateM.bind x f s')
  unfold EStateM.bind
  rcases hresult : x s with ⟨a, t⟩ | ⟨e, t⟩ <;> rcases hresult' : x s' with ⟨a', t'⟩ | ⟨e', t'⟩ <;>
    rw [hresult, hresult'] at hfirst
  · obtain ⟨rfl, hagree⟩ := hfirst
    exact hf a' t t' hagree
  · exact hfirst.elim
  · exact hfirst.elim
  · exact hfirst

theorem sequential (shared : Nat) : Sequential fun {_} x => Mirrors shared x where
  pure := pure
  fault := fault
  bind := bind
  height := height

theorem found (name : String) : Mirrors (shared + 1) (found name) :=
  fun _ _ h => ⟨h.find? name, h⟩

theorem warn (notice : Notice) : Mirrors shared (warn notice) := by
  refine modify fun s s' h => ?_
  dsimp only
  rw [h.line, h.warned]
  split
  · exact h
  · exact ⟨h.globals, rfl, h.declared, rfl, h.height, h.top⟩

theorem agree_restored (saved : List (String × Option Value)) {s s' : State}
    (h : State.Agree (shared + 1) s s') :
    State.Agree (shared + 1) (restored saved s) (restored saved s') := by
  induction saved generalizing s s' with
  | nil => exact h
  | cons row saved ih =>
    obtain ⟨name, value⟩ := row
    cases value with
    | some value => exact ih (h.store name value)
    | none => exact ih (h.erase name)

theorem restoring (names : List String) {x : Eval α} (hx : Mirrors (shared + 1) x) :
    Mirrors (shared + 1) (restoring names x) := by
  intro s s' h
  have hinner := hx s s' h
  unfold Eval.restoring
  dsimp only
  rw [h.scope]
  rcases hresult : x s with ⟨a, t⟩ | ⟨e, t⟩ <;> rcases hresult' : x s' with ⟨a', t'⟩ | ⟨e', t'⟩ <;>
    rw [hresult, hresult'] at hinner
  · exact ⟨hinner.1, agree_restored _ hinner.2⟩
  · exact hinner.elim
  · exact hinner.elim
  · exact ⟨hinner.1, agree_restored _ hinner.2⟩

/-- What is done in a frame of its own sees one frame less of those outside. -/
theorem inFrame (frame : Scope) {x : Eval α} (hx : Mirrors (shared + 1) x) :
    Mirrors shared (inFrame frame x) := by
  intro s s' h
  have hinner := hx _ _ (h.push frame)
  unfold Eval.inFrame
  dsimp only
  rcases hresult : x { s with frames := frame :: s.frames } with ⟨a, t⟩ | ⟨e, t⟩ <;>
    rcases hresult' : x { s' with frames := frame :: s'.frames } with ⟨a', t'⟩ | ⟨e', t'⟩ <;>
    rw [hresult, hresult'] at hinner
  · exact ⟨hinner.1, hinner.2.pop h.line⟩
  · exact hinner.elim
  · exact hinner.elim
  · exact ⟨hinner.1, hinner.2.pop h.line⟩

/-- To see the innermost frame at most is compatible with evaluation. -/
theorem compatible : Compatible fun _ _ x => ∀ shared, Mirrors (shared + 1) x where
  pure a _ := pure a
  fault f _ := fault f
  bind hx hf shared := (hx shared).bind fun a => hf a shared
  mono _ hx := hx
  found name _ := found name
  height _ := height
  warn notice _ := warn notice
  setLine line _ := modify fun _ _ h =>
    ⟨h.globals, rfl, h.declared, h.warned, h.height, h.top⟩
  declare kind keywords _ := modify fun s s' h => by
    refine ⟨h.globals, h.line, ?_, h.warned, h.height, h.top⟩
    change _ :: s'.declared = _ :: s.declared
    rw [h.line, h.declared]
  update name value _ := modify fun _ _ h => h.update name value
  store value _ _ := modify fun _ _ h => h.store _ value
  restoring hx shared := restoring _ (hx shared)
  inFrame frame _ _ hx shared := inFrame frame (hx (shared + 1))

end Mirrors

end Eval

/-! ## Calls -/

open Eval

variable (setting : Setting) (pending : Nat)

theorem execBlock_mirrors (body : List Statement) (shared : Nat) :
    Mirrors (shared + 1) (execBlock ⟨setting, invoke setting pending⟩ body) := by
  have hcalls := invoke_compatible Mirrors.compatible setting pending
  exact execBlock_compatible (c := ⟨setting, invoke setting pending⟩) Mirrors.compatible hcalls
    body shared

/-- A call has the same outcome, the same declarations and the same globals in states that differ in
    the frames only, if those of its parameter defaults that it evaluates have. -/
theorem callFunction_mirrors (f : Function) (arguments : List Value) (keywords : Keywords)
    (hdefaults : ∀ e ∈ neededDefaults f.parameters arguments keywords,
      Mirrors 0 (eval ⟨setting, invoke setting pending⟩ e)) :
    Mirrors 0 (callFunction ⟨setting, invoke setting pending⟩ f arguments keywords) :=
  callFunction_sequential (Mirrors.sequential 0) f arguments keywords hdefaults fun frame =>
    Mirrors.inFrame frame (execBlock_mirrors setting pending f.body 0)

/-- `def g(x=None): return x` -/
theorem callFunction_mirrors_absent :
    (∀ e ∈ neededDefaults [⟨"x", some .none⟩] [] [],
      Mirrors 0 (eval ⟨⟨"", 3, ""⟩, invoke ⟨"", 3, ""⟩ 1⟩ e)) ∧
    Mirrors 0 (callFunction ⟨⟨"", 3, ""⟩, invoke ⟨"", 3, ""⟩ 1⟩
      ⟨1, "g", [⟨"x", some .none⟩], [.at 2 (.give (some (.name "x")))]⟩ [] []) := by
  have hdefaults : ∀ e ∈ neededDefaults [⟨"x", some .none⟩] [] [],
      Mirrors 0 (eval ⟨⟨"", 3, ""⟩, invoke ⟨"", 3, ""⟩ 1⟩ e) := by
    intro e he
    obtain rfl : e = .none := List.mem_singleton.mp he
    unfold eval
    exact Mirrors.pure _
  exact ⟨hdefaults, callFunction_mirrors _ 1 ⟨1, "g", _, _⟩ [] [] hdefaults⟩

/-- The default of `def g(x=y): return x` is a local of the caller where the caller has such a
    local. -/
theorem callFunction_sees_caller :
    ¬ ∀ (setting : Setting) (pending : Nat) (f : Function) (arguments : List Value)
      (keywords : Keywords),
      Mirrors 0 (callFunction ⟨setting, invoke setting pending⟩ f arguments keywords) := by
  intro h
  let caller (value : Int) : State := ⟨[("y", .int 0)], [[("y", .int value)]], 4, [], []⟩
  have hagree : State.Agree 0 (caller 1) (caller 2) := ⟨rfl, rfl, rfl, rfl, rfl, rfl⟩
  let g : Function := ⟨1, "g", [⟨"x", some (.name "y")⟩], [.at 2 (.give (some (.name "x")))]⟩
  have halike := h ⟨"", 3, ""⟩ 1 g [] [] _ _ hagree
  have hvalue : Value.int 2 = Value.int 1 := halike.1
  cases hvalue

end Monorepo.Script
