import Monorepo.Proofs.Congruence

/-!
# The height of the stack

Only a call adds a frame, and it takes the frame away again; so whatever is evaluated ends with as
many frames as it began with, and the calls in it are all made from that height. Hence contexts that
agree on the calls from one height agree on everything that is evaluated at that height. Both facts
are said by one relation, which is a congruence.
-/

namespace Monorepo.Script

/-- The state in which a step ends, whether it succeeds or fails. -/
def endState {α : Type} : EStateM.Result EvalError State α → State
  | .ok _ s => s
  | .error _ s => s

namespace State

theorem frames_withScope (s : State) (scope : Scope) :
    (s.withScope scope).frames.length = s.frames.length := by
  unfold withScope
  split
  · rfl
  · rename_i h
    rw [h]
    rfl

theorem frames_store (s : State) (name : String) (value : Value) :
    (s.store name value).frames.length = s.frames.length :=
  frames_withScope s _

theorem frames_update (s : State) (name : String) (value : Value) :
    (s.update name value).frames.length = s.frames.length := by
  unfold update
  split
  · exact frames_withScope s _
  · rfl

theorem frames_foldl {α : Type} {f : State → α → State}
    (h : ∀ s a, (f s a).frames.length = s.frames.length) (as : List α) (s : State) :
    (as.foldl f s).frames.length = s.frames.length := by
  induction as generalizing s with
  | nil => rfl
  | cons a as ih => exact (ih (f s a)).trans (h s a)

end State

namespace Eval

variable {α β : Type}

/-- From a state with `height` frames both steps do the same, and end with as many frames. -/
def Same (height : Nat) (x y : Eval α) : Prop :=
  ∀ s, s.frames.length = height → x s = y s ∧ (endState (x s)).frames.length = height

/-- From a state with `height` frames a step ends with as many. -/
abbrev Keeps (height : Nat) (x : Eval α) : Prop := Same height x x

variable {height : Nat} {x y : Eval α}

namespace Same

theorem of_keeps (h : ∀ s, (endState (x s)).frames.length = s.frames.length) : Keeps height x :=
  fun s hs => ⟨rfl, (h s).trans hs⟩

theorem pure (a : α) : Keeps height (pure a : Eval α) := of_keeps fun _ => rfl

theorem fault (f : EvalFault) : Keeps height (fault f : Eval α) := of_keeps fun _ => rfl

theorem get : Keeps height (get : Eval State) := of_keeps fun _ => rfl

theorem modify {f : State → State} (h : ∀ s, (f s).frames.length = s.frames.length) :
    Keeps height (modify f : Eval Unit) :=
  of_keeps h

theorem bind {f g : α → Eval β} (hx : Same height x y) (hf : ∀ a, Same height (f a) (g a)) :
    Same height (x >>= f) (y >>= g) := by
  intro s hs
  obtain ⟨heq, hheight⟩ := hx s hs
  change EStateM.bind x f s = EStateM.bind y g s ∧ (endState (EStateM.bind x f s)).frames.length = _
  unfold EStateM.bind
  rw [← heq]
  cases hresult : x s with
  | error e s' =>
    rw [hresult] at hheight
    exact ⟨rfl, hheight⟩
  | ok a s' =>
    rw [hresult] at hheight
    exact hf a s' hheight

theorem ite {b : Prop} [Decidable b] {x' y' : Eval α} (h : Same height x y)
    (h' : Same height x' y') : Same height (if b then x else x') (if b then y else y') := by
  split
  · exact h
  · exact h'

/-- A step in a frame of its own. -/
theorem inFrame (frame : Scope) (h : Same (height + 1) x y) :
    Same height (inFrame frame x) (inFrame frame y) := by
  intro s hs
  obtain ⟨heq, hheight⟩ := h { s with frames := frame :: s.frames } (congrArg (· + 1) hs)
  unfold Eval.inFrame
  dsimp only
  rw [← heq]
  cases hresult : x { s with frames := frame :: s.frames } with
  | ok a s' =>
    rw [hresult] at hheight
    exact ⟨rfl, List.length_tail.trans (congrArg (· - 1) hheight)⟩
  | error e s' =>
    rw [hresult] at hheight
    exact ⟨rfl, List.length_tail.trans (congrArg (· - 1) hheight)⟩

theorem restoring (names : List String) (h : Same height x y) :
    Same height (restoring names x) (restoring names y) := by
  intro s hs
  obtain ⟨heq, hheight⟩ := h s hs
  unfold Eval.restoring
  dsimp only
  rw [← heq]
  rcases hresult : x s with ⟨a, s'⟩ | ⟨e, s'⟩
  all_goals
    rw [hresult] at hheight
    refine ⟨rfl, (State.frames_foldl (fun s row => ?_) _ s').trans hheight⟩
    obtain ⟨name, value⟩ := row
    cases value with
    | some value => exact s.frames_store name value
    | none => exact s.frames_withScope _

/-- To do the same from a height is a congruence. -/
theorem congruence (height : Nat) : Congruence .permissive fun _ _ x y => Same height x y where
  pure := pure
  fault := fault
  bind := bind
  mono _ h := h
  found _ := of_keeps fun _ => rfl
  height := of_keeps fun _ => rfl
  warn notice := modify fun s => by dsimp only; split <;> rfl
  declare _ _ := modify fun _ => rfl
  update value _ := modify fun s => s.frames_update _ value
  store value _ := modify fun s => s.frames_store _ value
  restoring := restoring _

end Same

end Eval

open Eval (Same Keeps)

/-! ## Calls -/

/-- Contexts in the same surroundings that agree on the calls from one height. -/
structure Context.Agrees (height : Nat) (c c' : Context) : Prop where
  setting : c.setting = c'.setting
  invoke : ∀ f arguments keywords,
    Same height (c.invoke f arguments keywords) (c'.invoke f arguments keywords)

theorem Context.agrees_mk {height : Nat} (setting : Setting) {i i' : Invoke}
    (h : ∀ f arguments keywords, Same height (i f arguments keywords) (i' f arguments keywords)) :
    Context.Agrees height ⟨setting, i⟩ ⟨setting, i'⟩ :=
  ⟨rfl, h⟩

theorem Context.Agrees.related {height : Nat} {c c' : Context} (h : c.Agrees height c') :
    c.Related (fun _ _ x y => Same height x y) c' :=
  ⟨h.setting, h.invoke⟩

section Statements

variable {height : Nat} {c c' : Context}

/-- Contexts that agree on the calls from a height agree on statements. -/
theorem execBlock_same (h : c.Agrees height c') (block : List Statement) :
    Same height (execBlock c block) (execBlock c' block) :=
  execBlock_congruent (Same.congruence height) (fun _ => Same.modify fun _ => rfl) h.related block
    fun _ _ => Policy.permissive_allows _

theorem bindParameters_same (h : c.Agrees height c') (function : String) (keywords : Keywords)
    (parameters : List Parameter) (arguments : List Value) (frame : Scope) :
    Same height (bindParameters c function keywords parameters arguments frame)
      (bindParameters c' function keywords parameters arguments frame) :=
  bindParameters_congruent (Same.congruence height) h.related function keywords
    (fun _ _ _ _ => Policy.permissive_reads _) arguments frame

end Statements

end Monorepo.Script
