import Monorepo.Proofs.Frames
import Monorepo.Proofs.Locals

/-!
# What a run does not look at

A run puts declarations in front of those that are there already, and never looks at them. It does
not look at the variables of outer calls either, and leaves them as they are. So it does the same in
a state without declarations and without variables in outer calls.
-/

namespace Monorepo.Script

/-! ## Earlier declarations -/

/-- A state with earlier declarations. -/
def State.behind (s : State) (calls : List TargetCall) : State :=
  { s with declared := s.declared ++ calls }

namespace Eval

variable {α β : Type}

/-- A result in another state. -/
def endingIn (f : State → State) :
    EStateM.Result EvalError State α → EStateM.Result EvalError State α
  | .ok a t => .ok a (f t)
  | .error e t => .error e (f t)

/-- Declarations that are there already stay where they are and change nothing else. -/
def Accumulates (x : Eval α) : Prop :=
  ∀ (s : State) (calls : List TargetCall), x (s.behind calls) = endingIn (·.behind calls) (x s)

namespace Accumulates

theorem withScope_behind (s : State) (calls : List TargetCall) (scope : Scope) :
    (s.behind calls).withScope scope = (s.withScope scope).behind calls := by
  obtain ⟨globals, frames, line, declared, warned⟩ := s
  cases frames <;> rfl

theorem bind {x : Eval α} {f : α → Eval β} (hx : Accumulates x) (hf : ∀ a, Accumulates (f a)) :
    Accumulates (x >>= f) := by
  intro s calls
  change EStateM.bind x f (s.behind calls) = endingIn _ (EStateM.bind x f s)
  unfold EStateM.bind
  rw [hx]
  cases x s with
  | ok a t => exact hf a t calls
  | error e t => rfl

theorem restored_behind (saved : List (String × Option Value)) (s : State)
    (calls : List TargetCall) :
    Leads.restored saved (s.behind calls) = (Leads.restored saved s).behind calls := by
  induction saved generalizing s with
  | nil => rfl
  | cons row saved ih =>
    obtain ⟨name, value⟩ := row
    cases value with
    | some value =>
      change Leads.restored saved ((s.behind calls).withScope _) = _
      rw [withScope_behind]
      exact ih _
    | none =>
      change Leads.restored saved ((s.behind calls).withScope _) = _
      rw [withScope_behind]
      exact ih _

theorem restoring {names : List String} {x : Eval α} (hx : Accumulates x) :
    Accumulates (restoring names x) := by
  intro s calls
  unfold Eval.restoring
  dsimp only
  rw [hx]
  cases x s with
  | ok a t => exact congrArg (EStateM.Result.ok a) (restored_behind _ t calls)
  | error e t => exact congrArg (EStateM.Result.error e) (restored_behind _ t calls)

theorem inFrame (frame : Scope) {x : Eval α} (hx : Accumulates x) :
    Accumulates (inFrame frame x) := by
  intro s calls
  have hinner := hx { s with frames := frame :: s.frames } calls
  unfold State.behind at hinner ⊢
  unfold Eval.inFrame
  dsimp only at hinner ⊢
  rw [hinner]
  cases x { s with frames := frame :: s.frames } <;> rfl

/-- To accumulate declarations is compatible with evaluation. -/
theorem compatible : Compatible fun _ _ x => Accumulates x where
  pure _ _ _ := rfl
  fault _ _ _ := rfl
  bind := bind
  mono _ h := h
  found _ _ _ := rfl
  height _ _ := rfl
  warn notice s calls := by
    change EStateM.Result.ok () (if s.warned.contains ⟨s.line, notice⟩ then _ else _) =
      .ok () (State.behind (if s.warned.contains ⟨s.line, notice⟩ then _ else _) calls)
    by_cases hwarned : s.warned.contains ⟨s.line, notice⟩ = true
    · rw [if_pos hwarned, if_pos hwarned]
    · rw [if_neg hwarned, if_neg hwarned]
      rfl
  setLine _ _ _ := rfl
  declare _ _ _ _ := rfl
  update name value s calls := by
    have hupdate : (s.behind calls).update name value = (s.update name value).behind calls := by
      change (if s.scope.has name then _ else _) =
        State.behind (if s.scope.has name then _ else _) _
      split
      · exact withScope_behind s calls _
      · rfl
    exact congrArg (EStateM.Result.ok ()) hupdate
  store value _ s calls := congrArg (EStateM.Result.ok ()) (withScope_behind s calls _)
  restoring := restoring
  inFrame frame _ _ hx := inFrame frame hx

end Accumulates

end Eval

/-! ## Cleared states -/

open Eval

/-- A state without its declarations, in which outer calls have no variables. -/
def State.cleared (s : State) : State :=
  { s with
    frames := s.frames.take 1 ++ (s.frames.drop 1).map fun _ => []
    declared := [] }

/-- Two results of which the second has the outer frames and the earlier declarations of `s` in
    addition. -/
def Completes {α : Type} (s : State) :
    (result result' : EStateM.Result EvalError State α) → Prop
  | .ok a u, .ok a' t => a' = a ∧ t.globals = u.globals ∧ t.frames.length = u.frames.length ∧
    t.frames.head? = u.frames.head? ∧ t.frames.tail = s.frames.tail ∧
    t.declared = u.declared ++ s.declared
  | .error _ _, .error _ _ => True
  | _, _ => False

variable (setting : Setting) (pending : Nat)

/-- A block does the same in a cleared state. -/
theorem execBlock_completes (block : List Statement) (s : State) :
    Completes s (execBlock ⟨setting, invoke setting pending⟩ block s.cleared)
      (execBlock ⟨setting, invoke setting pending⟩ block s) := by
  have haccumulates : Accumulates (execBlock ⟨setting, invoke setting pending⟩ block) :=
    execBlock_compatible (c := ⟨setting, invoke setting pending⟩) Accumulates.compatible
      (invoke_compatible Accumulates.compatible setting pending) block
  have hframes : Frames allNames (execBlock ⟨setting, invoke setting pending⟩ block) :=
    execBlock_compatible (c := ⟨setting, invoke setting pending⟩) Frames.compatible
      (invoke_compatible Frames.compatible setting pending) block
  have hagree : State.Agree 1 { s with declared := [] } s.cleared := by
    refine ⟨rfl, rfl, rfl, rfl, ?_, ?_⟩
    · change (s.frames.take 1 ++ (s.frames.drop 1).map fun _ => []).length = s.frames.length
      cases s.frames with
      | nil => rfl
      | cons frame frames => simp
    · change (s.frames.take 1 ++ (s.frames.drop 1).map fun _ => []).take 1 = s.frames.take 1
      cases s.frames with
      | nil => rfl
      | cons frame frames => rfl
  have halike := execBlock_mirrors setting pending block 0 _ _ hagree
  have hrun : execBlock ⟨setting, invoke setting pending⟩ block s = endingIn (·.behind s.declared)
      (execBlock ⟨setting, invoke setting pending⟩ block { s with declared := [] }) :=
    haccumulates { s with declared := [] } s.declared
  have hframed := hframes { s with declared := [] }
  rw [hrun]
  rcases hresult : execBlock ⟨setting, invoke setting pending⟩ block { s with declared := [] } with
    ⟨a, t⟩ | ⟨e, t⟩ <;>
    rcases hcleared : execBlock ⟨setting, invoke setting pending⟩ block s.cleared with
      ⟨a', u⟩ | ⟨e', u⟩ <;>
    rw [hresult, hcleared] at halike <;> rw [hresult] at hframed
  · obtain ⟨rfl, hu⟩ := halike
    exact ⟨rfl, hu.globals.symm, hu.height.symm, hu.frame.symm, hframed.below,
      congrArg (· ++ s.declared) hu.declared.symm⟩
  · exact halike.elim
  · exact halike.elim
  · exact trivial

end Monorepo.Script
