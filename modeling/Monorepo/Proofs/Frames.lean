import Monorepo.Proofs.Compatible
import Monorepo.Proofs.Heights
import Monorepo.Proofs.Steps

/-!
# What evaluation leaves in the scopes

A step may bind names in the innermost scope. Everywhere else the bound names stay what they were,
and no variable of an outer frame changes at all: only globals are set from within a call. An
expression binds nothing. The targets of a comprehension are bound while it runs and are then what
they were before, whether it succeeds or fails; a call takes its frame away with all that the body
bound in it.
-/

namespace Monorepo.Script

namespace Scope

theorem has_eq (scope : Scope) (name : String) : scope.has name = (scope.get? name).isSome := by
  induction scope with
  | nil => rfl
  | cons row scope ih =>
    obtain ⟨n, v⟩ := row
    rw [get?_cons]
    by_cases h : name = n
    · simp [has, h]
    · have hne : ¬ n = name := fun he => h he.symm
      rw [if_neg h, ← ih]
      simp [has, hne]

theorem get?_replace_of_ne {name other : String} (h : other ≠ name) (scope : Scope)
    (value : Value) : (scope.replace name value).get? other = scope.get? other := by
  induction scope with
  | nil => rfl
  | cons row scope ih =>
    obtain ⟨n, v⟩ := row
    unfold replace at ih ⊢
    rw [List.map_cons]
    by_cases hn : n = name
    · have hother : ¬ other = n := fun he => h (he.trans hn)
      simp only [hn, beq_self_eq_true, if_true]
      rw [get?_cons, get?_cons, if_neg h, ← hn, if_neg hother, hn, ih]
    · simp only [beq_eq_false_iff_ne.mpr hn, Bool.false_eq_true, if_false]
      rw [get?_cons, get?_cons, ih]

theorem has_replace (scope : Scope) (name other : String) (value : Value) :
    (scope.replace name value).has other = scope.has other := by
  rw [has_eq, has_eq]
  by_cases h : other = name
  · subst h
    by_cases hhas : scope.has other = true
    · rw [get?_replace hhas, ← has_eq, hhas]
      rfl
    · have hrow : ∀ row ∈ scope,
          (if (row.1 == other) = true then (row.1, value) else row) = row := by
        intro row hrow
        have hne : ¬ (row.1 == other) = true :=
          fun he => hhas (List.any_eq_true.mpr ⟨row, hrow, he⟩)
        rw [if_neg hne]
      have hsame : scope.replace other value = scope := by
        unfold replace
        exact (List.map_congr_left hrow).trans (List.map_id scope)
      rw [hsame]
  · rw [get?_replace_of_ne h]

theorem get?_set (scope : Scope) (name other : String) (value : Value) :
    (scope.set name value).get? other = if other = name then some value else scope.get? other := by
  unfold set
  by_cases hhas : scope.has name = true
  · rw [if_pos hhas]
    by_cases h : other = name
    · rw [if_pos h, h, get?_replace hhas]
    · rw [if_neg h, get?_replace_of_ne h]
  · rw [if_neg hhas, get?_cons]

theorem get?_erase (scope : Scope) (name other : String) :
    (scope.erase name).get? other = if other = name then none else scope.get? other := by
  induction scope with
  | nil => simp [erase, get?]
  | cons row scope ih =>
    obtain ⟨n, v⟩ := row
    unfold erase at ih ⊢
    by_cases hn : n = name
    · rw [List.filter_cons_of_neg (by simp [hn]), ih, get?_cons, hn]
      split <;> rfl
    · rw [List.filter_cons_of_pos (by simp [hn]), get?_cons, get?_cons, ih]
      by_cases h : other = name
      · have hne : ¬ other = n := fun he => hn (he.symm.trans h)
        rw [if_neg hne, if_pos h, if_pos h]
      · rw [if_neg h, if_neg h]

end Scope

/-! ## Framed steps -/

namespace State

theorem scope_withScope (s : State) (scope : Scope) : (s.withScope scope).scope = scope := by
  obtain ⟨globals, frames, line, declared, warned⟩ := s
  cases frames <;> rfl

/-- The state `t` comes from `s` by steps in the innermost scope that bind and unbind only names of
    `free` there, and by steps that set variables without binding any. -/
structure Framed (free : String → Prop) (s t : State) : Prop where
  height : t.frames.length = s.frames.length
  /-- The outer frames are the same. -/
  below : t.frames.tail = s.frames.tail
  scope : ∀ name, ¬ free name → t.scope.has name = s.scope.has name
  globals : s.frames ≠ [] → ∀ name, t.globals.has name = s.globals.has name

namespace Framed

variable {free free' : String → Prop} {s t u : State}

theorem refl (s : State) : Framed free s s := ⟨rfl, rfl, fun _ _ => rfl, fun _ _ => rfl⟩

theorem trans (h : Framed free s t) (h' : Framed free t u) : Framed free s u := by
  refine ⟨h'.height.trans h.height, h'.below.trans h.below, fun name hname => ?_,
    fun hframes name => ?_⟩
  · exact (h'.scope name hname).trans (h.scope name hname)
  · have hlength : s.frames.length ≠ 0 := fun hzero => hframes (List.length_eq_zero_iff.mp hzero)
    have ht : t.frames ≠ [] := by
      intro hnil
      rw [← h.height, hnil] at hlength
      exact hlength rfl
    exact (h'.globals ht name).trans (h.globals hframes name)

theorem mono (h : ∀ name, free name → free' name) (hs : Framed free s t) : Framed free' s t :=
  ⟨hs.height, hs.below, fun name hname => hs.scope name (mt (h name) hname), hs.globals⟩

/-- What does not concern variables. -/
theorem of_eq (hglobals : t.globals = s.globals) (hframes : t.frames = s.frames) :
    Framed free s t := by
  have hscope : t.scope = s.scope := by
    unfold State.scope
    rw [hglobals, hframes]
  refine ⟨by rw [hframes], by rw [hframes], fun name _ => by rw [hscope], fun _ name => ?_⟩
  rw [hglobals]

theorem withScope {scope : Scope} (h : ∀ name, ¬ free name → scope.has name = s.scope.has name) :
    Framed free s (s.withScope scope) := by
  obtain ⟨globals, frames, line, declared, warned⟩ := s
  cases frames with
  | nil => exact ⟨rfl, rfl, h, fun hnil => absurd rfl hnil⟩
  | cons frame frames => exact ⟨rfl, rfl, h, fun _ _ => rfl⟩

theorem store {name : String} (hname : free name) (value : Value) :
    Framed free s (s.store name value) := by
  refine withScope fun other hother => ?_
  have hne : other ≠ name := fun he => hother (he ▸ hname)
  rw [Scope.has_eq, Scope.get?_set, if_neg hne, ← Scope.has_eq]

theorem erase {name : String} (hname : free name) :
    Framed free s (s.withScope (s.scope.erase name)) := by
  refine withScope fun other hother => ?_
  have hne : other ≠ name := fun he => hother (he ▸ hname)
  rw [Scope.has_eq, Scope.get?_erase, if_neg hne, ← Scope.has_eq]

theorem update (s : State) (name : String) (value : Value) :
    Framed free s (s.update name value) := by
  unfold State.update
  by_cases hhas : s.scope.has name = true
  · rw [if_pos hhas]
    exact withScope fun other _ => Scope.has_replace _ _ _ _
  · rw [if_neg hhas]
    refine ⟨rfl, rfl, fun other _ => ?_, fun _ other => Scope.has_replace _ _ _ _⟩
    obtain ⟨globals, frames, line, declared, warned⟩ := s
    cases frames with
    | nil => exact Scope.has_replace _ _ _ _
    | cons frame frames => rfl

end Framed

end State

namespace Eval

open State (Framed)
open Leads (restored)

variable {α β : Type} {free : String → Prop}

/-- Wherever a step begins, it ends in a state that comes from there by binding and unbinding only
    names of `free`. -/
def Frames (free : String → Prop) {α : Type} (x : Eval α) : Prop :=
  ∀ s : State, s.Framed free (endState (x s))

theorem framed_restored {saved : List (String × Option Value)}
    (h : ∀ row ∈ saved, free row.1) (s : State) : s.Framed free (restored saved s) := by
  induction saved generalizing s with
  | nil => exact Framed.refl s
  | cons row saved ih =>
    obtain ⟨hrow, hrest⟩ := List.forall_mem_cons.mp h
    obtain ⟨name, value⟩ := row
    cases value with
    | some value => exact (Framed.store hrow value).trans (ih hrest _)
    | none => exact (Framed.erase hrow).trans (ih hrest _)

/-- Variables that are bound again have the values that were saved; the others keep theirs. -/
theorem get?_restored (old : String → Option Value) (names : List String) (s : State)
    (other : String) :
    (restored (names.map fun name => (name, old name)) s).scope.get? other =
      if other ∈ names then old other else s.scope.get? other := by
  induction names generalizing s with
  | nil => rfl
  | cons name names ih =>
    obtain ⟨t, hstep, hfirst⟩ : ∃ t, restored ((name, old name) :: names.map fun name =>
        (name, old name)) s = restored (names.map fun name => (name, old name)) t ∧
        t.scope.get? other = if other = name then old name else s.scope.get? other := by
      cases old name with
      | some value =>
        have hscope : (s.store name value).scope = s.scope.set name value := s.scope_withScope _
        refine ⟨s.store name value, rfl, ?_⟩
        rw [hscope, Scope.get?_set]
      | none =>
        refine ⟨s.withScope (s.scope.erase name), rfl, ?_⟩
        rw [s.scope_withScope, Scope.get?_erase]
    rw [List.map_cons, hstep, ih, hfirst]
    by_cases hname : other = name
    · subst hname
      simp
    · simp [hname]

theorem endState_bind (x : Eval α) (f : α → Eval β) (s : State) :
    endState ((x >>= f) s) = match x s with
      | .ok a t => endState (f a t)
      | .error _ t => t := by
  change endState (EStateM.bind x f s) = _
  unfold EStateM.bind
  cases x s <;> rfl

theorem endState_restoring (names : List String) (x : Eval α) (s : State) :
    endState (restoring names x s) =
      restored (names.map fun name => (name, s.scope.get? name)) (endState (x s)) := by
  unfold restoring
  dsimp only
  cases x s <;> rfl

theorem endState_lift (result : Except EvalFault α) (s : State) :
    endState (lift result s) = s := by
  cases result <;> rfl

namespace Frames

theorem bind {x : Eval α} {f : α → Eval β} (hx : Frames free x) (hf : ∀ a, Frames free (f a)) :
    Frames free (x >>= f) := by
  intro s
  have hfirst := hx s
  rw [endState_bind]
  cases hresult : x s with
  | error e t =>
    rw [hresult] at hfirst
    exact hfirst
  | ok a t =>
    rw [hresult] at hfirst
    exact hfirst.trans (hf a t)

/-- The names bound and unbound on the way are at last what they were. -/
theorem restoring {names : List String} {x : Eval α} (hx : Frames (· ∈ names) x) :
    Frames noNames (restoring names x) := by
  intro s
  rw [endState_restoring]
  have hback : (endState (x s)).Framed (· ∈ names)
      (restored (names.map fun name => (name, s.scope.get? name)) (endState (x s))) :=
    framed_restored (List.forall_mem_map.mpr fun _ hname => hname) _
  have hall := (hx s).trans hback
  refine ⟨hall.height, hall.below, fun name _ => ?_, hall.globals⟩
  by_cases hname : name ∈ names
  · rw [Scope.has_eq, get?_restored, if_pos hname, ← Scope.has_eq]
  · exact hall.scope name hname

/-- A frame is taken away with all that was bound in it. -/
theorem inFrame (frame : Scope) {x : Eval α} (hx : Frames allNames x) :
    Frames noNames (inFrame frame x) := by
  intro s
  have hbody := hx { s with frames := frame :: s.frames }
  have hend : endState (Eval.inFrame frame x s) =
      { endState (x { s with frames := frame :: s.frames }) with
        frames := (endState (x { s with frames := frame :: s.frames })).frames.tail
        line := s.line } := by
    unfold Eval.inFrame
    dsimp only
    cases x { s with frames := frame :: s.frames } <;> rfl
  have hframes : (endState (Eval.inFrame frame x s)).frames = s.frames := by
    rw [hend]
    exact hbody.below
  have hglobals (name : String) :
      (endState (Eval.inFrame frame x s)).globals.has name = s.globals.has name := by
    rw [hend]
    exact hbody.globals (List.cons_ne_nil _ _) name
  refine ⟨by rw [hframes], by rw [hframes], fun name _ => ?_, fun _ => hglobals⟩
  unfold State.scope
  rw [hframes]
  cases s.frames with
  | nil => exact hglobals name
  | cons frame' frames => rfl

/-- Being framed is compatible with evaluation. -/
theorem compatible : Compatible @Frames where
  pure _ s := Framed.refl s
  fault _ s := Framed.refl s
  bind := bind
  mono h hx s := (hx s).mono h
  found _ s := Framed.refl s
  height s := Framed.refl s
  warn notice s := by
    change s.Framed _ (if _ then s else _)
    split
    · exact Framed.refl s
    · exact Framed.of_eq rfl rfl
  setLine _ s := Framed.of_eq rfl rfl
  declare _ _ s := Framed.of_eq rfl rfl
  update name value s := Framed.update s name value
  store value hname s := Framed.store hname value
  restoring := restoring
  inFrame frame _ _ hx := inFrame frame hx

end Frames

end Eval

/-! ## Expressions -/

open Eval

variable (setting : Setting) (pending : Nat)

/-- Evaluation binds no name, whatever calls may be in progress. -/
theorem eval_frames (e : Expr) : Frames noNames (eval ⟨setting, invoke setting pending⟩ e) := by
  have hcalls : Context.Calls @Frames ⟨setting, invoke setting pending⟩ :=
    invoke_compatible Frames.compatible setting pending
  exact eval_compatible Frames.compatible hcalls e

/-- What follows the source of a comprehension leaves the targets as they are. -/
theorem get?_turns {targets : List String} {name : String} (hname : name ∈ targets)
    (turn : Value → Eval (Option Value)) (source : Eval Value) (s : State) :
    (endState ((do
      let items ← Eval.items (← source)
      Eval.bounded (.list (← Eval.restoring targets (gather turn items 0 0 []))) :
        Eval Value) s)).scope.get? name = (endState (source s)).scope.get? name := by
  rw [endState_bind]
  cases source s with
  | error e t => rfl
  | ok value t =>
    dsimp only
    rw [endState_bind]
    unfold Eval.items
    cases iterate value with
    | error fault => rfl
    | ok items =>
      change (endState ((Eval.restoring targets (gather turn items 0 0 []) >>= fun values =>
        Eval.bounded (.list values)) t)).scope.get? name = t.scope.get? name
      have hrestored : (endState (Eval.restoring targets (gather turn items 0 0 []) t)).scope.get?
          name = t.scope.get? name := by
        rw [endState_restoring, get?_restored, if_pos hname]
      rw [endState_bind]
      cases hresult : Eval.restoring targets (gather turn items 0 0 []) t with
      | error e u =>
        rw [hresult] at hrestored
        exact hrestored
      | ok values u =>
        rw [hresult] at hrestored
        dsimp only
        unfold Eval.bounded
        rw [endState_lift]
        exact hrestored

/-- A comprehension leaves its targets as they are once its source is evaluated. -/
theorem get?_comprehension (c : Context) (element : Expr) {targets : List String} (source : Expr)
    (condition : Option Expr) {name : String} (hname : name ∈ targets) (s : State) :
    (endState (eval c (.comprehension element targets source condition) s)).scope.get? name =
      (endState (eval c source s)).scope.get? name := by
  cases condition with
  | none =>
    rw [eval]
    exact get?_turns hname _ _ s
  | some condition =>
    rw [eval]
    exact get?_turns hname _ _ s

/-- Expressions leave the stack as high as it was, the names that are bound in every scope what they
    were and the outer frames unchanged, whether they succeed or fail at any depth; and a
    comprehension leaves its targets as they were once its source had been evaluated. -/
theorem eval_leaves_scopes :
    (∀ (e : Expr) (s : State),
      let t := endState (eval ⟨setting, invoke setting pending⟩ e s)
      t.frames.length = s.frames.length ∧
      (∀ name, t.globals.has name = s.globals.has name) ∧
      (∀ (i : Nat) (name : String),
        (t.frames[i]?).map (·.has name) = (s.frames[i]?).map (·.has name)) ∧
      ∀ i > 0, t.frames[i]? = s.frames[i]?) ∧
    ∀ (element : Expr) (targets : List String) (source : Expr) (condition : Option Expr)
      (s : State),
      ∀ name ∈ targets,
        (endState (eval ⟨setting, invoke setting pending⟩
          (.comprehension element targets source condition) s)).scope.get? name =
        (endState (eval ⟨setting, invoke setting pending⟩ source s)).scope.get? name := by
  refine ⟨fun e s => ?_, fun element targets source condition s name hname =>
    get?_comprehension _ element source condition hname s⟩
  dsimp only
  have hframed := eval_frames setting pending e s
  generalize endState (eval ⟨setting, invoke setting pending⟩ e s) = t at hframed
  obtain ⟨globals, frames, line, declared, warned⟩ := s
  obtain ⟨globals', frames', line', declared', warned'⟩ := t
  cases frames with
  | nil =>
    -- without a frame the innermost scope is that of the globals
    obtain rfl : frames' = [] := List.length_eq_zero_iff.mp hframed.height
    exact ⟨rfl, fun name => hframed.scope name id, fun _ _ => rfl, fun _ _ => rfl⟩
  | cons frame frames =>
    obtain ⟨frame', frames', rfl⟩ := List.exists_cons_of_length_eq_add_one hframed.height
    obtain rfl : frames' = frames := hframed.below
    refine ⟨rfl, hframed.globals (List.cons_ne_nil _ _), fun i name => ?_, fun i hi => ?_⟩
    · cases i with
      | zero => exact congrArg some (hframed.scope name id)
      | succ i => rfl
    · obtain ⟨j, rfl⟩ := Nat.exists_eq_succ_of_ne_zero (Nat.ne_of_gt hi)
      rfl

end Monorepo.Script
