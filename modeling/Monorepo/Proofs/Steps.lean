import Monorepo.Script.Evaluation

/-!
# What the steps of a run keep

A rule says what is asked of the values of variables and of the targets that are declared. A step
keeps a rule if it leads from a state that obeys it to another one, with a result as it should be;
and if it stops, then with a fault that the rule allows. This is said of two steps at once, which
have to do the same wherever the rule is obeyed, so that it also tells when one evaluation may stand
for another. It is proved for every building block of evaluation on its own.
-/

namespace Monorepo.Script

/-- What is asked of the states of a run. -/
structure Rule where
  /-- The variables that are watched. -/
  names : String → Prop
  /-- What their values satisfy. -/
  values : Value → Prop
  /-- What declarations satisfy. -/
  calls : TargetCall → Prop
  /-- The faults that may end a run. -/
  faults : EvalFault → Prop

/-! ## Variables -/

namespace Scope

theorem get?_cons (n name : String) (v : Value) (scope : Scope) :
    get? ((n, v) :: scope) name = if name = n then some v else scope.get? name := by
  unfold get?
  rw [List.lookup_cons]
  by_cases h : name = n
  · simp [h]
  · simp [beq_false_of_ne h, h]

theorem mem_of_get? {scope : Scope} {name : String} {value : Value}
    (h : scope.get? name = some value) : (name, value) ∈ scope := by
  induction scope with
  | nil => cases h
  | cons row scope ih =>
    obtain ⟨n, v⟩ := row
    rw [get?_cons] at h
    split at h
    · rename_i hn
      cases h
      rw [hn]
      exact List.mem_cons_self
    · exact List.mem_cons_of_mem _ (ih h)

theorem has_of_get? {scope : Scope} {name : String} {value : Value}
    (h : scope.get? name = some value) : scope.has name = true :=
  List.any_eq_true.mpr ⟨_, mem_of_get? h, beq_self_eq_true name⟩

theorem get?_eq_none {scope : Scope} {name : String} (h : ¬ scope.has name = true) :
    scope.get? name = none := by
  cases hget : scope.get? name with
  | none => rfl
  | some value => exact absurd (has_of_get? hget) h

theorem get?_replace {scope : Scope} {name : String} (h : scope.has name = true) (value : Value) :
    (scope.replace name value).get? name = some value := by
  induction scope with
  | nil => cases h
  | cons row scope ih =>
    obtain ⟨n, v⟩ := row
    unfold replace
    rw [List.map_cons]
    by_cases hn : n = name
    · simp [hn, get?_cons]
    · have hrest : Scope.has scope name = true := by simpa [has, hn] using h
      have hne : ¬ name = n := fun he => hn he.symm
      have hrow : (if (n == name) = true then (n, value) else (n, v)) = (n, v) := by simp [hn]
      dsimp only
      rw [hrow, get?_cons, if_neg hne]
      exact ih hrest

/-- All watched variables have values as they should be. -/
def Obeys (r : Rule) (scope : Scope) : Prop :=
  ∀ row ∈ scope, r.names row.1 → r.values row.2

variable {r : Rule} {scope : Scope} {name : String} {value : Value}

theorem obeys_nil : Obeys r [] := List.forall_mem_nil _

theorem Obeys.get? (h : scope.Obeys r) (hget : scope.get? name = some value)
    (hname : r.names name) : r.values value :=
  h _ (mem_of_get? hget) hname

theorem Obeys.replace (h : scope.Obeys r) (hvalue : r.names name → r.values value) :
    (scope.replace name value).Obeys r := by
  refine List.forall_mem_map.mpr fun row hrow => ?_
  dsimp only
  split
  · rename_i hn
    rw [beq_iff_eq.mp hn]
    exact hvalue
  · exact h row hrow

theorem Obeys.set (h : scope.Obeys r) (hvalue : r.names name → r.values value) :
    (scope.set name value).Obeys r := by
  unfold Scope.set
  split
  · exact h.replace hvalue
  · exact List.forall_mem_cons.mpr ⟨hvalue, h⟩

theorem Obeys.erase (h : scope.Obeys r) (name : String) : (scope.erase name).Obeys r :=
  fun row hrow => h row (List.mem_filter.mp hrow).1

end Scope

/-! ## States -/

namespace State

/-- All variables and declarations are as they should be. -/
structure Obeys (r : Rule) (s : State) : Prop where
  globals : s.globals.Obeys r
  frames : ∀ frame ∈ s.frames, frame.Obeys r
  declared : ∀ call ∈ s.declared, r.calls call

theorem declared_withScope (s : State) (scope : Scope) :
    (s.withScope scope).declared = s.declared := by
  unfold withScope
  split <;> rfl

theorem declared_update (s : State) (name : String) (value : Value) :
    (s.update name value).declared = s.declared := by
  unfold update
  split
  · exact s.declared_withScope _
  · rfl

theorem find?_withScope {s : State} {scope : Scope} {name : String} {value : Value}
    (h : scope.get? name = some value) : (s.withScope scope).find? name = some value := by
  unfold withScope find?
  split
  · rename_i hframes
    simp [hframes, h]
  · simp [h]

theorem find?_update {s : State} {name : String} {old : Value} (h : s.find? name = some old)
    (value : Value) : (s.update name value).find? name = some value := by
  unfold update
  by_cases hhas : s.scope.has name = true
  · rw [if_pos hhas]
    exact find?_withScope (Scope.get?_replace hhas value)
  · rw [if_neg hhas]
    unfold find? at h ⊢
    have hnone := Scope.get?_eq_none hhas
    unfold State.scope at hnone
    cases hframes : s.frames with
    | nil =>
      rw [hframes] at h hnone
      exact absurd (hnone.symm.trans h) nofun
    | cons frame frames =>
      rw [hframes] at h hnone
      change (Scope.get? frame name <|> s.globals.get? name) = some old at h
      change Scope.get? frame name = none at hnone
      rw [hnone] at h
      change (Scope.get? frame name <|> (s.globals.replace name value).get? name) = some value
      rw [hnone]
      exact Scope.get?_replace (Scope.has_of_get? h) value

variable {r : Rule} {s : State} {name : String} {value : Value}

theorem obeys_start {globals : Scope} (h : globals.Obeys r) : (start globals).Obeys r :=
  ⟨h, List.forall_mem_nil _, List.forall_mem_nil _⟩

theorem Obeys.scope (h : s.Obeys r) : s.scope.Obeys r := by
  obtain ⟨globals, frames, line, declared, warned⟩ := s
  cases frames with
  | nil => exact h.globals
  | cons frame frames => exact h.frames frame List.mem_cons_self

theorem Obeys.withScope (h : s.Obeys r) {scope : Scope} (hscope : scope.Obeys r) :
    (s.withScope scope).Obeys r := by
  obtain ⟨globals, frames, line, declared, warned⟩ := s
  cases frames with
  | nil => exact ⟨hscope, h.frames, h.declared⟩
  | cons frame frames =>
    obtain ⟨-, hframes⟩ := List.forall_mem_cons.mp h.frames
    exact ⟨h.globals, List.forall_mem_cons.mpr ⟨hscope, hframes⟩, h.declared⟩

theorem Obeys.store (h : s.Obeys r) (hvalue : r.names name → r.values value) :
    (s.store name value).Obeys r :=
  h.withScope (h.scope.set hvalue)

theorem Obeys.update (h : s.Obeys r) (hvalue : r.names name → r.values value) :
    (s.update name value).Obeys r := by
  unfold State.update
  split
  · exact h.withScope (h.scope.replace hvalue)
  · exact ⟨h.globals.replace hvalue, h.frames, h.declared⟩

theorem Obeys.find? (h : s.Obeys r) (hfind : s.find? name = some value) (hname : r.names name) :
    r.values value := by
  obtain ⟨globals, frames, line, declared, warned⟩ := s
  cases frames with
  | nil => exact h.globals.get? hfind hname
  | cons frame frames =>
    change (Scope.get? frame name <|> globals.get? name) = some value at hfind
    cases hlocal : Scope.get? frame name with
    | none =>
      rw [hlocal] at hfind
      exact h.globals.get? hfind hname
    | some local' =>
      rw [hlocal] at hfind
      cases hfind
      exact (h.frames frame List.mem_cons_self).get? hlocal hname

end State

/-! ## Steps -/

namespace Eval

variable {α β : Type} {r : Rule} {Q : α → Prop} {R : β → Prop} {x y : Eval α}

/-- The ends that a rule allows a step. Where a step stops, a variable may be left with any value,
    but what was declared is as it should be. -/
def Ends (r : Rule) (Q : α → Prop) : EStateM.Result EvalError State α → Prop
  | .ok a s => s.Obeys r ∧ Q a
  | .error e s => r.faults e.fault ∧ ∀ call ∈ s.declared, r.calls call

/-- From the state `s` both steps do the same, and end as they should. -/
def LeadsAt (r : Rule) (Q : α → Prop) (s : State) (x y : Eval α) : Prop :=
  x s = y s ∧ Ends r Q (x s)

/-- From every state that obeys the rule both steps do the same, and end as they should. -/
def Leads (r : Rule) (Q : α → Prop) (x y : Eval α) : Prop :=
  ∀ s, s.Obeys r → LeadsAt r Q s x y

theorem LeadsAt.bind {s : State} {f g : α → Eval β} (hx : LeadsAt r Q s x y)
    (hf : ∀ a, Q a → Leads r R (f a) (g a)) : LeadsAt r R s (x >>= f) (y >>= g) := by
  obtain ⟨heq, hends⟩ := hx
  change EStateM.bind x f s = EStateM.bind y g s ∧ Ends r R (EStateM.bind x f s)
  unfold EStateM.bind
  rw [← heq]
  cases hresult : x s with
  | error e t =>
    rw [hresult] at hends
    exact ⟨rfl, hends⟩
  | ok a t =>
    rw [hresult] at hends
    exact hf a hends.2 t hends.1

theorem LeadsAt.lift_bind {s : State} (hs : s.Obeys r) {result : Except EvalFault α}
    {f g : α → Eval β} (hok : ∀ a, result = .ok a → LeadsAt r R s (f a) (g a))
    (herror : ∀ fault, result = .error fault → r.faults fault) :
    LeadsAt r R s (lift result >>= f) (lift result >>= g) := by
  cases result with
  | ok a => exact hok a rfl
  | error fault => exact ⟨rfl, herror fault rfl, hs.declared⟩

namespace Leads

theorem pure {a : α} (h : Q a) : Leads r Q (pure a) (pure a) := fun _ hs => ⟨rfl, hs, h⟩

theorem fault {f : EvalFault} (h : r.faults f) : Leads r Q (fault f) (fault f) :=
  fun _ hs => ⟨rfl, h, hs.declared⟩

theorem lift {result : Except EvalFault α} (hok : ∀ a, result = .ok a → Q a)
    (herror : ∀ fault, result = .error fault → r.faults fault) :
    Leads r Q (lift result) (lift result) := by
  cases result with
  | ok a => exact pure (hok a rfl)
  | error f => exact fault (herror f rfl)

theorem mono {Q' : α → Prop} (h : Leads r Q x y) (hQ : ∀ a, Q a → Q' a) : Leads r Q' x y := by
  intro s hs
  obtain ⟨heq, hends⟩ := h s hs
  refine ⟨heq, ?_⟩
  cases hresult : x s with
  | ok a t =>
    rw [hresult] at hends
    exact ⟨hends.1, hQ a hends.2⟩
  | error e t =>
    rw [hresult] at hends
    exact hends

theorem bind {f g : α → Eval β} (hx : Leads r Q x y) (hf : ∀ a, Q a → Leads r R (f a) (g a)) :
    Leads r R (x >>= f) (y >>= g) :=
  fun s hs => (hx s hs).bind hf

theorem map {f : α → β} (hx : Leads r Q x y) (hf : ∀ a, Q a → R (f a)) :
    Leads r R (f <$> x) (f <$> y) := by
  rw [map_eq_pure_bind, map_eq_pure_bind]
  exact hx.bind fun a ha => pure (hf a ha)

theorem get_bind {f g : State → Eval β} (h : ∀ s, s.Obeys r → LeadsAt r R s (f s) (g s)) :
    Leads r R (get >>= f) (get >>= g) :=
  fun s hs => h s hs

theorem ite {b : Prop} [Decidable b] {x' y' : Eval α} (h : b → Leads r Q x y)
    (h' : ¬ b → Leads r Q x' y') : Leads r Q (if b then x else x') (if b then y else y') := by
  split
  · exact h ‹_›
  · exact h' ‹_›

theorem modify {f : State → State} (h : ∀ s, s.Obeys r → (f s).Obeys r) :
    Leads r (fun _ => True) (modify f) (modify f) :=
  fun s hs => ⟨rfl, h s hs, trivial⟩

theorem setLine (line : Nat) : Leads r (fun _ => True) (setLine line) (setLine line) :=
  modify fun _ hs => ⟨hs.globals, hs.frames, hs.declared⟩

theorem warn (notice : Notice) : Leads r (fun _ => True) (warn notice) (warn notice) := by
  refine modify fun s hs => ?_
  dsimp only
  split
  · exact hs
  · exact ⟨hs.globals, hs.frames, hs.declared⟩

/-! ### Variables -/

theorem store {name : String} {value : Value} (h : r.names name → r.values value) :
    Leads r (fun _ => True) (store name value) (store name value) :=
  modify fun _ hs => hs.store h

theorem lookup {name : String} (hname : r.names name) (hstub : r.values (.stub name)) :
    Leads r r.values (lookup name) (lookup name) := by
  refine get_bind fun s hs => ?_
  cases hfind : s.find? name with
  | some value => exact pure (hs.find? hfind hname) s hs
  | none => exact ((warn _).bind fun _ _ => pure hstub) s hs

theorem storeAll {values : List Value} (h : ∀ v ∈ values, r.values v) (names : List String) :
    Leads r (fun _ => True) (storeAll names values) (storeAll names values) := by
  induction values generalizing names with
  | nil => cases names <;> exact pure trivial
  | cons value values ih =>
    obtain ⟨hvalue, hvalues⟩ := List.forall_mem_cons.mp h
    cases names with
    | nil => exact pure trivial
    | cons name names => exact (store fun _ => hvalue).bind fun _ _ => ih hvalues names

/-- A stub is unpacked into stubs. -/
theorem unpack_stub (hstub : ∀ trace, r.values (.stub trace)) (names : List String)
    (trace : String) :
    Leads r (fun _ => True) (unpack names (.stub trace)) (unpack names (.stub trace)) :=
  storeAll (List.forall_mem_map.mpr fun _ _ => hstub _) names

theorem unpack (hstub : ∀ trace, r.values (.stub trace)) (hfaults : ∀ fault, r.faults fault)
    {value : Value} (hitems : ∀ items, iterate value = .ok items → ∀ v ∈ items, r.values v)
    (names : List String) :
    Leads r (fun _ => True) (unpack names value) (unpack names value) := by
  cases value with
  | stub trace => exact unpack_stub hstub names trace
  | _ =>
    refine (lift hitems fun f _ => hfaults f).bind fun values hvalues => ?_
    exact ite (fun _ => (fault (Q := fun _ => True) (hfaults _)).bind fun _ _ =>
      storeAll hvalues names) fun _ => storeAll hvalues names

/-- A state in which variables are bound again as they were. -/
def restored (saved : List (String × Option Value)) (s : State) : State :=
  saved.foldl (fun s (name, value) =>
    match value with
    | some value => s.store name value
    | none => s.withScope (s.scope.erase name)) s

theorem declared_restored (saved : List (String × Option Value)) (s : State) :
    (restored saved s).declared = s.declared := by
  induction saved generalizing s with
  | nil => rfl
  | cons row saved ih =>
    obtain ⟨name, value⟩ := row
    cases value with
    | some value => exact (ih _).trans (s.declared_withScope _)
    | none => exact (ih _).trans (s.declared_withScope _)

theorem obeys_restored {saved : List (String × Option Value)} {s : State} (hs : s.Obeys r)
    (hsaved : ∀ row ∈ saved, ∀ v ∈ row.2, r.names row.1 → r.values v) :
    (restored saved s).Obeys r := by
  induction saved generalizing s with
  | nil => exact hs
  | cons row saved ih =>
    obtain ⟨hrow, hrest⟩ := List.forall_mem_cons.mp hsaved
    obtain ⟨name, value⟩ := row
    cases value with
    | some value => exact ih (hs.store (hrow value rfl)) hrest
    | none => exact ih (hs.withScope (hs.scope.erase name)) hrest

theorem restoring (names : List String) (h : Leads r Q x y) :
    Leads r Q (restoring names x) (restoring names y) := by
  intro s hs
  obtain ⟨heq, hends⟩ := h s hs
  unfold LeadsAt Eval.restoring
  dsimp only
  rw [← heq]
  cases hresult : x s with
  | error e t =>
    rw [hresult] at hends
    refine ⟨rfl, hends.1, ?_⟩
    change ∀ call ∈ (restored _ t).declared, _
    rw [declared_restored]
    exact hends.2
  | ok a t =>
    rw [hresult] at hends
    refine ⟨rfl, obeys_restored hends.1 ?_, hends.2⟩
    refine List.forall_mem_map.mpr fun name _ value hvalue hname => ?_
    exact hs.scope.get? hvalue hname

/-- A step in a frame of its own. -/
theorem inFrame {frame : Scope} (hframe : frame.Obeys r) (h : Leads r Q x y) :
    Leads r Q (inFrame frame x) (inFrame frame y) := by
  intro s hs
  obtain ⟨heq, hends⟩ := h { s with frames := frame :: s.frames }
    ⟨hs.globals, List.forall_mem_cons.mpr ⟨hframe, hs.frames⟩, hs.declared⟩
  unfold LeadsAt Eval.inFrame
  dsimp only
  rw [← heq]
  cases hresult : x { s with frames := frame :: s.frames } with
  | error e t =>
    rw [hresult] at hends
    exact ⟨rfl, hends⟩
  | ok a t =>
    rw [hresult] at hends
    obtain ⟨ht, ha⟩ := hends
    have htail : ∀ frame ∈ t.frames.tail, frame.Obeys r :=
      fun frame hframe => ht.frames frame (List.mem_of_mem_tail hframe)
    exact ⟨rfl, ⟨ht.globals, htail, ht.declared⟩, ha⟩

end Leads

end Eval

/-! ## Loops -/

/-- What holds of the value that a statement returns, if it does. -/
def Flow.Gives (Q : Value → Prop) : Flow → Prop
  | .give value => Q value
  | _ => True

open Eval (Leads)

theorem runLoop_leads {r : Rule} {I Q : Value → Prop} {turn turn' : Value → Eval Flow}
    (h : ∀ item, I item → Leads r (Flow.Gives Q) (turn item) (turn' item)) {items : List Value}
    (hitems : ∀ item ∈ items, I item) :
    Leads r (Flow.Gives Q) (runLoop turn items) (runLoop turn' items) := by
  induction items with
  | nil => exact Leads.pure trivial
  | cons item items ih =>
    obtain ⟨hitem, hitems⟩ := List.forall_mem_cons.mp hitems
    refine (h item hitem).bind fun flow hflow => ?_
    cases flow with
    | next => exact ih hitems
    | proceed => exact ih hitems
    | leave => exact Leads.pure trivial
    | give value => exact Leads.pure hflow

theorem bindImports_leads {r : Rule} (hstub : ∀ trace, r.values (.stub trace))
    (bindings : List (String × String)) :
    Leads r (fun _ => True) (bindImports bindings) (bindImports bindings) := by
  induction bindings with
  | nil => exact Leads.pure trivial
  | cons binding bindings ih => exact (Leads.store fun _ => hstub _).bind fun _ _ => ih

end Monorepo.Script
