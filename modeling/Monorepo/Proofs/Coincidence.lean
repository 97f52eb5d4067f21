import Mathlib.Data.List.Forall2
import Monorepo.Proofs.Frames
import Monorepo.Proofs.Reach

/-!
# States that differ in some variables

Two states coincide off some names if all other variables are the same in both, in every scope, and
so many targets were declared with the same arguments; lines and warnings may differ. A variable
that evaluation cannot reach makes no difference to it: from states that coincide off that variable
it has the same outcome, leaves states that coincide again, and does not touch the variable either.
-/

namespace Monorepo.Script

/-! ## Scopes -/

namespace Scope

/-- Both scopes give all variables but the hidden ones the same values. -/
def Coincide (hidden : String → Prop) (scope scope' : Scope) : Prop :=
  ∀ name, ¬ hidden name → scope'.get? name = scope.get? name

/-- The scope in which a variable has a value, or is unbound. -/
def rebind (scope : Scope) (name : String) : Option Value → Scope
  | some value => scope.set name value
  | none => scope.erase name

theorem get?_rebind (scope : Scope) (name other : String) (value : Option Value) :
    (scope.rebind name value).get? other = if other = name then value else scope.get? other := by
  cases value with
  | some value => exact scope.get?_set name other value
  | none => exact scope.get?_erase name other

theorem get?_replace_eq (scope : Scope) (name other : String) (value : Value) :
    (scope.replace name value).get? other =
      if other = name ∧ scope.has name = true then some value else scope.get? other := by
  by_cases h : other = name
  · subst h
    by_cases hhas : scope.has other = true
    · rw [get?_replace hhas, if_pos ⟨rfl, hhas⟩]
    · rw [if_neg fun hand => hhas hand.2, get?_eq_none hhas]
      refine get?_eq_none ?_
      rwa [has_replace]
  · rw [get?_replace_of_ne h, if_neg fun hand => h hand.1]

namespace Coincide

variable {hidden hidden' : String → Prop} {scope scope' : Scope}

theorem refl (scope : Scope) : Coincide hidden scope scope := fun _ _ => rfl

theorem symm (h : Coincide hidden scope scope') : Coincide hidden scope' scope :=
  fun name hname => (h name hname).symm

theorem mono (hsub : ∀ name, hidden name → hidden' name) (h : Coincide hidden scope scope') :
    Coincide hidden' scope scope' :=
  fun name hname => h name fun hhidden => hname (hsub name hhidden)

theorem has (h : Coincide hidden scope scope') {name : String} (hname : ¬ hidden name) :
    scope'.has name = scope.has name := by
  rw [has_eq, has_eq, h name hname]

/-- A hidden variable may take different values. -/
theorem rebind (h : Coincide hidden scope scope') {name : String} {value value' : Option Value}
    (hvalue : ¬ hidden name → value' = value) :
    Coincide hidden (scope.rebind name value) (scope'.rebind name value') := by
  intro other hother
  rw [get?_rebind, get?_rebind]
  split
  · rename_i hname
    exact hvalue (hname ▸ hother)
  · exact h other hother

theorem set (h : Coincide hidden scope scope') (name : String) (value : Value) :
    Coincide hidden (scope.set name value) (scope'.set name value) :=
  h.rebind fun _ => Eq.refl (some value)

theorem replace (h : Coincide hidden scope scope') {name : String} (hname : ¬ hidden name)
    (value : Value) : Coincide hidden (scope.replace name value) (scope'.replace name value) := by
  intro other hother
  rw [get?_replace_eq, get?_replace_eq, h.has hname, h other hother]

/-- Only the second scope binds or unbinds a hidden variable. -/
theorem rebind_right (h : Coincide hidden scope scope') {name : String} (hname : hidden name)
    (value : Option Value) : Coincide hidden scope (scope'.rebind name value) := by
  intro other hother
  have hne : other ≠ name := fun heq => hother (heq ▸ hname)
  rw [get?_rebind, if_neg hne]
  exact h other hother

theorem replace_right (h : Coincide hidden scope scope') {name : String} (hname : hidden name)
    (value : Value) : Coincide hidden scope (scope'.replace name value) := by
  intro other hother
  have hne : other ≠ name := fun heq => hother (heq ▸ hname)
  rw [get?_replace_of_ne hne]
  exact h other hother

end Coincide

end Scope

/-! ## States -/

/-- What is declared, without the line. -/
def TargetCall.content (call : TargetCall) : String × Keywords := (call.kind, call.keywords)

/-- Two states with the same variables but for the hidden ones, and the same declarations but for
    their lines. -/
structure State.Coincide (hidden : String → Prop) (s t : State) : Prop where
  globals : s.globals.Coincide hidden t.globals
  frames : List.Forall₂ (Scope.Coincide hidden) s.frames t.frames
  declared : t.declared.map TargetCall.content = s.declared.map TargetCall.content

namespace State.Coincide

variable {hidden hidden' : String → Prop} {s t : State}

theorem refl (s : State) : Coincide hidden s s :=
  ⟨.refl _, List.forall₂_same.mpr fun frame _ => .refl frame, rfl⟩

theorem mono (hsub : ∀ name, hidden name → hidden' name) (h : Coincide hidden s t) :
    Coincide hidden' s t :=
  ⟨h.globals.mono hsub, h.frames.imp fun _ _ => Scope.Coincide.mono hsub, h.declared⟩

theorem symm (h : Coincide hidden s t) : Coincide hidden t s :=
  ⟨h.globals.symm, h.frames.flip.imp fun _ _ => Scope.Coincide.symm, h.declared.symm⟩

theorem height (h : Coincide hidden s t) : t.frames.length = s.frames.length :=
  h.frames.length_eq.symm

theorem scope (h : Coincide hidden s t) : s.scope.Coincide hidden t.scope := by
  obtain ⟨globals, frames, line, declared, warned⟩ := s
  obtain ⟨globals', frames', line', declared', warned'⟩ := t
  obtain ⟨hglobals, hframes, -⟩ := h
  cases hframes with
  | nil => exact hglobals
  | cons hframe _ => exact hframe

theorem find? (h : Coincide hidden s t) {name : String} (hname : ¬ hidden name) :
    t.find? name = s.find? name := by
  obtain ⟨globals, frames, line, declared, warned⟩ := s
  obtain ⟨globals', frames', line', declared', warned'⟩ := t
  obtain ⟨hglobals, hframes, -⟩ := h
  unfold State.find?
  cases hframes with
  | nil => exact hglobals name hname
  | cons hframe _ =>
    change (Scope.get? _ name <|> Scope.get? _ name) = (Scope.get? _ name <|> Scope.get? _ name)
    rw [hframe name hname, hglobals name hname]

theorem withScope (h : Coincide hidden s t) {scope scope' : Scope}
    (hscope : scope.Coincide hidden scope') :
    Coincide hidden (s.withScope scope) (t.withScope scope') := by
  obtain ⟨globals, frames, line, declared, warned⟩ := s
  obtain ⟨globals', frames', line', declared', warned'⟩ := t
  obtain ⟨hglobals, hframes, hdeclared⟩ := h
  cases hframes with
  | nil => exact ⟨hscope, .nil, hdeclared⟩
  | cons _ hrest => exact ⟨hglobals, .cons hscope hrest, hdeclared⟩

theorem store (h : Coincide hidden s t) (name : String) (value : Value) :
    Coincide hidden (s.store name value) (t.store name value) :=
  h.withScope (h.scope.set name value)

theorem update (h : Coincide hidden s t) {name : String} (hname : ¬ hidden name) (value : Value) :
    Coincide hidden (s.update name value) (t.update name value) := by
  unfold State.update
  rw [h.scope.has hname]
  split
  · exact h.withScope (h.scope.replace hname value)
  · exact ⟨h.globals.replace hname value, h.frames, h.declared⟩

/-- The second state takes another scope, and the first one keeps its own. -/
theorem withScope_right (h : Coincide hidden s t) {scope : Scope}
    (hscope : s.scope.Coincide hidden scope) : Coincide hidden s (t.withScope scope) := by
  obtain ⟨globals, frames, line, declared, warned⟩ := s
  obtain ⟨globals', frames', line', declared', warned'⟩ := t
  obtain ⟨hglobals, hframes, hdeclared⟩ := h
  cases hframes with
  | nil => exact ⟨hscope, .nil, hdeclared⟩
  | cons _ hrest => exact ⟨hglobals, .cons hscope hrest, hdeclared⟩

theorem store_right (h : Coincide hidden s t) {name : String} (hname : hidden name)
    (value : Value) : Coincide hidden s (t.store name value) :=
  h.withScope_right (h.scope.rebind_right hname (some value))

theorem update_right (h : Coincide hidden s t) {name : String} (hname : hidden name)
    (value : Value) : Coincide hidden s (t.update name value) := by
  unfold State.update
  split
  · exact h.withScope_right (h.scope.replace_right hname value)
  · exact ⟨h.globals.replace_right hname value, h.frames, h.declared⟩

theorem restored_cons (name : String) (value : Option Value)
    (saved : List (String × Option Value)) (s : State) :
    Eval.Leads.restored ((name, value) :: saved) s =
      Eval.Leads.restored saved (s.withScope (s.scope.rebind name value)) := by
  cases value <;> rfl

/-- Variables are bound again as they were in each state. -/
theorem restored (h : Coincide hidden s t) {old old' : String → Option Value}
    (hold : ∀ name, ¬ hidden name → old' name = old name) (names : List String) :
    Coincide hidden (Eval.Leads.restored (names.map fun name => (name, old name)) s)
      (Eval.Leads.restored (names.map fun name => (name, old' name)) t) := by
  induction names generalizing s t with
  | nil => exact h
  | cons name names ih =>
    rw [List.map_cons, List.map_cons, restored_cons, restored_cons]
    exact ih (h.withScope (h.scope.rebind (hold name)))

/-- Only the second state binds hidden variables again. -/
theorem restored_right (h : Coincide hidden s t) {saved : List (String × Option Value)}
    (hsaved : ∀ row ∈ saved, hidden row.1) : Coincide hidden s (Eval.Leads.restored saved t) := by
  induction saved generalizing t with
  | nil => exact h
  | cons row saved ih =>
    obtain ⟨hrow, hrest⟩ := List.forall_mem_cons.mp hsaved
    rw [restored_cons]
    exact ih (h.withScope_right (h.scope.rebind_right hrow row.2)) hrest

end State.Coincide

/-! ## A variable that is left alone -/

/-- Steps from `s` to `t` leave the variable `out` alone wherever they do not bind names of
    `free`. -/
structure State.Spares (out : String) (free : String → Prop) (s t : State) : Prop where
  height : t.frames.length = s.frames.length
  below : t.frames.tail = s.frames.tail
  scope : ¬ free out → t.scope.get? out = s.scope.get? out
  globals : s.frames ≠ [] → t.globals.get? out = s.globals.get? out

namespace State.Spares

variable {out : String} {free free' : String → Prop} {s t u : State}

theorem refl (s : State) : Spares out free s s := ⟨rfl, rfl, fun _ => rfl, fun _ => rfl⟩

theorem trans (h : Spares out free s t) (h' : Spares out free t u) : Spares out free s u := by
  refine ⟨h'.height.trans h.height, h'.below.trans h.below,
    fun hout => (h'.scope hout).trans (h.scope hout), fun hframes => ?_⟩
  have ht : t.frames ≠ [] := by
    intro hnil
    have hlength := h.height
    rw [hnil] at hlength
    exact hframes (List.length_eq_zero_iff.mp hlength.symm)
  exact (h'.globals ht).trans (h.globals hframes)

theorem mono (hsub : ∀ name, free name → free' name) (h : Spares out free s t) :
    Spares out free' s t :=
  ⟨h.height, h.below, fun hout => h.scope fun hfree => hout (hsub out hfree), h.globals⟩

/-- What does not concern variables. -/
theorem of_eq (hglobals : t.globals = s.globals) (hframes : t.frames = s.frames) :
    Spares out free s t := by
  have hscope : t.scope = s.scope := by
    unfold State.scope
    rw [hglobals, hframes]
  exact ⟨by rw [hframes], by rw [hframes], fun _ => by rw [hscope], fun _ => by rw [hglobals]⟩

theorem withScope {scope : Scope} (h : ¬ free out → scope.get? out = s.scope.get? out) :
    Spares out free s (s.withScope scope) := by
  obtain ⟨globals, frames, line, declared, warned⟩ := s
  cases frames with
  | nil => exact ⟨rfl, rfl, h, fun hnil => absurd rfl hnil⟩
  | cons frame frames => exact ⟨rfl, rfl, h, fun _ => rfl⟩

theorem store {name : String} (hname : free name) (value : Value) :
    Spares out free s (s.store name value) := by
  refine withScope fun hout => ?_
  have hne : out ≠ name := fun heq => hout (heq ▸ hname)
  rw [Scope.get?_set, if_neg hne]

theorem update {name : String} (hname : out ≠ name) (value : Value) :
    Spares out free s (s.update name value) := by
  unfold State.update
  split
  · exact withScope fun _ => Scope.get?_replace_of_ne hname _ _
  · have hglobals := Scope.get?_replace_of_ne hname s.globals value
    refine ⟨rfl, rfl, fun _ => ?_, fun _ => hglobals⟩
    obtain ⟨globals, frames, line, declared, warned⟩ := s
    cases frames with
    | nil => exact hglobals
    | cons frame frames => rfl

/-- A variable that is among those bound again has its old value. -/
theorem restored {names : List String} (h : Spares out (· ∈ names) s t) :
    Spares out noNames s
      (Eval.Leads.restored (names.map fun name => (name, s.scope.get? name)) t) := by
  have hrestored (saved : List (String × Option Value)) (t : State) :
      Spares out allNames t (Eval.Leads.restored saved t) := by
    induction saved generalizing t with
    | nil => exact refl t
    | cons row saved ih =>
      obtain ⟨name, value⟩ := row
      cases value with
      | some value => exact (withScope fun hall => absurd trivial hall).trans (ih _)
      | none => exact (withScope fun hall => absurd trivial hall).trans (ih _)
  have hall := (h.mono fun _ _ => trivial).trans
    (hrestored (names.map fun name => (name, s.scope.get? name)) t)
  refine ⟨hall.height, hall.below, fun _ => ?_, hall.globals⟩
  rw [Eval.get?_restored]
  split
  · rfl
  · rename_i hout
    exact h.scope hout

end State.Spares

/-! ## Steps that do not reach a variable -/

namespace Eval

variable {α β : Type} {out : String} {free : String → Prop}

/-- Two results with the same value, in states that coincide off `out`, the second of which leaves
    `out` alone as seen from `t`; or two errors. -/
def Alongside (out : String) (free : String → Prop) (t : State) :
    (result result' : EStateM.Result EvalError State α) → Prop
  | .ok a s', .ok a' t' => a' = a ∧ s'.Coincide (· = out) t' ∧ t.Spares out free t'
  | .error _ _, .error _ _ => True
  | _, _ => False

theorem Alongside.ok_or_error {t : State} {result result' : EStateM.Result EvalError State α}
    (h : Alongside out free t result result') :
    (∃ a s' t', result = .ok a s' ∧ result' = .ok a t' ∧ s'.Coincide (· = out) t' ∧
      t.Spares out free t') ∨
    ∃ e s' e' t', result = .error e s' ∧ result' = .error e' t' := by
  cases result with
  | ok a s' =>
    cases result' with
    | ok a' t' =>
      obtain ⟨rfl, hcoincide, hspares⟩ := h
      exact .inl ⟨a', s', t', rfl, rfl, hcoincide, hspares⟩
    | error e' t' => exact h.elim
  | error e s' =>
    cases result' with
    | ok a' t' => exact h.elim
    | error e' t' => exact .inr ⟨e, s', e', t', rfl, rfl⟩

/-- What is left alone as seen from a later state is left alone as seen from an earlier one. -/
theorem Alongside.earlier {t t' : State} {result result' : EStateM.Result EvalError State α}
    (h : Alongside out free t' result result') (hspares : t.Spares out free t') :
    Alongside out free t result result' := by
  obtain ⟨a, s'', t'', rfl, rfl, hcoincide, hspares'⟩ | ⟨e, s'', e', t'', rfl, rfl⟩ := h.ok_or_error
  · exact ⟨rfl, hcoincide, hspares.trans hspares'⟩
  · exact trivial

/-- From states that coincide off `out` both steps have the same outcome. -/
def Blind (out : String) (free : String → Prop) {α : Type} (x y : Eval α) : Prop :=
  ∀ s t : State, s.Coincide (· = out) t → Alongside out free t (x s) (y t)

namespace Blind

theorem bind {x y : Eval α} {f g : α → Eval β} (hx : Blind out free x y)
    (hf : ∀ a, Blind out free (f a) (g a)) : Blind out free (x >>= f) (y >>= g) := by
  intro s t h
  obtain ⟨a, s', t', hresult, hresult', hcoincide, hspares⟩ | ⟨e, s', e', t', hresult, hresult'⟩ :=
    (hx s t h).ok_or_error
  · rw [bind_of_ok hresult, bind_of_ok hresult']
    exact (hf a s' t' hcoincide).earlier hspares
  · rw [eval_bind_error hresult, eval_bind_error hresult']
    exact trivial

theorem mono {free' : String → Prop} (hsub : ∀ name, free name → free' name) {x y : Eval α}
    (hx : Blind out free x y) : Blind out free' x y := by
  intro s t h
  obtain ⟨a, s', t', hresult, hresult', hcoincide, hspares⟩ | ⟨e, s', e', t', hresult, hresult'⟩ :=
    (hx s t h).ok_or_error
  · rw [hresult, hresult']
    exact ⟨rfl, hcoincide, hspares.mono hsub⟩
  · rw [hresult, hresult']
    exact trivial

theorem restoring {names : List String} {x y : Eval α} (hx : Blind out (· ∈ names) x y) :
    Blind out noNames (restoring names x) (restoring names y) := by
  intro s t h
  unfold Eval.restoring
  obtain ⟨a, s', t', hresult, hresult', hcoincide, hspares⟩ | ⟨e, s', e', t', hresult, hresult'⟩ :=
    (hx s t h).ok_or_error
  · rw [hresult, hresult']
    exact ⟨rfl, hcoincide.restored (fun name hname => h.scope name hname) names, hspares.restored⟩
  · rw [hresult, hresult']
    exact trivial

/-- What a body binds goes away with its frame. -/
theorem inFrame (frame : Scope) {x y : Eval α} (hx : Blind out allNames x y) :
    Blind out noNames (inFrame frame x) (inFrame frame y) := by
  intro s t h
  have hpushed : State.Coincide (· = out) { s with frames := frame :: s.frames }
      { t with frames := frame :: t.frames } :=
    ⟨h.globals, .cons (.refl frame) h.frames, h.declared⟩
  unfold Eval.inFrame
  obtain ⟨a, s', t', hresult, hresult', hcoincide, hspares⟩ | ⟨e, s', e', t', hresult, hresult'⟩ :=
    (hx _ _ hpushed).ok_or_error
  · rw [hresult, hresult']
    have htail : List.Forall₂ (Scope.Coincide (· = out)) s'.frames.tail t'.frames.tail := by
      have hframes := hcoincide.frames
      generalize s'.frames = frames, t'.frames = frames' at hframes
      cases hframes with
      | nil => exact .nil
      | cons _ hrest => exact hrest
    have hbelow : t'.frames.tail = t.frames := hspares.below
    have hglobals : t'.globals.get? out = t.globals.get? out := hspares.globals nofun
    refine ⟨rfl, ⟨hcoincide.globals, htail, hcoincide.declared⟩, ?_⟩
    refine ⟨congrArg List.length hbelow, congrArg List.tail hbelow, fun _ => ?_, fun _ => hglobals⟩
    unfold State.scope
    change Scope.get? (t'.frames.tail.headD t'.globals) out = _
    rw [hbelow]
    cases t.frames with
    | nil => exact hglobals
    | cons => rfl
  · rw [hresult, hresult']
    exact trivial

/-- To be blind is a congruence under a policy by which the variable is not read. -/
theorem congruence {p : Policy} (hout : ∀ name, p.names name → name ≠ out) :
    Congruence p (Blind out) where
  pure _ _ t h := ⟨rfl, h, .refl t⟩
  fault _ _ _ _ := trivial
  bind := bind
  mono hsub hx := mono hsub hx
  found hname s t h := ⟨h.find? (hout _ hname), h, .refl t⟩
  height s t h := ⟨h.height, h, .refl t⟩
  warn notice s t h := by
    refine ⟨rfl, ?_, ?_⟩
    · dsimp only
      split <;> split <;> exact ⟨h.globals, h.frames, h.declared⟩
    · dsimp only
      split
      · exact .refl t
      · exact .of_eq rfl rfl
  declare kind keywords s t h :=
    ⟨rfl, ⟨h.globals, h.frames, congrArg ((kind, keywords) :: ·) h.declared⟩, .of_eq rfl rfl⟩
  update value hname s t h :=
    ⟨rfl, h.update (hout _ hname) value, .update (hout _ hname).symm value⟩
  store value hname s t h := ⟨rfl, h.store _ value, .store hname value⟩
  restoring := restoring

theorem setLine (line : Nat) : Blind out free (setLine line) (setLine line) :=
  fun _ _ h => ⟨rfl, ⟨h.globals, h.frames, h.declared⟩, .of_eq rfl rfl⟩

end Blind

end Eval

end Monorepo.Script
