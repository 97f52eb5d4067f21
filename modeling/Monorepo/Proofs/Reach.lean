import Monorepo.Proofs.Boundaries

/-!
# What evaluation can reach

Evaluation reads the variables that occur in expressions. Through the functions in their values it
may come to read others, in a body or in the default of a parameter. Bodies find globals behind
their own variables, and defaults are evaluated where the call stands; so a name may stand for a
global or for a variable of the innermost scope, wherever it occurs. Evaluation keeps to what it can
reach in this way, for that is a lawful policy.
-/

namespace Monorepo.Script

namespace Value

/-- A value and all that it holds, however deep. -/
inductive Within (part : Value) : Value → Prop
  | self : Within part part
  | part {whole p : Value} (hpart : p ∈ whole.parts) (h : Within part p) : Within part whole

theorem all_of_within {P : Value → Prop} {v : Value} (h : ∀ part, Within part v → P part) :
    v.All P := by
  induction v using induction_parts with
  | step v ih =>
    exact ⟨h v .self, fun part hpart =>
      ih part hpart fun inner hinner => h inner (.part hpart hinner)⟩

end Value

/-- A variable occurs in a statement, in an expression or as what the statement changes. -/
def Statement.Reads (name : String) (s : Statement) : Prop :=
  s.Holds (.name name) ∨
    ∃ inner : Statement, inner.Within s ∧ ∃ op e, inner.action = .augment name op e

/-- A variable occurs in the body of a function or in a default. -/
def Function.Reads (name : String) (f : Function) : Prop :=
  (∃ e ∈ f.parameters.filterMap Parameter.default, (Expr.name name).Within e) ∨
    ∃ s ∈ f.body, s.Reads name

/-- The variables that the evaluation of some expressions can come to read. -/
inductive State.Reaches (s : State) (es : List Expr) : String → Prop
  /-- The variable occurs in an expression. -/
  | here {e : Expr} {name : String} (he : e ∈ es) (hname : (Expr.name name).Within e) :
    s.Reaches es name
  /-- The variable occurs in a function that another variable holds. -/
  | through {outer name : String} {value : Value} {f : Function} (houter : s.Reaches es outer)
    (hvalue : (outer, value) ∈ s.globals ∨ (outer, value) ∈ s.scope)
    (hf : (Value.function f).Within value) (hname : f.Reads name) : s.Reaches es name

namespace Policy

/-- Only some variables may be read. -/
def reading (names : String → Prop) : Policy :=
  ⟨names, fun _ => True, fun _ => True, fun _ => True, fun _ => True⟩

theorem reading_lawful (names : String → Prop) : (reading names).Lawful where
  dict_nil := trivial
  dict_insert _ _ _ := trivial
  measured _ := trivial
  stub _ := trivial
  text _ := trivial
  items _ _ _ _ := trivial
  entries _ _ _ := trivial

variable {names : String → Prop}

theorem all_reads {e : Expr} (h : ∀ name, (Expr.name name).Within e → names name) :
    e.All (reading names).Reads := by
  intro part hpart
  cases part with
  | name name => exact h name hpart
  | _ => exact trivial

theorem reading_allows {s : Statement} (h : ∀ name, s.Reads name → names name) :
    (reading names).Allows s := by
  refine fun inner hinner => ⟨fun e he => all_reads fun name hname => h name ?_,
    fun name op e haction => h name ?_⟩
  · exact Or.inl ⟨inner, hinner, e, he, hname⟩
  · exact Or.inr ⟨inner, hinner, op, e, haction⟩

theorem reading_allowsFunction {f : Function} (h : ∀ name, f.Reads name → names name) :
    (reading names).AllowsFunction f :=
  ⟨fun e he => all_reads fun name hname => h name (Or.inl ⟨e, he, hname⟩),
    fun s hs => reading_allows fun name hname => h name (Or.inr ⟨s, hs, hname⟩)⟩

theorem reading_admits {v : Value}
    (h : ∀ f, (Value.function f).Within v → ∀ name, f.Reads name → names name) :
    (reading names).Admits v := by
  refine ⟨Value.all_of_within fun part hpart => ?_, trivial⟩
  cases part with
  | function f => exact reading_allowsFunction (h f hpart)
  | _ => exact trivial

/-- What can be reached is admitted. -/
theorem reading_reached {s : State} {es : List Expr} {row : String × Value}
    (hrow : row ∈ s.globals ∨ row ∈ s.scope) (hname : s.Reaches es row.1) :
    (reading (s.Reaches es)).Admits row.2 :=
  reading_admits fun _ hf _ hread => .through hname hrow hf hread

end Policy

/-! ## Calls of reached functions -/

open Eval (Leads Congruence)

theorem Eval.Leads.left {r : Rule} {α : Type} {Q : α → Prop} {x y : Eval α} (h : Leads r Q x y) :
    Leads r Q x x :=
  fun s hs => ⟨rfl, (h s hs).2⟩

section Calls

variable {p : Policy} {c c' : Context}

theorem Policy.Agrees.left (h : p.Agrees c c') : p.Agrees c c :=
  ⟨rfl, fun f arguments keywords hf harguments hkeywords =>
    (h.invoke f arguments keywords hf harguments hkeywords).left⟩

/-- Contexts whose calls agree under a policy execute alike what it allows. -/
theorem execBlock_leads (hp : p.Lawful) (h : p.Agrees c c') {block : List Statement}
    (hblock : ∀ s ∈ block, p.Allows s) :
    Leads p.rule (Flow.Gives p.Admits) (execBlock c block) (execBlock c' block) := by
  have hidle : Leads p.rule (fun _ => True) (pure ()) (pure ()) := Leads.pure trivial
  intro s hs
  -- a watch that does nothing stands between the two
  obtain ⟨heq, -⟩ := watchedBlock_leads hp h hidle block hblock s hs
  obtain ⟨heq', hends⟩ := watchedBlock_leads hp h.left hidle block hblock s hs
  rw [heq'] at heq hends
  exact ⟨heq, hends⟩

open Classical in
/-- What calls do when those of functions that a policy forbids are refused. -/
noncomputable def restricted (p : Policy) (setting : Setting) : Nat → Invoke
  | 0 => fun _ _ _ => Eval.fault .recursion
  | pending + 1 => fun f arguments keywords =>
    if p.AllowsFunction f then
      callFunction ⟨setting, restricted p setting pending⟩ f arguments keywords
    else Eval.fault .recursion

/-- Under the policy such calls are never made. -/
theorem restricted_agrees (hp : p.Lawful) (setting : Setting) (pending : Nat) :
    p.Agrees ⟨setting, invoke setting pending⟩ ⟨setting, restricted p setting pending⟩ := by
  induction pending with
  | zero => exact ⟨rfl, fun _ _ _ _ _ _ => Leads.fault trivial⟩
  | succ pending ih =>
    refine ⟨rfl, fun f arguments keywords hf harguments hkeywords => ?_⟩
    simp only [restricted, if_pos hf]
    exact callWith_leads hp ih (fun block => execBlock_leads hp ih) hf harguments hkeywords

/-- Every congruence under the policy that frames keep relates such calls. -/
theorem restricted_related {R : (String → Prop) → ∀ {α : Type}, Eval α → Eval α → Prop}
    (hR : Congruence p R) (hline : ∀ line, R allNames (Eval.setLine line) (Eval.setLine line))
    (hframe : ∀ (frame : Scope) {x y : Eval Flow}, R allNames x y →
      R noNames (Eval.inFrame frame x) (Eval.inFrame frame y))
    (setting : Setting) (pending : Nat) :
    Context.Related R ⟨setting, restricted p setting pending⟩
      ⟨setting, restricted p setting pending⟩ := by
  induction pending with
  | zero => exact ⟨rfl, fun _ _ _ => hR.fault _⟩
  | succ pending ih =>
    refine ⟨rfl, fun f arguments keywords => ?_⟩
    by_cases hf : p.AllowsFunction f
    · simp only [restricted, if_pos hf, callFunction_eq_callWith]
      refine callWith_congruent hR ih hf.1 (fun frame => ?_) arguments keywords
      refine hR.bind (hframe frame (execBlock_congruent hR hline ih f.body hf.2)) fun flow => ?_
      cases flow with
      | next => exact hR.pure _
      | give value => exact hR.pure _
      | leave => exact hR.fault _
      | proceed => exact hR.fault _
    · simp only [restricted, if_neg hf]
      exact hR.fault _

end Calls

end Monorepo.Script
