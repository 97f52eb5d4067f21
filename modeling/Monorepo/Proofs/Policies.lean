import Monorepo.Proofs.Measure
import Monorepo.Proofs.Occurrences
import Monorepo.Proofs.Steps

/-!
# Policies

A policy says what a script may read and spell, and what its values satisfy: what holds of
everything inside of them, and what holds of each value that a variable or a target takes. The
second may break while a value is built, for it is checked when the value is measured. If a policy
is lawful then evaluation keeps it, in every context whose calls keep it.
-/

namespace Monorepo.Script

/-- What is asked of a script and of its values. -/
structure Policy where
  /-- The variables that the script may read. -/
  names : String → Prop
  /-- The texts that it may spell. -/
  texts : String → Prop
  /-- The predefined functions that may occur in values. -/
  builtins : Builtin → Prop
  /-- The dictionaries that may occur in values. -/
  dicts : Entries → Prop
  /-- What holds of the values of variables and of arguments. -/
  whole : Value → Prop

namespace Policy

/-- What is asked of a part of an expression. -/
def Reads (p : Policy) : Expr → Prop
  | .name name => p.names name
  | .text s => p.texts s
  | _ => True

/-- What is asked of a statement in a script. -/
def Permits (p : Policy) (s : Statement) : Prop :=
  (∀ e ∈ s.action.expressions, e.All p.Reads) ∧
    ∀ name op e, s.action = .augment name op e → p.names name

/-- The statements that are permitted with all that is in them. -/
def Allows (p : Policy) (s : Statement) : Prop := s.All p.Permits

/-- The functions of a script whose statements are allowed. -/
def AllowsFunction (p : Policy) (f : Function) : Prop :=
  (∀ e ∈ f.parameters.filterMap Parameter.default, e.All p.Reads) ∧ ∀ s ∈ f.body, p.Allows s

/-- What is asked of everything inside of a value. -/
def Part (p : Policy) : Value → Prop
  | .builtin b => p.builtins b
  | .function f => p.AllowsFunction f
  | .dict entries => p.dicts entries
  | _ => True

/-- A value that a variable may take. -/
structure Admits (p : Policy) (v : Value) : Prop where
  parts : v.All p.Part
  whole : p.whole v

/-- What a policy asks of the states of a run. -/
def rule (p : Policy) : Rule where
  names := p.names
  values := p.Admits
  calls call := p.builtins (.target call.kind) ∧ ∀ k ∈ call.keywords, p.Admits k.2
  faults _ := True

/-- A policy that evaluation can keep. -/
structure Lawful (p : Policy) : Prop where
  dict_nil : p.dicts []
  dict_insert : ∀ {entries : Entries} (key value : Value), p.dicts entries →
    p.dicts (entries.insert key value)
  measured : ∀ {v : Value}, v.IsMeasured → p.whole v
  stub : ∀ trace, p.whole (.stub trace)
  text : ∀ {s : String}, p.texts s → p.whole (.text s)
  items : ∀ {v : Value} {items : List Value}, p.whole v → v.items? = some items →
    ∀ item ∈ items, p.whole item
  entries : ∀ {entries : Entries}, p.whole (.dict entries) → ∀ e ∈ entries, p.whole e.2

/-- Two contexts in the same surroundings whose calls do the same and keep the policy. -/
structure Agrees (p : Policy) (c c' : Context) : Prop where
  setting : c.setting = c'.setting
  invoke : ∀ f arguments keywords, p.AllowsFunction f → (∀ v ∈ arguments, p.Admits v) →
    (∀ k ∈ keywords, p.Admits k.2) →
    Eval.Leads p.rule p.Admits (c.invoke f arguments keywords) (c'.invoke f arguments keywords)

end Policy

open Eval (Leads LeadsAt)
open Value (All Kept)

/-! ## Values under a policy -/

section Values

variable {p : Policy} (hp : p.Lawful)
include hp

theorem Policy.Lawful.kept : Kept p.Part where
  plain := by
    intro v hv
    cases v with
    | builtin | function | dict => cases hv
    | _ => exact trivial
  empty := hp.dict_nil
  insert key value h := hp.dict_insert key value h

theorem Policy.Lawful.admits_stub (trace : String) : p.Admits (.stub trace) :=
  ⟨hp.kept.atom rfl, hp.stub trace⟩

theorem Policy.Lawful.admits_items {v : Value} (hv : p.Admits v) {items : List Value}
    (h : iterate v = .ok items) : ∀ item ∈ items, p.Admits item := by
  unfold iterate at h
  split at h
  · rename_i items' hitems
    cases h
    exact fun item hitem => ⟨hp.kept.items hv.parts hitems item hitem,
      hp.items hv.whole hitems item hitem⟩
  · cases h

omit hp in
theorem Policy.lift_leads {α : Type} {Q : α → Prop} {result : Except EvalFault α}
    (h : ∀ a, result = .ok a → Q a) : Leads p.rule Q (Eval.lift result) (Eval.lift result) :=
  Leads.lift h fun _ _ => trivial

/-- A value that is measured may be stored. -/
theorem Policy.Lawful.bounded_leads {v : Value} (h : v.All p.Part) :
    Leads p.rule p.Admits (Eval.bounded v) (Eval.bounded v) := by
  refine Policy.lift_leads fun out hout => ?_
  obtain ⟨rfl, hmeasured⟩ := Value.isMeasured_of_bounded hout
  exact ⟨h, hp.measured hmeasured⟩

theorem Policy.Lawful.items_leads {v : Value} (hv : p.Admits v) :
    Leads p.rule (fun items => ∀ item ∈ items, p.Admits item) (Eval.items v) (Eval.items v) :=
  Policy.lift_leads fun _ h => hp.admits_items hv h

theorem Policy.Lawful.bindTargets_leads (targets : List String) {item : Value}
    (hitem : p.Admits item) :
    Leads p.rule (fun _ => True) (Eval.bindTargets targets item)
      (Eval.bindTargets targets item) := by
  unfold Eval.bindTargets
  split
  · exact Leads.store fun _ => hitem
  · exact Leads.unpack hp.admits_stub (fun _ => trivial) (fun _ h => hp.admits_items hitem h) _

omit hp in
theorem checkStored_apply (name : String) (s : State) :
    Eval.checkStored name s = (match s.find? name with
      | some value => discard (Eval.lift value.measure)
      | none => return) s := rfl

/-- A variable that is changed in place is measured afterwards. -/
theorem Policy.Lawful.update_leads {s : State} (hs : s.Obeys p.rule) {name : String}
    {old value : Value} (hfind : s.find? name = some old) (hvalue : value.All p.Part) :
    LeadsAt p.rule (fun _ => True) s
      (do modify (·.update name value); Eval.checkStored name)
      (do modify (·.update name value); Eval.checkStored name) := by
  refine ⟨rfl, ?_⟩
  change Eval.Ends p.rule _ (Eval.checkStored name (s.update name value))
  rw [checkStored_apply, State.find?_update hfind value]
  change Eval.Ends p.rule _ (discard (Eval.lift value.measure) (s.update name value))
  cases hmeasure : value.measure with
  | error fault => exact ⟨trivial, (s.declared_update name value).symm ▸ hs.declared⟩
  | ok n => exact ⟨hs.update fun _ => ⟨hvalue, hp.measured ⟨n, hmeasure⟩⟩, trivial⟩

end Values

/-! ## Calls under a policy -/

section Calls

variable {p : Policy} (hp : p.Lawful)
include hp

theorem Policy.Lawful.member_leads {object : Value} (h : object.All p.Part) (name : String) :
    Leads p.rule (All p.Part) (member object name) (member object name) := by
  unfold member
  split
  · exact Leads.pure (hp.kept.atom rfl)
  · exact Leads.ite (fun _ => Leads.pure (hp.kept.method h name))
      fun _ => (Leads.warn _).bind fun _ _ => Leads.pure (hp.kept.atom rfl)

variable {arguments : List Value} (harguments : ∀ v ∈ arguments, p.Admits v) {keywords : Keywords}
  (hkeywords : ∀ k ∈ keywords, p.Admits k.2)
include hkeywords

theorem Policy.Lawful.declareTarget_leads {kind : String} (hkind : p.builtins (.target kind))
    (arguments : List Value) :
    Leads p.rule (All p.Part) (declareTarget kind arguments keywords)
      (declareTarget kind arguments keywords) := by
  have hdeclare : Leads p.rule (All p.Part) (do
      modify fun s : State => { s with declared := ⟨kind, keywords, s.line⟩ :: s.declared }
      return Value.none) (do
      modify fun s : State => { s with declared := ⟨kind, keywords, s.line⟩ :: s.declared }
      return Value.none) := by
    refine Leads.bind (Leads.modify fun s hs => ⟨hs.globals, hs.frames, ?_⟩) fun _ _ =>
      Leads.pure (hp.kept.atom rfl)
    exact List.forall_mem_cons.mpr ⟨⟨hkind, hkeywords⟩, hs.declared⟩
  exact Leads.ite (fun _ => hdeclare) fun _ => (Leads.warn _).bind fun _ _ => hdeclare

include harguments

theorem Policy.Lawful.callBuiltin_leads (setting : Setting) {b : Builtin}
    (hb : (Value.builtin b).All p.Part) :
    Leads p.rule (All p.Part) (callBuiltin setting b arguments keywords)
      (callBuiltin setting b arguments keywords) := by
  unfold callBuiltin
  split
  · exact hp.declareTarget_leads hkeywords hb.self arguments
  · refine Leads.ite (fun _ => Leads.pure (hp.kept.atom rfl)) fun _ => Policy.lift_leads ?_
    exact fun v h => all_computeBuiltin hp.kept (fun v hv => (harguments v hv).parts)
      (fun k hk => (hkeywords k hk).parts) h

theorem Policy.Lawful.call_leads {c c' : Context} (h : p.Agrees c c') {callee : Value}
    (hcallee : callee.All p.Part) :
    Leads p.rule (All p.Part) (call c callee arguments keywords)
      (call c' callee arguments keywords) := by
  unfold call
  cases callee with
  | stub trace => exact Leads.pure (hp.kept.atom rfl)
  | builtin b =>
    rw [h.setting]
    exact hp.callBuiltin_leads harguments hkeywords _ hcallee
  | function f =>
    exact (h.invoke f _ _ hcallee.self harguments hkeywords).mono fun _ hv => hv.parts
  | method receiver name =>
    exact Policy.lift_leads fun v hv =>
      all_callMethod hp.kept hcallee.receiver (fun v hv => (harguments v hv).parts) hv
  | _ => exact Leads.fault trivial

theorem Policy.Lawful.changeVariable_leads {name : String} (hname : p.names name)
    (method : String) :
    Leads p.rule (fun _ => True) (changeVariable name method arguments keywords)
      (changeVariable name method arguments keywords) := by
  refine Leads.get_bind fun s hs => ?_
  cases hfind : s.find? name with
  | none => exact Leads.pure trivial s hs
  | some value =>
    refine LeadsAt.lift_bind hs (fun changed hchanged => ?_) fun _ _ => trivial
    cases changed with
    | none => exact Leads.pure trivial s hs
    | some changed =>
      have hall : changed.All p.Part :=
        all_changeInPlace hp.kept (hs.find? hfind hname).parts
          (fun v hv => (harguments v hv).parts) (fun k hk => (hkeywords k hk).parts) hchanged
      have hupdate := (hp.update_leads hs hfind hall).bind (R := fun _ : Bool => True)
        (f := fun _ => pure true) (g := fun _ => pure true) fun _ _ => Leads.pure trivial
      exact hupdate

omit harguments

omit hp in
theorem Policy.spreadEntries_leads {entries : List (Value × Value)}
    (hentries : ∀ e ∈ entries, p.Admits e.2) :
    Leads p.rule (fun keywords => ∀ k ∈ keywords, p.Admits k.2) (spreadEntries keywords entries)
      (spreadEntries keywords entries) := by
  induction entries generalizing keywords with
  | nil => exact Leads.pure hkeywords
  | cons entry entries ih =>
    obtain ⟨hentry, hrest⟩ := List.forall_mem_cons.mp hentries
    obtain ⟨key, value⟩ := entry
    cases key with
    | text name => exact ih (Value.forall_mem_keywordsSet hkeywords fun _ => hentry) hrest
    | _ => exact Leads.fault trivial

theorem Policy.Lawful.spreadKeywords_leads {value : Value} (hvalue : p.Admits value) :
    Leads p.rule (fun keywords => ∀ k ∈ keywords, p.Admits k.2) (spreadKeywords keywords value)
      (spreadKeywords keywords value) := by
  unfold spreadKeywords
  split
  · rename_i entries
    exact Policy.spreadEntries_leads hkeywords fun e he =>
      ⟨(hvalue.parts.entries e he).2, hp.entries hvalue.whole e he⟩
  · exact (Leads.warn _).bind fun _ _ => Leads.pure hkeywords
  · exact Leads.fault trivial

omit hkeywords hp

/-- The items of a comprehension. -/
theorem Policy.gather_leads {turn turn' : Value → Eval (Option Value)}
    (h : ∀ item, p.Admits item →
      Leads p.rule (fun v => ∀ w ∈ v, p.Admits w) (turn item) (turn' item))
    {items : List Value} (hitems : ∀ v ∈ items, p.Admits v) (size count : Nat) {kept : List Value}
    (hkept : ∀ v ∈ kept, p.Admits v) :
    Leads p.rule (fun values => ∀ v ∈ values, p.Admits v) (gather turn items size count kept)
      (gather turn' items size count kept) := by
  induction items generalizing size count kept with
  | nil => exact Leads.pure fun v hv => hkept v (List.mem_reverse.mp hv)
  | cons item items ih =>
    obtain ⟨hitem, hitems⟩ := List.forall_mem_cons.mp hitems
    refine (h item hitem).bind fun value hvalue => ?_
    cases value with
    | none => exact ih hitems size count hkept
    | some value =>
      refine (Policy.lift_leads (Q := fun _ => True) fun _ _ => trivial).bind fun measured _ => ?_
      refine Leads.ite (fun _ => Leads.fault trivial) fun _ => ih hitems _ _ ?_
      exact List.forall_mem_cons.mpr ⟨hvalue value rfl, hkept⟩

theorem Policy.Lawful.collect_leads (hp : p.Lawful) (targets : List String)
    {turn turn' : Value → Eval (Option Value)}
    (h : ∀ item, p.Admits item →
      Leads p.rule (fun v => ∀ w ∈ v, p.Admits w) (turn item) (turn' item))
    {items : List Value} (hitems : ∀ v ∈ items, p.Admits v) :
    Leads p.rule p.Admits
      (do Eval.bounded (.list (← Eval.restoring targets (gather turn items 0 0 []))))
      (do Eval.bounded (.list (← Eval.restoring targets (gather turn' items 0 0 [])))) := by
  have hgather := Policy.gather_leads h hitems 0 0 (List.forall_mem_nil _)
  exact (Leads.restoring targets hgather).bind fun values hvalues =>
    hp.bounded_leads (hp.kept.list fun v hv => (hvalues v hv).parts)

end Calls

/-! ## Expressions -/

section Expressions

variable {p : Policy} {c c' : Context}

theorem mutationTarget_eq {callee : Expr} {name method : String}
    (h : mutationTarget callee = some (name, method)) :
    callee = .attribute (.name name) method := by
  unfold mutationTarget at h
  split at h
  · split at h
    · cases h
      rfl
    · cases h
  · cases h

theorem Policy.Lawful.admits_atom (hp : p.Lawful) {v : Value} (hatom : v.isAtom = true)
    (hsize : v.measure = .ok 1) : p.Admits v :=
  ⟨hp.kept.atom hatom, hp.measured ⟨1, hsize⟩⟩

mutual

/-- Evaluation keeps a lawful policy. -/
theorem eval_leads (hp : p.Lawful) (h : p.Agrees c c') :
    (e : Expr) → e.All p.Reads → Leads p.rule p.Admits (eval c e) (eval c' e)
  | .none, _ => by unfold eval; exact Leads.pure (hp.admits_atom rfl rfl)
  | .bool _, _ => by unfold eval; exact Leads.pure (hp.admits_atom rfl rfl)
  | .int _, _ => by unfold eval; exact Leads.pure (hp.admits_atom rfl rfl)
  | .float _, _ => by unfold eval; exact Leads.pure (hp.admits_atom rfl rfl)
  | .text s, he => by
    unfold eval
    exact Leads.pure ⟨hp.kept.atom rfl, hp.text he.self⟩
  | .name name, he => by
    unfold eval
    exact Leads.lookup he.self (hp.admits_stub name)
  | .list items, he => by
    unfold eval
    exact (evalAll_leads hp h items he.list).bind fun values hvalues =>
      hp.bounded_leads (hp.kept.list fun v hv => (hvalues v hv).parts)
  | .tuple items, he => by
    unfold eval
    exact (evalAll_leads hp h items he.tuple).bind fun values hvalues =>
      hp.bounded_leads (hp.kept.tuple fun v hv => (hvalues v hv).parts)
  | .dict entries, he => by
    unfold eval
    exact (evalEntries_leads hp h hp.kept.dict_nil entries he.dict).bind fun done hdone =>
      hp.bounded_leads hdone
  | .comprehension element targets source none, he => by
    unfold eval
    obtain ⟨helement, hsource, -⟩ := he.comprehension
    refine (eval_leads hp h source hsource).bind fun value hvalue => ?_
    refine (hp.items_leads hvalue).bind fun items hitems => ?_
    refine hp.collect_leads targets (fun item hitem => ?_) hitems
    refine (hp.bindTargets_leads targets hitem).bind fun _ _ => ?_
    exact (eval_leads hp h element helement).bind fun v hv => Leads.pure fun w hw =>
      Option.mem_some.mp hw ▸ hv
  | .comprehension element targets source (some condition), he => by
    unfold eval
    obtain ⟨helement, hsource, hcondition⟩ := he.comprehension
    refine (eval_leads hp h source hsource).bind fun value hvalue => ?_
    refine (hp.items_leads hvalue).bind fun items hitems => ?_
    refine hp.collect_leads targets (fun item hitem => ?_) hitems
    refine (hp.bindTargets_leads targets hitem).bind fun _ _ => ?_
    refine (eval_leads hp h condition (hcondition _ rfl)).bind fun v _ => Leads.ite (fun _ => ?_)
      fun _ => Leads.pure nofun
    exact (eval_leads hp h element helement).bind fun v hv => Leads.pure fun w hw =>
      Option.mem_some.mp hw ▸ hv
  | .call callee arguments, he => by
    unfold eval
    obtain ⟨hcallee, harguments⟩ := he.call
    split
    · rename_i name method htarget
      have hname : p.names name := by
        rw [mutationTarget_eq htarget] at hcallee
        exact hcallee.attribute.self
      refine (evalArguments_leads hp h (List.forall_mem_nil _) (List.forall_mem_nil _) arguments
        harguments).bind fun (values, keywords) ⟨hvalues, hkeywords⟩ => ?_
      refine (hp.changeVariable_leads hvalues hkeywords hname method).bind fun changed _ => ?_
      refine Leads.ite (fun _ => hp.bounded_leads (hp.kept.atom rfl)) fun _ => ?_
      refine (eval_leads hp h callee hcallee).bind fun value hvalue => ?_
      exact (hp.call_leads hvalues hkeywords h hvalue.parts).bind fun v hv => hp.bounded_leads hv
    · refine (eval_leads hp h callee hcallee).bind fun value hvalue => ?_
      refine (evalArguments_leads hp h (List.forall_mem_nil _) (List.forall_mem_nil _) arguments
        harguments).bind fun (values, keywords) ⟨hvalues, hkeywords⟩ => ?_
      exact (hp.call_leads hvalues hkeywords h hvalue.parts).bind fun v hv => hp.bounded_leads hv
  | .attribute object name, he => by
    unfold eval
    exact (eval_leads hp h object he.attribute).bind fun value hvalue =>
      (hp.member_leads hvalue.parts name).bind fun v hv => hp.bounded_leads hv
  | .subscript object index, he => by
    unfold eval
    obtain ⟨hobject, hindex⟩ := he.link rfl
    refine (eval_leads hp h object hobject).bind fun value hvalue => ?_
    refine (eval_leads hp h index hindex).bind fun key _ => ?_
    exact (Policy.lift_leads fun v hv => all_subscript hp.kept hvalue.parts hv).bind
      fun v hv => hp.bounded_leads hv
  | .arithmetic op left right, he => by
    unfold eval
    obtain ⟨hleft, hright⟩ := he.link rfl
    refine (eval_leads hp h left hleft).bind fun a ha => ?_
    refine (eval_leads hp h right hright).bind fun b hb => ?_
    exact (Policy.lift_leads fun v hv => all_operate hp.kept ha.parts hb.parts hv).bind
      fun v hv => hp.bounded_leads hv
  | .unary op operand, he => by
    unfold eval
    refine (eval_leads hp h operand he.unary).bind fun a ha => ?_
    exact (Policy.lift_leads fun v hv => hp.kept.atom (isAtom_applyUnary hv)).bind
      fun v hv => hp.bounded_leads hv
  | .compare op left right, he => by
    unfold eval
    obtain ⟨hleft, hright⟩ := he.link rfl
    refine (eval_leads hp h left hleft).bind fun a ha => ?_
    refine (eval_leads hp h right hright).bind fun b hb => ?_
    exact (Policy.lift_leads fun v hv => hp.kept.atom (isAtom_applyComparison hv)).bind
      fun v hv => hp.bounded_leads hv
  | .both left right, he => by
    unfold eval
    obtain ⟨hleft, hright⟩ := he.link rfl
    refine (eval_leads hp h left hleft).bind fun a ha => Leads.ite (fun _ => ?_) fun _ => ?_
    · exact (eval_leads hp h right hright).bind fun b hb => hp.bounded_leads hb.parts
    · exact (Leads.pure ha).bind fun b hb => hp.bounded_leads hb.parts
  | .either left right, he => by
    unfold eval
    obtain ⟨hleft, hright⟩ := he.link rfl
    refine (eval_leads hp h left hleft).bind fun a ha => Leads.ite (fun _ => ?_) fun _ => ?_
    · exact (Leads.pure ha).bind fun b hb => hp.bounded_leads hb.parts
    · exact (eval_leads hp h right hright).bind fun b hb => hp.bounded_leads hb.parts
  | .conditional condition positive negative, he => by
    unfold eval
    obtain ⟨hcondition, hpositive, hnegative⟩ := he.conditional
    refine (eval_leads hp h condition hcondition).bind fun a _ => ?_
    refine Leads.ite (fun _ => ?_) fun _ => ?_
    · exact (eval_leads hp h positive hpositive).bind fun b hb => hp.bounded_leads hb.parts
    · exact (eval_leads hp h negative hnegative).bind fun b hb => hp.bounded_leads hb.parts

theorem evalAll_leads (hp : p.Lawful) (h : p.Agrees c c') :
    (es : List Expr) → (∀ e ∈ es, e.All p.Reads) →
    Leads p.rule (fun values => ∀ v ∈ values, p.Admits v) (evalAll c es) (evalAll c' es)
  | [], _ => Leads.pure (List.forall_mem_nil _)
  | e :: es, hes => by
    obtain ⟨he, hes⟩ := List.forall_mem_cons.mp hes
    refine (eval_leads hp h e he).bind fun value hvalue => ?_
    exact (evalAll_leads hp h es hes).bind fun values hvalues =>
      Leads.pure (List.forall_mem_cons.mpr ⟨hvalue, hvalues⟩)

theorem evalEntries_leads (hp : p.Lawful) (h : p.Agrees c c') {done : Entries}
    (hdone : (Value.dict done).All p.Part) :
    (entries : List (Expr × Expr)) →
    (∀ entry ∈ entries, entry.1.All p.Reads ∧ entry.2.All p.Reads) →
    Leads p.rule (fun done => (Value.dict done).All p.Part) (evalEntries c done entries)
      (evalEntries c' done entries)
  | [], _ => Leads.pure hdone
  | (key, value) :: entries, hes => by
    obtain ⟨⟨hkey, hvalue⟩, hes⟩ := List.forall_mem_cons.mp hes
    refine (eval_leads hp h key hkey).bind fun k hk => ?_
    refine (eval_leads hp h value hvalue).bind fun v hv => ?_
    exact evalEntries_leads hp h (hp.kept.dict_insert hdone hk.parts hv.parts) entries hes

theorem evalArguments_leads (hp : p.Lawful) (h : p.Agrees c c') {done : List Value}
    (hdone : ∀ v ∈ done, p.Admits v) {keywords : Keywords}
    (hkeywords : ∀ k ∈ keywords, p.Admits k.2) :
    (arguments : List Argument) → (∀ a ∈ arguments, a.value.All p.Reads) →
    Leads p.rule (fun out => (∀ v ∈ out.1, p.Admits v) ∧ ∀ k ∈ out.2, p.Admits k.2)
      (evalArguments c done keywords arguments) (evalArguments c' done keywords arguments)
  | [], _ => Leads.pure ⟨fun v hv => hdone v (List.mem_reverse.mp hv), hkeywords⟩
  | .positional e :: arguments, hes => by
    obtain ⟨he, hes⟩ := List.forall_mem_cons.mp hes
    exact (eval_leads hp h e he).bind fun value hvalue =>
      evalArguments_leads hp h (List.forall_mem_cons.mpr ⟨hvalue, hdone⟩) hkeywords arguments hes
  | .keyword name e :: arguments, hes => by
    obtain ⟨he, hes⟩ := List.forall_mem_cons.mp hes
    exact (eval_leads hp h e he).bind fun value hvalue => evalArguments_leads hp h hdone
      (Value.forall_mem_keywordsSet hkeywords fun _ => hvalue) arguments hes
  | .spread e :: arguments, hes => by
    obtain ⟨he, hes⟩ := List.forall_mem_cons.mp hes
    refine (eval_leads hp h e he).bind fun value hvalue => ?_
    refine (hp.items_leads hvalue).bind fun items hitems => evalArguments_leads hp h ?_ hkeywords
      arguments hes
    exact List.forall_mem_append.mpr ⟨fun v hv => hitems v (List.mem_reverse.mp hv), hdone⟩
  | .spreadKeywords e :: arguments, hes => by
    obtain ⟨he, hes⟩ := List.forall_mem_cons.mp hes
    refine (eval_leads hp h e he).bind fun value hvalue => ?_
    exact (hp.spreadKeywords_leads hkeywords hvalue).bind fun keywords' hkeywords' =>
      evalArguments_leads hp h hdone hkeywords' arguments hes

end

end Expressions

/-! ## No policy -/

/-- The policy that asks nothing. -/
def Policy.permissive : Policy :=
  ⟨fun _ => True, fun _ => True, fun _ => True, fun _ => True, fun _ => True⟩

namespace Policy

theorem permissive_reads (e : Expr) : permissive.Reads e := by
  cases e <;> exact trivial

theorem permissive_allows (s : Statement) : permissive.Allows s :=
  fun _ _ => ⟨fun _ _ _ _ => permissive_reads _, fun _ _ _ _ => trivial⟩

theorem permissive_admits (v : Value) : permissive.Admits v := by
  refine ⟨?_, trivial⟩
  induction v using Value.induction_parts with
  | step v ih =>
    refine ⟨?_, ih⟩
    cases v with
    | function f => exact ⟨fun _ _ _ _ => permissive_reads _, fun _ _ => permissive_allows _⟩
    | _ => exact trivial

theorem permissive_lawful : permissive.Lawful where
  dict_nil := trivial
  dict_insert _ _ _ := trivial
  measured _ := trivial
  stub _ := trivial
  text _ := trivial
  items _ _ _ _ := trivial
  entries _ _ _ := trivial

end Policy

end Monorepo.Script
