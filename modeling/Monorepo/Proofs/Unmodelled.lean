import Monorepo.Descriptor
import Monorepo.Proofs.Boundaries
import Monorepo.Proofs.Predefined

/-!
# Scripts that use what nobody models

A name is unmodelled if it is predefined as a stub or not at all. Whatever is done to a stub yields
a stub again, and a stub can be unpacked, looped over and assigned into. So a script that only
combines unmodelled names with literals and containers runs to its end, unless a trace or a
container grows beyond a limit, and it declares nothing. The induction is over expressions of two
kinds: those that are stubs, and those that may be anything.
-/

namespace Monorepo.Script

/-! ## The scripts -/

section Syntax

variable (N : String → Prop)

/-- An argument that passes one value. -/
def Argument.isSingle : Argument → Bool
  | .positional _ | .keyword _ _ => true
  | .spread _ | .spreadKeywords _ => false

mutual

/-- The expressions that stand for something unmodelled. -/
inductive Opaque : Expr → Prop
  | name {n : String} (h : N n) : Opaque (.name n)
  | call {callee : Expr} {arguments : List Argument} (h : Opaque callee)
    (hsingle : ∀ a ∈ arguments, a.isSingle = true) (harguments : ∀ a ∈ arguments, Loose a.value) :
    Opaque (.call callee arguments)
  | member {object : Expr} (h : Opaque object) (name : String) : Opaque (.attribute object name)
  | subscriptOf {object index : Expr} (h : Opaque object) (hindex : Loose index) :
    Opaque (.subscript object index)
  | subscriptBy {object index : Expr} (h : Loose object) (hindex : Opaque index) :
    Opaque (.subscript object index)
  | sign {op : UnaryOp} (hop : op ≠ .not) {operand : Expr} (h : Opaque operand) :
    Opaque (.unary op operand)
  | arithmeticLeft (op : ArithmeticOp) {l r : Expr} (hl : Opaque l) (hr : Loose r) :
    Opaque (.arithmetic op l r)
  | arithmeticRight (op : ArithmeticOp) {l r : Expr} (hl : Loose l) (hr : Opaque r) :
    Opaque (.arithmetic op l r)
  | compareLeft {op : ComparisonOp} (hop : op.isEquality = false) {l r : Expr} (hl : Opaque l)
    (hr : Loose r) : Opaque (.compare op l r)
  | compareRight {op : ComparisonOp} (hop : op.isEquality = false) {l r : Expr} (hl : Loose l)
    (hr : Opaque r) : Opaque (.compare op l r)
  | conditional {c p n : Expr} (hc : Loose c) (hp : Opaque p) (hn : Opaque n) :
    Opaque (.conditional c p n)

/-- The expressions made of literals, containers and what is unmodelled. -/
inductive Loose : Expr → Prop
  | none : Loose .none
  | bool (b : Bool) : Loose (.bool b)
  | int (n : Nat) : Loose (.int n)
  | text (s : String) : Loose (.text s)
  | stands {e : Expr} (h : Opaque e) : Loose e
  | list {items : List Expr} (h : ∀ e ∈ items, Loose e) : Loose (.list items)
  | tuple {items : List Expr} (h : ∀ e ∈ items, Loose e) : Loose (.tuple items)
  | dict {entries : List (Expr × Expr)} (hkeys : ∀ entry ∈ entries, Loose entry.1)
    (hvalues : ∀ entry ∈ entries, Loose entry.2) : Loose (.dict entries)

end

/-- The statements that such expressions are used in. -/
inductive Tolerated : Statement → Prop
  | evaluate (line : Nat) {e : Expr} (h : Loose N e) : Tolerated (.at line (.evaluate e))
  | imports (line : Nat) {bindings : List (String × String)} (h : ∀ b ∈ bindings, N b.1) :
    Tolerated (.at line (.imports bindings))
  | assign (line : Nat) {name : String} (hname : N name) {e : Expr} (h : Opaque N e) :
    Tolerated (.at line (.assign (.name name) e))
  | unpack (line : Nat) {names : List String} (hnames : ∀ n ∈ names, N n) {e : Expr}
    (h : Opaque N e) : Tolerated (.at line (.assign (.unpack names) e))
  | augment (line : Nat) {name : String} (hname : N name) (op : ArithmeticOp) {e : Expr}
    (h : Loose N e) : Tolerated (.at line (.augment name op e))
  | assignMember (line : Nat) {name : String} (hname : N name) (member : String) {e : Expr}
    (h : Loose N e) : Tolerated (.at line (.assign (.place (.attribute (.name name) member)) e))
  | assignItem (line : Nat) {name : String} (hname : N name) {index e : Expr}
    (hindex : Loose N index) (h : Loose N e) :
    Tolerated (.at line (.assign (.place (.subscript (.name name) index)) e))
  | loop (line : Nat) {targets : List String} (htargets : ∀ n ∈ targets, N n) {source : Expr}
    (hsource : Opaque N source) {body : List Statement} (hbody : ∀ s ∈ body, Tolerated s) :
    Tolerated (.at line (.loop targets source body))
  | branch (line : Nat) {branches : List (Expr × List Statement)}
    (hconditions : ∀ b ∈ branches, Loose N b.1) (hblocks : ∀ b ∈ branches, ∀ s ∈ b.2, Tolerated s)
    {otherwise : List Statement} (hotherwise : ∀ s ∈ otherwise, Tolerated s) :
    Tolerated (.at line (.branch branches otherwise))

end Syntax

/-! ## What a limit stops -/

/-- The faults of values that are too large or too deep. -/
def EvalFault.IsLimit : EvalFault → Prop
  | .tooDeep | .tooLong _ _ | .tooLarge => True
  | _ => False

namespace Value

theorem isLimit_addOwnSize {depth total : Nat} {v : Value} {fault : EvalFault}
    (h : addOwnSize depth total v = .error fault) : fault.IsLimit := by
  unfold addOwnSize at h
  dsimp only at h
  split at h
  · cases h
    exact trivial
  · split at h
    · cases h
      exact trivial
    · split at h
      · cases h
        exact trivial
      · cases h

theorem error_of_bind {ε α β : Type} {x : Except ε α} {f : α → Except ε β} {e : ε}
    (h : x >>= f = .error e) : x = .error e ∨ ∃ a, x = .ok a ∧ f a = .error e := by
  cases x with
  | error e' =>
    cases h
    exact Or.inl rfl
  | ok a => exact Or.inr ⟨a, rfl, h⟩

theorem isLimit_addSizes {values : List Value}
    (hvalues : ∀ v ∈ values, ∀ depth total fault, addSize depth total v = .error fault →
      fault.IsLimit)
    {depth total : Nat} {fault : EvalFault} (h : addSizes depth total values = .error fault) :
    fault.IsLimit := by
  induction values with
  | nil => cases h
  | cons value values ih =>
    obtain ⟨hvalue, hrest⟩ := List.forall_mem_cons.mp hvalues
    unfold addSizes at h
    rcases error_of_bind h with h | ⟨sum, -, h⟩
    · exact ih hrest h
    · exact hvalue _ _ _ h

/-- Measuring fails for no other reason than a limit. -/
theorem isLimit_addSize (v : Value) : ∀ depth total fault,
    addSize depth total v = .error fault → fault.IsLimit := by
  induction v using induction_parts with
  | step v ih =>
    intro depth total fault h
    rw [addSize_eq] at h
    rcases error_of_bind h with h | ⟨sum, -, h⟩
    · exact isLimit_addOwnSize h
    · exact isLimit_addSizes ih h

/-- A value that is a stub. -/
def IsStub (v : Value) : Prop := ∃ trace, v = .stub trace

theorem isStub_stub (trace : String) : (Value.stub trace).IsStub := ⟨trace, rfl⟩

end Value

/-- All unmodelled names are stubs or unbound, and nothing is declared. -/
def Rule.blank (N : String → Prop) : Rule where
  names := N
  values := Value.IsStub
  calls _ := False
  faults := EvalFault.IsLimit

open Eval (Leads)
open Value (IsStub isStub_stub)

/-! ## Operations on stubs -/

section Stubs

theorem isStub_operate_left (op : ArithmeticOp) {l : Value} (hl : l.IsStub) (r : Value) :
    ∃ v, operate op l r = .ok v ∧ v.IsStub := by
  obtain ⟨trace, rfl⟩ := hl
  exact ⟨_, rfl, isStub_stub _⟩

theorem isStub_operate_right (op : ArithmeticOp) (l : Value) {r : Value} (hr : r.IsStub) :
    ∃ v, operate op l r = .ok v ∧ v.IsStub := by
  obtain ⟨trace, rfl⟩ := hr
  cases l <;> exact ⟨_, rfl, isStub_stub _⟩

theorem isStub_applyComparison_left {op : ComparisonOp} (hop : op.isEquality = false) {l : Value}
    (hl : l.IsStub) (r : Value) : ∃ v, applyComparison op l r = .ok v ∧ v.IsStub := by
  obtain ⟨trace, rfl⟩ := hl
  unfold applyComparison
  rw [hop]
  exact ⟨_, rfl, isStub_stub _⟩

theorem isStub_applyComparison_right {op : ComparisonOp} (hop : op.isEquality = false) (l : Value)
    {r : Value} (hr : r.IsStub) : ∃ v, applyComparison op l r = .ok v ∧ v.IsStub := by
  obtain ⟨trace, rfl⟩ := hr
  unfold applyComparison
  rw [hop]
  cases l <;> exact ⟨_, rfl, isStub_stub _⟩

theorem isStub_subscript_of {object : Value} (hobject : object.IsStub) (index : Value) :
    ∃ v, subscript object index = .ok v ∧ v.IsStub := by
  obtain ⟨trace, rfl⟩ := hobject
  exact ⟨_, rfl, isStub_stub _⟩

theorem isStub_subscript_by (object : Value) {index : Value} (hindex : index.IsStub) :
    ∃ v, subscript object index = .ok v ∧ v.IsStub := by
  obtain ⟨trace, rfl⟩ := hindex
  cases object <;> exact ⟨_, rfl, isStub_stub _⟩

theorem isStub_applyUnary {op : UnaryOp} (hop : op ≠ .not) {operand : Value}
    (h : operand.IsStub) : ∃ v, applyUnary op operand = .ok v ∧ v.IsStub := by
  obtain ⟨trace, rfl⟩ := h
  cases op with
  | not => exact absurd rfl hop
  | minus | plus => exact ⟨_, rfl, isStub_stub _⟩

end Stubs

/-! ## Expressions -/

section Expressions

variable {N : String → Prop} {c c' : Context}

theorem bounded_blank {Q : Value → Prop} {v : Value} (h : Q v) :
    Leads (.blank N) Q (Eval.bounded v) (Eval.bounded v) := by
  refine Leads.lift (fun out hout => ?_) fun fault hfault => ?_
  · obtain ⟨rfl, -⟩ := Value.isMeasured_of_bounded hout
    exact h
  · unfold Value.bounded at hfault
    cases hmeasure : v.measure with
    | error f =>
      rw [hmeasure] at hfault
      cases hfault
      exact Value.isLimit_addSize v 1 0 _ hmeasure
    | ok n =>
      rw [hmeasure] at hfault
      cases hfault

/-- An operation that yields a stub. -/
theorem lift_bounded_blank {result : Except EvalFault Value}
    (h : ∃ v, result = .ok v ∧ v.IsStub) :
    Leads (.blank N) IsStub (do Eval.bounded (← Eval.lift result))
      (do Eval.bounded (← Eval.lift result)) := by
  obtain ⟨v, rfl, hv⟩ := h
  exact (Leads.pure (Q := IsStub) hv).bind fun w hw => bounded_blank hw

theorem checkStored_blank (name : String) :
    Leads (.blank N) (fun _ => True) (Eval.checkStored name) (Eval.checkStored name) := by
  refine Leads.get_bind fun s hs => ?_
  cases hfind : s.find? name with
  | none => exact Leads.pure trivial s hs
  | some value =>
    have hlift : Leads (.blank N) (fun _ => True) (Eval.lift value.measure)
        (Eval.lift value.measure) :=
      Leads.lift (fun _ _ => trivial) fun f hf => Value.isLimit_addSize value 1 0 f hf
    exact (hlift.map (R := fun _ => True) fun _ _ => trivial) s hs

/-- No method changes a stub in place. -/
theorem changeVariable_blank {name : String} (hname : N name) (method : String)
    (arguments : List Value) (keywords : Keywords) :
    Leads (.blank N) (fun changed => changed = false)
      (changeVariable name method arguments keywords)
      (changeVariable name method arguments keywords) := by
  refine Leads.get_bind fun s hs => ?_
  cases hfind : s.find? name with
  | none => exact Leads.pure rfl s hs
  | some value =>
    obtain ⟨trace, rfl⟩ : value.IsStub := hs.find? hfind hname
    exact Leads.pure (Q := fun changed => changed = false) rfl s hs

variable (c c')

mutual

/-- Such expressions do not fail, but for a limit, and those that stand for something unmodelled
    yield stubs. -/
theorem eval_loose : (e : Expr) → Loose N e →
    Leads (.blank N) (fun v => Opaque N e → v.IsStub) (eval c e) (eval c' e)
  | .none, _ => by unfold eval; exact Leads.pure nofun
  | .bool _, _ => by unfold eval; exact Leads.pure nofun
  | .int _, _ => by unfold eval; exact Leads.pure nofun
  | .float _, _ => by unfold eval; exact Leads.pure nofun
  | .text _, _ => by unfold eval; exact Leads.pure nofun
  | .name name, he => by
    unfold eval
    have hname : N name := by
      cases he with
      | stands h => cases h; assumption
    exact (Leads.lookup hname (isStub_stub name)).mono fun v hv _ => hv
  | .list items, he => by
    unfold eval
    have hitems : ∀ e ∈ items, Loose N e := by
      cases he with
      | list h => exact h
      | stands h => cases h
    exact (evalAll_loose items hitems).bind fun _ _ => bounded_blank nofun
  | .tuple items, he => by
    unfold eval
    have hitems : ∀ e ∈ items, Loose N e := by
      cases he with
      | tuple h => exact h
      | stands h => cases h
    exact (evalAll_loose items hitems).bind fun _ _ => bounded_blank nofun
  | .dict entries, he => by
    unfold eval
    have hentries : ∀ entry ∈ entries, Loose N entry.1 ∧ Loose N entry.2 := by
      cases he with
      | dict hkeys hvalues => exact fun entry hentry => ⟨hkeys entry hentry, hvalues entry hentry⟩
      | stands h => cases h
    exact (evalEntries_loose [] entries hentries).bind fun _ _ => bounded_blank nofun
  | .comprehension _ _ _ _, he => by
    cases he with
    | stands h => cases h
  | .call callee arguments, he => by
    unfold eval
    cases he with
    | stands h =>
    cases h with
    | call hcallee hsingle harguments =>
    have hvalues := evalArguments_loose [] [] arguments hsingle harguments
    have hcall (values : List Value) (keywords : Keywords) (v : Value) (hv : v.IsStub) :
        Leads (.blank N) (fun v => Opaque N (.call callee arguments) → v.IsStub)
          (do Eval.bounded (← call c v values keywords))
          (do Eval.bounded (← call c' v values keywords)) := by
      obtain ⟨trace, rfl⟩ := hv
      exact (Leads.pure (Q := IsStub) (isStub_stub _)).bind fun w hw => bounded_blank fun _ => hw
    split
    · rename_i name method htarget
      have hname : N name := by
        rw [mutationTarget_eq htarget] at hcallee
        cases hcallee with
        | member h => cases h; assumption
      refine hvalues.bind fun (values, keywords) _ => ?_
      refine (changeVariable_blank hname method values keywords).bind fun changed hchanged => ?_
      subst hchanged
      exact (eval_loose callee (.stands hcallee)).bind fun v hv => hcall _ _ v (hv hcallee)
    · refine (eval_loose callee (.stands hcallee)).bind fun v hv => ?_
      exact hvalues.bind fun (values, keywords) _ => hcall _ _ v (hv hcallee)
  | .attribute object name, he => by
    unfold eval
    cases he with
    | stands h =>
    cases h with
    | member hobject =>
    refine (eval_loose object (.stands hobject)).bind fun v hv => ?_
    obtain ⟨trace, rfl⟩ := hv hobject
    exact (Leads.pure (Q := IsStub) (isStub_stub _)).bind fun w hw => bounded_blank fun _ => hw
  | .subscript object index, he => by
    unfold eval
    cases he with
    | stands h =>
    cases h with
    | subscriptOf hobject hindex =>
      refine (eval_loose object (.stands hobject)).bind fun v hv => ?_
      refine (eval_loose index hindex).bind fun key _ => ?_
      exact (lift_bounded_blank (isStub_subscript_of (hv hobject) key)).mono fun w hw _ => hw
    | subscriptBy hobject hindex =>
      refine (eval_loose object hobject).bind fun v _ => ?_
      refine (eval_loose index (.stands hindex)).bind fun key hkey => ?_
      exact (lift_bounded_blank (isStub_subscript_by v (hkey hindex))).mono fun w hw _ => hw
  | .arithmetic op left right, he => by
    unfold eval
    cases he with
    | stands h =>
    cases h with
    | arithmeticLeft _ hl hr =>
      refine (eval_loose left (.stands hl)).bind fun a ha => ?_
      refine (eval_loose right hr).bind fun b _ => ?_
      exact (lift_bounded_blank (isStub_operate_left op (ha hl) b)).mono fun w hw _ => hw
    | arithmeticRight _ hl hr =>
      refine (eval_loose left hl).bind fun a _ => ?_
      refine (eval_loose right (.stands hr)).bind fun b hb => ?_
      exact (lift_bounded_blank (isStub_operate_right op a (hb hr))).mono fun w hw _ => hw
  | .unary op operand, he => by
    unfold eval
    cases he with
    | stands h =>
    cases h with
    | sign hop hoperand =>
    refine (eval_loose operand (.stands hoperand)).bind fun v hv => ?_
    exact (lift_bounded_blank (isStub_applyUnary hop (hv hoperand))).mono fun w hw _ => hw
  | .compare op left right, he => by
    unfold eval
    cases he with
    | stands h =>
    cases h with
    | compareLeft hop hl hr =>
      refine (eval_loose left (.stands hl)).bind fun a ha => ?_
      refine (eval_loose right hr).bind fun b _ => ?_
      exact (lift_bounded_blank (isStub_applyComparison_left hop (ha hl) b)).mono fun w hw _ => hw
    | compareRight hop hl hr =>
      refine (eval_loose left hl).bind fun a _ => ?_
      refine (eval_loose right (.stands hr)).bind fun b hb => ?_
      exact (lift_bounded_blank (isStub_applyComparison_right hop a (hb hr))).mono fun w hw _ => hw
  | .both _ _, he => by
    cases he with
    | stands h => cases h
  | .either _ _, he => by
    cases he with
    | stands h => cases h
  | .conditional condition positive negative, he => by
    unfold eval
    cases he with
    | stands h =>
    cases h with
    | conditional hcondition hpositive hnegative =>
    refine (eval_loose condition hcondition).bind fun a _ => ?_
    refine Leads.ite (fun _ => ?_) fun _ => ?_
    · exact (eval_loose positive (.stands hpositive)).bind fun v hv =>
        bounded_blank fun _ => hv hpositive
    · exact (eval_loose negative (.stands hnegative)).bind fun v hv =>
        bounded_blank fun _ => hv hnegative

theorem evalAll_loose : (es : List Expr) → (∀ e ∈ es, Loose N e) →
    Leads (.blank N) (fun _ => True) (evalAll c es) (evalAll c' es)
  | [], _ => Leads.pure trivial
  | e :: es, hes => by
    obtain ⟨he, hes⟩ := List.forall_mem_cons.mp hes
    exact (eval_loose e he).bind fun _ _ => (evalAll_loose es hes).bind fun _ _ =>
      Leads.pure trivial

theorem evalEntries_loose (done : Entries) : (entries : List (Expr × Expr)) →
    (∀ entry ∈ entries, Loose N entry.1 ∧ Loose N entry.2) →
    Leads (.blank N) (fun _ => True) (evalEntries c done entries) (evalEntries c' done entries)
  | [], _ => Leads.pure trivial
  | (key, value) :: entries, hes => by
    obtain ⟨⟨hkey, hvalue⟩, hes⟩ := List.forall_mem_cons.mp hes
    exact (eval_loose key hkey).bind fun k _ => (eval_loose value hvalue).bind fun v _ =>
      evalEntries_loose (done.insert k v) entries hes

theorem evalArguments_loose (done : List Value) (keywords : Keywords) :
    (arguments : List Argument) → (∀ a ∈ arguments, a.isSingle = true) →
    (∀ a ∈ arguments, Loose N a.value) →
    Leads (.blank N) (fun _ => True) (evalArguments c done keywords arguments)
      (evalArguments c' done keywords arguments)
  | [], _, _ => Leads.pure trivial
  | .positional e :: arguments, hs, hes => by
    obtain ⟨-, hs⟩ := List.forall_mem_cons.mp hs
    obtain ⟨he, hes⟩ := List.forall_mem_cons.mp hes
    exact (eval_loose e he).bind fun v _ =>
      evalArguments_loose (v :: done) keywords arguments hs hes
  | .keyword name e :: arguments, hs, hes => by
    obtain ⟨-, hs⟩ := List.forall_mem_cons.mp hs
    obtain ⟨he, hes⟩ := List.forall_mem_cons.mp hes
    exact (eval_loose e he).bind fun v _ =>
      evalArguments_loose done (keywords.set name v) arguments hs hes
  | .spread e :: arguments, hs, _ => nomatch (List.forall_mem_cons.mp hs).1
  | .spreadKeywords e :: arguments, hs, _ => nomatch (List.forall_mem_cons.mp hs).1

end

end Expressions

/-! ## Statements -/

section Statements

variable {N : String → Prop} {c c' : Context} {watch : Eval Unit}

/-- A loop whose turns all end with the next statement ends so too. -/
theorem runLoop_next {r : Rule} {I : Value → Prop} {turn turn' : Value → Eval Flow}
    (h : ∀ item, I item → Leads r (· = .next) (turn item) (turn' item)) {items : List Value}
    (hitems : ∀ item ∈ items, I item) :
    Leads r (· = .next) (runLoop turn items) (runLoop turn' items) := by
  induction items with
  | nil => exact Leads.pure rfl
  | cons item items ih =>
    obtain ⟨hitem, hitems⟩ := List.forall_mem_cons.mp hitems
    refine (h item hitem).bind fun flow hflow => ?_
    subst hflow
    exact ih hitems

/-- A stub yields itself as its only item, and can be unpacked into any number of names. -/
theorem bindTargets_blank (targets : List String) {item : Value} (hitem : item.IsStub) :
    Leads (.blank N) (fun _ => True) (Eval.bindTargets targets item)
      (Eval.bindTargets targets item) := by
  obtain ⟨trace, rfl⟩ := hitem
  unfold Eval.bindTargets
  split
  · exact Leads.store fun _ => isStub_stub trace
  · exact Leads.unpack_stub isStub_stub _ trace

theorem assignItem_blank {name : String} (hname : N name) (key value : Value) :
    Leads (.blank N) (fun _ => True) (assignItem name key value) (assignItem name key value) := by
  refine Leads.get_bind fun s hs => ?_
  cases hfind : s.find? name with
  | none => exact Leads.warn _ s hs
  | some container =>
    obtain ⟨trace, rfl⟩ : container.IsStub := hs.find? hfind hname
    have hupdate : Leads (.blank N) (fun _ => True)
        (do modify (·.update name (.stub trace)); Eval.checkStored name)
        (do modify (·.update name (.stub trace)); Eval.checkStored name) :=
      Leads.bind (Leads.modify fun t ht => ht.update fun _ => isStub_stub trace)
        fun _ _ => checkStored_blank name
    exact hupdate s hs

theorem augment_blank {name : String} (hname : N name) (op : ArithmeticOp) {e : Expr}
    (he : Loose N e) :
    Leads (.blank N) (fun _ => True) (augment c name op e) (augment c' name op e) := by
  refine (Leads.lookup hname (isStub_stub name)).bind fun current hcurrent => ?_
  refine (eval_loose c c' e he).bind fun operand _ => ?_
  have hvalue := lift_bounded_blank (N := N) (isStub_operate_left op hcurrent operand)
  simpa using hvalue.bind (R := fun _ => True) (f := fun v => Eval.store name v)
    (g := fun v => Eval.store name v) fun v hv => Leads.store fun _ => hv

/-- What is no branch and no loop. -/
theorem execAction_tolerated {line : Nat} {action : Action}
    (h : Tolerated N (.at line action)) (hbranch : ∀ bs o, action ≠ .branch bs o)
    (hloop : ∀ ts e b, action ≠ .loop ts e b) :
    Leads (.blank N) (· = .next) (execAction c line action) (execAction c' line action) := by
  unfold execAction
  cases h with
  | evaluate _ he =>
    exact ((eval_loose c c' _ he).map (R := fun _ => True) fun _ _ => trivial).bind
      fun _ _ => Leads.pure rfl
  | imports _ _ => exact (bindImports_leads isStub_stub _).bind fun _ _ => Leads.pure rfl
  | assign _ _ he =>
    refine (eval_loose c c' _ (.stands he)).bind fun v hv => ?_
    exact (Leads.store fun _ => hv he).bind fun _ _ => Leads.pure rfl
  | unpack _ _ he =>
    refine (eval_loose c c' _ (.stands he)).bind fun v hv => ?_
    obtain ⟨trace, rfl⟩ := hv he
    exact (Leads.unpack_stub isStub_stub _ trace).bind fun _ _ => Leads.pure rfl
  | augment _ hname op he => exact (augment_blank hname op he).bind fun _ _ => Leads.pure rfl
  | @assignMember _ name hname member _ he =>
    refine (eval_loose c c' _ he).bind fun value _ => ?_
    have hobject : Leads (.blank N) (fun _ => True)
        (assign c (.place (.attribute (.name name) member)) value)
        (assign c' (.place (.attribute (.name name) member)) value) := by
      unfold assign
      refine (eval_loose c c' (.name name) (.stands (.name hname))).bind fun v hv => ?_
      obtain ⟨trace, rfl⟩ := hv (.name hname)
      exact Leads.pure trivial
    exact hobject.bind fun _ _ => Leads.pure rfl
  | assignItem _ hname hindex he =>
    refine (eval_loose c c' _ he).bind fun value _ => ?_
    exact ((eval_loose c c' _ hindex).bind fun key _ =>
      assignItem_blank hname key value).bind fun _ _ => Leads.pure rfl
  | loop _ _ _ _ => exact absurd rfl (hloop _ _ _)
  | branch _ _ _ _ => exact absurd rfl (hbranch _ _)

mutual

/-- Such statements end with the next one, watched or not. -/
theorem watched_tolerated (hwatch : Leads (.blank N) (fun _ => True) watch (pure ())) :
    (s : Statement) → Tolerated N s →
      Leads (.blank N) (· = .next) (watched watch c s) (exec c' s)
  | .at line action, hs => by
    unfold watched exec
    have hafter := (watchedAction_tolerated hwatch line action hs).bind (R := (· = .next))
      (f := fun flow => do watch; return flow) (g := fun flow => do pure (); return flow)
      fun flow hflow => hwatch.bind fun _ _ => Leads.pure (Q := fun f => f = Flow.next) hflow
    have hbefore := hwatch.bind fun _ _ => (Leads.setLine line).bind fun _ _ => hafter
    simpa using hbefore

theorem watchedAction_tolerated (hwatch : Leads (.blank N) (fun _ => True) watch (pure ()))
    (line : Nat) : (action : Action) → Tolerated N (.at line action) →
      Leads (.blank N) (· = .next) (watchedAction watch c line action)
        (execAction c' line action)
  | .branch branches otherwise, hs => by
    unfold watchedAction execAction
    cases hs with
    | branch _ hconditions hblocks hotherwise =>
    refine (watchedBranches_tolerated hwatch branches hconditions hblocks).bind
      fun flow hflow => ?_
    cases flow with
    | some flow => exact Leads.pure (hflow flow rfl)
    | none => exact watchedBlock_tolerated hwatch otherwise hotherwise
  | .loop targets source body, hs => by
    unfold watchedAction execAction
    cases hs with
    | loop _ _ hsource hbody =>
    refine (eval_loose c c' source (.stands hsource)).bind fun v hv => ?_
    obtain ⟨trace, rfl⟩ := hv hsource
    refine (Leads.pure (Q := fun items => ∀ item ∈ items, item.IsStub)
      (List.forall_mem_singleton.mpr (isStub_stub _))).bind fun items hitems => ?_
    exact runLoop_next (fun item hitem => (bindTargets_blank targets hitem).bind
      fun _ _ => watchedBlock_tolerated hwatch body hbody) hitems
  | .evaluate _, hs => by
    unfold watchedAction
    exact execAction_tolerated hs nofun nofun
  | .assign _ _, hs => by
    unfold watchedAction
    exact execAction_tolerated hs nofun nofun
  | .augment _ _ _, hs => by
    unfold watchedAction
    exact execAction_tolerated hs nofun nofun
  | .imports _, hs => by
    unfold watchedAction
    exact execAction_tolerated hs nofun nofun
  | .define _ _ _, hs => nomatch hs
  | .give _, hs => nomatch hs
  | .leave, hs => nomatch hs
  | .proceed, hs => nomatch hs
  | .pass, hs => nomatch hs

theorem watchedBlock_tolerated (hwatch : Leads (.blank N) (fun _ => True) watch (pure ())) :
    (block : List Statement) → (∀ s ∈ block, Tolerated N s) →
      Leads (.blank N) (· = .next) (watchedBlock watch c block) (execBlock c' block)
  | [], _ => by
    unfold watchedBlock execBlock
    exact Leads.pure rfl
  | statement :: statements, hs => by
    unfold watchedBlock execBlock
    obtain ⟨hstatement, hrest⟩ := List.forall_mem_cons.mp hs
    refine (watched_tolerated hwatch statement hstatement).bind fun flow hflow => ?_
    subst hflow
    exact watchedBlock_tolerated hwatch statements hrest

theorem watchedBranches_tolerated (hwatch : Leads (.blank N) (fun _ => True) watch (pure ())) :
    (branches : List (Expr × List Statement)) → (∀ b ∈ branches, Loose N b.1) →
      (∀ b ∈ branches, ∀ s ∈ b.2, Tolerated N s) →
      Leads (.blank N) (fun flow => ∀ f ∈ flow, f = .next) (watchedBranches watch c branches)
        (execBranches c' branches)
  | [], _, _ => by
    unfold watchedBranches execBranches
    exact Leads.pure nofun
  | (condition, block) :: branches, hconditions, hblocks => by
    unfold watchedBranches execBranches
    obtain ⟨hcondition, hconditions⟩ := List.forall_mem_cons.mp hconditions
    obtain ⟨hblock, hblocks⟩ := List.forall_mem_cons.mp hblocks
    refine (eval_loose c c' condition hcondition).bind fun value _ => ?_
    refine Leads.ite (fun _ => ?_) fun _ =>
      watchedBranches_tolerated hwatch branches hconditions hblocks
    exact (watchedBlock_tolerated hwatch block hblock).bind fun flow hflow =>
      Leads.pure fun f hf => Option.mem_some.mp hf ▸ hflow

end

theorem watchedScript_tolerated (hwatch : Leads (.blank N) (fun _ => True) watch (pure ()))
    (setting : Setting) {script : List Statement} (hscript : ∀ s ∈ script, Tolerated N s) :
    Leads (.blank N) (fun _ => True) (watchedScript watch setting script)
      (execScript setting script) := by
  refine (watchedBlock_tolerated hwatch script hscript).bind fun flow hflow => ?_
  subst hflow
  exact Leads.pure trivial

end Statements

end Monorepo.Script

namespace Monorepo

open Script
open Script.Eval (Leads)

/-- A name that is predefined as a stub or not at all. -/
def Sandbox.Unmodelled (sandbox : Sandbox) (name : String) : Prop :=
  ∀ v, sandbox.symbols.get? name = some v → v.IsStub

theorem Sandbox.obeys_blank (root : String) (config : Config) :
    (State.start (ofConfig root config).symbols).Obeys
      (.blank (ofConfig root config).Unmodelled) := by
  refine State.obeys_start fun row hrow hname => hname row.2 ?_
  exact get?_symbols root config hrow

/-- The end of a run that declares nothing: with success, and then the descriptor holds the root
    target alone, or with a limit. -/
inductive DeclaresNothing : EStateM.Result EvalError State Unit → Prop
  | done {s : State} (hcalls : s.calls = [])
    (htargets : ∀ buildpath, (Descriptor.assemble buildpath s.calls s.warnings).targets =
      [(buildpath, .root buildpath [])]) : DeclaresNothing (.ok () s)
  | stopped {e : EvalError} {s : State} (hlimit : e.fault.IsLimit) (hcalls : s.calls = []) :
    DeclaresNothing (.error e s)

/-- **Scripts that use what nobody models run.** A script of statements that only combine unmodelled
    names with literals and containers ends with success or with a limit for the size or the nesting
    of values. It declares nothing, so its descriptor holds the root target alone, without
    dependencies. At every boundary between statements the unmodelled names are stubs or unbound;
    and from every such state the expressions of the script lead to such states only, and yield
    stubs where they stand for something unmodelled. -/
theorem Sandbox.run_tolerated (root : String) (config : Config) (path : String)
    {script : List Statement}
    (hscript : ∀ s ∈ script, Tolerated (ofConfig root config).Unmodelled s) :
    let sandbox := ofConfig root config
    let blank := Rule.blank sandbox.Unmodelled
    DeclaresNothing (sandbox.run path script) ∧
    AtBoundaries (·.Obeys blank) (sandbox.setting path) script (.start sandbox.symbols) ∧
    ∀ e, Loose sandbox.Unmodelled e →
      Leads blank (fun v => Opaque sandbox.Unmodelled e → v.IsStub)
        (eval (sandbox.setting path).context e) (eval (sandbox.setting path).context e) := by
  intro sandbox blank
  have hstart : (State.start sandbox.symbols).Obeys blank := obeys_blank root config
  refine ⟨?_, fun alarm => ?_, fun e he => eval_loose _ _ e he⟩
  · have hidle : Leads blank (fun _ => True) (pure ()) (pure ()) := Leads.pure trivial
    obtain ⟨heq, hends⟩ := watchedScript_tolerated hidle (sandbox.setting path) hscript _ hstart
    rw [heq] at hends
    change Eval.Ends blank _ (sandbox.run path script) at hends
    cases hrun : sandbox.run path script with
    | ok a s =>
      rw [hrun] at hends
      have hnone : s.declared = [] := List.eq_nil_iff_forall_not_mem.mpr hends.1.declared
      have hcalls : s.calls = [] := by
        unfold State.calls
        rw [hnone]
        rfl
      refine .done hcalls fun buildpath => ?_
      rw [hcalls]
      rfl
    | error e s =>
      rw [hrun] at hends
      have hnone : s.declared = [] := List.eq_nil_iff_forall_not_mem.mpr hends.2
      refine .stopped hends.1 ?_
      unfold State.calls
      rw [hnone]
      rfl
  · have hguard : Leads blank (fun _ => True) (guard (·.Obeys blank) alarm) (pure ()) := by
      intro t ht
      have hok : guard (·.Obeys blank) alarm t = .ok () t := if_pos ht
      unfold Eval.LeadsAt
      rw [hok]
      exact ⟨rfl, ht, trivial⟩
    exact (watchedScript_tolerated hguard _ hscript _ hstart).1

/-- An import that is called, indexed, looped over, changed and compared. -/
def unmodelledScript : List Statement :=
  [.at 1 (.imports [("os", "os")]),
    .at 2 (.assign (.name "x") (.subscript (.call (.attribute (.name "os") "walk")
      [.positional (.int 1), .keyword "top" (.text "a")]) (.int 0))),
    .at 3 (.loop ["a", "b"] (.name "x") [.at 4 (.augment "a" .add (.list [.none, .name "b"]))]),
    .at 5 (.assign (.place (.attribute (.name "x") "y")) (.int 3)),
    .at 6 (.branch [(.compare .less (.name "jar") (.int 2),
      [.at 7 (.evaluate (.unary .minus (.name "jar")))])] [])]

theorem Sandbox.unmodelled_of_get? {sandbox : Sandbox} {name : String}
    (h : (sandbox.symbols.get? name).all (!·.isKnown) = true) : sandbox.Unmodelled name := by
  intro v hv
  rw [hv] at h
  cases v with
  | stub trace => exact Value.isStub_stub trace
  | _ => cases h

theorem Sandbox.run_tolerated_import :
    (∀ s ∈ unmodelledScript, Tolerated (ofConfig "/repo" {}).Unmodelled s) ∧
      DeclaresNothing ((ofConfig "/repo" {}).run "/repo/BUILD" unmodelledScript) := by
  have hnames : ∀ name ∈ ["os", "x", "a", "b", "jar"],
      (ofConfig "/repo" {}).Unmodelled name := by
    have hget : (["os", "x", "a", "b", "jar"].all fun name =>
        ((ofConfig "/repo" {}).symbols.get? name).all (!·.isKnown)) = true := by decide +kernel
    exact fun name hname => unmodelled_of_get? (List.all_eq_true.mp hget name hname)
  have hname {name : String} (h : name ∈ ["os", "x", "a", "b", "jar"]) :
      Opaque (ofConfig "/repo" {}).Unmodelled (.name name) := .name (hnames name h)
  have hscript : ∀ s ∈ unmodelledScript, Tolerated (ofConfig "/repo" {}).Unmodelled s := by
    intro s hs
    simp only [unmodelledScript, List.mem_cons, List.not_mem_nil, or_false] at hs
    rcases hs with rfl | rfl | rfl | rfl | rfl
    · exact .imports 1 (by simpa using hnames "os" (by simp))
    · refine .assign 2 (hnames "x" (by simp)) (.subscriptOf (.call (.member (hname (by simp)) _)
        (by simp [Argument.isSingle]) ?_) (.int 0))
      simp only [List.forall_mem_cons, Argument.value]
      exact ⟨.int 1, .text "a", List.forall_mem_nil _⟩
    · refine .loop 3 (by simp [hnames]) (hname (by simp)) (List.forall_mem_singleton.mpr ?_)
      refine .augment 4 (hnames "a" (by simp)) .add (.list ?_)
      exact List.forall_mem_cons.mpr
        ⟨.none, List.forall_mem_singleton.mpr (.stands (hname (by simp)))⟩
    · exact .assignMember 5 (hnames "x" (by simp)) "y" (.int 3)
    · refine .branch 6 (List.forall_mem_singleton.mpr (.stands (.compareLeft rfl
        (hname (by simp)) (.int 2)))) (List.forall_mem_singleton.mpr
          (List.forall_mem_singleton.mpr ?_)) (List.forall_mem_nil _)
      have hsign : UnaryOp.minus ≠ .not := by decide
      exact .evaluate 7 (.stands (.sign hsign (hname (by simp))))
  exact ⟨hscript, (run_tolerated "/repo" {} "/repo/BUILD" hscript).1⟩

end Monorepo
