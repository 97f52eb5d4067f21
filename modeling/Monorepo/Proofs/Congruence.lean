import Monorepo.Proofs.Policies

/-!
# Congruences of steps

A relation between steps is a congruence if the building blocks of evaluation keep it: those that
look at the state, those that change it, and those that put steps together. Then all that two
contexts evaluate and execute is related as soon as the calls are that they make. The relation comes
with the names that a step may bind and leave bound. An expression leaves no name bound, since a
comprehension binds its targets again as they were; a statement may bind any name of the innermost
scope. A congruence under a policy need only concern the variables that the policy lets a script
read.
-/

namespace Monorepo.Script

/-- No name may be bound. -/
def noNames : String → Prop := fun _ => False

/-- Every name may be bound. -/
def allNames : String → Prop := fun _ => True

theorem bind_of_ok {α β : Type} {x : Eval α} {a : α} {s t : State} (h : x s = .ok a t)
    (f : α → Eval β) : (x >>= f) s = f a t := by
  change EStateM.bind x f s = _
  unfold EStateM.bind
  rw [h]

theorem eval_bind_error {α β : Type} {x : Eval α} {f : α → Eval β} {s s' : State} {e : EvalError}
    (h : x s = .error e s') : (x >>= f) s = .error e s' := by
  change EStateM.bind x f s = _
  unfold EStateM.bind
  rw [h]

namespace Eval

/-- The value of a variable, if it is bound. -/
def found (name : String) : Eval (Option Value) := fun s => .ok (s.find? name) s

/-- The number of calls in progress that have a frame. -/
def height : Eval Nat := fun s => .ok s.frames.length s

/-- A relation between steps, given the names that they may bind, that the building blocks of
    evaluation keep. -/
structure Congruence (p : Policy)
    (R : (String → Prop) → ∀ {α : Type}, Eval α → Eval α → Prop) : Prop where
  pure {free : String → Prop} {α : Type} (a : α) : R free (pure a : Eval α) (pure a)
  fault {free : String → Prop} {α : Type} (f : EvalFault) : R free (fault f : Eval α) (fault f)
  bind {free : String → Prop} {α β : Type} {x y : Eval α} {f g : α → Eval β} :
    R free x y → (∀ a, R free (f a) (g a)) → R free (x >>= f) (y >>= g)
  /-- What binds few names binds no others. -/
  mono {free free' : String → Prop} {α : Type} {x y : Eval α} :
    (∀ name, free name → free' name) → R free x y → R free' x y
  found {free : String → Prop} {name : String} :
    p.names name → R free (found name) (found name)
  height {free : String → Prop} : R free height height
  warn {free : String → Prop} (notice : Notice) : R free (warn notice) (warn notice)
  declare {free : String → Prop} (kind : String) (keywords : Keywords) :
    R free (modify fun s : State => { s with declared := ⟨kind, keywords, s.line⟩ :: s.declared })
      (modify fun s : State => { s with declared := ⟨kind, keywords, s.line⟩ :: s.declared })
  update {free : String → Prop} {name : String} (value : Value) : p.names name →
    R free (modify fun s : State => s.update name value)
      (modify fun s : State => s.update name value)
  store {free : String → Prop} {name : String} (value : Value) :
    free name → R free (store name value) (store name value)
  restoring {names : List String} {α : Type} {x y : Eval α} :
    R (· ∈ names) x y → R noNames (restoring names x) (restoring names y)

namespace Congruence

variable {p : Policy} {R : (String → Prop) → ∀ {α : Type}, Eval α → Eval α → Prop}
  (hR : Congruence p R) {free : String → Prop} {α β : Type}

theorem ite (_ : Congruence p R) {b : Prop} [Decidable b] {x y x' y' : Eval α} (h : R free x y)
    (h' : R free x' y') : R free (if b then x else x') (if b then y else y') := by
  split
  · exact h
  · exact h'

include hR

/-- What binds nothing may stand everywhere. -/
theorem widen {x y : Eval α} (h : R noNames x y) : R free x y :=
  hR.mono (fun _ hname => hname.elim) h

theorem lift (result : Except EvalFault α) : R free (lift result) (lift result) := by
  cases result with
  | ok a => exact hR.pure a
  | error f => exact hR.fault f

theorem map {x y : Eval α} {f : α → β} (h : R free x y) : R free (f <$> x) (f <$> y) := by
  rw [map_eq_pure_bind, map_eq_pure_bind]
  exact hR.bind h fun a => hR.pure (f a)

variable {name : String} (hname : p.names name)
include hname

theorem found_bind {f g : Option Value → Eval β} (h : ∀ value, R free (f value) (g value)) :
    R free (get >>= fun s => f (s.find? name)) (get >>= fun s => g (s.find? name)) := by
  change R free (Eval.found name >>= f) (Eval.found name >>= g)
  exact hR.bind (hR.found hname) h

theorem found_cases {known known' : Value → Eval β} {unknown unknown' : Eval β}
    (hknown : ∀ value, R free (known value) (known' value)) (hunknown : R free unknown unknown') :
    R free
      (get >>= fun s => match s.find? name with
        | some value => known value
        | none => unknown)
      (get >>= fun s => match s.find? name with
        | some value => known' value
        | none => unknown') := by
  have hcase (value : Option Value) : R free
      (match value with
        | some value => known value
        | none => unknown)
      (match value with
        | some value => known' value
        | none => unknown') := by
    cases value with
    | some value => exact hknown value
    | none => exact hunknown
  exact hR.found_bind hname hcase

/-- As `found_cases`, for programs that ask first whether the variable is unknown. -/
theorem unknown_cases {known known' : Value → Eval β} {unknown unknown' : Eval β}
    (hunknown : R free unknown unknown') (hknown : ∀ value, R free (known value) (known' value)) :
    R free
      (get >>= fun s => match s.find? name with
        | none => unknown
        | some value => known value)
      (get >>= fun s => match s.find? name with
        | none => unknown'
        | some value => known' value) := by
  have hcase (value : Option Value) : R free
      (match value with
        | none => unknown
        | some value => known value)
      (match value with
        | none => unknown'
        | some value => known' value) := by
    cases value with
    | none => exact hunknown
    | some value => exact hknown value
  exact hR.found_bind hname hcase

omit hname

theorem height_bind {f g : Nat → Eval β} (h : ∀ n, R free (f n) (g n)) :
    R free (get >>= fun s => f s.frames.length) (get >>= fun s => g s.frames.length) := by
  change R free (Eval.height >>= f) (Eval.height >>= g)
  exact hR.bind hR.height h

/-! ### Variables -/

include hname

theorem lookup : R free (lookup name) (lookup name) :=
  hR.found_cases hname (fun value => hR.pure value) (hR.bind (hR.warn _) fun _ => hR.pure _)

theorem checkStored : R free (checkStored name) (checkStored name) :=
  hR.found_cases hname (fun value => hR.map (hR.lift value.measure)) (hR.pure ())

omit hname

theorem storeAll {names : List String} (hnames : ∀ name ∈ names, free name)
    (values : List Value) : R free (storeAll names values) (storeAll names values) := by
  induction names generalizing values with
  | nil => exact hR.pure ()
  | cons name names ih =>
    obtain ⟨hname, hnames⟩ := List.forall_mem_cons.mp hnames
    cases values with
    | nil => exact hR.pure ()
    | cons value values => exact hR.bind (hR.store value hname) fun _ => ih hnames values

theorem unpack {names : List String} (hnames : ∀ name ∈ names, free name) (value : Value) :
    R free (unpack names value) (unpack names value) := by
  unfold Eval.unpack
  split
  · exact hR.storeAll hnames _
  · refine hR.bind (hR.lift _) fun values => ?_
    exact hR.ite (hR.bind (hR.fault _) fun _ => hR.storeAll hnames values)
      (hR.storeAll hnames values)

theorem bindTargets {targets : List String} (htargets : ∀ name ∈ targets, free name)
    (item : Value) : R free (bindTargets targets item) (bindTargets targets item) := by
  unfold Eval.bindTargets
  split
  · exact hR.store item (htargets _ List.mem_cons_self)
  · exact hR.unpack htargets item

/-! ### Repetitions -/

theorem gather {turn turn' : Value → Eval (Option Value)}
    (h : ∀ item, R free (turn item) (turn' item)) (items : List Value) (size count : Nat)
    (kept : List Value) :
    R free (gather turn items size count kept) (gather turn' items size count kept) := by
  induction items generalizing size count kept with
  | nil => exact hR.pure _
  | cons item items ih =>
    refine hR.bind (h item) fun value => ?_
    cases value with
    | none => exact ih size count kept
    | some value => exact hR.bind (hR.lift _) fun measured => hR.ite (hR.fault _) (ih _ _ _)

theorem runLoop {turn turn' : Value → Eval Flow} (h : ∀ item, R free (turn item) (turn' item))
    (items : List Value) : R free (runLoop turn items) (runLoop turn' items) := by
  induction items with
  | nil => exact hR.pure _
  | cons item items ih =>
    refine hR.bind (h item) fun flow => ?_
    cases flow with
    | next => exact ih
    | proceed => exact ih
    | leave => exact hR.pure _
    | give value => exact hR.pure _

/-! ### Calls of what is predefined -/

theorem declareTarget (kind : String) (arguments : List Value) (keywords : Keywords) :
    R free (declareTarget kind arguments keywords) (declareTarget kind arguments keywords) := by
  have hdeclare : R free
      (do
        modify fun s : State => { s with declared := ⟨kind, keywords, s.line⟩ :: s.declared }
        return Value.none : Eval Value)
      (do
        modify fun s : State => { s with declared := ⟨kind, keywords, s.line⟩ :: s.declared }
        return Value.none : Eval Value) :=
    hR.bind (hR.declare kind keywords) fun _ => hR.pure _
  exact hR.ite hdeclare (hR.bind (hR.warn _) fun _ => hdeclare)

theorem callBuiltin (setting : Setting) (b : Builtin) (arguments : List Value)
    (keywords : Keywords) :
    R free (callBuiltin setting b arguments keywords)
      (callBuiltin setting b arguments keywords) := by
  unfold Script.callBuiltin
  split
  · exact hR.declareTarget _ arguments keywords
  · exact hR.ite (hR.pure _) (hR.lift _)

theorem member (object : Value) (name : String) :
    R free (member object name) (member object name) := by
  unfold Script.member
  split
  · exact hR.pure _
  · exact hR.ite (hR.pure _) (hR.bind (hR.warn _) fun _ => hR.pure _)

theorem changeVariable (hname : p.names name) (method : String) (arguments : List Value)
    (keywords : Keywords) :
    R free (changeVariable name method arguments keywords)
      (changeVariable name method arguments keywords) := by
  refine hR.unknown_cases hname (hR.pure false) fun value => ?_
  refine hR.bind (hR.lift (changeInPlace value method arguments keywords)) fun changed => ?_
  cases changed with
  | none => exact hR.pure false
  | some changed =>
    exact hR.bind (hR.update changed hname) fun _ =>
      hR.bind (hR.checkStored hname) fun _ => hR.pure true

theorem spreadEntries (keywords : Keywords) (entries : List (Value × Value)) :
    R free (spreadEntries keywords entries) (spreadEntries keywords entries) := by
  induction entries generalizing keywords with
  | nil => exact hR.pure _
  | cons entry entries ih =>
    obtain ⟨key, value⟩ := entry
    cases key with
    | text name => exact ih (keywords.set name value)
    | _ => exact hR.fault _

theorem spreadKeywords (keywords : Keywords) (value : Value) :
    R free (spreadKeywords keywords value) (spreadKeywords keywords value) := by
  unfold Script.spreadKeywords
  split
  · exact hR.spreadEntries keywords _
  · exact hR.bind (hR.warn _) fun _ => hR.pure _
  · exact hR.fault _

end Congruence

end Eval

open Eval (Congruence)

/-- Contexts in the same surroundings whose calls are related. -/
structure Context.Related (R : (String → Prop) → ∀ {α : Type}, Eval α → Eval α → Prop)
    (c c' : Context) : Prop where
  setting : c.setting = c'.setting
  invoke : ∀ f arguments keywords,
    R noNames (c.invoke f arguments keywords) (c'.invoke f arguments keywords)

section Evaluation

variable {p : Policy} {R : (String → Prop) → ∀ {α : Type}, Eval α → Eval α → Prop} {c c' : Context}
  {free : String → Prop}

theorem call_congruent (hR : Congruence p R) (h : c.Related R c') (callee : Value)
    (arguments : List Value) (keywords : Keywords) :
    R noNames (call c callee arguments keywords) (call c' callee arguments keywords) := by
  unfold call
  cases callee with
  | stub trace => exact hR.pure _
  | builtin b =>
    rw [h.setting]
    exact hR.callBuiltin c'.setting b arguments keywords
  | function f => exact h.invoke f arguments keywords
  | method receiver name => exact hR.lift _
  | _ => exact hR.fault _

/-! ## Expressions -/

mutual

/-- Every congruence that relates the calls of two contexts relates what they evaluate. -/
theorem eval_congruent (hR : Congruence p R) (h : c.Related R c') :
    (e : Expr) → e.All p.Reads → R noNames (eval c e) (eval c' e)
  | .none, _ => by unfold eval; exact hR.pure _
  | .bool _, _ => by unfold eval; exact hR.pure _
  | .int _, _ => by unfold eval; exact hR.pure _
  | .float _, _ => by unfold eval; exact hR.pure _
  | .text _, _ => by unfold eval; exact hR.pure _
  | .name name, he => by unfold eval; exact hR.lookup he.self
  | .list items, he => by
    unfold eval
    exact hR.bind (evalAll_congruent hR h items he.list) fun _ => hR.lift _
  | .tuple items, he => by
    unfold eval
    exact hR.bind (evalAll_congruent hR h items he.tuple) fun _ => hR.lift _
  | .dict entries, he => by
    unfold eval
    exact hR.bind (evalEntries_congruent hR h [] entries he.dict) fun _ => hR.lift _
  | .comprehension element targets source none, he => by
    unfold eval
    obtain ⟨helement, hsource, -⟩ := he.comprehension
    refine hR.bind (eval_congruent hR h source hsource) fun value =>
      hR.bind (hR.lift _) fun items => ?_
    -- the turns bind the targets, which are bound again as they were
    refine hR.bind (hR.restoring (hR.gather (fun item => ?_) items 0 0 [])) fun _ => hR.lift _
    refine hR.bind (hR.bindTargets (fun _ hname => hname) item) fun _ => ?_
    exact hR.bind (hR.widen (eval_congruent hR h element helement)) fun _ => hR.pure _
  | .comprehension element targets source (some condition), he => by
    unfold eval
    obtain ⟨helement, hsource, hcondition⟩ := he.comprehension
    refine hR.bind (eval_congruent hR h source hsource) fun value =>
      hR.bind (hR.lift _) fun items => ?_
    refine hR.bind (hR.restoring (hR.gather (fun item => ?_) items 0 0 [])) fun _ => hR.lift _
    refine hR.bind (hR.bindTargets (fun _ hname => hname) item) fun _ => ?_
    refine hR.bind (hR.widen (eval_congruent hR h condition (hcondition _ rfl))) fun _ =>
      hR.ite ?_ (hR.pure _)
    exact hR.bind (hR.widen (eval_congruent hR h element helement)) fun _ => hR.pure _
  | .call callee arguments, he => by
    unfold eval
    obtain ⟨hcallee, harguments⟩ := he.call
    have hvalues := evalArguments_congruent hR h [] [] arguments harguments
    split
    · rename_i name method htarget
      have hname : p.names name := by
        rw [mutationTarget_eq htarget] at hcallee
        exact hcallee.attribute.self
      refine hR.bind hvalues fun (arguments, keywords) => ?_
      refine hR.bind (hR.changeVariable hname method arguments keywords) fun changed => ?_
      refine hR.ite (hR.lift _) (hR.bind (eval_congruent hR h callee hcallee) fun value => ?_)
      exact hR.bind (call_congruent hR h value arguments keywords) fun _ => hR.lift _
    · refine hR.bind (eval_congruent hR h callee hcallee) fun value => ?_
      refine hR.bind hvalues fun (arguments, keywords) => ?_
      exact hR.bind (call_congruent hR h value arguments keywords) fun _ => hR.lift _
  | .attribute object name, he => by
    unfold eval
    exact hR.bind (eval_congruent hR h object he.attribute) fun value =>
      hR.bind (hR.member value name) fun _ => hR.lift _
  | .subscript object index, he => by
    unfold eval
    obtain ⟨hobject, hindex⟩ := he.link rfl
    exact hR.bind (eval_congruent hR h object hobject) fun _ =>
      hR.bind (eval_congruent hR h index hindex) fun _ =>
      hR.bind (hR.lift _) fun _ => hR.lift _
  | .arithmetic op left right, he => by
    unfold eval
    obtain ⟨hleft, hright⟩ := he.link rfl
    exact hR.bind (eval_congruent hR h left hleft) fun _ =>
      hR.bind (eval_congruent hR h right hright) fun _ =>
      hR.bind (hR.lift _) fun _ => hR.lift _
  | .unary op operand, he => by
    unfold eval
    exact hR.bind (eval_congruent hR h operand he.unary) fun _ =>
      hR.bind (hR.lift _) fun _ => hR.lift _
  | .compare op left right, he => by
    unfold eval
    obtain ⟨hleft, hright⟩ := he.link rfl
    exact hR.bind (eval_congruent hR h left hleft) fun _ =>
      hR.bind (eval_congruent hR h right hright) fun _ =>
      hR.bind (hR.lift _) fun _ => hR.lift _
  | .both left right, he => by
    unfold eval
    obtain ⟨hleft, hright⟩ := he.link rfl
    exact hR.bind (eval_congruent hR h left hleft) fun _ => hR.ite
      (hR.bind (eval_congruent hR h right hright) fun _ => hR.lift _)
      (hR.bind (hR.pure _) fun _ => hR.lift _)
  | .either left right, he => by
    unfold eval
    obtain ⟨hleft, hright⟩ := he.link rfl
    exact hR.bind (eval_congruent hR h left hleft) fun _ => hR.ite
      (hR.bind (hR.pure _) fun _ => hR.lift _)
      (hR.bind (eval_congruent hR h right hright) fun _ => hR.lift _)
  | .conditional condition positive negative, he => by
    unfold eval
    obtain ⟨hcondition, hpositive, hnegative⟩ := he.conditional
    exact hR.bind (eval_congruent hR h condition hcondition) fun _ => hR.ite
      (hR.bind (eval_congruent hR h positive hpositive) fun _ => hR.lift _)
      (hR.bind (eval_congruent hR h negative hnegative) fun _ => hR.lift _)

theorem evalAll_congruent (hR : Congruence p R) (h : c.Related R c') :
    (es : List Expr) → (∀ e ∈ es, e.All p.Reads) → R noNames (evalAll c es) (evalAll c' es)
  | [], _ => hR.pure _
  | e :: es, hes => by
    obtain ⟨he, hes⟩ := List.forall_mem_cons.mp hes
    exact hR.bind (eval_congruent hR h e he) fun _ =>
      hR.bind (evalAll_congruent hR h es hes) fun _ => hR.pure _

theorem evalEntries_congruent (hR : Congruence p R) (h : c.Related R c') (done : Entries) :
    (entries : List (Expr × Expr)) →
      (∀ entry ∈ entries, entry.1.All p.Reads ∧ entry.2.All p.Reads) →
      R noNames (evalEntries c done entries) (evalEntries c' done entries)
  | [], _ => hR.pure _
  | (key, value) :: entries, hes => by
    obtain ⟨⟨hkey, hvalue⟩, hes⟩ := List.forall_mem_cons.mp hes
    exact hR.bind (eval_congruent hR h key hkey) fun k =>
      hR.bind (eval_congruent hR h value hvalue) fun v =>
        evalEntries_congruent hR h (done.insert k v) entries hes

theorem evalArguments_congruent (hR : Congruence p R) (h : c.Related R c') (done : List Value)
    (keywords : Keywords) :
    (arguments : List Argument) → (∀ a ∈ arguments, a.value.All p.Reads) →
      R noNames (evalArguments c done keywords arguments) (evalArguments c' done keywords arguments)
  | [], _ => hR.pure _
  | .positional e :: arguments, hes => by
    obtain ⟨he, hes⟩ := List.forall_mem_cons.mp hes
    exact hR.bind (eval_congruent hR h e he) fun value =>
      evalArguments_congruent hR h (value :: done) keywords arguments hes
  | .keyword name e :: arguments, hes => by
    obtain ⟨he, hes⟩ := List.forall_mem_cons.mp hes
    exact hR.bind (eval_congruent hR h e he) fun value =>
      evalArguments_congruent hR h done (keywords.set name value) arguments hes
  | .spread e :: arguments, hes => by
    obtain ⟨he, hes⟩ := List.forall_mem_cons.mp hes
    exact hR.bind (eval_congruent hR h e he) fun _ => hR.bind (hR.lift _) fun items =>
      evalArguments_congruent hR h (items.reverse ++ done) keywords arguments hes
  | .spreadKeywords e :: arguments, hes => by
    obtain ⟨he, hes⟩ := List.forall_mem_cons.mp hes
    exact hR.bind (eval_congruent hR h e he) fun _ =>
      hR.bind (hR.spreadKeywords keywords _) fun keywords =>
        evalArguments_congruent hR h done keywords arguments hes

end

/-! ## Statements -/

theorem assignItem_congruent (hR : Congruence p R) {name : String} (hname : p.names name)
    (key value : Value) : R free (assignItem name key value) (assignItem name key value) := by
  refine hR.unknown_cases hname (hR.warn _) fun container => ?_
  refine hR.bind (hR.lift (replaceItem container key value)) fun changed => ?_
  exact hR.bind (hR.update changed hname) fun _ => hR.checkStored hname

/-- What is assigned to a part of a value that is no variable's is dropped if that is a stub. -/
theorem temporary_congruent (hR : Congruence p R) {x y : Eval Value} (h : R free x y)
    (fault : Value → EvalFault) :
    R free
      (do match ← x with
        | .stub _ => return
        | other => Eval.fault (fault other))
      (do match ← y with
        | .stub _ => return
        | other => Eval.fault (fault other)) := by
  refine hR.bind h fun value => ?_
  cases value with
  | stub trace => exact hR.pure _
  | _ => exact hR.fault _

theorem assign_congruent (hR : Congruence p R) (h : c.Related R c') {target : Target}
    (htarget : ∀ e, target = .place e → e.All p.Reads) (value : Value) :
    R allNames (assign c target value) (assign c' target value) := by
  have heval {e : Expr} (he : e.All p.Reads) : R allNames (eval c e) (eval c' e) :=
    hR.widen (eval_congruent hR h e he)
  unfold assign
  split
  · exact hR.store value trivial
  · exact hR.unpack (fun _ _ => trivial) value
  · obtain ⟨hname, hindex⟩ := (htarget _ rfl).link rfl
    exact hR.bind (heval hindex) fun key => assignItem_congruent hR hname.self key value
  · obtain ⟨hof, hindex⟩ := (htarget _ rfl).link rfl
    exact hR.bind (hR.map (heval hindex)) fun _ => temporary_congruent hR (heval hof) _
  · exact temporary_congruent hR (heval (htarget _ rfl).attribute) _
  · exact hR.fault _

theorem bindImports_congruent (hR : Congruence p R) (bindings : List (String × String)) :
    R allNames (bindImports bindings) (bindImports bindings) := by
  induction bindings with
  | nil => exact hR.pure _
  | cons binding bindings ih => exact hR.bind (hR.store _ trivial) fun _ => ih

theorem augment_congruent (hR : Congruence p R) (h : c.Related R c') {name : String}
    (hname : p.names name) (op : ArithmeticOp) {e : Expr} (he : e.All p.Reads) :
    R allNames (augment c name op e) (augment c' name op e) :=
  hR.bind (hR.lookup hname) fun _ => hR.bind (hR.widen (eval_congruent hR h e he)) fun _ =>
    hR.bind (hR.lift _) fun _ => hR.bind (hR.lift _) fun _ => hR.store _ trivial

/-- What is done inside of a function, and refused outside. -/
theorem give_congruent (hR : Congruence p R) {x y : Eval Flow} (h : R free x y) :
    R free
      (do
        if (← get).frames.isEmpty then Eval.fault .returnOutsideFunction
        else x)
      (do
        if (← get).frames.isEmpty then Eval.fault .returnOutsideFunction
        else y) := by
  have hcase (n : Nat) :
      R free (if n == 0 then Eval.fault .returnOutsideFunction else x)
        (if n == 0 then Eval.fault .returnOutsideFunction else y) :=
    hR.ite (hR.fault _) h
  have hempty (s : State) : s.frames.isEmpty = (s.frames.length == 0) := by
    cases s.frames <;> rfl
  simp only [hempty]
  exact hR.height_bind hcase

/-- What is no branch and no loop is related without a look at lines. -/
theorem execAction_congruent_simple (hR : Congruence p R) (h : c.Related R c') {line : Nat}
    {action : Action} (hpermits : p.Permits (.at line action))
    (hbranch : ∀ branches otherwise, action ≠ .branch branches otherwise)
    (hloop : ∀ targets source body, action ≠ .loop targets source body) :
    R allNames (execAction c line action) (execAction c' line action) := by
  obtain ⟨hexpressions, haugment⟩ := hpermits
  have heval {e : Expr} (he : e ∈ action.expressions) : R allNames (eval c e) (eval c' e) :=
    hR.widen (eval_congruent hR h e (hexpressions e he))
  unfold execAction
  cases action with
  | evaluate e =>
    exact hR.bind (hR.map (heval (List.mem_singleton.mpr rfl))) fun _ => hR.pure _
  | assign target e =>
    refine hR.bind (heval (List.mem_append_right _ (List.mem_singleton.mpr rfl))) fun value => ?_
    refine hR.bind (assign_congruent hR h (fun place hplace => ?_) value) fun _ => hR.pure _
    subst hplace
    exact hexpressions place (List.mem_append_left _ (List.mem_singleton.mpr rfl))
  | augment name op e =>
    have he := hexpressions e (List.mem_singleton.mpr rfl)
    exact hR.bind (augment_congruent hR h (haugment name op e rfl) op he) fun _ => hR.pure _
  | imports bindings => exact hR.bind (bindImports_congruent hR bindings) fun _ => hR.pure _
  | branch branches otherwise => exact absurd rfl (hbranch branches otherwise)
  | loop targets source body => exact absurd rfl (hloop targets source body)
  | define name parameters body => exact hR.bind (hR.store _ trivial) fun _ => hR.pure _
  | give value =>
    cases value with
    | none => exact give_congruent hR (hR.pure _)
    | some e =>
      exact give_congruent hR (hR.bind (heval (List.mem_singleton.mpr rfl)) fun _ => hR.pure _)
  | leave | proceed | pass => exact hR.pure _

mutual

/-- Every congruence that relates the calls of two contexts relates what they execute, if it does
    not mind the lines. -/
theorem exec_congruent (hR : Congruence p R)
    (hline : ∀ line, R allNames (Eval.setLine line) (Eval.setLine line)) (h : c.Related R c') :
    (statement : Statement) → p.Allows statement → R allNames (exec c statement) (exec c' statement)
  | .at line action, hs => by
    unfold exec
    exact hR.bind (hline line) fun _ => execAction_congruent hR hline h line action hs

theorem execAction_congruent (hR : Congruence p R)
    (hline : ∀ line, R allNames (Eval.setLine line) (Eval.setLine line)) (h : c.Related R c')
    (line : Nat) :
    (action : Action) → p.Allows (.at line action) →
      R allNames (execAction c line action) (execAction c' line action)
  | .branch branches otherwise, hs => by
    unfold execAction
    have hbranches : ∀ b ∈ branches, b.1.All p.Reads ∧ ∀ s ∈ b.2, p.Allows s := by
      refine fun b hb => ⟨hs.self.1 b.1 ?_, hs.block (List.mem_cons_of_mem _ ?_)⟩
      · exact List.mem_append_left _ (List.mem_map.mpr ⟨b, hb, rfl⟩)
      · exact List.mem_map.mpr ⟨b, hb, rfl⟩
    refine hR.bind (execBranches_congruent hR hline h branches hbranches) fun flow => ?_
    cases flow with
    | some flow => exact hR.pure flow
    | none => exact execBlock_congruent hR hline h otherwise (hs.block List.mem_cons_self)
  | .loop targets source body, hs => by
    unfold execAction
    have hsource := hs.self.1 source (List.mem_singleton.mpr rfl)
    have hbody := hs.block (b := body) (List.mem_singleton.mpr rfl)
    refine hR.bind (hR.widen (eval_congruent hR h source hsource)) fun value =>
      hR.bind (hR.lift _) fun items => hR.runLoop (fun item => ?_) items
    exact hR.bind (hR.bindTargets (fun _ _ => trivial) item) fun _ =>
      execBlock_congruent hR hline h body hbody
  | .evaluate _, hs => execAction_congruent_simple hR h hs.self nofun nofun
  | .assign _ _, hs => execAction_congruent_simple hR h hs.self nofun nofun
  | .augment _ _ _, hs => execAction_congruent_simple hR h hs.self nofun nofun
  | .imports _, hs => execAction_congruent_simple hR h hs.self nofun nofun
  | .define _ _ _, hs => execAction_congruent_simple hR h hs.self nofun nofun
  | .give _, hs => execAction_congruent_simple hR h hs.self nofun nofun
  | .leave, hs => execAction_congruent_simple hR h hs.self nofun nofun
  | .proceed, hs => execAction_congruent_simple hR h hs.self nofun nofun
  | .pass, hs => execAction_congruent_simple hR h hs.self nofun nofun

theorem execBlock_congruent (hR : Congruence p R)
    (hline : ∀ line, R allNames (Eval.setLine line) (Eval.setLine line)) (h : c.Related R c') :
    (block : List Statement) → (∀ s ∈ block, p.Allows s) →
      R allNames (execBlock c block) (execBlock c' block)
  | [], _ => by unfold execBlock; exact hR.pure _
  | statement :: statements, hs => by
    unfold execBlock
    obtain ⟨hstatement, hstatements⟩ := List.forall_mem_cons.mp hs
    refine hR.bind (exec_congruent hR hline h statement hstatement) fun flow => ?_
    cases flow with
    | next => exact execBlock_congruent hR hline h statements hstatements
    | _ => exact hR.pure _

theorem execBranches_congruent (hR : Congruence p R)
    (hline : ∀ line, R allNames (Eval.setLine line) (Eval.setLine line)) (h : c.Related R c') :
    (branches : List (Expr × List Statement)) →
      (∀ b ∈ branches, b.1.All p.Reads ∧ ∀ s ∈ b.2, p.Allows s) →
      R allNames (execBranches c branches) (execBranches c' branches)
  | [], _ => by unfold execBranches; exact hR.pure _
  | (condition, block) :: branches, hs => by
    unfold execBranches
    obtain ⟨⟨hcondition, hblock⟩, hrest⟩ := List.forall_mem_cons.mp hs
    exact hR.bind (hR.widen (eval_congruent hR h condition hcondition)) fun _ => hR.ite
      (hR.bind (execBlock_congruent hR hline h block hblock) fun _ => hR.pure _)
      (execBranches_congruent hR hline h branches hrest)

end

end Evaluation

/-! ## Functions -/

/-- The value that a call takes from the end of the body. -/
def Flow.result : Flow → Eval Value
  | .give value => return value
  | .next => return .none
  | .leave | .proceed => Eval.fault .exitOutsideLoop

/-- The call of a function of the script, given how its body is executed. -/
def callWith (execute : List Statement → Eval Flow) (context : Context) : Invoke :=
  fun f arguments keywords => do
    if (← get).frames.length ≥ maxFrames then Eval.fault .recursion
    if arguments.length > f.parameters.length then
      Eval.fault (.tooManyArguments f.name f.parameters.length arguments.length)
    let unexpected := keywords.find? fun (name, _) => !f.parameters.any (·.name == name)
    if let some (name, _) := unexpected then Eval.fault (.unexpectedKeyword f.name name)
    let frame ← bindParameters context f.name keywords f.parameters arguments []
    match ← Eval.inFrame frame (execute f.body) with
    | .give value => return value
    | .next => return .none
    | .leave | .proceed => Eval.fault .exitOutsideLoop

theorem callFunction_eq_callWith (context : Context) :
    callFunction context = callWith (execBlock context) context := rfl

section Functions

variable {p : Policy} {R : (String → Prop) → ∀ {α : Type}, Eval α → Eval α → Prop}
  {c c' : Context} {free : String → Prop}

theorem bindParameters_congruent (hR : Congruence p R) (h : c.Related R c') (function : String)
    (keywords : Keywords) {parameters : List Parameter}
    (hparameters : ∀ e ∈ parameters.filterMap Parameter.default, e.All p.Reads)
    (arguments : List Value) (frame : Scope) :
    R noNames (bindParameters c function keywords parameters arguments frame)
      (bindParameters c' function keywords parameters arguments frame) := by
  induction parameters generalizing arguments frame with
  | nil => exact hR.pure _
  | cons parameter parameters ih =>
    unfold bindParameters
    have hdefaults : ∀ e ∈ parameters.filterMap Parameter.default, e.All p.Reads := by
      intro e he
      obtain ⟨q, hq, hdefault⟩ := List.mem_filterMap.mp he
      exact hparameters e (List.mem_filterMap.mpr ⟨q, List.mem_cons_of_mem _ hq, hdefault⟩)
    have hrest (value : Value) :=
      ih hdefaults arguments.tail (frame.set parameter.name value)
    split
    · exact hR.bind (hR.fault _) hrest
    · exact hR.bind (hR.pure _) hrest
    · exact hR.bind (hR.pure _) hrest
    · rename_i e _ _ hdefault
      have he := hparameters e (List.mem_filterMap.mpr ⟨parameter, List.mem_cons_self, hdefault⟩)
      exact hR.bind (eval_congruent hR h e he) hrest
    · exact hR.bind (hR.fault _) hrest

/-- A call checks its arguments and makes the frame; what is done in that frame has to be related
    together with the value that the call takes from it. -/
theorem callWith_congruent (hR : Congruence p R) (h : c.Related R c')
    {execute execute' : List Statement → Eval Flow} {f : Function}
    (hdefaults : ∀ e ∈ f.parameters.filterMap Parameter.default, e.All p.Reads)
    (hbody : ∀ frame, R noNames (Eval.inFrame frame (execute f.body) >>= Flow.result)
      (Eval.inFrame frame (execute' f.body) >>= Flow.result))
    (arguments : List Value) (keywords : Keywords) :
    R noNames (callWith execute c f arguments keywords)
      (callWith execute' c' f arguments keywords) := by
  have hcall := hR.bind (bindParameters_congruent hR h f.name keywords hdefaults arguments []) hbody
  -- the checks stand in front of the rest one after another
  refine hR.height_bind fun n => hR.ite (hR.bind (hR.fault _) fun _ => ?_) ?_
  all_goals
    refine hR.ite (hR.bind (hR.fault _) fun _ => ?_) ?_
    all_goals
      dsimp only
      split
      · exact hR.bind (hR.fault _) fun _ => hcall
      · exact hcall

end Functions

end Monorepo.Script
