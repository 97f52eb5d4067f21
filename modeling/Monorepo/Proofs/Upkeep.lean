import Monorepo.Proofs.Frames
import Monorepo.Proofs.Storage

/-!
# What evaluation upholds

A property that operations keep holds of everything in the state that a step leads to if it holds of
everything in the state from which the step begins. This is so even where the step stops with a
fault, when a value may have been stored that passes all limits; for such a value too was made by
the operations of the language. What a step yields has the property as well.
-/

namespace Monorepo.Script

open Value (All Kept)

/-- What is asked of a state in which everything satisfies `P`. -/
def upkeep (P : Value → Prop) : Rule where
  names _ := True
  values := All P
  calls call := ∀ k ∈ call.keywords, All P k.2
  faults _ := True

/-- A state in which everything satisfies `P`, however deep in a value. -/
abbrev State.Upheld (P : Value → Prop) (s : State) : Prop := s.Obeys (upkeep P)

theorem State.upheld_iff {P : Value → Prop} {s : State} : s.Upheld P ↔ ∀ v ∈ s.values, v.All P := by
  constructor
  · intro h
    exact h.values (fun _ => trivial) fun _ hcall => hcall
  · intro h
    obtain ⟨hscopes, hcalls⟩ := List.forall_mem_append.mp h
    have hscope : ∀ scope ∈ s.globals :: s.frames, ∀ row ∈ scope, All P row.2 :=
      fun scope hscope row hrow => List.forall_mem_map.mp hscopes row
        (List.mem_flatten.mpr ⟨scope, hscope, hrow⟩)
    obtain ⟨hglobals, hframes⟩ := List.forall_mem_cons.mp hscope
    refine ⟨fun row hrow _ => hglobals row hrow, fun frame hframe row hrow _ =>
      hframes frame hframe row hrow, fun call hcall k hk => ?_⟩
    exact hcalls _ (List.mem_flatMap.mpr ⟨call, hcall, List.mem_map.mpr ⟨k, hk, rfl⟩⟩)

namespace Eval

variable {α β : Type} {P : Value → Prop} {Q : α → Prop} {R : β → Prop} {x : Eval α}

/-- From the state `s` a step ends where everything satisfies `P`, with a result that satisfies
    `Q` if it succeeds. -/
def UpholdsAt (P : Value → Prop) (Q : α → Prop) (s : State) (x : Eval α) : Prop :=
  (endState (x s)).Upheld P ∧ ∀ a t, x s = .ok a t → Q a

/-- From every state in which everything satisfies `P` a step ends in another one. -/
def Upholds (P : Value → Prop) (Q : α → Prop) (x : Eval α) : Prop :=
  ∀ s : State, s.Upheld P → UpholdsAt P Q s x

theorem UpholdsAt.bind {s : State} {f : α → Eval β} (hx : UpholdsAt P Q s x)
    (hf : ∀ a, Q a → Upholds P R (f a)) : UpholdsAt P R s (x >>= f) := by
  obtain ⟨hend, hresult⟩ := hx
  unfold UpholdsAt
  change (endState (EStateM.bind x f s)).Upheld P ∧ ∀ b u, EStateM.bind x f s = .ok b u → R b
  unfold EStateM.bind
  cases hrun : x s with
  | error e t =>
    rw [hrun] at hend
    exact ⟨hend, nofun⟩
  | ok a t =>
    rw [hrun] at hend
    exact hf a (hresult a t hrun) t hend

theorem UpholdsAt.lift_bind {s : State} (hs : s.Upheld P) {result : Except EvalFault α}
    {f : α → Eval β} (h : ∀ a, result = .ok a → UpholdsAt P R s (f a)) :
    UpholdsAt P R s (lift result >>= f) := by
  cases result with
  | ok a => exact h a rfl
  | error fault => exact ⟨hs, nofun⟩

namespace Upholds

theorem pure {a : α} (h : Q a) : Upholds P Q (pure a) := by
  intro s hs
  refine ⟨hs, fun b t hrun => ?_⟩
  cases hrun
  exact h

theorem fault {f : EvalFault} : Upholds P Q (fault f) := fun _ hs => ⟨hs, nofun⟩

theorem lift {result : Except EvalFault α} (h : ∀ a, result = .ok a → Q a) :
    Upholds P Q (lift result) := by
  cases result with
  | ok a => exact pure (h a rfl)
  | error f => exact fault

theorem bind {f : α → Eval β} (hx : Upholds P Q x) (hf : ∀ a, Q a → Upholds P R (f a)) :
    Upholds P R (x >>= f) :=
  fun s hs => (hx s hs).bind hf

theorem map {f : α → β} (hx : Upholds P Q x) (hf : ∀ a, Q a → R (f a)) :
    Upholds P R (f <$> x) := by
  rw [map_eq_pure_bind]
  exact hx.bind fun a ha => pure (hf a ha)

theorem get_bind {f : State → Eval β} (h : ∀ s : State, s.Upheld P → UpholdsAt P R s (f s)) :
    Upholds P R (get >>= f) :=
  fun s hs => h s hs

theorem ite {b : Prop} [Decidable b] {y : Eval α} (hx : Upholds P Q x) (hy : Upholds P Q y) :
    Upholds P Q (if b then x else y) := by
  split
  · exact hx
  · exact hy

theorem modify {f : State → State} (h : ∀ s : State, s.Upheld P → (f s).Upheld P) :
    Upholds P (fun _ => True) (modify f : Eval Unit) :=
  fun s hs => ⟨h s hs, fun _ _ _ => trivial⟩

theorem setLine (line : Nat) : Upholds P (fun _ => True) (setLine line) :=
  modify fun _ hs => ⟨hs.globals, hs.frames, hs.declared⟩

theorem warn (notice : Notice) : Upholds P (fun _ => True) (warn notice) := by
  refine modify fun s hs => ?_
  dsimp only
  split
  · exact hs
  · exact ⟨hs.globals, hs.frames, hs.declared⟩

/-! ### Variables -/

theorem store (name : String) {value : Value} (h : All P value) :
    Upholds P (fun _ => True) (store name value) :=
  modify fun _ hs => hs.store fun _ => h

theorem checkStored (name : String) : Upholds P (fun _ => True) (checkStored name) := by
  refine get_bind fun s hs => ?_
  cases s.find? name with
  | none => exact pure trivial s hs
  | some value => exact (lift (Q := fun _ => True) fun _ _ => trivial).map (fun _ _ => trivial) s hs

theorem storeAll {values : List Value} (h : ∀ v ∈ values, All P v) (names : List String) :
    Upholds P (fun _ => True) (storeAll names values) := by
  induction values generalizing names with
  | nil => cases names <;> exact pure trivial
  | cons value values ih =>
    obtain ⟨hvalue, hvalues⟩ := List.forall_mem_cons.mp h
    cases names with
    | nil => exact pure trivial
    | cons name names => exact (store name hvalue).bind fun _ _ => ih hvalues names

theorem restoring (names : List String) (h : Upholds P Q x) :
    Upholds P Q (restoring names x) := by
  intro s hs
  obtain ⟨hend, hresult⟩ := h s hs
  refine ⟨?_, fun a t hrun => ?_⟩
  · rw [endState_restoring]
    refine Leads.obeys_restored hend (List.forall_mem_map.mpr fun name _ value hvalue hname => ?_)
    exact hs.scope.get? hvalue hname
  · unfold Eval.restoring at hrun
    dsimp only at hrun
    cases hstep : x s with
    | ok b u =>
      rw [hstep] at hrun
      cases hrun
      exact hresult a u hstep
    | error e u =>
      rw [hstep] at hrun
      cases hrun

/-- A step in a frame of its own. -/
theorem inFrame {frame : Scope} (hframe : ∀ row ∈ frame, All P row.2) (h : Upholds P Q x) :
    Upholds P Q (inFrame frame x) := by
  intro s hs
  have hentered : { s with frames := frame :: s.frames }.Upheld P :=
    ⟨hs.globals, List.forall_mem_cons.mpr ⟨fun row hrow _ => hframe row hrow, hs.frames⟩,
      hs.declared⟩
  obtain ⟨hend, hresult⟩ := h _ hentered
  have hback {t : State} (ht : t.Upheld P) :
      { t with frames := t.frames.tail, line := s.line }.Upheld P :=
    ⟨ht.globals, fun frame hframe => ht.frames frame (List.mem_of_mem_tail hframe), ht.declared⟩
  unfold UpholdsAt Eval.inFrame
  dsimp only
  cases hstep : x { s with frames := frame :: s.frames } with
  | ok a t =>
    rw [hstep] at hend
    refine ⟨hback hend, fun b u hrun => ?_⟩
    cases hrun
    exact hresult a t hstep
  | error e t =>
    rw [hstep] at hend
    exact ⟨hback hend, nofun⟩

end Upholds

end Eval

open Eval (Upholds UpholdsAt)

/-- What a context upholds: its calls do, given values that satisfy `P`. -/
def Context.Upholds (P : Value → Prop) (c : Context) : Prop :=
  ∀ f arguments keywords, (∀ v ∈ arguments, All P v) → (∀ k ∈ keywords, All P k.2) →
    Eval.Upholds P (All P) (c.invoke f arguments keywords)

/-! ## Values -/

section Values

variable {P : Value → Prop}

/-- A variable that is changed in place stays changed, even if its measure stops the run. -/
theorem update_upholds (name : String) {value : Value} (h : All P value) :
    Upholds P (fun _ => True)
      (do modify (·.update name value); Eval.checkStored name) :=
  (Upholds.modify fun _ hs => hs.update fun _ => h).bind fun _ _ => Upholds.checkStored name

theorem Eval.Upholds.bounded {v : Value} (h : All P v) : Upholds P (All P) (Eval.bounded v) := by
  refine Upholds.lift fun out hout => ?_
  obtain ⟨rfl, -⟩ := Value.isMeasured_of_bounded hout
  exact h

variable (hP : Kept P)
include hP

theorem Eval.Upholds.items {v : Value} (h : All P v) :
    Upholds P (fun items => ∀ item ∈ items, All P item) (Eval.items v) :=
  Upholds.lift fun _ hitems => hP.iterate h hitems

theorem Eval.Upholds.lookup (name : String) : Upholds P (All P) (Eval.lookup name) := by
  refine Upholds.get_bind fun s hs => ?_
  cases hfind : s.find? name with
  | some value => exact Upholds.pure (hs.find? hfind trivial) s hs
  | none => exact ((Upholds.warn _).bind fun _ _ => Upholds.pure (hP.atom rfl)) s hs

theorem Eval.Upholds.unpack (names : List String) {v : Value} (h : All P v) :
    Upholds P (fun _ => True) (Eval.unpack names v) := by
  unfold Eval.unpack
  split
  · exact Upholds.storeAll (List.forall_mem_map.mpr fun _ _ => hP.atom rfl) names
  · refine (Upholds.items hP h).bind fun values hvalues => ?_
    have hstore := Upholds.storeAll hvalues names
    exact Upholds.ite ((Upholds.fault (Q := fun _ => True)).bind fun _ _ => hstore) hstore

theorem Eval.Upholds.bindTargets (targets : List String) {item : Value} (h : All P item) :
    Upholds P (fun _ => True) (Eval.bindTargets targets item) := by
  unfold Eval.bindTargets
  split
  · exact Upholds.store _ h
  · exact Upholds.unpack hP _ h

end Values

/-! ## Calls -/

section Calls

variable {P : Value → Prop} (hP : Kept P) {arguments : List Value}
  (harguments : ∀ v ∈ arguments, All P v) {keywords : Keywords}
  (hkeywords : ∀ k ∈ keywords, All P k.2)

include hP in
theorem member_upholds {object : Value} (h : All P object) (name : String) :
    Upholds P (All P) (member object name) := by
  unfold member
  split
  · exact Upholds.pure (hP.atom rfl)
  · refine Upholds.ite (Upholds.pure (hP.method h name)) ?_
    exact (Upholds.warn _).bind fun _ _ => Upholds.pure (hP.atom rfl)

include hP hkeywords

theorem declareTarget_upholds (kind : String) (arguments : List Value) :
    Upholds P (All P) (declareTarget kind arguments keywords) := by
  have hdeclare : Upholds P (All P) (do
      modify fun s : State => { s with declared := ⟨kind, keywords, s.line⟩ :: s.declared }
      return Value.none) := by
    refine Upholds.bind (Upholds.modify fun s hs => ⟨hs.globals, hs.frames, ?_⟩) fun _ _ =>
      Upholds.pure (hP.atom rfl)
    exact List.forall_mem_cons.mpr ⟨hkeywords, hs.declared⟩
  exact Upholds.ite hdeclare ((Upholds.warn _).bind fun _ _ => hdeclare)

include harguments

theorem callBuiltin_upholds (setting : Setting) (b : Builtin) :
    Upholds P (All P) (callBuiltin setting b arguments keywords) := by
  unfold callBuiltin
  split
  · exact declareTarget_upholds hP hkeywords _ arguments
  · refine Upholds.ite (Upholds.pure (hP.atom rfl)) (Upholds.lift fun v h => ?_)
    exact all_computeBuiltin hP harguments hkeywords h

theorem call_upholds {c : Context} (hc : c.Upholds P) {callee : Value} (hcallee : All P callee) :
    Upholds P (All P) (call c callee arguments keywords) := by
  unfold call
  cases callee with
  | stub trace => exact Upholds.pure (hP.atom rfl)
  | builtin b => exact callBuiltin_upholds hP harguments hkeywords _ b
  | function f => exact hc f arguments keywords harguments hkeywords
  | method receiver name =>
    exact Upholds.lift fun v hv => all_callMethod hP hcallee.receiver harguments hv
  | _ => exact Upholds.fault

theorem changeVariable_upholds (name method : String) :
    Upholds P (fun _ => True) (changeVariable name method arguments keywords) := by
  refine Upholds.get_bind fun s hs => ?_
  cases hfind : s.find? name with
  | none => exact Upholds.pure trivial s hs
  | some value =>
    refine UpholdsAt.lift_bind hs fun changed hchanged => ?_
    cases changed with
    | none => exact Upholds.pure trivial s hs
    | some changed =>
      have hchanged : All P changed :=
        all_changeInPlace hP (hs.find? hfind trivial) harguments hkeywords hchanged
      have hupdate := (update_upholds name hchanged).bind (R := fun _ : Bool => True)
        (f := fun _ => pure true) fun _ _ => Upholds.pure trivial
      exact hupdate s hs

omit hP harguments in
theorem spreadEntries_upholds {entries : List (Value × Value)}
    (hentries : ∀ e ∈ entries, All P e.2) :
    Upholds P (fun keywords => ∀ k ∈ keywords, All P k.2) (spreadEntries keywords entries) := by
  induction entries generalizing keywords with
  | nil => exact Upholds.pure hkeywords
  | cons entry entries ih =>
    obtain ⟨hentry, hrest⟩ := List.forall_mem_cons.mp hentries
    obtain ⟨key, value⟩ := entry
    cases key with
    | text name => exact ih (Value.forall_mem_keywordsSet hkeywords fun _ => hentry) hrest
    | _ => exact Upholds.fault

omit hP harguments in
theorem spreadKeywords_upholds {value : Value} (hvalue : All P value) :
    Upholds P (fun keywords => ∀ k ∈ keywords, All P k.2) (spreadKeywords keywords value) := by
  unfold spreadKeywords
  split
  · exact spreadEntries_upholds hkeywords fun e he => (hvalue.entries e he).2
  · exact (Upholds.warn _).bind fun _ _ => Upholds.pure hkeywords
  · exact Upholds.fault

end Calls

/-- The items of a comprehension that have been gathered. -/
theorem gather_upholds {P : Value → Prop} {turn : Value → Eval (Option Value)}
    (h : ∀ item, All P item → Upholds P (fun v => ∀ w ∈ v, All P w) (turn item))
    {items : List Value} (hitems : ∀ v ∈ items, All P v) (size count : Nat) {kept : List Value}
    (hkept : ∀ v ∈ kept, All P v) :
    Upholds P (fun values => ∀ v ∈ values, All P v) (gather turn items size count kept) := by
  induction items generalizing size count kept with
  | nil => exact Upholds.pure fun v hv => hkept v (List.mem_reverse.mp hv)
  | cons item items ih =>
    obtain ⟨hitem, hitems⟩ := List.forall_mem_cons.mp hitems
    refine (h item hitem).bind fun value hvalue => ?_
    cases value with
    | none => exact ih hitems size count hkept
    | some value =>
      refine (Upholds.lift (Q := fun _ => True) fun _ _ => trivial).bind fun measured _ => ?_
      refine Upholds.ite Upholds.fault (ih hitems _ _ ?_)
      exact List.forall_mem_cons.mpr ⟨hvalue value rfl, hkept⟩

/-! ## Expressions -/

section Expressions

variable {P : Value → Prop} {c : Context}

theorem collect_upholds (hP : Kept P) (targets : List String)
    {turn : Value → Eval (Option Value)}
    (h : ∀ item, All P item → Upholds P (fun v => ∀ w ∈ v, All P w) (turn item))
    {items : List Value} (hitems : ∀ v ∈ items, All P v) :
    Upholds P (All P)
      (do Eval.bounded (.list (← Eval.restoring targets (gather turn items 0 0 [])))) := by
  have hgather := gather_upholds h hitems 0 0 (List.forall_mem_nil _)
  exact (Upholds.restoring targets hgather).bind fun values hvalues =>
    Upholds.bounded (hP.list hvalues)

mutual

/-- Evaluation upholds what operations keep. -/
theorem eval_upholds (hP : Kept P) (hc : c.Upholds P) :
    (e : Expr) → Upholds P (All P) (eval c e)
  | .none => by unfold eval; exact Upholds.pure (hP.atom rfl)
  | .bool _ => by unfold eval; exact Upholds.pure (hP.atom rfl)
  | .int _ => by unfold eval; exact Upholds.pure (hP.atom rfl)
  | .float _ => by unfold eval; exact Upholds.pure (hP.atom rfl)
  | .text _ => by unfold eval; exact Upholds.pure (hP.atom rfl)
  | .name name => by unfold eval; exact Upholds.lookup hP name
  | .list items => by
    unfold eval
    exact (evalAll_upholds hP hc items).bind fun values hvalues =>
      Upholds.bounded (hP.list hvalues)
  | .tuple items => by
    unfold eval
    exact (evalAll_upholds hP hc items).bind fun values hvalues =>
      Upholds.bounded (hP.tuple hvalues)
  | .dict entries => by
    unfold eval
    exact (evalEntries_upholds hP hc hP.dict_nil entries).bind fun done hdone =>
      Upholds.bounded hdone
  | .comprehension element targets source none => by
    unfold eval
    refine (eval_upholds hP hc source).bind fun value hvalue => ?_
    refine (Upholds.items hP hvalue).bind fun items hitems => ?_
    refine collect_upholds hP targets (fun item hitem => ?_) hitems
    refine (Upholds.bindTargets hP targets hitem).bind fun _ _ => ?_
    exact (eval_upholds hP hc element).bind fun v hv => Upholds.pure fun w hw =>
      Option.mem_some.mp hw ▸ hv
  | .comprehension element targets source (some condition) => by
    unfold eval
    refine (eval_upholds hP hc source).bind fun value hvalue => ?_
    refine (Upholds.items hP hvalue).bind fun items hitems => ?_
    refine collect_upholds hP targets (fun item hitem => ?_) hitems
    refine (Upholds.bindTargets hP targets hitem).bind fun _ _ => ?_
    refine (eval_upholds hP hc condition).bind fun v _ => Upholds.ite ?_ (Upholds.pure nofun)
    exact (eval_upholds hP hc element).bind fun v hv => Upholds.pure fun w hw =>
      Option.mem_some.mp hw ▸ hv
  | .call callee arguments => by
    unfold eval
    have harguments := evalArguments_upholds hP hc (List.forall_mem_nil _) (List.forall_mem_nil _)
      arguments
    split
    · refine harguments.bind fun (values, keywords) ⟨hvalues, hkeywords⟩ => ?_
      refine (changeVariable_upholds hP hvalues hkeywords _ _).bind fun changed _ => ?_
      refine Upholds.ite (Upholds.bounded (hP.atom rfl)) ?_
      refine (eval_upholds hP hc callee).bind fun value hvalue => ?_
      exact (call_upholds hP hvalues hkeywords hc hvalue).bind fun v hv => Upholds.bounded hv
    · refine (eval_upholds hP hc callee).bind fun value hvalue => ?_
      refine harguments.bind fun (values, keywords) ⟨hvalues, hkeywords⟩ => ?_
      exact (call_upholds hP hvalues hkeywords hc hvalue).bind fun v hv => Upholds.bounded hv
  | .attribute object name => by
    unfold eval
    exact (eval_upholds hP hc object).bind fun value hvalue =>
      (member_upholds hP hvalue name).bind fun v hv => Upholds.bounded hv
  | .subscript object index => by
    unfold eval
    refine (eval_upholds hP hc object).bind fun value hvalue => ?_
    refine (eval_upholds hP hc index).bind fun key _ => ?_
    exact (Upholds.lift fun v hv => all_subscript hP hvalue hv).bind fun v hv => Upholds.bounded hv
  | .arithmetic op left right => by
    unfold eval
    refine (eval_upholds hP hc left).bind fun a ha => ?_
    refine (eval_upholds hP hc right).bind fun b hb => ?_
    exact (Upholds.lift fun v hv => all_operate hP ha hb hv).bind fun v hv => Upholds.bounded hv
  | .unary op operand => by
    unfold eval
    refine (eval_upholds hP hc operand).bind fun a _ => ?_
    exact (Upholds.lift fun v hv => hP.atom (isAtom_applyUnary hv)).bind
      fun v hv => Upholds.bounded hv
  | .compare op left right => by
    unfold eval
    refine (eval_upholds hP hc left).bind fun a _ => ?_
    refine (eval_upholds hP hc right).bind fun b _ => ?_
    exact (Upholds.lift fun v hv => hP.atom (isAtom_applyComparison hv)).bind
      fun v hv => Upholds.bounded hv
  | .both left right => by
    unfold eval
    refine (eval_upholds hP hc left).bind fun a ha => Upholds.ite ?_ ?_
    · exact (eval_upholds hP hc right).bind fun b hb => Upholds.bounded hb
    · exact (Upholds.pure ha).bind fun b hb => Upholds.bounded hb
  | .either left right => by
    unfold eval
    refine (eval_upholds hP hc left).bind fun a ha => Upholds.ite ?_ ?_
    · exact (Upholds.pure ha).bind fun b hb => Upholds.bounded hb
    · exact (eval_upholds hP hc right).bind fun b hb => Upholds.bounded hb
  | .conditional condition positive negative => by
    unfold eval
    refine (eval_upholds hP hc condition).bind fun a _ => Upholds.ite ?_ ?_
    · exact (eval_upholds hP hc positive).bind fun b hb => Upholds.bounded hb
    · exact (eval_upholds hP hc negative).bind fun b hb => Upholds.bounded hb

theorem evalAll_upholds (hP : Kept P) (hc : c.Upholds P) :
    (es : List Expr) → Upholds P (fun values => ∀ v ∈ values, All P v) (evalAll c es)
  | [] => by
    unfold evalAll
    exact Upholds.pure (List.forall_mem_nil _)
  | e :: es => by
    unfold evalAll
    refine (eval_upholds hP hc e).bind fun value hvalue => ?_
    exact (evalAll_upholds hP hc es).bind fun values hvalues =>
      Upholds.pure (List.forall_mem_cons.mpr ⟨hvalue, hvalues⟩)

theorem evalEntries_upholds (hP : Kept P) (hc : c.Upholds P) {done : Entries}
    (hdone : All P (.dict done)) :
    (entries : List (Expr × Expr)) →
      Upholds P (fun done => All P (.dict done)) (evalEntries c done entries)
  | [] => by
    unfold evalEntries
    exact Upholds.pure hdone
  | (key, value) :: entries => by
    unfold evalEntries
    refine (eval_upholds hP hc key).bind fun k hk => ?_
    refine (eval_upholds hP hc value).bind fun v hv => ?_
    exact evalEntries_upholds hP hc (hP.dict_insert hdone hk hv) entries

theorem evalArguments_upholds (hP : Kept P) (hc : c.Upholds P) {done : List Value}
    (hdone : ∀ v ∈ done, All P v) {keywords : Keywords} (hkeywords : ∀ k ∈ keywords, All P k.2) :
    (arguments : List Argument) →
      Upholds P (fun out => (∀ v ∈ out.1, All P v) ∧ ∀ k ∈ out.2, All P k.2)
        (evalArguments c done keywords arguments)
  | [] => by
    unfold evalArguments
    exact Upholds.pure ⟨fun v hv => hdone v (List.mem_reverse.mp hv), hkeywords⟩
  | .positional e :: arguments => by
    unfold evalArguments
    exact (eval_upholds hP hc e).bind fun value hvalue =>
      evalArguments_upholds hP hc (List.forall_mem_cons.mpr ⟨hvalue, hdone⟩) hkeywords arguments
  | .keyword name e :: arguments => by
    unfold evalArguments
    exact (eval_upholds hP hc e).bind fun value hvalue => evalArguments_upholds hP hc hdone
      (Value.forall_mem_keywordsSet hkeywords fun _ => hvalue) arguments
  | .spread e :: arguments => by
    unfold evalArguments
    refine (eval_upholds hP hc e).bind fun value hvalue => ?_
    refine (Upholds.items hP hvalue).bind fun items hitems =>
      evalArguments_upholds hP hc ?_ hkeywords arguments
    exact List.forall_mem_append.mpr ⟨fun v hv => hitems v (List.mem_reverse.mp hv), hdone⟩
  | .spreadKeywords e :: arguments => by
    unfold evalArguments
    refine (eval_upholds hP hc e).bind fun value hvalue => ?_
    exact (spreadKeywords_upholds hkeywords hvalue).bind fun keywords' hkeywords' =>
      evalArguments_upholds hP hc hdone hkeywords' arguments

end

end Expressions

/-! ## Statements -/

section Statements

variable {P : Value → Prop} {c : Context}

theorem runLoop_upholds {turn : Value → Eval Flow}
    (h : ∀ item, All P item → Upholds P (Flow.Gives (All P)) (turn item)) {items : List Value}
    (hitems : ∀ item ∈ items, All P item) :
    Upholds P (Flow.Gives (All P)) (runLoop turn items) := by
  induction items with
  | nil => exact Upholds.pure trivial
  | cons item items ih =>
    obtain ⟨hitem, hitems⟩ := List.forall_mem_cons.mp hitems
    refine (h item hitem).bind fun flow hflow => ?_
    cases flow with
    | next | proceed => exact ih hitems
    | leave => exact Upholds.pure trivial
    | give value => exact Upholds.pure hflow

theorem bindImports_upholds (hP : Kept P) (bindings : List (String × String)) :
    Upholds P (fun _ => True) (bindImports bindings) := by
  induction bindings with
  | nil => exact Upholds.pure trivial
  | cons binding bindings ih => exact (Upholds.store _ (hP.atom rfl)).bind fun _ _ => ih

theorem assignItem_upholds (hP : Kept P) (name : String) {key value : Value} (hkey : All P key)
    (hvalue : All P value) : Upholds P (fun _ => True) (assignItem name key value) := by
  refine Upholds.get_bind fun s hs => ?_
  cases hfind : s.find? name with
  | none => exact Upholds.warn _ s hs
  | some container =>
    refine UpholdsAt.lift_bind hs fun changed hchanged => ?_
    have hcontainer : All P container := hs.find? hfind trivial
    exact update_upholds name (all_replaceItem hP hcontainer hkey hvalue hchanged) s hs

theorem temporary_upholds (hP : Kept P) (hc : c.Upholds P) (e : Expr)
    (fault : Value → EvalFault) :
    Upholds P (fun _ => True)
      (do match ← eval c e with
        | .stub _ => return
        | other => Eval.fault (fault other)) := by
  refine (eval_upholds hP hc e).bind fun object _ => ?_
  cases object with
  | stub trace => exact Upholds.pure trivial
  | _ => exact Upholds.fault

theorem assign_upholds (hP : Kept P) (hc : c.Upholds P) (target : Target) {value : Value}
    (hvalue : All P value) : Upholds P (fun _ => True) (assign c target value) := by
  unfold assign
  split
  · exact Upholds.store _ hvalue
  · exact Upholds.unpack hP _ hvalue
  · exact (eval_upholds hP hc _).bind fun key hkey => assignItem_upholds hP _ hkey hvalue
  · exact ((eval_upholds hP hc _).map (R := fun _ => True) fun _ _ => trivial).bind
      fun _ _ => temporary_upholds hP hc _ _
  · exact temporary_upholds hP hc _ _
  · exact Upholds.fault

theorem augment_upholds (hP : Kept P) (hc : c.Upholds P) (name : String) (op : ArithmeticOp)
    (e : Expr) : Upholds P (fun _ => True) (augment c name op e) := by
  refine (Upholds.lookup hP name).bind fun current hcurrent => ?_
  refine (eval_upholds hP hc e).bind fun operand hoperand => ?_
  refine (Upholds.lift fun v hv => all_operate hP hcurrent hoperand hv).bind fun v hv => ?_
  exact (Upholds.bounded hv).bind fun w hw => Upholds.store name hw

mutual

/-- Statements uphold what operations keep and functions have. -/
theorem exec_upholds (hP : Kept P) (hfunction : ∀ f, P (.function f)) (hc : c.Upholds P) :
    (s : Statement) → Upholds P (Flow.Gives (All P)) (exec c s)
  | .at line action => by
    unfold exec
    exact (Upholds.setLine line).bind fun _ _ => execAction_upholds hP hfunction hc line action

theorem execAction_upholds (hP : Kept P) (hfunction : ∀ f, P (.function f)) (hc : c.Upholds P)
    (line : Nat) :
    (action : Action) → Upholds P (Flow.Gives (All P)) (execAction c line action)
  | .evaluate e => by
    unfold execAction
    exact ((eval_upholds hP hc e).map (R := fun _ => True) fun _ _ => trivial).bind
      fun _ _ => Upholds.pure trivial
  | .assign target e => by
    unfold execAction
    exact (eval_upholds hP hc e).bind fun value hvalue =>
      (assign_upholds hP hc target hvalue).bind fun _ _ => Upholds.pure trivial
  | .augment name op e => by
    unfold execAction
    exact (augment_upholds hP hc name op e).bind fun _ _ => Upholds.pure trivial
  | .imports bindings => by
    unfold execAction
    exact (bindImports_upholds hP bindings).bind fun _ _ => Upholds.pure trivial
  | .branch branches otherwise => by
    unfold execAction
    refine (execBranches_upholds hP hfunction hc branches).bind fun flow hflow => ?_
    cases flow with
    | some flow => exact Upholds.pure (hflow flow rfl)
    | none => exact execBlock_upholds hP hfunction hc otherwise
  | .loop targets source body => by
    unfold execAction
    refine (eval_upholds hP hc source).bind fun value hvalue => ?_
    refine (Upholds.items hP hvalue).bind fun items hitems => ?_
    exact runLoop_upholds (fun item hitem => (Upholds.bindTargets hP targets hitem).bind
      fun _ _ => execBlock_upholds hP hfunction hc body) hitems
  | .define name parameters body => by
    unfold execAction
    exact (Upholds.store name (All.leaf (hfunction _) rfl)).bind fun _ _ => Upholds.pure trivial
  | .give value => by
    unfold execAction
    refine Upholds.get_bind fun s hs => ?_
    refine Upholds.ite Upholds.fault ?_ s hs
    cases value with
    | none => exact Upholds.pure (hP.atom rfl)
    | some e => exact (eval_upholds hP hc e).bind fun v hv => Upholds.pure hv
  | .leave => by unfold execAction; exact Upholds.pure trivial
  | .proceed => by unfold execAction; exact Upholds.pure trivial
  | .pass => by unfold execAction; exact Upholds.pure trivial

theorem execBlock_upholds (hP : Kept P) (hfunction : ∀ f, P (.function f)) (hc : c.Upholds P) :
    (block : List Statement) → Upholds P (Flow.Gives (All P)) (execBlock c block)
  | [] => by
    unfold execBlock
    exact Upholds.pure trivial
  | statement :: statements => by
    unfold execBlock
    refine (exec_upholds hP hfunction hc statement).bind fun flow hflow => ?_
    cases flow with
    | next => exact execBlock_upholds hP hfunction hc statements
    | give value => exact Upholds.pure hflow
    | leave | proceed => exact Upholds.pure trivial

theorem execBranches_upholds (hP : Kept P) (hfunction : ∀ f, P (.function f)) (hc : c.Upholds P) :
    (branches : List (Expr × List Statement)) →
      Upholds P (fun flow => ∀ f ∈ flow, f.Gives (All P)) (execBranches c branches)
  | [] => by
    unfold execBranches
    exact Upholds.pure nofun
  | (condition, block) :: branches => by
    unfold execBranches
    refine (eval_upholds hP hc condition).bind fun value _ => ?_
    refine Upholds.ite ?_ (execBranches_upholds hP hfunction hc branches)
    exact (execBlock_upholds hP hfunction hc block).bind fun flow hflow =>
      Upholds.pure fun f hf => Option.mem_some.mp hf ▸ hflow

end

end Statements

/-! ## Functions -/

section Functions

variable {P : Value → Prop} {c : Context}

theorem bindParameters_upholds (hP : Kept P) (hc : c.Upholds P) (function : String)
    {keywords : Keywords} (hkeywords : ∀ k ∈ keywords, All P k.2) (parameters : List Parameter)
    {arguments : List Value} (harguments : ∀ v ∈ arguments, All P v) {frame : Scope}
    (hframe : frame.Obeys (upkeep P)) :
    Upholds P (fun frame => frame.Obeys (upkeep P))
      (bindParameters c function keywords parameters arguments frame) := by
  induction parameters generalizing arguments frame with
  | nil => exact Upholds.pure hframe
  | cons parameter parameters ih =>
    unfold bindParameters
    have htail : ∀ v ∈ arguments.tail, All P v :=
      fun v hv => harguments v (List.mem_of_mem_tail hv)
    have hset (value : Value) (hvalue : All P value) :
        (frame.set parameter.name value).Obeys (upkeep P) := hframe.set fun _ => hvalue
    have hrest (value : Value) (hvalue : All P value) := ih htail (hset value hvalue)
    split
    · exact (Upholds.fault (Q := All P)).bind hrest
    · rename_i hhead _
      exact (Upholds.pure (harguments _ (List.mem_of_head? hhead))).bind hrest
    · rename_i hkeyword
      obtain ⟨name, hmem⟩ := Value.mem_of_keywordsGet hkeyword
      exact (Upholds.pure (hkeywords _ hmem)).bind hrest
    · exact (eval_upholds hP hc _).bind hrest
    · exact (Upholds.fault (Q := All P)).bind hrest

theorem callFunction_upholds (hP : Kept P) (hfunction : ∀ f, P (.function f))
    (hc : c.Upholds P) (f : Function) {arguments : List Value}
    (harguments : ∀ v ∈ arguments, All P v) {keywords : Keywords}
    (hkeywords : ∀ k ∈ keywords, All P k.2) :
    Upholds P (All P) (callFunction c f arguments keywords) := by
  have hframe := bindParameters_upholds hP hc f.name hkeywords f.parameters harguments
    Scope.obeys_nil
  have hstop {α : Type} (fault : EvalFault) (rest : α → Eval Value) :
      Upholds P (All P) (Eval.fault fault >>= rest) := Upholds.fault
  -- the checks stand in front of the rest one after another
  refine Upholds.get_bind fun s hs => ?_
  refine Upholds.ite (hstop _ _) ?_ s hs
  refine Upholds.ite (hstop _ _) ?_
  dsimp only
  split
  · exact hstop _ _
  · refine hframe.bind fun frame hframe => ?_
    have hbody := Upholds.inFrame (fun row hrow => hframe row hrow trivial)
      (execBlock_upholds hP hfunction hc f.body)
    refine hbody.bind fun flow hflow => ?_
    cases flow with
    | next => exact Upholds.pure (hP.atom rfl)
    | give value => exact Upholds.pure hflow
    | leave | proceed => exact Upholds.fault

/-- Calls uphold what operations keep, however many may be in progress. -/
theorem invoke_upholds (hP : Kept P) (hfunction : ∀ f, P (.function f)) (setting : Setting)
    (pending : Nat) : Context.Upholds P ⟨setting, invoke setting pending⟩ := by
  induction pending with
  | zero => exact fun _ _ _ _ _ => Upholds.fault
  | succ pending ih =>
    intro f arguments keywords harguments hkeywords
    exact callFunction_upholds hP hfunction ih f harguments hkeywords

/-- A run upholds what operations keep, whether it succeeds or fails. -/
theorem execScript_upholds (hP : Kept P) (hfunction : ∀ f, P (.function f)) (setting : Setting)
    (script : List Statement) : Upholds P (fun _ => True) (execScript setting script) := by
  have hcalls := invoke_upholds hP hfunction setting maxPending
  refine (execBlock_upholds hP hfunction hcalls script).bind fun flow _ => ?_
  cases flow with
  | next => exact Upholds.pure trivial
  | _ => exact Upholds.fault

end Functions

end Monorepo.Script
