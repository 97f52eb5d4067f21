import Monorepo.Proofs.Clearing
import Monorepo.Proofs.Coincidence

/-!
# Comprehensions and loops

A comprehension makes the list that a loop makes by appending the elements to an empty list, and has
the same effects. The two are executed side by side, in states that coincide off the list. The loop
measures the whole list after each turn; the comprehension measures each element, sums up the sizes
and measures the list at the end. A limit that is passed at a turn of the loop stays passed, since
the list only grows; so the comprehension fails too, though perhaps later and for another reason.
-/

namespace Monorepo.Script

/-! ## The loop -/

/-- `out.append(element)`. -/
def appendStatement (line : Nat) (out : String) (element : Expr) : Statement :=
  .at line (.evaluate (.call (.attribute (.name out) "append") [.positional element]))

/-- The body of the loop: the append, on the line `inner` under the condition on the line `outer` if
    there is one. -/
def appendBlock (outer inner : Nat) (out : String) (element : Expr) :
    Option Expr → List Statement
  | none => [appendStatement inner out element]
  | some condition => [.at outer (.branch [(condition, [appendStatement inner out element])] [])]

/-- A turn of the loop. -/
def loopTurn (c : Context) (targets : List String) (body : List Statement) (item : Value) :
    Eval Flow := do
  Eval.bindTargets targets item
  execBlock c body

/-- The element of a comprehension for an item, if the condition holds. -/
def comprehensionTurn (c : Context) (element : Expr) (targets : List String)
    (condition : Option Expr) (item : Value) : Eval (Option Value) := do
  Eval.bindTargets targets item
  match condition with
  | none => return some (← eval c element)
  | some condition =>
    if (← eval c condition).isTrue then return some (← eval c element)
    else return none

/-- The items that a comprehension or a loop goes through. -/
def sourceItems (c : Context) (source : Expr) : Eval (List Value) := do
  Eval.items (← eval c source)

theorem eval_comprehension (c : Context) (element : Expr) (targets : List String) (source : Expr)
    (condition : Option Expr) :
    eval c (.comprehension element targets source condition) = (do
      let items ← sourceItems c source
      let turn := comprehensionTurn c element targets condition
      Eval.bounded (.list (← Eval.restoring targets (gather turn items 0 0 [])))) := by
  unfold sourceItems
  rw [bind_assoc]
  cases condition with
  | none =>
    rw [eval]
    rfl
  | some condition =>
    rw [eval]
    rfl

theorem exec_loop (c : Context) (line : Nat) (targets : List String) (source : Expr)
    (body : List Statement) :
    exec c (.at line (.loop targets source body)) = (do
      Eval.setLine line
      let items ← sourceItems c source
      runLoop (loopTurn c targets body) items) := by
  unfold exec execAction sourceItems
  simp only [bind_assoc]
  rfl

/-! ## Lists that grow -/

namespace Value

theorem weights_append (values more : List Value) :
    weights (values ++ more) = weights values + weights more := by
  induction values with
  | nil => simp [weights]
  | cons value values ih =>
    rw [List.cons_append, weights, weights, ih]
    omega

/-- A list can be measured if its items can, it is not too long and not too large. -/
theorem isMeasured_list_iff {items : List Value} :
    (Value.list items).IsMeasured ↔
      heights items + 1 ≤ maxDepth ∧ (∀ v ∈ items, v.All IsShort) ∧ items.length ≤ maxSequence ∧
        items.length + 1 + weights items ≤ maxSize := by
  have hshort : (Value.list items).All IsShort ↔
      items.length ≤ maxSequence ∧ ∀ v ∈ items, v.All IsShort := by
    refine ⟨fun h => ⟨Nat.le_of_succ_le_succ h.self, h.list⟩, fun h => ⟨?_, h.2⟩⟩
    exact Nat.succ_le_succ h.1
  rw [isMeasured_iff, height_eq, weight_eq, hshort]
  change heights items + 1 ≤ maxDepth ∧ _ ∧ items.length + 1 + weights items ≤ maxSize ↔ _
  tauto

/-- What is measured is measured from the front. -/
theorem IsMeasured.of_append {items more : List Value}
    (h : (Value.list (items ++ more)).IsMeasured) : (Value.list items).IsMeasured := by
  obtain ⟨hheight, hshort, hlength, hweight⟩ := isMeasured_list_iff.mp h
  rw [List.length_append] at hlength hweight
  rw [weights_append] at hweight
  have hheights : heights items ≤ maxDepth - 1 := by
    refine heights_le_iff.mpr fun v hv => ?_
    have hle := heights_le_iff.mp (Nat.le_refl (heights (items ++ more))) v
      (List.mem_append_left _ hv)
    omega
  have hdepth : maxDepth = 100 := rfl
  exact isMeasured_list_iff.mpr ⟨by omega, fun v hv => hshort v (List.mem_append_left _ hv),
    by omega, by omega⟩

theorem measure_eq_ok {v : Value} (h : v.IsMeasured) : v.measure = .ok v.weight := by
  obtain ⟨n, hn⟩ := h
  obtain ⟨-, rfl⟩ := (addSize_eq_ok v 1 0 n).mp hn
  rw [hn, Nat.zero_add]

end Value

/-! ## Side by side -/

/-- Two states that obey a policy and coincide off `out`. -/
structure State.Abreast (p : Policy) (out : String) (s t : State) : Prop where
  obeys : s.Obeys p.rule
  obeys' : t.Obeys p.rule
  coincide : s.Coincide (· = out) t

theorem State.Abreast.onLine {p : Policy} {out : String} {s t : State} (h : s.Abreast p out t)
    (line : Nat) : s.Abreast p out { t with line := line } :=
  ⟨h.obeys, ⟨h.obeys'.globals, h.obeys'.frames, h.obeys'.declared⟩,
    ⟨h.coincide.globals, h.coincide.frames, h.coincide.declared⟩⟩

/-- Two results with the same value, as `Q` asks, in states that are abreast, the second of which
    leaves `out` alone as seen from `t`; or two errors. -/
def Paired (p : Policy) (out : String) (free : String → Prop) (t : State) {α : Type}
    (Q : α → Prop) : (result result' : EStateM.Result EvalError State α) → Prop
  | .ok a s', .ok a' t' => a' = a ∧ Q a ∧ s'.Abreast p out t' ∧ t.Spares out free t'
  | .error _ _, .error _ _ => True
  | _, _ => False

theorem Paired.ok_or_error {p : Policy} {out : String} {free : String → Prop} {t : State} {α : Type}
    {Q : α → Prop} {result result' : EStateM.Result EvalError State α}
    (h : Paired p out free t Q result result') :
    (∃ a s' t', result = .ok a s' ∧ result' = .ok a t' ∧ Q a ∧ s'.Abreast p out t' ∧
      t.Spares out free t') ∨
    ∃ e s' e' t', result = .error e s' ∧ result' = .error e' t' := by
  cases result with
  | ok a s' =>
    cases result' with
    | ok a' t' =>
      obtain ⟨rfl, ha, habreast, hspares⟩ := h
      exact .inl ⟨a', s', t', rfl, rfl, ha, habreast, hspares⟩
    | error e' t' => exact h.elim
  | error e s' =>
    cases result' with
    | ok a' t' => exact h.elim
    | error e' t' => exact .inr ⟨e, s', e', t', rfl, rfl⟩

/-- What a turn of the comprehension and one of the loop make of the list `kept`. -/
def Turned (p : Policy) (out : String) (kept : List Value) :
    EStateM.Result EvalError State (Option Value) → EStateM.Result EvalError State Flow → Prop
  | .ok none s', .ok flow t' =>
    flow = .next ∧ s'.Abreast p out t' ∧ t'.scope.get? out = some (.list kept)
  | .ok (some v) s', .ok flow t' =>
    flow = .next ∧ s'.Abreast p out t' ∧ t'.scope.get? out = some (.list (kept ++ [v])) ∧
      (Value.list (kept ++ [v])).IsMeasured
  | .ok (some v) _, .error _ _ => ¬ (Value.list (kept ++ [v])).IsMeasured
  | .error _ _, .error _ _ => True
  | _, _ => False

/-- What the turns of the comprehension and those of the loop come to. -/
def Gathered (p : Policy) (out : String) :
    EStateM.Result EvalError State (List Value) → EStateM.Result EvalError State Flow → Prop
  | .ok items s', .ok flow t' =>
    flow = .next ∧ s'.Abreast p out t' ∧ t'.scope.get? out = some (.list items) ∧
      (Value.list items).IsMeasured
  | .ok items _, .error _ _ => ¬ (Value.list items).IsMeasured
  | .error _ _, .error _ _ => True
  | .error _ _, .ok _ _ => False

section Abreast

variable {p : Policy} {out : String} {α β : Type} {s t : State}

/-- A step that agrees under the policy with one that is blind. -/
theorem paired_of_blind {Q : α → Prop} {free : String → Prop} {x y : Eval α}
    (hleads : Eval.Leads p.rule Q x y) (hblind : Eval.Blind out free y y) (h : s.Abreast p out t) :
    Paired p out free t Q (x s) (x t) := by
  obtain ⟨heq, hends⟩ := hleads s h.obeys
  obtain ⟨heq', hends'⟩ := hleads t h.obeys'
  rw [heq] at hends ⊢
  rw [heq'] at hends' ⊢
  obtain ⟨a, s', t', hresult, hresult', hcoincide, hspares⟩ | ⟨e, s', e', t', hresult, hresult'⟩ :=
    (hblind s t h.coincide).ok_or_error
  · rw [hresult] at hends ⊢
    rw [hresult'] at hends' ⊢
    exact ⟨rfl, hends.2, ⟨hends.1, hends'.1, hcoincide⟩, hspares⟩
  · rw [hresult, hresult']
    exact trivial

theorem Paired.turned_bind {Q : α → Prop} {free : String → Prop} {x x' : Eval α}
    {f : α → Eval (Option Value)} {g : α → Eval Flow} {kept : List Value}
    (hx : Paired p out free t Q (x s) (x' t))
    (hf : ∀ a s' t', Q a → s'.Abreast p out t' → t.Spares out free t' →
      Turned p out kept (f a s') (g a t')) :
    Turned p out kept ((x >>= f) s) ((x' >>= g) t) := by
  obtain ⟨a, s', t', hresult, hresult', ha, habreast, hspares⟩ |
    ⟨e, s', e', t', hresult, hresult'⟩ := hx.ok_or_error
  · rw [bind_of_ok hresult, bind_of_ok hresult']
    exact hf a s' t' ha habreast hspares
  · rw [eval_bind_error hresult, eval_bind_error hresult']
    exact trivial

end Abreast

/-! ## Turns -/

/-- The call of a method that changes a variable ends there. -/
theorem exec_append (c : Context) (line : Nat) (out : String) (element : Expr) :
    ∃ rest : Value → Eval Flow, exec c (appendStatement line out element) = (do
      Eval.setLine line
      let value ← eval c element
      if ← changeVariable out "append" [value] [] then return .next
      else rest value) := by
  have hdiscard (x : Eval Value) : (do discard x; return Flow.next) =
      (do let _ ← x; return Flow.next) := by
    funext s
    change EStateM.bind (EStateM.map (Function.const Value PUnit.unit) x) _ s = EStateM.bind x _ s
    unfold EStateM.bind EStateM.map
    cases x s <;> rfl
  have hcall : eval c (.call (.attribute (.name out) "append") [.positional element]) = (do
      let value ← eval c element
      if ← changeVariable out "append" [value] [] then Eval.bounded .none
      else Eval.bounded (← call c (← eval c (.attribute (.name out) "append")) [value] [])) := by
    have harguments : evalArguments c [] [] [.positional element] =
        eval c element >>= fun value => pure ([value], []) := rfl
    rw [eval.eq_def]
    change (evalArguments c [] [] [.positional element] >>= _) = _
    rw [harguments, bind_assoc]
    rfl
  refine ⟨fun value => do
    let _ ← Eval.bounded (← call c (← eval c (.attribute (.name out) "append")) [value] [])
    return .next, ?_⟩
  unfold appendStatement exec execAction
  rw [hdiscard, hcall]
  simp only [bind_assoc]
  refine bind_congr fun _ => bind_congr fun value => bind_congr fun changed => ?_
  cases changed with
  | true => rfl
  | false => simp only [bind_assoc, Bool.false_eq_true, if_false]

theorem State.get?_store (s : State) (name : String) (value : Value) :
    (s.store name value).scope.get? name = some value := by
  unfold State.store
  rw [State.scope_withScope, Scope.get?_set, if_pos rfl]

theorem State.find?_of_scope {t : State} {name : String} {value : Value}
    (h : t.scope.get? name = some value) : t.find? name = some value := by
  obtain ⟨globals, frames, line, declared, warned⟩ := t
  cases frames with
  | nil => exact h
  | cons frame frames =>
    change (Scope.get? frame name <|> globals.get? name) = some value
    change Scope.get? frame name = some value at h
    rw [h]
    rfl

theorem State.scope_update {t : State} {name : String} {old : Value}
    (h : t.scope.get? name = some old) (value : Value) :
    (t.update name value).scope.get? name = some value := by
  have hhas := Scope.has_of_get? h
  unfold State.update
  rw [if_pos hhas, State.scope_withScope]
  exact Scope.get?_replace hhas value

/-- The variable takes the longer list, which is measured afterwards. -/
theorem changeVariable_append {t : State} {out : String} {kept : List Value}
    (h : t.scope.get? out = some (.list kept)) (value : Value) :
    changeVariable out "append" [value] [] t =
      match (Value.list (kept ++ [value])).measure with
      | .ok _ => .ok true (t.update out (.list (kept ++ [value])))
      | .error fault => Eval.fault fault (t.update out (.list (kept ++ [value]))) := by
  have hfind := State.find?_of_scope h
  unfold changeVariable
  rw [bind_of_ok (show (get : Eval State) t = .ok t t from rfl), hfind]
  change EStateM.bind (Eval.checkStored out) _ (t.update out (.list (kept ++ [value]))) = _
  unfold EStateM.bind
  rw [checkStored_apply, State.find?_update hfind]
  dsimp only
  cases (Value.list (kept ++ [value])).measure <;> rfl

theorem exec_branch (c : Context) (line : Nat) (condition : Expr) (block : List Statement) :
    exec c (.at line (.branch [(condition, block)] [])) = (do
      Eval.setLine line
      if (← eval c condition).isTrue then execBlock c block
      else return .next) := by
  unfold exec execAction execBranches
  simp only [bind_assoc]
  refine bind_congr fun _ => bind_congr fun value => ?_
  cases value.isTrue with
  | true => simp
  | false => simp [execBranches, execBlock]

theorem execBlock_single (c : Context) (statement : Statement) :
    execBlock c [statement] = exec c statement := by
  rw [execBlock]
  refine Eq.trans (bind_congr fun flow => ?_) (bind_pure _)
  cases flow with
  | next => rw [execBlock]
  | _ => rfl

theorem restricted_blind {p : Policy} {out : String} (hout : ∀ name, p.names name → name ≠ out)
    (setting : Setting) (pending : Nat) :
    Context.Related (Eval.Blind out) ⟨setting, restricted p setting pending⟩
      ⟨setting, restricted p setting pending⟩ :=
  restricted_related (Eval.Blind.congruence hout) (fun line => Eval.Blind.setLine line)
    (fun frame => Eval.Blind.inFrame frame) setting pending

section Turns

variable {p : Policy} (hp : p.Lawful) {out : String} (hout : ∀ name, p.names name → name ≠ out)
  {s t : State}
include hp hout

variable (setting : Setting) (pending : Nat)

/-- Expressions have the same outcome side by side. -/
theorem eval_paired {e : Expr} (he : e.All p.Reads) (h : s.Abreast p out t) :
    Paired p out noNames t p.Admits (eval ⟨setting, invoke setting pending⟩ e s)
      (eval ⟨setting, invoke setting pending⟩ e t) := by
  have hblind := eval_congruent (Eval.Blind.congruence hout) (restricted_blind hout setting pending)
    e he
  exact paired_of_blind (eval_leads hp (restricted_agrees hp setting pending) e he) hblind h

theorem sourceItems_paired {source : Expr} (hsource : source.All p.Reads)
    (h : s.Abreast p out t) :
    Paired p out noNames t (fun items => ∀ item ∈ items, p.Admits item)
      (sourceItems ⟨setting, invoke setting pending⟩ source s)
      (sourceItems ⟨setting, invoke setting pending⟩ source t) := by
  have hR : Eval.Congruence p (Eval.Blind out) := Eval.Blind.congruence hout
  have hleads := eval_leads hp (restricted_agrees hp setting pending) source hsource
  refine paired_of_blind (hleads.bind fun value hvalue => hp.items_leads hvalue) ?_ h
  exact hR.bind (eval_congruent hR (restricted_blind hout setting pending) source hsource)
    fun value => hR.lift _

theorem bindTargets_paired (targets : List String) {item : Value} (hitem : p.Admits item)
    (h : s.Abreast p out t) :
    Paired p out (· ∈ targets) t (fun _ => True) (Eval.bindTargets targets item s)
      (Eval.bindTargets targets item t) :=
  paired_of_blind (hp.bindTargets_leads targets hitem)
    ((Eval.Blind.congruence hout).bindTargets (fun _ hname => hname) item) h

/-- The append adds what the comprehension takes as an element. -/
theorem exec_append_turned {element : Expr} (helement : element.All p.Reads) (line : Nat)
    {kept : List Value} (h : s.Abreast p out t) (hkept : t.scope.get? out = some (.list kept)) :
    Turned p out kept
      ((do return some (← eval ⟨setting, invoke setting pending⟩ element) : Eval (Option Value)) s)
      (exec ⟨setting, invoke setting pending⟩ (appendStatement line out element) t) := by
  obtain ⟨rest, hexec⟩ := exec_append ⟨setting, invoke setting pending⟩ line out element
  rw [hexec]
  change Turned p out kept _ ((eval ⟨setting, invoke setting pending⟩ element >>= _)
    { t with line := line })
  refine (eval_paired hp hout setting pending helement (h.onLine line)).turned_bind
    fun value s' t' _ habreast hspares => ?_
  have hkept' : t'.scope.get? out = some (.list kept) := (hspares.scope id).trans hkept
  change Turned p out kept (.ok (some value) s')
    (EStateM.bind (changeVariable out "append" [value] []) _ t')
  unfold EStateM.bind
  rw [changeVariable_append hkept' value]
  cases hmeasure : (Value.list (kept ++ [value])).measure with
  | error fault =>
    rintro ⟨n, hn⟩
    rw [hmeasure] at hn
    cases hn
  | ok n =>
    refine ⟨rfl, ⟨habreast.obeys, habreast.obeys'.update fun hname => absurd rfl (hout out hname),
      habreast.coincide.update_right rfl _⟩, State.scope_update hkept' _, n, hmeasure⟩

theorem turn_turned {element : Expr} (helement : element.All p.Reads) {targets : List String}
    (htargets : out ∉ targets) {condition : Option Expr}
    (hcondition : ∀ e ∈ condition, e.All p.Reads) (outer inner : Nat) {kept : List Value}
    {item : Value} (hitem : p.Admits item) (h : s.Abreast p out t)
    (hkept : t.scope.get? out = some (.list kept)) :
    Turned p out kept
      (comprehensionTurn ⟨setting, invoke setting pending⟩ element targets condition item s)
      (loopTurn ⟨setting, invoke setting pending⟩ targets
        (appendBlock outer inner out element condition) item t) := by
  refine (bindTargets_paired hp hout targets hitem h).turned_bind
    fun _ s' t' _ habreast hspares => ?_
  have hkept' : t'.scope.get? out = some (.list kept) := (hspares.scope htargets).trans hkept
  cases condition with
  | none =>
    rw [appendBlock, execBlock_single]
    exact exec_append_turned hp hout setting pending helement inner habreast hkept'
  | some condition =>
    rw [appendBlock, execBlock_single, exec_branch]
    refine (eval_paired hp hout setting pending (hcondition condition rfl)
      (habreast.onLine outer)).turned_bind fun value s'' t'' _ habreast' hspares' => ?_
    have hkept'' : t''.scope.get? out = some (.list kept) := (hspares'.scope id).trans hkept'
    split
    · rw [execBlock_single]
      exact exec_append_turned hp hout setting pending helement inner habreast' hkept''
    · exact ⟨rfl, habreast', hkept''⟩

end Turns

/-! ## All turns -/

/-- Gathering keeps what has been gathered. -/
theorem gather_append {turn : Value → Eval (Option Value)} {items : List Value} {size count : Nat}
    {kept values : List Value} {s s' : State}
    (h : gather turn items size count kept s = .ok values s') :
    ∃ more, values = kept.reverse ++ more := by
  induction items generalizing size count kept s with
  | nil =>
    cases h
    exact ⟨[], (List.append_nil _).symm⟩
  | cons item items ih =>
    unfold gather at h
    obtain ⟨value, u, -, h⟩ := of_bind_ok h
    cases value with
    | none => exact ih h
    | some value =>
      obtain ⟨measured, w, -, h⟩ := of_bind_ok h
      dsimp only at h
      split at h
      · cases h
      · obtain ⟨more, rfl⟩ := ih h
        exact ⟨value :: more, by simp⟩

section Gathering

variable {p : Policy} {out : String} {turn : Value → Eval (Option Value)}
  {turn' : Value → Eval Flow}

/-- An element that the list has room for. -/
theorem gather_some {item value : Value} {items kept : List Value} {s u : State}
    (hturn : turn item s = .ok (some value) u)
    (hmeasured : (Value.list (kept.reverse ++ [value])).IsMeasured) :
    gather turn (item :: items) (Value.weights kept.reverse) kept.length kept s =
      gather turn items (Value.weights (value :: kept).reverse) (value :: kept).length
        (value :: kept) u := by
  have hvalue : value.IsMeasured :=
    hmeasured.part (List.mem_append_right _ (List.mem_singleton.mpr rfl))
  obtain ⟨-, -, hlength, hweight⟩ := Value.isMeasured_list_iff.mp hmeasured
  have hweights : Value.weights (value :: kept).reverse =
      Value.weights kept.reverse + value.weight := by
    rw [List.reverse_cons, Value.weights_append]
    rfl
  rw [← List.reverse_cons, hweights] at hweight
  rw [List.length_append, List.length_reverse, List.length_singleton] at hlength
  have hroom : ¬ (decide (Value.weights kept.reverse + value.weight > maxSize) ||
      decide (kept.length ≥ maxSequence)) = true := by
    simp only [Bool.or_eq_true, decide_eq_true_eq]
    omega
  rw [gather, bind_of_ok hturn]
  dsimp only
  rw [Value.measure_eq_ok hvalue, hweights]
  change (if (decide (Value.weights kept.reverse + value.weight > maxSize) ||
    decide (kept.length ≥ maxSequence)) = true then _ else _ : Eval _) u = _
  rw [if_neg hroom]
  rfl

/-- An element that the list has no room for is not taken, or makes too long a list. -/
theorem gather_crowded {item value : Value} {items kept : List Value} {s u s' : State}
    {size count : Nat} {values : List Value} (hturn : turn item s = .ok (some value) u)
    (hcrowded : ¬ (Value.list (kept.reverse ++ [value])).IsMeasured)
    (h : gather turn (item :: items) size count kept s = .ok values s') :
    ¬ (Value.list values).IsMeasured := by
  unfold gather at h
  rw [bind_of_ok hturn] at h
  obtain ⟨measured, w, -, h⟩ := of_bind_ok h
  dsimp only at h
  split at h
  · cases h
  · obtain ⟨more, rfl⟩ := gather_append h
    rw [List.reverse_cons]
    exact fun hmeasured => hcrowded hmeasured.of_append

theorem gather_gathered
    (hturn : ∀ item, p.Admits item → ∀ (kept : List Value) (s t : State), s.Abreast p out t →
      t.scope.get? out = some (.list kept) → Turned p out kept (turn item s) (turn' item t))
    {items : List Value} (hitems : ∀ item ∈ items, p.Admits item) (kept : List Value)
    (hmeasured : (Value.list kept.reverse).IsMeasured) {s t : State} (h : s.Abreast p out t)
    (hkept : t.scope.get? out = some (.list kept.reverse)) :
    Gathered p out (gather turn items (Value.weights kept.reverse) kept.length kept s)
      (runLoop turn' items t) := by
  induction items generalizing kept s t with
  | nil => exact ⟨rfl, h, hkept, hmeasured⟩
  | cons item items ih =>
    obtain ⟨hitem, hitems⟩ := List.forall_mem_cons.mp hitems
    have hfirst := hturn item hitem kept.reverse s t h hkept
    rcases hresult : turn item s with ⟨_ | value, s'⟩ | ⟨e, s'⟩ <;>
      rcases hresult' : turn' item t with ⟨flow, t'⟩ | ⟨e', t'⟩ <;>
      rw [hresult, hresult'] at hfirst
    · -- the condition does not hold
      obtain ⟨rfl, habreast, hkept'⟩ := hfirst
      unfold gather runLoop
      rw [bind_of_ok hresult, bind_of_ok hresult']
      exact ih hitems kept hmeasured habreast hkept'
    · exact hfirst.elim
    · obtain ⟨rfl, habreast, hkept', hmeasured'⟩ := hfirst
      rw [gather_some hresult hmeasured']
      unfold runLoop
      rw [bind_of_ok hresult']
      rw [← List.reverse_cons] at hkept' hmeasured'
      exact ih hitems (value :: kept) hmeasured' habreast hkept'
    · -- the loop stops here, and the list of the comprehension cannot be measured any more
      have hloop : runLoop turn' (item :: items) t = .error e' t' := by
        unfold runLoop
        exact eval_bind_error hresult'
      rw [hloop]
      rcases hgather : gather turn (item :: items) (Value.weights kept.reverse) kept.length kept s
        with ⟨values, s''⟩ | ⟨e, s''⟩
      · exact gather_crowded hresult hfirst hgather
      · exact trivial
    · exact hfirst.elim
    · unfold gather runLoop
      rw [eval_bind_error hresult, eval_bind_error hresult']
      exact trivial

end Gathering

/-! ## The statements -/

/-- `out = []`, and the loop that appends the elements. -/
def appendLoop (first second outer inner : Nat) (out : String) (element : Expr)
    (targets : List String) (source : Expr) (condition : Option Expr) : List Statement :=
  [.at first (.assign (.name out) (.list [])),
    .at second (.loop targets source (appendBlock outer inner out element condition))]

theorem exec_assign_target (c : Context) (line : Nat) (target : Target) (e : Expr) (s : State) :
    exec c (.at line (.assign target e)) s =
      match eval c e { s with line := line } with
      | .ok value t => (assign c target value >>= fun _ => pure .next) t
      | .error e t => .error e t := by
  unfold exec execAction
  change EStateM.bind (eval c e) _ { s with line := line } = _
  unfold EStateM.bind
  cases eval c e { s with line := line } <;> rfl

theorem exec_assign (c : Context) (line : Nat) (name : String) (e : Expr) (s : State) :
    exec c (.at line (.assign (.name name) e)) s =
      match eval c e { s with line := line } with
      | .ok value t => .ok .next (t.store name value)
      | .error e t => .error e t := by
  rw [exec_assign_target]
  cases eval c e { s with line := line } <;> rfl

theorem execBlock_appendLoop (c : Context) (first second outer inner : Nat) (out : String)
    (element : Expr) (targets : List String) (source : Expr) (condition : Option Expr)
    (s : State) :
    execBlock c (appendLoop first second outer inner out element targets source condition) s =
      exec c (.at second (.loop targets source (appendBlock outer inner out element condition)))
        ({ s with line := first }.store out (.list [])) := by
  have hempty : eval c (.list []) { s with line := first } =
      .ok (.list []) { s with line := first } := by
    rw [eval.eq_def]
    rfl
  have hfirst := exec_assign c first out (.list []) s
  rw [hempty] at hfirst
  unfold appendLoop
  rw [execBlock, bind_of_ok hfirst]
  dsimp only
  rw [execBlock_single]

theorem bounded_apply (v : Value) (s : State) :
    Eval.bounded v s = match v.measure with
      | .ok _ => .ok v s
      | .error fault => Eval.fault fault s := by
  unfold Eval.bounded Value.bounded
  cases v.measure <;> rfl

section Comprehension

variable {c : Context} {element source : Expr} {targets : List String} {condition : Option Expr}
  {items values : List Value} {s t u : State}

/-- A comprehension whose source has been evaluated. -/
theorem eval_comprehension_of_source (hsource : sourceItems c source s = .ok items t) :
    eval c (.comprehension element targets source condition) s =
      match gather (comprehensionTurn c element targets condition) items 0 0 [] t with
      | .ok values u => Eval.bounded (.list values)
        (Eval.Leads.restored (targets.map fun name => (name, t.scope.get? name)) u)
      | .error e u => .error e
        (Eval.Leads.restored (targets.map fun name => (name, t.scope.get? name)) u) := by
  rw [eval_comprehension, bind_of_ok hsource]
  change EStateM.bind (Eval.restoring targets _) _ t = _
  unfold EStateM.bind Eval.restoring
  dsimp only
  cases gather (comprehensionTurn c element targets condition) items 0 0 [] t <;> rfl

variable {line : Nat} {v : String}

theorem exec_comprehension_gathered
    (hsource : sourceItems c source { s with line := line } = .ok items t)
    (hgather : gather (comprehensionTurn c element targets condition) items 0 0 [] t =
      .ok values u) (hmeasured : (Value.list values).IsMeasured) :
    exec c (.at line (.assign (.name v) (.comprehension element targets source condition))) s =
      .ok .next ((Eval.Leads.restored (targets.map fun name => (name, t.scope.get? name)) u).store v
        (.list values)) := by
  rw [exec_assign, eval_comprehension_of_source hsource, hgather]
  dsimp only
  rw [bounded_apply, Value.measure_eq_ok hmeasured]

theorem exec_comprehension_crowded
    (hsource : sourceItems c source { s with line := line } = .ok items t)
    (hgather : gather (comprehensionTurn c element targets condition) items 0 0 [] t =
      .ok values u) (hcrowded : ¬ (Value.list values).IsMeasured) :
    ∃ e w, exec c (.at line (.assign (.name v)
      (.comprehension element targets source condition))) s = .error e w := by
  rw [exec_assign, eval_comprehension_of_source hsource, hgather]
  dsimp only
  rw [bounded_apply]
  cases hmeasure : (Value.list values).measure with
  | error fault => exact ⟨_, _, rfl⟩
  | ok n => exact (hcrowded ⟨n, hmeasure⟩).elim

theorem exec_comprehension_error {e : EvalError}
    (hsource : sourceItems c source { s with line := line } = .ok items t)
    (hgather : gather (comprehensionTurn c element targets condition) items 0 0 [] t =
      .error e u) :
    ∃ w, exec c (.at line (.assign (.name v)
      (.comprehension element targets source condition))) s = .error e w := by
  rw [exec_assign, eval_comprehension_of_source hsource, hgather]
  exact ⟨_, rfl⟩

end Comprehension

/-- What the two ways to make a list come to: `v` and `out` have the same items, all variables but
    these and the targets are the same, and so are the declarations. -/
def Unrolled (v out : String) (targets : List String) :
    (result result' : EStateM.Result EvalError State Flow) → Prop
  | .ok flow s, .ok flow' t => flow = .next ∧ flow' = .next ∧
    (∃ items, s.scope.get? v = some (.list items) ∧ t.scope.get? out = some (.list items)) ∧
    s.Coincide (fun name => name = v ∨ name = out ∨ name ∈ targets) t
  | .error _ _, .error _ _ => True
  | _, _ => False

theorem abreast_start {p : Policy} {out : String} (hout : ∀ name, p.names name → name ≠ out)
    {s : State} (hs : s.Obeys p.rule) (line first second : Nat) :
    State.Abreast p out { s with line := line }
      { ({ s with line := first }.store out (.list [])) with line := second } := by
  have hempty : p.names out → p.Admits (.list []) := fun hname => absurd rfl (hout out hname)
  have hobeys {n : Nat} : State.Obeys p.rule { s with line := n } :=
    ⟨hs.globals, hs.frames, hs.declared⟩
  have hcoincide : State.Coincide (· = out) { s with line := line } { s with line := first } :=
    ⟨.refl _, (State.Coincide.refl s).frames, rfl⟩
  exact State.Abreast.onLine ⟨hobeys, hobeys.store hempty, hcoincide.store_right rfl _⟩ second

/-- The results of the turns make those of the statements. -/
theorem Gathered.unrolled {p : Policy} {c : Context} {element source : Expr}
    {condition : Option Expr} {targets : List String} {out : String} {s s' : State}
    {items : List Value} {line : Nat}
    (hsource : sourceItems c source { s with line := line } = .ok items s')
    {result : EStateM.Result EvalError State Flow}
    (h : Gathered p out (gather (comprehensionTurn c element targets condition) items 0 0 [] s')
      result) (v : String) :
    Unrolled v out targets
      (exec c (.at line (.assign (.name v) (.comprehension element targets source condition))) s)
      result := by
  rcases hgather : gather (comprehensionTurn c element targets condition) items 0 0 [] s' with
    ⟨values, u⟩ | ⟨e, u⟩ <;> rw [hgather] at h
  · cases result with
    | ok flow t =>
      obtain ⟨rfl, habreast, hvalues, hmeasured⟩ := h
      rw [exec_comprehension_gathered hsource hgather hmeasured]
      refine ⟨rfl, rfl, ⟨values, State.get?_store _ v _, hvalues⟩, ?_⟩
      -- the targets are bound again after the comprehension and not after the loop
      have hcoincide : t.Coincide (fun name => name = v ∨ name = out ∨ name ∈ targets) u :=
        habreast.coincide.symm.mono fun name hname => Or.inr (Or.inl hname)
      have htargets : ∀ row ∈ targets.map fun name => (name, s'.scope.get? name),
          row.1 = v ∨ row.1 = out ∨ row.1 ∈ targets :=
        List.forall_mem_map.mpr fun name hname => Or.inr (Or.inr hname)
      exact ((hcoincide.restored_right htargets).store_right (Or.inl rfl) _).symm
    | error e t =>
      obtain ⟨e', w, hexec⟩ := exec_comprehension_crowded (v := v) hsource hgather h
      rw [hexec]
      exact trivial
  · cases result with
    | ok flow t => exact h.elim
    | error e' t =>
      obtain ⟨w, hexec⟩ := exec_comprehension_error (v := v) hsource hgather
      rw [hexec]
      exact trivial

theorem comprehension_unrolled {p : Policy} (hp : p.Lawful) {out : String}
    (hout : ∀ name, p.names name → name ≠ out) (setting : Setting) (pending : Nat)
    {element source : Expr} {condition : Option Expr} {targets : List String}
    (helement : element.All p.Reads) (hsource : source.All p.Reads)
    (hcondition : ∀ e ∈ condition, e.All p.Reads) (htargets : out ∉ targets) (v : String)
    (line first second outer inner : Nat) {s : State} (hs : s.Obeys p.rule) :
    Unrolled v out targets
      (execBlock ⟨setting, invoke setting pending⟩
        [.at line (.assign (.name v) (.comprehension element targets source condition))] s)
      (execBlock ⟨setting, invoke setting pending⟩
        (appendLoop first second outer inner out element targets source condition) s) := by
  rw [execBlock_single, execBlock_appendLoop, exec_loop]
  change Unrolled v out targets _ ((sourceItems ⟨setting, invoke setting pending⟩ source >>= _)
    { ({ s with line := first }.store out (.list [])) with line := second })
  have hlist : Scope.get? (State.scope { ({ s with line := first }.store out (.list [])) with
      line := second }) out = some (.list []) := State.get?_store { s with line := first } out _
  obtain ⟨items, s', t', hitems, hitems', hadmits, habreast, hspares⟩ |
    ⟨e, s', e', t', hitems, hitems'⟩ := (sourceItems_paired hp hout setting pending hsource
      (abreast_start hout hs line first second)).ok_or_error
  · rw [bind_of_ok hitems']
    have hlist' : t'.scope.get? out = some (.list []) := (hspares.scope id).trans hlist
    refine Gathered.unrolled hitems (gather_gathered (fun item hitem kept s t h hkept => ?_)
      hadmits [] ⟨1, rfl⟩ habreast hlist') v
    exact turn_turned hp hout setting pending helement htargets hcondition outer inner hitem h hkept
  · rw [exec_assign, eval_comprehension, eval_bind_error hitems, eval_bind_error hitems']
    exact trivial

/-! ## Any state -/

/-- What can be reached in a state is admitted in the cleared one. -/
theorem State.obeys_cleared (s : State) (es : List Expr) :
    s.cleared.Obeys (Policy.reading (s.Reaches es)).rule := by
  refine ⟨fun row hrow hname => Policy.reading_reached (Or.inl hrow) hname, fun frame hframe => ?_,
    List.forall_mem_nil _⟩
  rcases List.mem_append.mp hframe with hframe | hframe
  · refine fun row hrow hname => Policy.reading_reached (Or.inr ?_) hname
    unfold State.scope
    cases hframes : s.frames with
    | nil =>
      rw [hframes] at hframe
      cases hframe
    | cons frame' frames =>
      rw [hframes] at hframe
      obtain rfl : frame = frame' := List.mem_singleton.mp hframe
      exact hrow
  · obtain ⟨frame', -, rfl⟩ := List.mem_map.mp hframe
    exact Scope.obeys_nil

/-- What two blocks come to in a cleared state they come to in the state itself. -/
theorem Unrolled.completes {v out : String} {targets : List String} {s : State}
    {result result' full full' : EStateM.Result EvalError State Flow}
    (h : Unrolled v out targets result result') (hfull : Completes s result full)
    (hfull' : Completes s result' full') : Unrolled v out targets full full' := by
  have hframes (frames : List Scope) : frames = frames.head?.toList ++ frames.tail := by
    cases frames <;> rfl
  have hscope {t u : State} (hglobals : t.globals = u.globals)
      (hhead : t.frames.head? = u.frames.head?) : t.scope = u.scope := by
    unfold State.scope
    rw [List.headD_eq_head?_getD, List.headD_eq_head?_getD, hhead, hglobals]
  rcases result with ⟨flow, u⟩ | ⟨e, u⟩ <;> rcases result' with ⟨flow', u'⟩ | ⟨e', u'⟩ <;>
    rcases full with ⟨_, t⟩ | ⟨_, t⟩ <;> rcases full' with ⟨_, t'⟩ | ⟨_, t'⟩ <;>
    first | exact h.elim | exact hfull.elim | exact hfull'.elim | skip
  · obtain ⟨rfl, hglobals, -, hhead, htail, hdeclared⟩ := hfull
    obtain ⟨rfl, hglobals', -, hhead', htail', hdeclared'⟩ := hfull'
    obtain ⟨rfl, rfl, ⟨items, hv, hout⟩, hcoincide⟩ := h
    refine ⟨rfl, rfl, ⟨items, ?_, ?_⟩, ?_, ?_, ?_⟩
    · rwa [hscope hglobals hhead]
    · rwa [hscope hglobals' hhead']
    · rw [hglobals, hglobals']
      exact hcoincide.globals
    · rw [hframes t.frames, hframes t'.frames, hhead, hhead', htail, htail']
      refine List.rel_append ?_ (List.forall₂_same.mpr fun frame _ => .refl frame)
      have hheads := hcoincide.frames
      generalize u.frames = frames, u'.frames = frames' at hheads
      cases hheads with
      | nil => exact .nil
      | cons hhead _ => exact .cons hhead .nil
    · rw [hdeclared, hdeclared', List.map_append, List.map_append, hcoincide.declared]
  · exact trivial

/-- **Comprehensions are loops.** Let the variable `out` not be a target, and let the element, the
    source and the condition of a comprehension not reach it. Then `v = [e for T in it if c]`
    succeeds just if `out = []` and the loop that appends the elements to `out` succeeds, whatever
    the state, the calls in progress and the lines; `v` and `out` are then the same list, and but
    for `v`, `out` and the targets the variables are the same in all scopes, and so are the
    declarations. -/
theorem comprehension_loops (setting : Setting) (pending : Nat) {element source : Expr}
    {condition : Option Expr} {targets : List String} {out : String} {s : State}
    (htargets : out ∉ targets)
    (hreach : ¬ s.Reaches (element :: source :: condition.toList) out) (v : String)
    (line first second outer inner : Nat) :
    Unrolled v out targets
      (execBlock ⟨setting, invoke setting pending⟩
        [.at line (.assign (.name v) (.comprehension element targets source condition))] s)
      (execBlock ⟨setting, invoke setting pending⟩
        (appendLoop first second outer inner out element targets source condition) s) := by
  have hreads {e : Expr} (he : e ∈ element :: source :: condition.toList) :
      e.All (Policy.reading (s.Reaches (element :: source :: condition.toList))).Reads :=
    Policy.all_reads fun name hname => .here he hname
  have hcondition : ∀ e ∈ condition,
      e.All (Policy.reading (s.Reaches (element :: source :: condition.toList))).Reads :=
    fun e he => hreads (List.mem_cons_of_mem _ (List.mem_cons_of_mem _ (Option.mem_toList.mpr he)))
  have hout : ∀ name, s.Reaches (element :: source :: condition.toList) name → name ≠ out := by
    rintro name hname rfl
    exact hreach hname
  have hunrolled := comprehension_unrolled (Policy.reading_lawful _) hout setting pending
    (hreads List.mem_cons_self)
    (hreads (List.mem_cons_of_mem _ List.mem_cons_self)) hcondition htargets v line first second
    outer inner (s.obeys_cleared _)
  exact hunrolled.completes (execBlock_completes setting pending _ s)
    (execBlock_completes setting pending _ s)

/-- `v = [x for x in (1, 0) if x]`, and the loop with `out`. -/
theorem comprehension_loops_truthy :
    "out" ∉ ["x"] ∧
    ¬ (State.start []).Reaches [.name "x", .tuple [.int 1, .int 0], .name "x"] "out" ∧
    Unrolled "v" "out" ["x"]
      (execBlock ⟨⟨"/repo", 20, ""⟩, invoke ⟨"/repo", 20, ""⟩ 1⟩
        [.at 1 (.assign (.name "v")
          (.comprehension (.name "x") ["x"] (.tuple [.int 1, .int 0]) (some (.name "x"))))]
        (.start []))
      (execBlock ⟨⟨"/repo", 20, ""⟩, invoke ⟨"/repo", 20, ""⟩ 1⟩
        (appendLoop 1 2 3 4 "out" (.name "x") ["x"] (.tuple [.int 1, .int 0]) (some (.name "x")))
        (.start [])) := by
  have htargets : "out" ∉ ["x"] := by decide
  have hleaf {e : Expr} (hparts : e.parts = []) {name : String} (h : (Expr.name name).Within e) :
      e = .name name := by
    cases h with
    | self => rfl
    | part hpart =>
      rw [hparts] at hpart
      cases hpart
  have hx : ¬ (Expr.name "out").Within (.name "x") := by
    intro h
    have hout := hleaf rfl h
    simp at hout
  have hpair : ¬ (Expr.name "out").Within (.tuple [.int 1, .int 0]) := by
    rintro (_ | ⟨hpart, hname⟩)
    simp only [Expr.parts, List.map_cons, List.map_nil, List.mem_cons, List.not_mem_nil,
      or_false] at hpart
    rcases hpart with rfl | rfl <;> cases hleaf rfl hname
  have hreach :
      ¬ (State.start []).Reaches [.name "x", .tuple [.int 1, .int 0], .name "x"] "out" := by
    intro h
    cases h with
    | through _ hvalue => rcases hvalue with hvalue | hvalue <;> cases hvalue
    | here he hname =>
      simp only [List.mem_cons, List.not_mem_nil, or_false] at he
      rcases he with rfl | rfl | rfl
      · exact hx hname
      · exact hpair hname
      · exact hx hname
  exact ⟨htargets, hreach, comprehension_loops _ 1 htargets hreach "v" 1 1 2 3 4⟩

end Monorepo.Script
