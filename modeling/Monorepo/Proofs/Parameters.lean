import Mathlib.Data.List.Nodup
import Monorepo.Proofs.Frames

/-!
# How a call fills its parameters

A call goes through the parameters in order: each takes the next argument by position, else the one
of its name, else its default, which is evaluated then and there. So it makes no difference whether
the later arguments are passed by position or by name, nor in which order they are named. A call
that does not fit the parameters ends before the body is looked at; all that it can have done is to
evaluate the defaults of earlier parameters.
-/

namespace Monorepo.Script

/-! ## Arguments by name -/

namespace Keywords

variable {keywords : Keywords} {name : String} {value : Value}

theorem mem_of_get? (h : keywords.get? name = some value) : (name, value) ∈ keywords := by
  obtain ⟨row, hfind, rfl⟩ := Option.map_eq_some_iff.mp h
  have hname : (row.1 == name) = true :=
    List.find?_some (p := fun row : String × Value => row.1 == name) hfind
  rw [← beq_iff_eq.mp hname]
  exact List.mem_of_find?_eq_some hfind

theorem get?_eq_none_iff : keywords.get? name = none ↔ ∀ row ∈ keywords, row.1 ≠ name := by
  unfold get?
  rw [Option.map_eq_none_iff, List.find?_eq_none]
  exact forall₂_congr fun row _ => not_congr beq_iff_eq

/-- Among different names the order does not matter. -/
theorem get?_eq_some_of_mem (hnodup : (keywords.map (·.1)).Nodup) (h : (name, value) ∈ keywords) :
    keywords.get? name = some value := by
  cases hget : keywords.get? name with
  | none => exact absurd rfl (get?_eq_none_iff.mp hget _ h)
  | some found =>
    have hrow := List.inj_on_of_nodup_map hnodup (mem_of_get? hget) h rfl
    exact congrArg (fun row => some row.2) hrow

end Keywords

/-! ## Filling the parameters -/

section Binding

variable (c : Context) (function : String) {keywords : Keywords} {parameter : Parameter}
  {parameters : List Parameter} {arguments : List Value} {value : Value} {frame : Scope}

theorem bindParameters_by_position (h : keywords.get? parameter.name = none) :
    bindParameters c function keywords (parameter :: parameters) (value :: arguments) frame =
      bindParameters c function keywords parameters arguments (frame.set parameter.name value) := by
  rw [bindParameters, h]
  rfl

theorem bindParameters_by_name (h : keywords.get? parameter.name = some value) :
    bindParameters c function keywords (parameter :: parameters) [] frame =
      bindParameters c function keywords parameters [] (frame.set parameter.name value) := by
  rw [bindParameters, h]
  rfl

theorem bindParameters_by_default (h : keywords.get? parameter.name = none) :
    bindParameters c function keywords (parameter :: parameters) [] frame =
      ((match parameter.default with
        | some e => eval c e
        | none => Eval.fault (.missingArgument function parameter.name)) >>= fun value =>
      bindParameters c function keywords parameters [] (frame.set parameter.name value)) := by
  rw [bindParameters, h]
  cases parameter.default <;> rfl

/-- Parameters filled by name are filled as by position. -/
theorem bindParameters_named (parameters : List Parameter) (values : List Value) (frame : Scope)
    (h : ∀ (i : Nat) (p : Parameter), parameters[i]? = some p → keywords.get? p.name = values[i]?) :
    bindParameters c function keywords parameters [] frame =
      bindParameters c function [] parameters values frame := by
  induction parameters generalizing values frame with
  | nil => rfl
  | cons parameter parameters ih =>
    have hfirst := h 0 parameter rfl
    cases values with
    | nil =>
      rw [bindParameters_by_default c function hfirst, bindParameters_by_default c function rfl]
      refine bind_congr fun value => ih [] _ fun i p hp => ?_
      exact h (i + 1) p hp
    | cons value values =>
      rw [bindParameters_by_name c function hfirst, bindParameters_by_position c function rfl]
      exact ih values _ fun i p hp => h (i + 1) p hp

/-- Behind arguments by position the parameters can be filled by name. -/
theorem bindParameters_behind {before behind : List Parameter} {first rest : List Value}
    (hlength : before.length = first.length) (hnone : ∀ p ∈ before, keywords.get? p.name = none)
    (hbehind : ∀ (i : Nat) (p : Parameter), behind[i]? = some p → keywords.get? p.name = rest[i]?) :
    bindParameters c function keywords (before ++ behind) first frame =
      bindParameters c function [] (before ++ behind) (first ++ rest) frame := by
  induction before generalizing first frame with
  | nil =>
    obtain rfl := List.length_eq_zero_iff.mp hlength.symm
    exact bindParameters_named c function behind rest frame hbehind
  | cons parameter before ih =>
    obtain ⟨value, first, rfl⟩ := List.exists_cons_of_length_eq_add_one hlength.symm
    obtain ⟨hparameter, hbefore⟩ := List.forall_mem_cons.mp hnone
    rw [List.cons_append, List.cons_append, bindParameters_by_position c function hparameter,
      bindParameters_by_position c function rfl]
    exact ih (Nat.succ.inj hlength) hbefore

/-- A parameter cannot be filled by position and by name. -/
theorem bindParameters_repeated
    (h : ∃ p ∈ parameters.take arguments.length, keywords.get? p.name ≠ none) :
    ∃ fault, ∀ frame,
      bindParameters c function keywords parameters arguments frame = Eval.fault fault := by
  induction parameters generalizing arguments with
  | nil =>
    obtain ⟨p, hp, -⟩ := h
    rw [List.take_nil] at hp
    cases hp
  | cons parameter parameters ih =>
    obtain ⟨p, hp, hkeyword⟩ := h
    cases arguments with
    | nil => cases hp
    | cons value arguments =>
      cases hget : keywords.get? parameter.name with
      | some other =>
        refine ⟨.repeatedArgument function parameter.name, fun frame => ?_⟩
        rw [bindParameters, hget]
        rfl
      | none =>
        have hlater : p ∈ parameters.take arguments.length := by
          rcases List.mem_cons.mp hp with rfl | hlater
          · exact absurd hget hkeyword
          · exact hlater
        obtain ⟨fault, hfault⟩ := ih ⟨p, hlater, hkeyword⟩
        refine ⟨fault, fun frame => ?_⟩
        rw [bindParameters_by_position c function hget]
        exact hfault _

theorem endState_evalAll_cons (e : Expr) (es : List Expr) (s : State) :
    endState (evalAll c (e :: es) s) = match eval c e s with
      | .ok _ t => endState (evalAll c es t)
      | .error _ t => t := by
  rw [evalAll, Eval.endState_bind]
  cases eval c e s with
  | error e t => rfl
  | ok value t =>
    dsimp only
    rw [Eval.endState_bind]
    cases evalAll c es t <;> rfl

/-- A parameter that nothing fills ends the call once defaults of earlier ones are evaluated. -/
theorem bindParameters_missing {i : Nat} {p : Parameter} (frame : Scope) (s : State)
    (hi : arguments.length ≤ i) (hp : parameters[i]? = some p) (hdefault : p.default = none)
    (hkeyword : keywords.get? p.name = none) :
    ∃ e, ∃ defaults, defaults <+: neededDefaults (parameters.take i) arguments keywords ∧
      bindParameters c function keywords parameters arguments frame s =
        .error e (endState (evalAll c defaults s)) := by
  induction parameters generalizing i arguments frame s with
  | nil => cases hp
  | cons parameter parameters ih =>
    cases i with
    | zero =>
      obtain rfl := List.length_eq_zero_iff.mp (Nat.le_zero.mp hi)
      obtain rfl : parameter = p := Option.some.inj hp
      refine ⟨⟨s.line, .missingArgument function parameter.name⟩, [], List.nil_prefix, ?_⟩
      rw [bindParameters_by_default c function hkeyword, hdefault]
      rfl
    | succ i =>
      rw [List.take_succ_cons]
      cases hget : keywords.get? parameter.name with
      | some value =>
        cases arguments with
        | nil =>
          have hneeded : neededDefaults (parameter :: parameters.take i) [] keywords =
              neededDefaults (parameters.take i) [] keywords := by
            simp [neededDefaults, hget]
          rw [bindParameters_by_name c function hget, hneeded]
          exact ih _ s (Nat.zero_le i) hp
        | cons argument arguments =>
          refine ⟨⟨s.line, .repeatedArgument function parameter.name⟩, [], List.nil_prefix, ?_⟩
          rw [bindParameters, hget]
          rfl
      | none =>
        cases arguments with
        | cons argument arguments =>
          rw [bindParameters_by_position c function hget]
          exact ih _ s (Nat.le_of_succ_le_succ hi) hp
        | nil =>
          rw [bindParameters_by_default c function hget]
          cases hown : parameter.default with
          | none =>
            exact ⟨⟨s.line, .missingArgument function parameter.name⟩, [], List.nil_prefix, rfl⟩
          | some e =>
            have hneeded : neededDefaults (parameter :: parameters.take i) [] keywords =
                e :: neededDefaults (parameters.take i) [] keywords := by
              simp [neededDefaults, hget, hown]
            have hnone : ([] : List Value).length ≤ i := Nat.zero_le i
            rw [hneeded]
            dsimp only
            cases heval : eval c e s with
            | error e' t =>
              refine ⟨e', [e], (List.prefix_cons_inj e).mpr List.nil_prefix, ?_⟩
              rw [endState_evalAll_cons, heval]
              exact eval_bind_error heval
            | ok value t =>
              obtain ⟨e', defaults, hprefix, hrest⟩ :=
                ih (frame.set parameter.name value) t hnone hp
              refine ⟨e', e :: defaults, (List.prefix_cons_inj e).mpr hprefix, ?_⟩
              rw [endState_evalAll_cons, heval]
              exact (bind_of_ok heval _).trans hrest

end Binding

/-! ## Calls -/

section Calls

variable (c : Context)

/-- The first keyword that names no parameter. -/
def unexpectedKeyword (f : Function) (keywords : Keywords) : Option (String × Value) :=
  keywords.find? fun (name, _) => !f.parameters.any (·.name == name)

theorem unexpectedKeyword_eq_none_iff {f : Function} {keywords : Keywords} :
    unexpectedKeyword f keywords = none ↔
      ∀ row ∈ keywords, ∃ p ∈ f.parameters, p.name = row.1 := by
  unfold unexpectedKeyword
  rw [List.find?_eq_none]
  refine forall₂_congr fun row _ => ?_
  simp

/-- The checks of a call in their order. -/
theorem callFunction_run (f : Function) (arguments : List Value) (keywords : Keywords) (s : State) :
    callFunction c f arguments keywords s =
      if s.frames.length ≥ maxFrames then .error ⟨s.line, .recursion⟩ s
      else if arguments.length > f.parameters.length then
        .error ⟨s.line, .tooManyArguments f.name f.parameters.length arguments.length⟩ s
      else match unexpectedKeyword f keywords with
        | some (name, _) => .error ⟨s.line, .unexpectedKeyword f.name name⟩ s
        | none => (bindParameters c f.name keywords f.parameters arguments [] >>= fun frame =>
            Eval.inFrame frame (execBlock c f.body) >>= Flow.result) s := by
  rw [callFunction_eq_callWith]
  change (if s.frames.length ≥ maxFrames then _ else _ : Eval Value) s = _
  split
  · rfl
  · dsimp only
    split
    · rfl
    · unfold unexpectedKeyword
      generalize keywords.find? _ = unexpected
      cases unexpected <;> rfl

/-- A call either fails its checks or goes on to fill the parameters; the body decides about
    neither. -/
theorem callFunction_checks (f : Function) (arguments : List Value) (keywords : Keywords)
    (s : State) :
    (∃ fault, ∀ body,
      callFunction c { f with body := body } arguments keywords s = .error ⟨s.line, fault⟩ s) ∨
    arguments.length ≤ f.parameters.length ∧
    (∀ row ∈ keywords, ∃ p ∈ f.parameters, p.name = row.1) ∧
    ∀ body, callFunction c { f with body := body } arguments keywords s =
      (bindParameters c f.name keywords f.parameters arguments [] >>= fun frame =>
        Eval.inFrame frame (execBlock c body) >>= Flow.result) s := by
  have hsame (body : List Statement) : unexpectedKeyword { f with body := body } keywords =
    unexpectedKeyword f keywords := rfl
  simp only [callFunction_run, hsame]
  by_cases hheight : s.frames.length ≥ maxFrames
  · exact .inl ⟨.recursion, fun _ => if_pos hheight⟩
  by_cases hmany : arguments.length > f.parameters.length
  · refine .inl ⟨.tooManyArguments f.name f.parameters.length arguments.length, fun _ => ?_⟩
    rw [if_neg hheight, if_pos hmany]
  cases hunexpected : unexpectedKeyword f keywords with
  | some row =>
    refine .inl ⟨.unexpectedKeyword f.name row.1, fun _ => ?_⟩
    rw [if_neg hheight, if_neg hmany]
  | none =>
    refine .inr ⟨Nat.not_lt.mp hmany, unexpectedKeyword_eq_none_iff.mp hunexpected, fun _ => ?_⟩
    rw [if_neg hheight, if_neg hmany]

theorem map_fst_zip_sublist (names : List String) (values : List Value) :
    ((names.zip values).map (·.1)).Sublist names := by
  induction names generalizing values with
  | nil => exact List.Sublist.slnil
  | cons name names ih =>
    cases values with
    | nil => exact List.nil_sublist _
    | cons value values => exact (ih values).cons_cons name

/-- However the rows are ordered, every name finds the value that stands beside it, if one does. -/
theorem get?_of_perm_zip {names : List String} {values : List Value} {keywords : Keywords}
    (hnodup : names.Nodup) (hkeywords : keywords.Perm (names.zip values)) {i : Nat} {name : String}
    (hname : names[i]? = some name) : keywords.get? name = values[i]? := by
  have hrows : (keywords.map (·.1)).Nodup := by
    rw [(hkeywords.map _).nodup_iff]
    exact hnodup.sublist (map_fst_zip_sublist names values)
  cases hvalue : values[i]? with
  | some value =>
    have hrow : (names.zip values)[i]? = some (name, value) :=
      List.getElem?_zip_eq_some.mpr ⟨hname, hvalue⟩
    exact Keywords.get?_eq_some_of_mem hrows (hkeywords.mem_iff.mpr (List.mem_of_getElem? hrow))
  | none =>
    refine Keywords.get?_eq_none_iff.mpr fun row hrow hsame => ?_
    obtain ⟨j, hj⟩ := List.getElem?_of_mem (hkeywords.mem_iff.mp hrow)
    obtain ⟨hother, hfound⟩ := List.getElem?_zip_eq_some.mp hj
    -- both places hold the name, but only one of them has a value
    have hplace : i = j := by
      refine (List.getElem?_inj (List.getElem?_eq_some_iff.mp hname).1 hnodup).mp ?_
      rw [hname, hother, hsame]
    rw [← hplace, hvalue] at hfound
    cases hfound

/-- What is passed by name behind the arguments by position can be passed by position. -/
theorem callFunction_named {f : Function} (hnodup : (f.parameters.map (·.name)).Nodup)
    {first rest : List Value} {keywords : Keywords}
    (hlength : first.length + rest.length ≤ f.parameters.length)
    (hkeywords : keywords.Perm (((f.parameters.drop first.length).map (·.name)).zip rest)) :
    callFunction c f first keywords = callFunction c f (first ++ rest) [] := by
  have hsplit := List.take_append_drop first.length f.parameters
  set before := f.parameters.take first.length with hbefore
  set behind := f.parameters.drop first.length with hbehind
  rw [← hsplit, List.map_append, List.nodup_append] at hnodup
  obtain ⟨-, hnodup, happart⟩ := hnodup
  have hnames (row : String × Value) (hrow : row ∈ keywords) : row.1 ∈ behind.map (·.name) :=
    (List.of_mem_zip (hkeywords.mem_iff.mp hrow)).1
  have hnone : unexpectedKeyword f keywords = none := by
    refine unexpectedKeyword_eq_none_iff.mpr fun row hrow => ?_
    obtain ⟨p, hp, hname⟩ := List.mem_map.mp (hnames row hrow)
    exact ⟨p, List.mem_of_mem_drop hp, hname⟩
  have hbind : bindParameters c f.name keywords f.parameters first [] =
      bindParameters c f.name [] f.parameters (first ++ rest) [] := by
    rw [← hsplit]
    refine bindParameters_behind c f.name ?_ (fun p hp => ?_) fun i p hp => ?_
    · rw [hbefore, List.length_take]
      omega
    · refine Keywords.get?_eq_none_iff.mpr fun row hrow hsame => ?_
      exact happart p.name (List.mem_map_of_mem hp) row.1 (hnames row hrow) hsame.symm
    · refine get?_of_perm_zip hnodup hkeywords ?_
      rw [List.getElem?_map, hp]
      rfl
  have hfirst : ¬ first.length > f.parameters.length := by omega
  have hall : ¬ (first ++ rest).length > f.parameters.length := by
    rw [List.length_append]
    omega
  funext s
  rw [callFunction_run, callFunction_run, if_neg hfirst, if_neg hall, hnone, hbind]
  rfl

end Calls

/-! ## Calls that do not fit -/

section Misfits

variable (setting : Setting) (pending : Nat)

theorem evalAll_frames (es : List Expr) :
    Eval.Frames noNames (evalAll ⟨setting, invoke setting pending⟩ es) := by
  induction es with
  | nil => exact fun s => State.Framed.refl s
  | cons e es ih =>
    rw [evalAll]
    exact (eval_frames setting pending e).bind fun value =>
      ih.bind fun values s => State.Framed.refl s

/-- What does not fit the parameters before any default is needed: a keyword that names none of them
    or one that has an argument by position, or more arguments than there are. -/
def Function.Rejects (f : Function) (arguments : List Value) (keywords : Keywords) : Prop :=
  (∃ row ∈ keywords, ∀ p ∈ f.parameters, p.name ≠ row.1) ∨
  (∃ row ∈ keywords, ∃ p ∈ f.parameters.take arguments.length, p.name = row.1) ∨
  f.parameters.length < arguments.length

/-- The parameter at a place has no default and no argument. -/
def Function.Misses (f : Function) (arguments : List Value) (keywords : Keywords) (i : Nat) :
    Prop :=
  arguments.length ≤ i ∧
    ∃ p, f.parameters[i]? = some p ∧ p.default = none ∧ ∀ row ∈ keywords, row.1 ≠ p.name

theorem callFunction_rejects (c : Context) {f : Function} {arguments : List Value}
    {keywords : Keywords} (h : f.Rejects arguments keywords) (s : State) :
    ∃ fault, ∀ body,
      callFunction c { f with body := body } arguments keywords s = .error ⟨s.line, fault⟩ s := by
  rcases callFunction_checks c f arguments keywords s with hfault | ⟨hlength, hnames, hcall⟩
  · exact hfault
  rcases h with ⟨row, hrow, hunknown⟩ | ⟨row, hrow, p, hp, hname⟩ | hmany
  · obtain ⟨p, hp, hname⟩ := hnames row hrow
    exact absurd hname (hunknown p hp)
  · have hkeyword : keywords.get? p.name ≠ none := fun hnone =>
      Keywords.get?_eq_none_iff.mp hnone row hrow hname.symm
    obtain ⟨fault, hbind⟩ := bindParameters_repeated c f.name ⟨p, hp, hkeyword⟩
    refine ⟨fault, fun body => ?_⟩
    rw [hcall, hbind]
    rfl
  · omega

theorem callFunction_misses (c : Context) {f : Function} {arguments : List Value}
    {keywords : Keywords} {i : Nat} (h : f.Misses arguments keywords i) (s : State) :
    ∃ e, ∃ defaults, defaults <+: neededDefaults (f.parameters.take i) arguments keywords ∧
      ∀ body, callFunction c { f with body := body } arguments keywords s =
        .error e (endState (evalAll c defaults s)) := by
  rcases callFunction_checks c f arguments keywords s with ⟨fault, hfault⟩ | ⟨-, -, hcall⟩
  · exact ⟨⟨s.line, fault⟩, [], List.nil_prefix, hfault⟩
  · obtain ⟨hi, p, hp, hdefault, hkeyword⟩ := h
    obtain ⟨e, defaults, hprefix, hbind⟩ := bindParameters_missing c f.name [] s hi hp
      hdefault (Keywords.get?_eq_none_iff.mpr hkeyword)
    refine ⟨e, defaults, hprefix, fun body => ?_⟩
    rw [hcall]
    exact eval_bind_error hbind

/-- A function whose parameters have different names does the same for arguments by position and for
    the later ones of them passed by name, in any order. What does not fit its parameters is a fault
    whatever the body is: it leaves the state as it is, except that a missing argument shows after
    the defaults that some of the parameters before it need, and these bind no name. -/
theorem arguments_fill_parameters (f : Function) :
    ((f.parameters.map (·.name)).Nodup →
      ∀ (first rest : List Value) (keywords : Keywords),
        first.length + rest.length ≤ f.parameters.length →
        keywords.Perm (((f.parameters.drop first.length).map (·.name)).zip rest) →
        callFunction ⟨setting, invoke setting pending⟩ f first keywords =
          callFunction ⟨setting, invoke setting pending⟩ f (first ++ rest) []) ∧
    ∀ (arguments : List Value) (keywords : Keywords) (s : State),
      (f.Rejects arguments keywords →
        ∃ fault, ∀ body, callFunction ⟨setting, invoke setting pending⟩ { f with body := body }
          arguments keywords s = .error ⟨s.line, fault⟩ s) ∧
      (∀ i, f.Misses arguments keywords i →
        ∃ e, ∃ defaults, defaults <+: neededDefaults (f.parameters.take i) arguments keywords ∧
          let t := endState (evalAll ⟨setting, invoke setting pending⟩ defaults s)
          s.Framed noNames t ∧
          ∀ body, callFunction ⟨setting, invoke setting pending⟩ { f with body := body }
            arguments keywords s = .error e t) := by
  refine ⟨fun hnodup first rest keywords hlength hkeywords => ?_,
    fun arguments keywords s => ⟨fun h => ?_, fun i h => ?_⟩⟩
  · exact callFunction_named _ hnodup hlength hkeywords
  · exact callFunction_rejects _ h s
  · obtain ⟨e, defaults, hprefix, hcall⟩ :=
      callFunction_misses ⟨setting, invoke setting pending⟩ h s
    exact ⟨e, defaults, hprefix, evalAll_frames setting pending defaults s, hcall⟩

/-- `def f(a, b, c): return b`, called as `f(1, c=3, b=2)`, as `f(1, a=2)` and as `f(1, c=3)`. -/
theorem arguments_fill_parameters_three :
    let c : Context := ⟨⟨"", 3, ""⟩, invoke ⟨"", 3, ""⟩ 1⟩
    let f (body : List Statement) : Function :=
      ⟨1, "f", [⟨"a", none⟩, ⟨"b", none⟩, ⟨"c", none⟩], body⟩
    let body : List Statement := [.at 2 (.give (some (.name "b")))]
    callFunction c (f body) [.int 1] [("c", .int 3), ("b", .int 2)] =
      callFunction c (f body) [.int 1, .int 2, .int 3] [] ∧
    ((f body).Rejects [.int 1] [("a", .int 2)] ∧ ∃ fault, ∀ body,
      callFunction c (f body) [.int 1] [("a", .int 2)] (.start []) =
        .error ⟨0, fault⟩ (.start [])) ∧
    (f body).Misses [.int 1] [("c", .int 3)] 1 ∧ ∃ e, ∀ body,
      callFunction c (f body) [.int 1] [("c", .int 3)] (.start []) = .error e (.start []) := by
  intro c f body
  have hrejects : (f body).Rejects [.int 1] [("a", .int 2)] :=
    .inr (.inl ⟨("a", .int 2), List.mem_singleton_self _, ⟨"a", none⟩, List.mem_cons_self, rfl⟩)
  have hmisses : (f body).Misses [.int 1] [("c", .int 3)] 1 := by
    refine ⟨Nat.le_refl 1, ⟨"b", none⟩, rfl, rfl, fun row hrow => ?_⟩
    obtain rfl := List.mem_singleton.mp hrow
    decide
  obtain ⟨hnamed, hmisfit⟩ := arguments_fill_parameters ⟨"", 3, ""⟩ 1 (f body)
  obtain ⟨fault, hfault⟩ := (hmisfit _ _ (.start [])).1 hrejects
  obtain ⟨e, defaults, hdefaults, -, he⟩ := (hmisfit _ _ (.start [])).2 1 hmisses
  -- no parameter has a default
  obtain rfl : defaults = [] := List.prefix_nil.mp hdefaults
  refine ⟨?_, ⟨hrejects, fault, hfault⟩, hmisses, e, fun body => ?_⟩
  · exact hnamed (by decide) [.int 1] [.int 2, .int 3] _ (by decide) (.swap _ _ _)
  · have hstart : endState (evalAll c [] (.start [])) = .start [] := by
      rw [evalAll]
      rfl
    rw [hstart] at he
    exact he body

end Misfits

end Monorepo.Script
