import Monorepo.Proofs.Blocks
import Monorepo.Proofs.Frames
import Monorepo.Proofs.LiteralTokens
import Monorepo.Sandbox

/-!
# Reading written values back

The line that binds a variable to a written value is read as an assignment of its literal. A literal
takes a unit of room for each level of its nesting and one for a sign, whatever its length. Its
evaluation depends on nothing, and gives back the value itself just if all texts in it are plain: a
container has its parts in order, a dictionary one entry for each key that was written.
-/

namespace Monorepo.Script

open Monorepo.Script.Parser

/-! ## Reading -/

namespace Inner

variable (tokens room : Nat)

theorem test_ofRoom : (ofRoom tokens (room + 1)).test = conditional (ofRoom tokens room) := by
  cases tokens <;> rfl

theorem factor_ofRoom : (ofRoom tokens (room + 1)).factor = Script.factor (ofRoom tokens room) := by
  cases tokens <;> rfl

end Inner

section Reading

variable {inner : Inner}

/-- An atom is read at all levels below it. -/
theorem reads_atom {e : Expr} (he : e.Spellable) (hlevel : e.level = 9)
    (h : Reads (atom inner) (fun _ => True) e.body e) {asked : Nat} (hasked : asked ≤ 9) :
    Reads (parserAt inner asked) (Stops asked) e.body e := by
  have hown : Reads (parserAt inner e.level) (Stops e.level) e.body e := by
    intro c rest hc _
    rw [hlevel]
    exact h c rest hc trivial
  exact Expr.reads_of_le he (by rw [hlevel]; exact hasked) hown

/-- A minus and a number behind it. -/
theorem reads_negative {closer : Inner} (hfactor : inner.factor = factor closer) (n : Nat) :
    Reads (factor inner) (Stops 7) (Value.int (.negSucc n)).literal.body
      (Value.int (.negSucc n)).literal := by
  intro c rest hc hrest
  have hnumber : Reads (atom closer) (fun _ => True) (Expr.int (n + 1)).body (.int (n + 1)) :=
    atom_leaf rfl (atom_token fun _ _ => rfl)
  obtain ⟨mid, hsign, hc⟩ := hc.head
  have hoperand : inner.factor mid = .ok (.int (n + 1), rest) := by
    rw [hfactor]
    exact reads_atom (Value.int (.ofNat (n + 1))).spellable_literal rfl hnumber (by decide) mid rest
      hc hrest
  have hminus : mid.Spells [.int (n + 1)] rest := hc
  rw [factor_sign (by decide) hsign]
  exact bind_run hoperand

/-- A literal is read back with room for its levels and a sign. -/
theorem reads_literal (tokens : Nat) (v : Value) {room : Nat} (hroom : v.height < room) :
    Reads (Inner.ofRoom tokens room).test (Stops 0) v.literal.body v.literal := by
  induction v using Value.induction_parts generalizing room with
  | step v ih =>
    obtain ⟨room, rfl⟩ := Nat.exists_eq_add_one.mpr (Nat.zero_lt_of_lt hroom)
    have hparts : ∀ part ∈ v.parts, Reads (Inner.ofRoom tokens room).test (Stops 0)
        part.literal.body part.literal := by
      intro part hpart
      rw [v.height_eq] at hroom
      have hheight := Value.heights_le_iff.mp (Nat.le_refl _) part hpart
      exact ih part hpart (by omega)
    have hspell : ∀ part ∈ v.parts, part.literal.Spellable :=
      fun part _ => part.spellable_literal
    have hatom (hlevel : v.literal.level = 9)
        (h : Reads (atom (Inner.ofRoom tokens room)) (fun _ => True) v.literal.body v.literal) :
        Reads (conditional (Inner.ofRoom tokens room)) (Stops 0) v.literal.body v.literal :=
      reads_atom v.spellable_literal hlevel h (Nat.zero_le 9)
    rw [Inner.test_ofRoom]
    cases v with
    | list items =>
      refine hatom rfl ?_
      rw [Value.literal, Value.literals_eq]
      exact atom_list (List.forall_mem_map.mpr hparts) (List.forall_mem_map.mpr hspell)
    | tuple items =>
      refine hatom rfl ?_
      rw [Value.literal, Value.literals_eq]
      exact atom_tuple (List.forall_mem_map.mpr hparts) (List.forall_mem_map.mpr hspell)
    | dict entries =>
      have hentries := Value.forall_mem_parts_dict.mp hparts
      refine hatom rfl ?_
      rw [Value.literal, Value.entryLiterals_eq]
      exact atom_dict (List.forall_mem_map.mpr hentries)
        (List.forall_mem_map.mpr fun entry _ => entry.1.spellable_literal)
    | int n =>
      cases n with
      | ofNat n => exact hatom rfl (atom_leaf rfl (atom_token fun _ _ => rfl))
      | negSucc n =>
        obtain ⟨room, rfl⟩ : ∃ r, room = r + 1 :=
          Nat.exists_eq_add_one.mpr (Nat.lt_of_succ_lt_succ hroom)
        have hnegative := reads_negative (Inner.factor_ofRoom tokens room) n
        exact Expr.reads_of_le (Value.int (.negSucc n)).spellable_literal (Nat.zero_le _) hnegative
    | bool b =>
      refine hatom rfl (atom_leaf rfl (atom_token fun _ _ => ?_))
      cases b <;> rfl
    | _ => exact hatom rfl (atom_leaf rfl (atom_token fun _ _ => rfl))

/-- The line that binds a variable to a written value is read as an assignment. -/
theorem parseTokens_assigned {v : Value} (hheight : v.height < maxNesting) {tokens : List Token}
    (htokens : tokens.map Token.lexeme =
      .name "v" :: .mark .assign :: v.literal.body ++ [.newline, .finish]) :
    ∃ line, parseTokens tokens = .ok [.at line (.assign (.name "v") v.literal)] := by
  cases tokens with
  | nil => cases htokens
  | cons first ahead =>
    have hlength := congrArg List.length htokens
    simp only [List.length_map, List.length_cons, List.length_append, List.length_nil] at hlength
    obtain ⟨position, hspells⟩ := Cursor.Spells.of_map
      (.name "v" :: .mark .assign :: v.literal.body ++ [.newline])
      (show _ = _ ++ [Lexeme.finish] by rw [htokens, List.append_assoc]; rfl)
    obtain ⟨mid, hname, hspells⟩ := hspells.head
    obtain ⟨behind, hassign, hspells⟩ := hspells.head
    obtain ⟨last, hvalue, hnewline⟩ := hspells.split
    have hinner := Inner.roomy_ofRoom (ahead.length + 1) maxNesting
    have htarget := testList_variable hinner ⟨⟨"v", by decide⟩, by decide⟩ hname
      (hassign.stops rfl 0) (hassign.here_ne nofun)
    have hread := reads_literal (ahead.length + 1) v hheight behind last hvalue
      (hnewline.stops rfl 0)
    have hright := testList_run hread (hnewline.here_ne nofun)
    have hstarts : starts 0 first.lexeme = true := by
      rw [show first.lexeme = .name "v" from hname.here]
      rfl
    have haction := expressionAction_assign htarget (fun _ => rfl) hassign hright
      (hnewline.here_ne nofun)
    rw [← simpleAction_of_starts (c := ⟨first, ahead⟩) hstarts] at haction
    have hline := simpleLine_of_action haction hnewline
    have hscript := wholeScript_of_line hline hstarts rfl (by
      simp only [Cursor.tokens, List.length_cons]
      omega)
    refine ⟨first.position.line, ?_⟩
    rw [parseTokens, StateT.run, hscript]
    rfl

end Reading

/-! ## Evaluation -/

namespace Entries

/-- An insertion adds an entry behind the others, or leaves their number as it is. -/
theorem insert_eq_or (entries : Entries) (key value : Value) :
    entries.insert key value = entries ++ [(key, value)] ∨
      (entries.insert key value).length = entries.length := by
  induction entries with
  | nil => exact Or.inl rfl
  | cons entry entries ih =>
    obtain ⟨k, v⟩ := entry
    unfold insert
    by_cases hkey : k.equals key = true
    · rw [if_pos hkey]
      exact Or.inr rfl
    · rw [if_neg hkey]
      rcases ih with ih | ih
      · exact Or.inl (congrArg (List.cons (k, v)) ih)
      · exact Or.inr (congrArg (· + 1) ih)

theorem insert_of_forall_ne {entries : Entries} {key : Value}
    (h : ∀ e ∈ entries, e.1.equals key = false) (value : Value) :
    entries.insert key value = entries ++ [(key, value)] := by
  induction entries with
  | nil => rfl
  | cons entry entries ih =>
    obtain ⟨hentry, hentries⟩ := List.forall_mem_cons.mp h
    unfold insert
    rw [hentry, if_neg Bool.false_ne_true, ih hentries]
    rfl

theorem insertAll_eq_or (done pairs : Entries) :
    done.insertAll pairs = done ++ pairs ∨
      (done.insertAll pairs).length < done.length + pairs.length := by
  induction pairs generalizing done with
  | nil => exact Or.inl (List.append_nil done).symm
  | cons pair pairs ih =>
    obtain ⟨key, value⟩ := pair
    show (done.insert key value).insertAll pairs = _ ∨
      ((done.insert key value).insertAll pairs).length < _
    rw [List.length_cons]
    rcases ih (done.insert key value) with hrest | hrest
    · rcases done.insert_eq_or key value with hfirst | hfirst
      · rw [hrest, hfirst]
        exact Or.inl (List.append_assoc done [(key, value)] pairs)
      · rw [hrest, List.length_append, hfirst]
        exact Or.inr (Nat.lt_succ_self _)
    · have hlength : (done.insert key value).length ≤ done.length + 1 := by
        rcases done.insert_eq_or key value with hfirst | hfirst
        · rw [hfirst, List.length_append, List.length_singleton]
        · omega
      exact Or.inr (by omega)

theorem insertAll_of_pairwise {done pairs : Entries}
    (h : (done ++ pairs).Pairwise fun a b => a.1.equals b.1 = false) :
    done.insertAll pairs = done ++ pairs := by
  induction pairs generalizing done with
  | nil => exact (List.append_nil done).symm
  | cons pair pairs ih =>
    obtain ⟨key, value⟩ := pair
    have hnew : ∀ e ∈ done, e.1.equals key = false := fun e he =>
      (List.pairwise_append.mp h).2.2 e he (key, value) List.mem_cons_self
    show (done.insert key value).insertAll pairs = _
    rw [insert_of_forall_ne hnew, ih (by simpa using h)]
    simp

end Entries

/-- A step that needs nothing of the state and leaves it as it is, and that has a given result just
    if some condition holds. -/
def Yields {α : Type} (step : Eval α) (a : α) (condition : Prop) : Prop :=
  ∃ result : Except EvalFault α, step = Eval.lift result ∧ (result = .ok a ↔ condition)

theorem lift_bind {α β : Type} (result : Except EvalFault α) (f : α → Except EvalFault β) :
    (Eval.lift result >>= fun a => Eval.lift (f a)) = Eval.lift (result.bind f) := by
  cases result <;> rfl

theorem lift_map {α β : Type} (result : Except EvalFault α) (f : α → β) :
    (Eval.lift result >>= fun a => pure (f a)) = Eval.lift (result.map f) := by
  cases result <;> rfl

namespace Yields

variable {α : Type} {step : Eval α} {a : α} {condition : Prop}

theorem value (a : α) (h : condition) : Yields (pure a) a condition :=
  ⟨.ok a, rfl, fun _ => h, fun _ => rfl⟩

/-- What is built of a result is measured. -/
theorem bounded (h : Yields step a condition) (build : α → Value)
    (hbuild : ∀ b, build b = build a → b = a) (hmeasured : (build a).IsMeasured) :
    Yields (step >>= fun b => Eval.bounded (build b)) (build a) condition := by
  obtain ⟨result, rfl, hresult⟩ := h
  refine ⟨result.bind fun b => (build b).bounded, lift_bind result _, ?_⟩
  rw [← hresult]
  constructor
  · intro h
    obtain ⟨b, rfl, hb⟩ := ok_of_bind h
    rw [hbuild b (Value.isMeasured_of_bounded hb).1.symm]
  · rintro rfl
    obtain ⟨n, hn⟩ := hmeasured
    show (build a).measure.map _ = _
    rw [hn]
    rfl

end Yields

section Evaluation

variable (context : Context) {condition : Value → Prop}

/-- Literals are evaluated one after another. -/
theorem yields_all {items : List Value}
    (h : ∀ v ∈ items, Yields (eval context v.literal) v (condition v)) :
    Yields (evalAll context (items.map Value.literal)) items (∀ v ∈ items, condition v) := by
  induction items with
  | nil => exact .value [] (List.forall_mem_nil _)
  | cons v items ih =>
    obtain ⟨hv, hitems⟩ := List.forall_mem_cons.mp h
    obtain ⟨first, hfirst, hcondition⟩ := hv
    obtain ⟨rest, hrest, hconditions⟩ := ih hitems
    refine ⟨first.bind fun w => rest.map (w :: ·), ?_, ?_⟩
    · rw [List.map_cons, evalAll, hfirst, hrest]
      simp only [lift_map]
      exact lift_bind first _
    · rw [List.forall_mem_cons, ← hcondition, ← hconditions]
      constructor
      · intro hboth
        obtain ⟨w, rfl, hbehind⟩ := ok_of_bind hboth
        obtain ⟨ws, rfl, hcons⟩ := ok_of_map hbehind
        obtain ⟨rfl, rfl⟩ := List.cons.inj hcons
        exact ⟨rfl, rfl⟩
      · rintro ⟨rfl, rfl⟩
        rfl

/-- The literals of entries are evaluated to as many pairs, which are inserted in order. -/
theorem evalEntries_literals {entries : Entries}
    (h : ∀ e ∈ entries, Yields (eval context e.1.literal) e.1 (condition e.1) ∧
      Yields (eval context e.2.literal) e.2 (condition e.2)) :
    ∃ result : Except EvalFault Entries,
      (∀ done, evalEntries context done (entries.map fun e => (e.1.literal, e.2.literal)) =
        Eval.lift (result.map (Entries.insertAll done))) ∧
      (result = .ok entries ↔ ∀ e ∈ entries, condition e.1 ∧ condition e.2) ∧
      ∀ pairs, result = .ok pairs → pairs.length = entries.length := by
  induction entries with
  | nil =>
    refine ⟨.ok [], fun done => rfl, ⟨fun _ => List.forall_mem_nil _, fun _ => rfl⟩, ?_⟩
    rintro pairs ⟨⟩
    rfl
  | cons e entries ih =>
    obtain ⟨⟨hkey, hvalue⟩, hentries⟩ := List.forall_mem_cons.mp h
    obtain ⟨key, hkey, hkeyPlain⟩ := hkey
    obtain ⟨value, hvalue, hvaluePlain⟩ := hvalue
    obtain ⟨rest, hrest, hrestPlain, hlength⟩ := ih hentries
    refine ⟨key.bind fun k => value.bind fun v => rest.map ((k, v) :: ·), fun done => ?_, ?_, ?_⟩
    · rw [List.map_cons, evalEntries, hkey, hvalue]
      simp only [hrest, lift_bind]
      cases key <;> cases value <;> cases rest <;> rfl
    · rw [List.forall_mem_cons, ← hkeyPlain, ← hvaluePlain, ← hrestPlain]
      constructor
      · intro hall
        obtain ⟨k, rfl, hbehind⟩ := ok_of_bind hall
        obtain ⟨v, rfl, hmore⟩ := ok_of_bind hbehind
        obtain ⟨pairs, rfl, hcons⟩ := ok_of_map hmore
        obtain ⟨rfl, rfl⟩ := List.cons.inj hcons
        exact ⟨⟨rfl, rfl⟩, rfl⟩
      · rintro ⟨⟨rfl, rfl⟩, rfl⟩
        rfl
    · intro pairs hall
      obtain ⟨k, rfl, hbehind⟩ := ok_of_bind hall
      obtain ⟨v, rfl, hmore⟩ := ok_of_bind hbehind
      obtain ⟨more, rfl, rfl⟩ := ok_of_map hmore
      exact congrArg (· + 1) (hlength more rfl)

/-- A dictionary comes back just if all its entries do: where two keys are read as one, an entry is
    missing. -/
theorem yields_entries {entries : Entries}
    (hpairwise : entries.Pairwise fun a b => a.1.equals b.1 = false)
    (h : ∀ e ∈ entries, Yields (eval context e.1.literal) e.1 (condition e.1) ∧
      Yields (eval context e.2.literal) e.2 (condition e.2)) :
    Yields (evalEntries context [] (entries.map fun e => (e.1.literal, e.2.literal))) entries
      (∀ e ∈ entries, condition e.1 ∧ condition e.2) := by
  obtain ⟨result, hresult, hplain, hlength⟩ := evalEntries_literals context h
  refine ⟨_, hresult [], ?_⟩
  rw [← hplain]
  constructor
  · intro hinserted
    obtain ⟨pairs, rfl, hpairs⟩ := ok_of_map hinserted
    have hcount := hlength pairs rfl
    rcases Entries.insertAll_eq_or [] pairs with heq | hlt
    · rw [heq] at hpairs
      exact congrArg Except.ok hpairs
    · rw [hpairs, List.length_nil] at hlt
      omega
  · rintro rfl
    have hinserted : Entries.insertAll [] entries = entries :=
      Entries.insertAll_of_pairwise hpairwise
    exact congrArg Except.ok hinserted

/-- The sign of a number is applied to it. -/
theorem eval_negative {n : Nat} (h : Decimal.minInt64 < Int.negSucc n)
    (hmeasured : (Value.int (.negSucc n)).IsMeasured) :
    eval context (Value.int (.negSucc n)).literal = pure (.int (.negSucc n)) := by
  obtain ⟨size, hsize⟩ := hmeasured
  have hmin : Decimal.minInt64 = -0x8000000000000000 := rfl
  have hmax : Decimal.maxInt64 = 0x7FFFFFFFFFFFFFFF := rfl
  have hneg : -((n + 1 : Nat) : Int) = .negSucc n := (Int.negSucc_eq n).symm
  have hfits : Decimal.int64? (-((n + 1 : Nat) : Int)) = some (.negSucc n) := by
    rw [hneg, Decimal.int64?, if_pos ⟨by omega, by omega⟩]
  have hsign : applyUnary .minus (.int ((n + 1 : Nat) : Int)) = .ok (.int (.negSucc n)) := by
    have hminus (k : Int) : applyUnary .minus (.int k) = (checkInt (-k)).map .int := rfl
    rw [hminus, checkInt, hfits]
    rfl
  have hbounded : (Value.int (.negSucc n)).bounded = .ok (.int (.negSucc n)) := by
    rw [Value.bounded, hsize]
    rfl
  have hoperand : eval context (.int (n + 1)) = pure (.int ((n + 1 : Nat) : Int)) := by
    rw [eval]
  have hlast := lift_bind (.ok (.int (.negSucc n))) Value.bounded
  rw [Value.literal, eval, hoperand, pure_bind, hsign]
  refine hlast.trans ?_
  rw [Except.bind, hbounded]
  rfl

/-- **A literal yields the value that was written** just if all texts in the value are plain. -/
theorem yields_literal {v : Value} (hv : v.All Value.HasLiteral) (hmeasured : v.IsMeasured) :
    Yields (eval context v.literal) v (v.All Value.HasPlainText) := by
  induction v using Value.induction_parts with
  | step v ih =>
    have hparts : ∀ part ∈ v.parts,
        Yields (eval context part.literal) part (part.All Value.HasPlainText) :=
      fun part hpart => ih part hpart (hv.parts part hpart) (hmeasured.part hpart)
    have hself := hv.self
    cases v with
    | none =>
      rw [Value.literal, eval]
      exact .value _ (.leaf trivial rfl)
    | bool b =>
      rw [Value.literal, eval]
      exact .value _ (.leaf trivial rfl)
    | int n =>
      cases n with
      | ofNat n =>
        rw [Value.literal, eval]
        exact .value _ (.leaf trivial rfl)
      | negSucc n =>
        rw [eval_negative context hself.1 hmeasured]
        exact .value _ (.leaf trivial rfl)
    | text s =>
      rw [Value.literal, eval]
      refine ⟨.ok (.text (reread s)), rfl, ?_⟩
      rw [Except.ok.injEq, Value.text.injEq, reread_eq_iff]
      exact ⟨fun hplain => .leaf hplain rfl, fun hplain => hplain.self⟩
    | list items =>
      have hitems := yields_all context (show ∀ v ∈ items, _ from hparts)
      rw [Value.literal, eval, Value.literals_eq, Value.all_iff_parts trivial]
      exact hitems.bounded Value.list (fun b hb => Value.list.inj hb) hmeasured
    | tuple items =>
      have hitems := yields_all context (show ∀ v ∈ items, _ from hparts)
      rw [Value.literal, eval, Value.literals_eq, Value.all_iff_parts trivial]
      exact hitems.bounded Value.tuple (fun b hb => Value.tuple.inj hb) hmeasured
    | dict entries =>
      have hentries := yields_entries context hself (Value.forall_mem_parts_dict.mp hparts)
      rw [Value.literal, eval, Value.entryLiterals_eq, Value.all_iff_parts trivial,
        Value.forall_mem_parts_dict]
      exact hentries.bounded Value.dict (fun b hb => Value.dict.inj hb) hmeasured
    | float | builtin | function | method | stub => exact hself.elim

end Evaluation

end Monorepo.Script

/-! ## Running -/

namespace Monorepo

open Monorepo.Script

namespace Sandbox

variable (sandbox : Sandbox) (path : String)

/-- A script that binds a variable to what needs nothing of its state. -/
theorem run_assigned {e : Expr} {result : Except EvalFault Value}
    (he : eval (sandbox.setting path).context e = Eval.lift result) (line : Nat) (name : String)
    (v : Value) :
    (∃ state, sandbox.run path [.at line (.assign (.name name) e)] = .ok () state ∧
      state.globals.get? name = some v) ↔ result = .ok v := by
  cases result with
  | ok w =>
    have hrun : sandbox.run path [.at line (.assign (.name name) e)] =
        .ok () ({ State.start sandbox.symbols with line := line }.store name w) := by
      rw [run, execScript, execBlock, exec, execAction, he]
      rfl
    have hget : Scope.get? ({ State.start sandbox.symbols with line := line }.store name w).globals
        name = some w := by
      show (Scope.set sandbox.symbols name w).get? name = some w
      rw [Scope.get?_set, if_pos rfl]
    constructor
    · rintro ⟨state, hstate, hv⟩
      rw [hrun] at hstate
      obtain ⟨-, rfl⟩ := EStateM.Result.ok.inj hstate
      rw [hget] at hv
      exact congrArg Except.ok (Option.some.inj hv)
    · intro h
      rw [Except.ok.inj h] at hrun hget
      exact ⟨_, hrun, hget⟩
  | error fault =>
    have hrun : sandbox.run path [.at line (.assign (.name name) e)] =
        .error ⟨line, fault⟩ { State.start sandbox.symbols with line := line } := by
      rw [run, execScript, execBlock, exec, execAction, he]
      rfl
    constructor
    · rintro ⟨state, hstate, -⟩
      rw [hrun] at hstate
      cases hstate
    · intro h
      cases h

/-- **What `repr` writes is read back.** A value made of texts, integers, truth values and
    containers, with fewer levels than there is room for and within the limits of size, is what a
    variable holds after a script has bound it to the written value, just if no text in the value
    holds a control character other than a line break, a tab and a carriage return. A text alone
    is scanned as one token, which is that text in the same case. -/
theorem run_repr :
    (∀ v : Value, v.All Value.HasLiteral → v.height < maxNesting → v.IsMeasured →
      ((∃ script state, parseScript ("v = " ++ v.repr ++ "\n") = .ok script ∧
          sandbox.run path script = .ok () state ∧ state.globals.get? "v" = some v) ↔
        v.All Value.HasPlainText)) ∧
    ∀ s : String, (∃ tokens, tokenize (Value.text s).repr = .ok tokens ∧
      tokens.map Token.lexeme = [.text s, .newline, .finish]) ↔ IsPlain s := by
  constructor
  · intro v hv hheight hmeasured
    obtain ⟨tokens, htokens, hlexemes⟩ := tokenize_assigned hv
    obtain ⟨line, hparse⟩ := parseTokens_assigned hheight hlexemes
    obtain ⟨result, hresult, hplain⟩ :=
      yields_literal (sandbox.setting path).context hv hmeasured
    have hscript : parseScript ("v = " ++ v.repr ++ "\n") =
        .ok [.at line (.assign (.name "v") v.literal)] := by
      rw [parseScript, htokens]
      exact hparse
    rw [← hplain, ← run_assigned sandbox path hresult line "v" v]
    constructor
    · rintro ⟨script, state, hread, hrun, hget⟩
      rw [hscript] at hread
      obtain rfl := Except.ok.inj hread
      exact ⟨state, hrun, hget⟩
    · rintro ⟨state, hrun, hget⟩
      exact ⟨_, state, hscript, hrun, hget⟩
  · intro s
    obtain ⟨tokens, htokens, hlexemes⟩ := tokenize_quoted s
    rw [← reread_eq_iff]
    constructor
    · rintro ⟨others, hothers, htext⟩
      rw [htokens] at hothers
      obtain rfl := Except.ok.inj hothers
      rw [hlexemes] at htext
      exact Lexeme.text.inj (List.cons.inj htext).1
    · intro hplain
      rw [hplain] at hlexemes
      exact ⟨tokens, htokens, hlexemes⟩

/-- An empty text, a number with a sign, a tuple of one item and a quote that needs an escape. -/
def assorted : Value :=
  .dict [(.text "", .tuple [.int (-5)]), (.text "it's", .list [.none])]

theorem run_repr_assorted :
    assorted.All Value.HasLiteral ∧ assorted.height < maxNesting ∧ assorted.IsMeasured ∧
      assorted.All Value.HasPlainText ∧
      ∃ script state, parseScript ("v = " ++ assorted.repr ++ "\n") = .ok script ∧
        (⟨"/repository", 1, []⟩ : Sandbox).run "BUILD" script = .ok () state ∧
          state.globals.get? "v" = some assorted := by
  have hall {P : Value → Prop} (hdict : P assorted) (htuple : P (.tuple [.int (-5)]))
      (hlist : P (.list [.none])) (hleaf : ∀ v ∈ [.text "", .int (-5), .text "it's", .none], P v) :
      assorted.All P := by
    have hatom (v : Value) (hv : v ∈ [.text "", .int (-5), .text "it's", .none])
        (hnone : v.parts = []) : v.All P := .leaf (hleaf v hv) hnone
    refine ⟨hdict, Value.forall_mem_parts_dict.mpr ?_⟩
    refine List.forall_mem_cons.mpr ⟨⟨hatom _ (by simp) rfl, htuple, ?_⟩,
      List.forall_mem_singleton.mpr ⟨hatom _ (by simp) rfl, hlist, ?_⟩⟩
    · exact List.forall_mem_singleton.mpr (hatom _ (by simp) rfl)
    · exact List.forall_mem_singleton.mpr (hatom _ (by simp) rfl)
  have hliteral : assorted.All Value.HasLiteral := by
    refine hall ?_ trivial trivial ?_
    · show List.Pairwise _ _
      exact .cons (List.forall_mem_singleton.mpr rfl) (List.pairwise_singleton _ _)
    · simp only [List.forall_mem_cons]
      exact ⟨trivial, ⟨by decide, by decide⟩, trivial, trivial, List.forall_mem_nil _⟩
  have hheight : assorted.height < maxNesting := by decide
  have hmeasured : assorted.IsMeasured := ⟨14, by rfl⟩
  have hplain : assorted.All Value.HasPlainText := by
    refine hall trivial trivial trivial ?_
    simp only [List.forall_mem_cons]
    exact ⟨(by decide : IsPlain ""), trivial, (by decide : IsPlain "it's"), trivial,
      List.forall_mem_nil _⟩
  exact ⟨hliteral, hheight, hmeasured, hplain,
    ((run_repr ⟨"/repository", 1, []⟩ "BUILD").1 assorted hliteral hheight hmeasured).mpr hplain⟩

end Sandbox

end Monorepo
