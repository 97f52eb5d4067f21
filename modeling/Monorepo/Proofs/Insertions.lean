import Monorepo.Proofs.Dictionaries
import Monorepo.Proofs.Upkeep

/-!
# Insertion by scripts

A script makes entries of dictionaries in four ways: by assignment to an item, by `update` on a
variable, by `dict` and by spelling a dictionary out. All of them insert the entries one by one, so
each of them makes a map of the dictionary in a run, where no dictionary ever holds two equal keys.
-/

namespace Monorepo.Script

open Value (All Kept)

/-! ## Distinct keys -/

namespace Value

theorem keysDistinct_kept : Kept KeysDistinct where
  plain := by
    intro v hv
    cases v with
    | dict entries => cases hv
    | _ => exact trivial
  empty := List.Pairwise.nil
  insert key value h := Entries.Distinct.insert h key value

theorem exact_text (s : String) : (Value.text s).Exact :=
  ⟨All.leaf (fun _ => nofun) rfl, All.leaf trivial rfl⟩

end Value

/-- The policy that no dictionary holds two equal keys. -/
def Policy.distinct : Policy where
  names _ := True
  texts _ := True
  builtins _ := True
  dicts := Entries.Distinct
  whole _ := True

namespace Policy

theorem distinct_lawful : distinct.Lawful where
  dict_nil := List.Pairwise.nil
  dict_insert key value h := Entries.Distinct.insert h key value
  measured _ := trivial
  stub _ := trivial
  text _ := trivial
  items _ _ _ _ := trivial
  entries _ _ _ := trivial

theorem distinct_allows (s : Statement) : distinct.Allows s := by
  have hreads (e : Expr) : distinct.Reads e := by cases e <;> exact trivial
  exact fun _ _ => ⟨fun _ _ _ _ => hreads _, fun _ _ _ _ => trivial⟩

theorem proper_of_admits {v : Value} (h : distinct.Admits v) : v.Proper := by
  refine h.parts.mono fun part hpart => ?_
  cases part with
  | dict entries => exact hpart
  | _ => exact trivial

end Policy

/-! ## Ways to insert -/

/-- Keywords as entries. -/
def Keywords.entries (keywords : Keywords) : Entries :=
  keywords.map fun (name, value) => (.text name, value)

theorem Keywords.exactKeys_entries (keywords : Keywords) : keywords.entries.ExactKeys := by
  intro e he
  obtain ⟨k, -, rfl⟩ := List.mem_map.mp he
  exact Value.exact_text k.1

/-- The dictionary and the pairs with which `dict` begins. -/
inductive DictSource : List Value → Entries → List (Value × Value) → Prop
  | none : DictSource [] [] []
  | dict (entries : Entries) : DictSource [.dict entries] entries []
  | pairs {source : Value} {items : List Value} {pairs : List (Value × Value)}
      (hdict : ∀ entries, source ≠ .dict entries) (hitems : iterate source = .ok items)
      (hpairs : items.map Value.items? = pairs.map fun pair => some [pair.1, pair.2]) :
      DictSource [source] [] pairs

/-- In a context, everything that inserts entries into dictionaries does so as in maps. -/
structure Context.Inserts (c : Context) : Prop where
  assigned : ∀ {s t : State} {name : String} {index : Expr} {key : Value} {entries : Entries},
    eval c index s = .ok key t → t.find? name = some (.dict entries) →
    entries.ExactKeys → key.Exact →
    ∀ value, ∃ after,
      (endState (assign c (.place (.subscript (.name name) index)) value s)).find? name =
        some (.dict after) ∧ entries.Sets key value after
  updated : ∀ {s t : State} {name : String} {arguments : List Argument} {values : List Value}
    {keywords : Keywords} {entries updates : Entries},
    evalArguments c [] [] arguments s = .ok (values, keywords) t →
    t.find? name = some (.dict entries) → updatesOf values keywords = .ok (some updates) →
    (∃ other, (values = [] ∧ other = [] ∨ values = [.dict other]) ∧
      updates = other ++ keywords.entries) ∧
    (entries.ExactKeys → updates.ExactKeys →
      ∃ after, (endState (eval c (.call (.attribute (.name name) "update") arguments) s)).find?
        name = some (.dict after) ∧ entries.Grows updates after)
  made : ∀ {values : List Value} {keywords : Keywords} {v : Value},
    computeBuiltin c.setting .dict values keywords = .ok v →
    ∃ entries pairs, DictSource values entries pairs ∧ (entries.ExactKeys →
      Entries.ExactKeys pairs →
      ∃ after, v = .dict after ∧ entries.Grows (pairs ++ keywords.entries) after)
  spelt : ∀ {s t : State} {es : List (Expr × Expr)} {v : Value}, eval c (.dict es) s = .ok v t →
    ∃ pairs : List (Value × Value),
      evalAll c (es.flatMap fun e => [e.1, e.2]) s =
        .ok (pairs.flatMap fun pair => [pair.1, pair.2]) t ∧
      (Entries.ExactKeys pairs → ∃ after, v = .dict after ∧ Entries.Grows [] pairs after)

section Ways

variable {c : Context} {s t : State}

/-- A variable is measured without being changed. -/
theorem checkStored_cases (name : String) (s : State) :
    Eval.checkStored name s = .ok () s ∨ ∃ e, Eval.checkStored name s = .error e s := by
  rw [checkStored_apply]
  cases s.find? name with
  | none => exact Or.inl rfl
  | some value =>
    cases hmeasure : value.measure with
    | ok n =>
      left
      simp only [hmeasure]
      rfl
    | error fault =>
      right
      simp only [hmeasure]
      exact ⟨_, rfl⟩

/-- An assignment to an item of a dictionary inserts an entry, even if the dictionary is too large
    then. -/
theorem endState_assignItem {name : String} {entries : Entries}
    (h : s.find? name = some (.dict entries)) (key value : Value) :
    endState (assignItem name key value s) = s.update name (.dict (entries.insert key value)) := by
  have hassign : assignItem name key value s =
      Eval.checkStored name (s.update name (.dict (entries.insert key value))) := by
    unfold assignItem
    rw [bind_of_ok (show (get : Eval State) s = .ok s s from rfl), h]
    rfl
  rw [hassign]
  rcases checkStored_cases name (s.update name (.dict (entries.insert key value))) with hend | hend
  · rw [hend]
    rfl
  · obtain ⟨e, hend⟩ := hend
    rw [hend]
    rfl

theorem changeVariable_update {name : String} {entries updates : Entries} {values : List Value}
    {keywords : Keywords} (h : s.find? name = some (.dict entries))
    (hupdates : updatesOf values keywords = .ok (some updates)) :
    changeVariable name "update" values keywords s =
      (do Eval.checkStored name; return true : Eval Bool)
        (s.update name (.dict (entries.insertAll updates))) := by
  have hchange : changeInPlace (.dict entries) "update" values keywords =
      .ok (some (.dict (entries.insertAll updates))) := by
    change (updatesOf values keywords).map _ = _
    rw [hupdates]
    rfl
  unfold changeVariable
  rw [bind_of_ok (show (get : Eval State) s = .ok s s from rfl), h]
  dsimp only
  rw [hchange]
  rfl

/-- A call of `update` inserts entries, even if the dictionary is too large then. -/
theorem endState_update {name : String} {arguments : List Argument} {values : List Value}
    {keywords : Keywords} {entries updates : Entries}
    (harguments : evalArguments c [] [] arguments s = .ok (values, keywords) t)
    (h : t.find? name = some (.dict entries))
    (hupdates : updatesOf values keywords = .ok (some updates)) :
    endState (eval c (.call (.attribute (.name name) "update") arguments) s) =
      t.update name (.dict (entries.insertAll updates)) := by
  have hcall : eval c (.call (.attribute (.name name) "update") arguments) s =
      (do if ← changeVariable name "update" values keywords then Eval.bounded .none
          else Eval.bounded (← call c (← eval c (.attribute (.name name) "update")) values
            keywords) : Eval Value) t := by
    conv => lhs; unfold eval
    exact bind_of_ok harguments _
  have hchange := changeVariable_update h hupdates
  rw [hcall]
  generalize t.update name (.dict (entries.insertAll updates)) = u at hchange ⊢
  rcases checkStored_cases name u with hend | ⟨e, hend⟩
  · rw [bind_of_ok hend] at hchange
    rw [bind_of_ok (hchange.trans rfl)]
    rfl
  · rw [eval_bind_error hend] at hchange
    rw [eval_bind_error hchange]
    rfl

theorem updatesOf_ok {values : List Value} {keywords : Keywords} {updates : Entries}
    (h : updatesOf values keywords = .ok (some updates)) :
    ∃ other, (values = [] ∧ other = [] ∨ values = [.dict other]) ∧
      updates = other ++ keywords.entries := by
  unfold updatesOf at h
  dsimp only at h
  split at h
  · cases h
    exact ⟨[], Or.inl ⟨rfl, rfl⟩, rfl⟩
  · rename_i other
    cases h
    exact ⟨other, Or.inr rfl, rfl⟩
  all_goals cases h

theorem of_bounded {value v : Value} (h : Eval.bounded value s = .ok v t) : v = value ∧ t = s := by
  unfold Eval.bounded at h
  cases hvalue : value.bounded with
  | error fault =>
    rw [hvalue] at h
    cases h
  | ok out =>
    rw [hvalue] at h
    cases h
    exact ⟨(Value.isMeasured_of_bounded hvalue).1, rfl⟩

theorem evalAll_cons_ok {u : State} {e : Expr} {es : List Expr} {value : Value}
    {values : List Value} (he : eval c e s = .ok value t) (hes : evalAll c es t = .ok values u) :
    evalAll c (e :: es) s = .ok (value :: values) u := by
  unfold evalAll
  rw [bind_of_ok he, bind_of_ok hes]
  rfl

/-- A dictionary that is spelt out takes the values of its keys and entries, pair by pair. -/
theorem evalEntries_ok {es : List (Expr × Expr)} {before after : Entries}
    (h : evalEntries c before es s = .ok after t) :
    ∃ pairs : List (Value × Value),
      evalAll c (es.flatMap fun e => [e.1, e.2]) s =
        .ok (pairs.flatMap fun pair => [pair.1, pair.2]) t ∧ after = before.insertAll pairs := by
  induction es generalizing before s with
  | nil =>
    unfold evalEntries at h
    cases h
    exact ⟨[], rfl, rfl⟩
  | cons e es ih =>
    obtain ⟨keyExpr, valueExpr⟩ := e
    unfold evalEntries at h
    obtain ⟨key, s₁, hkey, h⟩ := of_bind_ok h
    obtain ⟨value, s₂, hvalue, h⟩ := of_bind_ok h
    obtain ⟨pairs, hpairs, hafter⟩ := ih h
    refine ⟨(key, value) :: pairs, ?_, hafter⟩
    exact evalAll_cons_ok hkey (evalAll_cons_ok hvalue hpairs)

theorem insertPairs_ok {items : List Value} {before after : Entries}
    (h : insertPairs before items = .ok after) :
    ∃ pairs : List (Value × Value),
      items.map Value.items? = (pairs.map fun pair => some [pair.1, pair.2]) ∧
        after = before.insertAll pairs := by
  induction items generalizing before with
  | nil =>
    cases h
    exact ⟨[], rfl, rfl⟩
  | cons item items ih =>
    unfold insertPairs at h
    split at h
    · rename_i key value hitem
      obtain ⟨pairs, hpairs, hafter⟩ := ih h
      refine ⟨(key, value) :: pairs, ?_, hafter⟩
      rw [List.map_cons, List.map_cons, hitem, hpairs]
    · cases h

theorem toDict_ok {values : List Value} {keywords : Keywords} {v : Value}
    (h : toDict values keywords = .ok v) :
    ∃ entries pairs, DictSource values entries pairs ∧
      v = .dict (entries.insertAll (pairs ++ keywords.entries)) := by
  unfold toDict at h
  split at h
  · cases h
    exact ⟨[], [], .none, rfl⟩
  · rename_i entries
    cases h
    exact ⟨entries, [], .dict entries, rfl⟩
  · rename_i source hdict
    obtain ⟨items, hitems, h⟩ := ok_of_bind h
    obtain ⟨entries, hentries, h⟩ := ok_of_bind h
    cases h
    obtain ⟨pairs, hpairs, rfl⟩ := insertPairs_ok hentries
    refine ⟨[], pairs, .pairs (fun entries he => hdict entries (he ▸ rfl)) hitems hpairs, ?_⟩
    unfold Entries.insertAll
    rw [List.foldl_append]
    rfl
  · cases h

/-- All ways to insert entries make maps of dictionaries. -/
theorem Context.inserts (c : Context) : c.Inserts where
  assigned := by
    intro s t name index key entries hindex hfind hentries hkey value
    refine ⟨entries.insert key value, ?_, Entries.insert_sets hentries hkey value⟩
    have hassign : assign c (.place (.subscript (.name name) index)) value s =
        assignItem name key value t := bind_of_ok hindex _
    rw [hassign, endState_assignItem hfind, State.find?_update hfind]
  updated := by
    intro s t name arguments values keywords entries updates harguments hfind hupdates
    refine ⟨updatesOf_ok hupdates, fun hentries hmore => ?_⟩
    refine ⟨entries.insertAll updates, ?_, Entries.insertAll_grows hentries hmore⟩
    rw [endState_update harguments hfind hupdates, State.find?_update hfind]
  made := by
    intro values keywords v hv
    obtain ⟨entries, pairs, hsource, rfl⟩ := toDict_ok hv
    refine ⟨entries, pairs, hsource, fun hentries hpairs => ⟨_, rfl, ?_⟩⟩
    refine Entries.insertAll_grows hentries (List.forall_mem_append.mpr ⟨hpairs, ?_⟩)
    exact Keywords.exactKeys_entries keywords
  spelt := by
    intro s t es v hv
    unfold eval at hv
    obtain ⟨entries, u, hentries, hbounded⟩ := of_bind_ok hv
    obtain ⟨rfl, rfl⟩ := of_bounded hbounded
    obtain ⟨pairs, hpairs, rfl⟩ := evalEntries_ok hentries
    refine ⟨pairs, hpairs, fun hkeys => ⟨_, rfl, ?_⟩⟩
    exact Entries.insertAll_grows (List.forall_mem_nil _) hkeys

end Ways

end Monorepo.Script

namespace Monorepo

open Script

namespace Sandbox

/-- A run begins as a rule asks if predefined functions and stubs are as it asks. -/
theorem obeys_symbols {r : Rule} (hbuiltin : ∀ b, r.values (.builtin b))
    (hstub : ∀ trace, r.values (.stub trace)) (root : String) (config : Config) :
    (State.start (ofConfig root config).symbols).Obeys r := by
  refine State.obeys_start fun row hrow _ => ?_
  rcases isPredefined_symbols root config row hrow with ⟨b, rfl⟩ | htrace
  · exact hbuiltin b
  · rw [htrace]
    exact hstub row.1

/-- **Dictionaries are maps.** No dictionary holds two equal keys, be it the value of a variable,
    inside of one or in the arguments of a target: at no boundary between statements of a run, not
    where the run ends with or without a fault, and not after an expression or a statement that
    begins where this is so. And whatever inserts an entry into a dictionary with exact keys makes
    the value be found under what equals the key, leaves what is found under anything else, and puts
    a new key last. -/
theorem run_dictionaries (root : String) (config : Config) (path : String)
    (script : List Statement) :
    let setting := (ofConfig root config).setting path
    let start := State.start (ofConfig root config).symbols
    AtBoundaries (fun s => ∀ v ∈ s.values, v.Proper) setting script start ∧
    (∀ v ∈ (endState ((ofConfig root config).run path script)).values, v.Proper) ∧
    (∀ (pending : Nat) (s : State), (∀ v ∈ s.values, v.Proper) →
      let context : Context := ⟨setting, invoke setting pending⟩
      (∀ e, (∀ v ∈ (endState (eval context e s)).values, v.Proper) ∧
        ∀ v t, eval context e s = .ok v t → v.Proper) ∧
      ∀ statement, ∀ v ∈ (endState (exec context statement s)).values, v.Proper) ∧
    (∀ (entries : Entries) (key value : Value), entries.ExactKeys → key.Exact →
      entries.Sets key value (entries.insert key value)) ∧
    ∀ c : Context, c.Inserts := by
  intro setting start
  have hfunction (f : Function) : Value.KeysDistinct (.function f) := trivial
  refine ⟨?_, ?_, fun pending s hs => ?_, fun entries key value hentries hkey => ?_,
    Context.inserts⟩
  · have hbuiltin (b : Builtin) : Policy.distinct.rule.values (.builtin b) :=
      ⟨⟨trivial, List.forall_mem_nil _⟩, trivial⟩
    have hstart : start.Obeys Policy.distinct.rule :=
      obeys_symbols hbuiltin Policy.distinct_lawful.admits_stub root config
    refine atBoundaries_obeys Policy.distinct_lawful (fun s hs v hv => ?_) setting
      (fun s _ => Policy.distinct_allows s) hstart
    have hadmits := hs.values (fun _ => trivial) (fun _ hcall => hcall.2) v hv
    exact Policy.proper_of_admits hadmits
  · have hbuiltin (b : Builtin) : Value.Proper (.builtin b) := .leaf trivial rfl
    have hstart : start.Upheld Value.KeysDistinct :=
      obeys_symbols hbuiltin (fun _ => Value.keysDistinct_kept.atom rfl) root config
    have hrun := execScript_upholds Value.keysDistinct_kept hfunction setting script start hstart
    exact State.upheld_iff.mp hrun.1
  · have hcalls := invoke_upholds Value.keysDistinct_kept hfunction setting pending
    have hupheld : s.Upheld Value.KeysDistinct := State.upheld_iff.mpr hs
    refine ⟨fun e => ?_, fun statement => ?_⟩
    · have heval := eval_upholds Value.keysDistinct_kept hcalls e s hupheld
      exact ⟨State.upheld_iff.mp heval.1, heval.2⟩
    · have hexec := exec_upholds Value.keysDistinct_kept hfunction hcalls statement s hupheld
      exact State.upheld_iff.mp hexec.1
  · exact Entries.insert_sets hentries hkey value

/-- An item of a dictionary in a variable that is assigned again. -/
theorem run_dictionaries_assigned :
    let setting := (ofConfig "/repo" {}).setting "/repo/BUILD"
    let s := State.start [("d", .dict [(.text "a", .int 1), (.text "b", .int 2)])]
    ∃ after : Entries,
      (endState (assign setting.context (.place (.subscript (.name "d") (.text "a"))) (.int 3)
        s)).find? "d" = some (.dict after) ∧
      subscript (.dict after) (.text "a") = .ok (.int 3) ∧
      subscript (.dict after) (.text "b") = .ok (.int 2) ∧
      after.map (·.1) = [.text "a", .text "b"] ∧
      ∀ v ∈ (endState (eval setting.context (.name "d") s)).values, v.Proper := by
  intro setting s
  obtain ⟨-, -, hsteps, -, hinserts⟩ := run_dictionaries "/repo" {} "/repo/BUILD" []
  have hexact : Entries.ExactKeys [(.text "a", .int 1), (.text "b", .int 2)] :=
    List.forall_mem_cons.mpr ⟨Value.exact_text "a",
      List.forall_mem_singleton.mpr (Value.exact_text "b")⟩
  have hindex : eval setting.context (.text "a") s = .ok (.text "a") s := rfl
  have hfind : s.find? "d" = some (.dict [(.text "a", .int 1), (.text "b", .int 2)]) := rfl
  obtain ⟨after, hafter, hsets⟩ := (hinserts setting.context).assigned hindex hfind hexact
    (Value.exact_text "a") (.int 3)
  have hfound := hsets.found (.text "a") rfl (Or.inl (Value.exact_text "a"))
  have hother := hsets.others (.text "b") rfl
  have hproper : ∀ v ∈ s.values, v.Proper := by
    have hatom {v : Value} (hv : v.isAtom = true) : v.Proper := Value.keysDistinct_kept.atom hv
    refine List.forall_mem_singleton.mpr ⟨List.pairwise_pair.mpr rfl, ?_⟩
    refine Value.forall_mem_parts_dict.mpr (List.forall_mem_cons.mpr ⟨?_, ?_⟩)
    · exact ⟨hatom rfl, hatom rfl⟩
    · exact List.forall_mem_singleton.mpr ⟨hatom rfl, hatom rfl⟩
  exact ⟨after, hafter, hfound.item rfl, hother.item rfl, hsets.keys,
    ((hsteps maxPending s hproper).1 (.name "d")).1⟩

/-- A stub is no key that can be looked up by the operations of the language, and a floating-point
    number equals integers that differ. -/
theorem run_dictionaries_unfound :
    let stub : Value := .stub "jar"
    let low : Value := .int 9007199254740992
    let high : Value := .int 9007199254740993
    let rounded : Value := .float 9007199254740992.0
    (stub.equals stub = true ∧
      subscript (.dict (Entries.insert [] stub (.int 1))) stub ≠ .ok (.int 1)) ∧
    (low.equals high = false ∧ high.equals rounded = true ∧
      subscript (.dict (Entries.insert [(low, .int 0)] high (.int 1))) rounded ≠ .ok (.int 1)) := by
  intro stub low high rounded
  refine ⟨⟨by decide, nofun⟩, by decide, by decide, ?_⟩
  have hlow : low.equals rounded = true := by decide
  have hget : Entries.get? [(low, .int 0), (high, .int 1)] rounded = some (.int 0) := by
    rw [Entries.get?_cons, if_pos hlow]
  have hitem := (Entries.finds_get? [(low, .int 0), (high, .int 1)] rounded).item rfl
  rw [hget] at hitem
  have hinsert : Entries.insert [(low, .int 0)] high (.int 1) = [(low, .int 0), (high, .int 1)] :=
    rfl
  rw [hinsert, hitem]
  nofun

end Sandbox

end Monorepo
