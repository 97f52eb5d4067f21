import Monorepo.Proofs.Boundaries
import Monorepo.Proofs.Descriptor
import Monorepo.Proofs.Nesting
import Monorepo.Proofs.Predefined
import Monorepo.Proofs.Vocabulary
import Monorepo.Proofs.Words

/-!
# What a descriptor holds

The declarations of a script are added one after another. What the descriptor holds is said here
without the assembly: the ids of the declarations, one each, and for every id the last declaration
that has it, besides the root target with the ids in the order of their first declarations. No
script declares a root target itself, for the name of that kind cannot be written in a script.
-/

namespace Monorepo

open Script (Keywords TargetCall Value Warning)

theorem eraseDups_concat (names : List String) (name : String) :
    (names ++ [name]).eraseDups =
      if name ∈ names then names.eraseDups else names.eraseDups ++ [name] := by
  rw [List.eraseDups_append]
  by_cases h : name ∈ names <;> simp [List.removeAll, List.eraseDups_cons, h]

theorem nodup_eraseDups (names : List String) : names.eraseDups.Nodup := by
  match names with
  | [] => exact List.nodup_nil
  | name :: names =>
    rw [List.eraseDups_cons]
    refine List.nodup_cons.mpr ⟨fun hmem => ?_, nodup_eraseDups _⟩
    have hfilter := List.mem_filter.mp (List.mem_eraseDups.mp hmem)
    simp at hfilter
termination_by names.length
decreasing_by exact Nat.lt_succ_of_le (List.length_filter_le _ _)

/-! ## The arguments of a declaration -/

namespace Script.Value

mutual

/-- The texts in a value from left to right, at any depth of lists and tuples. -/
def texts : Value → List String
  | .text s => [s]
  | .list items => textsIn items
  | .tuple items => textsIn items
  | _ => []

/-- The texts in several values. -/
def textsIn : List Value → List String
  | [] => []
  | value :: values => value.texts ++ textsIn values

end

mutual

theorem filterMap_leavesOnto (done : List Value) : (v : Value) →
    (leavesOnto done v).reverse.filterMap text? = done.reverse.filterMap text? ++ v.texts
  | .list items => by
    rw [leavesOnto, texts]
    exact filterMap_leavesOfOnto done items
  | .tuple items => by
    rw [leavesOnto, texts]
    exact filterMap_leavesOfOnto done items
  | .none | .bool _ | .int _ | .float _ | .text _ | .dict _ | .builtin _ | .function _
  | .method .. | .stub _ => by
    simp [leavesOnto, texts, text?]

theorem filterMap_leavesOfOnto (done : List Value) : (values : List Value) →
    (leavesOfOnto done values).reverse.filterMap text? =
      done.reverse.filterMap text? ++ textsIn values
  | [] => by simp [leavesOfOnto, textsIn]
  | value :: values => by
    rw [leavesOfOnto, filterMap_leavesOfOnto _ values, filterMap_leavesOnto done value, textsIn,
      List.append_assoc]

end

theorem filterMap_leaves (v : Value) : v.leaves.filterMap text? = v.texts :=
  filterMap_leavesOnto [] v

end Script.Value

/-- The texts of a keyword. -/
def Script.TargetCall.texts (call : TargetCall) (keyword : String) : List String :=
  match Keywords.get? call.keywords keyword with
  | some value => value.texts
  | none => []

/-- The target that a declaration makes under an id. -/
def Target.ofCall (buildpath id : String) (call : TargetCall) : Target where
  kind := call.kind
  id := id
  dependencies := (call.texts "dependencies").map (Assembly.absoluteReference buildpath)
  sources := (call.texts "sources").map (Assembly.sourcePath buildpath)

/-- The first of two keywords that a declaration may be named by. -/
inductive NamingValue (keywords : Keywords) : Value → Prop
  | name {value : Value} (h : Keywords.get? keywords "name" = some value) :
    NamingValue keywords value
  | basename {value : Value} (hname : Keywords.get? keywords "name" = none)
    (h : Keywords.get? keywords "basename" = some value) : NamingValue keywords value

/-- The name of a declaration behind declarations of `count` ids. -/
inductive IsNamed (count : Nat) (keywords : Keywords) : String → Prop
  | given {value : Value} (h : NamingValue keywords value) (htrue : value.isTrue = true) :
    IsNamed count keywords value.display
  | numbered (h : ∀ value, NamingValue keywords value → value.isTrue = false) :
    IsNamed count keywords ("NO-NAME-" ++ toString count)

theorem NamingValue.unique {keywords : Keywords} {v w : Value} (hv : NamingValue keywords v)
    (hw : NamingValue keywords w) : v = w := by
  cases hv <;> cases hw <;> simp_all

/-- The ids of declarations, one for each. A number counts the ids before it, and no id twice. -/
structure AreIds (buildpath : String) (calls : List TargetCall) (ids : List String) : Prop where
  length : ids.length = calls.length
  named : ∀ (i : Nat) (call : TargetCall), calls[i]? = some call →
    ∃ name, ids[i]? = some (buildpath ++ ":" ++ name) ∧
      IsNamed (ids.take i).eraseDups.length call.keywords name

theorem AreIds.concat {buildpath : String} {calls : List TargetCall} {ids : List String}
    {call : TargetCall} {name : String} (h : AreIds buildpath calls ids)
    (hname : IsNamed ids.eraseDups.length call.keywords name) :
    AreIds buildpath (calls ++ [call]) (ids ++ [buildpath ++ ":" ++ name]) := by
  refine ⟨by simp [h.length], fun i call' hcall => ?_⟩
  rcases Nat.lt_or_ge i calls.length with hlt | hge
  · rw [List.getElem?_append_left hlt] at hcall
    obtain ⟨name', hid, hname'⟩ := h.named i call' hcall
    have hi : i < ids.length := h.length ▸ hlt
    refine ⟨name', ?_, ?_⟩
    · rw [List.getElem?_append_left hi, hid]
    · rwa [List.take_append_of_le_length (Nat.le_of_lt hi)]
  · have heq : i = calls.length := by
      have := (List.getElem?_eq_some_iff.mp hcall).1
      rw [List.length_append, List.length_singleton] at this
      omega
    rw [heq, List.getElem?_concat_length] at hcall
    cases hcall
    rw [heq, ← h.length]
    exact ⟨name, List.getElem?_concat_length, by rwa [List.take_left]⟩

/-- The place at which an id stands last. -/
def IsLast (ids : List String) (i : Nat) (id : String) : Prop :=
  ids[i]? = some id ∧ ∀ j, i < j → ids[j]? ≠ some id

theorem exists_isLast {ids : List String} {id : String} (h : id ∈ ids) : ∃ i, IsLast ids i id := by
  induction ids with
  | nil => cases h
  | cons first ids ih =>
    by_cases hmem : id ∈ ids
    · obtain ⟨i, hi, hlast⟩ := ih hmem
      refine ⟨i + 1, hi, fun j hj => ?_⟩
      cases j with
      | zero => cases hj
      | succ j => exact hlast j (Nat.lt_of_succ_lt_succ hj)
    · rcases List.mem_cons.mp h with rfl | h
      · refine ⟨0, rfl, fun j hj => ?_⟩
        cases j with
        | zero => cases hj
        | succ j => exact fun heq => hmem (List.mem_of_getElem? heq)
      · exact absurd h hmem

/-- The last place is that of the last item, or an earlier one with another id. -/
theorem IsLast.concat {ids : List String} {last id : String} {i : Nat}
    (h : IsLast (ids ++ [last]) i id) :
    i = ids.length ∧ id = last ∨ i < ids.length ∧ id ≠ last ∧ IsLast ids i id := by
  obtain ⟨hi, hafter⟩ := h
  rcases Nat.lt_or_ge i ids.length with hlt | hge
  · have hne : id ≠ last := by
      rintro rfl
      exact hafter ids.length hlt List.getElem?_concat_length
    rw [List.getElem?_append_left hlt] at hi
    refine Or.inr ⟨hlt, hne, hi, fun j hj => ?_⟩
    intro hmem
    have hjlt : j < ids.length := List.getElem?_eq_some_iff.mp hmem |>.1
    exact hafter j hj (by rw [List.getElem?_append_left hjlt, hmem])
  · have heq : i = ids.length := by
      have := (List.getElem?_eq_some_iff.mp hi).1
      rw [List.length_append, List.length_singleton] at this
      omega
    rw [heq, List.getElem?_concat_length] at hi
    exact Or.inl ⟨heq, (Option.some.inj hi).symm⟩

namespace Assembly

theorem isNamed_nameOf (count : Nat) (keywords : Keywords) :
    IsNamed count keywords (nameOf count keywords) := by
  have hvalue : ∀ value, (Keywords.get? keywords "name" <|> Keywords.get? keywords "basename") =
      some value ↔ NamingValue keywords value := by
    intro value
    cases hname : Keywords.get? keywords "name" with
    | some v =>
      refine ⟨fun heq => .name (hname.trans heq), fun h => ?_⟩
      cases h with
      | name h => exact hname.symm.trans h
      | basename h _ =>
        rw [hname] at h
        cases h
    | none =>
      refine ⟨fun heq => .basename hname heq, fun h => ?_⟩
      cases h with
      | name h =>
        rw [hname] at h
        cases h
      | basename _ h => exact h
  unfold nameOf
  dsimp only
  split
  · rename_i value heq
    have hnaming := (hvalue value).mp heq
    split
    · rename_i htrue
      exact .given hnaming htrue
    · rename_i hfalse
      exact .numbered fun w hw => hw.unique hnaming ▸ Bool.eq_false_iff.mpr hfalse
  · rename_i heq
    refine .numbered fun w hw => ?_
    rw [(hvalue w).mpr hw] at heq
    cases heq

theorem textsOf_eq (call : TargetCall) (keyword : String) :
    textsOf call keyword = call.texts keyword := by
  unfold textsOf leavesOf TargetCall.texts
  cases Keywords.get? call.keywords keyword with
  | none => rfl
  | some value => exact value.filterMap_leaves

/-- What an assembly holds after declarations with given ids. -/
structure Reflects (buildpath : String) (calls : List TargetCall) (ids : List String)
    (a : Assembly) : Prop where
  ascending : a.targets.Ascending
  named : AreIds buildpath calls ids
  order : a.reversedIds.reverse = ids.eraseDups
  keys : ∀ id, id ∈ a.targets.keys ↔ id ∈ ids
  last : ∀ i call id, calls[i]? = some call → IsLast ids i id →
    a.targets.get? id = some (.ofCall buildpath id call)

variable {buildpath : String}

theorem reflects_empty (buildpath : String) : Reflects buildpath [] [] .empty where
  ascending := List.Pairwise.nil
  named := ⟨rfl, nofun⟩
  order := rfl
  keys _ := Iff.rfl
  last := nofun

/-- The targets are as many as the ids. -/
theorem Reflects.length_targets {calls : List TargetCall} {ids : List String} {a : Assembly}
    (h : Reflects buildpath calls ids a) : a.targets.length = ids.eraseDups.length := by
  have hperm : a.targets.keys.Perm ids.eraseDups :=
    (List.perm_ext_iff_of_nodup h.ascending.nodup (nodup_eraseDups ids)).mpr fun id => by
      rw [h.keys, List.mem_eraseDups]
  have hlength := hperm.length_eq
  rwa [Table.keys, List.length_map] at hlength

theorem Reflects.record {calls : List TargetCall} {ids : List String} {a : Assembly}
    (h : Reflects buildpath calls ids a) (call : TargetCall) :
    ∃ id, Reflects buildpath (calls ++ [call]) (ids ++ [id]) (record buildpath a call) := by
  have hname : IsNamed ids.eraseDups.length call.keywords
      (nameOf a.targets.length call.keywords) := by
    rw [h.length_targets]
    exact isNamed_nameOf _ _
  refine ⟨buildpath ++ ":" ++ nameOf a.targets.length call.keywords, ?_⟩
  have hids := h.named.concat hname
  unfold Assembly.record
  generalize buildpath ++ ":" ++ nameOf a.targets.length call.keywords = id at hids ⊢
  rw [textsOf_eq, textsOf_eq]
  refine ⟨h.ascending.set _ _, hids, ?_, fun key => ?_, fun i call' id' hcall hlast => ?_⟩
  · dsimp only
    rw [eraseDups_concat]
    by_cases hid : id ∈ ids
    · rw [if_pos hid, if_pos (Table.has_iff.mpr ((h.keys id).mpr hid)), h.order]
    · have hfree : a.targets.has id ≠ true := fun hhas =>
        hid ((h.keys id).mp (Table.has_iff.mp hhas))
      rw [if_neg hid, if_neg hfree, List.reverse_cons, h.order]
  · rw [Table.mem_keys_set, h.keys, List.mem_append, List.mem_singleton]
    exact or_comm
  · rw [Table.get?_set]
    rcases hlast.concat with ⟨rfl, rfl⟩ | ⟨hlt, hne, hlast⟩
    · rw [h.named.length, List.getElem?_concat_length] at hcall
      cases hcall
      exact if_pos rfl
    · rw [h.named.length] at hlt
      rw [List.getElem?_append_left hlt] at hcall
      rw [if_neg hne]
      exact h.last i call' id' hcall hlast

theorem Reflects.foldl_record {calls : List TargetCall} {ids : List String} {a : Assembly}
    (h : Reflects buildpath calls ids a) (more : List TargetCall) :
    ∃ ids', Reflects buildpath (calls ++ more) ids' (more.foldl (Assembly.record buildpath) a) := by
  induction more generalizing calls ids a with
  | nil => exact ⟨ids, by rwa [List.append_nil]⟩
  | cons call more ih =>
    obtain ⟨id, hid⟩ := h.record call
    rw [List.append_cons]
    exact ih hid

end Assembly

/-! ## The descriptor -/

/-- What a descriptor holds that is assembled from declarations with given ids. -/
structure Descriptor.Holds (buildpath : String) (calls : List TargetCall) (ids : List String)
    (d : Descriptor) : Prop where
  /-- An id has the target of the last declaration that has the id. -/
  last : ∀ i call id, calls[i]? = some call → IsLast ids i id →
    d.targets.get? id = some (.ofCall buildpath id call)
  /-- The root target depends on the ids in the order of their first declarations. -/
  root : d.root? = some (.root buildpath ids.eraseDups)
  keys : ∀ key, key ∈ d.targets.keys ↔ key = buildpath ∨ key ∈ ids
  size : d.targets.length = 1 + ids.eraseDups.length
  /-- The declared targets are those under the ids, each of them once. -/
  declared : d.declared.map some = ids.eraseDups.map d.targets.get?
  declaredIds : d.declared.map Target.id = ids.eraseDups
  /-- The root target is the only one of its kind. -/
  kinds : d.targets.values.countP Target.isRoot = 1

theorem AreIds.ne_buildpath {buildpath : String} {calls : List TargetCall} {ids : List String}
    (h : AreIds buildpath calls ids) : buildpath ∉ ids := by
  intro hmem
  obtain ⟨i, hi⟩ := List.mem_iff_getElem?.mp hmem
  have hlt : i < calls.length := h.length ▸ (List.getElem?_eq_some_iff.mp hi).1
  obtain ⟨name, hid, -⟩ := h.named i calls[i] (List.getElem?_eq_getElem hlt)
  have hlength := congrArg String.length (Option.some.inj (hi.symm.trans hid))
  rw [String.length_append, String.length_append] at hlength
  have hcolon : ":".length = 1 := rfl
  omega

theorem map_some_filterMap {α β : Type} {f : α → Option β} {items : List α}
    (h : ∀ a ∈ items, (f a).isSome = true) : (items.filterMap f).map some = items.map f := by
  induction items with
  | nil => rfl
  | cons a items ih =>
    obtain ⟨ha, hitems⟩ := List.forall_mem_cons.mp h
    obtain ⟨b, hb⟩ := Option.isSome_iff_exists.mp ha
    rw [List.filterMap_cons_some hb, List.map_cons, List.map_cons, ih hitems, hb]

namespace Assembly.Reflects

variable {buildpath : String} {calls : List TargetCall} {ids : List String} {a : Assembly}
  (h : a.Reflects buildpath calls ids) (warnings : List Warning)
include h

theorem exists_call {id : String} (hid : id ∈ ids) :
    ∃ call ∈ calls, a.targets.get? id = some (.ofCall buildpath id call) := by
  obtain ⟨i, hi⟩ := exists_isLast hid
  have hlt : i < calls.length := h.named.length ▸ (List.getElem?_eq_some_iff.mp hi.1).1
  exact ⟨calls[i], List.getElem_mem hlt, h.last i _ id (List.getElem?_eq_getElem hlt) hi⟩

theorem targets_finish : (a.finish buildpath warnings).targets =
    a.targets.set buildpath (.root buildpath ids.eraseDups) := by
  rw [← h.order]
  rfl

theorem root?_finish :
    (a.finish buildpath warnings).root? = some (.root buildpath ids.eraseDups) := by
  rw [Descriptor.root?, h.targets_finish]
  exact (Table.get?_set _ _ _ _).trans (if_pos rfl)

/-- The root target takes no id of another target. -/
theorem get?_finish {id : String} (hid : id ∈ ids) :
    (a.finish buildpath warnings).targets.get? id = a.targets.get? id := by
  rw [h.targets_finish, Table.get?_set, if_neg]
  rintro rfl
  exact h.named.ne_buildpath hid

theorem keys_finish :
    (a.finish buildpath warnings).targets.keys.Perm (buildpath :: ids.eraseDups) := by
  have hascending : (a.finish buildpath warnings).targets.Ascending := by
    rw [h.targets_finish]
    exact h.ascending.set _ _
  have hnodup : (buildpath :: ids.eraseDups).Nodup := List.nodup_cons.mpr
    ⟨fun hmem => h.named.ne_buildpath (List.mem_eraseDups.mp hmem), nodup_eraseDups ids⟩
  refine (List.perm_ext_iff_of_nodup hascending.nodup hnodup).mpr fun key => ?_
  rw [h.targets_finish, Table.mem_keys_set, h.keys, List.mem_cons, List.mem_eraseDups]

theorem declared_finish : (a.finish buildpath warnings).declared.map some =
    ids.eraseDups.map (a.finish buildpath warnings).targets.get? := by
  rw [Descriptor.declared, h.root?_finish]
  refine map_some_filterMap fun id hid => ?_
  have hid := List.mem_eraseDups.mp hid
  obtain ⟨call, -, hget⟩ := h.exists_call hid
  rw [h.get?_finish warnings hid, hget]
  rfl

theorem declaredIds_finish :
    (a.finish buildpath warnings).declared.map Target.id = ids.eraseDups := by
  refine (List.map_inj_right fun _ _ => Option.some.inj).mp ?_
  have hids := congrArg (List.map (Option.map Target.id)) (h.declared_finish warnings)
  rw [List.map_map, List.map_map] at hids
  rw [List.map_map]
  refine hids.trans (List.map_congr_left fun id hid => ?_)
  have hid := List.mem_eraseDups.mp hid
  obtain ⟨call, -, hget⟩ := h.exists_call hid
  rw [Function.comp, h.get?_finish warnings hid, hget]
  rfl

theorem isRoot_finish (hkinds : ∀ call ∈ calls, call.kind ≠ Target.rootKind)
    {row : String × Target} (hrow : row ∈ (a.finish buildpath warnings).targets) :
    row.2.isRoot = (row.1 == buildpath) := by
  obtain ⟨key, target⟩ := row
  rw [h.targets_finish, h.ascending.mem_set] at hrow
  rcases hrow with ⟨rfl, rfl⟩ | ⟨hne, hrow⟩
  · rw [beq_self_eq_true]
    rfl
  · have hkey : key ∈ ids := (h.keys key).mp (Table.mem_keys.mpr ⟨target, hrow⟩)
    obtain ⟨call, hcall, hget⟩ := h.exists_call hkey
    obtain rfl := Option.some.inj ((h.ascending.get?_eq_some_iff.mpr hrow).symm.trans hget)
    rw [beq_eq_false_iff_ne.mpr hne]
    exact beq_eq_false_iff_ne.mpr (hkinds call hcall)

theorem holds_finish (hkinds : ∀ call ∈ calls, call.kind ≠ Target.rootKind) :
    (a.finish buildpath warnings).Holds buildpath calls ids := by
  have hkeys := h.keys_finish warnings
  constructor
  case last =>
    intro i call id hcall hi
    rw [h.get?_finish warnings (List.mem_of_getElem? hi.1)]
    exact h.last i call id hcall hi
  case root => exact h.root?_finish warnings
  case keys => exact fun key => by rw [hkeys.mem_iff, List.mem_cons, List.mem_eraseDups]
  case size =>
    have hlength := hkeys.length_eq
    rw [Table.keys, List.length_map, List.length_cons] at hlength
    omega
  case declared => exact h.declared_finish warnings
  case declaredIds => exact h.declaredIds_finish warnings
  case kinds =>
    have hcount := hkeys.count_eq buildpath
    rw [List.count_cons_self, List.count_eq_zero_of_not_mem
      (fun hmem => h.named.ne_buildpath (List.mem_eraseDups.mp hmem))] at hcount
    rw [Table.keys, List.count, List.countP_map] at hcount
    rw [Table.values, List.countP_map]
    refine Eq.trans (List.countP_congr fun row hrow => ?_) hcount
    rw [Function.comp, h.isRoot_finish warnings hkinds hrow]
    rfl

end Assembly.Reflects

/-! ## The kinds that a script can name -/

/-- Variables and predefined functions have names that can be written in a script. -/
def Script.Policy.written : Script.Policy where
  names name := Script.IsWord name.toList
  texts _ := True
  builtins b := Script.IsWord b.name.toList
  dicts _ := True
  whole _ := True

theorem Script.Policy.written_lawful : Script.Policy.written.Lawful where
  dict_nil := trivial
  dict_insert _ _ _ := trivial
  measured _ := trivial
  stub _ := trivial
  text _ := trivial
  items _ _ _ _ := trivial
  entries _ _ _ := trivial

theorem Script.Policy.written_allows {source : String} {script : List Script.Statement}
    (h : Script.parseScript source = .ok script) :
    ∀ s ∈ script, Script.Policy.written.Allows s := by
  obtain ⟨tokens, htokens, hparse⟩ := ok_of_bind h
  refine Script.parseTokens_allows hparse fun t ht => ?_
  have hword := Script.isWordly_of_tokenize htokens t ht
  cases hlexeme : t.lexeme with
  | name name => exact hword name hlexeme
  | _ => exact trivial

theorem Sandbox.obeys_written (root : String) (config : Config) :
    (Script.State.start (ofConfig root config).symbols).Obeys Script.Policy.written.rule := by
  refine Script.State.obeys_start fun row hrow hname => ?_
  rcases isPredefined_symbols root config row hrow with ⟨b, rfl⟩ | hstub
  · exact ⟨⟨hname, List.forall_mem_nil _⟩, trivial⟩
  · rw [hstub]
    exact Script.Policy.written_lawful.admits_stub row.1

/-- No script declares a root target. -/
theorem Sandbox.kind_ne_rootKind {root : String} {config : Config} {path source : String}
    {script : List Script.Statement} {state : Script.State}
    (hparse : Script.parseScript source = .ok script)
    (hrun : (ofConfig root config).run path script = .ok () state) :
    ∀ call ∈ state.calls, call.kind ≠ Target.rootKind := by
  intro call hcall hkind
  have hobeys := Script.execScript_obeys Script.Policy.written_lawful
    (Script.Policy.written_allows hparse) (obeys_written root config) hrun
  have hword : Script.IsWord call.kind.toList :=
    (hobeys.declared call (List.mem_reverse.mp hcall)).1
  rw [hkind] at hword
  exact absurd (hword '<' (by decide)) (by decide)

/-- The descriptor of a script that runs to its end. -/
theorem DescriptorSource.parseText_of_run {root : String} {config : Config} {path text : String}
    {script : List Script.Statement} {state : Script.State} (buildpath : String)
    (hparse : Script.parseScript text = .ok script)
    (hrun : (Sandbox.ofConfig root config).run path script = .ok () state) :
    (ofConfig root config).parseText buildpath path text =
      .ok (.assemble buildpath state.calls state.warnings) := by
  unfold parseText
  rw [hparse]
  dsimp only [ofConfig]
  rw [hrun]

theorem Descriptor.exists_holds_assemble {root : String} {config : Config} {path text : String}
    {script : List Script.Statement} {state : Script.State} (buildpath : String)
    (hparse : Script.parseScript text = .ok script)
    (hrun : (Sandbox.ofConfig root config).run path script = .ok () state) :
    ∃ ids, AreIds buildpath state.calls ids ∧
      (assemble buildpath state.calls state.warnings).Holds buildpath state.calls ids := by
  obtain ⟨ids, hreflects⟩ :=
    (Assembly.reflects_empty buildpath).foldl_record state.calls
  rw [List.nil_append] at hreflects
  have hkinds := Sandbox.kind_ne_rootKind hparse hrun
  exact ⟨ids, hreflects.named, hreflects.holds_finish state.warnings hkinds⟩

/-- **What a descriptor holds.** If the script of a directory runs to its end then the directory has
    a descriptor. Its declarations have the ids that they are named by, or numbered for want of a
    name; each id has the target of its last declaration, the root target depends on the ids in the
    order of their first ones, and there is nothing else in the descriptor. -/
theorem DescriptorSource.parseText_holds (root : String) (config : Config)
    (buildpath path text : String) {script : List Script.Statement} {state : Script.State}
    (hparse : Script.parseScript text = .ok script)
    (hrun : (Sandbox.ofConfig root config).run path script = .ok () state) :
    ∃ d ids, (ofConfig root config).parseText buildpath path text = .ok d ∧
      AreIds buildpath state.calls ids ∧ d.Holds buildpath state.calls ids := by
  obtain ⟨ids, hids, hholds⟩ := Descriptor.exists_holds_assemble buildpath hparse hrun
  exact ⟨_, ids, parseText_of_run buildpath hparse hrun, hids, hholds⟩

/-- Whether a text is a script that runs to its end and leaves a state with a property. -/
def Sandbox.endsIn (sandbox : Sandbox) (path text : String) (p : Script.State → Bool) : Bool :=
  (Script.parseScript text).toOption.any fun script =>
    succeeds (sandbox.run path script) && p (Script.endState (sandbox.run path script))

theorem Sandbox.exists_run {sandbox : Sandbox} {path text : String} {p : Script.State → Bool}
    (h : sandbox.endsIn path text p = true) :
    ∃ script state, Script.parseScript text = .ok script ∧
      sandbox.run path script = .ok () state ∧ p state = true := by
  unfold endsIn at h
  cases hparse : Script.parseScript text with
  | error e =>
    rw [hparse] at h
    cases h
  | ok script =>
    rw [hparse] at h
    obtain ⟨hsucceeds, hp⟩ := (Bool.and_eq_true _ _).mp h
    cases hrun : sandbox.run path script with
    | ok _ state =>
      rw [hrun] at hp
      exact ⟨script, state, rfl, hrun, hp⟩
    | error e state =>
      rw [hrun] at hsucceeds
      cases hsucceeds

/-- A target that is declared twice, and one without a name in between. -/
def declaredTwice : List Char :=
  "target(name='a')\npage()\nresources(name='a', dependencies=[':b', ['c:d']])\n".toList

theorem DescriptorSource.parseText_holds_twice :
    ∃ script state, Script.parseScript (.ofList declaredTwice) = .ok script ∧
      (Sandbox.ofConfig "/repo" {}).run "/repo/x/BUILD" script = .ok () state ∧
      state.calls.map TargetCall.kind = ["target", "page", "resources"] ∧
      ∃ d ids, (ofConfig "/repo" {}).parseText "x" "/repo/x/BUILD" (.ofList declaredTwice) = .ok d ∧
        AreIds "x" state.calls ids ∧ d.Holds "x" state.calls ids := by
  have hruns : (Sandbox.ofConfig "/repo" {}).endsIn "/repo/x/BUILD" (.ofList declaredTwice)
      (fun state => state.calls.map TargetCall.kind == ["target", "page", "resources"]) = true := by
    unfold Sandbox.endsIn
    rw [Script.parseScript_ofList]
    decide +kernel
  obtain ⟨script, state, hparse, hrun, hkinds⟩ := Sandbox.exists_run hruns
  exact ⟨script, state, hparse, hrun, beq_iff_eq.mp hkinds,
    parseText_holds "/repo" {} "x" "/repo/x/BUILD" (.ofList declaredTwice) hparse hrun⟩

end Monorepo
