import Monorepo.Script.Evaluation
import Monorepo.Proofs.Sorting

/-!
# What values are made of

A container holds its items, a dictionary its keys and entries, and a method its receiver. The
operations of the language rearrange what their operands hold and add texts, numbers and stubs.
They make no functions, and dictionaries only by inserting entries. So a property that survives
insertion holds of every part of a result if it holds of every part of the operands.
-/

namespace Monorepo.Script

namespace Value

/-- The values that a value holds. -/
def parts : Value → List Value
  | .list items | .tuple items => items
  | .dict entries => entries.flatMap fun (key, value) => [key, value]
  | .method receiver _ => [receiver]
  | _ => []

/-- A value that satisfies `P` together with all that it holds, however deep. -/
inductive All (P : Value → Prop) : Value → Prop
  | intro {v : Value} (self : P v) (parts : ∀ part ∈ v.parts, All P part) : All P v

/-- Whether a value is neither a function nor a dictionary. -/
def isPlain : Value → Bool
  | .builtin _ | .function _ | .dict _ => false
  | _ => true

/-- Whether a value is plain and holds no others. -/
def isAtom : Value → Bool
  | .none | .bool _ | .int _ | .float _ | .text _ | .stub _ => true
  | _ => false

/-- A property that operations keep. -/
structure Kept (P : Value → Prop) : Prop where
  plain : ∀ {v : Value}, v.isPlain = true → P v
  empty : P (.dict [])
  insert : ∀ {entries : Entries} (key value : Value), P (.dict entries) →
    P (.dict (entries.insert key value))

section All

variable {P : Value → Prop} {v : Value}

theorem All.self (h : All P v) : P v := by
  cases h with
  | intro self parts => exact self

theorem All.parts (h : All P v) : ∀ part ∈ v.parts, All P part := by
  cases h with
  | intro self parts => exact parts

theorem All.leaf (h : P v) (hnone : v.parts = []) : All P v := by
  refine ⟨h, ?_⟩
  rw [hnone]
  exact List.forall_mem_nil _

theorem All.mono {Q : Value → Prop} (hPQ : ∀ v, P v → Q v) (h : All P v) : All Q v := by
  induction h with
  | intro self _ ih => exact ⟨hPQ _ self, ih⟩

theorem all_iff_parts (h : P v) : All P v ↔ ∀ part ∈ v.parts, All P part :=
  ⟨fun hv => hv.parts, fun hparts => ⟨h, hparts⟩⟩

theorem All.list {items : List Value} (h : All P (.list items)) : ∀ v ∈ items, All P v := h.parts

theorem All.tuple {items : List Value} (h : All P (.tuple items)) : ∀ v ∈ items, All P v := h.parts

theorem All.receiver {receiver : Value} {name : String} (h : All P (.method receiver name)) :
    All P receiver :=
  h.parts receiver (List.mem_singleton.mpr rfl)

theorem forall_mem_parts_dict {entries : Entries} {Q : Value → Prop} :
    (∀ part ∈ (Value.dict entries).parts, Q part) ↔ ∀ e ∈ entries, Q e.1 ∧ Q e.2 := by
  constructor
  · intro h e he
    have hmem (part : Value) (hpart : part = e.1 ∨ part = e.2) : Q part :=
      h part (List.mem_flatMap.mpr ⟨e, he, by simpa using hpart⟩)
    exact ⟨hmem e.1 (Or.inl rfl), hmem e.2 (Or.inr rfl)⟩
  · intro h part hpart
    obtain ⟨e, he, hpart⟩ := List.mem_flatMap.mp hpart
    have hpart : part = e.1 ∨ part = e.2 := by simpa using hpart
    rcases hpart with rfl | rfl
    · exact (h e he).1
    · exact (h e he).2

theorem All.entries {entries : Entries} (h : All P (.dict entries)) :
    ∀ e ∈ entries, All P e.1 ∧ All P e.2 :=
  forall_mem_parts_dict.mp h.parts

variable (hP : Kept P)
include hP

theorem Kept.atom (h : v.isAtom = true) : All P v := by
  cases v with
  | list | tuple | dict | builtin | function | method => cases h
  | _ => exact ⟨hP.plain rfl, List.forall_mem_nil _⟩

theorem Kept.list {items : List Value} (h : ∀ v ∈ items, All P v) : All P (.list items) :=
  ⟨hP.plain rfl, h⟩

theorem Kept.tuple {items : List Value} (h : ∀ v ∈ items, All P v) : All P (.tuple items) :=
  ⟨hP.plain rfl, h⟩

theorem Kept.method {receiver : Value} (h : All P receiver) (name : String) :
    All P (.method receiver name) :=
  ⟨hP.plain rfl, List.forall_mem_singleton.mpr h⟩

theorem Kept.dict_nil : All P (.dict []) := ⟨hP.empty, List.forall_mem_nil _⟩

/-- The values that a value yields are its parts, characters or a stub. -/
theorem Kept.items (hv : All P v) {items : List Value} (h : v.items? = some items) :
    ∀ item ∈ items, All P item := by
  cases v with
  | list items' =>
    cases h
    exact hv.list
  | tuple items' =>
    cases h
    exact hv.tuple
  | text s =>
    cases h
    intro item hitem
    obtain ⟨c, -, rfl⟩ := List.mem_map.mp hitem
    exact hP.atom rfl
  | dict entries =>
    cases h
    intro item hitem
    obtain ⟨e, he, rfl⟩ := List.mem_map.mp hitem
    exact (hv.entries e he).1
  | stub trace =>
    cases h
    exact List.forall_mem_singleton.mpr (hP.atom rfl)
  | _ => cases h

theorem Kept.iterate (hv : All P v) {items : List Value} (h : iterate v = .ok items) :
    ∀ item ∈ items, All P item := by
  unfold Script.iterate at h
  split at h
  · rename_i items' hitems
    cases h
    exact hP.items hv hitems
  · cases h

end All

/-! ## Dictionaries and keywords -/

section Entries

variable {P : Value → Prop}

theorem forall_mem_insert {Q : Value × Value → Prop} {entries : Entries} {key value : Value}
    (h : ∀ e ∈ entries, Q e) (hnew : Q (key, value))
    (hset : ∀ k v, Q (k, v) → Q (k, value)) : ∀ e ∈ entries.insert key value, Q e := by
  induction entries with
  | nil => exact List.forall_mem_singleton.mpr hnew
  | cons entry rest ih =>
    obtain ⟨hentry, hrest⟩ := List.forall_mem_cons.mp h
    unfold Entries.insert
    split
    · exact List.forall_mem_cons.mpr ⟨hset _ _ hentry, hrest⟩
    · exact List.forall_mem_cons.mpr ⟨hentry, ih hrest⟩

theorem mem_of_entriesGet {entries : Entries} {key value : Value}
    (h : entries.get? key = some value) : ∃ k, (k, value) ∈ entries := by
  obtain ⟨e, he, rfl⟩ := Option.map_eq_some_iff.mp h
  exact ⟨e.1, List.mem_of_find?_eq_some he⟩

theorem mem_of_keywordsGet {keywords : Keywords} {name : String} {value : Value}
    (h : keywords.get? name = some value) : ∃ k, (k, value) ∈ keywords := by
  obtain ⟨e, he, rfl⟩ := Option.map_eq_some_iff.mp h
  exact ⟨e.1, List.mem_of_find?_eq_some he⟩

theorem forall_mem_keywordsSet {Q : String × Value → Prop} {keywords : Keywords} {name : String}
    {value : Value} (h : ∀ k ∈ keywords, Q k) (hnew : ∀ n, Q (n, value)) :
    ∀ k ∈ keywords.set name value, Q k := by
  induction keywords with
  | nil => exact List.forall_mem_singleton.mpr (hnew name)
  | cons entry rest ih =>
    obtain ⟨hentry, hrest⟩ := List.forall_mem_cons.mp h
    unfold Keywords.set
    split
    · exact List.forall_mem_cons.mpr ⟨hnew _, hrest⟩
    · exact List.forall_mem_cons.mpr ⟨hentry, ih hrest⟩

variable (hP : Kept P)
include hP

theorem Kept.dict_insert {entries : Entries} {key value : Value} (h : All P (.dict entries))
    (hkey : All P key) (hvalue : All P value) : All P (.dict (entries.insert key value)) := by
  refine ⟨hP.insert key value h.self, forall_mem_parts_dict.mpr ?_⟩
  exact forall_mem_insert h.entries ⟨hkey, hvalue⟩ fun k v hkv => ⟨hkv.1, hvalue⟩

theorem Kept.dict_insertAll {entries : Entries} {more : List (Value × Value)}
    (h : All P (.dict entries)) (hmore : ∀ e ∈ more, All P e.1 ∧ All P e.2) :
    All P (.dict (entries.insertAll more)) := by
  induction more generalizing entries with
  | nil => exact h
  | cons entry more ih =>
    obtain ⟨hentry, hmore⟩ := List.forall_mem_cons.mp hmore
    exact ih (hP.dict_insert h hentry.1 hentry.2) hmore

/-- Keywords as entries under texts. -/
theorem Kept.named {keywords : Keywords} (h : ∀ k ∈ keywords, All P k.2) :
    ∀ e ∈ keywords.map fun (name, value) => (Value.text name, value), All P e.1 ∧ All P e.2 := by
  intro e he
  obtain ⟨k, hk, rfl⟩ := List.mem_map.mp he
  exact ⟨hP.atom rfl, h k hk⟩

end Entries

/-! ## Leaves -/

section Leaves

variable {P : Value → Prop}

mutual

theorem all_leavesOnto {done : List Value} (hdone : ∀ leaf ∈ done, All P leaf) :
    (v : Value) → All P v → ∀ leaf ∈ leavesOnto done v, All P leaf
  | .list items, h => all_leavesOfOnto hdone items h.list
  | .tuple items, h => all_leavesOfOnto hdone items h.tuple
  | .none, h => List.forall_mem_cons.mpr ⟨h, hdone⟩
  | .bool _, h => List.forall_mem_cons.mpr ⟨h, hdone⟩
  | .int _, h => List.forall_mem_cons.mpr ⟨h, hdone⟩
  | .float _, h => List.forall_mem_cons.mpr ⟨h, hdone⟩
  | .text _, h => List.forall_mem_cons.mpr ⟨h, hdone⟩
  | .dict _, h => List.forall_mem_cons.mpr ⟨h, hdone⟩
  | .builtin _, h => List.forall_mem_cons.mpr ⟨h, hdone⟩
  | .function _, h => List.forall_mem_cons.mpr ⟨h, hdone⟩
  | .method _ _, h => List.forall_mem_cons.mpr ⟨h, hdone⟩
  | .stub _, h => List.forall_mem_cons.mpr ⟨h, hdone⟩

theorem all_leavesOfOnto {done : List Value} (hdone : ∀ leaf ∈ done, All P leaf) :
    (values : List Value) → (∀ v ∈ values, All P v) → ∀ leaf ∈ leavesOfOnto done values, All P leaf
  | [], _ => hdone
  | value :: values, h => by
    obtain ⟨hvalue, hvalues⟩ := List.forall_mem_cons.mp h
    exact all_leavesOfOnto (all_leavesOnto hdone value hvalue) values hvalues

end

theorem all_leaves {v : Value} (h : All P v) : ∀ leaf ∈ v.leaves, All P leaf := by
  intro leaf hleaf
  exact all_leavesOnto (List.forall_mem_nil _) v h leaf (List.mem_reverse.mp hleaf)

end Leaves

end Value

open Value (All Kept)

/-! ## Operators -/

section Operators

theorem isAtom_intArithmetic {op : ArithmeticOp} {x y : Int} {v : Value}
    (h : intArithmetic op x y = .ok v) : v.isAtom = true := by
  unfold intArithmetic at h
  split at h
  · cases h
  · cases op with
    | divide =>
      cases h
      rfl
    | _ =>
      obtain ⟨n, -, rfl⟩ := ok_of_map h
      rfl

theorem isAtom_floatArithmetic {op : ArithmeticOp} {x y : Float} {v : Value}
    (h : floatArithmetic op x y = .ok v) : v.isAtom = true := by
  unfold floatArithmetic at h
  split at h
  · cases h
  · cases h
    rfl

theorem isAtom_operateNumbers {op : ArithmeticOp} {left right v : Value}
    (h : operateNumbers op left right = .ok v) : v.isAtom = true := by
  unfold operateNumbers at h
  split at h
  · unfold arithmetic at h
    split at h
    · exact isAtom_intArithmetic h
    · exact isAtom_floatArithmetic h
  · cases h

theorem isAtom_repeatText {s : String} {n : Int} {v : Value} (h : repeatText s n = .ok v) :
    v.isAtom = true := by
  obtain ⟨count, -, h⟩ := ok_of_bind h
  cases h
  rfl

theorem mem_of_mem_repeatItems {α : Type} {items : List α} {count : Nat} {a : α}
    (h : a ∈ repeatItems items count) : a ∈ items := by
  unfold repeatItems at h
  split at h
  · cases h
  · obtain ⟨copy, hcopy, ha⟩ := List.mem_flatten.mp h
    exact List.eq_of_mem_replicate hcopy ▸ ha

theorem isAtom_applyUnary {op : UnaryOp} {operand v : Value} (h : applyUnary op operand = .ok v) :
    v.isAtom = true := by
  unfold applyUnary at h
  split at h
  case h_3 =>
    obtain ⟨n, -, rfl⟩ := ok_of_map h
    rfl
  all_goals
    cases h
    try rfl

theorem isAtom_applyComparison {op : ComparisonOp} {left right v : Value}
    (h : applyComparison op left right = .ok v) : v.isAtom = true := by
  unfold applyComparison at h
  split at h
  · obtain ⟨b, -, rfl⟩ := ok_of_map h
    rfl
  · split at h
    · cases h
      rfl
    · cases h
      rfl
    · obtain ⟨b, -, rfl⟩ := ok_of_map h
      rfl

theorem mem_of_itemAt {α : Type} {fault : EvalFault} {items : List α} {index : Int} {a : α}
    (h : itemAt fault items index = .ok a) : a ∈ items := by
  unfold itemAt at h
  split at h
  · rename_i item hitem
    cases h
    obtain ⟨place, -, hplace⟩ := Option.bind_eq_some_iff.mp hitem
    exact List.mem_of_getElem? hplace
  · cases h

variable {P : Value → Prop} (hP : Kept P)
include hP

theorem all_repeatList {items : List Value} {n : Int} {v : Value} (hitems : ∀ v ∈ items, All P v)
    (h : repeatList items n = .ok v) : All P v := by
  obtain ⟨count, -, h⟩ := ok_of_bind h
  cases h
  exact hP.list fun v hv => hitems v (mem_of_mem_repeatItems hv)

theorem all_operate {op : ArithmeticOp} {left right v : Value} (hleft : All P left)
    (hright : All P right) (h : operate op left right = .ok v) : All P v := by
  unfold operate at h
  split at h
  · cases h
    exact hP.atom rfl
  · cases h
    exact hP.atom rfl
  · split at h
    · cases h
      exact hP.atom rfl
    · cases h
      exact hP.list (List.forall_mem_append.mpr ⟨hleft.list, hright.list⟩)
    · cases h
      exact hP.tuple (List.forall_mem_append.mpr ⟨hleft.tuple, hright.tuple⟩)
    · exact hP.atom (isAtom_repeatText h)
    · exact hP.atom (isAtom_repeatText h)
    · exact all_repeatList hP hleft.list h
    · exact all_repeatList hP hright.list h
    · obtain ⟨s, -, rfl⟩ := ok_of_map h
      exact hP.atom rfl
    · exact hP.atom (isAtom_operateNumbers h)

theorem all_subscript {object index v : Value} (hobject : All P object)
    (h : subscript object index = .ok v) : All P v := by
  unfold subscript at h
  split at h
  · cases h
    exact hP.atom rfl
  · cases h
    exact hP.atom rfl
  · exact hobject.list v (mem_of_itemAt h)
  · exact hobject.tuple v (mem_of_itemAt h)
  · obtain ⟨c, -, rfl⟩ := ok_of_map h
    exact hP.atom rfl
  · split at h
    · rename_i value hvalue
      cases h
      obtain ⟨k, hk⟩ := Value.mem_of_entriesGet hvalue
      exact (hobject.entries _ hk).2
    · cases h
  all_goals cases h

theorem all_replaceItem {container key value v : Value} (hcontainer : All P container)
    (hkey : All P key) (hvalue : All P value) (h : replaceItem container key value = .ok v) :
    All P v := by
  unfold replaceItem at h
  split at h
  · cases h
    exact hP.dict_insert hcontainer hkey hvalue
  · split at h
    · split at h
      · cases h
        refine hP.list fun v hv => ?_
        rcases List.mem_or_eq_of_mem_set hv with hv | rfl
        · exact hcontainer.list v hv
        · exact hvalue
      · cases h
    · cases h
      exact hcontainer
    · cases h
  · cases h
    exact hcontainer
  · cases h

end Operators

/-! ## Methods -/

section Methods

theorem isAtom_joinTexts {separator : String} {arguments : List Value} {v : Value}
    (h : joinTexts separator arguments = .ok v) : v.isAtom = true := by
  unfold joinTexts at h
  split at h
  · obtain ⟨items, -, h⟩ := ok_of_bind h
    split at h
    · cases h
      rfl
    · obtain ⟨pieces, -, h⟩ := ok_of_bind h
      dsimp only at h
      split at h
      · cases h
      · cases h
        rfl
  · cases h

theorem isAtom_replaceText {s old new : String} {limit : Option Nat} {v : Value}
    (h : replaceText s old new limit = .ok v) : v.isAtom = true := by
  unfold replaceText at h
  dsimp only at h
  split at h
  all_goals
    split at h
    · cases h
    · cases h
      rfl

theorem isAtom_replaceMethod {s : String} {arguments : List Value} {v : Value}
    (h : replaceMethod s arguments = .ok v) : v.isAtom = true := by
  unfold replaceMethod at h
  split at h
  · exact isAtom_replaceText h
  · exact isAtom_replaceText h
  · cases h

theorem isAtom_affixMethod {name : String} {affixed : List Char → Bool} {arguments : List Value}
    {v : Value} (h : affixMethod name affixed arguments = .ok v) : v.isAtom = true := by
  unfold affixMethod at h
  split at h
  · split at h
    · cases h
      rfl
    · cases h
      rfl
    · cases h
  · cases h

theorem isAtom_stripMethod {s name : String} {arguments : List Value} {v : Value}
    (h : stripMethod s name arguments = .ok v) : v.isAtom = true := by
  unfold stripMethod at h
  generalize arguments.head? = chosen at h
  cases chosen with
  | none =>
    cases h
    rfl
  | some chosen =>
    cases chosen with
    | none | text =>
      cases h
      rfl
    | _ => cases h

variable {P : Value → Prop} (hP : Kept P)
include hP

theorem all_limitedPieces {s : String} {chosen : Option Value} {separator : Option (List Char)}
    {v : Value} (h : (do
      let limit : Option Nat ←
        match chosen with
        | none => pure none
        | some (.int n) => pure (if n < 0 then none else some n.toNat)
        | some other => throw (.splitLimitType other.type)
      return .list ((splitPieces s.toList separator limit).map
        fun piece => .text (String.ofList piece)) : Except EvalFault Value) = .ok v) :
    All P v := by
  have hpieces (pieces : List (List Char)) :
      All P (.list (pieces.map fun piece => .text (String.ofList piece))) :=
    hP.list (List.forall_mem_map.mpr fun piece _ => hP.atom rfl)
  rcases chosen with _ | chosen
  · cases h
    exact hpieces _
  · cases chosen with
    | int n =>
      cases h
      exact hpieces _
    | _ => cases h

theorem all_splitMethod {s : String} {arguments : List Value} {keywords : Keywords} {v : Value}
    (h : splitMethod s arguments keywords = .ok v) : All P v := by
  unfold splitMethod at h
  generalize (arguments.head? <|> Keywords.get? keywords "sep") = chosen at h
  rcases chosen with _ | chosen
  · exact all_limitedPieces hP h
  · cases chosen with
    | none => exact all_limitedPieces hP h
    | text separator =>
      dsimp only at h
      by_cases hempty : separator.isEmpty = true
      · rw [if_pos hempty] at h
        cases h
      · rw [if_neg hempty] at h
        exact all_limitedPieces hP h
    | _ => cases h

theorem all_callTextMethod {s name : String} {arguments : List Value} {keywords : Keywords}
    {v : Value} (h : callTextMethod s name arguments keywords = .ok v) : All P v := by
  unfold callTextMethod at h
  split at h
  · obtain ⟨t, -, rfl⟩ := ok_of_map h
    exact hP.atom rfl
  · exact hP.atom (isAtom_joinTexts h)
  · exact hP.atom (isAtom_replaceMethod h)
  · exact hP.atom (isAtom_affixMethod h)
  · exact hP.atom (isAtom_affixMethod h)
  · exact all_splitMethod hP h
  · exact hP.atom (isAtom_stripMethod h)
  · exact hP.atom (isAtom_stripMethod h)
  · exact hP.atom (isAtom_stripMethod h)
  all_goals
    cases h
    exact hP.atom rfl

theorem all_getMethod {entries : Entries} {arguments : List Value} {v : Value}
    (hentries : All P (.dict entries)) (harguments : ∀ v ∈ arguments, All P v)
    (h : getMethod entries arguments = .ok v) : All P v := by
  have hfound {key default : Value} (hdefault : All P default) :
      All P ((entries.get? key).getD default) := by
    cases hvalue : entries.get? key with
    | none => exact hdefault
    | some value =>
      obtain ⟨k, hk⟩ := Value.mem_of_entriesGet hvalue
      exact (hentries.entries _ hk).2
  unfold getMethod at h
  split at h
  · cases h
    exact hfound (hP.atom rfl)
  · cases h
    exact hfound (harguments _ (by simp))
  · cases h

theorem all_callDictMethod {entries : Entries} {name : String} {arguments : List Value}
    {keywords : Keywords} {v : Value} (hentries : All P (.dict entries))
    (harguments : ∀ v ∈ arguments, All P v)
    (h : callDictMethod entries name arguments keywords = .ok v) : All P v := by
  unfold callDictMethod at h
  split at h
  · exact all_getMethod hP hentries harguments h
  · cases h
    exact hP.list (List.forall_mem_map.mpr fun e he => (hentries.entries e he).1)
  · cases h
    exact hP.list (List.forall_mem_map.mpr fun e he => (hentries.entries e he).2)
  · cases h
    refine hP.list (List.forall_mem_map.mpr fun e he => hP.tuple ?_)
    obtain ⟨hkey, hvalue⟩ := hentries.entries e he
    exact List.forall_mem_cons.mpr ⟨hkey, List.forall_mem_singleton.mpr hvalue⟩
  · cases h
    exact hP.atom rfl
  · cases h
    exact hP.atom rfl

theorem all_callMethod {receiver : Value} {name : String} {arguments : List Value}
    {keywords : Keywords} {v : Value} (hreceiver : All P receiver)
    (harguments : ∀ v ∈ arguments, All P v)
    (h : callMethod receiver name arguments keywords = .ok v) : All P v := by
  unfold callMethod at h
  split at h
  · cases h
    exact hP.atom rfl
  · split at h
    · exact all_callTextMethod hP h
    · cases h
      split
      · exact hP.atom rfl
      · exact hP.atom rfl
    · exact all_callDictMethod hP hreceiver harguments h
    · cases h
      exact hP.atom rfl

theorem all_updatesOf {arguments : List Value} {keywords : Keywords}
    {updates : List (Value × Value)} (harguments : ∀ v ∈ arguments, All P v)
    (hkeywords : ∀ k ∈ keywords, All P k.2)
    (h : updatesOf arguments keywords = .ok (some updates)) :
    ∀ e ∈ updates, All P e.1 ∧ All P e.2 := by
  unfold updatesOf at h
  dsimp only at h
  split at h
  · cases h
    exact hP.named hkeywords
  · cases h
    have hother := (List.forall_mem_singleton.mp harguments).entries
    exact List.forall_mem_append.mpr ⟨hother, hP.named hkeywords⟩
  all_goals cases h

theorem all_changeInPlace {receiver : Value} {name : String} {arguments : List Value}
    {keywords : Keywords} {v : Value} (hreceiver : All P receiver)
    (harguments : ∀ v ∈ arguments, All P v) (hkeywords : ∀ k ∈ keywords, All P k.2)
    (h : changeInPlace receiver name arguments keywords = .ok (some v)) : All P v := by
  unfold changeInPlace at h
  split at h
  · split at h
    · cases h
      exact hP.list (List.forall_mem_append.mpr ⟨hreceiver.list, harguments⟩)
    · cases h
  · split at h
    · obtain ⟨more, hmore, h⟩ := ok_of_map h
      cases h
      have hsource := hP.iterate (List.forall_mem_singleton.mp harguments) hmore
      exact hP.list (List.forall_mem_append.mpr ⟨hreceiver.list, hsource⟩)
    · cases h
  · split at h
    · cases h
      obtain ⟨-, hitem⟩ := List.forall_mem_cons.mp harguments
      refine hP.list (List.forall_mem_append.mpr ⟨fun v hv => ?_, ?_⟩)
      · exact hreceiver.list v (List.mem_of_mem_take hv)
      · refine List.forall_mem_cons.mpr ⟨List.forall_mem_singleton.mp hitem, fun v hv => ?_⟩
        exact hreceiver.list v (List.mem_of_mem_drop hv)
    · cases h
    · cases h
  · obtain ⟨updates, hupdates, h⟩ := ok_of_map h
    obtain ⟨updates, rfl, rfl⟩ := Option.map_eq_some_iff.mp h
    exact hP.dict_insertAll hreceiver (all_updatesOf hP harguments hkeywords hupdates)
  · cases h

end Methods

/-! ## Predefined functions -/

section Builtins

theorem isAtom_lengthOf {arguments : List Value} {v : Value} (h : lengthOf arguments = .ok v) :
    v.isAtom = true := by
  unfold lengthOf at h
  split at h
  · split at h
    case h_5 => cases h
    all_goals
      cases h
      rfl
  · cases h

theorem isAtom_toText {arguments : List Value} {v : Value} (h : toText arguments = .ok v) :
    v.isAtom = true := by
  unfold toText at h
  split at h
  · cases h
    rfl
  · cases h
    rfl
  · cases h

theorem isAtom_toInteger {arguments : List Value} {v : Value} (h : toInteger arguments = .ok v) :
    v.isAtom = true := by
  unfold toInteger at h
  split at h
  · cases h
    rfl
  · cases h
    rfl
  · cases h
    rfl
  · obtain ⟨n, -, rfl⟩ := ok_of_map h
    rfl
  · split at h
    · cases h
      rfl
    · cases h
  · cases h
  · cases h

theorem mem_of_mem_distinctFrom {kept items : List Value} {v : Value}
    (h : v ∈ distinctFrom kept items) : v ∈ kept ∨ v ∈ items := by
  induction items generalizing kept with
  | nil => exact Or.inl (List.mem_reverse.mp h)
  | cons item items ih =>
    unfold distinctFrom at h
    split at h
    · exact (ih h).imp_right (List.mem_cons_of_mem item)
    · rcases ih h with hkept | hitems
      · rcases List.mem_cons.mp hkept with rfl | hkept
        · exact Or.inr List.mem_cons_self
        · exact Or.inl hkept
      · exact Or.inr (List.mem_cons_of_mem item hitems)

variable {P : Value → Prop} (hP : Kept P)
include hP

theorem all_itemsOfArgument {function : String} {arguments items : List Value}
    (harguments : ∀ v ∈ arguments, All P v) (h : itemsOfArgument function arguments = .ok items) :
    ∀ v ∈ items, All P v := by
  unfold itemsOfArgument at h
  split at h
  · cases h
    exact List.forall_mem_nil _
  · exact hP.iterate (List.forall_mem_singleton.mp harguments) h
  · cases h

omit hP in
theorem all_distinct {items : List Value} (h : ∀ v ∈ items, All P v) :
    ∀ v ∈ distinct items, All P v := by
  intro v hv
  rcases mem_of_mem_distinctFrom hv with hv | hv
  · cases hv
  · exact h v hv

theorem all_insertPairs {entries out : Entries} {pairs : List Value}
    (hentries : All P (.dict entries)) (hpairs : ∀ v ∈ pairs, All P v)
    (h : insertPairs entries pairs = .ok out) : All P (.dict out) := by
  induction pairs generalizing entries with
  | nil =>
    cases h
    exact hentries
  | cons pair pairs ih =>
    obtain ⟨hpair, hpairs⟩ := List.forall_mem_cons.mp hpairs
    unfold insertPairs at h
    split at h
    · rename_i key value hitems
      obtain ⟨hkey, hvalue⟩ := List.forall_mem_cons.mp (hP.items hpair hitems)
      exact ih (hP.dict_insert hentries hkey (List.forall_mem_singleton.mp hvalue)) hpairs h
    · cases h

theorem all_toDict {arguments : List Value} {keywords : Keywords} {v : Value}
    (harguments : ∀ v ∈ arguments, All P v) (hkeywords : ∀ k ∈ keywords, All P k.2)
    (h : toDict arguments keywords = .ok v) : All P v := by
  have hinsert {entries : Entries} (hentries : All P (.dict entries)) :
      All P (.dict (entries.insertAll (keywords.map fun (name, value) => (.text name, value)))) :=
    hP.dict_insertAll hentries (hP.named hkeywords)
  unfold toDict at h
  split at h
  · cases h
    exact hinsert hP.dict_nil
  · cases h
    exact hinsert (List.forall_mem_singleton.mp harguments)
  · obtain ⟨pairs, hpairs, h⟩ := ok_of_bind h
    obtain ⟨entries, hentries, h⟩ := ok_of_bind h
    cases h
    have hitems := hP.iterate (List.forall_mem_singleton.mp harguments) hpairs
    exact hinsert (all_insertPairs hP hP.dict_nil hitems hentries)
  · cases h

omit hP in
theorem mem_of_sortValues {values out : List Value} (h : sortValues values = .ok out) :
    ∀ v ∈ out, v ∈ values := by
  obtain ⟨sorted, hsorted, h⟩ := ok_of_bind h
  split at h
  · cases h
  · cases h
    exact Sorting.mem_of_sort hsorted

theorem all_sorted {arguments : List Value} {keywords : Keywords} {v : Value}
    (harguments : ∀ v ∈ arguments, All P v) (h : sorted arguments keywords = .ok v) : All P v := by
  unfold sorted at h
  split at h
  · split at h
    · cases h
    · obtain ⟨items, hitems, h⟩ := ok_of_bind h
      have hall := hP.iterate (List.forall_mem_singleton.mp harguments) hitems
      split at h
      · cases h
      · cases h
      · rename_i out hsort
        cases h
        have hout : ∀ v ∈ out, All P v := fun v hv => hall v (mem_of_sortValues hsort v hv)
        refine hP.list ?_
        split
        · exact fun v hv => hout v (List.mem_reverse.mp hv)
        · exact hout
  · cases h

theorem all_rangeList {start stop step : Int} {v : Value} (h : rangeList start stop step = .ok v) :
    All P v := by
  unfold rangeList at h
  dsimp only at h
  split at h
  · cases h
  · split at h
    · cases h
    · cases h
      exact hP.list (List.forall_mem_map.mpr fun i hi => hP.atom rfl)

theorem all_range {arguments : List Value} {v : Value} (h : range arguments = .ok v) :
    All P v := by
  obtain ⟨bounds, -, h⟩ := ok_of_bind h
  split at h
  · exact all_rangeList hP h
  · exact all_rangeList hP h
  · exact all_rangeList hP h
  · cases h

theorem all_mapM_operate {leaves marked : List Value} {op : ArithmeticOp} {mark : Value}
    (hleaves : ∀ v ∈ leaves, All P v) (hmark : All P mark)
    (h : leaves.mapM (fun leaf => operate op leaf mark) = .ok marked) :
    ∀ v ∈ marked, All P v := by
  induction leaves generalizing marked with
  | nil =>
    cases h
    exact List.forall_mem_nil _
  | cons leaf leaves ih =>
    obtain ⟨hleaf, hleaves⟩ := List.forall_mem_cons.mp hleaves
    rw [List.mapM_cons] at h
    obtain ⟨first, hfirst, h⟩ := ok_of_bind h
    obtain ⟨rest, hrest, h⟩ := ok_of_bind h
    cases h
    exact List.forall_mem_cons.mpr ⟨all_operate hP hleaf hmark hfirst, ih hleaves hrest⟩

theorem all_glob {kind : GlobKind} {arguments : List Value} {keywords : Keywords} {v : Value}
    (hkeywords : ∀ k ∈ keywords, All P k.2) (h : glob kind arguments keywords = .ok v) :
    All P v := by
  obtain ⟨marked, hmarked, h⟩ := ok_of_bind h
  cases h
  refine hP.list (List.forall_mem_append.mpr ⟨?_, ?_⟩)
  · exact List.forall_mem_map.mpr fun pattern _ => hP.atom rfl
  · refine all_mapM_operate hP ?_ (hP.atom rfl) hmarked
    split
    · rename_i value hvalue
      obtain ⟨name, hname⟩ := Value.mem_of_keywordsGet hvalue
      intro leaf hleaf
      exact Value.all_leaves (hkeywords _ hname) leaf ((List.mem_filter.mp hleaf).1)
    · exact List.forall_mem_nil _

theorem all_computeBuiltin {setting : Setting} {b : Builtin} {arguments : List Value}
    {keywords : Keywords} {v : Value} (harguments : ∀ v ∈ arguments, All P v)
    (hkeywords : ∀ k ∈ keywords, All P k.2)
    (h : computeBuiltin setting b arguments keywords = .ok v) : All P v := by
  have hitems {function : String} {items : List Value}
      (hof : itemsOfArgument function arguments = .ok items) :=
    all_itemsOfArgument hP harguments hof
  cases b with
  | glob kind => exact all_glob hP hkeywords h
  | len => exact hP.atom (isAtom_lengthOf h)
  | str => exact hP.atom (isAtom_toText h)
  | int => exact hP.atom (isAtom_toInteger h)
  | list =>
    obtain ⟨items, hof, rfl⟩ := ok_of_map h
    exact hP.list (hitems hof)
  | tuple =>
    obtain ⟨items, hof, rfl⟩ := ok_of_map h
    exact hP.tuple (hitems hof)
  | set =>
    obtain ⟨items, hof, rfl⟩ := ok_of_map h
    exact hP.list (all_distinct (hitems hof))
  | dict => exact all_toDict hP harguments hkeywords h
  | sorted => exact all_sorted hP harguments h
  | range => exact all_range hP h
  | _ =>
    cases h
    exact hP.atom rfl

end Builtins

end Monorepo.Script
