import Monorepo.Proofs.Equality

/-!
# Order of values

The order of values is partial, and it asks only for the first items in which two lists differ, so
lists may compare although items behind those do not. Still it turns around with its arguments, and
it says "equal" only of values that are. It is transitive as well wherever the numbers are ordered
as their types order them. For an integer that is rounded when it is compared with a floating-point
number this fails, and for nothing else.
-/

namespace Monorepo.Script

/-! ## Answers that follow from others -/

/-- Where an order finds `a` not greater than `b` and `b` not greater than `c`, it finds the same of
    `a` and `c`, and that `a` is less as soon as one of the two answers said so. -/
def Chains (ab bc ac : Option Ordering) : Prop :=
  ∀ o p, ab = some o → bc = some p → o ≠ .gt → p ≠ .gt → ac = some (o.then p)

theorem compare_chain {α : Type} {cmp : α → α → Ordering} [Std.TransCmp cmp] {a b c : α}
    (hab : cmp a b ≠ .gt) (hbc : cmp b c ≠ .gt) : cmp a c = (cmp a b).then (cmp b c) := by
  cases h : cmp a b with
  | lt => exact Std.TransCmp.lt_of_lt_of_isLE h (Ordering.isLE_iff_ne_gt.mpr hbc)
  | eq => exact Std.TransCmp.congr_left h
  | gt => exact absurd h hab

theorem chains_compare {α : Type} (cmp : α → α → Ordering) [Std.TransCmp cmp] (a b c : α) :
    Chains (some (cmp a b)) (some (cmp b c)) (some (cmp a c)) := by
  intro o p hab hbc ho hp
  cases hab
  cases hbc
  exact congrArg some (compare_chain ho hp)

/-! ## Floating-point numbers -/

section Floats

open Float.Model (UnpackedFloat)

/-- The place of a number among all: its class, then its exponent and its mantissa, both of which
    count down below zero. What is no number has none. -/
def unpackedPlace : UnpackedFloat → Option (Int × Int × Int)
  | .notANumber => none
  | .infinity .negative => some (-2, 0, 0)
  | .finite .negative mantissa exponent _ => some (-1, -exponent, -mantissa)
  | .zero _ => some (0, 0, 0)
  | .finite .positive mantissa exponent _ => some (1, exponent, mantissa)
  | .infinity .positive => some (2, 0, 0)

/-- The order of places. -/
def comparePlaces : Int × Int × Int → Int × Int × Int → Ordering :=
  compareLex (compareOn (·.1)) (compareLex (compareOn (·.2.1)) (compareOn (·.2.2)))

instance : Std.TransCmp comparePlaces :=
  inferInstanceAs (Std.TransCmp (compareLex _ (compareLex _ _)))

theorem compare_negated (m n : Int) : compare (-m) (-n) = (compare m n).swap := by
  simp only [compare, compareOfLessAndEq]
  split_ifs <;> first | rfl | omega

theorem compare_natCast (m n : Nat) : compare (m : Int) (n : Int) = compare m n := by
  simp only [compare, compareOfLessAndEq]
  split_ifs <;> first | rfl | omega

theorem compare_unpacked (u v : UnpackedFloat) :
    u.compare v = (unpackedPlace u).bind fun p => (unpackedPlace v).map (comparePlaces p) := by
  cases u with
  | notANumber => rfl
  | infinity s =>
    cases v with
    | infinity t => cases s <;> cases t <;> rfl
    | finite t => cases s <;> cases t <;> rfl
    | zero | notANumber => cases s <;> rfl
  | zero s =>
    cases v with
    | infinity t => cases t <;> rfl
    | finite t => cases t <;> rfl
    | zero | notANumber => rfl
  | finite s m e =>
    cases v with
    | infinity t => cases s <;> cases t <;> rfl
    | zero | notANumber => cases s <;> rfl
    | finite t n f =>
      -- only two numbers of one sign are told apart by exponent and mantissa
      cases s <;> cases t
      · change some ((compare e f).then (compare m n)).swap =
          some (comparePlaces (-1, -e, -m) (-1, -f, -n))
        simp [comparePlaces, compareLex, compareOn, compare_negated, compare_natCast,
          Ordering.swap_then]
      · rfl
      · rfl
      · change some ((compare e f).then (compare m n)) = some (comparePlaces (1, e, m) (1, f, n))
        simp [comparePlaces, compareLex, compareOn, compare_natCast]

/-- The place of a floating-point number. -/
def floatPlace (x : Float) : Option (Int × Int × Int) := unpackedPlace x.toModel.unpack

/-- The order of two places, if there are both. -/
def comparePlaces? (p q : Option (Int × Int × Int)) : Option Ordering :=
  p.bind fun p => q.map (comparePlaces p)

theorem comparePlaces?_swap (p q : Option (Int × Int × Int)) :
    comparePlaces? q p = (comparePlaces? p q).map .swap := by
  cases p with
  | none => cases q <;> rfl
  | some p =>
    cases q with
    | none => rfl
    | some q => exact congrArg some Std.OrientedCmp.eq_swap

theorem chains_comparePlaces? (p q r : Option (Int × Int × Int)) :
    Chains (comparePlaces? p q) (comparePlaces? q r) (comparePlaces? p r) := by
  cases p with
  | none => exact nofun
  | some p =>
    cases q with
    | none => exact nofun
    | some q =>
      cases r with
      | none => exact nofun
      | some r => exact chains_compare comparePlaces p q r

theorem float_lt_iff {x y : Float} :
    x < y ↔ comparePlaces? (floatPlace x) (floatPlace y) = some .lt := by
  unfold comparePlaces? floatPlace
  rw [← compare_unpacked]
  change Float.lt x y = true ↔ _
  unfold Float.lt
  rw [decide_eq_true_iff]
  change (_ == _) = true ↔ _
  exact beq_iff_eq

theorem float_beq_iff {x y : Float} :
    (x == y) = true ↔ comparePlaces? (floatPlace x) (floatPlace y) = some .eq := by
  unfold comparePlaces? floatPlace
  rw [← compare_unpacked]
  change (UnpackedFloat.compare _ _ == _) = true ↔ _
  exact beq_iff_eq

namespace Value

theorem compareFloat_eq (x y : Float) :
    compareFloat x y = comparePlaces? (floatPlace x) (floatPlace y) := by
  have hswap := comparePlaces?_swap (floatPlace x) (floatPlace y)
  simp only [compareFloat, float_lt_iff, float_beq_iff, hswap]
  cases comparePlaces? (floatPlace x) (floatPlace y) with
  | none => rfl
  | some o => cases o <;> rfl

theorem compareFloat_swap (x y : Float) : compareFloat y x = (compareFloat x y).map .swap := by
  rw [compareFloat_eq, compareFloat_eq, comparePlaces?_swap]

theorem chains_compareFloat (x y z : Float) :
    Chains (compareFloat x y) (compareFloat y z) (compareFloat x z) := by
  simp only [compareFloat_eq]
  exact chains_comparePlaces? _ _ _

theorem beq_of_compareFloat {x y : Float} (h : compareFloat x y = some .eq) : (x == y) = true := by
  rw [compareFloat_eq] at h
  exact float_beq_iff.mpr h

end Value

end Floats

namespace Value

/-! ## Turning around -/

theorem compareItems?_swap {as bs : List Value}
    (h : ∀ a ∈ as, ∀ b, b.compare? a = (a.compare? b).map .swap) :
    compareItems? bs as = (compareItems? as bs).map .swap := by
  induction as generalizing bs with
  | nil => cases bs <;> rfl
  | cons a as ih =>
    cases bs with
    | nil => rfl
    | cons b bs =>
      obtain ⟨ha, has⟩ := List.forall_mem_cons.mp h
      simp only [compareItems?, ha b, ih has]
      cases a.compare? b with
      | none => rfl
      | some o => cases o <;> rfl

/-- The order turns around with its arguments, and where it has no answer it has none either way. -/
theorem compare?_swap (a b : Value) : b.compare? a = (a.compare? b).map .swap := by
  induction a using Value.induction_parts generalizing b with
  | step a ih =>
    cases a with
    | int n =>
      cases b with
      | int m => exact congrArg some Std.OrientedCmp.eq_swap
      | float x => exact compareFloat_swap _ _
      | _ => rfl
    | float x =>
      cases b with
      | int m => exact compareFloat_swap _ _
      | float y => exact compareFloat_swap _ _
      | _ => rfl
    | bool x =>
      cases b with
      | bool y => exact congrArg some Std.OrientedCmp.eq_swap
      | _ => rfl
    | text s =>
      cases b with
      | text t => exact congrArg some Std.OrientedCmp.eq_swap
      | _ => rfl
    | list as =>
      cases b with
      | list bs =>
        simp only [compare?]
        exact compareItems?_swap ih
      | _ => rfl
    | tuple as =>
      cases b with
      | tuple bs =>
        simp only [compare?]
        exact compareItems?_swap ih
      | _ => rfl
    | _ => cases b <;> rfl

/-! ## Chains -/

/-- The first items of two lists decide, unless they are equal. -/
theorem compareItems?_cons_eq_some {a b : Value} {as bs : List Value} {o : Ordering}
    (h : compareItems? (a :: as) (b :: bs) = some o) :
    (a.compare? b = some .eq ∧ compareItems? as bs = some o) ∨
      (a.compare? b = some o ∧ o ≠ .eq) := by
  rw [compareItems?] at h
  split at h
  · exact Or.inl ⟨‹_›, h⟩
  · rename_i other
    refine Or.inr ⟨h, ?_⟩
    rintro rfl
    exact other h

theorem compareItems?_cons_of_eq {a b : Value} (as bs : List Value) (h : a.compare? b = some .eq) :
    compareItems? (a :: as) (b :: bs) = compareItems? as bs := by
  rw [compareItems?, h]

theorem compareItems?_cons_of_lt {a b : Value} (as bs : List Value) (h : a.compare? b = some .lt) :
    compareItems? (a :: as) (b :: bs) = some .lt := by
  rw [compareItems?, h]

theorem chains_compareItems? {as bs cs : List Value}
    (h : ∀ a ∈ as, ∀ b ∈ bs, ∀ c ∈ cs, Chains (a.compare? b) (b.compare? c) (a.compare? c)) :
    Chains (compareItems? as bs) (compareItems? bs cs) (compareItems? as cs) := by
  intro o p hab hbc ho hp
  induction as generalizing bs cs with
  | nil =>
    cases bs with
    | nil =>
      cases hab
      exact hbc
    | cons b bs =>
      cases cs with
      | nil =>
        cases hbc
        exact absurd rfl hp
      | cons c cs =>
        cases hab
        rfl
  | cons a as ih =>
    cases bs with
    | nil =>
      cases hab
      exact absurd rfl ho
    | cons b bs =>
      cases cs with
      | nil =>
        cases hbc
        exact absurd rfl hp
      | cons c cs =>
        have hfirst := h a List.mem_cons_self b List.mem_cons_self c List.mem_cons_self
        have hrest : ∀ a ∈ as, ∀ b ∈ bs, ∀ c ∈ cs,
            Chains (a.compare? b) (b.compare? c) (a.compare? c) := fun a ha b hb c hc =>
          h a (List.mem_cons_of_mem _ ha) b (List.mem_cons_of_mem _ hb) c
            (List.mem_cons_of_mem _ hc)
        have hless : ∀ {o : Ordering}, o ≠ .gt → o ≠ .eq → o = .lt := by
          intro o hgt heq
          cases o <;> trivial
        -- what the first items of `a` and `c` decide follows from both pairs
        rcases compareItems?_cons_eq_some hab with ⟨hab, hab'⟩ | ⟨hab, hne⟩
        · rcases compareItems?_cons_eq_some hbc with ⟨hbc, hbc'⟩ | ⟨hbc, hne⟩
          · rw [compareItems?_cons_of_eq as cs (hfirst _ _ hab hbc nofun nofun)]
            exact ih hrest hab' hbc'
          · obtain rfl := hless hp hne
            rw [compareItems?_cons_of_lt as cs (hfirst _ _ hab hbc nofun nofun)]
            cases o <;> trivial
        · obtain rfl := hless ho hne
          rcases compareItems?_cons_eq_some hbc with ⟨hbc, -⟩ | ⟨hbc, -⟩
          · exact compareItems?_cons_of_lt as cs (hfirst _ _ hab hbc nofun nofun)
          · exact compareItems?_cons_of_lt as cs (hfirst _ _ hab hbc nofun hp)

/-- A number of either type. -/
def IsNumber : Value → Prop
  | .int _ | .float _ => True
  | _ => False

/-- Two values of which the order may have an answer. -/
inductive SameKind : Value → Value → Prop
  | number {a b : Value} (ha : a.IsNumber) (hb : b.IsNumber) : SameKind a b
  | bool (x y : Bool) : SameKind (.bool x) (.bool y)
  | text (s t : String) : SameKind (.text s) (.text t)
  | list (as bs : List Value) : SameKind (.list as) (.list bs)
  | tuple (as bs : List Value) : SameKind (.tuple as) (.tuple bs)

theorem sameKind_of_compare? {a b : Value} {o : Ordering} (h : a.compare? b = some o) :
    SameKind a b := by
  unfold compare? at h
  split at h
  case h_1 | h_2 | h_3 | h_4 => exact .number trivial trivial
  case h_5 => exact .bool _ _
  case h_6 => exact .text _ _
  case h_7 => exact .list _ _
  case h_8 => exact .tuple _ _
  case h_9 => cases h

/-- Values are ordered as the numbers in them are: where answers about those follow from others,
    they do so about all. -/
theorem chains_compare? {N : Value → Prop}
    (hN : ∀ {a b c : Value}, a.IsNumber → b.IsNumber → c.IsNumber → N a → N b → N c →
      Chains (a.compare? b) (b.compare? c) (a.compare? c))
    {a b c : Value} (ha : a.All N) (hb : b.All N) (hc : c.All N) :
    Chains (a.compare? b) (b.compare? c) (a.compare? c) := by
  induction a using Value.induction_parts generalizing b c with
  | step a ih =>
    intro o p hab hbc
    have hparts : ∀ a' ∈ a.parts, ∀ b' ∈ b.parts, ∀ c' ∈ c.parts,
        Chains (a'.compare? b') (b'.compare? c') (a'.compare? c') := fun a' ha' b' hb' c' hc' =>
      ih a' ha' (ha.parts a' ha') (hb.parts b' hb') (hc.parts c' hc')
    cases sameKind_of_compare? hab with
    | number han hbn =>
      cases sameKind_of_compare? hbc with
      | number _ hcn => exact hN han hbn hcn ha.self hb.self hc.self o p hab hbc
      | _ => exact hbn.elim
    | bool x y =>
      cases sameKind_of_compare? hbc with
      | number hbn _ => exact hbn.elim
      | bool _ z => exact chains_compare compare x y z o p hab hbc
    | text s t =>
      cases sameKind_of_compare? hbc with
      | number hbn _ => exact hbn.elim
      | text _ u => exact chains_compare compare s t u o p hab hbc
    | list as bs =>
      cases sameKind_of_compare? hbc with
      | number hbn _ => exact hbn.elim
      | list _ cs =>
        simp only [compare?] at hab hbc ⊢
        exact chains_compareItems? hparts o p hab hbc
    | tuple as bs =>
      cases sameKind_of_compare? hbc with
      | number hbn _ => exact hbn.elim
      | tuple _ cs =>
        simp only [compare?] at hab hbc ⊢
        exact chains_compareItems? hparts o p hab hbc

/-- Without floating-point numbers nothing is rounded. -/
theorem Floatless.chains {a b c : Value} (ha : a.Floatless) (hb : b.Floatless) (hc : c.Floatless) :
    Chains (a.compare? b) (b.compare? c) (a.compare? c) := by
  refine chains_compare? ?_ ha hb hc
  intro a b c han hbn hcn ha hb hc
  have hint : ∀ {v : Value}, v.IsNumber → (∀ x, v ≠ .float x) → ∃ n, v = .int n := by
    intro v hv hfloat
    cases v with
    | int n => exact ⟨n, rfl⟩
    | float x => exact absurd rfl (hfloat x)
    | _ => exact hv.elim
  obtain ⟨n, rfl⟩ := hint han ha
  obtain ⟨m, rfl⟩ := hint hbn hb
  obtain ⟨k, rfl⟩ := hint hcn hc
  exact chains_compare compare n m k

/-! ## Equality -/

theorem equalItems_of_compareItems? {as bs : List Value}
    (h : ∀ a ∈ as, ∀ b, a.compare? b = some .eq → a.equals b = true)
    (heq : compareItems? as bs = some .eq) : List.Forall₂ (fun a b => a.equals b = true) as bs := by
  induction as generalizing bs with
  | nil =>
    cases bs with
    | nil => exact .nil
    | cons b bs => cases heq
  | cons a as ih =>
    cases bs with
    | nil => cases heq
    | cons b bs =>
      obtain ⟨ha, has⟩ := List.forall_mem_cons.mp h
      rcases compareItems?_cons_eq_some heq with ⟨hfirst, hrest⟩ | ⟨-, hne⟩
      · exact .cons (ha b hfirst) (ih has hrest)
      · exact absurd rfl hne

/-- Values that are equal in order are equal. -/
theorem equals_of_compare? {a b : Value} (h : a.compare? b = some .eq) : a.equals b = true := by
  induction a using Value.induction_parts generalizing b with
  | step a ih =>
    have hparts : ∀ p ∈ a.parts, ∀ q, p.compare? q = some .eq → p.equals q = true :=
      fun p hp q => ih p hp
    unfold compare? at h
    split at h
    case h_1 | h_5 | h_6 =>
      have h := Std.LawfulEqCmp.eq_of_compare (Option.some.inj h)
      subst h
      simp [equals]
    case h_2 | h_3 => exact beq_of_compareFloat h
    case h_4 x m =>
      have h := (compareFloat_swap x (Float.ofInt m)).trans (congrArg _ h)
      exact beq_of_compareFloat h
    case h_7 as bs => exact equals_list.mpr (equalItems_of_compareItems? hparts h)
    case h_8 as bs => exact equals_tuple.mpr (equalItems_of_compareItems? hparts h)
    case h_9 => cases h

/-! ## The laws -/

/-- On values without floating-point numbers the order is one, as far as it has answers: it turns
    around with its arguments, it has an answer where one follows from two others, and it is strict
    against equality. -/
theorem floatless_order_laws (a b c : Value) (ha : a.Floatless) (hb : b.Floatless)
    (hc : c.Floatless) :
    b.compare? a = (a.compare? b).map .swap ∧
      (∀ o p, a.compare? b = some o → b.compare? c = some p → o ≠ .gt → p ≠ .gt →
        ∃ q, a.compare? c = some q ∧ q ≠ .gt ∧ (o = .lt ∨ p = .lt → q = .lt)) ∧
      (a.compare? b = some .eq → a.equals b = true) := by
  refine ⟨compare?_swap a b, ?_, equals_of_compare?⟩
  intro o p hab hbc ho hp
  refine ⟨o.then p, ha.chains hb hc o p hab hbc ho hp, ?_, ?_⟩
  · cases o with
    | lt => exact nofun
    | eq => exact hp
    | gt => exact absurd rfl ho
  · rintro (rfl | rfl)
    · rfl
    · cases o with
      | lt | eq => rfl
      | gt => exact absurd rfl ho

/-- Two lists whose second items do not compare are ordered by their first ones, and a list comes
    behind what it continues. -/
theorem floatless_order_laws_lists :
    let a := list [.int 1]
    let b := list [.int 1, .text "a"]
    let c := list [.int 2, .none]
    a.Floatless ∧ b.Floatless ∧ c.Floatless ∧ a.compare? b = some .lt ∧ b.compare? c = some .lt ∧
      a.compare? c = some .lt := by
  intro a b c
  have hint (n : Int) : (int n).Floatless := .leaf nofun rfl
  have ha : a.Floatless := ⟨nofun, List.forall_mem_singleton.mpr (hint 1)⟩
  have hb : b.Floatless :=
    ⟨nofun, List.forall_mem_cons.mpr ⟨hint 1, List.forall_mem_singleton.mpr (.leaf nofun rfl)⟩⟩
  have hc : c.Floatless :=
    ⟨nofun, List.forall_mem_cons.mpr ⟨hint 2, List.forall_mem_singleton.mpr (.leaf nofun rfl)⟩⟩
  have hab : a.compare? b = some .lt := by decide
  have hbc : b.compare? c = some .lt := by decide
  obtain ⟨-, hchain, -⟩ := floatless_order_laws a b c ha hb hc
  obtain ⟨q, hq, -, hless⟩ := hchain .lt .lt hab hbc nofun nofun
  obtain rfl := hless (Or.inl rfl)
  exact ⟨ha, hb, hc, hab, hbc, hq⟩

end Value

end Monorepo.Script
