import Monorepo.Proofs.Sorting

/-!
# Merging from both ends

Two ascending lists that are merged from both ends pass each other, and the sorting of a short list
fails, where a value is to be taken of a list that has nothing left. If the test is a total preorder
that never happens. What was taken of one list at the front lies in front of all that is left of the
other one, and what was taken at the back behind it. So where a list has nothing left, the
comparison with the value that was there says to take of the other one.
-/

namespace Monorepo.Sorting

/-! ## Computations that return -/

/-- A computation that ends without a fault. -/
def Returns {ε α : Type} (x : Except ε α) : Prop := ∃ a, x = .ok a

variable {α ε : Type} {disorder : ε} {before : Test α ε} {P : α → Prop}

theorem returns_ok (a : α) : Returns (.ok a : Except ε α) := ⟨a, rfl⟩

theorem Returns.bind {β : Type} {x : Except ε α} {f : α → Except ε β} (hx : Returns x)
    (hf : ∀ a, x = .ok a → Returns (f a)) : Returns (x >>= f) := by
  obtain ⟨a, rfl⟩ := hx
  exact hf a rfl

theorem Returns.map {β : Type} {x : Except ε α} (hx : Returns x) (f : α → β) :
    Returns (x.map f) := by
  obtain ⟨a, rfl⟩ := hx
  exact ⟨f a, rfl⟩

/-- A test that has an answer for any two values with a property. -/
def Answers (before : Test α ε) (P : α → Prop) : Prop :=
  ∀ a b, P a → P b → Returns (before a b)

/-- A test that is a total preorder of the values with a property: `less b a = false` says that `a`
    may stand in front of `b`. -/
structure Orders (before : Test α ε) (P : α → Prop) (less : α → α → Bool) : Prop where
  eq : ∀ {a b : α}, P a → P b → before a b = .ok (less a b)
  asymm : ∀ {a b : α}, P a → P b → less a b = true → less b a = false
  trans : ∀ {a b c : α}, P a → P b → P c → less b a = false → less c b = false → less c a = false

section Insertion

variable {less : α → α → Bool}

theorem Orders.answers (h : Orders before P less) : Answers before P :=
  fun _ _ ha hb => ⟨_, h.eq ha hb⟩

theorem Orders.refl (h : Orders before P less) {a : α} (ha : P a) : less a a = false := by
  cases hless : less a a with
  | false => rfl
  | true => exact hless.symm.trans (h.asymm ha ha hless)

theorem Orders.lt_of_lt_of_le (h : Orders before P less) {a b c : α} (ha : P a) (hb : P b)
    (hc : P c) (hab : less a b = true) (hbc : less c b = false) : less a c = true := by
  cases hac : less a c with
  | true => rfl
  | false => exact absurd ((h.trans hb hc ha hbc hac).symm.trans hab) Bool.false_ne_true

theorem Orders.lt_of_le_of_lt (h : Orders before P less) {a b c : α} (ha : P a) (hb : P b)
    (hc : P c) (hab : less b a = false) (hbc : less b c = true) : less a c = true := by
  cases hac : less a c with
  | true => rfl
  | false => exact absurd ((h.trans hc ha hb hac hab).symm.trans hbc) Bool.false_ne_true

/-! ## Insertion -/

theorem returns_insert (hbefore : Answers before P) {a : α} (ha : P a) {bs : List α}
    (hbs : ∀ b ∈ bs, P b) : Returns (insert before a bs) := by
  induction bs with
  | nil => exact returns_ok _
  | cons b bs ih =>
    obtain ⟨hb, hrest⟩ := List.forall_mem_cons.mp hbs
    refine (hbefore a b ha hb).bind fun answer _ => ?_
    cases answer with
    | true => exact (ih hrest).bind fun _ _ => returns_ok _
    | false => exact returns_ok _

theorem returns_insertAll (hbefore : Answers before P) {sorted items : List α}
    (hsorted : ∀ a ∈ sorted, P a) (hitems : ∀ a ∈ items, P a) :
    Returns (insertAll before sorted items) := by
  induction items generalizing sorted with
  | nil => exact returns_ok _
  | cons a rest ih =>
    obtain ⟨ha, hrest⟩ := List.forall_mem_cons.mp hitems
    refine (returns_insert hbefore ha hsorted).bind fun sorted' hins => ?_
    exact ih (forall_mem_insert ha hsorted hins) hrest

theorem returns_orderTwo (hbefore : Answers before P) {a b : α} (ha : P a) (hb : P b) :
    Returns (orderTwo before a b) :=
  (hbefore b a hb ha).bind fun answer _ => by cases answer <;> exact returns_ok _

theorem returns_orderFour (hbefore : Answers before P) {p q r s : α} (hp : P p) (hq : P q)
    (hr : P r) (hs : P s) : Returns (orderFour before p q r s) := by
  refine (returns_orderTwo hbefore hp hq).bind fun ⟨a, b⟩ hab => ?_
  refine (returns_orderTwo hbefore hr hs).bind fun ⟨c, d⟩ hcd => ?_
  obtain ⟨ha, hb⟩ := orderTwo_holds hp hq hab
  obtain ⟨hc, hd⟩ := orderTwo_holds hr hs hcd
  refine (hbefore c a hc ha).bind fun lower _ => ?_
  refine (hbefore d b hd hb).bind fun higher _ => ?_
  refine Returns.bind ?_ fun _ _ => returns_ok _
  cases lower <;> cases higher
  · exact returns_orderTwo hbefore hb hc
  · exact returns_orderTwo hbefore hc hd
  · exact returns_orderTwo hbefore ha hb
  · exact returns_orderTwo hbefore ha hd

theorem returns_startInsertion (hbefore : Answers before P) (four : Bool) {items : List α}
    (hitems : ∀ a ∈ items, P a) : Returns (startInsertion before four items) := by
  unfold startInsertion
  split
  · simp only [List.forall_mem_cons] at hitems
    obtain ⟨hp, hq, hr, hs, -⟩ := hitems
    exact (returns_orderFour hbefore hp hq hr hs).bind fun _ _ => returns_ok _
  · exact returns_ok _
  · exact returns_ok _

/-- A list in which nothing is less than a later value. -/
abbrev Descends (less : α → α → Bool) (bs : List α) : Prop :=
  bs.Pairwise fun a b => less a b = false

theorem descends_insert (h : Orders before P less) {a : α} (ha : P a) {bs out : List α}
    (hbs : ∀ b ∈ bs, P b) (hdescends : Descends less bs) (hins : insert before a bs = .ok out) :
    Descends less out := by
  induction bs generalizing out with
  | nil =>
    cases hins
    exact List.pairwise_singleton _ a
  | cons b bs ih =>
    obtain ⟨hb, hrest⟩ := List.forall_mem_cons.mp hbs
    obtain ⟨hfirst, hothers⟩ := List.pairwise_cons.mp hdescends
    obtain ⟨answer, hanswer, hins⟩ := ok_of_bind hins
    rw [h.eq ha hb] at hanswer
    cases answer with
    | true =>
      obtain ⟨rest, hrest', hins⟩ := ok_of_bind hins
      cases hins
      have hab := h.asymm ha hb (Except.ok.inj hanswer)
      have hbelow : ∀ c ∈ rest, less b c = false :=
        forall_mem_insert (P := fun c => less b c = false) hab hfirst hrest'
      exact List.pairwise_cons.mpr ⟨hbelow, ih hrest hothers hrest'⟩
    | false =>
      cases hins
      have hab : less a b = false := Except.ok.inj hanswer
      refine List.pairwise_cons.mpr ⟨List.forall_mem_cons.mpr ⟨hab, fun c hc => ?_⟩, hdescends⟩
      exact h.trans (hrest c hc) hb ha (hfirst c hc) hab

theorem descends_insertAll (h : Orders before P less) {items sorted out : List α}
    (hsorted : ∀ a ∈ sorted, P a) (hitems : ∀ a ∈ items, P a) (hdescends : Descends less sorted)
    (hins : insertAll before sorted items = .ok out) : Descends less out := by
  induction items generalizing sorted with
  | nil =>
    cases hins
    exact hdescends
  | cons a rest ih =>
    obtain ⟨ha, hrest⟩ := List.forall_mem_cons.mp hitems
    obtain ⟨sorted', hins', hins⟩ := ok_of_bind hins
    exact ih (forall_mem_insert ha hsorted hins') hrest
      (descends_insert h ha hsorted hdescends hins') hins

theorem le_of_orderTwo (h : Orders before P less) {a b : α} (ha : P a) (hb : P b) {out : α × α}
    (hout : orderTwo before a b = .ok out) : less out.2 out.1 = false := by
  obtain ⟨answer, hanswer, hout⟩ := ok_of_bind hout
  rw [h.eq hb ha] at hanswer
  cases answer with
  | true =>
    cases hout
    exact h.asymm hb ha (Except.ok.inj hanswer)
  | false =>
    cases hout
    exact Except.ok.inj hanswer

/-- Two values between two others, put in order. -/
theorem descends_between (h : Orders before P less) {a x y b : α} (hx : P x) (hy : P y)
    (hab : less b a = false) (hax : less x a = false) (hay : less y a = false)
    (hxb : less b x = false) (hyb : less b y = false) {out : α × α}
    (hout : orderTwo before x y = .ok out) : Descends less [b, out.2, out.1, a] := by
  have hle := le_of_orderTwo h hx hy hout
  rcases orderTwo_eq hout with rfl | rfl
  · simp [Descends, *]
  · simp [Descends, *]

theorem descends_orderFour (h : Orders before P less) {p q r s : α} (hp : P p) (hq : P q)
    (hr : P r) (hs : P s) {out : List α} (hout : orderFour before p q r s = .ok out) :
    Descends less out.reverse := by
  obtain ⟨⟨a, b⟩, hab, hout⟩ := ok_of_bind hout
  obtain ⟨⟨c, d⟩, hcd, hout⟩ := ok_of_bind hout
  obtain ⟨ha, hb⟩ := orderTwo_holds hp hq hab
  obtain ⟨hc, hd⟩ := orderTwo_holds hr hs hcd
  have hab' : less b a = false := le_of_orderTwo h hp hq hab
  have hcd' : less d c = false := le_of_orderTwo h hr hs hcd
  obtain ⟨lower, hlower, hout⟩ := ok_of_bind hout
  obtain ⟨higher, hhigher, hout⟩ := ok_of_bind hout
  obtain ⟨⟨x, y⟩, hxy, hout⟩ := ok_of_bind hout
  rw [h.eq hc ha] at hlower
  rw [h.eq hd hb] at hhigher
  have hlower := Except.ok.inj hlower
  have hhigher := Except.ok.inj hhigher
  cases hout
  -- each time the two values that are left lie between the least one and the greatest one
  cases lower <;> cases higher
  · exact descends_between h hb hc (h.trans ha hb hd hab' hhigher) hab' hlower hhigher hcd' hxy
  · have hdb := h.asymm hd hb hhigher
    exact descends_between h hc hd hab' hlower (h.trans ha hc hd hlower hcd')
      (h.trans hc hd hb hcd' hdb) hdb hxy
  · have hca := h.asymm hc ha hlower
    exact descends_between h ha hb hcd' hca (h.trans hc ha hb hca hab')
      (h.trans ha hb hd hab' hhigher) hhigher hxy
  · have hca := h.asymm hc ha hlower
    have hdb := h.asymm hd hb hhigher
    exact descends_between h ha hd (h.trans hc ha hb hca hab') hca hcd' hab' hdb hxy

theorem descends_startInsertion (h : Orders before P less) {four : Bool} {items : List α}
    (hitems : ∀ a ∈ items, P a) {out : List α × List α}
    (hout : startInsertion before four items = .ok out) : Descends less out.1 := by
  unfold startInsertion at hout
  split at hout
  · obtain ⟨sorted, hsorted, hout⟩ := ok_of_bind hout
    cases hout
    simp only [List.forall_mem_cons] at hitems
    obtain ⟨hp, hq, hr, hs, -⟩ := hitems
    exact descends_orderFour h hp hq hr hs hsorted
  · cases hout
    exact List.pairwise_singleton _ _
  · cases hout
    exact List.Pairwise.nil

/-! ## Merging from both ends -/

/-- A list in three parts: what is taken at the front, what is left, what is taken at the back. -/
structure Cut (α : Type) where
  low : List α
  middle : List α
  high : List α

/-- What is seen from both ends of a list that is cut. -/
structure Ends.Shows (e : Ends α) (c : Cut α) : Prop where
  front : e.front = c.middle ++ c.high
  back : e.back = c.middle.reverse ++ c.low.reverse
  left : e.left = c.middle.length

theorem Ends.shows_ofList (items : List α) : (ofList items).Shows ⟨[], items, []⟩ :=
  ⟨(List.append_nil _).symm, (List.append_nil _).symm, rfl⟩

theorem Ends.Shows.forall_mem {e : Ends α} {c : Cut α} (h : e.Shows c) (he : e.Holds P) :
    ∀ a ∈ c.middle, P a := by
  intro a ha
  refine he.1 a ?_
  rw [h.front]
  exact List.mem_append_left _ ha

/-- The value at the front is the first one that is left, or nothing is left. -/
theorem Ends.Shows.first {e : Ends α} {c : Cut α} (h : e.Shows c) {a : α} {rest : List α}
    (hfront : e.front = a :: rest) :
    (∃ middle, c.middle = a :: middle ∧ e.dropFirst.Shows ⟨c.low ++ [a], middle, c.high⟩) ∨
      (c.middle = [] ∧ a ∈ c.high) := by
  obtain ⟨low, middle, high⟩ := c
  have hshows : middle ++ high = a :: rest := h.front.symm.trans hfront
  cases middle with
  | nil =>
    obtain rfl : high = a :: rest := hshows
    exact Or.inr ⟨rfl, List.mem_cons_self⟩
  | cons a' middle =>
    obtain ⟨rfl, rfl⟩ := List.cons.inj hshows
    refine Or.inl ⟨middle, rfl, ?_, ?_, ?_⟩
    · simp [dropFirst, h.front]
    · simp [dropFirst, h.back]
    · simp [dropFirst, h.left]

theorem Ends.Shows.last {e : Ends α} {c : Cut α} (h : e.Shows c) {a : α} {rest : List α}
    (hback : e.back = a :: rest) :
    (∃ middle, c.middle = middle ++ [a] ∧ e.dropLast.Shows ⟨c.low, middle, a :: c.high⟩) ∨
      (c.middle = [] ∧ a ∈ c.low) := by
  obtain ⟨low, middle, high⟩ := c
  have hshows : middle.reverse ++ low.reverse = a :: rest := h.back.symm.trans hback
  rcases List.eq_nil_or_concat middle with rfl | ⟨middle, a', rfl⟩
  · refine Or.inr ⟨rfl, List.mem_reverse.mp ?_⟩
    rw [show low.reverse = a :: rest from hshows]
    exact List.mem_cons_self
  · rw [List.concat_eq_append, List.reverse_append, List.reverse_singleton] at hshows
    obtain ⟨rfl, rfl⟩ := List.cons.inj hshows
    refine Or.inl ⟨middle, List.concat_eq_append, ?_, ?_, ?_⟩
    · simp [dropLast, h.front]
    · simp [dropLast, h.back]
    · simp [dropLast, h.left]

/-- A list in which nothing is less than an earlier value. -/
abbrev Ascends (less : α → α → Bool) (as : List α) : Prop :=
  as.Pairwise fun a b => less b a = false

section Ends

variable (h : Orders before P less) {e : Ends α} {c : Cut α} (he : e.Holds P) (hshows : e.Shows c)
  (hascends : Ascends less c.middle) {a : α} {rest : List α}
include h he hshows hascends

theorem first_le (hfront : e.front = a :: rest) : ∀ x ∈ c.middle, less x a = false := by
  have ha : P a := he.1 a (by rw [hfront]; exact List.mem_cons_self)
  rcases hshows.first hfront with ⟨middle, hmiddle, -⟩ | ⟨hmiddle, -⟩
  · rw [hmiddle] at hascends ⊢
    exact List.forall_mem_cons.mpr ⟨h.refl ha, (List.pairwise_cons.mp hascends).1⟩
  · rw [hmiddle]
    exact List.forall_mem_nil _

theorem le_last (hback : e.back = a :: rest) : ∀ x ∈ c.middle, less a x = false := by
  have ha : P a := he.2 a (by rw [hback]; exact List.mem_cons_self)
  rcases hshows.last hback with ⟨middle, hmiddle, -⟩ | ⟨hmiddle, -⟩
  · rw [hmiddle] at hascends ⊢
    obtain ⟨-, -, hlast⟩ := List.pairwise_append.mp hascends
    intro x hx
    rcases List.mem_append.mp hx with hx | hx
    · exact hlast x hx a List.mem_cons_self
    · rw [List.mem_singleton.mp hx]
      exact h.refl ha
  · rw [hmiddle]
    exact List.forall_mem_nil _

end Ends

/-- What holds while two ascending lists are merged from both ends: what was taken of one list at
    the front comes before all that is left of the other one, and what was taken at the back comes
    behind it. -/
structure Meeting.Meets (less : α → α → Bool) (m : Meeting α) (as bs : Cut α) : Prop where
  showsAs : m.as.Shows as
  showsBs : m.bs.Shows bs
  ascendsAs : Ascends less as.middle
  ascendsBs : Ascends less bs.middle
  lowAs : ∀ a ∈ as.low, ∀ b ∈ bs.middle, less b a = false
  lowBs : ∀ b ∈ bs.low, ∀ a ∈ as.middle, less b a = true
  highAs : ∀ a ∈ as.high, ∀ b ∈ bs.middle, less b a = true
  highBs : ∀ b ∈ bs.high, ∀ a ∈ as.middle, less b a = false

namespace Meeting

theorem meets_ofLists {as bs : List α} (has : Ascends less as) (hbs : Ascends less bs) :
    (ofLists as bs).Meets less ⟨[], as, []⟩ ⟨[], bs, []⟩ where
  showsAs := Ends.shows_ofList as
  showsBs := Ends.shows_ofList bs
  ascendsAs := has
  ascendsBs := hbs
  lowAs := List.forall_mem_nil _
  lowBs := List.forall_mem_nil _
  highAs := List.forall_mem_nil _
  highBs := List.forall_mem_nil _

theorem choose_eq {m : Meeting α} {second : Bool}
    (h : (if second then m.bs.left else m.as.left) ≠ 0) :
    m.choose disorder second = .ok second := by
  unfold choose
  rw [if_neg h]

variable {m : Meeting α} {as bs : Cut α} {a b : α} {fa fb : List α}

/-! A comparison of the values at one end says to take of a list that has some left: where a list
has none, its value there was taken at the other end, so it is known on which side of the other
list's value it lies. -/

section Left

variable (hm : m.Meets less as bs) (hleft : as.middle ≠ [] ∨ bs.middle ≠ [])
include hm hleft

theorem Meets.first_as (ha : m.as.front = a :: fa) (hb : m.bs.front = b :: fb)
    (hless : less b a = false) : ∃ middle, as.middle = a :: middle ∧
      m.as.dropFirst.Shows ⟨as.low ++ [a], middle, as.high⟩ := by
  rcases hm.showsAs.first ha with hsome | ⟨hnone, hhigh⟩
  · exact hsome
  obtain ⟨middle, hmiddle, -⟩ :=
    (hm.showsBs.first hb).resolve_right fun hnone' => hleft.elim (· hnone) (· hnone'.1)
  have hyes := hm.highAs a hhigh b (by rw [hmiddle]; exact List.mem_cons_self)
  exact absurd (hless.symm.trans hyes) Bool.false_ne_true

theorem Meets.first_bs (ha : m.as.front = a :: fa) (hb : m.bs.front = b :: fb)
    (hless : less b a = true) : ∃ middle, bs.middle = b :: middle ∧
      m.bs.dropFirst.Shows ⟨bs.low ++ [b], middle, bs.high⟩ := by
  rcases hm.showsBs.first hb with hsome | ⟨hnone, hhigh⟩
  · exact hsome
  obtain ⟨middle, hmiddle, -⟩ :=
    (hm.showsAs.first ha).resolve_right fun hnone' => hleft.elim (· hnone'.1) (· hnone)
  have hno := hm.highBs b hhigh a (by rw [hmiddle]; exact List.mem_cons_self)
  exact absurd (hno.symm.trans hless) Bool.false_ne_true

theorem Meets.last_as (ha : m.as.back = a :: fa) (hb : m.bs.back = b :: fb)
    (hless : less b a = true) : ∃ middle, as.middle = middle ++ [a] ∧
      m.as.dropLast.Shows ⟨as.low, middle, a :: as.high⟩ := by
  rcases hm.showsAs.last ha with hsome | ⟨hnone, hlow⟩
  · exact hsome
  obtain ⟨middle, hmiddle, -⟩ :=
    (hm.showsBs.last hb).resolve_right fun hnone' => hleft.elim (· hnone) (· hnone'.1)
  have hno := hm.lowAs a hlow b (by rw [hmiddle]; exact List.mem_append_right _ List.mem_cons_self)
  exact absurd (hno.symm.trans hless) Bool.false_ne_true

theorem Meets.last_bs (ha : m.as.back = a :: fa) (hb : m.bs.back = b :: fb)
    (hless : less b a = false) : ∃ middle, bs.middle = middle ++ [b] ∧
      m.bs.dropLast.Shows ⟨bs.low, middle, b :: bs.high⟩ := by
  rcases hm.showsBs.last hb with hsome | ⟨hnone, hlow⟩
  · exact hsome
  obtain ⟨middle, hmiddle, -⟩ :=
    (hm.showsAs.last ha).resolve_right fun hnone' => hleft.elim (· hnone'.1) (· hnone)
  have hyes := hm.lowBs b hlow a (by rw [hmiddle]; exact List.mem_append_right _ List.mem_cons_self)
  exact absurd (hless.symm.trans hyes) Bool.false_ne_true

end Left

section Steps

variable (hm : m.Meets less as bs) (h : Orders before P less) (hP : m.Holds P)
  (hleft : as.middle ≠ [] ∨ bs.middle ≠ [])
include hm h hP hleft

variable (disorder)

/-- The value that comes first can be taken, and then one value less is left. -/
theorem Meets.takeLow (ha : m.as.front = a :: fa) (hb : m.bs.front = b :: fb) :
    m.choose disorder (less b a) = .ok (less b a) ∧
      ∃ as' bs', (m.takeLow (less b a) a b).Meets less as' bs' ∧
        as'.middle.length + bs'.middle.length + 1 = as.middle.length + bs.middle.length := by
  have hle := first_le h hP.as hm.showsAs hm.ascendsAs ha
  have hle' := first_le h hP.bs hm.showsBs hm.ascendsBs hb
  have hPa : P a := hP.as.1 a (by rw [ha]; exact List.mem_cons_self)
  have hPb : P b := hP.bs.1 b (by rw [hb]; exact List.mem_cons_self)
  cases hless : less b a with
  | true =>
    obtain ⟨middle, hmiddle, hshows⟩ := hm.first_bs hleft ha hb hless
    have hsub : middle ⊆ bs.middle := by
      rw [hmiddle]
      exact List.subset_cons_self b middle
    have hbefore : ∀ x ∈ as.middle, less b x = true := fun x hx =>
      h.lt_of_lt_of_le hPb hPa (hm.showsAs.forall_mem hP.as x hx) hless (hle x hx)
    refine ⟨choose_eq ?_, as, ⟨bs.low ++ [b], middle, bs.high⟩, ?_, ?_⟩
    · rw [if_pos rfl, hm.showsBs.left, hmiddle]
      exact Nat.succ_ne_zero _
    · exact { hm with
        showsBs := hshows
        ascendsBs := hm.ascendsBs.sublist (hmiddle ▸ List.sublist_cons_self b middle)
        lowAs := fun x hx y hy => hm.lowAs x hx y (hsub hy)
        lowBs := List.forall_mem_append.mpr ⟨hm.lowBs, List.forall_mem_singleton.mpr hbefore⟩
        highAs := fun x hx y hy => hm.highAs x hx y (hsub hy) }
    · rw [hmiddle]
      rfl
  | false =>
    obtain ⟨middle, hmiddle, hshows⟩ := hm.first_as hleft ha hb hless
    have hsub : middle ⊆ as.middle := by
      rw [hmiddle]
      exact List.subset_cons_self a middle
    have hbehind : ∀ y ∈ bs.middle, less y a = false := fun y hy =>
      h.trans hPa hPb (hm.showsBs.forall_mem hP.bs y hy) hless (hle' y hy)
    refine ⟨choose_eq ?_, ⟨as.low ++ [a], middle, as.high⟩, bs, ?_, ?_⟩
    · rw [if_neg Bool.false_ne_true, hm.showsAs.left, hmiddle]
      exact Nat.succ_ne_zero _
    · exact { hm with
        showsAs := hshows
        ascendsAs := hm.ascendsAs.sublist (hmiddle ▸ List.sublist_cons_self a middle)
        lowAs := List.forall_mem_append.mpr ⟨hm.lowAs, List.forall_mem_singleton.mpr hbehind⟩
        lowBs := fun y hy x hx => hm.lowBs y hy x (hsub hx)
        highBs := fun y hy x hx => hm.highBs y hy x (hsub hx) }
    · rw [hmiddle]
      exact Nat.add_right_comm _ _ _

/-- The value that comes last can be taken, and then one value less is left. -/
theorem Meets.takeHigh (ha : m.as.back = a :: fa) (hb : m.bs.back = b :: fb) :
    m.choose disorder (!less b a) = .ok (!less b a) ∧
      ∃ as' bs', (m.takeHigh (!less b a) a b).Meets less as' bs' ∧
        as'.middle.length + bs'.middle.length + 1 = as.middle.length + bs.middle.length := by
  have hle := le_last h hP.as hm.showsAs hm.ascendsAs ha
  have hle' := le_last h hP.bs hm.showsBs hm.ascendsBs hb
  have hPa : P a := hP.as.2 a (by rw [ha]; exact List.mem_cons_self)
  have hPb : P b := hP.bs.2 b (by rw [hb]; exact List.mem_cons_self)
  cases hless : less b a with
  | true =>
    obtain ⟨middle, hmiddle, hshows⟩ := hm.last_as hleft ha hb hless
    have hsub : middle ⊆ as.middle := by
      rw [hmiddle]
      exact List.subset_append_left middle [a]
    have hbehind : ∀ y ∈ bs.middle, less y a = true := fun y hy =>
      h.lt_of_le_of_lt (hm.showsBs.forall_mem hP.bs y hy) hPb hPa (hle' y hy) hless
    refine ⟨choose_eq ?_, ⟨as.low, middle, a :: as.high⟩, bs, ?_, ?_⟩
    · rw [Bool.not_true, if_neg Bool.false_ne_true, hm.showsAs.left, hmiddle]
      simp
    · exact { hm with
        showsAs := hshows
        ascendsAs := hm.ascendsAs.sublist (hmiddle ▸ List.sublist_append_left middle [a])
        lowBs := fun y hy x hx => hm.lowBs y hy x (hsub hx)
        highAs := List.forall_mem_cons.mpr ⟨hbehind, hm.highAs⟩
        highBs := fun y hy x hx => hm.highBs y hy x (hsub hx) }
    · rw [hmiddle, List.length_append]
      exact Nat.add_right_comm _ _ _
  | false =>
    obtain ⟨middle, hmiddle, hshows⟩ := hm.last_bs hleft ha hb hless
    have hsub : middle ⊆ bs.middle := by
      rw [hmiddle]
      exact List.subset_append_left middle [b]
    have hbefore : ∀ x ∈ as.middle, less b x = false := fun x hx =>
      h.trans (hm.showsAs.forall_mem hP.as x hx) hPa hPb (hle x hx) hless
    refine ⟨choose_eq ?_, as, ⟨bs.low, middle, b :: bs.high⟩, ?_, ?_⟩
    · rw [Bool.not_false, if_pos rfl, hm.showsBs.left, hmiddle]
      simp
    · exact { hm with
        showsBs := hshows
        ascendsBs := hm.ascendsBs.sublist (hmiddle ▸ List.sublist_append_left middle [b])
        lowAs := fun x hx y hy => hm.lowAs x hx y (hsub hy)
        highAs := fun x hx y hy => hm.highAs x hx y (hsub hy)
        highBs := List.forall_mem_cons.mpr ⟨hbefore, hm.highBs⟩ }
    · rw [hmiddle, List.length_append]
      rfl

end Steps

end Meeting

theorem ne_nil_or_ne_nil {as bs : List α} (h : 0 < as.length + bs.length) :
    as ≠ [] ∨ bs ≠ [] := by
  cases as with
  | nil => exact Or.inr (List.length_pos_iff.mp (by simpa using h))
  | cons a as => exact Or.inl (List.cons_ne_nil a as)

/-- While as many values are left as are to be taken, two ascending lists can be merged. -/
theorem returns_mergeInward (h : Orders before P less) {rounds : Nat} {m : Meeting α}
    {as bs : Cut α} (hm : m.Meets less as bs) (hP : m.Holds P)
    (hrounds : 2 * rounds ≤ as.middle.length + bs.middle.length) :
    Returns (mergeInward disorder before rounds m) := by
  induction rounds generalizing m as bs with
  | zero => exact returns_ok _
  | succ rounds ih =>
    unfold mergeInward
    split
    · rename_i a _ b _ a' _ b' _ hafront hbfront haback hbback
      have hPa : P a := hP.as.1 a (by rw [hafront]; exact List.mem_cons_self)
      have hPb : P b := hP.bs.1 b (by rw [hbfront]; exact List.mem_cons_self)
      have hPa' : P a' := hP.as.2 a' (by rw [haback]; exact List.mem_cons_self)
      have hPb' : P b' := hP.bs.2 b' (by rw [hbback]; exact List.mem_cons_self)
      obtain ⟨hchoose, as₁, bs₁, hm₁, hcount₁⟩ :=
        hm.takeLow disorder h hP (ne_nil_or_ne_nil (by omega)) hafront hbfront
      have hP₁ := hP.takeLow (less b a) hPa hPb
      have hback : (m.takeLow (less b a) a b).as.back = m.as.back ∧
          (m.takeLow (less b a) a b).bs.back = m.bs.back := by
        cases less b a <;> exact ⟨rfl, rfl⟩
      obtain ⟨hchoose', as₂, bs₂, hm₂, hcount₂⟩ :=
        hm₁.takeHigh disorder h hP₁ (ne_nil_or_ne_nil (by omega))
          (hback.1.trans haback) (hback.2.trans hbback)
      have hP₂ := hP₁.takeHigh (!less b' a') hPa' hPb'
      rw [h.eq hPb hPa]
      change Returns (m.choose disorder (less b a) >>= _)
      rw [hchoose]
      change Returns (before b' a' >>= _)
      rw [h.eq hPb' hPa']
      change Returns (Meeting.choose disorder _ (!less b' a') >>= _)
      rw [hchoose']
      exact ih hm₂ hP₂ (by omega)
    · exact returns_ok _

/-! ## Short lists -/

theorem length_insert {a : α} {bs out : List α} (h : insert before a bs = .ok out) :
    out.length = bs.length + 1 := by
  induction bs generalizing out with
  | nil =>
    cases h
    rfl
  | cons b bs ih =>
    obtain ⟨answer, hanswer, h⟩ := ok_of_bind h
    cases answer with
    | true =>
      obtain ⟨rest, hins, h⟩ := ok_of_bind h
      cases h
      exact congrArg (· + 1) (ih hins)
    | false =>
      cases h
      rfl

theorem length_insertAll {sorted items out : List α} (h : insertAll before sorted items = .ok out) :
    out.length = sorted.length + items.length := by
  induction items generalizing sorted with
  | nil =>
    cases h
    rfl
  | cons a rest ih =>
    obtain ⟨sorted', hins, h⟩ := ok_of_bind h
    rw [ih h, length_insert hins, List.length_cons]
    omega

theorem length_orderFour {p q r s : α} {out : List α} (h : orderFour before p q r s = .ok out) :
    out.length = 4 := by
  obtain ⟨_, hab, h⟩ := ok_of_bind h
  obtain ⟨_, hcd, h⟩ := ok_of_bind h
  obtain ⟨_, hlower, h⟩ := ok_of_bind h
  obtain ⟨_, hhigher, h⟩ := ok_of_bind h
  obtain ⟨_, hxy, h⟩ := ok_of_bind h
  cases h
  rfl

theorem length_startInsertion {four : Bool} {items : List α} {out : List α × List α}
    (h : startInsertion before four items = .ok out) :
    out.1.length + out.2.length = items.length := by
  unfold startInsertion at h
  split at h
  · obtain ⟨sorted, hsorted, h⟩ := ok_of_bind h
    cases h
    simp only [List.length_reverse, length_orderFour hsorted, List.length_cons]
    omega
  · cases h
    simp only [List.length_cons, List.length_nil]
    omega
  · cases h
    rfl

/-- One half of a short list, by insertion. -/
theorem ascends_half (h : Orders before P less) {four : Bool} {items : List α}
    (hitems : ∀ a ∈ items, P a) {started : List α × List α} {out : List α}
    (hstart : startInsertion before four items = .ok started)
    (hins : insertAll before started.1 started.2 = .ok out) :
    (∀ a ∈ out.reverse, P a) ∧ Ascends less out.reverse ∧ out.reverse.length = items.length := by
  obtain ⟨hsorted, hmore⟩ := startInsertion_holds hitems hstart
  have hdescends := descends_startInsertion h hitems hstart
  refine ⟨fun a ha => ?_, ?_, ?_⟩
  · exact forall_mem_insertAll hsorted hmore hins a (List.mem_reverse.mp ha)
  · exact List.pairwise_reverse.mpr (descends_insertAll h hsorted hmore hdescends hins)
  · rw [List.length_reverse, length_insertAll hins, length_startInsertion hstart]

theorem returns_sortShort (h : Orders before P less) {items : List α}
    (hitems : ∀ a ∈ items, P a) : Returns (sortShort disorder before items) := by
  have htake : ∀ a ∈ items.take (items.length / 2), P a := fun a ha =>
    hitems a (List.mem_of_mem_take ha)
  have hdrop : ∀ a ∈ items.drop (items.length / 2), P a := fun a ha =>
    hitems a (List.mem_of_mem_drop ha)
  have hanswers := h.answers
  refine (returns_startInsertion hanswers _ htake).bind fun first hfirst => ?_
  refine (returns_startInsertion hanswers _ hdrop).bind fun second hsecond => ?_
  obtain ⟨hsorted, hmore⟩ := startInsertion_holds htake hfirst
  obtain ⟨hsorted', hmore'⟩ := startInsertion_holds hdrop hsecond
  refine (returns_insertAll hanswers hsorted hmore).bind fun as has => ?_
  refine (returns_insertAll hanswers hsorted' hmore').bind fun bs hbs => ?_
  obtain ⟨hPas, hascends, hlength⟩ := ascends_half h htake hfirst has
  obtain ⟨hPbs, hascends', hlength'⟩ := ascends_half h hdrop hsecond hbs
  refine returns_mergeInward h (Meeting.meets_ofLists hascends hascends')
    (Meeting.holds_ofLists hPas hPbs) ?_
  rw [hlength, hlength', List.length_take, List.length_drop]
  omega

end Insertion

end Monorepo.Sorting
