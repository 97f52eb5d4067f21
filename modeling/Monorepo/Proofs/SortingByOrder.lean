import Monorepo.Proofs.Meetings

/-!
# Sorting by an order

A sorting whose test answers for all values that it is asked about fails only where a short list is
merged from both ends. By a total preorder no short list fails, so every list can be sorted.
-/

namespace Monorepo.Sorting

variable {α ε : Type} {disorder : ε} {before : Test α ε} {P : α → Prop}

/-! ## Runs -/

section Runs

variable (hbefore : Answers before P)
include hbefore

theorem returns_mergeUp {fuel : Nat} {as bs done : List α} (has : ∀ a ∈ as, P a)
    (hbs : ∀ b ∈ bs, P b) : Returns (mergeUp before fuel as bs done) := by
  induction fuel, as, bs, done using mergeUp.induct with
  | case1 fuel a as b bs done ih₁ ih₂ =>
    obtain ⟨ha, has'⟩ := List.forall_mem_cons.mp has
    obtain ⟨hb, hbs'⟩ := List.forall_mem_cons.mp hbs
    refine (hbefore b a hb ha).bind fun answer _ => ?_
    cases answer with
    | true => exact ih₁ has hbs'
    | false => exact ih₂ has' hbs
  | case2 fuel as bs done hnot =>
    rw [mergeUp.eq_2 _ _ _ _ _ hnot]
    exact returns_ok _

theorem returns_mergeDown {fuel : Nat} {as bs done : List α} (has : ∀ a ∈ as, P a)
    (hbs : ∀ b ∈ bs, P b) : Returns (mergeDown before fuel as bs done) := by
  induction fuel, as, bs, done using mergeDown.induct with
  | case1 fuel a as b bs done ih₁ ih₂ =>
    obtain ⟨ha, has'⟩ := List.forall_mem_cons.mp has
    obtain ⟨hb, hbs'⟩ := List.forall_mem_cons.mp hbs
    refine (hbefore b a hb ha).bind fun answer _ => ?_
    cases answer with
    | true => exact ih₁ has' hbs
    | false => exact ih₂ has hbs'
  | case2 fuel as bs done hnot =>
    rw [mergeDown.eq_2 _ _ _ _ _ hnot]
    exact returns_ok _

theorem returns_merge {as bs : List α} (has : ∀ a ∈ as, P a) (hbs : ∀ b ∈ bs, P b) :
    Returns (merge before as bs) := by
  unfold merge
  split
  · exact returns_mergeUp hbefore has hbs
  · exact returns_mergeDown hbefore (fun a ha => has a (List.mem_reverse.mp ha))
      fun b hb => hbs b (List.mem_reverse.mp hb)

theorem returns_runLength {descending : Bool} {count : Nat} {a : α} (ha : P a) {items : List α}
    (hitems : ∀ a ∈ items, P a) : Returns (runLength before descending count a items) := by
  induction items generalizing count a with
  | nil => exact returns_ok _
  | cons b rest ih =>
    obtain ⟨hb, hrest⟩ := List.forall_mem_cons.mp hitems
    refine (hbefore b a hb ha).bind fun answer _ => ?_
    split
    · exact ih hb hrest
    · exact returns_ok _

theorem returns_leadingRun {items : List α} (hitems : ∀ a ∈ items, P a) :
    Returns (leadingRun before items) := by
  unfold leadingRun
  split
  · simp only [List.forall_mem_cons] at hitems
    obtain ⟨ha, hb, hrest⟩ := hitems
    refine (hbefore _ _ hb ha).bind fun descending _ => ?_
    exact (returns_runLength hbefore hb hrest).bind fun _ _ => returns_ok _
  · exact returns_ok _

variable {sort : List α → Except ε (List α)}
  (hsort : ∀ {items}, (∀ a ∈ items, P a) → Returns (sort items))
include hsort

omit hbefore in
theorem Run.returns_finish {run : Run α} (hrun : ∀ a ∈ run.items, P a) :
    Returns (run.finish sort) := by
  unfold Run.finish
  split
  · exact returns_ok _
  · exact hsort hrun

theorem Run.returns_join
    (hkept : ∀ {items out}, (∀ a ∈ items, P a) → sort items = .ok out → ∀ a ∈ out, P a)
    {left right : Run α} (hleft : ∀ a ∈ left.items, P a) (hright : ∀ a ∈ right.items, P a) :
    Returns (left.join before sort right) := by
  unfold Run.join
  split
  · refine (returns_finish hsort hleft).bind fun as has => ?_
    refine (returns_finish hsort hright).bind fun bs hbs => ?_
    refine (returns_merge hbefore (forall_mem_finish hkept hleft has)
      (forall_mem_finish hkept hright hbs)).bind fun _ _ => returns_ok _
  · exact returns_ok _

end Runs

theorem returns_nextRun {less : α → α → Bool} (h : Orders before P less) {eager : Bool}
    {least length : Nat} {items : List α} (hitems : ∀ a ∈ items, P a) :
    Returns (nextRun disorder before eager least length items) := by
  have hcut (count : Nat) (descending : Bool) : Returns (show Except ε (Run α × List α) from
      if count ≥ least then
        return (⟨if descending then (items.take count).reverse else items.take count, true⟩,
          items.drop count)
      else if eager then
        return (⟨← sortShort disorder before (items.take shortLimit), true⟩, items.drop shortLimit)
      else return (⟨items.take least, false⟩, items.drop least)) := by
    split
    · exact returns_ok _
    · split
      · refine Returns.bind ?_ fun _ _ => returns_ok _
        exact returns_sortShort h fun a ha => hitems a (List.mem_of_mem_take ha)
      · exact returns_ok _
  unfold nextRun
  by_cases hlt : length < least
  · rw [if_pos hlt]
    exact hcut 0 false
  · rw [if_neg hlt]
    exact (returns_leadingRun h.answers hitems).bind fun lead _ => hcut lead.1 lead.2

section Joining

variable {join : Run α → Run α → Except ε (Run α)}
  (hjoin : ∀ {left right}, (∀ a ∈ left.items, P a) → (∀ a ∈ right.items, P a) →
    Returns (join left right))
  (hkept : ∀ {left right out}, (∀ a ∈ left.items, P a) → (∀ a ∈ right.items, P a) →
    join left right = .ok out → ∀ a ∈ out.items, P a)
include hjoin hkept

theorem returns_collapse {rank : Nat} {stack : List (Run α × Nat)} {run : Run α}
    (hstack : ∀ entry ∈ stack, ∀ a ∈ entry.1.items, P a) (hrun : ∀ a ∈ run.items, P a) :
    Returns (collapse join rank stack run) := by
  induction stack generalizing run with
  | nil => exact returns_ok _
  | cons entry stack ih =>
    obtain ⟨left, r⟩ := entry
    obtain ⟨hleft, hrest⟩ := List.forall_mem_cons.mp hstack
    unfold collapse
    split
    · exact (hjoin hleft hrun).bind fun joined hjoined => ih hrest (hkept hleft hrun hjoined)
    · exact returns_ok _

theorem returns_joinRuns {cut : Nat → List α → Except ε (Run α × List α)}
    (hcut : ∀ {length items}, (∀ a ∈ items, P a) → Returns (cut length items))
    (hcutKept : ∀ {length items out}, (∀ a ∈ items, P a) → cut length items = .ok out →
      (∀ a ∈ out.1.items, P a) ∧ ∀ a ∈ out.2, P a)
    {length fuel : Nat} {stack : List (Run α × Nat)} {run : Run α} {start meeting : Nat}
    {rest : List α} (hstack : ∀ entry ∈ stack, ∀ a ∈ entry.1.items, P a)
    (hrun : ∀ a ∈ run.items, P a) (hrest : ∀ a ∈ rest, P a) :
    Returns (joinRuns cut join length fuel stack run start meeting rest) := by
  induction fuel generalizing stack run start meeting rest with
  | zero => exact (returns_collapse hjoin hkept hstack hrun).bind fun _ _ => returns_ok _
  | succ fuel ih =>
    cases rest with
    | nil => exact (returns_collapse hjoin hkept hstack hrun).bind fun _ _ => returns_ok _
    | cons a rest =>
      refine (hcut hrest).bind fun next hnext => ?_
      refine (returns_collapse hjoin hkept hstack hrun).bind fun collapsed hcollapse => ?_
      obtain ⟨hnext, hrest'⟩ := hcutKept hrest hnext
      obtain ⟨hstack', hrun'⟩ := collapse_holds hkept hstack hrun hcollapse
      exact ih (List.forall_mem_cons.mpr ⟨hrun', hstack'⟩) hnext hrest'

end Joining

theorem returns_sortByRuns {less : α → α → Bool} (h : Orders before P less) {eager : Bool}
    {sort : List α → Except ε (List α)}
    (hsort : ∀ {items}, (∀ a ∈ items, P a) → Returns (sort items))
    (hkept : ∀ {items out}, (∀ a ∈ items, P a) → sort items = .ok out → ∀ a ∈ out, P a)
    {items : List α} (hitems : ∀ a ∈ items, P a) :
    Returns (sortByRuns disorder before eager sort items) := by
  refine (returns_nextRun h hitems).bind fun cut hcut => ?_
  obtain ⟨hrun, hrest⟩ := nextRun_holds hitems hcut
  refine (returns_joinRuns (Run.returns_join h.answers hsort hkept)
    (fun hleft hright => Run.forall_mem_join hkept hleft hright)
    (fun hitems => returns_nextRun h hitems) (fun hitems hcut => nextRun_holds hitems hcut)
    (List.forall_mem_nil _) hrun hrest).bind fun joined hjoined => ?_
  have hall := forall_mem_joinRuns (fun hleft hright => Run.forall_mem_join hkept hleft hright)
    (fun hitems hcut => nextRun_holds hitems hcut) (List.forall_mem_nil _) hrun hrest hjoined
  exact Run.returns_finish hsort hall

/-! ## Pivots -/

theorem returns_middleOf {β : Type} {before : Test β ε} {Q : β → Prop} (hbefore : Answers before Q)
    {a b c : β} (ha : Q a) (hb : Q b) (hc : Q c) : Returns (middleOf before a b c) := by
  refine (hbefore a b ha hb).bind fun left _ => ?_
  refine (hbefore a c ha hc).bind fun right _ => ?_
  split
  · exact (hbefore b c hb hc).bind fun between _ => by split <;> exact returns_ok _
  · exact returns_ok _

section Pivots

variable (hbefore : Answers before P)
include hbefore

theorem returns_representative {items : Array α} {first : α} (hitems : ∀ a ∈ items, P a)
    (hfirst : P first) {levels start length : Nat} :
    Returns (representative before items first levels start length) := by
  induction levels generalizing start length with
  | zero => exact returns_ok _
  | succ levels ih =>
    refine ih.bind fun a ha => ?_
    refine ih.bind fun b hb => ?_
    refine ih.bind fun c hc => ?_
    exact returns_middleOf (Q := fun x => P x.2) (fun x y hx hy => hbefore x.2 y.2 hx hy)
      (representative_holds hitems hfirst ha) (representative_holds hitems hfirst hb)
      (representative_holds hitems hfirst hc)

end Pivots

theorem returns_distribute {test : α → Except ε Bool} (htest : ∀ a, P a → Returns (test a))
    {left right items : List α} (hitems : ∀ a ∈ items, P a) :
    Returns (distribute test left right items) := by
  induction items generalizing left right with
  | nil => exact returns_ok _
  | cons a rest ih =>
    obtain ⟨ha, hrest⟩ := List.forall_mem_cons.mp hitems
    exact (htest a ha).bind fun answer _ => by cases answer <;> exact ih hrest

theorem returns_split {test : α → Except ε Bool} (htest : ∀ a, P a → Returns (test a))
    {pivotLeft : Bool} {front back : List α} {pivot : α} (hfront : ∀ a ∈ front, P a)
    (hback : ∀ a ∈ back, P a) : Returns (split test pivotLeft front pivot back) := by
  refine (returns_distribute htest hfront).bind fun parts _ => ?_
  cases pivotLeft <;> exact (returns_distribute htest hback).bind fun _ _ => returns_ok _

theorem returns_sortByPivots {less : α → α → Bool} (h : Orders before P less) {limit : Nat}
    {ancestor : Option α} {items : List α} (hancestor : ∀ a ∈ ancestor, P a)
    (hitems : ∀ a ∈ items, P a) : Returns (sortByPivots disorder before limit ancestor items) := by
  induction limit generalizing ancestor items with
  | zero =>
    unfold sortByPivots
    split
    · exact returns_sortShort h hitems
    · exact returns_sortByRuns h (fun hitems => returns_sortShort h hitems)
        (fun hitems hsort => forall_mem_sortShort hitems hsort) hitems
  | succ limit ih =>
    cases items with
    | nil => exact returns_ok _
    | cons first rest =>
      unfold sortByPivots
      dsimp only
      split
      · exact returns_sortShort h hitems
      have harray : ∀ a ∈ (first :: rest).toArray, P a := fun a ha => hitems a (by simpa using ha)
      have hfirst : P first := hitems first List.mem_cons_self
      refine (returns_representative h.answers harray hfirst).bind fun chosen hchosen => ?_
      obtain ⟨place, pivot⟩ := chosen
      have hpivot : P pivot := representative_holds harray hfirst hchosen
      have hfront : ∀ a ∈ (first :: rest).take place, P a :=
        fun a ha => hitems a (List.mem_of_mem_take ha)
      have hback : ∀ a ∈ (first :: rest).drop (place + 1), P a :=
        fun a ha => hitems a (List.mem_of_mem_drop ha)
      have hnone : ∀ a ∈ (none : Option α), P a := fun a ha => absurd ha (Option.not_mem_none a)
      have hsorted (lesser others : List α) (hlesser : ∀ a ∈ lesser, P a)
          (hothers : ∀ a ∈ others, P a) : Returns (if lesser.isEmpty then do
              let parts ← split (fun a => (before pivot a).map (!·)) true
                ((first :: rest).take place) pivot ((first :: rest).drop (place + 1))
              return parts.1 ++ (← sortByPivots disorder before limit none parts.2)
            else do
              let others ← sortByPivots disorder before limit (some pivot) others
              let lesser ← sortByPivots disorder before limit ancestor lesser
              return lesser ++ others) := by
        split
        · refine (returns_split (fun a ha => (h.answers pivot a hpivot ha).map _) hfront
            hback).bind fun parts hparts => ?_
          have hgreater := (split_holds hfront hpivot hback hparts).2
          exact (ih hnone hgreater).bind fun _ _ => returns_ok _
        · refine (ih (fun a ha => Option.mem_some.mp ha ▸ hpivot) hothers).bind fun _ _ => ?_
          exact (ih hancestor hlesser).bind fun _ _ => returns_ok _
      have hsplit {f : List α × List α → Except ε (List α)}
          (hf : ∀ parts, (∀ a ∈ parts.1, P a) ∧ (∀ a ∈ parts.2, P a) → Returns (f parts)) :
          Returns (split (fun a => before a pivot) false ((first :: rest).take place) pivot
            ((first :: rest).drop (place + 1)) >>= f) := by
        refine (returns_split (fun a ha => h.answers a pivot ha hpivot) hfront hback).bind ?_
        exact fun parts hparts => hf parts (split_holds hfront hpivot hback hparts)
      cases ancestor with
      | none => exact hsplit fun parts hparts => hsorted parts.1 parts.2 hparts.1 hparts.2
      | some a =>
        -- with the pivot to the left it is asked first whether the new one equals that
        refine ((h.answers a pivot (hancestor a rfl) hpivot).map _).bind fun least _ => ?_
        cases least with
        | true => exact hsorted [] (first :: rest) (List.forall_mem_nil P) hitems
        | false => exact hsplit fun parts hparts => hsorted parts.1 parts.2 hparts.1 hparts.2

/-- A list that is sorted by insertion alone needs no order but answers. -/
theorem returns_sort_of_length_le {items : List α} (hlength : items.length ≤ insertionLimit)
    (h : Answers before (· ∈ items)) : Returns (sort disorder before items) := by
  unfold sort
  rw [if_pos hlength]
  exact (returns_insertAll h (List.forall_mem_nil _) fun a ha => ha).map _

/-- By a total preorder every list can be sorted. -/
theorem returns_sort {less : α → α → Bool} {items : List α} (h : Orders before (· ∈ items) less) :
    Returns (sort disorder before items) := by
  by_cases hlength : items.length ≤ insertionLimit
  · exact returns_sort_of_length_le hlength h.answers
  · have hnone : ∀ a ∈ (none : Option α), a ∈ items :=
      fun a ha => absurd ha (Option.not_mem_none a)
    unfold sort
    rw [if_neg hlength]
    exact returns_sortByRuns h (fun hitems => returns_sortByPivots h hnone hitems)
      (fun hitems hsort => forall_mem_sortByPivots hitems hsort) fun a ha => ha

end Monorepo.Sorting
