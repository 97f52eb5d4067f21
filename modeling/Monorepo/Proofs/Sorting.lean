import Monorepo.Sorting

/-!
# Sorting adds nothing

Whatever its test answers, a sorting returns only values of the list that it was given. The test
need not be an order, and the sorting may end with a fault. So the statements are about any property
that all values have before: it is one of those that are returned.
-/

namespace Monorepo

theorem ok_of_bind {ε α β : Type} {x : Except ε α} {f : α → Except ε β} {b : β}
    (h : x >>= f = .ok b) : ∃ a, x = .ok a ∧ f a = .ok b := by
  cases x with
  | error e => cases h
  | ok a => exact ⟨a, rfl, h⟩

theorem ok_of_map {ε α β : Type} {x : Except ε α} {f : α → β} {b : β}
    (h : x.map f = .ok b) : ∃ a, x = .ok a ∧ f a = b := by
  cases x with
  | error e => cases h
  | ok a =>
    cases h
    exact ⟨a, rfl, rfl⟩

namespace Sorting

variable {α ε : Type} {disorder : ε} {before : Test α ε} {P : α → Prop}

/-! ## Short lists -/

theorem forall_mem_insert {a : α} (ha : P a) {bs out : List α} (hbs : ∀ b ∈ bs, P b)
    (h : insert before a bs = .ok out) : ∀ c ∈ out, P c := by
  induction bs generalizing out with
  | nil =>
    cases h
    exact List.forall_mem_singleton.mpr ha
  | cons b bs ih =>
    obtain ⟨hb, hrest⟩ := List.forall_mem_cons.mp hbs
    obtain ⟨answer, -, h⟩ := ok_of_bind h
    cases answer with
    | true =>
      obtain ⟨rest, hins, h⟩ := ok_of_bind h
      cases h
      exact List.forall_mem_cons.mpr ⟨hb, ih hrest hins⟩
    | false =>
      cases h
      exact List.forall_mem_cons.mpr ⟨ha, hbs⟩

theorem forall_mem_insertAll {items sorted out : List α} (hsorted : ∀ a ∈ sorted, P a)
    (hitems : ∀ a ∈ items, P a) (h : insertAll before sorted items = .ok out) :
    ∀ a ∈ out, P a := by
  induction items generalizing sorted with
  | nil =>
    cases h
    exact hsorted
  | cons a rest ih =>
    obtain ⟨ha, hrest⟩ := List.forall_mem_cons.mp hitems
    obtain ⟨sorted', hins, h⟩ := ok_of_bind h
    exact ih (forall_mem_insert ha hsorted hins) hrest h

theorem orderTwo_eq {a b : α} {out : α × α} (h : orderTwo before a b = .ok out) :
    out = (a, b) ∨ out = (b, a) := by
  obtain ⟨answer, -, h⟩ := ok_of_bind h
  cases answer with
  | true =>
    cases h
    exact Or.inr rfl
  | false =>
    cases h
    exact Or.inl rfl

theorem orderTwo_holds {a b : α} (ha : P a) (hb : P b) {out : α × α}
    (h : orderTwo before a b = .ok out) : P out.1 ∧ P out.2 := by
  rcases orderTwo_eq h with rfl | rfl
  · exact ⟨ha, hb⟩
  · exact ⟨hb, ha⟩

theorem forall_mem_orderFour {p q r s : α} (hp : P p) (hq : P q) (hr : P r) (hs : P s)
    {out : List α} (h : orderFour before p q r s = .ok out) : ∀ a ∈ out, P a := by
  obtain ⟨⟨a, b⟩, hab, h⟩ := ok_of_bind h
  obtain ⟨⟨c, d⟩, hcd, h⟩ := ok_of_bind h
  obtain ⟨lower, -, h⟩ := ok_of_bind h
  obtain ⟨higher, -, h⟩ := ok_of_bind h
  obtain ⟨ha, hb⟩ := orderTwo_holds hp hq hab
  obtain ⟨hc, hd⟩ := orderTwo_holds hr hs hcd
  obtain ⟨⟨x, y⟩, hxy, h⟩ := ok_of_bind h
  have hmiddle : P x ∧ P y := by
    cases lower <;> cases higher
    · exact orderTwo_holds hb hc hxy
    · exact orderTwo_holds hc hd hxy
    · exact orderTwo_holds ha hb hxy
    · exact orderTwo_holds ha hd hxy
  cases h
  have hfirst : P (if lower then c else a) := by cases lower <;> assumption
  have hlast : P (if higher then b else d) := by cases higher <;> assumption
  simp only [List.forall_mem_cons]
  exact ⟨hfirst, hmiddle.1, hmiddle.2, hlast, nofun⟩

theorem startInsertion_holds {four : Bool} {items : List α} (hitems : ∀ a ∈ items, P a)
    {out : List α × List α} (h : startInsertion before four items = .ok out) :
    (∀ a ∈ out.1, P a) ∧ ∀ a ∈ out.2, P a := by
  unfold startInsertion at h
  split at h
  · obtain ⟨sorted, hsorted, h⟩ := ok_of_bind h
    cases h
    simp only [List.forall_mem_cons] at hitems
    obtain ⟨hp, hq, hr, hs, hrest⟩ := hitems
    have hall := forall_mem_orderFour hp hq hr hs hsorted
    exact ⟨fun a ha => hall a (List.mem_reverse.mp ha), hrest⟩
  · cases h
    obtain ⟨ha, hrest⟩ := List.forall_mem_cons.mp hitems
    exact ⟨List.forall_mem_singleton.mpr ha, hrest⟩
  · cases h
    exact ⟨nofun, nofun⟩

/-- A list of values with a property, seen from both ends. -/
def Ends.Holds (P : α → Prop) (e : Ends α) : Prop := (∀ a ∈ e.front, P a) ∧ ∀ a ∈ e.back, P a

theorem Ends.holds_ofList {items : List α} (h : ∀ a ∈ items, P a) : (ofList items).Holds P :=
  ⟨h, fun a ha => h a (List.mem_reverse.mp ha)⟩

theorem Ends.Holds.dropFirst {e : Ends α} (h : e.Holds P) : e.dropFirst.Holds P :=
  ⟨fun a ha => h.1 a (List.mem_of_mem_tail ha), h.2⟩

theorem Ends.Holds.dropLast {e : Ends α} (h : e.Holds P) : e.dropLast.Holds P :=
  ⟨h.1, fun a ha => h.2 a (List.mem_of_mem_tail ha)⟩

/-- Two lists of values with a property, while they are merged. -/
structure Meeting.Holds (P : α → Prop) (m : Meeting α) : Prop where
  as : m.as.Holds P
  bs : m.bs.Holds P
  low : ∀ a ∈ m.low, P a
  high : ∀ a ∈ m.high, P a

theorem Meeting.holds_ofLists {as bs : List α} (has : ∀ a ∈ as, P a) (hbs : ∀ b ∈ bs, P b) :
    (ofLists as bs).Holds P :=
  ⟨Ends.holds_ofList has, Ends.holds_ofList hbs, List.forall_mem_nil P, List.forall_mem_nil P⟩

theorem Meeting.Holds.takeLow {m : Meeting α} (h : m.Holds P) (second : Bool) {a b : α} (ha : P a)
    (hb : P b) : (m.takeLow second a b).Holds P := by
  cases second with
  | true => exact ⟨h.as, h.bs.dropFirst, List.forall_mem_cons.mpr ⟨hb, h.low⟩, h.high⟩
  | false => exact ⟨h.as.dropFirst, h.bs, List.forall_mem_cons.mpr ⟨ha, h.low⟩, h.high⟩

theorem Meeting.Holds.takeHigh {m : Meeting α} (h : m.Holds P) (second : Bool) {a b : α} (ha : P a)
    (hb : P b) : (m.takeHigh second a b).Holds P := by
  cases second with
  | true => exact ⟨h.as, h.bs.dropLast, h.low, List.forall_mem_cons.mpr ⟨hb, h.high⟩⟩
  | false => exact ⟨h.as.dropLast, h.bs, h.low, List.forall_mem_cons.mpr ⟨ha, h.high⟩⟩

theorem Meeting.Holds.result {m : Meeting α} (h : m.Holds P) : ∀ a ∈ m.result, P a := by
  intro a ha
  simp only [Meeting.result, List.mem_append, List.mem_reverse] at ha
  rcases ha with ((ha | ha) | ha) | ha
  · exact h.low a ha
  · exact h.as.1 a (List.mem_of_mem_take ha)
  · exact h.bs.1 a (List.mem_of_mem_take ha)
  · exact h.high a ha

theorem forall_mem_mergeInward {rounds : Nat} {m : Meeting α} {out : List α} (hm : m.Holds P)
    (h : mergeInward disorder before rounds m = .ok out) : ∀ a ∈ out, P a := by
  induction rounds generalizing m with
  | zero =>
    cases h
    exact hm.result
  | succ rounds ih =>
    unfold mergeInward at h
    split at h
    · rename_i a _ b _ a' _ b' _ hafront hbfront haback hbback
      have ha : P a := hm.as.1 a (by rw [hafront]; exact List.mem_cons_self)
      have hb : P b := hm.bs.1 b (by rw [hbfront]; exact List.mem_cons_self)
      have ha' : P a' := hm.as.2 a' (by rw [haback]; exact List.mem_cons_self)
      have hb' : P b' := hm.bs.2 b' (by rw [hbback]; exact List.mem_cons_self)
      obtain ⟨answer, -, h⟩ := ok_of_bind h
      obtain ⟨second, -, h⟩ := ok_of_bind h
      obtain ⟨answer', -, h⟩ := ok_of_bind h
      obtain ⟨second', -, h⟩ := ok_of_bind h
      exact ih ((hm.takeLow second ha hb).takeHigh second' ha' hb') h
    · cases h
      exact hm.result

theorem forall_mem_sortShort {items out : List α} (hitems : ∀ a ∈ items, P a)
    (h : sortShort disorder before items = .ok out) : ∀ a ∈ out, P a := by
  obtain ⟨⟨as, more⟩, hfirst, h⟩ := ok_of_bind h
  obtain ⟨⟨bs, more'⟩, hsecond, h⟩ := ok_of_bind h
  obtain ⟨as', has, h⟩ := ok_of_bind h
  obtain ⟨bs', hbs, h⟩ := ok_of_bind h
  have htake := startInsertion_holds (fun a ha => hitems a (List.mem_of_mem_take ha)) hfirst
  have hdrop := startInsertion_holds (fun a ha => hitems a (List.mem_of_mem_drop ha)) hsecond
  have has' := forall_mem_insertAll htake.1 htake.2 has
  have hbs' := forall_mem_insertAll hdrop.1 hdrop.2 hbs
  have hm := Meeting.holds_ofLists (fun a ha => has' a (List.mem_reverse.mp ha))
    fun b hb => hbs' b (List.mem_reverse.mp hb)
  exact forall_mem_mergeInward hm h

/-! ## Runs -/

theorem forall_mem_mergeUp {fuel : Nat} {as bs done out : List α} (has : ∀ a ∈ as, P a)
    (hbs : ∀ b ∈ bs, P b) (hdone : ∀ a ∈ done, P a)
    (h : mergeUp before fuel as bs done = .ok out) : ∀ a ∈ out, P a := by
  induction fuel, as, bs, done using mergeUp.induct with
  | case1 fuel a as b bs done ih₁ ih₂ =>
    obtain ⟨ha, has'⟩ := List.forall_mem_cons.mp has
    obtain ⟨hb, hbs'⟩ := List.forall_mem_cons.mp hbs
    obtain ⟨answer, -, h⟩ := ok_of_bind h
    cases answer with
    | true => exact ih₁ has hbs' (List.forall_mem_cons.mpr ⟨hb, hdone⟩) h
    | false => exact ih₂ has' hbs (List.forall_mem_cons.mpr ⟨ha, hdone⟩) h
  | case2 fuel as bs done hnot =>
    rw [mergeUp.eq_2 _ _ _ _ _ hnot] at h
    cases h
    intro a ha
    simp only [List.mem_append, List.mem_reverse] at ha
    rcases ha with (ha | ha) | ha
    · exact hdone a ha
    · exact has a ha
    · exact hbs a ha

theorem forall_mem_mergeDown {fuel : Nat} {as bs done out : List α} (has : ∀ a ∈ as, P a)
    (hbs : ∀ b ∈ bs, P b) (hdone : ∀ a ∈ done, P a)
    (h : mergeDown before fuel as bs done = .ok out) : ∀ a ∈ out, P a := by
  induction fuel, as, bs, done using mergeDown.induct with
  | case1 fuel a as b bs done ih₁ ih₂ =>
    obtain ⟨ha, has'⟩ := List.forall_mem_cons.mp has
    obtain ⟨hb, hbs'⟩ := List.forall_mem_cons.mp hbs
    obtain ⟨answer, -, h⟩ := ok_of_bind h
    cases answer with
    | true => exact ih₁ has' hbs (List.forall_mem_cons.mpr ⟨ha, hdone⟩) h
    | false => exact ih₂ has hbs' (List.forall_mem_cons.mpr ⟨hb, hdone⟩) h
  | case2 fuel as bs done hnot =>
    rw [mergeDown.eq_2 _ _ _ _ _ hnot] at h
    cases h
    intro a ha
    simp only [List.mem_append, List.mem_reverse] at ha
    rcases ha with (ha | ha) | ha
    · exact has a ha
    · exact hbs a ha
    · exact hdone a ha

theorem forall_mem_merge {as bs out : List α} (has : ∀ a ∈ as, P a) (hbs : ∀ b ∈ bs, P b)
    (h : merge before as bs = .ok out) : ∀ a ∈ out, P a := by
  unfold merge at h
  split at h
  · exact forall_mem_mergeUp has hbs (List.forall_mem_nil P) h
  · exact forall_mem_mergeDown (fun a ha => has a (List.mem_reverse.mp ha))
      (fun b hb => hbs b (List.mem_reverse.mp hb)) (List.forall_mem_nil P) h

section Runs

variable {sort : List α → Except ε (List α)}
  (hsort : ∀ {items out}, (∀ a ∈ items, P a) → sort items = .ok out → ∀ a ∈ out, P a)
include hsort

theorem Run.forall_mem_finish {run : Run α} {out : List α} (hrun : ∀ a ∈ run.items, P a)
    (h : run.finish sort = .ok out) : ∀ a ∈ out, P a := by
  unfold Run.finish at h
  split at h
  · cases h
    exact hrun
  · exact hsort hrun h

theorem Run.forall_mem_join {left right out : Run α} (hleft : ∀ a ∈ left.items, P a)
    (hright : ∀ a ∈ right.items, P a) (h : left.join before sort right = .ok out) :
    ∀ a ∈ out.items, P a := by
  unfold Run.join at h
  split at h
  · obtain ⟨as, has, h⟩ := ok_of_bind h
    obtain ⟨bs, hbs, h⟩ := ok_of_bind h
    obtain ⟨merged, hmerge, h⟩ := ok_of_bind h
    cases h
    exact forall_mem_merge (forall_mem_finish hsort hleft has)
      (forall_mem_finish hsort hright hbs) hmerge
  · cases h
    exact List.forall_mem_append.mpr ⟨hleft, hright⟩

end Runs

theorem nextRun_holds {eager : Bool} {least length : Nat} {items : List α}
    (hitems : ∀ a ∈ items, P a) {out : Run α × List α}
    (h : nextRun disorder before eager least length items = .ok out) :
    (∀ a ∈ out.1.items, P a) ∧ ∀ a ∈ out.2, P a := by
  have htake (n : Nat) : ∀ a ∈ items.take n, P a := fun a ha => hitems a (List.mem_of_mem_take ha)
  have hdrop (n : Nat) : ∀ a ∈ items.drop n, P a := fun a ha => hitems a (List.mem_of_mem_drop ha)
  have hcut (count : Nat) (descending : Bool)
      (h : (if count ≥ least then
          return (⟨if descending then (items.take count).reverse else items.take count, true⟩,
            items.drop count)
        else if eager then
          return (⟨← sortShort disorder before (items.take shortLimit), true⟩,
            items.drop shortLimit)
        else return (⟨items.take least, false⟩, items.drop least)) = Except.ok out) :
      (∀ a ∈ out.1.items, P a) ∧ ∀ a ∈ out.2, P a := by
    split at h
    · cases h
      refine ⟨?_, hdrop count⟩
      cases descending with
      | true => exact fun a ha => htake count a (List.mem_reverse.mp ha)
      | false => exact htake count
    · split at h
      · obtain ⟨sorted, hsorted, h⟩ := ok_of_bind h
        cases h
        exact ⟨forall_mem_sortShort (htake _) hsorted, hdrop _⟩
      · cases h
        exact ⟨htake _, hdrop _⟩
  unfold nextRun at h
  by_cases hlt : length < least
  · rw [if_pos hlt] at h
    exact hcut 0 false h
  · rw [if_neg hlt] at h
    obtain ⟨⟨count, descending⟩, -, h⟩ := ok_of_bind h
    exact hcut count descending h

section Joining

variable {cut : Nat → List α → Except ε (Run α × List α)}
  {join : Run α → Run α → Except ε (Run α)}
  (hjoin : ∀ {left right out}, (∀ a ∈ left.items, P a) → (∀ a ∈ right.items, P a) →
    join left right = .ok out → ∀ a ∈ out.items, P a)
include hjoin

theorem collapse_holds {rank : Nat} {stack : List (Run α × Nat)} {run : Run α}
    (hstack : ∀ entry ∈ stack, ∀ a ∈ entry.1.items, P a) (hrun : ∀ a ∈ run.items, P a)
    {out : List (Run α × Nat) × Run α} (h : collapse join rank stack run = .ok out) :
    (∀ entry ∈ out.1, ∀ a ∈ entry.1.items, P a) ∧ ∀ a ∈ out.2.items, P a := by
  induction stack generalizing run with
  | nil =>
    cases h
    exact ⟨nofun, hrun⟩
  | cons entry stack ih =>
    obtain ⟨left, r⟩ := entry
    obtain ⟨hleft, hrest⟩ := List.forall_mem_cons.mp hstack
    unfold collapse at h
    split at h
    · obtain ⟨joined, hjoined, h⟩ := ok_of_bind h
      exact ih hrest (hjoin hleft hrun hjoined) h
    · cases h
      exact ⟨hstack, hrun⟩

theorem forall_mem_collapsed {stack : List (Run α × Nat)} {run out : Run α}
    (hstack : ∀ entry ∈ stack, ∀ a ∈ entry.1.items, P a) (hrun : ∀ a ∈ run.items, P a)
    (h : (do let (_, run) ← collapse join 64 stack run; return run) = .ok out) :
    ∀ a ∈ out.items, P a := by
  obtain ⟨⟨stack', run'⟩, hcollapse, h⟩ := ok_of_bind h
  cases h
  exact (collapse_holds hjoin hstack hrun hcollapse).2

theorem forall_mem_joinRuns
    (hcut : ∀ {length items out}, (∀ a ∈ items, P a) → cut length items = .ok out →
      (∀ a ∈ out.1.items, P a) ∧ ∀ a ∈ out.2, P a)
    {length fuel : Nat} {stack : List (Run α × Nat)} {run out : Run α} {start meeting : Nat}
    {rest : List α} (hstack : ∀ entry ∈ stack, ∀ a ∈ entry.1.items, P a)
    (hrun : ∀ a ∈ run.items, P a) (hrest : ∀ a ∈ rest, P a)
    (h : joinRuns cut join length fuel stack run start meeting rest = .ok out) :
    ∀ a ∈ out.items, P a := by
  induction fuel generalizing stack run start meeting rest with
  | zero => exact forall_mem_collapsed hjoin hstack hrun h
  | succ fuel ih =>
    cases rest with
    | nil => exact forall_mem_collapsed hjoin hstack hrun h
    | cons a rest =>
      obtain ⟨⟨next, rest'⟩, hnext, h⟩ := ok_of_bind h
      obtain ⟨⟨stack', run'⟩, hcollapse, h⟩ := ok_of_bind h
      obtain ⟨hnext, hrest'⟩ := hcut hrest hnext
      obtain ⟨hstack', hrun'⟩ := collapse_holds hjoin hstack hrun hcollapse
      exact ih (List.forall_mem_cons.mpr ⟨hrun', hstack'⟩) hnext hrest' h

end Joining

theorem forall_mem_sortByRuns {eager : Bool} {sort : List α → Except ε (List α)}
    (hsort : ∀ {items out}, (∀ a ∈ items, P a) → sort items = .ok out → ∀ a ∈ out, P a)
    {items out : List α} (hitems : ∀ a ∈ items, P a)
    (h : sortByRuns disorder before eager sort items = .ok out) : ∀ a ∈ out, P a := by
  obtain ⟨⟨run, rest⟩, hcut, h⟩ := ok_of_bind h
  obtain ⟨joined, hjoined, h⟩ := ok_of_bind h
  obtain ⟨hrun, hrest⟩ := nextRun_holds hitems hcut
  have hall := forall_mem_joinRuns (fun hleft hright => Run.forall_mem_join hsort hleft hright)
    (fun hitems hcut => nextRun_holds hitems hcut) (List.forall_mem_nil _) hrun hrest hjoined
  exact Run.forall_mem_finish hsort hall h

/-! ## Pivots -/

theorem middleOf_eq {β : Type} {before : Test β ε} {a b c out : β}
    (h : middleOf before a b c = .ok out) : out = a ∨ out = b ∨ out = c := by
  obtain ⟨left, -, h⟩ := ok_of_bind h
  obtain ⟨right, -, h⟩ := ok_of_bind h
  split at h
  · obtain ⟨between, -, h⟩ := ok_of_bind h
    split at h
    · cases h
      exact Or.inr (Or.inr rfl)
    · cases h
      exact Or.inr (Or.inl rfl)
  · cases h
    exact Or.inl rfl

theorem representative_holds {items : Array α} {first : α} (hitems : ∀ a ∈ items, P a)
    (hfirst : P first) {levels start length : Nat} {out : Nat × α}
    (h : representative before items first levels start length = .ok out) : P out.2 := by
  induction levels generalizing start length out with
  | zero =>
    cases h
    unfold Array.getD
    split
    · exact hitems _ (Array.getElem_mem _)
    · exact hfirst
  | succ levels ih =>
    obtain ⟨a, ha, h⟩ := ok_of_bind h
    obtain ⟨b, hb, h⟩ := ok_of_bind h
    obtain ⟨c, hc, h⟩ := ok_of_bind h
    rcases middleOf_eq h with rfl | rfl | rfl
    · exact ih ha
    · exact ih hb
    · exact ih hc

theorem distribute_holds {test : α → Except ε Bool} {left right items : List α}
    (hleft : ∀ a ∈ left, P a) (hright : ∀ a ∈ right, P a) (hitems : ∀ a ∈ items, P a)
    {out : List α × List α} (h : distribute test left right items = .ok out) :
    (∀ a ∈ out.1, P a) ∧ ∀ a ∈ out.2, P a := by
  induction items generalizing left right with
  | nil =>
    cases h
    exact ⟨hleft, hright⟩
  | cons a rest ih =>
    obtain ⟨ha, hrest⟩ := List.forall_mem_cons.mp hitems
    obtain ⟨answer, -, h⟩ := ok_of_bind h
    cases answer with
    | true => exact ih (List.forall_mem_cons.mpr ⟨ha, hleft⟩) hright hrest h
    | false => exact ih hleft (List.forall_mem_cons.mpr ⟨ha, hright⟩) hrest h

theorem split_holds {test : α → Except ε Bool} {pivotLeft : Bool} {front back : List α} {pivot : α}
    (hfront : ∀ a ∈ front, P a) (hpivot : P pivot) (hback : ∀ a ∈ back, P a)
    {out : List α × List α} (h : split test pivotLeft front pivot back = .ok out) :
    (∀ a ∈ out.1, P a) ∧ ∀ a ∈ out.2, P a := by
  obtain ⟨⟨left, right⟩, hdistribute, h⟩ := ok_of_bind h
  obtain ⟨hleft, hright⟩ := distribute_holds (List.forall_mem_nil P)
    (List.forall_mem_nil P) hfront hdistribute
  obtain ⟨⟨left', right'⟩, hdistribute', h⟩ := ok_of_bind h
  have hboth : (∀ a ∈ left', P a) ∧ ∀ a ∈ right', P a := by
    cases pivotLeft with
    | true =>
      exact distribute_holds (List.forall_mem_cons.mpr ⟨hpivot, hleft⟩) hright hback hdistribute'
    | false =>
      exact distribute_holds hleft (List.forall_mem_cons.mpr ⟨hpivot, hright⟩) hback hdistribute'
  cases h
  exact ⟨fun a ha => hboth.1 a (List.mem_reverse.mp ha),
    fun a ha => hboth.2 a (List.mem_reverse.mp ha)⟩

theorem forall_mem_sortByPivots {limit : Nat} {ancestor : Option α} {items out : List α}
    (hitems : ∀ a ∈ items, P a) (h : sortByPivots disorder before limit ancestor items = .ok out) :
    ∀ a ∈ out, P a := by
  induction limit generalizing ancestor items out with
  | zero =>
    unfold sortByPivots at h
    split at h
    · exact forall_mem_sortShort hitems h
    · exact forall_mem_sortByRuns (fun hitems h => forall_mem_sortShort hitems h) hitems h
  | succ limit ih =>
    cases items with
    | nil =>
      cases h
      exact nofun
    | cons first rest =>
      unfold sortByPivots at h
      dsimp only at h
      split at h
      · exact forall_mem_sortShort hitems h
      obtain ⟨⟨place, pivot⟩, hchosen, h⟩ := ok_of_bind h
      have hpivot : P pivot := by
        refine representative_holds (fun a ha => hitems a ?_)
          (hitems first List.mem_cons_self) hchosen
        simpa using ha
      have hfront : ∀ a ∈ (first :: rest).take place, P a :=
        fun a ha => hitems a (List.mem_of_mem_take ha)
      have hback : ∀ a ∈ (first :: rest).drop (place + 1), P a :=
        fun a ha => hitems a (List.mem_of_mem_drop ha)
      have hsorted (lesser others : List α) (hlesser : ∀ a ∈ lesser, P a)
          (hothers : ∀ a ∈ others, P a)
          (h : (if lesser.isEmpty then do
              let parts ← split (fun a => (before pivot a).map (!·)) true
                ((first :: rest).take place) pivot ((first :: rest).drop (place + 1))
              return parts.1 ++ (← sortByPivots disorder before limit none parts.2)
            else do
              let others ← sortByPivots disorder before limit (some pivot) others
              let lesser ← sortByPivots disorder before limit ancestor lesser
              return lesser ++ others) = Except.ok out) : ∀ a ∈ out, P a := by
        split at h
        · obtain ⟨⟨equal, greater⟩, hequal, h⟩ := ok_of_bind h
          obtain ⟨sorted, hsorted, h⟩ := ok_of_bind h
          obtain ⟨hequal, hgreater⟩ := split_holds hfront hpivot hback hequal
          cases h
          exact List.forall_mem_append.mpr ⟨hequal, ih hgreater hsorted⟩
        · obtain ⟨others', hothers', h⟩ := ok_of_bind h
          obtain ⟨lesser', hlesser', h⟩ := ok_of_bind h
          cases h
          exact List.forall_mem_append.mpr ⟨ih hlesser hlesser', ih hothers hothers'⟩
      -- with the pivot to the left or without one, the values are split at the new one
      cases ancestor
      all_goals
        obtain ⟨least, -, h⟩ := ok_of_bind h
        cases least with
        | true =>
          obtain ⟨parts, hparts, h⟩ := ok_of_bind h
          cases hparts
          exact hsorted [] (first :: rest) (List.forall_mem_nil P) hitems h
        | false =>
          obtain ⟨⟨lesser, others⟩, hsplit, h⟩ := ok_of_bind h
          obtain ⟨hlesser, hothers⟩ := split_holds hfront hpivot hback hsplit
          exact hsorted lesser others hlesser hothers h

/-- A sorted list holds only values of the list that was sorted. -/
theorem mem_of_sort {items out : List α} (h : sort disorder before items = .ok out) :
    ∀ a ∈ out, a ∈ items := by
  unfold sort at h
  split at h
  · obtain ⟨sorted, hsorted, rfl⟩ := ok_of_map h
    intro a ha
    exact forall_mem_insertAll (List.forall_mem_nil _) (fun a ha => ha) hsorted a
      (List.mem_reverse.mp ha)
  · exact forall_mem_sortByRuns (fun hitems h => forall_mem_sortByPivots hitems h)
      (fun a ha => ha) h

end Sorting

end Monorepo
