import Monorepo.Script.Syntax.Grammar

/-!
# Trails through a script

A trail leads from a statement down to one of its parts, construct by construct. Every step of it
enters a construct that nests: brackets, a link of a chain, an operand or a block. The grammar takes
room for some of these steps and none for others, so the kinds of steps are kept apart. The length
of a trail bounds how deeply a recursion over the script can be.
-/

namespace Monorepo.Script

/-- The kinds of steps from a construct to one of its parts. -/
inductive Step
  /-- Into brackets, a right operand, the operand of a sign or of `not`, or a block. -/
  | inside
  /-- To the left end of a link: a left operand, a callee, or what an attribute or item is of. -/
  | left
  /-- Into what a comprehension runs over, or its condition. -/
  | clause
  /-- To an item of a tuple that stands in a statement without need of brackets. -/
  | bare
  /-- To an expression of a statement, or into a part of a conditional expression. -/
  | plain
deriving DecidableEq

/-- A way down, one step after another. -/
abbrev Trail := List Step

/-- The number of nested constructs on a trail: lists, tuples, dictionaries, comprehensions, calls,
    subscripts, attributes, operations and blocks. -/
def Trail.nesting (t : Trail) : Nat := t.countP (· != .plain)

/-- The value of an argument. -/
def Argument.value : Argument → Expr
  | .positional e => e
  | .keyword _ e => e
  | .spread e => e
  | .spreadKeywords e => e

namespace Expr

/-- The parts of an expression, with the steps to them. -/
def parts : Expr → List (Step × Expr)
  | .list items | .tuple items => items.map (.inside, ·)
  | .dict entries => entries.flatMap fun (k, v) => [(.inside, k), (.inside, v)]
  | .comprehension e _ source condition =>
    (.inside, e) :: (.clause, source) :: condition.toList.map (.clause, ·)
  | .call f arguments => (.left, f) :: arguments.map fun a => (.inside, a.value)
  | .attribute e _ => [(.left, e)]
  | .subscript e i => [(.left, e), (.inside, i)]
  | .arithmetic _ l r => [(.left, l), (.inside, r)]
  | .compare _ l r => [(.left, l), (.inside, r)]
  | .both l r => [(.left, l), (.inside, r)]
  | .either l r => [(.left, l), (.inside, r)]
  | .unary _ e => [(.inside, e)]
  | .conditional c p n => [(.plain, c), (.plain, p), (.plain, n)]
  | .none | .bool _ | .int _ | .float _ | .text _ | .name _ => []

/-- The steps with which a trail may end at an expression: lists, tuples and dictionaries nest even
    if they are empty. -/
def ends : Expr → List Step
  | .list _ | .tuple _ | .dict _ => [.inside]
  | _ => []

/-- The parts of an expression that stands where a tuple needs no brackets. -/
def bareParts : Expr → List (Step × Expr)
  | .tuple items => items.map (.bare, ·)
  | e => e.parts

/-- The steps with which a trail may end at such an expression. -/
def bareEnds : Expr → List Step
  | .tuple _ => [.bare]
  | e => e.ends

/-- Whether a trail leads down from an expression. -/
def HasTrail : Trail → Expr → Prop
  | [], _ => True
  | s :: t, e => (t = [] ∧ s ∈ e.ends) ∨ ∃ part ∈ e.parts, part.1 = s ∧ HasTrail t part.2

/-- Whether a trail leads down from an expression that stands where a tuple needs no brackets. -/
def HasBareTrail : Trail → Expr → Prop
  | [], _ => True
  | s :: t, e => (t = [] ∧ s ∈ e.bareEnds) ∨ ∃ part ∈ e.bareParts, part.1 = s ∧ HasTrail t part.2

instance decidableHasTrail : (t : Trail) → (e : Expr) → Decidable (HasTrail t e)
  | [], _ => .isTrue trivial
  | s :: t, e =>
    have := decidableHasTrail t
    inferInstanceAs
      (Decidable ((t = [] ∧ s ∈ e.ends) ∨ ∃ part ∈ e.parts, part.1 = s ∧ HasTrail t part.2))

instance decidableHasBareTrail : (t : Trail) → (e : Expr) → Decidable (HasBareTrail t e)
  | [], _ => .isTrue trivial
  | s :: t, e =>
    inferInstanceAs
      (Decidable ((t = [] ∧ s ∈ e.bareEnds) ∨ ∃ part ∈ e.bareParts, part.1 = s ∧ HasTrail t part.2))

theorem ends_eq_inside {e : Expr} {s : Step} (h : s ∈ e.ends) : s = .inside := by
  cases e <;> first | exact List.eq_of_mem_singleton h | cases h

theorem hasBareTrail_iff {e : Expr} (hne : ∀ items, e ≠ .tuple items) {t : Trail} :
    e.HasBareTrail t ↔ e.HasTrail t := by
  cases t with
  | nil => exact Iff.rfl
  | cons s t => cases e <;> first | exact Iff.rfl | exact absurd rfl (hne _)

end Expr

namespace Action

/-- The expressions of an action in which a tuple needs no brackets. -/
def values : Action → List Expr
  | .evaluate e => [e]
  | .assign _ e => [e]
  | .augment _ _ e => [e]
  | .loop _ e _ => [e]
  | .give e => e.toList
  | _ => []

/-- Its other expressions. -/
def tests : Action → List Expr
  | .assign (.place e) _ => [e]
  | .branch branches _ => branches.map (·.1)
  | .define _ parameters _ => parameters.filterMap Parameter.default
  | _ => []

/-- Its blocks. -/
def blocks : Action → List (List Statement)
  | .branch branches otherwise => otherwise :: branches.map (·.2)
  | .loop _ _ body => [body]
  | .define _ _ body => [body]
  | _ => []

end Action

namespace Statement

/-- Whether a trail leads down from a statement. -/
def HasTrail : Trail → Statement → Prop
  | [], _ => True
  | s :: t, statement =>
    (s = .plain ∧ ((∃ e ∈ statement.action.tests, e.HasTrail t) ∨
      ∃ e ∈ statement.action.values, e.HasBareTrail t)) ∨
    (s = .inside ∧ ∃ b ∈ statement.action.blocks, ∃ statement' ∈ b, HasTrail t statement')

instance decidableHasTrail : (t : Trail) → (s : Statement) → Decidable (HasTrail t s)
  | [], _ => .isTrue trivial
  | s :: t, statement =>
    have := decidableHasTrail t
    inferInstanceAs (Decidable ((s = .plain ∧ ((∃ e ∈ statement.action.tests, e.HasTrail t) ∨
      ∃ e ∈ statement.action.values, e.HasBareTrail t)) ∨
      (s = .inside ∧ ∃ b ∈ statement.action.blocks, ∃ statement' ∈ b, HasTrail t statement')))

end Statement

/-! ## Bounds for trails -/

/-- What a step into a clause may add to the length of a trail: each of the six chains that it may
    have to descend has at most as many links as there is room, and then there is the step. -/
def clauseLength : Nat := 6 * maxNesting + 1

/-- A trail that takes at most `depth` steps inside, and at most `length` steps that no clause
    accounts for. -/
structure Trail.Fits (depth length : Nat) (t : Trail) : Prop where
  /-- The steps that take room are few. -/
  depth : t.count .inside ≤ depth
  /-- All steps are few, up to clauses. -/
  length : t.length ≤ length + clauseLength * t.count .clause

namespace Trail

variable {depth depth' length length' : Nat} {t : Trail}

theorem fits_nil : Fits depth length [] := ⟨Nat.zero_le _, Nat.zero_le _⟩

theorem Fits.mono (h : t.Fits depth length) (hdepth : depth ≤ depth') (hlength : length ≤ length') :
    t.Fits depth' length' :=
  ⟨Nat.le_trans h.depth hdepth, Nat.le_trans h.length (Nat.add_le_add_right hlength _)⟩

theorem Fits.inside (h : t.Fits depth length) : Fits (depth + 1) (length + 1) (.inside :: t) := by
  obtain ⟨hdepth, hlength⟩ := h
  constructor
  · simpa using hdepth
  · rw [List.length_cons, List.count_cons_of_ne (by decide)]
    omega

/-- A step that takes no room. -/
theorem Fits.free (h : t.Fits depth length) {s : Step} (hs : s ≠ .inside) :
    Fits depth (length + 1) (s :: t) := by
  obtain ⟨hdepth, hlength⟩ := h
  have hclause : t.count .clause ≤ List.count .clause (s :: t) := List.count_le_count_cons
  have hmul := Nat.mul_le_mul_left clauseLength hclause
  constructor
  · rw [List.count_cons_of_ne hs]
    exact hdepth
  · rw [List.length_cons]
    omega

/-- A step into a clause, which accounts for the length of what follows. -/
theorem Fits.clause (h : t.Fits depth length) (hlength : length + 1 ≤ length' + clauseLength) :
    Fits depth length' (.clause :: t) := by
  constructor
  · rw [List.count_cons_of_ne (by decide)]
    exact h.depth
  · have := h.length
    rw [List.length_cons, List.count_cons_self, Nat.mul_succ]
    omega

/-- A trail with a step in place of one that takes room. -/
theorem Fits.replace (h : Fits depth length (.inside :: t)) :
    Fits depth length (.bare :: t) := by
  obtain ⟨hdepth, hlength⟩ := h
  rw [List.count_cons_self] at hdepth
  rw [List.count_cons_of_ne (by decide)] at hlength
  constructor
  · rw [List.count_cons_of_ne (by decide)]
    omega
  · rw [List.count_cons_of_ne (by decide)]
    exact hlength

/-- A trail that takes room for its first step after all. -/
theorem Fits.restore (h : Fits depth length (.bare :: t)) :
    Fits (depth + 1) length (.inside :: t) := by
  obtain ⟨hdepth, hlength⟩ := h
  rw [List.count_cons_of_ne (by decide)] at hdepth hlength
  constructor
  · rw [List.count_cons_self]
    omega
  · rw [List.count_cons_of_ne (by decide)]
    exact hlength

end Trail

namespace Expr

/-- An expression all of whose trails fit. -/
def Fits (depth length : Nat) (e : Expr) : Prop := ∀ t, e.HasTrail t → t.Fits depth length

/-- An expression all of whose trails fit where a tuple needs no brackets. -/
def FitsBare (depth length : Nat) (e : Expr) : Prop := ∀ t, e.HasBareTrail t → t.Fits depth length

variable {depth depth' length length' : Nat} {e : Expr}

theorem Fits.mono (h : e.Fits depth length) (hdepth : depth ≤ depth') (hlength : length ≤ length') :
    e.Fits depth' length' :=
  fun t ht => (h t ht).mono hdepth hlength

/-- An expression fits if the trails through each of its parts do. -/
theorem fits_of_parts (hends : ∀ s ∈ e.ends, Trail.Fits depth length [s])
    (hparts : ∀ part ∈ e.parts, ∀ t, part.2.HasTrail t → Trail.Fits depth length (part.1 :: t)) :
    e.Fits depth length := by
  intro t ht
  cases t with
  | nil => exact Trail.fits_nil
  | cons s t =>
    rcases ht with ⟨rfl, hs⟩ | ⟨part, hpart, rfl, ht⟩
    · exact hends s hs
    · exact hparts part hpart t ht

/-- A construct takes room for the steps inside, and none for the step to its left end. -/
theorem fits_construct
    (h : ∀ part ∈ e.parts, part.1 = .inside ∧ part.2.Fits depth length ∨
      part.1 = .left ∧ part.2.Fits (depth + 1) length) :
    e.Fits (depth + 1) (length + 1) := by
  refine fits_of_parts (fun s hs => ?_) fun part hpart t ht => ?_
  · rw [ends_eq_inside hs]
    exact Trail.fits_nil.inside
  · rcases h part hpart with ⟨hstep, hfits⟩ | ⟨hstep, hfits⟩
    · rw [hstep]
      exact (hfits t ht).inside
    · rw [hstep]
      exact (hfits t ht).free (by decide)

/-- Literals and names fit everywhere. -/
theorem fits_leaf (hends : e.ends = []) (hparts : e.parts = []) : e.Fits depth length := by
  refine fits_of_parts ?_ ?_
  · rw [hends]
    exact nofun
  · rw [hparts]
    exact nofun

/-! ### Brackets, signs and conditions -/

theorem fits_list {items : List Expr} (h : ∀ e ∈ items, e.Fits depth length) :
    (Expr.list items).Fits (depth + 1) (length + 1) :=
  fits_construct (List.forall_mem_map.mpr fun e he => Or.inl ⟨rfl, h e he⟩)

theorem fits_tuple {items : List Expr} (h : ∀ e ∈ items, e.Fits depth length) :
    (Expr.tuple items).Fits (depth + 1) (length + 1) :=
  fits_construct (List.forall_mem_map.mpr fun e he => Or.inl ⟨rfl, h e he⟩)

theorem fits_dict {entries : List (Expr × Expr)}
    (h : ∀ entry ∈ entries, entry.1.Fits depth length ∧ entry.2.Fits depth length) :
    (Expr.dict entries).Fits (depth + 1) (length + 1) := by
  refine fits_construct fun part hpart => ?_
  obtain ⟨entry, hentry, hpart⟩ := List.mem_flatMap.mp hpart
  obtain ⟨hkey, hvalue⟩ := h entry hentry
  rcases List.mem_cons.mp hpart with rfl | hpart
  · exact Or.inl ⟨rfl, hkey⟩
  · rw [List.eq_of_mem_singleton hpart]
    exact Or.inl ⟨rfl, hvalue⟩

/-- The clauses of a comprehension may be as deep as all of it, and longer. -/
theorem fits_comprehension {source : Expr} {targets : List String} {condition : Option Expr}
    (he : e.Fits depth length) (hsource : source.Fits (depth + 1) length')
    (hcondition : ∀ c ∈ condition, c.Fits (depth + 1) length')
    (hlength : length' ≤ length + clauseLength) :
    (Expr.comprehension e targets source condition).Fits (depth + 1) (length + 1) := by
  refine fits_of_parts nofun (List.forall_mem_cons.mpr ⟨fun t ht => (he t ht).inside, ?_⟩)
  refine List.forall_mem_cons.mpr ⟨fun t ht => (hsource t ht).clause (by omega), ?_⟩
  refine List.forall_mem_map.mpr fun c hc t ht => ?_
  exact (hcondition c (Option.mem_toList.mp hc) t ht).clause (by omega)

theorem fits_unary {op : UnaryOp} (h : e.Fits depth length) :
    (Expr.unary op e).Fits (depth + 1) (length + 1) :=
  fits_construct (List.forall_mem_singleton.mpr (Or.inl ⟨rfl, h⟩))

theorem fits_conditional {c n : Expr} (hc : c.Fits depth length) (he : e.Fits depth length)
    (hn : n.Fits depth length) : (Expr.conditional c e n).Fits depth (length + 1) := by
  have hplain {e : Expr} (h : e.Fits depth length) :
      ∀ t, e.HasTrail t → Trail.Fits depth (length + 1) (.plain :: t) :=
    fun t ht => (h t ht).free (by decide)
  refine fits_of_parts nofun (List.forall_mem_cons.mpr ⟨hplain hc, ?_⟩)
  exact List.forall_mem_cons.mpr ⟨hplain he, List.forall_mem_singleton.mpr (hplain hn)⟩

/-! ### Links -/

theorem fits_attribute {name : String} (h : e.Fits (depth + 1) length) :
    (Expr.attribute e name).Fits (depth + 1) (length + 1) :=
  fits_construct (List.forall_mem_singleton.mpr (Or.inr ⟨rfl, h⟩))

theorem fits_call {arguments : List Argument} (h : e.Fits (depth + 1) length)
    (harguments : ∀ a ∈ arguments, a.value.Fits depth length) :
    (Expr.call e arguments).Fits (depth + 1) (length + 1) := by
  refine fits_construct (List.forall_mem_cons.mpr ⟨Or.inr ⟨rfl, h⟩, ?_⟩)
  exact List.forall_mem_map.mpr fun a ha => Or.inl ⟨rfl, harguments a ha⟩

/-- A link with a right operand, or with an index. -/
theorem fits_link {l r : Expr} (hparts : e.parts = [(.left, l), (.inside, r)])
    (hl : l.Fits (depth + 1) length) (hr : r.Fits depth length) :
    e.Fits (depth + 1) (length + 1) := by
  refine fits_construct ?_
  rw [hparts]
  exact List.forall_mem_cons.mpr
    ⟨Or.inr ⟨rfl, hl⟩, List.forall_mem_singleton.mpr (Or.inl ⟨rfl, hr⟩)⟩

/-! ### Where a tuple needs no brackets -/

/-- A trail through a tuple, whatever its first step is called. -/
theorem trail_of_tuple {items : List Expr} {s s' : Step} {t : Trail} :
    ((t = [] ∧ s ∈ [s']) ∨ ∃ part ∈ items.map (s', ·), part.1 = s ∧ HasTrail t part.2) ↔
      s = s' ∧ (t = [] ∨ ∃ e ∈ items, e.HasTrail t) := by
  constructor
  · rintro (⟨hnil, hs⟩ | ⟨part, hpart, rfl, hbelow⟩)
    · exact ⟨List.eq_of_mem_singleton hs, Or.inl hnil⟩
    · obtain ⟨e, he, rfl⟩ := List.mem_map.mp hpart
      exact ⟨rfl, Or.inr ⟨e, he, hbelow⟩⟩
  · rintro ⟨rfl, hnil | ⟨e, he, hbelow⟩⟩
    · exact Or.inl ⟨hnil, List.mem_singleton.mpr rfl⟩
    · exact Or.inr ⟨(s, e), List.mem_map.mpr ⟨e, he, rfl⟩, rfl, hbelow⟩

theorem hasTrail_tuple {items : List Expr} {s : Step} {t : Trail} :
    (Expr.tuple items).HasTrail (s :: t) ↔
      s = .inside ∧ (t = [] ∨ ∃ e ∈ items, e.HasTrail t) :=
  trail_of_tuple

theorem hasBareTrail_tuple {items : List Expr} {s : Step} {t : Trail} :
    (Expr.tuple items).HasBareTrail (s :: t) ↔
      s = .bare ∧ (t = [] ∨ ∃ e ∈ items, e.HasTrail t) :=
  trail_of_tuple

theorem fitsBare_tuple {items : List Expr} (h : ∀ e ∈ items, e.Fits depth length) :
    (Expr.tuple items).FitsBare depth (length + 1) := by
  intro t ht
  cases t with
  | nil => exact Trail.fits_nil
  | cons s t =>
    obtain ⟨rfl, rfl | ⟨e, he, ht⟩⟩ := hasBareTrail_tuple.mp ht
    · exact Trail.fits_nil.free (by decide)
    · exact (h e he t ht).free (by decide)

theorem Fits.fitsBare (h : e.Fits depth length) : e.FitsBare depth length := by
  intro t ht
  by_cases htuple : ∃ items, e = .tuple items
  · obtain ⟨items, rfl⟩ := htuple
    cases t with
    | nil => exact Trail.fits_nil
    | cons s t =>
      obtain ⟨rfl, hbelow⟩ := hasBareTrail_tuple.mp ht
      exact (h _ (hasTrail_tuple.mpr ⟨rfl, hbelow⟩)).replace
  · exact h t ((hasBareTrail_iff fun items he => htuple ⟨items, he⟩).mp ht)

theorem FitsBare.fits (h : e.FitsBare depth length) : e.Fits (depth + 1) length := by
  intro t ht
  by_cases htuple : ∃ items, e = .tuple items
  · obtain ⟨items, rfl⟩ := htuple
    cases t with
    | nil => exact Trail.fits_nil
    | cons s t =>
      obtain ⟨rfl, hbelow⟩ := hasTrail_tuple.mp ht
      exact (h _ (hasBareTrail_tuple.mpr ⟨rfl, hbelow⟩)).restore
  · have hfits := h t ((hasBareTrail_iff fun items he => htuple ⟨items, he⟩).mpr ht)
    exact hfits.mono (Nat.le_succ _) (Nat.le_refl _)

theorem FitsBare.fits_of_ne_tuple (h : e.FitsBare depth length)
    (hne : ∀ items, e ≠ .tuple items) : e.Fits depth length :=
  fun t ht => h t ((hasBareTrail_iff hne).mpr ht)

theorem FitsBare.mono (h : e.FitsBare depth length) (hdepth : depth ≤ depth')
    (hlength : length ≤ length') : e.FitsBare depth' length' :=
  fun t ht => (h t ht).mono hdepth hlength

end Expr

/-- An action all of whose expressions and blocks fit. -/
structure Action.Fits (depth length : Nat) (a : Action) : Prop where
  /-- Its values are expressions or tuples of them. -/
  values : ∀ e ∈ a.values, e.FitsBare depth (length + 1)
  /-- Its other expressions are no bare tuples. -/
  tests : ∀ e ∈ a.tests, e.Fits depth (length + 1)
  /-- Its blocks are one level further in. -/
  blocks : ∀ b ∈ a.blocks, ∀ s ∈ b, ∀ t, s.HasTrail t →
    Trail.Fits depth (length + 2) (.inside :: t)

/-- A statement all of whose trails fit. -/
def Statement.Fits (depth length : Nat) (s : Statement) : Prop :=
  ∀ t, s.HasTrail t → t.Fits depth length

theorem Action.Fits.statement {depth length : Nat} {a : Action} (h : a.Fits depth length)
    (line : Nat) : (Statement.at line a).Fits depth (length + 2) := by
  intro t ht
  cases t with
  | nil => exact Trail.fits_nil
  | cons s t =>
    rcases ht with ⟨rfl, ⟨e, he, ht⟩ | ⟨e, he, ht⟩⟩ | ⟨rfl, b, hb, s, hs, ht⟩
    · exact (h.tests e he t ht).free (by decide)
    · exact (h.values e he t ht).free (by decide)
    · exact h.blocks b hb s hs t ht

end Monorepo.Script
