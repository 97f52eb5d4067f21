import Monorepo.Proofs.Trails

/-!
# What occurs in a script

An expression occurs in another one if a way of steps leads down to it, and in a statement if it
occurs in an expression of the statement or of one in its blocks. What is asked of all that occurs
is asked of the parts again.
-/

namespace Monorepo.Script

/-! ## Expressions -/

namespace Expr

/-- An expression and its parts, however deep. -/
inductive Within (e : Expr) : Expr → Prop
  | self : Within e e
  | part {whole : Expr} {p : Step × Expr} (hpart : p ∈ whole.parts) (h : Within e p.2) :
    Within e whole

/-- An expression in which all that occurs satisfies `Q`. -/
def All (Q : Expr → Prop) (e : Expr) : Prop := ∀ part, part.Within e → Q part

variable {Q : Expr → Prop} {e : Expr}

theorem All.self (h : e.All Q) : Q e := h e .self

theorem All.part (h : e.All Q) {p : Step × Expr} (hpart : p ∈ e.parts) : p.2.All Q :=
  fun _ hwithin => h _ (.part hpart hwithin)

theorem All.list {items : List Expr} (h : (Expr.list items).All Q) : ∀ e ∈ items, e.All Q :=
  fun e he => h.part (p := (.inside, e)) (List.mem_map.mpr ⟨e, he, rfl⟩)

theorem All.tuple {items : List Expr} (h : (Expr.tuple items).All Q) : ∀ e ∈ items, e.All Q :=
  fun e he => h.part (p := (.inside, e)) (List.mem_map.mpr ⟨e, he, rfl⟩)

theorem All.dict {entries : List (Expr × Expr)} (h : (Expr.dict entries).All Q) :
    ∀ entry ∈ entries, entry.1.All Q ∧ entry.2.All Q := by
  intro entry hentry
  have hpart (p : Step × Expr) (hp : p = (.inside, entry.1) ∨ p = (.inside, entry.2)) :
      p.2.All Q :=
    h.part (List.mem_flatMap.mpr ⟨entry, hentry, by simpa using hp⟩)
  exact ⟨hpart _ (Or.inl rfl), hpart _ (Or.inr rfl)⟩

theorem All.comprehension {element source : Expr} {targets : List String}
    {condition : Option Expr} (h : (Expr.comprehension element targets source condition).All Q) :
    element.All Q ∧ source.All Q ∧ ∀ c ∈ condition, c.All Q := by
  refine ⟨h.part (p := (.inside, element)) (by simp [parts]),
    h.part (p := (.clause, source)) (by simp [parts]), fun c hc => ?_⟩
  rw [Option.mem_def] at hc
  exact h.part (p := (.clause, c)) (by simp [parts, hc])

theorem All.call {callee : Expr} {arguments : List Argument}
    (h : (Expr.call callee arguments).All Q) :
    callee.All Q ∧ ∀ a ∈ arguments, a.value.All Q := by
  refine ⟨h.part (p := (.left, callee)) (by simp [parts]), fun a ha => ?_⟩
  exact h.part (p := (.inside, a.value)) (List.mem_cons_of_mem _ (List.mem_map.mpr ⟨a, ha, rfl⟩))

theorem All.attribute {object : Expr} {name : String} (h : (Expr.attribute object name).All Q) :
    object.All Q :=
  h.part (p := (.left, object)) (by simp [parts])

theorem All.unary {op : UnaryOp} {operand : Expr} (h : (Expr.unary op operand).All Q) :
    operand.All Q :=
  h.part (p := (.inside, operand)) (by simp [parts])

/-- The two parts of a link. -/
theorem All.link {l r : Expr} (h : e.All Q) (hparts : e.parts = [(.left, l), (.inside, r)]) :
    l.All Q ∧ r.All Q :=
  ⟨h.part (p := (.left, l)) (by simp [hparts]), h.part (p := (.inside, r)) (by simp [hparts])⟩

theorem All.conditional {c p n : Expr} (h : (Expr.conditional c p n).All Q) :
    c.All Q ∧ p.All Q ∧ n.All Q :=
  ⟨h.part (p := (.plain, c)) (by simp [parts]), h.part (p := (.plain, p)) (by simp [parts]),
    h.part (p := (.plain, n)) (by simp [parts])⟩

/-! ### From the parts to the whole -/

theorem all_of_parts (h : Q e) (hparts : ∀ part ∈ e.parts, part.2.All Q) :
    e.All Q := by
  intro part hpart
  cases hpart with
  | self => exact h
  | part hmem hpart => exact hparts _ hmem _ hpart

theorem all_list {items : List Expr} (h : Q (.list items)) (hitems : ∀ e ∈ items, e.All Q) :
    (Expr.list items).All Q :=
  all_of_parts h (List.forall_mem_map.mpr hitems)

theorem all_tuple {items : List Expr} (h : Q (.tuple items)) (hitems : ∀ e ∈ items, e.All Q) :
    (Expr.tuple items).All Q :=
  all_of_parts h (List.forall_mem_map.mpr hitems)

theorem all_dict {entries : List (Expr × Expr)} (h : Q (.dict entries))
    (hentries : ∀ entry ∈ entries, entry.1.All Q ∧ entry.2.All Q) : (Expr.dict entries).All Q := by
  refine all_of_parts h fun part hpart => ?_
  obtain ⟨entry, hentry, hpart⟩ := List.mem_flatMap.mp hpart
  rcases List.mem_cons.mp hpart with rfl | hpart
  · exact (hentries entry hentry).1
  · obtain rfl := List.mem_singleton.mp hpart
    exact (hentries entry hentry).2

theorem all_comprehension {element source : Expr} {targets : List String}
    {condition : Option Expr} (h : Q (.comprehension element targets source condition))
    (helement : element.All Q) (hsource : source.All Q) (hcondition : ∀ c ∈ condition, c.All Q) :
    (Expr.comprehension element targets source condition).All Q := by
  refine all_of_parts h (List.forall_mem_cons.mpr ⟨helement, List.forall_mem_cons.mpr
    ⟨hsource, List.forall_mem_map.mpr fun c hc => hcondition c ?_⟩⟩)
  exact Option.mem_toList.mp hc

theorem all_call {callee : Expr} {arguments : List Argument} (h : Q (.call callee arguments))
    (hcallee : callee.All Q) (harguments : ∀ a ∈ arguments, a.value.All Q) :
    (Expr.call callee arguments).All Q :=
  all_of_parts h (List.forall_mem_cons.mpr ⟨hcallee, List.forall_mem_map.mpr harguments⟩)

theorem all_attribute {object : Expr} {name : String} (h : Q (.attribute object name))
    (hobject : object.All Q) : (Expr.attribute object name).All Q :=
  all_of_parts h (List.forall_mem_singleton.mpr hobject)

theorem all_unary {op : UnaryOp} {operand : Expr} (h : Q (.unary op operand))
    (hoperand : operand.All Q) : (Expr.unary op operand).All Q :=
  all_of_parts h (List.forall_mem_singleton.mpr hoperand)

theorem all_link {l r : Expr} (h : Q e) (hparts : e.parts = [(.left, l), (.inside, r)])
    (hl : l.All Q) (hr : r.All Q) : e.All Q := by
  refine all_of_parts h ?_
  rw [hparts]
  exact List.forall_mem_cons.mpr ⟨hl, List.forall_mem_singleton.mpr hr⟩

theorem all_conditional {c p n : Expr} (h : Q (.conditional c p n)) (hc : c.All Q)
    (hp : p.All Q) (hn : n.All Q) : (Expr.conditional c p n).All Q :=
  all_of_parts h (List.forall_mem_cons.mpr ⟨hc, List.forall_mem_cons.mpr
    ⟨hp, List.forall_mem_singleton.mpr hn⟩⟩)

end Expr

/-! ## Statements -/

/-- The expressions of an action; those in its blocks are not among them. -/
def Action.expressions (a : Action) : List Expr := a.tests ++ a.values

namespace Statement

/-- A statement and those in its blocks, however deep. -/
inductive Within (s : Statement) : Statement → Prop
  | self : Within s s
  | block {whole inner : Statement} {b : List Statement} (hb : b ∈ whole.action.blocks)
    (hinner : inner ∈ b) (h : Within s inner) : Within s whole

/-- That an expression occurs in a statement. -/
def Holds (e : Expr) (s : Statement) : Prop :=
  ∃ inner : Statement, inner.Within s ∧ ∃ whole ∈ inner.action.expressions, e.Within whole

/-- A statement with all that is in it satisfies `Q`. -/
def All (Q : Statement → Prop) (s : Statement) : Prop :=
  ∀ inner : Statement, inner.Within s → Q inner

theorem All.self {Q : Statement → Prop} {s : Statement} (h : s.All Q) : Q s := h s .self

theorem All.block {Q : Statement → Prop} {s : Statement} (h : s.All Q) {b : List Statement}
    (hb : b ∈ s.action.blocks) : ∀ t ∈ b, t.All Q :=
  fun _ ht _ hinner => h _ (.block hb ht hinner)

end Statement

end Monorepo.Script
