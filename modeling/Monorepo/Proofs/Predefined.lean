import Monorepo.Sandbox
import Monorepo.Proofs.Steps

/-!
# What is predefined

A variable that a script finds is bound to the predefined function of its name or to the stub of its
name. So a script gets at a kind of targets by the name of that kind only.
-/

namespace Monorepo.Sandbox

open Script (Builtin Value Scope)

/-- A variable as it is predefined. -/
def IsPredefined (row : String × Value) : Prop :=
  (∃ b : Builtin, row = (b.name, .builtin b)) ∨ row.2 = .stub row.1

variable {scope : Scope}

theorem isPredefined_set (h : ∀ row ∈ scope, IsPredefined row) {name : String} {value : Value}
    (hnew : IsPredefined (name, value)) : ∀ row ∈ scope.set name value, IsPredefined row := by
  intro row hrow
  unfold Scope.set at hrow
  split at hrow
  · obtain ⟨old, hold, rfl⟩ := List.mem_map.mp hrow
    dsimp only
    split
    · rename_i hname
      rw [beq_iff_eq.mp hname]
      exact hnew
    · exact h old hold
  · rcases List.mem_cons.mp hrow with rfl | hrow
    · exact hnew
    · exact h row hrow

theorem isPredefined_bindBuiltins (h : ∀ row ∈ scope, IsPredefined row) (builtins : List Builtin) :
    ∀ row ∈ bindBuiltins scope builtins, IsPredefined row := by
  induction builtins generalizing scope with
  | nil => exact h
  | cons b builtins ih => exact ih (isPredefined_set h (Or.inl ⟨b, rfl⟩))

theorem isPredefined_bindStubs (h : ∀ row ∈ scope, IsPredefined row) (names : List String) :
    ∀ row ∈ bindStubs scope names, IsPredefined row := by
  induction names generalizing scope with
  | nil => exact h
  | cons name names ih => exact ih (isPredefined_set h (Or.inr rfl))

theorem isPredefined_bindFree (h : ∀ row ∈ scope, IsPredefined row) (builtins : List Builtin) :
    ∀ row ∈ bindFree scope builtins, IsPredefined row := by
  induction builtins generalizing scope with
  | nil => exact h
  | cons b builtins ih =>
    refine ih ?_
    dsimp only
    split
    · exact h
    · exact List.forall_mem_cons.mpr ⟨Or.inl ⟨b, rfl⟩, h⟩

theorem isPredefined_scopeOf (kinds stubs : List String) :
    ∀ row ∈ scopeOf kinds stubs, IsPredefined row := by
  unfold scopeOf
  refine isPredefined_bindFree (isPredefined_bindBuiltins (isPredefined_bindStubs ?_ _) _) _
  exact isPredefined_bindBuiltins (List.forall_mem_nil _) _

/-! ## No name is predefined twice -/

theorem nodup_set {name : String} {value : Value} (h : (scope.map (·.1)).Nodup) :
    ((scope.set name value).map (·.1)).Nodup := by
  unfold Scope.set
  split
  · have hnames : (scope.replace name value).map (·.1) = scope.map (·.1) := by
      unfold Scope.replace
      rw [List.map_map]
      refine List.map_congr_left fun row _ => ?_
      dsimp only [Function.comp]
      split <;> rfl
    rw [hnames]
    exact h
  · rename_i hfree
    refine List.nodup_cons.mpr ⟨fun hmem => hfree ?_, h⟩
    obtain ⟨row, hrow, hname⟩ := List.mem_map.mp hmem
    exact List.any_eq_true.mpr ⟨row, hrow, beq_iff_eq.mpr hname⟩

theorem nodup_bindBuiltins (h : (scope.map (·.1)).Nodup) (builtins : List Builtin) :
    ((bindBuiltins scope builtins).map (·.1)).Nodup := by
  induction builtins generalizing scope with
  | nil => exact h
  | cons b builtins ih => exact ih (nodup_set h)

theorem nodup_bindStubs (h : (scope.map (·.1)).Nodup) (names : List String) :
    ((bindStubs scope names).map (·.1)).Nodup := by
  induction names generalizing scope with
  | nil => exact h
  | cons name names ih => exact ih (nodup_set h)

theorem nodup_bindFree (h : (scope.map (·.1)).Nodup) (builtins : List Builtin) :
    ((bindFree scope builtins).map (·.1)).Nodup := by
  induction builtins generalizing scope with
  | nil => exact h
  | cons b builtins ih =>
    refine ih ?_
    dsimp only
    split
    · exact h
    · rename_i hfree
      have hset : ((scope.set b.name (.builtin b)).map (·.1)).Nodup := nodup_set h
      unfold Scope.set at hset
      rwa [if_neg hfree] at hset

theorem nodup_scopeOf (kinds stubs : List String) : ((scopeOf kinds stubs).map (·.1)).Nodup := by
  have hnone : ((([] : Scope)).map (·.1)).Nodup := List.nodup_nil
  unfold scopeOf
  exact nodup_bindFree (nodup_bindBuiltins (nodup_bindStubs (nodup_bindBuiltins hnone _) _) _) _

theorem get?_of_mem {row : String × Value} (h : (scope.map (·.1)).Nodup) (hrow : row ∈ scope) :
    scope.get? row.1 = some row.2 := by
  induction scope with
  | nil => cases hrow
  | cons first scope ih =>
    obtain ⟨hfirst, hrest⟩ := List.nodup_cons.mp h
    rw [Scope.get?_cons]
    rcases List.mem_cons.mp hrow with rfl | hrow
    · exact if_pos rfl
    · have hne : row.1 ≠ first.1 := fun he => hfirst (List.mem_map.mpr ⟨row, hrow, he⟩)
      rw [if_neg hne]
      exact ih hrest hrow

/-! ## The variables of a configuration -/

-- the definition is unfolded by its equation, as a check by evaluation would run `scopeOf`
theorem symbols_ofConfig (root : String) (config : Config) :
    (ofConfig root config).symbols =
      scopeOf (targetKinds ++ config.extraTargetKinds) (stubNames ++ config.extraGlobals) := by
  rw [ofConfig]

/-- All that a script finds is predefined under its own name. -/
theorem isPredefined_symbols (root : String) (config : Config) :
    ∀ row ∈ (ofConfig root config).symbols, IsPredefined row := by
  rw [symbols_ofConfig]
  exact isPredefined_scopeOf _ _

theorem get?_symbols (root : String) (config : Config) {row : String × Value}
    (h : row ∈ (ofConfig root config).symbols) :
    (ofConfig root config).symbols.get? row.1 = some row.2 := by
  rw [symbols_ofConfig] at h ⊢
  exact get?_of_mem (nodup_scopeOf _ _) h

end Monorepo.Sandbox
