import Monorepo.Proofs.Boundaries
import Monorepo.Proofs.Predefined

/-!
# What variables and targets take

Values grow by concatenation, repetition, insertion and all the other ways of the language, but what
a variable or an argument of a target takes has been measured, except for texts that the script
spells out and stubs. So no container among them passes a limit at any boundary between statements.
-/

namespace Monorepo.Script

namespace Value

/-- A value that was measured, is spelt out by the script, or is a stub. -/
def Storable (texts : String → Prop) (v : Value) : Prop :=
  v.IsMeasured ∨ (∃ s, texts s ∧ v = .text s) ∨ ∃ trace, v = .stub trace

/-- How many items a list or tuple has, or entries a dictionary. -/
def count? : Value → Option Nat
  | .list items => some items.length
  | .tuple items => some items.length
  | .dict entries => some entries.length
  | _ => Option.none

/-- A value that exceeds no limit: no container in it has too many items, all sizes together are not
    too large, and it is not nested too deeply. -/
structure WithinLimits (v : Value) : Prop where
  sequence : v.All fun part => ∀ n ∈ part.count?, n ≤ maxSequence
  size : v.weight ≤ maxSize
  nesting : v.height ≤ maxDepth

theorem IsMeasured.withinLimits {v : Value} (h : v.IsMeasured) : v.WithinLimits := by
  obtain ⟨hheight, hshort, hweight⟩ := isMeasured_iff.mp h
  refine ⟨?_, hweight, hheight⟩
  clear h hheight hweight
  induction hshort with
  | intro self _ ih =>
    refine ⟨fun n hn => ?_, ih⟩
    rename_i v _
    cases v with
    | list | tuple | dict =>
      cases hn
      exact Nat.le_of_succ_le_succ self
    | _ => cases hn

theorem Storable.withinLimits {texts : String → Prop} {v : Value} (h : v.Storable texts)
    (hv : v.count?.isSome = true) : v.WithinLimits := by
  rcases h with h | ⟨s, -, rfl⟩ | ⟨trace, rfl⟩
  · exact h.withinLimits
  · cases hv
  · cases hv

end Value

/-- The values of all variables, global and local, and of all keywords of declared targets. -/
def State.values (s : State) : List Value :=
  (s.globals :: s.frames).flatten.map (·.2) ++
    s.declared.flatMap fun call => call.keywords.map (·.2)

theorem State.Obeys.values {r : Rule} {s : State} (h : s.Obeys r) (hnames : ∀ name, r.names name)
    (hcalls : ∀ call, r.calls call → ∀ k ∈ call.keywords, r.values k.2) :
    ∀ v ∈ s.values, r.values v := by
  have hscopes : ∀ scope ∈ s.globals :: s.frames, scope.Obeys r :=
    List.forall_mem_cons.mpr ⟨h.globals, h.frames⟩
  refine List.forall_mem_append.mpr ⟨List.forall_mem_map.mpr fun row hrow => ?_, fun v hv => ?_⟩
  · obtain ⟨scope, hscope, hrow⟩ := List.mem_flatten.mp hrow
    exact hscopes scope hscope row hrow (hnames row.1)
  · obtain ⟨call, hcall, hv⟩ := List.mem_flatMap.mp hv
    obtain ⟨k, hk, rfl⟩ := List.mem_map.mp hv
    exact hcalls call (h.declared call hcall) k hk

/-- The texts that a script spells out. -/
def Spells (script : List Statement) (s : String) : Prop :=
  ∃ statement ∈ script, statement.Holds (.text s)

/-! ## The policy of storage -/

namespace Policy

/-- Values have to be storable; nothing else is asked. -/
def storage (texts : String → Prop) : Policy where
  names _ := True
  texts := texts
  builtins _ := True
  dicts _ := True
  whole v := v.Storable texts

variable {texts : String → Prop}

theorem storage_lawful (texts : String → Prop) : (storage texts).Lawful where
  dict_nil := trivial
  dict_insert _ _ _ := trivial
  measured := Or.inl
  stub trace := Or.inr (Or.inr ⟨trace, rfl⟩)
  text h := Or.inr (Or.inl ⟨_, h, rfl⟩)
  items := by
    intro v items hv h item hitem
    rcases hv with hmeasured | ⟨s, -, rfl⟩ | ⟨trace, rfl⟩
    · cases v with
      | list items' | tuple items' =>
        cases h
        exact Or.inl (hmeasured.part hitem)
      | text s =>
        cases h
        obtain ⟨c, -, rfl⟩ := List.mem_map.mp hitem
        exact Or.inl (Value.isMeasured_char c)
      | dict entries =>
        cases h
        obtain ⟨e, he, rfl⟩ := List.mem_map.mp hitem
        exact Or.inl (Value.forall_mem_parts_dict.mp (fun part hp => hmeasured.part hp) e he).1
      | stub trace =>
        cases h
        obtain rfl := List.mem_singleton.mp hitem
        exact Or.inr (Or.inr ⟨_, rfl⟩)
      | _ => cases h
    · cases h
      obtain ⟨c, -, rfl⟩ := List.mem_map.mp hitem
      exact Or.inl (Value.isMeasured_char c)
    · cases h
      obtain rfl := List.mem_singleton.mp hitem
      exact Or.inr (Or.inr ⟨_, rfl⟩)
  entries := by
    intro entries hv e he
    rcases hv with hmeasured | ⟨s, -, hs⟩ | ⟨trace, htrace⟩
    · exact Or.inl (Value.forall_mem_parts_dict.mp (fun part hp => hmeasured.part hp) e he).2
    · cases hs
    · cases htrace

theorem storage_allows {script : List Statement} :
    ∀ s ∈ script, (storage (Spells script)).Allows s := by
  intro s hs inner hinner
  refine ⟨fun whole hwhole part hpart => ?_, fun _ _ _ _ => trivial⟩
  cases part with
  | text t => exact ⟨s, hs, inner, hinner, whole, hwhole, hpart⟩
  | _ => exact trivial

end Policy

end Monorepo.Script

namespace Monorepo

open Script

theorem Sandbox.obeys_storage (root : String) (config : Config) (texts : String → Prop) :
    (State.start (ofConfig root config).symbols).Obeys (Policy.storage texts).rule := by
  refine State.obeys_start fun row hrow _ => ?_
  rcases isPredefined_symbols root config row hrow with ⟨b, rfl⟩ | hstub
  · exact ⟨⟨trivial, List.forall_mem_nil _⟩, Or.inl ⟨1, rfl⟩⟩
  · rw [hstub]
    exact (Policy.storage_lawful texts).admits_stub row.1

/-- **What is stored has been measured.** At every boundary between statements of a run, inside of
    functions as well as outside, each value of a variable and each argument of a declared target
    can be measured, is a text that the script spells out, or is a stub. So the lists, tuples and
    dictionaries among them exceed no limit. -/
theorem Sandbox.run_storable (root : String) (config : Config) (path : String)
    (script : List Statement) :
    AtBoundaries
      (fun s => ∀ v ∈ s.values, v.Storable (Spells script) ∧
        (v.count?.isSome = true → v.WithinLimits))
      ((ofConfig root config).setting path) script (.start (ofConfig root config).symbols) := by
  refine atBoundaries_obeys (Policy.storage_lawful _) (fun s hs v hv => ?_) _ Policy.storage_allows
    (obeys_storage root config _)
  have hadmits := hs.values (fun _ => trivial) (fun _ hcall => hcall.2) v hv
  exact ⟨hadmits.whole, hadmits.whole.withinLimits⟩

end Monorepo
