import Monorepo.Proofs.Room

/-!
# How deeply scripts nest

The room bounds the steps of a trail that take room. The other steps are free: a link takes room for
its right operand and gives it back, so the chains on the way to a left end are counted one by one
and not together; a clause of a comprehension takes no room at all; and neither does a tuple without
brackets. So a trail without clauses is bounded, if not by the room, and one with clauses is not.
-/

namespace Monorepo.Script

open Monorepo.Script.Parser

/-- The statements that a stream of tokens spells, as they are read with some room. -/
def parseTokensWithin (room : Nat) : List Token → Except SyntaxError (List Statement)
  | [] => .ok []
  | here :: ahead =>
    ((wholeScript (Inner.ofRoom (ahead.length + 1) room)).run ⟨here, ahead⟩).map (·.1)

/-- The statements of a script as they are read with some room. -/
def parseWithin (room : Nat) (source : String) : Except SyntaxError (List Statement) :=
  (tokenize source).bind (parseTokensWithin room)

theorem parseScript_eq (source : String) : parseScript source = parseWithin maxNesting source := by
  have htokens : parseTokens = parseTokensWithin maxNesting := by
    funext tokens
    cases tokens <;> rfl
  rw [parseScript, htokens, parseWithin]

/-- A parser cut short gives what it gives cut short. -/
theorem Parser.Cut.run {α : Type} {Q : α → Prop} {p q : Parser α} (h : Cut Q p q) (c : Cursor) :
    (∃ position, (p.run c).map (·.1) = .error ⟨position, .nesting⟩) ∨
      (p.run c).map (·.1) = (q.run c).map (·.1) ∧ ∀ a, (p.run c).map (·.1) = .ok a → Q a := by
  rcases h c with ⟨position, hnesting⟩ | ⟨heq, hresult⟩
  · exact Or.inl ⟨position, congrArg (Except.map (·.1)) hnesting⟩
  · refine Or.inr ⟨congrArg (Except.map (·.1)) heq, fun a hok => ?_⟩
    cases hp : p c with
    | error e =>
      rw [StateT.run, hp] at hok
      cases hok
    | ok result =>
      rw [StateT.run, hp] at hok
      cases hok
      exact hresult result.1 result.2 hp

/-- Reading a script with some room is reading it with more room, cut short. -/
theorem parseWithin_cut {room room' : Nat} (hle : room ≤ room') (hroom : room ≤ maxNesting)
    (source : String) :
    (∃ position, parseWithin room source = .error ⟨position, .nesting⟩) ∨
      parseWithin room source = parseWithin room' source ∧
        ∀ script, parseWithin room source = .ok script →
          ∀ s ∈ script, s.Fits room (reach room + 2) := by
  cases htokens : tokenize source with
  | error e =>
    have herror (room : Nat) : parseWithin room source = .error e := by
      rw [parseWithin, htokens]
      rfl
    rw [herror, herror]
    exact Or.inr ⟨rfl, nofun⟩
  | ok tokens =>
    have hok (room : Nat) : parseWithin room source = parseTokensWithin room tokens := by
      rw [parseWithin, htokens]
      rfl
    rw [hok, hok]
    cases tokens with
    | nil => exact Or.inr ⟨rfl, fun script hok => by cases hok; exact nofun⟩
    | cons here ahead =>
      exact (cut_wholeScript (Inner.cut_ofRoom (ahead.length + 1) hle hroom)).run ⟨here, ahead⟩

theorem reach_add (room : Nat) : reach room + room = 3 * (room * room) := by
  induction room with
  | zero => rfl
  | succ room ih =>
    have hsquare : (room + 1) * (room + 1) = room * room + 2 * room + 1 := by
      rw [Nat.add_one_mul, Nat.mul_add_one]
      omega
    rw [reach_succ, hsquare]
    omega

theorem reach_maxNesting : reach maxNesting = 29900 := by
  have h := reach_add maxNesting
  unfold maxNesting at h ⊢
  omega

theorem Trail.nesting_eq (t : Trail) :
    t.nesting = t.count .inside + (t.count .left + t.count .clause + t.count .bare) := by
  induction t with
  | nil => rfl
  | cons s t ih =>
    unfold Trail.nesting at ih ⊢
    rw [List.countP_cons, ih]
    simp only [List.count_cons]
    cases s <;> simp <;> omega

/-- **What the bound on nesting bounds.** On every trail through a script that is read, the steps
    that take room are at most as many as there is room; only by its free steps can a trail nest
    more constructs, and only by clauses can it be longer than a fixed length. A script is read as
    it would be with more room, or refused for its nesting; so it is refused if that script had a
    trail with more steps that take room. -/
theorem parseScript_nesting (source : String) :
    (∀ script, parseScript source = .ok script → ∀ s ∈ script, ∀ t, s.HasTrail t →
      t.count .inside ≤ maxNesting ∧
      t.nesting ≤ maxNesting + (t.count .left + t.count .clause + t.count .bare) ∧
      t.length ≤ 29902 + 601 * t.count .clause) ∧
    ∀ room, maxNesting ≤ room →
      (parseScript source = parseWithin room source ∨
        ∃ position, parseScript source = .error ⟨position, .nesting⟩) ∧
      ∀ script, parseWithin room source = .ok script →
        (∃ s ∈ script, ∃ t, s.HasTrail t ∧ maxNesting < t.count .inside) →
        ∃ position, parseScript source = .error ⟨position, .nesting⟩ := by
  rw [parseScript_eq]
  -- reading with the same room twice bounds the trails, reading with more room gives the refusals
  constructor
  · intro script hok s hs t ht
    rcases parseWithin_cut (Nat.le_refl maxNesting) (Nat.le_refl maxNesting) source with
      ⟨position, herror⟩ | ⟨-, hfits⟩
    · rw [hok] at herror
      cases herror
    · have hfits := hfits script hok s hs t ht
      refine ⟨hfits.depth, ?_, ?_⟩
      · rw [Trail.nesting_eq]
        exact Nat.add_le_add_right hfits.depth _
      · have hlength := hfits.length
        rw [reach_maxNesting] at hlength
        exact hlength
  · intro room hroom
    rcases parseWithin_cut hroom (Nat.le_refl maxNesting) source with herror | ⟨heq, hfits⟩
    · exact ⟨Or.inr herror, fun _ _ _ => herror⟩
    · refine ⟨Or.inl heq, fun script hok ⟨s, hs, t, ht, hlt⟩ => ?_⟩
      have := (hfits script (heq.trans hok) s hs t ht).depth
      omega

/-! ## Scripts that nest more deeply -/

/-- A text several times in a row. -/
def repeated (n : Nat) (text : String) : List Char := (List.replicate n text.toList).flatten

/-- A comprehension over a comprehension over a comprehension, and so on. -/
def nestedClauses (n : Nat) : String :=
  .ofList (repeated n "[x for x in " ++ 'x' :: repeated n "]")

/-- A sum whose first operand is a chain of attributes. -/
def chainOfChains (n : Nat) : String := .ofList ('x' :: repeated n ".a" ++ repeated n "+x")

/-- A tuple of nested lists and nothing else. -/
def bareTuple (n : Nat) : String := .ofList (repeated n "[" ++ repeated n "]" ++ [','])

/-- The characters of a text are scanned as they stand, whatever its encoding. -/
theorem parseScript_ofList (text : List Char) :
    parseScript (.ofList text) =
      ((Scanner.start.run text).bind Scanner.close).bind parseTokens := by
  unfold parseScript tokenize
  rw [String.toList_ofList]

theorem exists_script_of_parse {P : List Statement → Prop} [DecidablePred P] {text : List Char}
    (h : (((Scanner.start.run text).bind Scanner.close).bind parseTokens).toOption.any
      (fun script => decide (P script))) :
    ∃ script, parseScript (.ofList text) = .ok script ∧ P script := by
  rw [← parseScript_ofList] at h
  cases hparse : parseScript (.ofList text) with
  | error e =>
    rw [hparse] at h
    cases h
  | ok script =>
    rw [hparse] at h
    exact ⟨script, rfl, of_decide_eq_true h⟩

theorem exists_trail_of_parse {text : List Char} {t : Trail}
    (h : (((Scanner.start.run text).bind Scanner.close).bind parseTokens).toOption.any
      (fun script => decide (∃ s ∈ script, s.HasTrail t))) :
    ∃ script, parseScript (.ofList text) = .ok script ∧ ∃ s ∈ script, s.HasTrail t :=
  exists_script_of_parse h

/-- Each kind of free steps alone takes a script beyond the bound. -/
theorem parseScript_nests_beyond :
    (∃ script, parseScript (nestedClauses 101) = .ok script ∧
      ∃ s ∈ script, s.HasTrail (.plain :: List.replicate 101 .clause)) ∧
    (∃ script, parseScript (chainOfChains 51) = .ok script ∧
      ∃ s ∈ script, s.HasTrail (.plain :: List.replicate 102 .left)) ∧
    (∃ script, parseScript (bareTuple 100) = .ok script ∧
      ∃ s ∈ script, s.HasTrail (.plain :: .bare :: List.replicate 100 .inside)) := by
  exact ⟨exists_trail_of_parse (by decide +kernel), exists_trail_of_parse (by decide +kernel),
    exists_trail_of_parse (by decide +kernel)⟩

end Monorepo.Script
