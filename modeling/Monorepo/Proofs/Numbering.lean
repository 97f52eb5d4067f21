import Mathlib.Data.List.Perm.Subperm
import Mathlib.Tactic.ByContra
import Monorepo.Proofs.Assembly
import Monorepo.Proofs.LiteralTokens

/-!
# Numbered targets

A declaration without a name takes a number, and the number counts the ids before it. So the numbers
of two such declarations differ, unless the later one finds the id of the earlier one taken already;
and only a declaration with a name can have taken it. A number that is no one's name is therefore
the number of one target only, which stays in the descriptor.
-/

namespace Monorepo

open Script (TargetCall)

/-- Whether a declaration is given no name, so that it takes a number. -/
def Script.TargetCall.IsAnonymous (call : TargetCall) : Prop :=
  ∀ value, NamingValue call.keywords value → value.isTrue = false

/-- The only declaration with an id stands at a place. -/
def IsAlone (ids : List String) (i : Nat) (id : String) : Prop :=
  ids[i]? = some id ∧ ∀ j, ids[j]? = some id → j = i

/-- Whether some declaration has an id by the name that it is given. -/
def IsGiven (calls : List TargetCall) (ids : List String) (id : String) : Prop :=
  ∃ (i : Nat) (call : TargetCall),
    calls[i]? = some call ∧ ids[i]? = some id ∧ ¬ call.IsAnonymous

theorem IsAlone.isLast {ids : List String} {i : Nat} {id : String} (h : IsAlone ids i id) :
    IsLast ids i id :=
  ⟨h.1, fun j hj hid => absurd (h.2 j hid) (Nat.ne_of_gt hj)⟩

theorem IsNamed.of_isAnonymous {count : Nat} {call : TargetCall} {name : String}
    (h : IsNamed count call.keywords name) (hcall : call.IsAnonymous) :
    name = "NO-NAME-" ++ toString count := by
  cases h with
  | given hvalue htrue =>
    rw [hcall _ hvalue] at htrue
    cases htrue
  | numbered _ => rfl

theorem eq_of_toString_eq {m n : Nat} (h : toString m = toString n) : m = n := by
  have hdigits : Nat.toDigits 10 m = Nat.toDigits 10 n := String.ofList_injective h
  have hread := congrArg (Decimal.readNat? 10) hdigits
  rw [Script.readNat?_toDigits, Script.readNat?_toDigits] at hread
  exact Option.some.inj hread

/-- An id that is new where it stands makes the numbers behind it greater than the one there. -/
theorem length_eraseDups_take_lt {ids : List String} {id : String} {i j : Nat} (hij : i < j)
    (hid : ids[i]? = some id) (hnew : id ∉ ids.take i) :
    (ids.take i).eraseDups.length < (ids.take j).eraseDups.length := by
  have hnodup : (id :: (ids.take i).eraseDups).Nodup :=
    List.nodup_cons.mpr ⟨fun hmem => hnew (List.mem_eraseDups.mp hmem), nodup_eraseDups _⟩
  have hsubset : id :: (ids.take i).eraseDups ⊆ (ids.take j).eraseDups := by
    refine List.cons_subset.mpr ⟨?_, fun other hother => ?_⟩
    · refine List.mem_eraseDups.mpr (List.mem_of_getElem? (i := i) ?_)
      rw [List.getElem?_take_of_lt hij, hid]
    · exact List.mem_eraseDups.mpr (List.take_subset_take_left ids (Nat.le_of_lt hij)
        (List.mem_eraseDups.mp hother))
  exact (List.subperm_of_subset hnodup hsubset).length_le

namespace AreIds

variable {buildpath : String} {calls : List TargetCall} {ids : List String} {i j : Nat}
  {call : TargetCall} {id : String}

theorem exists_call (h : AreIds buildpath calls ids) (hid : ids[i]? = some id) :
    ∃ call, calls[i]? = some call := by
  have hlt : i < calls.length := h.length ▸ (List.getElem?_eq_some_iff.mp hid).1
  exact ⟨calls[i], List.getElem?_eq_getElem hlt⟩

theorem eq_number (h : AreIds buildpath calls ids) (hcall : calls[i]? = some call)
    (hid : ids[i]? = some id) (hanonymous : call.IsAnonymous) :
    id = buildpath ++ ":" ++ ("NO-NAME-" ++ toString (ids.take i).eraseDups.length) := by
  obtain ⟨name, hname, hnamed⟩ := h.named i call hcall
  rw [← hnamed.of_isAnonymous hanonymous]
  exact Option.some.inj (hid.symm.trans hname)

/-- Two declarations without a name that have one id have the same number. -/
theorem number_eq (h : AreIds buildpath calls ids) {other : TargetCall}
    (hcall : calls[i]? = some call) (hother : calls[j]? = some other) (hi : ids[i]? = some id)
    (hj : ids[j]? = some id) (hanonymous : call.IsAnonymous) (hanonymous' : other.IsAnonymous) :
    (ids.take i).eraseDups.length = (ids.take j).eraseDups.length := by
  have hsame := (h.eq_number hcall hi hanonymous).symm.trans (h.eq_number hother hj hanonymous')
  exact eq_of_toString_eq
    ((String.append_right_inj _).mp ((String.append_right_inj _).mp hsame))

/-- If a declaration without a name has an id that stands before it then one with a name has it. -/
theorem isGiven_of_repeated (h : AreIds buildpath calls ids) {other : TargetCall}
    (hother : calls[j]? = some other) (hanonymous : other.IsAnonymous) (hj : ids[j]? = some id)
    (hij : i < j) (hi : ids[i]? = some id) : IsGiven calls ids id := by
  -- The first declaration with the id has a name, or its number would be less than the later one.
  induction i using Nat.strong_induction_on with
  | _ i ih =>
    obtain ⟨call, hcall⟩ := h.exists_call hi
    by_cases hfirst : call.IsAnonymous
    · have hnumber := h.number_eq hcall hother hi hj hfirst hanonymous
      have hbefore : id ∈ ids.take i := by
        by_contra hnew
        exact absurd hnumber (Nat.ne_of_lt (length_eraseDups_take_lt hij hi hnew))
      obtain ⟨k, hk, hid⟩ := List.mem_take_iff_getElem.mp hbefore
      have hki : k < i := (Nat.lt_min.mp hk).1
      exact ih k hki (hki.trans hij) (List.getElem?_eq_some_iff.mpr ⟨_, hid⟩)
    · exact ⟨i, call, hcall, hi, hfirst⟩

/-- A declaration without a name is the only one with its id exactly if no name gives the id. -/
theorem isAlone_iff (h : AreIds buildpath calls ids) (hcall : calls[i]? = some call)
    (hanonymous : call.IsAnonymous) (hi : ids[i]? = some id) :
    IsAlone ids i id ↔ ¬ IsGiven calls ids id := by
  constructor
  · rintro ⟨-, halone⟩ ⟨j, other, hother, hj, hnamed⟩
    obtain rfl := halone j hj
    obtain rfl := Option.some.inj (hcall.symm.trans hother)
    exact hnamed hanonymous
  · intro hgiven
    refine ⟨hi, fun j hj => ?_⟩
    obtain ⟨other, hother⟩ := h.exists_call hj
    rcases Nat.lt_trichotomy i j with hlt | heq | hgt
    · have hother' : other.IsAnonymous := by
        by_contra hnamed
        exact hgiven ⟨j, other, hother, hj, hnamed⟩
      exact absurd (h.isGiven_of_repeated hother hother' hj hlt hi) hgiven
    · exact heq.symm
    · exact absurd (h.isGiven_of_repeated hcall hanonymous hi hgt hj) hgiven

end AreIds

/-- **Numbered targets.** If a script runs to its end then its descriptor has an id for each of its
    declarations. That of a declaration without a name is the id of no other one, before or behind
    it, exactly if no declaration is given the name that the number makes; and then the target
    stays in the descriptor. -/
theorem DescriptorSource.parseText_numbered (root : String) (config : Config)
    (buildpath path text : String) {script : List Script.Statement} {state : Script.State}
    (hparse : Script.parseScript text = .ok script)
    (hrun : (Sandbox.ofConfig root config).run path script = .ok () state) :
    ∃ d ids, (ofConfig root config).parseText buildpath path text = .ok d ∧
      AreIds buildpath state.calls ids ∧
      ∀ (i : Nat) (call : TargetCall), state.calls[i]? = some call → call.IsAnonymous →
        ∃ id, ids[i]? = some id ∧
          (IsAlone ids i id ↔ ¬ IsGiven state.calls ids id) ∧
          (IsAlone ids i id → d.targets.get? id = some (.ofCall buildpath id call)) := by
  obtain ⟨ids, hids, hholds⟩ := Descriptor.exists_holds_assemble buildpath hparse hrun
  refine ⟨_, ids, parseText_of_run buildpath hparse hrun, hids, fun i call hcall hanonymous => ?_⟩
  obtain ⟨name, hid, -⟩ := hids.named i call hcall
  refine ⟨_, hid, hids.isAlone_iff hcall hanonymous hid, fun halone => ?_⟩
  exact hholds.last i call _ hcall halone.isLast

theorem Script.TargetCall.isAnonymous_of_keywords {call : TargetCall} (h : call.keywords = []) :
    call.IsAnonymous := by
  intro value hvalue
  rw [h] at hvalue
  cases hvalue with
  | name h => cases h
  | basename _ h => cases h

/-- Two targets without a name, with a target between them that is declared twice. -/
def numberedApart : List Char :=
  "target()\npage(name='a')\npage(name='a')\nresources()\n".toList

theorem DescriptorSource.parseText_numbered_apart :
    ∃ script state, Script.parseScript (.ofList numberedApart) = .ok script ∧
      (Sandbox.ofConfig "/repo" {}).run "/repo/x/BUILD" script = .ok () state ∧
      ∃ d ids, (ofConfig "/repo" {}).parseText "x" "/repo/x/BUILD" (.ofList numberedApart) = .ok d ∧
        AreIds "x" state.calls ids ∧
        ∃ call id, state.calls[3]? = some call ∧ call.IsAnonymous ∧ ids[3]? = some id ∧
          (IsAlone ids 3 id ↔ ¬ IsGiven state.calls ids id) := by
  have hruns : (Sandbox.ofConfig "/repo" {}).endsIn "/repo/x/BUILD" (.ofList numberedApart)
      (fun state => state.calls[3]?.any (·.keywords.isEmpty)) = true := by
    unfold Sandbox.endsIn
    rw [Script.parseScript_ofList]
    decide +kernel
  obtain ⟨script, state, hparse, hrun, hlast⟩ := Sandbox.exists_run hruns
  obtain ⟨call, hcall, hkeywords⟩ := (Option.any_eq_true _ _).mp hlast
  have hanonymous := TargetCall.isAnonymous_of_keywords (List.isEmpty_iff.mp hkeywords)
  obtain ⟨d, ids, hd, hids, hnumbered⟩ :=
    parseText_numbered "/repo" {} "x" "/repo/x/BUILD" (.ofList numberedApart) hparse hrun
  obtain ⟨id, hid, halone, -⟩ := hnumbered 3 call hcall hanonymous
  exact ⟨script, state, hparse, hrun, d, ids, hd, hids, call, id, hcall, hanonymous, hid, halone⟩

/-- A target that is given the name which the number of the next one makes. -/
def takenNumber : List Char := "target(name='NO-NAME-1')\npage()\n".toList

/-- A name can be that of a number: then the target with the number takes the place of the target
    with the name. -/
theorem DescriptorSource.parseText_numbered_taken :
    ∃ script state d ids, Script.parseScript (.ofList takenNumber) = .ok script ∧
      (Sandbox.ofConfig "/repo" {}).run "/repo/x/BUILD" script = .ok () state ∧
      (ofConfig "/repo" {}).parseText "x" "/repo/x/BUILD" (.ofList takenNumber) = .ok d ∧
      AreIds "x" state.calls ids ∧
      (∃ call, state.calls[1]? = some call ∧ call.IsAnonymous) ∧
      ids = ["x:NO-NAME-1", "x:NO-NAME-1"] ∧ d.declared.map Target.kind = ["page"] := by
  have hruns : (Sandbox.ofConfig "/repo" {}).endsIn "/repo/x/BUILD" (.ofList takenNumber)
      (fun state => state.calls.length == 2 && state.calls[1]?.any (·.keywords.isEmpty) &&
        ((Descriptor.assemble "x" state.calls state.warnings).declared.map fun target =>
          (target.id, target.kind)) == [("x:NO-NAME-1", "page")]) = true := by
    unfold Sandbox.endsIn
    rw [Script.parseScript_ofList]
    decide +kernel
  obtain ⟨script, state, hparse, hrun, hends⟩ := Sandbox.exists_run hruns
  obtain ⟨hcalls, hdeclared⟩ := (Bool.and_eq_true _ _).mp hends
  obtain ⟨hlength, hlast⟩ := (Bool.and_eq_true _ _).mp hcalls
  obtain ⟨call, hcall, hkeywords⟩ := (Option.any_eq_true _ _).mp hlast
  have hanonymous := TargetCall.isAnonymous_of_keywords (List.isEmpty_iff.mp hkeywords)
  obtain ⟨ids, hids, hholds⟩ := Descriptor.exists_holds_assemble "x" hparse hrun
  have htarget := eq_of_beq hdeclared
  refine ⟨script, state, _, ids, hparse, hrun, DescriptorSource.parseText_of_run "x" hparse hrun,
    hids, ⟨call, hcall, hanonymous⟩, ?_, ?_⟩
  · have hfirst : ids.eraseDups = ["x:NO-NAME-1"] := by
      rw [← hholds.declaredIds]
      have hid := congrArg (List.map Prod.fst) htarget
      rwa [List.map_map] at hid
    refine List.eq_replicate_iff.mpr ⟨hids.length.trans (eq_of_beq hlength), fun id hid => ?_⟩
    have hmem := List.mem_eraseDups.mpr hid
    rwa [hfirst, List.mem_singleton] at hmem
  · have hkind := congrArg (List.map Prod.snd) htarget
    rwa [List.map_map] at hkind

end Monorepo
