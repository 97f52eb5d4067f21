import Mathlib.Data.String.Basic
import Mathlib.Algebra.BigOperators.Group.List.Basic
import Mathlib.Algebra.GroupWithZero.Nat
import Monorepo.Proofs.Pieces
import Monorepo.Proofs.Repetition
import Monorepo.Script.Methods

/-!
# Sizes known beforehand

Before a text or a list is repeated, texts are joined or parts of a text replaced, the length of the
result is computed from the lengths of the parts and from how often each of them is used. These
computations are exact: what is refused would be too long, and all else is built as it should be.
-/

namespace Monorepo

namespace Text

/-! ## Sizes of pieces -/

/-- A text of `n` pieces has one separator less. -/
theorem utf8Len_intercalate (separator : List Char) (pieces : List (List Char)) :
    String.utf8Len (separator.intercalate pieces) =
      (pieces.map String.utf8Len).sum + String.utf8Len separator * (pieces.length - 1) := by
  induction pieces with
  | nil => simp
  | cons piece pieces ih =>
    cases pieces with
    | nil => simp
    | cons next pieces =>
      rw [List.intercalate_cons_cons, String.utf8Len_append, String.utf8Len_append, ih]
      simp only [List.map_cons, List.sum_cons, List.length_cons, Nat.add_sub_cancel]
      rw [Nat.mul_succ]
      omega

/-! ## Replacing -/

namespace IsCut

variable {pattern : List Char} {limit : Option Nat} {cs : List Char} {pieces : List (List Char)}

theorem stop_or_next (h : IsCut pattern limit cs pieces) :
    (limit = some 0 ∨ ¬ pattern <:+: cs) ∧ pieces = [cs] ∨
    limit ≠ some 0 ∧ ∃ front back rest, BeginsBehind pattern front (pattern ++ back) ∧
      IsCut pattern (limit.map (· - 1)) back rest ∧ cs = front ++ (pattern ++ back) ∧
      pieces = front :: rest := by
  cases h with
  | spent => exact Or.inl ⟨Or.inl rfl, rfl⟩
  | absent h => exact Or.inl ⟨Or.inr h, rfl⟩
  | next hlimit hfirst h => exact Or.inr ⟨hlimit, _, _, _, hfirst, h, rfl, rfl⟩

/-- There is only one way to cut. -/
theorem unique (h : IsCut pattern limit cs pieces) {pieces' : List (List Char)}
    (h' : IsCut pattern limit cs pieces') : pieces' = pieces := by
  induction h generalizing pieces' with
  | spent cs =>
    rcases h'.stop_or_next with ⟨-, rfl⟩ | ⟨hlimit, -⟩
    · rfl
    · exact absurd rfl hlimit
  | absent hnone =>
    rcases h'.stop_or_next with ⟨-, rfl⟩ | ⟨-, front, back, rest, -, -, rfl, -⟩
    · rfl
    · exact absurd ⟨front, back, by rw [List.append_assoc]⟩ hnone
  | @next limit front back pieces hlimit hfirst h ih =>
    rcases h'.stop_or_next with ⟨hstop, -⟩ | ⟨-, front', back', rest, hfirst', hrest, heq, rfl⟩
    · rcases hstop with hspent | hnone
      · exact absurd hspent hlimit
      · exact absurd ⟨front, back, by rw [List.append_assoc]⟩ hnone
    · have hlength : front.length = front'.length :=
        Nat.le_antisymm (hfirst _ _ heq.symm) (hfirst' _ _ heq)
      obtain ⟨rfl, hback⟩ := List.append_inj heq hlength
      obtain rfl := List.append_cancel_left hback
      rw [ih hrest]

end IsCut

/-- A text in front of the first characters of another one, and behind the last one if there is a
    turn left for it: `count` times in all. -/
def interleaved (new : List Char) (count : Nat) (cs : List Char) : List Char :=
  (cs.take count).flatMap (fun c => new ++ [c]) ++ if cs.length < count then new else cs.drop count

/-- What a text becomes when occurrences of `old` are replaced, at most `limit` of them: the pieces
    between the first occurrences with `new` between them. The empty text occurs in front of every
    character and at the end. -/
def IsReplaced (old new : List Char) (limit : Option Nat) (cs out : List Char) : Prop :=
  if old = [] then out = interleaved new (limited limit (cs.length + 1)) cs
  else ∃ pieces, IsCut old limit cs pieces ∧ out = new.intercalate pieces

theorem interleaved_succ (new : List Char) (count : Nat) (c : Char) (cs : List Char) :
    interleaved new (count + 1) (c :: cs) = new ++ c :: interleaved new count cs := by
  simp [interleaved]

theorem interleaveFrom_eq (new : List Char) (limit : Option Nat) (done cs : List Char) :
    interleaveFrom new limit done cs =
      done.reverse ++ interleaved new (limited limit (cs.length + 1)) cs := by
  induction cs generalizing limit done with
  | nil =>
    by_cases hlimit : limit = some 0
    · subst hlimit
      rfl
    · rw [List.length_nil, limited_succ hlimit, limited_zero, interleaveFrom]
      · simp [interleaved]
      · exact hlimit
  | cons c cs ih =>
    by_cases hlimit : limit = some 0
    · subst hlimit
      rfl
    · rw [List.length_cons, limited_succ hlimit, interleaved_succ, interleaveFrom, ih]
      · simp
      · exact hlimit

theorem utf8Len_interleaved (new : List Char) {count : Nat} {cs : List Char}
    (hcount : count ≤ cs.length + 1) :
    String.utf8Len (interleaved new count cs) =
      String.utf8Len cs + count * String.utf8Len new := by
  induction cs generalizing count with
  | nil =>
    obtain rfl | rfl : count = 0 ∨ count = 1 := by
      rw [List.length_nil] at hcount
      omega
    · simp [interleaved]
    · simp [interleaved]
  | cons c cs ih =>
    cases count with
    | zero => simp [interleaved]
    | succ count =>
      rw [interleaved_succ, String.utf8Len_append, String.utf8Len_cons, String.utf8Len_cons,
        ih (Nat.le_of_succ_le_succ hcount), Nat.succ_mul]
      omega

/-- Replacing yields one text only. -/
theorem isReplaced_iff {old new : List Char} {limit : Option Nat} {cs out : List Char} :
    IsReplaced old new limit cs out ↔ out = replace old new limit cs := by
  unfold IsReplaced replace
  cases old with
  | nil => rw [if_pos rfl, List.isEmpty_nil, if_pos rfl, interleaveFrom_eq]; rfl
  | cons c old =>
    have hcut := isCut_cut (List.cons_ne_nil c old) limit cs
    rw [if_neg (List.cons_ne_nil c old), List.isEmpty_cons, if_neg Bool.false_ne_true, join_eq]
    exact ⟨fun ⟨pieces, hpieces, hout⟩ => by rw [hout, hcut.unique hpieces],
      fun hout => ⟨_, hcut, hout⟩⟩

/-- How many occurrences are replaced. -/
def replacements (old : List Char) (limit : Option Nat) (cs : List Char) : Nat :=
  limited limit (if old = [] then cs.length + 1 else hits old cs)

/-- Each replacement takes the size of the old text away and adds that of the new one. -/
theorem utf8Len_replace (old new : List Char) (limit : Option Nat) (cs : List Char) :
    String.utf8Len (replace old new limit cs) + replacements old limit cs * String.utf8Len old =
      String.utf8Len cs + replacements old limit cs * String.utf8Len new := by
  have hreplaced : IsReplaced old new limit cs (replace old new limit cs) := isReplaced_iff.mpr rfl
  unfold IsReplaced at hreplaced
  unfold replacements
  by_cases hold : old = []
  · rw [if_pos hold] at hreplaced ⊢
    have hcount : limited limit (cs.length + 1) ≤ cs.length + 1 := by
      unfold limited
      split <;> omega
    rw [hreplaced, utf8Len_interleaved new hcount, hold]
    simp
  · rw [if_neg hold] at hreplaced ⊢
    obtain ⟨pieces, hcut, hout⟩ := hreplaced
    have hcount := hcut.length_eq hold
    have hcs := congrArg String.utf8Len hcut.intercalate
    rw [utf8Len_intercalate, hcount, Nat.add_sub_cancel_left] at hcs
    rw [hout, utf8Len_intercalate, hcount, Nat.add_sub_cancel_left, ← hcs,
      Nat.mul_comm (String.utf8Len new), Nat.mul_comm (String.utf8Len old)]
    omega

end Text

namespace Script

/-- A text, unless it is longer than a text may be. -/
def textWithin (fault : EvalFault) (t : String) : Except EvalFault Value :=
  if t.utf8ByteSize ≤ maxSequence then .ok (.text t) else .error fault

/-- A list, unless it is longer than a list may be. -/
def listWithin (fault : EvalFault) (items : List Value) : Except EvalFault Value :=
  if items.length ≤ maxSequence then .ok (.list items) else .error fault

/-! ## Repetition -/

theorem repeatItems_eq {α : Type} (items : List α) (count : Nat) :
    repeatItems items count = (List.replicate count items).flatten := by
  unfold repeatItems
  split
  · rename_i hempty
    rw [List.isEmpty_iff.mp hempty, List.flatten_replicate_nil]
  · rfl

theorem ofList_repeatItems (s : String) (count : Nat) :
    String.ofList (repeatItems s.toList count) = String.join (List.replicate count s) := by
  rw [← String.toList_inj, String.toList_ofList, String.toList_join, repeatItems_eq,
    List.flatMap_def, List.map_replicate]

theorem utf8ByteSize_join_replicate (s : String) (count : Nat) :
    (String.join (List.replicate count s)).utf8ByteSize = s.utf8ByteSize * count := by
  induction count with
  | zero => rfl
  | succ count ih =>
    rw [List.replicate_succ, String.join_cons, String.utf8ByteSize_append, ih, Nat.mul_succ,
      Nat.add_comm]

theorem repeatText_eq (s : String) (n : Int) :
    repeatText s n = textWithin .repetitionSize (String.join (List.replicate n.toNat s)) := by
  unfold repeatText textWithin
  rw [repeatCount_eq, utf8ByteSize_join_replicate]
  split
  · rw [← ofList_repeatItems]
    rfl
  · rfl

theorem repeatList_within (items : List Value) (n : Int) :
    repeatList items n = listWithin .repetitionSize (List.replicate n.toNat items).flatten := by
  have hlength : (List.replicate n.toNat items).flatten.length = items.length * n.toNat := by
    simp [Nat.mul_comm]
  unfold repeatList listWithin
  rw [repeatCount_eq, hlength]
  split
  · rw [← repeatItems_eq]
    rfl
  · rfl

/-! ## Joining -/

theorem utf8ByteSize_intercalate (separator : String) (strings : List String) :
    (separator.intercalate strings).utf8ByteSize =
      (strings.map String.utf8ByteSize).sum + separator.utf8ByteSize * (strings.length - 1) := by
  have hmap : strings.map (String.utf8Len ∘ String.toList) = strings.map String.utf8ByteSize :=
    List.map_congr_left fun s _ => String.utf8Len_toList s
  rw [← String.utf8Len_toList, String.toList_intercalate, Text.utf8Len_intercalate, List.map_map,
    hmap, List.length_map, String.utf8Len_toList]

theorem mapM_texts {f : Value → Except EvalFault String} (hf : ∀ s, f (.text s) = .ok s)
    (strings : List String) : (strings.map Value.text).mapM f = .ok strings := by
  have hid : f ∘ Value.text = fun s => pure (id s) := funext hf
  rw [List.mapM_map, hid, List.mapM_pure, List.map_id]
  rfl

/-- The strings of a value that yields nothing but strings are joined. -/
theorem joinTexts_eq (separator : String) (strings : List String) {source : Value}
    (hsource : source.items? = some (strings.map .text)) :
    joinTexts separator [source] =
      textWithin (.resultSize "join") (separator.intercalate strings) := by
  have hknown : ¬ (strings.map Value.text).any (!·.isKnown) = true := by
    simp [Value.isKnown]
  have hsize : strings.foldl (fun length piece => length + piece.utf8ByteSize) 0 =
      (strings.map String.utf8ByteSize).sum := by
    rw [List.sum_eq_foldl, List.foldl_map]
  have hjoin : String.ofList (Text.join separator.toList (strings.map String.toList)) =
      separator.intercalate strings := by
    rw [← String.toList_inj, String.toList_ofList, Text.join_eq, String.toList_intercalate]
  have hitems : iterate source = .ok (strings.map Value.text) := by
    unfold iterate
    rw [hsource]
  unfold joinTexts textWithin
  dsimp only
  rw [hitems, utf8ByteSize_intercalate, ← hsize, ← hjoin]
  dsimp only [bind, Except.bind]
  rw [if_neg hknown, mapM_texts fun _ => rfl]
  dsimp only
  by_cases hfits : strings.foldl (fun length piece => length + piece.utf8ByteSize) 0 +
      separator.utf8ByteSize * (strings.length - 1) ≤ maxSequence
  · rw [if_neg (Nat.not_lt.mpr hfits), if_pos hfits]
    rfl
  · rw [if_pos (Nat.lt_of_not_le hfits), if_neg hfits]
    rfl

theorem callMethod_join (separator : String) (strings : List String) {source : Value}
    (hsource : source.items? = some (strings.map .text)) (keywords : Keywords) :
    callMethod (.text separator) "join" [source] keywords =
      textWithin (.resultSize "join") (separator.intercalate strings) := by
  unfold callMethod
  rw [if_neg (by simp)]
  exact joinTexts_eq separator strings hsource

/-! ## Replacing -/

theorem hitsIn_eq (s old : String) :
    hitsIn s old =
      if old.toList = [] then s.toList.length + 1 else Text.hits old.toList s.toList := by
  unfold hitsIn
  by_cases hold : old = ""
  · subst hold
    rfl
  · have hlist : old.toList ≠ [] := mt String.toList_eq_nil_iff.mp hold
    rw [if_neg (mt String.isEmpty_iff.mp hold), if_neg hlist, Text.occurrences_eq hlist]

/-- A replacement is refused by the size that it is expected to lead to. -/
theorem replaceText_expects (s old new : String) (limit : Option Nat) :
    replaceText s old new limit =
      if maxSequence < s.utf8ByteSize +
          Text.limited limit (hitsIn s old) * (new.utf8ByteSize - old.utf8ByteSize) then
        .error (.resultSize "replace")
      else .ok (.text (String.ofList (Text.replace old.toList new.toList limit s.toList))) := by
  cases limit with
  | none => rfl
  | some n =>
    rw [Text.limited, Nat.min_comm]
    rfl

/-- The size that is expected is too large just if that of the result is. -/
theorem replaceText_eq {s : String} (hs : s.utf8ByteSize ≤ maxSequence) (old new : String)
    (limit : Option Nat) :
    replaceText s old new limit = textWithin (.resultSize "replace")
      (String.ofList (Text.replace old.toList new.toList limit s.toList)) := by
  have hcount : Text.limited limit (hitsIn s old) =
      Text.replacements old.toList limit s.toList := by
    rw [Text.replacements, hitsIn_eq]
  have hsize := Text.utf8Len_replace old.toList new.toList limit s.toList
  rw [String.utf8Len_toList, String.utf8Len_toList, String.utf8Len_toList,
    ← String.utf8ByteSize_ofList] at hsize
  rw [replaceText_expects, textWithin, hcount]
  generalize Text.replacements old.toList limit s.toList = count at hsize
  generalize Text.replace old.toList new.toList limit s.toList = out at hsize
  have hgrown : count * (new.utf8ByteSize - old.utf8ByteSize) =
      count * new.utf8ByteSize - count * old.utf8ByteSize := Nat.mul_sub ..
  -- where the new text is the shorter one, nothing is added and the result is no longer than `s`
  by_cases hfits : (String.ofList out).utf8ByteSize ≤ maxSequence
  · rw [if_neg (by omega), if_pos hfits]
  · rw [if_pos (by omega), if_neg hfits]

/-- The bound that an integer sets on a number: none if it is negative. -/
def boundOf (n : Int) : Option Nat := if n < 0 then none else some n.toNat

/-- The bound that is set by a last argument, if there is one. -/
inductive Bounds : List Value → Option Nat → Prop
  /-- Without an argument there is no bound. -/
  | absent : Bounds [] none
  /-- The argument is an integer. -/
  | given (n : Int) : Bounds [.int n] (boundOf n)

theorem callMethod_replace (s old new : String) {extra : List Value} {limit : Option Nat}
    (h : Bounds extra limit) :
    callMethod (.text s) "replace" (.text old :: .text new :: extra) [] =
      replaceText s old new limit := by
  cases h <;> rfl

/-- **Sizes are foreseen exactly.** A text or a list is repeated, strings are joined and parts of a
    text of a proper length are replaced just if the result is not too long; then it is the
    result. -/
theorem sizes_foreseen :
    (∀ (s : String) (n : Int) (left right : Value),
      ((left = .text s ∧ right = .int n) ∨ (left = .int n ∧ right = .text s)) →
      operate .multiply left right =
        textWithin .repetitionSize (String.join (List.replicate n.toNat s))) ∧
    (∀ (items : List Value) (n : Int) (left right : Value),
      ((left = .list items ∧ right = .int n) ∨ (left = .int n ∧ right = .list items)) →
      operate .multiply left right =
        listWithin .repetitionSize (List.replicate n.toNat items).flatten) ∧
    (∀ (separator : String) (strings : List String) (source : Value) (keywords : Keywords),
      source.items? = some (strings.map .text) →
      callMethod (.text separator) "join" [source] keywords =
        textWithin (.resultSize "join") (separator.intercalate strings)) ∧
    (∀ (s old new : String) (extra : List Value) (limit : Option Nat),
      s.utf8ByteSize ≤ maxSequence → Bounds extra limit →
      ∃ t : String,
        (∀ out, Text.IsReplaced old.toList new.toList limit s.toList out ↔ out = t.toList) ∧
        callMethod (.text s) "replace" (.text old :: .text new :: extra) [] =
          textWithin (.resultSize "replace") t) := by
  refine ⟨fun s n left right h => ?_, fun items n left right h => ?_,
    fun separator strings source keywords h => callMethod_join separator strings h keywords,
    fun s old new extra limit hs h => ?_⟩
  · rw [← repeatText_eq]
    rcases h with ⟨rfl, rfl⟩ | ⟨rfl, rfl⟩ <;> rfl
  · rw [← repeatList_within]
    rcases h with ⟨rfl, rfl⟩ | ⟨rfl, rfl⟩ <;> rfl
  · refine ⟨String.ofList (Text.replace old.toList new.toList limit s.toList), fun out => ?_, ?_⟩
    · rw [Text.isReplaced_iff, String.toList_ofList]
    · rw [callMethod_replace s old new h, replaceText_eq hs]

/-- A text that would be too long, strings of a tuple, and one of two overlapping occurrences. -/
theorem sizes_foreseen_parts :
    operate .multiply (.text "ab") (.int 50001) = .error .repetitionSize ∧
    operate .multiply (.int 2) (.list [.none]) = .ok (.list [.none, .none]) ∧
    (Value.tuple [.text "a", .text "b"]).items? = some (["a", "b"].map .text) ∧
    callMethod (.text ", ") "join" [.tuple [.text "a", .text "b"]] [] = .ok (.text "a, b") ∧
    "aaaa".utf8ByteSize ≤ maxSequence ∧ Bounds [.int 1] (some 1) ∧
    callMethod (.text "aaaa") "replace" [.text "aa", .text "b", .int 1] [] = .ok (.text "baa") := by
  obtain ⟨htext, hlist, hjoin, hreplace⟩ := sizes_foreseen
  have hlong := htext "ab" 50001 _ _ (Or.inl ⟨rfl, rfl⟩)
  have hsize : ¬ (String.join (List.replicate (50001 : Int).toNat "ab")).utf8ByteSize ≤
      maxSequence := by
    rw [utf8ByteSize_join_replicate]
    decide
  obtain ⟨t, ht, hcall⟩ := hreplace "aaaa" "aa" "b" _ _ (by decide) (.given 1)
  have hbaa : t = "baa" := String.toList_inj.mp ((ht "baa".toList).mp
    (Text.isReplaced_iff.mpr (by decide))).symm
  subst hbaa
  exact ⟨hlong.trans (if_neg hsize), hlist [.none] 2 _ _ (Or.inr ⟨rfl, rfl⟩), rfl,
    hjoin ", " ["a", "b"] _ [] rfl, by decide, .given 1, hcall⟩

end Script

end Monorepo
