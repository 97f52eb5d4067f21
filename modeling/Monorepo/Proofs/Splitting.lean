import Monorepo.Proofs.SizeChecks

/-!
# Splitting texts

A text is split between the occurrences of a separator, or between its words. Joined with the
separator the pieces are the text again, and a bound on the number of cuts only leaves the rest of
the text in one piece: behind separators all of it, behind words from the next word on.
-/

namespace Monorepo.Script

/-! ## Calls -/

/-- Pieces of a text as texts. -/
def texts (pieces : List (List Char)) : List String := pieces.map String.ofList

theorem map_text_texts (pieces : List (List Char)) :
    (texts pieces).map Value.text = pieces.map fun piece => .text (String.ofList piece) := by
  rw [texts, List.map_map]
  rfl

theorem map_toList_texts (pieces : List (List Char)) :
    (texts pieces).map String.toList = pieces := by
  rw [texts, List.map_map]
  exact (List.map_congr_left fun piece _ => String.toList_ofList).trans (List.map_id pieces)

theorem split_separator (s : String) {separator : String} (hseparator : separator ≠ "") (n : Int) :
    callMethod (.text s) "split" [.text separator, .int n] [] =
      .ok (.list ((texts (Text.cut separator.toList (boundOf n) s.toList)).map .text)) := by
  have hcall : callMethod (.text s) "split" [.text separator, .int n] [] =
      if separator.isEmpty then .error .emptySeparator
      else .ok (.list ((Text.cut separator.toList (boundOf n) s.toList).map
        fun piece => .text (String.ofList piece))) := rfl
  rw [hcall, if_neg (mt String.isEmpty_iff.mp hseparator), map_text_texts]

theorem split_blanks (s : String) :
    callMethod (.text s) "split" [] [] = .ok (.list ((texts (Text.words s.toList)).map .text)) := by
  rw [map_text_texts]
  rfl

theorem split_blanks_within (s : String) (n : Nat) :
    callMethod (.text s) "split" [.none, .int n] [] =
      .ok (.list ((texts (Text.firstWords n s.toList)).map .text)) := by
  rw [map_text_texts]
  rfl

/-! ## Laws -/

/-- **Splitting is cutting.** Between separators a text is split at the first occurrences, as many
    of them as the integer allows, so the pieces joined with the separator are the text; the method
    `join` yields it if it is no longer than a text may be. Between words it is split into all of
    them, or into the first ones and what remains from the next word on. -/
theorem split_pieces (s : String) :
    (∀ separator : String, separator ≠ "" → ∀ n : Int, ∃ pieces : List String,
      callMethod (.text s) "split" [.text separator, .int n] [] =
        .ok (.list (pieces.map .text)) ∧
      Text.IsCut separator.toList (boundOf n) s.toList (pieces.map String.toList) ∧
      separator.intercalate pieces = s ∧
      (s.utf8ByteSize ≤ maxSequence →
        callMethod (.text separator) "join" [.list (pieces.map .text)] [] = .ok (.text s)) ∧
      pieces.length = 1 + if n < 0 then Text.hits separator.toList s.toList
        else min n.toNat (Text.hits separator.toList s.toList)) ∧
    (∀ n : Nat, ∃ words : List String, Text.HasWords (words.map String.toList) s.toList ∧
      callMethod (.text s) "split" [] [] = .ok (.list (words.map .text)) ∧
      if words.length ≤ n then
        callMethod (.text s) "split" [.none, .int n] [] = .ok (.list (words.map .text))
      else ∃ rest : String,
        Text.Remains n (words.map String.toList) s.toList rest.toList ∧
        callMethod (.text s) "split" [.none, .int n] [] =
          .ok (.list ((words.take n ++ [rest]).map .text))) := by
  refine ⟨fun separator hseparator n => ?_, fun n => ?_⟩
  · have hlist : separator.toList ≠ [] := mt String.toList_eq_nil_iff.mp hseparator
    have hcut := Text.isCut_cut hlist (boundOf n) s.toList
    have hcall := split_separator s hseparator n
    generalize Text.cut separator.toList (boundOf n) s.toList = pieces at hcut hcall
    have hjoin : separator.intercalate (texts pieces) = s := by
      rw [← String.toList_inj, String.toList_intercalate, map_toList_texts, hcut.intercalate]
    refine ⟨texts pieces, hcall, by rwa [map_toList_texts], hjoin, fun hs => ?_, ?_⟩
    · rw [callMethod_join separator (texts pieces) rfl, hjoin, textWithin, if_pos hs]
    · rw [texts, List.length_map, hcut.length_eq hlist, boundOf]
      split <;> rfl
  · have hwords := Text.hasWords_words s.toList
    have hfirst := Text.areFirst_firstWords n s.toList
    have hall := split_blanks s
    have hbounded := split_blanks_within s n
    generalize Text.words s.toList = words at hwords hfirst hall
    refine ⟨texts words, by rwa [map_toList_texts], hall, ?_⟩
    rw [map_toList_texts, texts, List.length_map]
    unfold Text.AreFirst at hfirst
    split at hfirst
    · rw [if_pos ‹_›, hbounded, hfirst]
      rfl
    · rw [if_neg ‹_›]
      obtain ⟨rest, hremains, hpieces⟩ := hfirst
      refine ⟨String.ofList rest, by rwa [String.toList_ofList], ?_⟩
      rw [hbounded, hpieces, texts, List.map_append, List.map_take]
      rfl

/-- Occurrences that overlap are counted once. -/
theorem split_pieces_overlap :
    "aa" ≠ "" ∧ "aaaaa".utf8ByteSize ≤ maxSequence ∧ ∃ pieces : List String,
      callMethod (.text "aaaaa") "split" [.text "aa", .int 5] [] =
        .ok (.list (pieces.map .text)) ∧
      callMethod (.text "aa") "join" [.list (pieces.map .text)] [] = .ok (.text "aaaaa") ∧
      pieces.length = 3 := by
  have hseparator : "aa" ≠ "" := by decide
  have hsize : "aaaaa".utf8ByteSize ≤ maxSequence := by decide
  obtain ⟨pieces, hcall, -, -, hjoin, hlength⟩ := (split_pieces "aaaaa").1 "aa" hseparator 5
  have hhits : Text.hits "aa".toList "aaaaa".toList = 2 := by simp [Text.hits]
  rw [hhits] at hlength
  exact ⟨hseparator, hsize, pieces, hcall, hjoin hsize, hlength⟩

end Monorepo.Script
