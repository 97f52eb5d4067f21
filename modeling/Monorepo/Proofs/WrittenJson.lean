import Monorepo.Json
import Monorepo.Json.Reading
import Monorepo.Proofs.LiteralTokens

/-!
# Structured text read back

What is written of a text, an integer or a list of texts is read back from the front of any text
that does not go on with it. A text comes back character by character, each from its escape, and an
integer because no digits are written in front of the first one that counts.
-/

namespace Monorepo.Json

/-! ## Space -/

theorem dropSpace_cons {c : Char} (h : isSpace c = true) (cs : List Char) :
    dropSpace (c :: cs) = dropSpace cs :=
  List.dropWhile_cons_of_pos h

theorem dropSpace_of_not_space {c : Char} (h : isSpace c = false) (cs : List Char) :
    dropSpace (c :: cs) = c :: cs :=
  List.dropWhile_cons_of_neg (Bool.eq_false_iff.mp h)

theorem dropSpace_newLine (depth : Nat) (cs : List Char) :
    dropSpace (newLine depth ++ cs) = dropSpace cs := by
  have hspace : ∀ c ∈ newLine depth, isSpace c = true := by
    refine List.forall_mem_cons.mpr ⟨rfl, fun c hc => ?_⟩
    rw [List.eq_of_mem_replicate hc]
    rfl
  exact List.dropWhile_append_of_pos hspace

theorem expect_of_dropSpace {c : Char} {cs ds : List Char} (h : dropSpace cs = c :: ds) :
    expect c cs = some ds := by
  unfold expect
  rw [h]
  exact if_pos rfl

theorem expect_of_ne {c d : Char} {cs ds : List Char} (h : dropSpace cs = d :: ds) (hne : d ≠ c) :
    expect c cs = none := by
  unfold expect
  rw [h]
  exact if_neg hne

/-! ## Texts -/

theorem codeUnit?_digitChar :
    ∀ n < 32, codeUnit? '0' '0' (Nat.digitChar (n / 16)) (Nat.digitChar (n % 16)) = some n := by
  decide

/-- The number of a control character is no half of a pair. -/
theorem TextSoFar.addUnit_of_lt (t : TextSoFar) {c : Char} (h : c.toNat < 32) :
    t.addUnit c.toNat = t.addChar c := by
  have hlow : isLowHalf c.toNat = false := by
    simp only [isLowHalf, Bool.and_eq_false_iff, decide_eq_false_iff_not]
    omega
  have hhigh : isHighHalf c.toNat = false := by
    simp only [isHighHalf, Bool.and_eq_false_iff, decide_eq_false_iff_not]
    omega
  unfold addUnit
  rw [hlow, hhigh, Char.ofNat_toNat]
  rfl

/-- A letter behind a backslash, if it is no `u`. -/
theorem readTextFrom_letter {letter c : Char} (h : escaped? letter = some c) (hu : letter ≠ 'u')
    (t : TextSoFar) (rest : List Char) :
    readTextFrom t ('\\' :: letter :: rest) = readTextFrom (t.addChar c) rest := by
  rw [readTextFrom, h]
  rintro a b c' d cs rfl
  exact absurd rfl hu

theorem readTextFrom_escape (t : TextSoFar) (c : Char) (rest : List Char) :
    readTextFrom t (escape c ++ rest) = readTextFrom (t.addChar c) rest := by
  have hletter (letter : Char) (h : escaped? letter = some c) (hu : letter ≠ 'u') :
      readTextFrom t (['\\', letter] ++ rest) = readTextFrom (t.addChar c) rest :=
    readTextFrom_letter h hu t rest
  unfold escape
  split_ifs with hquote hslash hbreak hreturn htab hback hform hcontrol
  · exact hletter '"' (by rw [hquote]; rfl) (by decide)
  · exact hletter '\\' (by rw [hslash]; rfl) (by decide)
  · exact hletter 'n' (by rw [hbreak]; rfl) (by decide)
  · exact hletter 'r' (by rw [hreturn]; rfl) (by decide)
  · exact hletter 't' (by rw [htab]; rfl) (by decide)
  · have hc : Char.ofNat 8 = c := hback ▸ Char.ofNat_toNat c
    exact hletter 'b' (hc ▸ rfl) (by decide)
  · have hc : Char.ofNat 12 = c := hform ▸ Char.ofNat_toNat c
    exact hletter 'f' (hc ▸ rfl) (by decide)
  · change readTextFrom t ('\\' :: 'u' :: '0' :: '0' :: Nat.digitChar (c.toNat / 16) ::
      Nat.digitChar (c.toNat % 16) :: rest) = _
    rw [readTextFrom, codeUnit?_digitChar c.toNat hcontrol]
    dsimp only
    rw [t.addUnit_of_lt hcontrol]
  · change readTextFrom t (c :: rest) = _
    rw [readTextFrom, if_neg hcontrol]
    · exact hquote
    · rintro _ _ _ _ _ rfl
      exact absurd rfl hslash
    · rintro _ _ rfl
      exact absurd rfl hslash

theorem foldl_addChar (done cs : List Char) :
    cs.foldl TextSoFar.addChar ⟨done, true, none⟩ = ⟨cs.reverse ++ done, true, none⟩ := by
  induction cs generalizing done with
  | nil => rfl
  | cons c cs ih =>
    rw [List.foldl_cons, List.reverse_cons, List.append_assoc]
    exact ih (c :: done)

theorem readTextFrom_escapes (t : TextSoFar) (cs rest : List Char) :
    readTextFrom t (cs.flatMap escape ++ '"' :: rest) =
      some (cs.foldl TextSoFar.addChar t, rest) := by
  induction cs generalizing t with
  | nil => rw [List.flatMap_nil, List.nil_append, readTextFrom, List.foldl_nil]
  | cons c cs ih =>
    rw [List.flatMap_cons, List.append_assoc, readTextFrom_escape, ih, List.foldl_cons]

/-- A text is read back from its quotes, whatever its characters are. -/
theorem readText_of_dropSpace {content : String} {cs rest : List Char}
    (h : dropSpace cs = quote content ++ rest) : readText cs = some (content, rest) := by
  have hrest : expect '"' cs = some (content.toList.flatMap escape ++ '"' :: rest) := by
    refine expect_of_dropSpace (h.trans ?_)
    simp [quote]
  have hread := readTextFrom_escapes .empty content.toList rest
  rw [TextSoFar.empty, foldl_addChar, List.append_nil] at hread
  unfold readText
  rw [hrest]
  change (readTextFrom ⟨[], true, none⟩ _).bind _ = _
  rw [hread]
  simp [TextSoFar.content?]

theorem dropSpace_quote (content : String) (rest : List Char) :
    dropSpace (quote content ++ rest) = quote content ++ rest :=
  dropSpace_of_not_space rfl _

/-! ## Integers -/

/-- The first digit is a zero only for zero. -/
theorem head?_toDigits {n : Nat} (h : 0 < n) : (Nat.toDigits 10 n).head? ≠ some '0' := by
  induction n using Nat.strong_induction_on with
  | _ n ih =>
    by_cases hlt : n < 10
    · rw [Nat.toDigits_of_lt_base hlt]
      have hdigit : ∀ n < 10, 0 < n → Nat.digitChar n ≠ '0' := by decide
      exact fun heq => hdigit n hlt h (Option.some.inj heq)
    · rw [Nat.toDigits_of_base_le (by decide) (Nat.not_lt.mp hlt),
        List.head?_append_of_ne_nil _ Nat.toDigits_ne_nil]
      exact ih (n / 10) (by omega) (by omega)

/-- What may stand behind an integer: no digit, and no fraction or exponent. -/
structure EndsInt (rest : List Char) : Prop where
  digit : ∀ c ∈ rest.head?, c.isDigit = false
  fraction : hasFraction rest = false

theorem readWhole_toDigits (n : Nat) {rest : List Char} (h : EndsInt rest) :
    readWhole (Nat.toDigits 10 n ++ rest) = some (Nat.toDigits 10 n, rest) := by
  have hdigits := Script.isDigits_toDigits n
  have hstop : rest.takeWhile Char.isDigit = [] ∧ rest.dropWhile Char.isDigit = rest := by
    cases rest with
    | nil => exact ⟨rfl, rfl⟩
    | cons c rest =>
      have hc : ¬ c.isDigit = true := Bool.eq_false_iff.mp (h.digit c rfl)
      exact ⟨List.takeWhile_cons_of_neg hc, List.dropWhile_cons_of_neg hc⟩
  have hspan : Decimal.spanDigits (Nat.toDigits 10 n ++ rest) = (Nat.toDigits 10 n, rest) := by
    unfold Decimal.spanDigits
    rw [List.takeWhile_append_of_pos hdigits, List.dropWhile_append_of_pos hdigits, hstop.1,
      hstop.2, List.append_nil]
  have hzero : ¬ ((Nat.toDigits 10 n).isEmpty || ((Nat.toDigits 10 n).head? == some '0' &&
      decide ((Nat.toDigits 10 n).length > 1))) = true := by
    rcases Nat.eq_zero_or_pos n with rfl | hpos
    · decide
    · have hhead : ((Nat.toDigits 10 n).head? == some '0') = false :=
        beq_eq_false_iff_ne.mpr (head?_toDigits hpos)
      rw [hhead, Bool.false_and, Bool.or_false, List.isEmpty_iff]
      exact Nat.toDigits_ne_nil
  unfold readWhole
  rw [hspan]
  exact if_neg hzero

theorem write_ofNat (depth n : Nat) : write depth (.int (.ofNat n)) = Nat.toDigits 10 n :=
  String.toList_ofList

theorem write_negSucc (depth n : Nat) :
    write depth (.int (.negSucc n)) = '-' :: Nat.toDigits 10 (n + 1) := by
  have hspelled : toString (Int.negSucc n) = "-" ++ String.ofList (Nat.toDigits 10 (n + 1)) := rfl
  simp [write, hspelled]

/-- An integer is read back, also behind space. -/
theorem readInt_of_dropSpace {n : Int} {depth : Nat} {cs rest : List Char}
    (h : dropSpace cs = write depth (.int n) ++ rest) (hrest : EndsInt rest) :
    readInt cs = some (n, rest) := by
  have hfraction := hrest.fraction
  cases n with
  | ofNat n =>
    have hsign : ((Nat.toDigits 10 n ++ rest).head? == some '-') = false := by
      rw [List.head?_append_of_ne_nil _ Nat.toDigits_ne_nil]
      refine beq_eq_false_iff_ne.mpr fun heq => ?_
      exact (Script.isDigits_toDigits n).not_mem (c := '-') rfl (List.mem_of_mem_head? heq)
    rw [write_ofNat] at h
    unfold readInt
    simp [h, -List.head?_append, hsign, readWhole_toDigits n hrest, Script.readNat?_toDigits,
      hfraction]
  | negSucc n =>
    rw [write_negSucc] at h
    unfold readInt
    simp [h, readWhole_toDigits (n + 1) hrest, Script.readNat?_toDigits, hfraction,
      Int.negSucc_eq]

/-! ## Any values -/

/-- No space is written in front of a value. -/
theorem dropSpace_write (value : Json) (depth : Nat) (rest : List Char) :
    dropSpace (value.write depth ++ rest) = value.write depth ++ rest := by
  cases value with
  | int n =>
    cases n with
    | ofNat n =>
      obtain ⟨c, cs, hdigits⟩ := List.exists_cons_of_ne_nil (Nat.toDigits_ne_nil (b := 10) (n := n))
      have hc : c.isDigit = true := Script.isDigits_toDigits n c (hdigits ▸ List.mem_cons_self)
      rw [write_ofNat, hdigits]
      exact dropSpace_of_not_space
        (Script.forall_isDigit (P := fun c => isSpace c = false) (by decide) hc) _
    | negSucc n =>
      rw [write_negSucc]
      exact dropSpace_of_not_space rfl _
  | text content =>
    rw [write]
    exact dropSpace_quote content rest
  | list items =>
    cases items with
    | nil => exact dropSpace_of_not_space rfl _
    | cons item items => exact dropSpace_of_not_space rfl _
  | object fields =>
    cases fields with
    | nil => exact dropSpace_of_not_space rfl _
    | cons field fields => exact dropSpace_of_not_space rfl _

/-! ## Lists of texts -/

theorem length_le_writeItems (depth : Nat) (items : List Json) :
    items.length ≤ (writeItems depth items).length := by
  induction items with
  | nil => exact Nat.zero_le _
  | cons item items ih =>
    rw [writeItems, List.length_cons, List.length_cons, List.length_append, List.length_append]
    omega

/-- The items behind one, each on a line of its own, are read back. -/
theorem readTextsFrom_writeItems (depth : Nat) {behind rest : List Char}
    (hbehind : dropSpace behind = ']' :: rest) (items done : List String) {fuel : Nat}
    (hfuel : items.length < fuel) :
    readTextsFrom fuel done (writeItems depth (items.map .text) ++ behind) =
      some (done.reverse ++ items, rest) := by
  induction items generalizing fuel done with
  | nil =>
    obtain ⟨fuel, rfl⟩ := Nat.exists_eq_add_one.mpr hfuel
    rw [List.map_nil, writeItems, List.nil_append, readTextsFrom, hbehind, List.append_nil]
    rfl
  | cons item items ih =>
    obtain ⟨fuel, rfl⟩ := Nat.exists_eq_add_one.mpr (Nat.zero_lt_of_lt hfuel)
    have hitem : readText (newLine depth ++ (quote item ++
        (writeItems depth (items.map .text) ++ behind))) =
        some (item, writeItems depth (items.map .text) ++ behind) :=
      readText_of_dropSpace ((dropSpace_newLine _ _).trans (dropSpace_quote _ _))
    rw [List.map_cons, writeItems, readTextsFrom, List.cons_append,
      dropSpace_of_not_space (by decide), List.append_assoc, List.append_assoc, write]
    change (readText (newLine depth ++ (quote item ++
      (writeItems depth (items.map .text) ++ behind)))).bind _ = _
    rw [hitem]
    refine (ih (item :: done) (Nat.lt_of_succ_lt_succ hfuel)).trans ?_
    rw [List.reverse_cons, List.append_assoc]
    rfl

/-- A list of texts is read back, also behind space. -/
theorem readTexts_of_dropSpace {contents : List String} {depth : Nat} {cs rest : List Char}
    (h : dropSpace cs = (texts contents).write depth ++ rest) :
    readTexts cs = some (contents, rest) := by
  unfold readTexts
  cases contents with
  | nil =>
    rw [expect_of_dropSpace h]
    rfl
  | cons item items =>
    let behind : List Char := newLine depth ++ ']' :: rest
    have hbehind : dropSpace behind = ']' :: rest :=
      (dropSpace_newLine _ _).trans (dropSpace_of_not_space rfl _)
    have hwritten : (texts (item :: items)).write depth ++ rest = '[' :: (newLine (depth + 1) ++
        (quote item ++ (writeItems (depth + 1) (items.map .text) ++ behind))) := by
      simp [texts, write, behind]
    have hitem : dropSpace (newLine (depth + 1) ++ (quote item ++
        (writeItems (depth + 1) (items.map .text) ++ behind))) = quote item ++
          (writeItems (depth + 1) (items.map .text) ++ behind) :=
      (dropSpace_newLine _ _).trans (dropSpace_quote _ _)
    have hmore : items.length <
        (writeItems (depth + 1) (items.map .text) ++ behind).length + 1 := by
      have hlength := length_le_writeItems (depth + 1) (items.map .text)
      rw [List.length_map] at hlength
      rw [List.length_append]
      omega
    rw [expect_of_dropSpace (h.trans hwritten)]
    rw [Option.bind_eq_bind, Option.bind_some, expect_of_ne (c := ']') hitem (by decide)]
    change (readText _).bind _ = _
    rw [readText_of_dropSpace hitem]
    exact readTextsFrom_writeItems (depth + 1) hbehind items [item] hmore

end Monorepo.Json
