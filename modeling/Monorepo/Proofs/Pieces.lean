import Mathlib.Data.List.Basic
import Monorepo.Text.Pieces

/-!
# Cuts and words

A separator that is not empty is looked for from the left. The text is cut at the first occurrence,
what stands behind that is cut in its turn, and with a limit the cuts end when they are used up. The
pieces with the separator between them are the text again. Words are separated by blanks, and the
first words of a text leave the rest of it from the next word on as it stands.
-/

namespace Monorepo.Text

/-! ## Joining -/

theorem joinFrom_eq (separator done : List Char) (pieces : List (List Char)) :
    joinFrom separator done pieces = done.reverse ++ separator.intercalate pieces := by
  induction pieces generalizing done with
  | nil => simp [joinFrom]
  | cons piece pieces ih =>
    cases pieces with
    | nil => simp [joinFrom]
    | cons next pieces =>
      rw [joinFrom, ih, List.intercalate_cons_cons]
      · simp
      · nofun

theorem join_eq (separator : List Char) (pieces : List (List Char)) :
    join separator pieces = separator.intercalate pieces :=
  joinFrom_eq separator [] pieces

theorem holds_iff {pattern cs : List Char} : holds pattern cs = true ↔ pattern <:+: cs := by
  induction cs with
  | nil => rw [holds, List.isEmpty_iff, List.infix_nil]
  | cons c cs ih =>
    rw [holds, Bool.or_eq_true, List.isPrefixOf_iff_prefix, ih, List.infix_cons_iff]

/-! ## Cutting -/

/-- Wherever `pattern` occurs in `front ++ rest`, it begins behind `front`. -/
def BeginsBehind (pattern front rest : List Char) : Prop :=
  ∀ before after, before ++ (pattern ++ after) = front ++ rest → front.length ≤ before.length

theorem beginsBehind_nil (pattern rest : List Char) : BeginsBehind pattern [] rest :=
  fun _ _ _ => Nat.zero_le _

/-- Where `pattern` does not begin with the rest, it begins behind one more character. -/
theorem BeginsBehind.concat {pattern front rest : List Char} {c : Char}
    (h : BeginsBehind pattern front (c :: rest)) (hc : ¬ pattern <+: c :: rest) :
    BeginsBehind pattern (front ++ [c]) rest := by
  intro before after heq
  rw [List.append_assoc, List.singleton_append] at heq
  have hle := h before after heq
  have hne : front.length ≠ before.length := by
    intro hlength
    obtain ⟨-, hrest⟩ := List.append_inj heq hlength.symm
    exact hc ⟨after, hrest⟩
  simp
  omega

/-- What does not begin in a text does not occur in it. -/
theorem BeginsBehind.absent {pattern front : List Char} (hpattern : pattern ≠ [])
    (h : BeginsBehind pattern front []) : ¬ pattern <:+: front := by
  rintro ⟨before, after, heq⟩
  have hle := h before after (by rw [List.append_nil, ← heq, List.append_assoc])
  have hpos := List.length_pos_iff.mpr hpattern
  have hlength := congrArg List.length heq
  simp at hlength
  omega

/-- The pieces of a text between the first occurrences of `pattern`, each of them the first one
    behind the one before it, and no more of them than the limit says. -/
inductive IsCut (pattern : List Char) : Option Nat → List Char → List (List Char) → Prop
  /-- The limit is used up. -/
  | spent (cs : List Char) : IsCut pattern (some 0) cs [cs]
  /-- There is no further occurrence. -/
  | absent {limit : Option Nat} {cs : List Char} (h : ¬ pattern <:+: cs) :
    IsCut pattern limit cs [cs]
  /-- A piece ends at the first occurrence. -/
  | next {limit : Option Nat} {front back : List Char} {pieces : List (List Char)}
    (hlimit : limit ≠ some 0) (hfirst : BeginsBehind pattern front (pattern ++ back))
    (h : IsCut pattern (limit.map (· - 1)) back pieces) :
    IsCut pattern limit (front ++ (pattern ++ back)) (front :: pieces)

namespace IsCut

variable {pattern : List Char} {limit : Option Nat} {cs : List Char} {pieces : List (List Char)}

theorem ne_nil (h : IsCut pattern limit cs pieces) : pieces ≠ [] := by
  cases h <;> exact List.cons_ne_nil _ _

/-- The pieces with the pattern between them are the text. -/
theorem intercalate (h : IsCut pattern limit cs pieces) : pattern.intercalate pieces = cs := by
  induction h with
  | spent cs => exact List.intercalate_singleton
  | absent => exact List.intercalate_singleton
  | next hlimit hfirst h ih =>
    rw [List.intercalate_cons_of_ne_nil h.ne_nil, ih, List.append_assoc]

end IsCut

/-! ### Counting -/

/-- How often a pattern that is not empty occurs in a text, counted from the left and without
    overlaps. -/
def hits (pattern : List Char) : List Char → Nat
  | [] => 0
  | c :: cs =>
    if pattern.isPrefixOf (c :: cs) then hits pattern (cs.drop (pattern.length - 1)) + 1
    else hits pattern cs
termination_by cs => cs.length

theorem hits_of_not_begins {pattern cs : List Char} {c : Char} (h : ¬ pattern <+: c :: cs) :
    hits pattern (c :: cs) = hits pattern cs := by
  rw [hits, if_neg (mt List.isPrefixOf_iff_prefix.mp h)]

theorem hits_append {pattern : List Char} (hpattern : pattern ≠ []) (cs : List Char) :
    hits pattern (pattern ++ cs) = hits pattern cs + 1 := by
  obtain ⟨p, ps, rfl⟩ := List.exists_cons_of_ne_nil hpattern
  have hbegins : (p :: ps).isPrefixOf (p :: (ps ++ cs)) = true :=
    List.isPrefixOf_iff_prefix.mpr ⟨cs, rfl⟩
  rw [List.cons_append, hits, if_pos hbegins, List.length_cons, Nat.add_sub_cancel, List.drop_left]

theorem hits_of_absent {pattern cs : List Char} (h : ¬ pattern <:+: cs) : hits pattern cs = 0 := by
  induction cs with
  | nil => rw [hits]
  | cons c cs ih =>
    rw [hits_of_not_begins fun hbegins => h hbegins.isInfix]
    exact ih fun hoccurs => h (hoccurs.trans (List.suffix_cons c cs).isInfix)

/-- In front of the first occurrence nothing is counted. -/
theorem hits_of_beginsBehind {pattern front rest : List Char}
    (h : BeginsBehind pattern front rest) : hits pattern (front ++ rest) = hits pattern rest := by
  induction front with
  | nil => rfl
  | cons c front ih =>
    have hfree : ¬ pattern <+: c :: (front ++ rest) := by
      rintro ⟨after, heq⟩
      exact absurd (h [] after heq) (by simp)
    rw [List.cons_append, hits_of_not_begins hfree]
    refine ih fun before after heq => ?_
    have hle := h (c :: before) after (congrArg (c :: ·) heq)
    exact Nat.le_of_succ_le_succ hle

/-- How many of `count` occurrences a limit leaves. -/
def limited (limit : Option Nat) (count : Nat) : Nat :=
  match limit with
  | some n => min n count
  | none => count

theorem limited_zero (limit : Option Nat) : limited limit 0 = 0 := by
  cases limit with
  | none => rfl
  | some n => exact Nat.min_zero n

theorem limited_succ {limit : Option Nat} (hlimit : limit ≠ some 0) (count : Nat) :
    limited limit (count + 1) = limited (limit.map (· - 1)) count + 1 := by
  cases limit with
  | none => rfl
  | some n =>
    cases n with
    | zero => exact absurd rfl hlimit
    | succ n => exact Nat.succ_min_succ n count

/-- There is one piece more than there are occurrences, as far as the limit goes. -/
theorem IsCut.length_eq {pattern : List Char} (hpattern : pattern ≠ []) {limit : Option Nat}
    {cs : List Char} {pieces : List (List Char)} (h : IsCut pattern limit cs pieces) :
    pieces.length = 1 + limited limit (hits pattern cs) := by
  induction h with
  | spent cs => simp [limited]
  | absent h => rw [hits_of_absent h, limited_zero, List.length_singleton]
  | next hlimit hfirst h ih =>
    rw [hits_of_beginsBehind hfirst, hits_append hpattern, limited_succ hlimit, List.length_cons,
      ih]
    rfl

/-! ### The walk -/

section Cut

variable {separator : List Char}

/-- Characters that still belong to an occurrence are passed over. -/
theorem cutFrom_skip (limit : Option Nat) (skip : Nat) (piece : List Char)
    (done : List (List Char)) (cs : List Char) :
    cutFrom separator limit skip piece done cs =
      cutFrom separator limit 0 piece done (cs.drop skip) := by
  induction skip generalizing cs with
  | zero => rfl
  | succ skip ih =>
    cases cs with
    | nil => simp [cutFrom]
    | cons c cs =>
      rw [cutFrom, List.drop_succ_cons]
      exact ih cs

theorem cutFrom_spent (piece : List Char) (done : List (List Char)) (cs : List Char) :
    cutFrom separator (some 0) 0 piece done cs = done.reverse ++ [piece.reverse ++ cs] := by
  induction cs generalizing piece with
  | nil => simp [cutFrom]
  | cons c cs ih => simp [cutFrom, ih]

/-- While the separator occurs only behind the piece under way, the walk cuts what is left. -/
theorem cutFrom_isCut (hseparator : separator ≠ []) (limit : Option Nat) (piece : List Char)
    (done : List (List Char)) (cs : List Char) (h : BeginsBehind separator piece.reverse cs) :
    ∃ pieces, cutFrom separator limit 0 piece done cs = done.reverse ++ pieces ∧
      IsCut separator limit (piece.reverse ++ cs) pieces := by
  by_cases hlimit : limit = some 0
  · subst hlimit
    exact ⟨_, cutFrom_spent piece done cs, .spent _⟩
  · cases cs with
    | nil =>
      refine ⟨[piece.reverse], by simp [cutFrom], ?_⟩
      rw [List.append_nil]
      exact .absent (h.absent hseparator)
    | cons c cs =>
      by_cases hbegins : separator <+: c :: cs
      · obtain ⟨back, hback⟩ := hbegins
        have hdrop : cs.drop (separator.length - 1) = back := by
          obtain ⟨p, ps, rfl⟩ := List.exists_cons_of_ne_nil hseparator
          obtain ⟨-, rfl⟩ := List.cons.inj hback
          exact List.drop_left
        have hlength : back.length < (c :: cs).length := by
          rw [← hback, List.length_append]
          exact Nat.lt_add_of_pos_left (List.length_pos_iff.mpr hseparator)
        obtain ⟨pieces, hpieces, hcut⟩ := cutFrom_isCut hseparator (limit.map (· - 1)) []
          (piece.reverse :: done) back (beginsBehind_nil _ _)
        refine ⟨piece.reverse :: pieces, ?_, ?_⟩
        · have hstep : (limit != some 0 && separator.isPrefixOf (c :: cs)) = true := by
            simpa [hlimit] using List.isPrefixOf_iff_prefix.mpr ⟨back, hback⟩
          rw [cutFrom, if_pos hstep, cutFrom_skip, hdrop, hpieces]
          simp
        · rw [← hback] at h ⊢
          exact .next hlimit h hcut
      · have hstep : ¬ (limit != some 0 && separator.isPrefixOf (c :: cs)) = true := by
          simpa [hlimit] using mt List.isPrefixOf_iff_prefix.mp hbegins
        have hconcat : BeginsBehind separator (c :: piece).reverse cs := by
          rw [List.reverse_cons]
          exact h.concat hbegins
        obtain ⟨pieces, hpieces, hcut⟩ :=
          cutFrom_isCut hseparator limit (c :: piece) done cs hconcat
        refine ⟨pieces, by rw [cutFrom, if_neg hstep, hpieces], ?_⟩
        simpa using hcut
termination_by cs.length

theorem isCut_cut (hseparator : separator ≠ []) (limit : Option Nat) (cs : List Char) :
    IsCut separator limit cs (cut separator limit cs) := by
  obtain ⟨pieces, hpieces, hcut⟩ :=
    cutFrom_isCut hseparator limit [] [] cs (beginsBehind_nil _ _)
  rw [cut, hpieces]
  exact hcut

theorem occurrences_eq (hseparator : separator ≠ []) (cs : List Char) :
    occurrences separator cs = hits separator cs := by
  rw [occurrences, (isCut_cut hseparator none cs).length_eq hseparator, Nat.add_sub_cancel_left]
  rfl

end Cut

/-! ## Words -/

/-- The words of a text: what is not blank from one blank to the next. -/
inductive HasWords : List (List Char) → List Char → Prop
  /-- Blanks alone are no word. -/
  | blank {gap : List Char} (hgap : ∀ c ∈ gap, isBlank c = true) : HasWords [] gap
  /-- A word ends at a blank or with the text. -/
  | word {gap word rest : List Char} {words : List (List Char)}
    (hgap : ∀ c ∈ gap, isBlank c = true) (hne : word ≠ [])
    (hword : ∀ c ∈ word, isBlank c = false) (hrest : ∀ c ∈ rest.head?, isBlank c = true)
    (h : HasWords words rest) : HasWords (word :: words) (gap ++ (word ++ rest))

/-- A blank in front changes no word. -/
theorem HasWords.cons {ws : List (List Char)} {cs : List Char} (h : HasWords ws cs) {c : Char}
    (hc : isBlank c = true) : HasWords ws (c :: cs) := by
  cases h with
  | blank hgap => exact .blank (List.forall_mem_cons.mpr ⟨hc, hgap⟩)
  | word hgap hne hword hrest h =>
    rw [← List.cons_append]
    exact .word (List.forall_mem_cons.mpr ⟨hc, hgap⟩) hne hword hrest h

/-- A word in front of a blank. -/
theorem HasWords.cons_word {ws : List (List Char)} {cs : List Char} (h : HasWords ws cs)
    {word : List Char} (hne : word ≠ []) (hword : ∀ c ∈ word, isBlank c = false) {c : Char}
    (hc : isBlank c = true) : HasWords (word :: ws) (word ++ c :: cs) :=
  .word (List.forall_mem_nil _) hne hword (by simpa using hc) (h.cons hc)

theorem HasWords.single {word : List Char} (hne : word ≠ [])
    (hword : ∀ c ∈ word, isBlank c = false) : HasWords [word] word := by
  have h : HasWords [word] ([] ++ (word ++ [])) :=
    .word (List.forall_mem_nil _) hne hword (by simp) (.blank (List.forall_mem_nil _))
  rwa [List.nil_append, List.append_nil] at h

theorem HasWords.ne_nil {ws : List (List Char)} {cs : List Char} (h : HasWords ws cs) {c : Char}
    (hmem : c ∈ cs) (hc : isBlank c = false) : ws ≠ [] := by
  cases h with
  | blank hgap => exact absurd (hgap c hmem) (by rw [hc]; exact Bool.false_ne_true)
  | word => exact List.cons_ne_nil _ _

theorem wordsFrom_done (word : List Char) (done : List (List Char)) (cs : List Char) :
    wordsFrom word done cs = done.reverse ++ wordsFrom word [] cs := by
  induction cs generalizing word done with
  | nil =>
    unfold wordsFrom
    split <;> simp
  | cons c cs ih =>
    unfold wordsFrom
    split
    · rw [ih, ih [] (if word.isEmpty then [] else [word.reverse])]
      split <;> simp
    · rw [ih]

/-- Behind the start of a word, the walk finds that word and those behind it. -/
theorem hasWords_wordsFrom (word : List Char) (hword : ∀ c ∈ word, isBlank c = false)
    (cs : List Char) : HasWords (wordsFrom word [] cs) (word.reverse ++ cs) := by
  induction cs generalizing word with
  | nil =>
    cases word with
    | nil => exact .blank (List.forall_mem_nil _)
    | cons c word =>
      rw [List.append_nil]
      exact .single (by simp) (fun c hc => hword c (List.mem_reverse.mp hc))
  | cons c cs ih =>
    by_cases hc : isBlank c = true
    · cases word with
      | nil =>
        rw [wordsFrom, if_pos hc]
        exact (ih [] (List.forall_mem_nil _)).cons hc
      | cons d word =>
        rw [wordsFrom, if_pos hc, wordsFrom_done]
        exact (ih [] (List.forall_mem_nil _)).cons_word (by simp)
          (fun c hc => hword c (List.mem_reverse.mp hc)) hc
    · rw [wordsFrom, if_neg hc]
      have hlonger := ih (c :: word)
        (List.forall_mem_cons.mpr ⟨Bool.eq_false_iff.mpr hc, hword⟩)
      simpa using hlonger

theorem hasWords_words (cs : List Char) : HasWords (words cs) cs :=
  hasWords_wordsFrom [] (List.forall_mem_nil _) cs

/-- What stands in a text from the word on that comes behind the first `n` ones. -/
def Remains (n : Nat) (ws : List (List Char)) (cs rest : List Char) : Prop :=
  ∃ front, cs = front ++ rest ∧ HasWords (ws.take n) front ∧ HasWords (ws.drop n) rest ∧
    ∀ c ∈ rest.head?, isBlank c = false

/-- The first words of a text: all of them if they are no more than the limit, and otherwise as many
    as the limit says and then what remains. -/
def AreFirst (limit : Nat) (ws : List (List Char)) (cs : List Char) (pieces : List (List Char)) :
    Prop :=
  if ws.length ≤ limit then pieces = ws
  else ∃ rest, Remains limit ws cs rest ∧ pieces = ws.take limit ++ [rest]

namespace AreFirst

variable {limit : Nat} {ws pieces : List (List Char)} {cs : List Char}

theorem cons (h : AreFirst limit ws cs pieces) {c : Char} (hc : isBlank c = true) :
    AreFirst limit ws (c :: cs) pieces := by
  unfold AreFirst at h ⊢
  split at h
  · rwa [if_pos ‹_›]
  · rw [if_neg ‹_›]
    obtain ⟨rest, ⟨front, hcs, hfront, hrest⟩, hpieces⟩ := h
    exact ⟨rest, ⟨c :: front, congrArg (c :: ·) hcs, hfront.cons hc, hrest⟩, hpieces⟩

theorem cons_word (h : AreFirst limit ws cs pieces) {word : List Char} (hne : word ≠ [])
    (hword : ∀ c ∈ word, isBlank c = false) {c : Char} (hc : isBlank c = true) :
    AreFirst (limit + 1) (word :: ws) (word ++ c :: cs) (word :: pieces) := by
  unfold AreFirst at h ⊢
  rw [List.length_cons]
  split at h
  · rw [if_pos (Nat.succ_le_succ ‹_›), h]
  · rw [if_neg (mt Nat.le_of_succ_le_succ ‹_›)]
    obtain ⟨rest, ⟨front, hcs, hfront, hrest⟩, hpieces⟩ := h
    refine ⟨rest, ⟨word ++ c :: front, ?_, hfront.cons_word hne hword hc, hrest⟩, ?_⟩
    · rw [hcs, List.append_assoc, List.cons_append]
    · rw [hpieces, List.take_succ_cons, List.cons_append]

end AreFirst

/-- The walk that stops after `limit` words. Inside a word there is still one to come. -/
theorem areFirst_firstWordsFrom (limit : Nat) (word : List Char) (done : List (List Char))
    (hword : ∀ c ∈ word, isBlank c = false) (hlimit : word ≠ [] → limit ≠ 0) (cs : List Char) :
    ∃ pieces, firstWordsFrom limit word done cs = done.reverse ++ pieces ∧
      AreFirst limit (wordsFrom word [] cs) (word.reverse ++ cs) pieces := by
  have hnone : ∀ c ∈ ([] : List Char), isBlank c = false := List.forall_mem_nil _
  induction cs generalizing limit word done with
  | nil =>
    refine ⟨wordsFrom word [] [], ?_, ?_⟩
    · unfold firstWordsFrom wordsFrom
      split <;> simp
    · have hlength : (wordsFrom word [] []).length ≤ limit := by
        cases word with
        | nil => exact Nat.zero_le _
        | cons c word => exact Nat.one_le_iff_ne_zero.mpr (hlimit (List.cons_ne_nil _ _))
      rw [AreFirst, if_pos hlength]
  | cons c cs ih =>
    by_cases hc : isBlank c = true
    · cases word with
      | nil =>
        obtain ⟨pieces, hpieces, hfirst⟩ := ih limit [] done hnone (absurd rfl)
        refine ⟨pieces, ?_, ?_⟩
        · rw [firstWordsFrom, if_pos hc]
          exact hpieces
        · rw [wordsFrom, if_pos hc]
          exact hfirst.cons hc
      | cons d word =>
        obtain ⟨n, rfl⟩ := Nat.exists_eq_succ_of_ne_zero (hlimit (List.cons_ne_nil d word))
        obtain ⟨pieces, hpieces, hfirst⟩ :=
          ih n [] ((d :: word).reverse :: done) hnone (absurd rfl)
        refine ⟨(d :: word).reverse :: pieces, ?_, ?_⟩
        · rw [firstWordsFrom, if_pos hc, if_neg (by simp)]
          simpa using hpieces
        · rw [wordsFrom, if_pos hc, wordsFrom_done]
          exact hfirst.cons_word (by simp) (fun c hc => hword c (List.mem_reverse.mp hc)) hc
    · have hc' := Bool.eq_false_iff.mpr hc
      have hwords := hasWords_wordsFrom (c :: word)
        (List.forall_mem_cons.mpr ⟨hc', hword⟩) cs
      rw [firstWordsFrom, if_neg hc, wordsFrom, if_neg hc]
      by_cases hzero : limit = 0
      · -- the next word begins here, and none is wanted any more
        have hempty : word = [] := by_contra fun hne => hlimit hne hzero
        subst hzero hempty
        refine ⟨[c :: cs], by simp, ?_⟩
        have hsome : wordsFrom [c] [] cs ≠ [] := hwords.ne_nil (c := c) (by simp) hc'
        refine (if_neg (by simpa using hsome)).mpr ⟨c :: cs, ⟨[], rfl, ?_, hwords, ?_⟩, rfl⟩
        · exact .blank (List.forall_mem_nil _)
        · simpa using hc'
      · rw [if_neg hzero]
        obtain ⟨pieces, hpieces, hfirst⟩ := ih limit (c :: word) done
          (List.forall_mem_cons.mpr ⟨hc', hword⟩) fun _ => hzero
        exact ⟨pieces, hpieces, by simpa using hfirst⟩

theorem areFirst_firstWords (limit : Nat) (cs : List Char) :
    AreFirst limit (words cs) cs (firstWords limit cs) := by
  obtain ⟨pieces, hpieces, hfirst⟩ := areFirst_firstWordsFrom limit [] []
    (List.forall_mem_nil _) (absurd rfl) cs
  rw [firstWords, hpieces]
  exact hfirst

end Monorepo.Text
