import Monorepo.Proofs.Margins
import Monorepo.Proofs.Relocation

/-!
# Blank lines

A line without a token is passed over in one of two ways: where a margin is measured the measuring
begins anew, and inside brackets the line is one long blank. Either way the scanner is left as it
was, one line further down. So what follows such a line is read as it would be without the line, at
places that are a line further down.
-/

namespace Monorepo.Script

/-- A line of blanks, perhaps with a comment behind them. -/
inductive BlankLine : List Char → Prop
  | newline : BlankLine ['\n']
  | blank {c : Char} {cs : List Char} (hblank : c ∈ [' ', '\t', '\x0c', '\r'])
    (h : BlankLine cs) : BlankLine (c :: cs)
  | comment {words : List Char} (hwords : '\n' ∉ words) : BlankLine ('#' :: (words ++ ['\n']))

/-! ## Places behind an inserted line -/

/-- Where a place is once another line has been inserted as the line `line`. -/
def Position.inserted (line : Nat) (p : Position) : Position :=
  if p.line < line then p else ⟨p.line + 1, p.column⟩

namespace Position

variable {line : Nat} {p : Position}

theorem inserted_of_lt (h : p.line < line) : p.inserted line = p := if_pos h

theorem inserted_of_le (h : line ≤ p.line) : p.inserted line = ⟨p.line + 1, p.column⟩ :=
  if_neg (Nat.not_lt.mpr h)

theorem keepsLine_inserted (line : Nat) (p : Position) : KeepsLine (inserted line) p := by
  by_cases h : p.line < line
  · rw [KeepsLine, inserted_of_lt h, inserted_of_lt (p := ⟨p.line, 1⟩) h]
  · rw [KeepsLine, inserted_of_le (Nat.not_lt.mp h),
      inserted_of_le (p := ⟨p.line, 1⟩) (Nat.not_lt.mp h)]

theorem line_after (p : Position) (c : Char) (cs : List Char) :
    (p.after c).line + cs.count '\n' = p.line + (c :: cs).count '\n' :=
  (line_foldl_after (p.after c) cs).symm.trans (line_foldl_after p (c :: cs))

/-- A text in front of the inserted line stays where it is. -/
theorem carries_inserted_of_lt {cs : List Char} (h : p.line + cs.count '\n' < line) :
    Carries (inserted line) p cs := by
  induction cs generalizing p with
  | nil => trivial
  | cons c cs ih =>
    have hrest := line_after p c cs ▸ h
    have hhere : p.line < line := Nat.lt_of_le_of_lt (Nat.le_add_right _ _) h
    have hnext : (p.after c).line < line := Nat.lt_of_le_of_lt (Nat.le_add_right _ _) hrest
    refine ⟨keepsLine_inserted line p, ?_, ih hrest⟩
    rw [inserted_of_lt hhere, inserted_of_lt hnext]

/-- A text behind the inserted line is a line further down. -/
theorem carries_inserted_of_le {cs : List Char} (h : line ≤ p.line) :
    Carries (inserted line) p cs := by
  induction cs generalizing p with
  | nil => trivial
  | cons c cs ih =>
    have hnext : line ≤ (p.after c).line := by
      have hline := line_after p c []
      rw [List.count_nil, Nat.add_zero] at hline
      omega
    refine ⟨keepsLine_inserted line p, ?_, ih hnext⟩
    rw [inserted_of_le h, inserted_of_le hnext]
    unfold after
    split
    · rfl
    · rfl

/-- In a text that ends where a line does, and in what follows it, the places on the lines of the
    text are those in the text. -/
theorem line_lt_iff {before after cs : List Char}
    (hends : before = [] ∨ ∃ line, before = line ++ ['\n']) (hpart : cs <+: before ++ after)
    (p : Position) :
    (cs.foldl Position.after p).line < (before.foldl Position.after p).line ↔
      cs.length < before.length := by
  rw [line_foldl_after, line_foldl_after, Nat.add_lt_add_iff_left]
  constructor
  · intro hcount
    by_contra hlength
    have hsub : before <+: cs :=
      List.prefix_of_prefix_length_le (List.prefix_append before after) hpart
        (Nat.not_lt.mp hlength)
    exact absurd hcount (Nat.not_lt.mpr (hsub.sublist.count_le '\n'))
  · intro hlength
    rcases hends with rfl | ⟨line, rfl⟩
    · exact absurd hlength (Nat.not_lt_zero _)
    · rw [List.append_assoc] at hpart
      rw [List.length_append, List.length_singleton] at hlength
      have hsub : cs <+: line :=
        List.prefix_of_prefix_length_le hpart (List.prefix_append line _)
          (Nat.le_of_lt_succ hlength)
      rw [List.count_append, List.count_singleton_self]
      exact Nat.lt_succ_of_le (hsub.sublist.count_le '\n')

end Position

/-- A blank line is followed by the start of the next line. -/
theorem BlankLine.foldl_after {cs : List Char} (h : BlankLine cs) (p : Position) :
    cs.foldl Position.after p = ⟨p.line + 1, 1⟩ := by
  induction h generalizing p with
  | newline => rfl
  | blank hblank h ih =>
    rw [List.foldl_cons, ih]
    simp only [List.mem_cons, List.not_mem_nil, or_false] at hblank
    rcases hblank with rfl | rfl | rfl | rfl
    all_goals rfl
  | @comment words hwords =>
    have hline := Position.line_foldl_after (p.after '#') words
    rw [List.count_eq_zero_of_not_mem hwords] at hline
    rw [List.foldl_cons, List.foldl_append]
    change Position.mk ((words.foldl Position.after (p.after '#')).line + 1) 1 = _
    rw [hline]
    rfl

namespace Scanner

variable {s : Scanner} {cs : List Char}

/-! ## Through a blank line -/

/-- Characters that change nothing are passed over. -/
theorem run_of_passed (h : ∀ place, ∀ c ∈ cs,
    { s with next := place }.react c = .ok { s with next := place }) :
    s.run cs = .ok { s with next := cs.foldl Position.after s.next } := by
  induction cs generalizing s with
  | nil => rfl
  | cons c cs ih =>
    have hstep : s.step c = .ok { s with next := s.next.after c } :=
      step_of_react (h s.next c List.mem_cons_self)
    rw [run_cons hstep, List.foldl_cons]
    exact ih fun place c' hc' => h place c' (List.mem_cons_of_mem c hc')

/-- Where a margin is measured it is measured again behind a blank line. -/
theorem run_blankLine_margin (h : BlankLine cs) (width : Nat) (next : Position)
    (widths : List Nat) (brackets : Nat) (emitted : List Token) :
    (⟨.margin width, next, widths, brackets, emitted⟩ : Scanner).run cs =
      .ok ⟨.margin 0, cs.foldl Position.after next, widths, brackets, emitted⟩ := by
  induction h generalizing width next with
  | newline => rfl
  | blank hblank h ih =>
    simp only [List.mem_cons, List.not_mem_nil, or_false] at hblank
    rcases hblank with rfl | rfl | rfl | rfl
    all_goals exact ih _ _
  | @comment words hwords =>
    let comment : Scanner := ⟨.marginComment, next.after '#', widths, brackets, emitted⟩
    have hpass : comment.run words =
        .ok { comment with next := words.foldl Position.after comment.next } :=
      run_of_passed fun place c hc =>
        congrArg Except.ok (if_neg (ne_of_mem_of_not_mem hc hwords))
    rw [List.foldl_cons, List.foldl_append]
    exact run_append_ok hpass ['\n']

/-- Inside brackets a blank line is a blank. -/
theorem run_blankLine_joined (h : BlankLine cs) (next : Position) (widths : List Nat)
    {brackets : Nat} (emitted : List Token) (hopen : brackets ≠ 0) :
    (⟨.between, next, widths, brackets, emitted⟩ : Scanner).run cs =
      .ok ⟨.between, cs.foldl Position.after next, widths, brackets, emitted⟩ := by
  have hbetween (place : Position) :
      (⟨.between, place, widths, brackets, emitted⟩ : Scanner).react '\n' =
        .ok ⟨.between, place, widths, brackets, emitted⟩ := if_neg hopen
  have hcomment (place : Position) :
      (⟨.comment, place, widths, brackets, emitted⟩ : Scanner).react '\n' =
        .ok ⟨.between, place, widths, brackets, emitted⟩ := if_neg hopen
  induction h generalizing next with
  | newline => exact run_cons (step_of_react (hbetween next)) []
  | blank hblank h ih =>
    simp only [List.mem_cons, List.not_mem_nil, or_false] at hblank
    rcases hblank with rfl | rfl | rfl | rfl
    all_goals exact ih _
  | @comment words hwords =>
    let comment : Scanner := ⟨.comment, next.after '#', widths, brackets, emitted⟩
    have hpass : comment.run words =
        .ok { comment with next := words.foldl Position.after comment.next } :=
      run_of_passed fun place c hc => if_neg (ne_of_mem_of_not_mem hc hwords)
    rw [List.foldl_cons, List.foldl_append]
    refine (run_append_ok hpass ['\n']).trans ?_
    exact run_cons (step_of_react (hcomment _)) []

/-- At the start of a line a blank line is passed over. -/
theorem AtLine.run_blankLine (h : s.AtLine) (hline : BlankLine cs) :
    s.run cs = .ok { s with next := ⟨s.next.line + 1, 1⟩ } := by
  rw [← hline.foldl_after]
  cases h with
  | margin next widths brackets emitted =>
    exact run_blankLine_margin hline 0 next widths brackets emitted
  | joined next widths emitted hopen =>
    exact run_blankLine_joined hline next widths emitted hopen

/-! ## The start of a line -/

/-- A scanner at the start of a line that has left nothing on that line, so that an inserted line
    moves its own place only. -/
structure AboveLine (s : Scanner) : Prop where
  atLine : s.AtLine
  relocated : s.relocated (Position.inserted s.next.line) [] =
    { s with next := ⟨s.next.line + 1, 1⟩ }

theorem aboveLine_start : start.AboveLine where
  atLine := .margin _ _ _ _
  relocated := rfl

/-- Renaming places leaves a scanner as it is, its own place apart, that begins a line and has only
    left tokens at places that are not renamed. -/
theorem AtLine.relocated_eq {f : Position → Position} (h : s.AtLine)
    (hemitted : s.emitted.map (Token.relocated f) = s.emitted) :
    s.relocated f [] = { s with next := f s.next } := by
  unfold Scanner.relocated
  rw [hemitted, List.append_nil]
  cases h with
  | margin _ _ _ _ => rfl
  | joined _ _ _ _ => rfl

theorem aboveLine_of_newline {mid t : Scanner} (hlast : cs.getLast? ≠ some '\\')
    (hmid : start.run cs = .ok mid) (hstep : mid.step '\n' = .ok s) (hsettle : s.settle = .ok t) :
    s.AboveLine := by
  have htidied := tidied_start.run cs mid hmid
  rw [Option.or_none] at htidied
  have hline := htidied.atLine_of_newline hlast hstep hsettle
  obtain ⟨after, hreact, rfl⟩ := ok_of_map hstep
  -- All places so far are above the new line, so they stay where they are.
  let f := Position.inserted (mid.next.line + 1)
  have hline' : start.next.line + cs.count '\n' < mid.next.line + 1 := by
    rw [← Position.line_foldl_after, ← next_of_run hmid]
    exact Nat.lt_succ_self _
  have hstart : start.relocated f [] = start := by
    have hnext : f start.next = start.next :=
      Position.inserted_of_lt (Nat.lt_of_le_of_lt (Nat.le_add_right _ _) hline')
    exact congrArg (fun place => { start with next := place }) hnext
  have hkept := relocated_of_run (Position.carries_inserted_of_lt hline') hstart hmid
  have hafter := relocated_of_react (Position.keepsLine_inserted _ _) hkept hreact
  refine ⟨hline, ?_⟩
  have hemitted : after.emitted.map (Token.relocated f) = after.emitted :=
    (List.append_nil _).symm.trans (congrArg Scanner.emitted hafter)
  refine (hline.relocated_eq hemitted).trans ?_
  exact congrArg (fun place => { after with next := place }) (Position.inserted_of_le le_rfl)

/-- Behind a text that ends with a line that is ended the scanner is above the next line. -/
theorem exists_aboveLine {text : String} {tokens : List Token} (h : tokenize text = .ok tokens)
    (hends : text = "" ∨ ∃ cs, text.toList = cs ++ ['\n'] ∧ cs.getLast? ≠ some '\\') :
    ∃ s, start.run text.toList = .ok s ∧ s.AboveLine := by
  rcases hends with rfl | ⟨cs, htext, hlast⟩
  · exact ⟨start, rfl, aboveLine_start⟩
  · obtain ⟨s, hrun, hclose⟩ := ok_of_bind h
    refine ⟨s, hrun, ?_⟩
    obtain ⟨t, hsettle, -⟩ := settle_of_close hclose
    rw [htext, run_append] at hrun
    obtain ⟨mid, hmid, hbreak⟩ := ok_of_bind hrun
    obtain ⟨last, hstep, hnil⟩ := ok_of_bind hbreak
    cases hnil
    exact aboveLine_of_newline hlast hmid hstep hsettle

end Scanner

/-- **Blank lines are invisible.** Between a text that ends with the end of a line, be it inside of
    brackets or of a block, and what follows it, a blank line makes no difference to the tokens, nor
    to the fault if there is one: what stands in the text stays where it is, and what stands behind
    is a line further down. -/
theorem tokenize_blankLine {before line : String} {tokens : List Token}
    (hbefore : tokenize before = .ok tokens)
    (hends : before = "" ∨ ∃ cs, before.toList = cs ++ ['\n'] ∧ cs.getLast? ≠ some '\\')
    (hline : BlankLine line.toList) (after : String) :
    let next := (before.toList.foldl Position.after ⟨1, 1⟩).line
    (tokenize (before ++ line ++ after) = match tokenize (before ++ after) with
      | .ok tokens => .ok (tokens.map (Token.relocated (Position.inserted next)))
      | .error e => .error (e.relocated (Position.inserted next))) ∧
    ∀ cs, cs <+: (before ++ after).toList →
      ((cs.foldl Position.after ⟨1, 1⟩).line < next ↔ cs.length < before.toList.length) := by
  intro next
  refine ⟨?_, fun cs hpart => ?_⟩
  · obtain ⟨s, hrun, habove⟩ := Scanner.exists_aboveLine hbefore hends
    have hnext : s.next.line = next := congrArg Position.line (Scanner.next_of_run hrun)
    have hpassed := habove.atLine.run_blankLine hline
    rw [← habove.relocated, hnext] at hpassed
    unfold tokenize
    rw [String.append_assoc, String.toList_append, String.toList_append, String.toList_append,
      Scanner.run_append_ok hrun, Scanner.run_append_ok hrun, Scanner.run_append_ok hpassed]
    exact Scanner.close_run_relocated (Position.carries_inserted_of_le hnext.ge)
  · refine Position.line_lt_iff ?_ (String.toList_append ▸ hpart) ⟨1, 1⟩
    rcases hends with rfl | ⟨cs, htext, -⟩
    · exact Or.inl String.toList_empty
    · exact Or.inr ⟨cs, htext⟩

/-- A call that begins in the block of a branch, up to the end of its first line. -/
def openCall : String :=
  .ofList ['i', 'f', ' ', 'a', ':', '\n', ' ', 'b', '(', '"', 'c', '"', '\n']

/-- A tab, and a comment that ends in a backslash. -/
def backslashComment : String := .ofList ['\t', '#', '\\', '\n']

/-- What is left of the call. -/
def closedCall : String := .ofList ['"', 'd', '"', ')', '\n']

theorem tokenize_blankLine_openCall :
    (tokenize openCall).toBool = true ∧ BlankLine backslashComment.toList ∧
    (tokenize (openCall ++ backslashComment ++ closedCall) =
      match tokenize (openCall ++ closedCall) with
      | .ok tokens => .ok (tokens.map (Token.relocated (Position.inserted 3)))
      | .error e => .error (e.relocated (Position.inserted 3))) ∧
    (tokenize (openCall ++ closedCall)).map (·.map (·.position.line)) =
      .ok [1, 1, 1, 1, 2, 2, 2, 2, 3, 3, 4, 4] := by
  have hok : (tokenize openCall).toBool = true := by decide +kernel
  have hline : BlankLine backslashComment.toList := by
    rw [backslashComment, String.toList_ofList]
    have hcomment : BlankLine ('#' :: (['\\'] ++ ['\n'])) := .comment (by decide)
    exact .blank (by decide) hcomment
  refine ⟨hok, hline, ?_, by decide +kernel⟩
  cases hopen : tokenize openCall with
  | error e => rw [hopen] at hok; cases hok
  | ok tokens =>
    have hends : openCall.toList =
        ['i', 'f', ' ', 'a', ':', '\n', ' ', 'b', '(', '"', 'c', '"'] ++ ['\n'] :=
      String.toList_ofList
    have hblank := (tokenize_blankLine hopen (Or.inr ⟨_, hends, by decide⟩) hline closedCall).1
    have hnext : (openCall.toList.foldl Position.after ⟨1, 1⟩).line = 3 := by
      rw [openCall, String.toList_ofList]
      rfl
    rwa [hnext] at hblank

end Monorepo.Script
