import Monorepo.Proofs.Blocks
import Monorepo.Proofs.Joints
import Monorepo.Proofs.Nesting
import Monorepo.Proofs.Onward

/-!
# Scripts in a row

A script behind lines that make a script of their own adds its statements to theirs, on later lines.
Nothing that the first lines begin is left open: the parser has seen the end of each bracket and
each block, and the tokens of the second script are the same as if it stood alone. It does not begin
with an indent or a branch, since no script does, so no statement of the first lines takes it up.
-/

namespace Monorepo.Script

open Monorepo.Script.Parser

/-! ## Lexemes that begin no statement -/

/-- A lexeme that only goes on with a statement: it opens its block or one of its branches. -/
def Lexeme.GoesOn (lexeme : Lexeme) : Prop :=
  lexeme = .indent ∨ lexeme = .name "elif" ∨ lexeme = .name "else"

section GoesOn

variable {inner : Inner} {c : Cursor}

theorem bind_error {α β : Type} {p : Parser α} {f : α → Parser β} {e : SyntaxError}
    (h : p c = .error e) : (p >>= f) c = .error e := by
  change (p c).bind _ = _
  rw [h]
  rfl

theorem Lexeme.GoesOn.ne {lexeme other : Lexeme} (h : lexeme.GoesOn)
    (hother : ¬ other.GoesOn) : lexeme ≠ other := by
  rintro rfl
  exact hother h

theorem atom_error (h : c.here.lexeme.GoesOn) : ∃ e, atom inner c = .error e := by
  unfold atom
  rw [peek_bind]
  generalize c.here.lexeme = lexeme at h
  split
  case h_7 name _ _ _ =>
    have hkeyword : isKeyword name = true := by
      rcases h with h | h | h <;> cases h <;> decide
    rw [if_pos hkeyword]
    exact ⟨_, rfl⟩
  case h_11 => exact ⟨_, rfl⟩
  all_goals simp [Lexeme.GoesOn] at h

/-- No expression of any level begins with such a lexeme. -/
theorem parserAt_error (h : c.here.lexeme.GoesOn) {level : Nat} (hle : level ≤ 9) :
    ∃ e, parserAt inner level c = .error e := by
  induction hle using Nat.decreasingInduction with
  | self => exact atom_error h
  | of_succ level hlt ih =>
    obtain ⟨e, ih⟩ := ih
    refine ⟨e, ?_⟩
    by_cases hchains : HasChains level
    · rw [parserAt_eq_tailAt inner hchains]
      exact bind_error ih
    · have hlevel : level = 0 ∨ level = 3 ∨ level = 7 := by
        simp only [HasChains, List.mem_cons, List.not_mem_nil, or_false] at hchains
        omega
      rcases hlevel with rfl | rfl | rfl
      · have hlambda : c.here.lexeme ≠ .name "lambda" := h.ne (by simp [Lexeme.GoesOn])
        exact (bind_run (at?_of_ne hlambda)).trans (bind_error ih)
      · have hnot : c.here.lexeme ≠ .name "not" := h.ne (by simp [Lexeme.GoesOn])
        exact (bind_run (eat_of_ne hnot)).trans ih
      · change factor inner c = .error e
        unfold factor
        rw [peek_bind]
        generalize c.here.lexeme = lexeme at h
        split
        case h_3 => exact ih
        all_goals simp [Lexeme.GoesOn] at h

theorem simpleLine_error (htest : ∃ e, inner.test c = .error e) (h : c.here.lexeme.GoesOn) :
    ∃ e, simpleLine inner c = .error e := by
  obtain ⟨e, htest⟩ := htest
  have haction : simpleAction inner c = .error e := by
    unfold simpleAction
    rw [peek_bind]
    generalize c.here.lexeme = lexeme at h
    split
    case h_7 => exact bind_error (bind_error htest)
    all_goals simp [Lexeme.GoesOn] at h
  exact ⟨e, bind_error ((line_bind).trans (bind_error haction))⟩

/-- No statement begins with such a lexeme. -/
theorem statements_error {n : Nat} (hinner : inner.Roomy (n + 1)) (h : c.here.lexeme.GoesOn) :
    ∃ e, statements inner c = .error e := by
  obtain ⟨closer, -, htest, -⟩ := hinner
  have hfirst : ∃ e, parserAt closer 0 c = .error e := parserAt_error h (Nat.zero_le 9)
  have hline : ∃ e, simpleLine inner c = .error e := simpleLine_error (htest ▸ hfirst) h
  rcases h with h | h | h
  · obtain ⟨e, hline⟩ := hline
    refine ⟨e, ?_⟩
    unfold statements
    rw [line_bind, peek_bind, h]
    exact hline
  · rw [statements_of_name h (by decide) (by decide) (by decide) (by decide)]
    exact hline
  · rw [statements_of_name h (by decide) (by decide) (by decide) (by decide)]
    exact hline

end GoesOn

/-! ## Statements on the same lines -/

mutual

theorem Statement.lowered_zero : (s : Statement) → s.lowered 0 = s
  | .at line action => by rw [Statement.lowered, action.lowered_zero, Nat.add_zero]

theorem Action.lowered_zero : (a : Action) → a.lowered 0 = a
  | .branch branches otherwise => by
    rw [Action.lowered, loweredBranches_zero branches, loweredBlock_zero otherwise]
  | .loop _ _ body => by rw [Action.lowered, loweredBlock_zero body]
  | .define _ _ body => by rw [Action.lowered, loweredBlock_zero body]
  | .evaluate _ | .assign _ _ | .augment _ _ _ | .give _ | .pass | .leave | .proceed
  | .imports _ => rfl

theorem loweredBlock_zero : (block : List Statement) → loweredBlock 0 block = block
  | [] => rfl
  | s :: block => by rw [loweredBlock, s.lowered_zero, loweredBlock_zero block]

theorem loweredBranches_zero :
    (branches : List (Expr × List Statement)) → loweredBranches 0 branches = branches
  | [] => rfl
  | (_, block) :: branches => by
    rw [loweredBranches, loweredBlock_zero block, loweredBranches_zero branches]

end

/-! ## Streams of tokens in a row -/

/-- A script is made of the lines that the loop over it reads. -/
theorem parseTokens_eq (c : Cursor) : parseTokens c.tokens =
    (scriptLoop (Inner.ofRoom c.tokens.length maxNesting) c.tokens [] c).map (·.1.flatten) := by
  have hwhole (inner : Inner) : wholeScript inner c =
      (scriptLoop inner c.tokens [] c).map fun result => (result.1.flatten, result.2) := by
    change (scriptLoop inner c.tokens [] c).bind _ = _
    cases scriptLoop inner c.tokens [] c <;> rfl
  change (wholeScript (Inner.ofRoom c.tokens.length maxNesting) c).map _ = _
  rw [hwhole]
  cases scriptLoop (Inner.ofRoom c.tokens.length maxNesting) c.tokens [] c <;> rfl

theorem parseTokens_finish (place : Position) : parseTokens [⟨.finish, place⟩] = .ok [] := by
  let c : Cursor := ⟨⟨.finish, place⟩, []⟩
  have hloop (inner : Inner) : scriptLoop inner c.tokens [] c = .ok ([], c) :=
    scriptLoop_finish rfl (List.cons_ne_nil _ _)
  refine (parseTokens_eq c).trans ?_
  rw [hloop]
  rfl

/-- The tokens of a script do not begin with an indent or a branch. -/
theorem head_of_parseTokens {tokens : List Token} {script : List Statement}
    (h : parseTokens tokens = .ok script) : ∀ t ∈ tokens.head?, ¬ t.lexeme.GoesOn := by
  cases tokens with
  | nil => rintro _ ⟨⟩
  | cons t ahead =>
    rintro _ ⟨⟩ hgoes
    let c : Cursor := ⟨t, ahead⟩
    have hfinish : c.here.lexeme ≠ .finish := hgoes.ne (by simp [Lexeme.GoesOn])
    have hnewline : c.here.lexeme ≠ .newline := hgoes.ne (by simp [Lexeme.GoesOn])
    obtain ⟨e, hstatements⟩ :=
      statements_error (Inner.roomy_ofRoom c.tokens.length maxNesting) (c := c) hgoes
    have hloop : scriptLoop (Inner.ofRoom c.tokens.length maxNesting) c.tokens [] c = .error e := by
      rw [Cursor.tokens, scriptLoop_of_ne hfinish]
      exact bind_error ((bind_run (eat_of_ne hnewline)).trans hstatements)
    rw [show t :: ahead = c.tokens from rfl, parseTokens_eq, hloop] at h
    cases h

theorem Seam.Along.exists_stand {seam : Seam} {d b : Nat} {ts ts' : List Token}
    (h : seam.Along d b ts ts') :
    ∃ c c' : Cursor, c.tokens = ts ∧ c'.tokens = ts' ∧ seam.Stand d b c c' := by
  cases ts with
  | nil => exact absurd h Seam.Along.ne_nil
  | cons t ts =>
    cases ts' with
    | nil => exact absurd h.length_le (by simp)
    | cons t' ts' => exact ⟨⟨t, ts⟩, ⟨t', ts'⟩, rfl, rfl, h⟩

/-- In front of the end of a script all brackets are closed. -/
theorem brackets_of_parseTokens {seam : Seam} {b : Nat} {ts ts' : List Token}
    {script : List Statement} (h : seam.Along 0 b ts ts') (hparse : parseTokens ts = .ok script) :
    b = seam.brackets := by
  obtain ⟨c, c', rfl, rfl, hstand⟩ := h.exists_stand
  obtain ⟨⟨items, e⟩, hloop, -⟩ := ok_of_map ((parseTokens_eq c).symm.trans hparse)
  exact (script_turns (Inner.follows_ofRoom seam (Nat.le_refl _) _) hstand hloop).1

/-- An end of a line in front of a script takes a turn of its own. -/
theorem scriptLoop_extra {inner : Inner} {budget extra : List Token} {done : List (List Statement)}
    {c d : Cursor} (hextra : extra = [] ∨ ∃ place, extra = [⟨.newline, place⟩])
    (hc : c.tokens = extra ++ d.tokens) (hbudget : extra.length ≤ budget.length) :
    scriptLoop inner budget done c =
      scriptLoop inner (budget.drop extra.length) (extra.map (fun _ => []) ++ done) d := by
  obtain ⟨here, ahead⟩ := c
  obtain ⟨here', ahead'⟩ := d
  rcases hextra with rfl | ⟨place, rfl⟩
  · cases hc
    rfl
  · cases hc
    cases budget with
    | nil => cases hbudget
    | cons token budget => exact scriptLoop_newline rfl

/-- Behind a stream that makes a script another one adds its own statements. -/
theorem parseTokens_onward {seam seam' : Seam} {extra ts tokens us us' : List Token}
    {script script' : List Statement} (h : seam.Along 0 0 ts tokens) (h' : seam'.Along 0 0 us us')
    (hshift : seam.shift = 0) (honward : seam.onward = extra ++ us')
    (hextra : extra = [] ∨ ∃ place, extra = [⟨.newline, place⟩])
    (hend : ∃ place, seam'.onward = [⟨.finish, place⟩])
    (hts : parseTokens ts = .ok script) (hus : parseTokens us = .ok script') :
    parseTokens tokens = .ok (script ++ script'.map (Statement.lowered seam'.shift)) := by
  have hle := h.length_le
  have hlength := h.length_eq
  have hlength' := h'.length_eq
  obtain ⟨place, hend⟩ := hend
  rw [honward, List.length_append] at hlength
  rw [hend, List.length_singleton] at hlength'
  obtain ⟨c, c', rfl, rfl, hstand⟩ := h.exists_stand
  obtain ⟨d, d', rfl, rfl, hstand'⟩ := h'.exists_stand
  obtain ⟨⟨items, e⟩, hloop, rfl⟩ := ok_of_map ((parseTokens_eq c).symm.trans hts)
  obtain ⟨⟨items', e'⟩, hloop', rfl⟩ := ok_of_map ((parseTokens_eq d).symm.trans hus)
  obtain ⟨-, _, mid, rfl, hturned, hmid, hturns⟩ :=
    script_turns (Inner.follows_ofRoom seam hle _) hstand hloop
  have hle' : d.tokens.length ≤ c'.tokens.length := by omega
  obtain ⟨-, _, last, rfl, hturned', hlast, hturns'⟩ :=
    script_turns (Inner.follows_ofRoom seam' hle' _) hstand' hloop'
  have hfinish : last.here.lexeme = .finish := by
    rw [(List.cons.inj (hlast.trans hend)).1]
  -- The budget is the whole stream, which has a token for each turn: those up to the seam, the one
  -- of the extra line end, and those of the second script.
  have hfirst := hturns c'.tokens [] (by omega)
  rw [scriptLoop_extra hextra (hmid.trans honward) (by rw [List.length_drop]; omega),
    hturns' _ _ (by rw [List.length_drop, List.length_drop]; omega),
    scriptLoop_finish hfinish (List.ne_nil_of_length_pos
      (by rw [List.length_drop, List.length_drop, List.length_drop]; omega))] at hfirst
  rw [parseTokens_eq, hfirst]
  refine congrArg Except.ok ?_
  change List.flatten _ = _
  have hsame : items.map (loweredBlock seam.shift) = items := by
    rw [hshift]
    exact (List.map_congr_left fun lines _ => loweredBlock_zero lines).trans (List.map_id' items)
  have hblank : (extra.map fun _ => ([] : List Statement)).reverse.flatten = [] := by
    rcases hextra with rfl | ⟨place, rfl⟩
    · rfl
    · rfl
  have hlowered : (items'.map (loweredBlock seam'.shift)).flatten =
      items'.flatten.map (Statement.lowered seam'.shift) := by
    rw [List.map_flatten]
    exact congrArg List.flatten (List.map_congr_left fun lines _ => loweredBlock_eq_map _ lines)
  rw [List.append_nil, List.reverse_append, List.reverse_append, List.reverse_reverse,
    List.reverse_reverse, List.flatten_append, List.flatten_append, hblank, hsame, hlowered,
    List.append_nil]

/-! ## Texts in a row -/

theorem map_lowered_zero (tokens : List Token) : tokens.map (Token.lowered 0) = tokens :=
  (List.map_congr_left fun _ _ => rfl).trans (List.map_id' tokens)

theorem head_behind (k : Nat) {extra tokens : List Token}
    (hextra : extra = [] ∨ ∃ place, extra = [⟨.newline, place⟩])
    (h : ∀ t ∈ tokens.head?, ¬ t.lexeme.GoesOn) :
    ∀ t ∈ (extra ++ tokens.map (Token.lowered k)).head?, ¬ t.lexeme.GoesOn := by
  rcases hextra with rfl | ⟨place, rfl⟩
  · intro t ht
    rw [List.nil_append, List.head?_map] at ht
    obtain ⟨own, hown, rfl⟩ := Option.map_eq_some_iff.mp ht
    exact h own hown
  · rintro _ ⟨⟩
    simp [Lexeme.GoesOn]

namespace Scanner

variable {s t : Scanner} {k : Nat}

/-- A scanner `k` lines down a text, at the beginning of a line. -/
structure AtMargin (k : Nat) (s : Scanner) : Prop where
  orderly : s.Orderly
  between : s.BetweenLines
  mode : s.mode = .margin 0
  next : s.next = start.next.lowered k

/-- A text that makes a script leaves no bracket open. -/
theorem Orderly.brackets_of_parse (h : t.Orderly) {script : List Statement}
    (hparse : parseTokens t.tokens = .ok script) :
    t.brackets = 0 := by
  let seam : Seam := ⟨0, t.brackets, ⟨.finish, t.next⟩, [⟨.finish, t.next⟩], rfl, by simp, by simp⟩
  have hend : seam.Along 0 t.brackets [seam.stop] seam.onward := .seam rfl rfl rfl
  exact (brackets_of_parseTokens (h.ended.1.along (Or.inl h.ended.2) hend) hparse).symm

theorem next_of_lines {cs : List Char} (h : start.run (cs ++ ['\n']) = .ok s) :
    s.next = start.next.lowered ((cs ++ ['\n']).count '\n') := by
  rw [next_of_run h, List.foldl_append, List.count_append]
  have hline := Position.line_foldl_after start.next cs
  change Position.mk ((cs.foldl Position.after start.next).line + 1) 1 = _
  rw [hline]
  rfl

/-- Behind lines that make a script a line begins. -/
theorem atMargin_of_parse {cs : List Char} (hlast : cs.getLast? ≠ some '\\')
    (hrun : start.run (cs ++ ['\n']) = .ok s) {tokens : List Token} (hclose : s.close = .ok tokens)
    {script : List Statement} (hparse : parseTokens tokens = .ok script) :
    s.AtMargin ((cs ++ ['\n']).count '\n') ∧
      tokens = s.tokens := by
  have htidied := tidied_start.run _ s hrun
  obtain ⟨t, hsettle, rfl⟩ := settle_of_close hclose
  -- The scanner does not know whether a bracket is still open; the parser has seen that none is.
  have hbrackets := (htidied.orderly.settle hsettle).brackets_of_parse hparse
  obtain ⟨mid, hmid, hstep⟩ := ok_of_bind ((run_append start cs ['\n']).symm.trans hrun)
  obtain ⟨last, hstep, hnil⟩ := ok_of_bind hstep
  cases hnil
  have hbegun := tidied_start.run cs mid hmid
  rw [Option.or_none] at hbegun
  have hmode := hbegun.margin_of_newline hlast hstep hsettle hbrackets
  obtain rfl : s = t := by
    unfold settle at hsettle
    rw [hmode] at hsettle
    exact Except.ok.inj hsettle
  have hbetween := htidied.margin (by rw [hmode]; rfl)
  exact ⟨⟨htidied.orderly, hbetween, hmode, next_of_lines hrun⟩, rfl⟩

/-- The tokens of two texts that make scripts make both, one behind the other. -/
theorem AtMargin.parse_behind (h : s.AtMargin k) (ht : t.Orderly) {extra : List Token}
    (hextra : extra = [] ∨ ∃ place, extra = [⟨.newline, place⟩]) (place : Position)
    {script script' : List Statement}
    (hparse : parseTokens s.tokens = .ok script)
    (hparse' : parseTokens t.tokens = .ok script') :
    parseTokens ((s.closedAt place).reverse ++
        (extra ++ t.tokens.map (Token.lowered k))) =
      .ok (script ++ script'.map (Statement.lowered k)) := by
  have hhead := head_behind k hextra (head_of_parseTokens hparse')
  have hne : extra ++ t.tokens.map (Token.lowered k) ≠ [] := by simp [Scanner.tokens]
  let seam : Seam := ⟨0, 0, ⟨.finish, s.next⟩, extra ++ t.tokens.map (Token.lowered k), rfl, hne,
    fun token htoken => not_or.mp (not_or.mp (hhead token htoken)).2⟩
  let seam' : Seam := ⟨k, t.brackets, ⟨.finish, t.next⟩, [⟨.finish, t.next.lowered k⟩], rfl,
    by simp, by simp⟩
  have halong : seam.Along 0 0 s.tokens ((s.closedAt place).reverse ++ seam.onward) := by
    have hend : seam.Along 0 s.brackets [seam.stop] seam.onward := .seam h.between.brackets rfl rfl
    have hbefore := h.orderly.tidy.along (Or.inl h.between.bare)
      (hend.dedents s.next place s.widths.length)
    unfold Scanner.tokens
    rw [h.between.ended]
    unfold closedAt
    rw [List.reverse_append, List.reverse_append, List.reverse_replicate, List.reverse_replicate,
      List.append_assoc, List.append_assoc]
    rwa [map_lowered_zero] at hbefore
  have halong' : seam'.Along 0 0 t.tokens
      ((t.ended.map (Token.lowered k)).reverse ++ seam'.onward) :=
    ht.ended.1.along (Or.inl ht.ended.2) (.seam rfl rfl rfl)
  refine parseTokens_onward halong halong' rfl ?_ hextra ⟨_, rfl⟩ hparse hparse'
  rw [← List.map_reverse]
  exact congrArg (extra ++ ·) List.map_append

end Scanner

/-- A text behind one that ends with a line break adds its statements, on later lines. -/
theorem parseScript_append {first second : String} {script script' : List Statement}
    (hfirst : parseScript first = .ok script) (hsecond : parseScript second = .ok script')
    (hends : first = "" ∨ ∃ cs, first.toList = cs ++ ['\n'] ∧ cs.getLast? ≠ some '\\') :
    parseScript (first ++ second) =
      .ok (script ++ script'.map (Statement.lowered (first.toList.count '\n'))) := by
  obtain ⟨tokens, htokens, hparse⟩ := ok_of_bind hfirst
  obtain ⟨tokens', htokens', hparse'⟩ := ok_of_bind hsecond
  rcases hends with rfl | ⟨cs, htext, hlast⟩
  · have hempty : parseScript "" = .ok [] := parseTokens_finish ⟨1, 1⟩
    cases hempty.symm.trans hfirst
    have hsame : script'.map (Statement.lowered 0) = script' :=
      (List.map_congr_left fun s _ => s.lowered_zero).trans (List.map_id' script')
    rw [String.empty_append, hsecond, List.nil_append]
    exact congrArg Except.ok hsame.symm
  · obtain ⟨s, hrun, hclose⟩ := ok_of_bind htokens
    obtain ⟨t, hrun', hclose'⟩ := ok_of_bind htokens'
    rw [htext] at hrun
    obtain ⟨hmargin, rfl⟩ := Scanner.atMargin_of_parse hlast hrun hclose hparse
    rw [← htext] at hmargin hrun
    have hhead : ∀ token ∈ tokens'.head?, token.lexeme ≠ .indent := fun token htoken hindent =>
      head_of_parseTokens hparse' token htoken (Or.inl hindent)
    obtain ⟨u, place, extra, hrun'', hclose'', hextra⟩ := Scanner.close_behind hmargin.between
      hmargin.orderly.positive hmargin.mode hmargin.next hrun' hclose' hhead
    obtain ⟨v, hsettle, rfl⟩ := Scanner.settle_of_close hclose'
    have horderly := ((Scanner.tidied_start.run _ t hrun').orderly).settle hsettle
    unfold parseScript tokenize
    rw [String.toList_append, Scanner.run_append_ok hrun, hrun'']
    change u.close.bind parseTokens = _
    rw [hclose'']
    exact hmargin.parse_behind horderly hextra place hparse hparse'

/-- A branch whose block is open at the end of the text. -/
def branchLines : List Char := ['i', 'f', ' ', 'a', ':', '\n', ' ', 'b', '\n']

/-- A blank line, a name, and a branch on a line that has no end. -/
def laterLines : List Char := ['\n', 'c', '\n', 'i', 'f', ' ', 'a', ':', ' ', 'd']

theorem parseScript_append_branch :
    ∃ script script', parseScript (.ofList branchLines) = .ok script ∧
      parseScript (.ofList laterLines) = .ok script' ∧ script.map Statement.line = [1] ∧
      script'.map Statement.line = [2, 3] ∧
      parseScript (.ofList branchLines ++ .ofList laterLines) =
        .ok (script ++ script'.map (Statement.lowered 2)) := by
  obtain ⟨script, hscript, hlines⟩ : ∃ script, parseScript (.ofList branchLines) = .ok script ∧
      script.map Statement.line = [1] := exists_script_of_parse (by decide +kernel)
  obtain ⟨script', hscript', hlines'⟩ : ∃ script, parseScript (.ofList laterLines) = .ok script ∧
      script.map Statement.line = [2, 3] := exists_script_of_parse (by decide +kernel)
  have hends : (String.ofList branchLines).toList =
      ['i', 'f', ' ', 'a', ':', '\n', ' ', 'b'] ++ ['\n'] := String.toList_ofList
  have happend := parseScript_append hscript hscript' (Or.inr ⟨_, hends, by decide⟩)
  have hcount : (String.ofList branchLines).toList.count '\n' = 2 := by
    rw [String.toList_ofList]
    decide
  rw [hcount] at happend
  exact ⟨script, script', hscript, hscript', hlines, hlines', happend⟩

end Monorepo.Script
