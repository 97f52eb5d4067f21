import Monorepo.Proofs.Outlines
import Monorepo.Proofs.Reading

/-!
# Reading statements from their lines

The parser reads an outline from its tokens and gives the statement back, each part with the line
on which it begins. It takes one unit of room for each block that is open, and one for the variables
in the innermost one. What follows a statement must not be an arm of an `if`: inside of a block it
is another statement or the end of the block.
-/

namespace Monorepo.Script

open Monorepo.Script.Parser

/-! ## Cursors over placed tokens -/

/-- The tokens from one cursor to another one, with their lines. -/
inductive Cursor.Holds : Cursor → List Placed → Cursor → Prop
  | nil (c : Cursor) : Holds c [] c
  | cons {p : Placed} {items : List Placed} {token next : Token} {ahead : List Token}
    {rest : Cursor} (ht : token.Stands p) (h : Holds ⟨next, ahead⟩ items rest) :
    Holds ⟨token, next :: ahead⟩ (p :: items) rest

namespace Cursor.Holds

variable {c rest : Cursor} {items more : List Placed} {p : Placed}

theorem split (h : c.Holds (items ++ more) rest) :
    ∃ mid : Cursor, c.Holds items mid ∧ mid.Holds more rest := by
  induction items generalizing c with
  | nil => exact ⟨c, .nil c, h⟩
  | cons p items ih =>
    cases h with
    | cons ht h =>
      obtain ⟨mid, hfirst, hrest⟩ := ih h
      exact ⟨mid, .cons ht hfirst, hrest⟩

theorem head (h : c.Holds (p :: items) rest) :
    ∃ mid : Cursor, c.Spells [p.1] mid ∧ mid.Holds items rest := by
  cases h with
  | cons ht h =>
    rename_i token next ahead
    obtain ⟨lexeme, position⟩ := token
    obtain rfl : lexeme = p.1 := ht.1
    exact ⟨⟨next, ahead⟩, .cons (.nil _), h⟩

theorem spells (h : c.Holds items rest) : c.Spells (items.map Prod.fst) rest := by
  induction items generalizing c with
  | nil =>
    cases h
    exact .nil _
  | cons p items ih =>
    cases h with
    | cons ht h =>
      rename_i token next ahead
      obtain ⟨lexeme, position⟩ := token
      obtain rfl : lexeme = p.1 := ht.1
      exact .cons (ih h)

theorem here (h : c.Holds (p :: items) rest) : c.here.lexeme = p.1 := h.spells.here

theorem line {lexeme : Lexeme} {line : Nat} (h : c.Holds ((lexeme, some line) :: items) rest) :
    c.here.position.line = line := by
  cases h with
  | cons ht h => exact ht.2 line rfl

theorem length_tokens (h : c.Holds items rest) : items.length < c.tokens.length := by
  have hlength := h.spells.length_tokens
  have hrest : 0 < rest.tokens.length := Nat.succ_pos _
  rw [List.length_map] at hlength
  omega

/-- The tokens of a stream, up to its last one. -/
theorem of_forall₂ (items : List Placed) {last : Placed} {tokens : List Token}
    (h : List.Forall₂ Token.Stands tokens (items ++ [last])) :
    ∃ first ahead position, tokens = first :: ahead ∧
      Holds ⟨first, ahead⟩ items ⟨⟨last.1, position⟩, []⟩ := by
  induction items generalizing tokens with
  | nil =>
    cases h with
    | cons ht h =>
      cases h
      rename_i token
      obtain ⟨lexeme, position⟩ := token
      obtain rfl : lexeme = last.1 := ht.1
      exact ⟨_, _, position, rfl, .nil _⟩
  | cons p items ih =>
    cases h with
    | cons ht h =>
      obtain ⟨next, ahead, position, rfl, hrest⟩ := ih h
      exact ⟨_, _, position, rfl, .cons ht hrest⟩

end Cursor.Holds

/-! ## Room for blocks -/

/-- Parsers with room for a number of blocks inside one another. -/
def Inner.Roomy : Nat → Inner → Prop
  | 0, _ => True
  | n + 1, inner => ∃ closer : Inner, Roomy n closer ∧ inner.test = conditional closer ∧
      inner.block = suite closer

namespace Inner

theorem Roomy.of_le {n : Nat} {inner : Inner} (h : inner.Roomy n) {k : Nat} (hle : k ≤ n) :
    inner.Roomy k := by
  induction n generalizing inner k with
  | zero =>
    obtain rfl := Nat.le_zero.mp hle
    exact h
  | succ n ih =>
    cases k with
    | zero => exact trivial
    | succ k =>
      obtain ⟨closer, hcloser, htest, hblock⟩ := h
      exact ⟨closer, ih hcloser (Nat.le_of_succ_le_succ hle), htest, hblock⟩

theorem roomy_ofRoom (tokens room : Nat) : (ofRoom tokens room).Roomy room := by
  induction room with
  | zero => exact trivial
  | succ room ih =>
    have hparts (inner : Inner) (n : Nat) :
        (inner.withClauses n).test = inner.test ∧ (inner.withClauses n).block = inner.block := by
      cases n <;> exact ⟨rfl, rfl⟩
    obtain ⟨htest, hblock⟩ := hparts (ofRoom tokens room).deeper tokens
    exact ⟨ofRoom tokens room, ih, htest, hblock⟩

end Inner

/-! ## Parts of lines -/

section Parts

variable {inner : Inner} {c mid last rest : Cursor}

/-- A name where an expression is asked for. -/
theorem test_name {n : Nat} (hinner : inner.Roomy (n + 1)) {name : String}
    (hname : IsVariable name) (hc : c.Spells [.name name] rest)
    (hstops : Stops 0 rest.here.lexeme) : inner.test c = .ok (.name name, rest) := by
  obtain ⟨closer, -, htest, -⟩ := hinner
  have hatom : parserAt closer 9 c = .ok (.name name, rest) := by
    rw [← advance_run hc]
    exact atom_name hname hc.here
  have hstarts : starts 9 c.here.lexeme = true := by
    rw [hc.here]
    simp [starts, hname.1]
  rw [htest]
  exact parserAt_of_le hatom (Nat.zero_le 9) hstarts hstops

theorem test_run {n : Nat} (hinner : inner.Roomy (n + 1)) (v : Variable)
    (hc : c.Spells [.name v.text] rest) (hstops : Stops 0 rest.here.lexeme) :
    inner.test c = .ok (.name v.text, rest) :=
  test_name hinner v.named hc hstops

theorem testList_variable {n : Nat} (hinner : inner.Roomy (n + 1)) (v : Variable)
    (hc : c.Spells [.name v.text] rest) (hstops : Stops 0 rest.here.lexeme)
    (hcomma : rest.here.lexeme ≠ .mark .comma) :
    testList inner c = .ok (.name v.text, rest) :=
  testList_run (test_run hinner v hc hstops) hcomma

/-- A keyword that begins a statement without a block. -/
theorem statements_of_name {name : String} (hc : c.here.lexeme = .name name) (hif : name ≠ "if")
    (hfor : name ≠ "for") (hdef : name ≠ "def")
    (hname : unsupportedKeywords.contains name = false) :
    statements inner c = simpleLine inner c := by
  unfold statements
  rw [line_bind, peek_bind]
  generalize c.here.lexeme = lexeme at hc
  split
  case h_4 =>
    cases hc
    rw [hname]
    rfl
  case h_5 => rfl
  all_goals
    cases hc
    contradiction

theorem starts_variable (v : Variable) : starts 0 (.name v.text) = true := by
  simp [starts, v.named.1]

theorem expressionAction_assign {left value : Expr} {target : Target} {behind : Cursor}
    (hleft : testList inner c = .ok (left, mid))
    (htarget : ∀ c, assignTarget left c = .ok (target, c))
    (hassign : mid.Spells [.mark .assign] behind)
    (hvalue : testList inner behind = .ok (value, last))
    (hchained : last.here.lexeme ≠ .mark .assign) :
    expressionAction inner c = .ok (.assign target value, last) := by
  have hmore : collect (eatMark .assign) (testList inner) last = .ok ([], last) :=
    collect_none (eat_of_ne hchained)
  refine (bind_run hleft).trans ?_
  rw [peek_bind, hassign.here]
  change (advance >>= _) mid = _
  have hadvance : advance mid = .ok ((), behind) := by rw [advance, advance_run hassign]
  exact (bind_run hadvance).trans ((bind_run hvalue).trans ((bind_run hmore).trans
    (bind_run (htarget last))))

theorem advance_bind {α : Type} {f : Unit → Parser α} {lexeme : Lexeme}
    (h : c.Spells [lexeme] mid) : (advance >>= f) c = f () mid := by
  have hadvance : advance c = .ok ((), mid) := by rw [advance, advance_run h]
  exact bind_run hadvance

/-- A loop is read from its parts. -/
theorem statements_for {c₁ c₂ c₃ c₄ : Cursor} {targets : List String} {source : Expr}
    {body : List Statement} (hfor : c.Spells [.name "for"] c₁)
    (htargets : loopTargets c₁ = .ok (targets, c₂)) (hin : c₂.Spells [.name "in"] c₃)
    (hsource : testList inner c₃ = .ok (source, c₄)) (hbody : inner.block c₄ = .ok (body, rest)) :
    statements inner c = .ok ([.at c.here.position.line (.loop targets source body)], rest) := by
  have haction : loopAction inner c₁ = .ok (.loop targets source body, rest) :=
    (bind_run htargets).trans ((bind_run (expect_run _ hin)).trans
      ((bind_run hsource).trans (bind_run hbody)))
  unfold statements
  rw [line_bind, peek_bind, hfor.here]
  exact (advance_bind hfor).trans (bind_run haction)

/-- A statement that is a keyword. -/
theorem keyword_run {word : String} {action : Action} (hc : c.Spells [.name word, .newline] rest)
    (hword : word ∈ ["pass", "break", "continue", "return"])
    (haction : ∀ mid, c.Spells [.name word] mid → mid.Spells [.newline] rest →
      simpleAction inner c = .ok (action, mid)) :
    statements inner c = .ok ([.at c.here.position.line action], rest) := by
  obtain ⟨mid, hfirst, hnewline⟩ := hc.head
  have hplain : ∀ word ∈ ["pass", "break", "continue", "return"], word ≠ "if" ∧ word ≠ "for" ∧
      word ≠ "def" ∧ unsupportedKeywords.contains word = false := by decide
  obtain ⟨hif, hfor, hdef, hsupported⟩ := hplain word hword
  rw [statements_of_name hfirst.here hif hfor hdef hsupported]
  exact simpleLine_of_action (haction mid hfirst hnewline) hnewline

/-- A statement without a block is read from its line. -/
theorem Simple.run (statement : Simple) {n : Nat} (hinner : inner.Roomy (n + 1)) {line : Nat}
    (hc : c.Holds (lineItems line (statement.line 0)) rest) :
    statements inner c = .ok ([.at line statement.action], rest) := by
  have hline : c.here.position.line = line := hc.line
  have hspells := hc.spells
  rw [← hline]
  cases statement with
  | pass =>
    refine keyword_run hspells (by decide) fun mid hfirst _ => ?_
    unfold simpleAction
    rw [peek_bind, hfirst.here]
    exact advance_bind hfirst
  | leave =>
    refine keyword_run hspells (by decide) fun mid hfirst _ => ?_
    unfold simpleAction
    rw [peek_bind, hfirst.here]
    exact advance_bind hfirst
  | proceed =>
    refine keyword_run hspells (by decide) fun mid hfirst _ => ?_
    unfold simpleAction
    rw [peek_bind, hfirst.here]
    exact advance_bind hfirst
  | give value =>
    cases value with
    | none =>
      refine keyword_run hspells (by decide) fun mid hfirst hnewline => ?_
      unfold simpleAction
      rw [peek_bind, hfirst.here]
      refine (advance_bind hfirst).trans ?_
      rw [peek_bind, hnewline.here]
      rfl
    | some value =>
      obtain ⟨behind, hword, hspells⟩ :=
        (show c.Spells (.name "return" :: [.name value.text, .newline]) rest from hspells).head
      obtain ⟨mid, hvalue, hnewline⟩ := hspells.head
      have htest := testList_variable hinner value hvalue (hnewline.stops rfl 0)
        (hnewline.here_ne nofun)
      have haction : simpleAction inner c = .ok (.give (some (.name value.text)), mid) := by
        unfold simpleAction
        rw [peek_bind, hword.here]
        refine (advance_bind hword).trans ?_
        rw [peek_bind, hvalue.here]
        exact bind_run htest
      rw [statements_of_name hword.here (by decide) (by decide) (by decide) (by decide)]
      exact simpleLine_of_action haction hnewline
  | assign target value =>
    obtain ⟨mid, htarget, hspells⟩ := (show c.Spells (.name target.text ::
      [.mark .assign, .name value.text, .newline]) rest from hspells).head
    obtain ⟨behind, hassign, hspells⟩ := hspells.head
    obtain ⟨last, hvalue, hnewline⟩ := hspells.head
    have htarget' := testList_variable hinner target htarget (hassign.stops rfl 0)
      (hassign.here_ne nofun)
    have hvalue' := testList_variable hinner value hvalue (hnewline.stops rfl 0)
      (hnewline.here_ne nofun)
    have hstarts : starts 0 c.here.lexeme = true := by
      rw [htarget.here]
      exact starts_variable target
    rw [statements_of_starts hstarts]
    refine simpleLine_of_action ?_ hnewline
    rw [simpleAction_of_starts hstarts]
    exact expressionAction_assign htarget' (fun _ => rfl) hassign hvalue' (hnewline.here_ne nofun)
  | evaluate value =>
    obtain ⟨mid, hvalue, hnewline⟩ :=
      (show c.Spells (.name value.text :: [.newline]) rest from hspells).head
    have hvalue' := testList_variable hinner value hvalue (hnewline.stops rfl 0)
      (hnewline.here_ne nofun)
    have hstarts : starts 0 c.here.lexeme = true := by
      rw [hvalue.here]
      exact starts_variable value
    rw [statements_of_starts hstarts]
    refine simpleLine_of_action ?_ hnewline
    rw [simpleAction_of_starts hstarts]
    exact expressionAction_evaluate hvalue' hnewline

end Parts

/-! ## Headers -/

theorem lexemes_commas (items : List (List Piece)) :
    (commas items).map Piece.lexeme = separated (items.map (·.map Piece.lexeme)) := by
  cases items with
  | nil => rfl
  | cons first rest =>
    rw [commas, List.map_append, List.map_flatMap, List.map_cons, separated, List.flatMap_map]
    rfl

theorem lexemes_placedOn (line : Nat) (pieces : List Piece) :
    (placedOn line pieces).map Prod.fst = pieces.map Piece.lexeme := by
  rw [placedOn, List.map_map]
  rfl

/-- The tokens of a parameter. -/
def Parameter.lexemes (p : Parameter) : List Lexeme :=
  .name p.name :: p.default.elim [] fun e => .mark .assign :: e.body

/-- A parameter of a function, with a variable as its default. -/
def parameterOf : Name × Option Variable → Parameter :=
  fun (name, value) => ⟨name.text, value.map fun v => .name v.text⟩

theorem lexemes_parameterPieces (parameter : Name × Option Variable) :
    (parameterPieces parameter).map Piece.lexeme = (parameterOf parameter).lexemes := by
  obtain ⟨name, value⟩ := parameter
  cases value <;> rfl

section Headers

variable {inner : Inner} {c rest : Cursor} {n : Nat}

theorem parameter_run (hinner : inner.Roomy (n + 1)) (p : Name × Option Variable)
    (hc : c.Spells (parameterOf p).lexemes rest)
    (hrest : rest.here.lexeme = .mark .comma ∨ rest.here.lexeme = .mark .rightParen) :
    parameter inner c = .ok (parameterOf p, rest) := by
  obtain ⟨name, value⟩ := p
  obtain ⟨mid, hname, hc⟩ := hc.head
  have hidentifier := reads_identifier name.free c mid hname trivial
  unfold parameter
  rw [peek_bind, hname.here]
  refine Eq.trans (bind_run hidentifier) ?_
  cases value with
  | none =>
    obtain rfl := hc.eq_of_nil
    have hassign : mid.here.lexeme ≠ .mark .assign := by
      rcases hrest with h | h <;> rw [h] <;> nofun
    exact bind_run (eat_of_ne hassign)
  | some v =>
    obtain ⟨behind, hassign, hvalue⟩ :=
      (show mid.Spells (.mark .assign :: [.name v.text]) rest from hc).head
    have hstops : Stops 0 rest.here.lexeme := by
      rcases hrest with h | h <;> rw [h] <;> exact stops_of_grip_none rfl 0
    exact (bind_run (eat_run hassign)).trans (bind_run (test_run hinner v hvalue hstops))

/-- The parameters of a function. -/
theorem parameters_run (hinner : inner.Roomy (n + 1)) (ps : List (Name × Option Variable))
    (hc : c.Spells (separated (ps.map fun p => (parameterOf p).lexemes)) rest)
    (hrest : rest.here.lexeme = .mark .rightParen) :
    commaList (at? (.mark .rightParen)) (parameter inner) c =
      .ok (ps.map parameterOf, rest) := by
  have hparameters : ∀ q ∈ ps.map parameterOf, Reads (parameter inner)
      (fun lexeme => lexeme = .mark .comma ∨ lexeme = .mark .rightParen) q.lexemes q := by
    intro q hq c rest hc hrest
    obtain ⟨p, -, rfl⟩ := List.mem_map.mp hq
    exact parameter_run hinner p hc hrest
  have hopen : ∀ q ∈ ps.map parameterOf, ∀ c rest : Cursor, c.Spells q.lexemes rest →
      c.here.lexeme ≠ .mark .rightParen := by
    intro q _ c rest hc
    exact hc.here_ne nofun
  refine commaList_reads .rightParen hparameters hopen (Or.inl rfl) (Or.inr rfl) nofun c rest ?_
    hrest
  rw [List.map_map]
  exact hc

end Headers

/-! ## Statements and blocks -/

/-- What may follow a statement: no arm of an `if`. -/
def Detached (lexeme : Lexeme) : Prop := lexeme ≠ .name "elif" ∧ lexeme ≠ .name "else"

/-- The first token of a statement is a name and no arm. -/
theorem Outline.opens (o : Outline) (line : Nat) : ∃ (name : String) (items : List Placed),
    o.items line = (.name name, some line) :: items ∧ Detached (.name name) := by
  have hkeyword {name : String} (h : isKeyword name = false) : Detached (.name name) := by
    refine ⟨fun heq => ?_, fun heq => ?_⟩ <;>
    · rw [Lexeme.name.inj heq] at h
      cases h
  have hother {name : String} (helif : name ≠ "elif") (helse : name ≠ "else") :
      Detached (.name name) :=
    ⟨fun heq => helif (Lexeme.name.inj heq), fun heq => helse (Lexeme.name.inj heq)⟩
  cases o with
  | branch condition body arms => exact ⟨"if", _, rfl, hother (by decide) (by decide)⟩
  | loop target targets source body => exact ⟨"for", _, rfl, hother (by decide) (by decide)⟩
  | define name parameters body => exact ⟨"def", _, rfl, hother (by decide) (by decide)⟩
  | simple statement =>
    cases statement with
    | pass => exact ⟨"pass", _, rfl, hother (by decide) (by decide)⟩
    | leave => exact ⟨"break", _, rfl, hother (by decide) (by decide)⟩
    | proceed => exact ⟨"continue", _, rfl, hother (by decide) (by decide)⟩
    | give value =>
      cases value with
      | none => exact ⟨"return", _, rfl, hother (by decide) (by decide)⟩
      | some value => exact ⟨"return", _, rfl, hother (by decide) (by decide)⟩
    | assign target value => exact ⟨target.text, _, rfl, hkeyword target.named.1⟩
    | evaluate value => exact ⟨value.text, _, rfl, hkeyword value.named.1⟩

section Turns

variable {inner : Inner} {more : Parser Bool} {item : Parser (List Statement)}

/-- A repetition that goes on with a statement where there is a name. -/
structure Turns (inner : Inner) (more : Parser Bool) (item : Parser (List Statement)) : Prop where
  more : ∀ (c : Cursor) (name : String), c.here.lexeme = .name name → more c = .ok (true, c)
  item : ∀ (c : Cursor) (name : String), c.here.lexeme = .name name → item c = statements inner c

theorem Turns.step (h : Turns inner more item) {c mid : Cursor} {name : String}
    (hname : c.here.lexeme = .name name) {statement : Statement}
    (hrun : statements inner c = .ok ([statement], mid)) (token : Token) (budget : List Token)
    (done : List (List Statement)) :
    collectWithin more item (token :: budget) done c =
      collectWithin more item budget ([statement] :: done) mid := by
  refine (bind_run (h.more c name hname)).trans ?_
  rw [← h.item c name hname] at hrun
  exact bind_run hrun

/-- In a block there is another statement where the block does not end. -/
theorem turns_block (inner : Inner) :
    Turns inner (do return !((← at? .dedent) || (← at? .finish))) (statements inner) := by
  refine ⟨fun c name hname => ?_, fun c name hname => rfl⟩
  have hdedent : c.here.lexeme ≠ .dedent := by rw [hname]; nofun
  have hfinish : c.here.lexeme ≠ .finish := by rw [hname]; nofun
  exact (bind_run (at?_of_ne hdedent)).trans (bind_run (at?_of_ne hfinish))

/-- In a script there is another statement where the script does not end. -/
theorem turns_script (inner : Inner) :
    Turns inner (do return !(← at? .finish))
      (do if ← eat .newline then return [] else statements inner) := by
  refine ⟨fun c name hname => ?_, fun c name hname => ?_⟩
  · have hfinish : c.here.lexeme ≠ .finish := by rw [hname]; nofun
    exact bind_run (at?_of_ne hfinish)
  · have hnewline : c.here.lexeme ≠ .newline := by rw [hname]; nofun
    exact bind_run (eat_of_ne hnewline)

end Turns

theorem flatten_singletons {α : Type} (as : List α) : (as.map fun a => [a]).flatten = as := by
  induction as with
  | nil => rfl
  | cons a as ih => exact congrArg (a :: ·) ih

theorem items_loop (line : Nat) (target : Name) (targets : List Name) (source : Variable)
    (body : Block) :
    (Outline.loop target targets source body).items line = (.name "for", some line) ::
      (placedOn line (commas ((target :: targets).map fun name => [.word name.toWord])) ++
        (.name "in", some line) :: (.name source.text, some line) :: (.mark .colon, some line) ::
          (.newline, some line) :: body.items (line + 1)) := by
  simp [Outline.items, lineItems, loopLine, Line.pieces, placedOn, Piece.lexeme]

theorem items_define (line : Nat) (name : Name) (parameters : List (Name × Option Variable))
    (body : Block) :
    (Outline.define name parameters body).items line = (.name "def", some line) ::
      (.name name.text, some line) :: (.mark .leftParen, some line) ::
        (placedOn line (commas (parameters.map parameterPieces)) ++
          (.mark .rightParen, some line) :: (.mark .colon, some line) ::
            (.newline, some line) :: body.items (line + 1)) := by
  simp [Outline.items, lineItems, defineLine, Line.pieces, placedOn, Piece.lexeme]

/-- A statement is read from its lines. -/
def Outline.IsRead (o : Outline) : Prop :=
  ∀ (inner : Inner) (line : Nat) (c rest : Cursor), inner.Roomy (o.depth + 1) →
    c.Holds (o.items line) rest → Detached rest.here.lexeme →
    statements inner c = .ok ([o.statement line], rest)

/-- Statements are read from their lines, in turns. -/
theorem outlines_run {inner : Inner} {more : Parser Bool} {item : Parser (List Statement)}
    (hturns : Turns inner more item) {os : List Outline} (hos : ∀ o ∈ os, o.IsRead)
    (hinner : inner.Roomy (outlineDepth os + 1)) {line : Nat} {c rest : Cursor}
    (hc : c.Holds (outlineItems line os) rest) (hrest : Detached rest.here.lexeme)
    (hmore : more rest = .ok (false, rest)) (budget : List Token)
    (hbudget : (outlineItems line os).length < budget.length) (done : List (List Statement)) :
    collectWithin more item budget done c =
      .ok (done.reverse ++ (outlineStatements line os).map fun s => [s], rest) := by
  induction os generalizing line c budget done with
  | nil =>
    obtain rfl := hc.spells.eq_of_nil
    cases budget with
    | nil => cases hbudget
    | cons token budget =>
      rw [outlineStatements, List.map_nil, List.append_nil]
      exact bind_run hmore
  | cons o os ih =>
    obtain ⟨ho, hos⟩ := List.forall_mem_cons.mp hos
    obtain ⟨name, items, hitems, hname⟩ := o.opens line
    obtain ⟨mid, hfirst, hothers⟩ := hc.split
    have hlength : (outlineItems (line + o.height) os).length + 1 ≤
        (outlineItems line (o :: os)).length := by
      rw [outlineItems, hitems, List.length_append, List.length_cons]
      omega
    have hmid : Detached mid.here.lexeme := by
      cases os with
      | nil =>
        obtain rfl := hothers.spells.eq_of_nil
        exact hrest
      | cons o' os =>
        obtain ⟨name', items', hitems', hname'⟩ := o'.opens (line + o.height)
        rw [outlineItems, hitems', List.cons_append] at hothers
        rw [hothers.here]
        exact hname'
    have hstatement := ho inner line c mid (hinner.of_le (by rw [outlineDepth]; omega)) hfirst hmid
    have hhere : c.here.lexeme = .name name := by
      rw [hitems] at hfirst
      exact hfirst.here
    cases budget with
    | nil => cases hbudget
    | cons token budget =>
      have hothers := ih hos (hinner.of_le (by rw [outlineDepth]; omega)) hothers budget
        (by rw [List.length_cons] at hbudget; omega) ([o.statement line] :: done)
      rw [hturns.step hhere hstatement, hothers, List.reverse_cons, List.append_assoc]
      rfl

mutual

theorem Outline.isRead : (o : Outline) → o.IsRead
  | .simple statement => fun _ _ _ _ hinner hc _ => statement.run hinner hc
  | .branch condition body arms => by
    intro inner line c rest hinner hc hrest
    have hline : c.here.position.line = line := hc.line
    obtain ⟨c₁, hif, hc⟩ := hc.head
    obtain ⟨c₂, hcondition, hc⟩ := hc.head
    obtain ⟨c₃, hbody, harms⟩ := (show c₂.Holds (((.mark .colon, some line) ::
      (.newline, some line) :: body.items (line + 1)) ++ arms.items (line + 1 + body.height)) rest
      from hc).split
    have htest := test_run hinner condition hcondition (hbody.spells.stops rfl 0)
    have hinner' : inner.Roomy (arms.depth + 1) := hinner.of_le (by rw [Outline.depth]; omega)
    obtain ⟨closer, hcloser, -, hblock⟩ := hinner
    have hbody' := body.run (hcloser.of_le (by rw [Outline.depth]; omega)) hbody
    rw [← hblock] at hbody'
    obtain ⟨mid, hmore, helse⟩ := arms.run c₃.tokens [] hinner' harms hrest harms.length_tokens
    have hguarded : branchAction.guarded inner c₁ =
        .ok ((.name condition.text, body.statements (line + 1)), c₃) :=
      (bind_run htest).trans (bind_run hbody')
    have hcollect : collect (eatKeyword "elif") (branchAction.guarded inner) c₃ =
        .ok (arms.branches (line + 1 + body.height), mid) := hmore
    have haction : branchAction inner c₁ = .ok (.branch
        ((.name condition.text, body.statements (line + 1)) ::
          arms.branches (line + 1 + body.height))
        (arms.otherwise (line + 1 + body.height)), rest) :=
      (bind_run hguarded).trans ((bind_run hcollect).trans (helse _))
    unfold statements
    rw [line_bind, peek_bind, hif.here, hline]
    exact (advance_bind hif).trans (bind_run haction)
  | .loop target targets source body => by
    intro inner line c rest hinner hc hrest
    have hline : c.here.position.line = line := hc.line
    rw [items_loop] at hc
    obtain ⟨c₁, hfor, hc⟩ := hc.head
    obtain ⟨c₂, htargets, hc⟩ := hc.split
    obtain ⟨c₃, hin, hc⟩ := hc.head
    obtain ⟨c₄, hsource, hc⟩ := hc.head
    have htargets := htargets.spells
    rw [lexemes_placedOn, lexemes_commas, List.map_map] at htargets
    have hfree : ∀ name ∈ (target :: targets).map (·.text), isKeyword name = false := by
      intro name hname
      obtain ⟨n, -, rfl⟩ := List.mem_map.mp hname
      exact n.free
    have hseparated : c₁.Spells
        (separated (((target :: targets).map (·.text)).map ([.name ·]))) c₂ := by
      rw [List.map_map]
      exact htargets
    have hnames : loopTargets c₁ = .ok ((target :: targets).map (·.text), c₂) :=
      loopTargets_run (List.cons_ne_nil _ _) hfree hseparated hin.here
    have htest := testList_variable hinner source hsource (hc.spells.stops rfl 0)
      (hc.spells.here_ne nofun)
    obtain ⟨closer, hcloser, -, hblock⟩ := hinner
    have hbody := body.run hcloser hc
    rw [← hblock] at hbody
    rw [← hline]
    exact statements_for hfor hnames hin htest (hline ▸ hbody)
  | .define name parameters body => by
    intro inner line c rest hinner hc hrest
    have hline : c.here.position.line = line := hc.line
    rw [items_define] at hc
    obtain ⟨c₁, hdef, hc⟩ := hc.head
    obtain ⟨c₂, hname, hc⟩ := hc.head
    obtain ⟨c₃, hopen, hc⟩ := hc.head
    obtain ⟨c₄, hparameters, hc⟩ := hc.split
    obtain ⟨c₅, hclose, hc⟩ := hc.head
    have hparameters := hparameters.spells
    rw [lexemes_placedOn, lexemes_commas, List.map_map] at hparameters
    have hlist := parameters_run hinner parameters (by
      rw [← List.map_congr_left fun p _ => lexemes_parameterPieces p]
      exact hparameters) hclose.here
    obtain ⟨closer, hcloser, -, hblock⟩ := hinner
    have hbody := body.run hcloser hc
    rw [← hblock] at hbody
    have haction : defineAction inner c₁ = .ok (.define name.text (parameters.map parameterOf)
        (body.statements (line + 1)), rest) :=
      (bind_run (reads_identifier name.free c₁ c₂ hname trivial)).trans
        ((bind_run (expect_run _ hopen)).trans ((bind_run hlist).trans
          ((bind_run (expect_run _ hclose)).trans (bind_run hbody))))
    unfold statements
    rw [line_bind, peek_bind, hdef.here, hline]
    exact (advance_bind hdef).trans (bind_run haction)

/-- A block is read from a colon and its lines. -/
theorem Block.run {closer : Inner} {header line : Nat} {c rest : Cursor} : (b : Block) →
    closer.Roomy b.depth →
    c.Holds ((.mark .colon, some header) :: (.newline, some header) :: b.items line) rest →
    suite closer c = .ok (b.statements line, rest)
  | .mk deeper first others, hcloser, hc => by
    obtain ⟨c₁, hcolon, hc⟩ := hc.head
    obtain ⟨c₂, hnewline, hc⟩ := hc.head
    obtain ⟨c₃, hindent, hc⟩ := hc.head
    obtain ⟨c₄, hbody, hclose⟩ := hc.split
    obtain ⟨last, hdedent, hnil⟩ := hclose.head
    obtain rfl : last = rest := hnil.spells.eq_of_nil
    have hend : (do return !((← at? .dedent) || (← at? .finish)) : Parser Bool) c₄ =
        .ok (false, c₄) :=
      (bind_run (at?_of_eq hdedent.here)).trans
        (bind_run (rfl : at? .finish c₄ = .ok (decide (c₄.here.lexeme = .finish), c₄)))
    have hdetached : Detached c₄.here.lexeme := by
      rw [hdedent.here]
      exact ⟨nofun, nofun⟩
    have hcollect : collect (do return !((← at? .dedent) || (← at? .finish))) (statements closer)
        c₃ = .ok ((outlineStatements line (first :: others)).map fun s => [s], c₄) :=
      outlines_run (turns_block closer)
        (List.forall_mem_cons.mpr ⟨first.isRead, outlines_areRead others⟩) hcloser hbody hdetached
        hend c₃.tokens hbody.length_tokens []
    have hflat : ((outlineStatements line (first :: others)).map fun s => [s]).flatten =
        first.statement line :: outlineStatements (line + first.height) others :=
      flatten_singletons _
    refine (bind_run (expect_run _ hcolon)).trans ((bind_run (eat_run hnewline)).trans
      ((bind_run (expect_run _ hindent)).trans ((bind_run hcollect).trans
        ((bind_run (eat_run hdedent)).trans ?_))))
    rw [hflat]
    rfl

/-- What follows the first block of `if` is read from its lines. -/
theorem Arms.run {inner : Inner} {line : Nat} {c rest : Cursor} (budget : List Token)
    (done : List (Expr × List Statement)) : (a : Arms) →
    inner.Roomy (a.depth + 1) → c.Holds (a.items line) rest → Detached rest.here.lexeme →
    (a.items line).length < budget.length →
    ∃ mid, collectWithin (eatKeyword "elif") (branchAction.guarded inner) budget done c =
        .ok (done.reverse ++ a.branches line, mid) ∧
      ∀ f : List Statement → Parser Action,
        (do if ← eatKeyword "else" then f (← inner.block) else f (← pure [])) mid =
          f (a.otherwise line) rest
  | .none, hinner, hc, hrest, hbudget => by
    obtain rfl := hc.spells.eq_of_nil
    cases budget with
    | nil => cases hbudget
    | cons token budget =>
      refine ⟨c, ?_, fun f => bind_run (eat_of_ne hrest.2)⟩
      rw [Arms.branches, List.append_nil]
      exact bind_run (eat_of_ne hrest.1)
  | .last body, hinner, hc, hrest, hbudget => by
    obtain ⟨c₁, hword, hc⟩ := hc.head
    have helse : c.Spells [.name "else"] c₁ := hword
    obtain ⟨closer, hcloser, -, hblock⟩ := hinner
    have hbody := body.run hcloser hc
    rw [← hblock] at hbody
    cases budget with
    | nil => cases hbudget
    | cons token budget =>
      have helif : c.here.lexeme ≠ .name "elif" := helse.here_ne (by decide)
      refine ⟨c, ?_, fun f => (bind_run (eat_run helse)).trans (bind_run hbody)⟩
      rw [Arms.branches, List.append_nil]
      exact bind_run (eat_of_ne helif)
  | .elif condition body arms, hinner, hc, hrest, hbudget => by
    obtain ⟨c₁, helif, hc⟩ := hc.head
    obtain ⟨c₂, hcondition, hc⟩ := hc.head
    obtain ⟨c₃, hbody, harms⟩ := (show c₂.Holds (((.mark .colon, some line) ::
      (.newline, some line) :: body.items (line + 1)) ++ arms.items (line + 1 + body.height)) rest
      from hc).split
    have htest := test_run hinner condition hcondition (hbody.spells.stops rfl 0)
    have hinner' : inner.Roomy (arms.depth + 1) := hinner.of_le (by rw [Arms.depth]; omega)
    obtain ⟨closer, hcloser, -, hblock⟩ := hinner
    have hbody' := body.run (hcloser.of_le (by rw [Arms.depth]; omega)) hbody
    rw [← hblock] at hbody'
    have hguarded : branchAction.guarded inner c₁ =
        .ok ((.name condition.text, body.statements (line + 1)), c₃) :=
      (bind_run htest).trans (bind_run hbody')
    cases budget with
    | nil => cases hbudget
    | cons token budget =>
      have hlength : (arms.items (line + 1 + body.height)).length < budget.length := by
        rw [Arms.items, List.length_append, List.length_append, List.length_cons] at hbudget
        have hheader : 0 < (lineItems line (branchLine 0 elifWord condition)).length :=
          Nat.succ_pos _
        omega
      obtain ⟨mid, hmore, hotherwise⟩ := arms.run budget
        ((.name condition.text, body.statements (line + 1)) :: done) hinner' harms hrest hlength
      refine ⟨mid, ?_, hotherwise⟩
      refine (bind_run (eat_run helif)).trans ((bind_run hguarded).trans (hmore.trans ?_))
      rw [List.reverse_cons, List.append_assoc]
      rfl

/-- Each of some statements is read from its lines. -/
theorem outlines_areRead : (os : List Outline) → ∀ o ∈ os, o.IsRead
  | [] => nofun
  | o :: os => List.forall_mem_cons.mpr ⟨o.isRead, outlines_areRead os⟩

end

/-! ## Scripts -/

/-- With room for its blocks a script is read from its lines. -/
theorem wholeScript_outlines {inner : Inner} {os : List Outline}
    (hinner : inner.Roomy (outlineDepth os + 1)) {line : Nat} {c rest : Cursor}
    (hc : c.Holds (outlineItems line os) rest) (hfinish : rest.here.lexeme = .finish) :
    wholeScript inner c = .ok (outlineStatements line os, rest) := by
  have hdetached : Detached rest.here.lexeme := by
    rw [hfinish]
    exact ⟨nofun, nofun⟩
  have hcollect : collect (do return !(← at? .finish))
      (do if ← eat .newline then return [] else statements inner) c =
      .ok ((outlineStatements line os).map fun s => [s], rest) :=
    outlines_run (turns_script inner) (outlines_areRead os) hinner hc hdetached
      (bind_run (at?_of_eq hfinish)) c.tokens hc.length_tokens []
  refine (bind_run hcollect).trans ?_
  rw [flatten_singletons]
  rfl

/-- **The statements of a script are those of its lines.** A script whose expressions are variables,
    written with each block on the lines below its header and indented by as much as one likes, is
    read as the statements that were written, with their lines; or it is refused for its nesting,
    but only if its blocks are nested as deeply as constructs may be. -/
theorem parseScript_outlines (spacing : Spacing) (ended : Bool) (os : List Outline) :
    let source := String.ofList (spacing.text ended (outlineLines 0 os))
    parseScript source = .ok (outlineStatements 1 os) ∨
      (∃ position, parseScript source = .error ⟨position, .nesting⟩) ∧
        maxNesting ≤ outlineDepth os := by
  obtain ⟨tokens, htokens, hstands⟩ :=
    tokenize_text spacing ended (outlines_closed 0 os) (layout_outlines os)
  obtain ⟨first, ahead, position, rfl, hholds⟩ := Cursor.Holds.of_forall₂ _ hstands
  have hparse : parseScript (String.ofList (spacing.text ended (outlineLines 0 os))) =
      parseTokens (first :: ahead) := by
    unfold parseScript
    rw [htokens]
    rfl
  have hread {room : Nat} (hroom : outlineDepth os < room) :
      parseTokensWithin room (first :: ahead) = .ok (outlineStatements 1 os) := by
    have hinner := (Inner.roomy_ofRoom (ahead.length + 1) room).of_le hroom
    rw [parseTokensWithin, StateT.run, wholeScript_outlines hinner hholds rfl]
    rfl
  dsimp only
  rw [hparse]
  rcases Nat.lt_or_ge (outlineDepth os) maxNesting with hlt | hge
  · exact Or.inl (hread hlt)
  · -- with more room it is read, so with the room that there is it is read or refused
    have hcut := (cut_wholeScript (Inner.cut_ofRoom (ahead.length + 1)
      (Nat.le_succ_of_le hge) (Nat.le_refl maxNesting))).run ⟨first, ahead⟩
    rcases hcut with hnesting | ⟨heq, -⟩
    · exact Or.inr ⟨hnesting, hge⟩
    · exact Or.inl (heq.trans (hread (Nat.lt_succ_self _)))

end Monorepo.Script
