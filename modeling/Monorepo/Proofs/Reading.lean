import Monorepo.Proofs.Brackets
import Monorepo.Proofs.Nesting

/-!
# Reading what was written down

Reading the tokens of an expression gives the expression back, if the parser has a unit of room for
each of them: a link of a chain takes one unit, as do brackets and operators in front, and each of
these is a token at least. With less room than that the same parser may only refuse.
-/

namespace Monorepo.Script

open Monorepo.Script.Parser

/-! ## Links -/

/-- A link behind a left operand is read one unit of room further in: the operator, the right
    operand and then the tail. -/
def IsLink (level : Nat) (op : List Lexeme) (node : Expr → Expr → Expr) : Prop :=
  ∀ (closer clauses : Inner) (left : Expr) (c c' : Cursor), c.Spells op c' →
    starts (level + 1) c'.here.lexeme = true →
    tailAt { closer.deeper with clause := disjunction clauses } level left c =
      (parserAt closer (level + 1) >>= fun right => tailAt closer level (node left right)) c'

theorem IsLink.leads {level : Nat} {first : Lexeme} {more : List Lexeme}
    {node : Expr → Expr → Expr} (hlink : IsLink level (first :: more) node)
    (hchains : HasChains level) (hfirst : Stops (level + 1) first) {l r : Expr} (hl : l.Readable)
    (hr : r.Readable) (hspells : r.Spellable) {n : Nat} {inner : Inner} (hinner : inner.Ample n)
    (hn : (l.render level ++ (first :: more ++ r.render (level + 1))).length ≤ n) :
    LeadsOn level n inner (l.render level ++ (first :: more ++ r.render (level + 1)))
      (node l r) := by
  intro c rest hc hrest
  have hlength : (l.render level ++ (first :: more ++ r.render (level + 1))).length =
      (l.render level).length + more.length + (r.render (level + 1)).length + 1 := by
    simp only [List.length_append, List.length_cons]
    omega
  obtain ⟨mid, hleft, hc⟩ := hc.split
  obtain ⟨behind, hop, hright⟩ := hc.split
  obtain ⟨inner', hinner', heq⟩ := hl.leads hchains hinner (by omega) c mid hleft (by
    rw [hop.here]
    exact hfirst)
  obtain ⟨closer, clauses, hcloser, -, rfl⟩ := hinner'.exists_closer (by omega)
  refine ⟨closer, hcloser.of_le (by omega), ?_⟩
  rw [heq, hlink closer clauses l mid behind hop (Expr.starts_here hspells hright)]
  have hlevel : level + 1 ≤ 9 := hchains.lt
  exact bind_run (hr.reads hlevel hcloser (by omega) behind rest hright hrest)

theorem isLink_either : IsLink 1 [.name "or"] .either :=
  fun _ _ _ _ _ hc _ => bind_run (eat_run hc)

theorem isLink_both : IsLink 2 [.name "and"] .both :=
  fun _ _ _ _ _ hc _ => bind_run (eat_run hc)

theorem isLink_arithmetic (op : ArithmeticOp) :
    IsLink op.level [.mark op.mark] (.arithmetic op) := by
  intro closer clauses left c c' hc _
  cases hc with
  | cons hc =>
    obtain rfl := hc.eq_of_nil
    cases op <;> rfl

/-- An `is` with no `not` behind it. -/
theorem comparisonOp_same {c : Cursor} (hhere : c.here.lexeme = .name "is")
    (hnext : c.ahead.head?.map Token.lexeme ≠ some (.name "not")) :
    comparisonOp c = .ok (some (.same, 1), c) := by
  unfold comparisonOp
  rw [peek_bind, peekNext_bind]
  generalize c.here.lexeme = lexeme at hhere
  generalize c.ahead.head?.map Token.lexeme = next at hnext
  split
  case h_8 => exact absurd rfl hnext
  case h_9 => rfl
  case h_11 => simp_all
  all_goals simp at hhere

theorem comparisonOp_lexemes (op : ComparisonOp) {c c' : Cursor} (hc : c.Spells op.lexemes c')
    (hstart : starts 5 c'.here.lexeme = true) :
    comparisonOp c = .ok (some (op, op.lexemes.length), c) := by
  cases op with
  | same =>
    cases hc with
    | cons hc =>
      obtain rfl := hc.eq_of_nil
      refine comparisonOp_same rfl fun heq => ?_
      have hkeyword : isKeyword "not" = true := by decide
      exact not_keyword_of_starts hstart hkeyword (Or.inr (by decide)) (Option.some.inj heq)
  | notWithin | notSame =>
    cases hc with
    | cons hc => cases hc with
      | cons hc => rfl
  | _ =>
    obtain ⟨position, token, ahead, rfl, rfl⟩ := hc.single
    rfl

theorem isLink_compare (op : ComparisonOp) : IsLink 4 op.lexemes (.compare op) := by
  intro closer clauses left c c' hc hstart
  refine (bind_run (comparisonOp_lexemes op hc hstart)).trans ?_
  cases op with
  | notWithin | notSame =>
    cases hc with
    | cons hc => cases hc with
      | cons hc =>
        obtain rfl := hc.eq_of_nil
        rfl
  | _ =>
    obtain ⟨position, token, ahead, rfl, rfl⟩ := hc.single
    rfl

/-! ## Operators in front, and conditions -/

theorem factor_sign {op : UnaryOp} (hop : op ≠ .not) {inner : Inner} {c c' : Cursor}
    (h : c.Spells [op.lexeme] c') :
    factor inner c = (inner.factor >>= fun operand => pure (.unary op operand)) c' := by
  cases op with
  | not => exact absurd rfl hop
  | minus | plus =>
    obtain ⟨position, token, ahead, rfl, rfl⟩ := h.single
    rfl

theorem reads_unary (op : UnaryOp) {operand : Expr} (h : operand.Readable) :
    (Expr.unary op operand).ReadsBody := by
  intro n inner hinner hn c rest hc hrest
  change (op.lexeme :: operand.render op.level).length ≤ n at hn
  change c.Spells (op.lexeme :: operand.render op.level) rest at hc
  rw [List.length_cons] at hn
  obtain ⟨closer, clauses, hcloser, -, rfl⟩ := hinner.exists_closer (by omega)
  obtain ⟨mid, hop, hc⟩ := hc.head
  have hlevel : op.level ≤ 9 := by cases op <;> decide
  have hoperand := h.reads hlevel hcloser (by omega) mid rest hc hrest
  cases op with
  | not => exact (bind_run (eat_run hop)).trans (bind_run hoperand)
  | minus | plus =>
    change factor _ c = _
    rw [factor_sign (by nofun) hop]
    exact bind_run hoperand

theorem reads_conditional {condition positive negative : Expr} (hc : condition.Readable)
    (hp : positive.Readable) (hspell : positive.Spellable) (hn : negative.Readable) :
    (Expr.conditional condition positive negative).ReadsBody := by
  intro n inner hinner hlength c rest hspells hrest
  rw [Expr.body, ← Expr.render, ← Expr.render] at hlength hspells
  simp only [List.append_assoc, List.cons_append, List.length_append, List.length_cons]
    at hlength hspells
  obtain ⟨c₁, hpositive, hspells⟩ := hspells.split
  obtain ⟨c₂, hif, hspells⟩ := hspells.head
  obtain ⟨c₃, hcondition, hspells⟩ := hspells.split
  obtain ⟨c₄, helse, hnegative⟩ := hspells.head
  have hlambda : c.here.lexeme ≠ .name "lambda" :=
    ne_of_starts (Expr.starts_here hspell hpositive) (by decide)
  have hpositive := hp.reads (by decide) hinner (by omega) c c₁ hpositive (by
    rw [hif.here]
    exact fun g hg => by cases hg; decide)
  have hcondition := hc.reads (by decide) hinner (by omega) c₂ c₃ hcondition (helse.stops rfl 1)
  have hnegative := hn.test hinner (by omega) c₄ rest hnegative hrest
  exact (bind_run (at?_of_ne hlambda)).trans ((bind_run hpositive).trans
    ((bind_run (eat_run hif)).trans ((bind_run hcondition).trans
      ((bind_run (expect_run _ helse)).trans (bind_run hnegative)))))

/-! ## Calls, attributes and subscripts -/

section Trailers

variable {closer clauses : Inner} {object : Expr} {c c' : Cursor}

theorem trailers_leftParen (h : c.Spells [.mark .leftParen] c') :
    trailers { closer.deeper with clause := disjunction clauses } object c =
      (callArguments closer >>= fun arguments => trailers closer (.call object arguments)) c' := by
  obtain ⟨position, token, ahead, rfl, rfl⟩ := h.single
  rfl

theorem trailers_dot (h : c.Spells [.mark .dot] c') :
    trailers { closer.deeper with clause := disjunction clauses } object c =
      (identifier >>= fun name => trailers closer (.attribute object name)) c' := by
  obtain ⟨position, token, ahead, rfl, rfl⟩ := h.single
  rfl

theorem trailers_leftBracket (h : c.Spells [.mark .leftBracket] c')
    (hcolon : c'.here.lexeme ≠ .mark .colon) :
    trailers { closer.deeper with clause := disjunction clauses } object c =
      (do
        let index ← testList closer
        if ← at? (.mark .colon) then fail .slice
        expectMark .rightBracket
        trailers closer (.subscript object index)) c' := by
  cases h with
  | cons h =>
    obtain rfl := h.eq_of_nil
    rename_i position token ahead
    change (do
      if ← at? (.mark .colon) then fail .slice
      let index ← testList closer
      if ← at? (.mark .colon) then fail .slice
      expectMark .rightBracket
      trailers closer (.subscript object index) : Parser Expr) ⟨token, ahead⟩ = _
    exact bind_run (at?_of_ne hcolon)

/-- An expression where a tuple needs no parentheses is read as it stands elsewhere. -/
theorem testList_run {e : Expr} {inner : Inner} (h : inner.test c = .ok (e, c'))
    (hcomma : c'.here.lexeme ≠ .mark .comma) : testList inner c = .ok (e, c') :=
  (bind_run h).trans (bind_run (at?_of_ne hcomma))

/-! ### Arguments -/

theorem argument_positional {inner : Inner} (hstart : starts 0 c.here.lexeme = true)
    (hnext : c.ahead.head?.map Token.lexeme ≠ some (.mark .assign)) :
    argument inner c = argument.positional inner c := by
  unfold argument
  rw [peek_bind, peekNext_bind]
  generalize c.here.lexeme = lexeme at hstart
  generalize c.ahead.head?.map Token.lexeme = next at hnext
  split
  · cases hstart
  · cases hstart
  · exact absurd rfl hnext
  · rfl

theorem argument_keyword {inner : Inner} {name : String} (hname : isKeyword name = false)
    (h : c.Spells [.name name, .mark .assign] c') :
    argument inner c = (inner.test >>= fun value => pure (.keyword name value)) c' := by
  cases h with
  | cons h => cases h with
    | cons h =>
      obtain rfl := h.eq_of_nil
      unfold argument
      rw [peek_bind, peekNext_bind]
      dsimp only [List.head?, Option.map]
      rw [hname]
      rfl

theorem argument_star {inner : Inner} (h : c.Spells [.mark .star] c') :
    argument inner c = (inner.test >>= fun value => pure (.spread value)) c' := by
  obtain ⟨position, token, ahead, rfl, rfl⟩ := h.single
  rfl

theorem argument_doubleStar {inner : Inner} (h : c.Spells [.mark .doubleStar] c') :
    argument inner c = (inner.test >>= fun value => pure (.spreadKeywords value)) c' := by
  obtain ⟨position, token, ahead, rfl, rfl⟩ := h.single
  rfl

/-- What stands behind the first token of an expression is no `=`. -/
theorem next_ne_assign {e : Expr} (he : e.Spellable) {rest : Cursor} (hc : c.Spells e.body rest)
    (hrest : rest.here.lexeme ≠ .mark .assign) :
    c.ahead.head?.map Token.lexeme ≠ some (.mark .assign) := by
  obtain ⟨first, second, more, heq, -, hsecond⟩ :=
    e.opens_body he rest.here.lexeme (rest.ahead.map Token.lexeme) hrest
  have htokens : c.tokens.map Token.lexeme = first :: second :: more := hc.map_tokens.trans heq
  have hahead : c.ahead.map Token.lexeme = second :: more := (List.cons.inj htokens).2
  rw [← List.head?_map, hahead]
  exact fun h => hsecond (Option.some.inj h)

theorem reads_argument {a : Argument} (h : a.value.Readable) (hspell : a.value.Spellable)
    (hname : ∀ name value, a = .keyword name value → isKeyword name = false) {n : Nat}
    {inner : Inner} (hinner : inner.Ample n) (hn : a.body.length < n) :
    Reads (argument inner) (fun lexeme => lexeme = .mark .comma ∨ lexeme = .mark .rightParen)
      a.body a := by
  intro c rest hc hrest
  have hne {lexeme : Lexeme} (hcomma : lexeme ≠ .mark .comma)
      (hclose : lexeme ≠ .mark .rightParen) : rest.here.lexeme ≠ lexeme := by
    rintro rfl
    exact hrest.elim hcomma hclose
  have hstops : Stops 0 rest.here.lexeme := by
    rcases hrest with heq | heq <;> rw [heq] <;> exact stops_of_grip_none rfl 0
  have hlength : a.value.body.length < n := by
    cases a <;> simp only [Argument.body, List.length_cons] at hn <;>
      simp only [Argument.value] <;> omega
  cases a with
  | positional e =>
    rw [Argument.body] at hc
    rw [argument_positional (Expr.starts_here hspell (e.body_eq_render ▸ hc))
      (next_ne_assign hspell hc (hne (by simp) (by simp)))]
    exact (bind_run (h.test hinner hlength c rest hc hstops)).trans
      (bind_run (at?_of_ne (hne (by simp) (by simp))))
  | keyword name e =>
    obtain ⟨mid, hkeyword, hvalue⟩ :=
      (show c.Spells ([.name name, .mark .assign] ++ e.body) rest from hc).split
    rw [argument_keyword (hname name e rfl) hkeyword]
    exact bind_run (h.test hinner hlength mid rest hvalue hstops)
  | spread e =>
    rw [Argument.body] at hc
    obtain ⟨mid, hstar, hvalue⟩ := hc.head
    rw [argument_star hstar]
    exact bind_run (h.test hinner hlength mid rest hvalue hstops)
  | spreadKeywords e =>
    rw [Argument.body] at hc
    obtain ⟨mid, hstar, hvalue⟩ := hc.head
    rw [argument_doubleStar hstar]
    exact bind_run (h.test hinner hlength mid rest hvalue hstops)

theorem argument_ne_rightParen {a : Argument} (hspell : a.value.Spellable) {rest : Cursor}
    (hc : c.Spells a.body rest) : c.here.lexeme ≠ .mark .rightParen := by
  cases a with
  | positional e => exact here_ne_of_starts hspell rfl hc
  | keyword | spread | spreadKeywords =>
    rw [Argument.body] at hc
    rw [hc.here]
    nofun

/-! ### Links of a chain of trailers -/

/-- What is behind an object, up to the tail that the rest of the chain is read by. -/
theorem leads_trailer {object : Expr} (h : object.Readable) {first : Lexeme}
    (hfirst : grip first = some 8) {more : List Lexeme} {e : Expr} {n : Nat} {inner : Inner}
    (hinner : inner.Ample n) (hn : (object.render 8 ++ first :: more).length ≤ n)
    (hlink : ∀ closer clauses : Inner, closer.Ample (more.length) → ∀ c rest : Cursor,
      c.Spells (first :: more) rest →
      trailers { closer.deeper with clause := disjunction clauses } object c =
        trailers closer e rest) :
    LeadsOn 8 n inner (object.render 8 ++ first :: more) e := by
  intro c rest hc _
  rw [List.length_append, List.length_cons] at hn
  obtain ⟨mid, hobject, hc⟩ := hc.split
  obtain ⟨inner', hinner', heq⟩ := h.leads (by simp [HasChains]) hinner (by omega) c mid hobject (by
    rw [hc.here]
    exact fun g hg => by
      rw [hfirst] at hg
      cases hg
      decide)
  obtain ⟨closer, clauses, hcloser, -, rfl⟩ := hinner'.exists_closer (by omega)
  refine ⟨closer, hcloser.of_le ?_, ?_⟩
  · rw [List.length_append, List.length_cons]
    omega
  · exact heq.trans (hlink closer clauses (hcloser.of_le (by omega)) mid rest hc)

theorem leads_attribute {object : Expr} {name : String} (h : object.Readable)
    (hname : isKeyword name = false) : (Expr.attribute object name).LeadsBody := by
  intro n inner _ hinner hn
  rw [Expr.body, ← Expr.render] at hn ⊢
  refine leads_trailer h rfl hinner hn fun closer clauses _ c rest hc => ?_
  obtain ⟨mid, hdot, hc⟩ := hc.head
  rw [trailers_dot hdot]
  exact bind_run (reads_identifier hname mid rest hc trivial)

theorem leads_subscript {object index : Expr} (h : object.Readable) (hindex : index.Readable)
    (hspell : index.Spellable) : (Expr.subscript object index).LeadsBody := by
  intro n inner _ hinner hn
  rw [Expr.body, ← Expr.render, List.append_assoc, List.cons_append] at hn ⊢
  refine leads_trailer h rfl hinner hn fun closer clauses hcloser c rest hc => ?_
  obtain ⟨mid, hopen, hc⟩ := hc.head
  obtain ⟨last, hbody, hclose⟩ := hc.split
  rw [List.length_append, List.length_singleton] at hcloser
  have hcomma : last.here.lexeme ≠ .mark .comma := hclose.here_ne (by simp)
  have hcolon : last.here.lexeme ≠ .mark .colon := hclose.here_ne (by simp)
  have htest := hindex.test hcloser (Nat.lt_succ_self _) mid last hbody (hclose.stops rfl 0)
  rw [trailers_leftBracket hopen (here_ne_of_starts hspell rfl hbody)]
  exact (bind_run (testList_run htest hcomma)).trans ((bind_run (at?_of_ne hcolon)).trans
    (bind_run (expect_run _ hclose)))

theorem leads_call {callee : Expr} {arguments : List Argument} (h : callee.Readable)
    (harguments : ∀ a ∈ arguments, a.value.Readable)
    (hspells : ∀ a ∈ arguments, a.value.Spellable)
    (hnames : ∀ name value, .keyword name value ∈ arguments → isKeyword name = false) :
    (Expr.call callee arguments).LeadsBody := by
  intro n inner _ hinner hn
  rw [Expr.body, ← Expr.render, argumentBodies_eq, inParens, List.cons_append] at hn ⊢
  refine leads_trailer h rfl hinner hn fun closer clauses hcloser c rest hc => ?_
  obtain ⟨mid, hopen, hc⟩ := hc.head
  obtain ⟨last, hbody, hclose⟩ := hc.split
  rw [List.length_append, List.length_singleton] at hcloser
  have hread : ∀ a ∈ arguments, Reads (argument closer)
      (fun lexeme => lexeme = .mark .comma ∨ lexeme = .mark .rightParen) a.body a := by
    intro a ha
    refine reads_argument (harguments a ha) (hspells a ha) ?_ hcloser
      (Nat.lt_succ_of_le (length_le_separated (List.mem_map.mpr ⟨a, ha, rfl⟩)))
    rintro name value rfl
    exact hnames name value ha
  have hlist := commaList_reads .rightParen hread
    (fun a ha c rest hc => argument_ne_rightParen (hspells a ha) hc) (Or.inl rfl) (Or.inr rfl)
    (by simp) mid last hbody hclose.here
  have hcall : callArguments closer mid = .ok (arguments, rest) :=
    (bind_run hlist).trans (bind_run (expect_run _ hclose))
  rw [trailers_leftParen hopen]
  exact bind_run hcall

end Trailers

/-! ## All expressions -/

/-- A link of a chain between two operands. -/
theorem IsLink.leadsBody {level : Nat} {first : Lexeme} {more : List Lexeme}
    {node : Expr → Expr → Expr} (hlink : IsLink level (first :: more) node)
    (hfirst : grip first = some level) {l r : Expr} (hlevel : (node l r).level = level)
    (hbody : (node l r).body = l.render level ++ (first :: more ++ r.render (level + 1)))
    (hl : l.Readable) (hr : r.Readable) (hspells : r.Spellable) : (node l r).LeadsBody := by
  intro n inner hchains hinner hn
  rw [hlevel] at hchains ⊢
  rw [hbody] at hn ⊢
  refine hlink.leads hchains (fun g hg => ?_) hl hr hspells hinner hn
  rw [hfirst] at hg
  cases hg
  exact Nat.lt_succ_self level

theorem grip_mark (op : ArithmeticOp) : grip (.mark op.mark) = some op.level := by
  cases op <;> rfl

theorem ComparisonOp.exists_lexemes (op : ComparisonOp) :
    ∃ first more, op.lexemes = first :: more ∧ grip first = some 4 := by
  cases op <;> exact ⟨_, _, rfl, rfl⟩

/-- **Every expression is read back.** -/
theorem Expr.readable {e : Expr} (he : e.Spellable) : e.Readable := by
  induction e using induction_parts with
  | step e ih =>
    have hpart (s : Step) (part : Expr) (hp : (s, part) ∈ e.parts) :
        part.Readable ∧ part.Spellable := ⟨ih _ hp (he.part hp), he.part hp⟩
    -- an expression of a level without chains is no left operand of that level
    have hbody (level : Nat) (hlevel : e.level = level) (hnone : ¬ HasChains level)
        (hreads : e.ReadsBody) : e.Readable :=
      ReadsBody.readable he hreads fun hchains => absurd (hlevel ▸ hchains) hnone
    have hchain (level : Nat) (hlevel : e.level = level) (hchains : HasChains level)
        (hleads : e.LeadsBody) : e.Readable :=
      ReadsBody.readable he (hleads.reads (hlevel ▸ hchains)) hleads
    cases e with
    | bool value =>
      refine hbody 9 rfl (by decide) (reads_leaf rfl rfl fun _ => atom_token fun _ _ => ?_)
      cases value <;> rfl
    | none | int | float | text =>
      exact hbody 9 rfl (by decide) (reads_leaf rfl rfl fun _ => atom_token fun _ _ => rfl)
    | name name =>
      exact hbody 9 rfl (by decide) (reads_leaf rfl rfl fun _ _ h => atom_name he.self h)
    | list items =>
      have hitems : ∀ e ∈ items, e.Readable ∧ e.Spellable := fun e he =>
        hpart _ e (List.mem_map.mpr ⟨e, he, rfl⟩)
      exact hbody 9 rfl (by decide)
        (reads_list (fun e he => (hitems e he).1) fun e he => (hitems e he).2)
    | tuple items =>
      have hitems : ∀ e ∈ items, e.Readable ∧ e.Spellable := fun e he =>
        hpart _ e (List.mem_map.mpr ⟨e, he, rfl⟩)
      exact hbody 9 rfl (by decide)
        (reads_tuple (fun e he => (hitems e he).1) fun e he => (hitems e he).2)
    | dict entries =>
      have hkey : ∀ entry ∈ entries, entry.1.Readable ∧ entry.1.Spellable := fun entry h =>
        hpart .inside _ (List.mem_flatMap.mpr ⟨entry, h, List.mem_cons_self⟩)
      have hvalue : ∀ entry ∈ entries, entry.2.Readable ∧ entry.2.Spellable := fun entry h =>
        hpart .inside _ (List.mem_flatMap.mpr ⟨entry, h,
          List.mem_cons_of_mem _ List.mem_cons_self⟩)
      exact hbody 9 rfl (by decide) (reads_dict
        (fun entry h => ⟨(hkey entry h).1, (hvalue entry h).1⟩) fun entry h => (hkey entry h).2)
    | comprehension element targets source condition =>
      have helement := hpart .inside element (by simp [parts])
      have hsource := hpart .clause source (by simp [parts])
      have hcondition : ∀ e ∈ condition, e.Readable := fun e h =>
        (hpart .clause e (by simp [parts, Option.mem_def.mp h])).1
      exact hbody 9 rfl (by decide) (reads_comprehension helement.1 helement.2 hsource.1
        hcondition he.self.1 he.self.2)
    | call callee arguments =>
      have harguments : ∀ a ∈ arguments, a.value.Readable ∧ a.value.Spellable := fun a h =>
        hpart _ a.value (List.mem_cons_of_mem _ (List.mem_map.mpr ⟨a, h, rfl⟩))
      exact hchain 8 rfl (by decide) (leads_call (hpart _ _ List.mem_cons_self).1
        (fun a h => (harguments a h).1) (fun a h => (harguments a h).2) he.self)
    | «attribute» object name =>
      exact hchain 8 rfl (by decide) (leads_attribute (hpart _ _ List.mem_cons_self).1 he.self)
    | subscript object index =>
      have hindex := hpart .inside index (by simp [parts])
      exact hchain 8 rfl (by decide)
        (leads_subscript (hpart _ _ List.mem_cons_self).1 hindex.1 hindex.2)
    | arithmetic op left right =>
      have hright := hpart .inside right (by simp [parts])
      exact hchain op.level rfl (by cases op <;> decide) ((isLink_arithmetic op).leadsBody
        (grip_mark op) rfl rfl (hpart _ _ List.mem_cons_self).1 hright.1 hright.2)
    | unary op operand =>
      exact hbody op.level rfl (by cases op <;> decide)
        (reads_unary op (hpart _ _ List.mem_cons_self).1)
    | compare op left right =>
      have hright := hpart .inside right (by simp [parts])
      obtain ⟨first, more, hop, hfirst⟩ := op.exists_lexemes
      have hlink := isLink_compare op
      rw [hop] at hlink
      refine hchain 4 rfl (by decide) (hlink.leadsBody hfirst rfl ?_
        (hpart _ _ List.mem_cons_self).1 hright.1 hright.2)
      rw [body, hop, List.append_assoc]
      rfl
    | both left right =>
      have hright := hpart .inside right (by simp [parts])
      exact hchain 2 rfl (by decide) (isLink_both.leadsBody rfl rfl rfl
        (hpart _ _ List.mem_cons_self).1 hright.1 hright.2)
    | either left right =>
      have hright := hpart .inside right (by simp [parts])
      exact hchain 1 rfl (by decide) (isLink_either.leadsBody rfl rfl rfl
        (hpart _ _ List.mem_cons_self).1 hright.1 hright.2)
    | conditional condition positive negative =>
      have hcondition := hpart .plain condition (by simp [parts])
      have hpositive := hpart .plain positive (by simp [parts])
      have hnegative := hpart .plain negative (by simp [parts])
      exact hbody 0 rfl (by decide)
        (reads_conditional hcondition.1 hpositive.1 hpositive.2 hnegative.1)

/-! ## Expressions as scripts -/

section Statements

variable {inner : Inner} {e : Expr} {c mid last : Cursor}

theorem simpleAction_of_starts (h : starts 0 c.here.lexeme = true) :
    simpleAction inner c = expressionAction inner c := by
  unfold simpleAction
  rw [peek_bind]
  generalize c.here.lexeme = lexeme at h
  split
  case h_7 => rfl
  all_goals exact absurd h (by decide)

theorem not_unsupported_of_starts {name : String} (h : starts 0 (.name name) = true) :
    unsupportedKeywords.contains name = false := by
  have hall : ∀ keyword ∈ unsupportedKeywords, starts 0 (.name keyword) = false := by decide
  refine Bool.eq_false_iff.mpr fun hmem => ?_
  rw [hall name (List.contains_iff_mem.mp hmem)] at h
  cases h

theorem statements_of_starts (h : starts 0 c.here.lexeme = true) :
    statements inner c = simpleLine inner c := by
  unfold statements
  rw [line_bind, peek_bind]
  generalize c.here.lexeme = lexeme at h
  split
  case h_4 =>
    rw [not_unsupported_of_starts h]
    rfl
  case h_5 => rfl
  all_goals exact absurd h (by decide)

/-- A statement on a line of its own. -/
theorem simpleLine_of_action {action : Action} (haction : simpleAction inner c = .ok (action, mid))
    (hnewline : mid.Spells [.newline] last) :
    simpleLine inner c = .ok ([.at c.here.position.line action], last) := by
  have hstatement : simpleStatement inner c = .ok (.at c.here.position.line action, mid) := by
    unfold simpleStatement
    rw [line_bind]
    exact bind_run haction
  have hsemicolon : mid.here.lexeme ≠ .mark .semicolon := hnewline.here_ne nofun
  have hmore : (do
      if ← eatMark .semicolon then return !((← at? .newline) || (← at? .finish))
      else return false : Parser Bool) mid = .ok (false, mid) :=
    bind_run (eat_of_ne hsemicolon)
  refine (bind_run hstatement).trans ((bind_run (collect_none hmore)).trans ?_)
  rw [peek_bind, hnewline.here, ← advance_run hnewline]
  rfl

theorem expressionAction_evaluate (he : testList inner c = .ok (e, mid))
    (hnewline : mid.Spells [.newline] last) :
    expressionAction inner c = .ok (.evaluate e, mid) := by
  refine (bind_run he).trans ?_
  rw [peek_bind, hnewline.here]
  rfl

/-- An expression on a line of its own is a statement. -/
theorem simpleLine_run (htest : inner.test c = .ok (e, mid))
    (hstart : starts 0 c.here.lexeme = true) (hnewline : mid.Spells [.newline] last) :
    simpleLine inner c = .ok ([.at c.here.position.line (.evaluate e)], last) := by
  have hcomma : mid.here.lexeme ≠ .mark .comma := hnewline.here_ne nofun
  have haction : simpleAction inner c = .ok (.evaluate e, mid) := by
    rw [simpleAction_of_starts hstart]
    exact expressionAction_evaluate (testList_run htest hcomma) hnewline
  exact simpleLine_of_action haction hnewline

/-- The statements of a script that is one line. -/
theorem wholeScript_of_line {block : List Statement}
    (hline : simpleLine inner c = .ok (block, last)) (hstart : starts 0 c.here.lexeme = true)
    (hfinish : last.here.lexeme = .finish) (htokens : 2 ≤ c.tokens.length) :
    wholeScript inner c = .ok (block, last) := by
  rw [← statements_of_starts hstart] at hline
  have hitem : (do if ← eat .newline then return [] else statements inner :
      Parser (List Statement)) c = .ok (block, last) :=
    (bind_run (eat_of_ne (ne_of_starts hstart rfl))).trans hline
  have hmore : (do return !(← at? .finish) : Parser Bool) c = .ok (true, c) :=
    bind_run (at?_of_ne (ne_of_starts hstart rfl))
  have hlast : (do return !(← at? .finish) : Parser Bool) last = .ok (false, last) :=
    bind_run (at?_of_eq hfinish)
  refine (bind_run (collect_one hmore hitem hlast htokens)).trans ?_
  rw [List.flatten_singleton]
  rfl

/-- The statements of a script that is one expression. -/
theorem wholeScript_run (htest : inner.test c = .ok (e, mid))
    (hstart : starts 0 c.here.lexeme = true) (hnewline : mid.Spells [.newline] last)
    (hfinish : last.here.lexeme = .finish) (htokens : 2 ≤ c.tokens.length) :
    wholeScript inner c = .ok ([.at c.here.position.line (.evaluate e)], last) :=
  wholeScript_of_line (simpleLine_run htest hstart hnewline) hstart hfinish htokens

end Statements

/-- With room for its tokens an expression is read back. -/
theorem parseTokensWithin_render {e : Expr} (he : e.Spellable) {first : Token}
    {ahead : List Token}
    (htokens : (first :: ahead).map Token.lexeme = e.render 0 ++ [.newline, .finish]) {room : Nat}
    (hroom : (e.render 0).length < room) :
    parseTokensWithin room (first :: ahead) = .ok [.at first.position.line (.evaluate e)] := by
  have hlength := congrArg List.length htokens
  rw [List.length_map, List.length_append, List.length_cons] at hlength
  obtain ⟨position, hspells⟩ := Cursor.Spells.of_map (e.render 0 ++ [.newline])
    (show _ = _ ++ [Lexeme.finish] by rw [htokens, List.append_assoc]; rfl)
  obtain ⟨mid, hbody, hnewline⟩ := hspells.split
  have hinner : (Inner.ofRoom (ahead.length + 1) room).Ample ((e.render 0).length + 1) :=
    Inner.ample_ofRoom hroom (by simp only [List.length_cons, List.length_nil] at hlength; omega)
  have htest := (Expr.readable he).test hinner
    (Nat.lt_succ_of_le (Nat.le_of_eq (congrArg List.length Expr.body_eq_render))) ⟨first, ahead⟩ mid
    (by rwa [Expr.body_eq_render]) (hnewline.stops rfl 0)
  have hrun := wholeScript_run htest (Expr.starts_here he hbody) hnewline rfl (by
    simp [Cursor.tokens] at hlength ⊢
    omega)
  rw [parseTokensWithin, StateT.run, hrun]
  rfl

/-- **Reading is the inverse of writing down.** The tokens of an expression, on a line of their own,
    are read as the expression, or refused for their nesting; the latter only if they are as many as
    constructs may be nested, or more, so never with forty tokens or less. -/
theorem parseTokens_render {e : Expr} (he : e.Spellable) {first : Token} {ahead : List Token}
    (htokens : (first :: ahead).map Token.lexeme = e.render 0 ++ [.newline, .finish]) :
    parseTokens (first :: ahead) = .ok [.at first.position.line (.evaluate e)] ∨
      (∃ position, parseTokens (first :: ahead) = .error ⟨position, .nesting⟩) ∧
        maxNesting ≤ (e.render 0).length := by
  rcases Nat.lt_or_ge (e.render 0).length maxNesting with hlt | hge
  · exact Or.inl (parseTokensWithin_render he htokens hlt)
  · -- with more room it is read, so with the room that there is it is read or refused
    have hread := parseTokensWithin_render he htokens (Nat.lt_succ_self _)
    have hcut := (cut_wholeScript (Inner.cut_ofRoom (ahead.length + 1)
      (Nat.le_succ_of_le hge) (Nat.le_refl maxNesting))).run ⟨first, ahead⟩
    rcases hcut with hnesting | ⟨heq, -⟩
    · exact Or.inr ⟨hnesting, hge⟩
    · exact Or.inl (heq.trans hread)

/-- The expression `f(x if y else None, key=-(a or b)) + 1 not in ([n for n in ns if n],)`. -/
def grouped : Expr :=
  .compare .notWithin
    (.arithmetic .add
      (.call (.name "f") [.positional (.conditional (.name "y") (.name "x") .none),
        .keyword "key" (.unary .minus (.either (.name "a") (.name "b")))]) (.int 1))
    (.tuple [.comprehension (.name "n") ["n"] (.name "ns") (some (.name "n"))])

/-- The tokens of `grouped`, on a line of their own. -/
def groupedTokens : List Token :=
  (grouped.render 0 ++ [Lexeme.newline, .finish]).map (⟨·, ⟨1, 1⟩⟩)

theorem parseTokens_render_grouped :
    grouped.Spellable ∧ groupedTokens.map Token.lexeme = grouped.render 0 ++ [.newline, .finish] ∧
      parseTokens groupedTokens = .ok [.at 1 (.evaluate grouped)] := by
  have leaf {e : Expr} (hnames : e.HasNames) (hparts : e.parts = []) : e.Spellable :=
    Expr.all_of_parts hnames (by rw [hparts]; nofun)
  have hname {name : String} (h : IsVariable name) : (Expr.name name).Spellable := leaf h rfl
  have hcall : (Expr.call (.name "f") [.positional (.conditional (.name "y") (.name "x") .none),
      .keyword "key" (.unary .minus (.either (.name "a") (.name "b")))]).Spellable := by
    refine Expr.all_call (fun name value h => ?_) (hname (by decide))
      (List.forall_mem_cons.mpr ⟨?_, List.forall_mem_singleton.mpr ?_⟩)
    · obtain ⟨rfl, -⟩ : name = "key" ∧ _ := by simpa using h
      decide
    · exact Expr.all_conditional trivial (hname (by decide)) (hname (by decide))
        (leaf trivial rfl)
    · exact Expr.all_unary trivial
        (Expr.all_link trivial rfl (hname (by decide)) (hname (by decide)))
  have htuple : (Expr.tuple [.comprehension (.name "n") ["n"] (.name "ns")
      (some (.name "n"))]).Spellable := by
    refine Expr.all_tuple trivial (List.forall_mem_singleton.mpr ?_)
    refine Expr.all_comprehension ⟨nofun, by decide⟩ (hname (by decide)) (hname (by decide)) ?_
    rintro _ ⟨⟩
    exact hname (by decide)
  have hspell : grouped.Spellable :=
    Expr.all_link trivial rfl (Expr.all_link trivial rfl hcall (leaf trivial rfl)) htuple
  have htokens : groupedTokens.map Token.lexeme = grouped.render 0 ++ [.newline, .finish] := by
    rw [groupedTokens, List.map_map]
    exact List.map_id _
  refine ⟨hspell, htokens, ?_⟩
  exact (parseTokens_render hspell htokens).resolve_right fun h => absurd h.2 (by decide)

end Monorepo.Script
