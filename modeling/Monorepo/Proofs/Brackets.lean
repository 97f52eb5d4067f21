import Monorepo.Proofs.Levels

/-!
# Items in brackets

Items are read one after another as long as a comma leads to a further one. From this come the
atoms that are made of tokens in brackets: lists, tuples, dictionaries and comprehensions.
-/

namespace Monorepo.Script

open Monorepo.Script.Parser

/-! ## Items with commas between them -/

section Items

variable {α : Type} {stop : Parser Bool} {item : Parser α} {F : α → List Lexeme}
  {follow : Lexeme → Prop}

/-- Whether a comma leads to a further item. -/
theorem comma_run {c c' : Cursor} (hc : c.Spells [.mark .comma] c') {b : Bool}
    (h : stop c' = .ok (b, c')) :
    (do if ← eatMark .comma then return !(← stop) else return false : Parser Bool) c =
      .ok (!b, c') :=
  (bind_run (eat_run hc)).trans (bind_run h)

theorem no_comma_run {c : Cursor} (h : c.here.lexeme ≠ .mark .comma) :
    (do if ← eatMark .comma then return !(← stop) else return false : Parser Bool) c =
      .ok (false, c) :=
  bind_run (eat_of_ne h)

/-- In front of further items there is a comma. -/
theorem follow_here {items : List α} {c rest : Cursor}
    (hc : c.Spells (items.flatMap fun a => .mark .comma :: F a) rest)
    (hcomma : follow (.mark .comma)) (hrest : follow rest.here.lexeme) : follow c.here.lexeme := by
  cases items with
  | nil =>
    obtain rfl := hc.eq_of_nil
    exact hrest
  | cons a items =>
    rw [List.flatMap_cons, List.cons_append] at hc
    rw [hc.here]
    exact hcomma

theorem length_le_flatMap (items : List α) :
    items.length ≤ (items.flatMap fun a => .mark .comma :: F a).length := by
  induction items with
  | nil => exact Nat.le_refl _
  | cons a items ih =>
    rw [List.flatMap_cons, List.length_append, List.length_cons, List.length_cons]
    omega

/-- Items are read up to where no comma leads to a further one. -/
theorem collectWithin_items {items : List α} (hitems : ∀ a ∈ items, Reads item follow (F a) a)
    (hstop : ∀ a ∈ items, ∀ c rest : Cursor, c.Spells (F a) rest → stop c = .ok (false, c))
    (hcomma : follow (.mark .comma)) {c last rest : Cursor}
    (hc : c.Spells (items.flatMap fun a => .mark .comma :: F a) last)
    (hlast : follow last.here.lexeme)
    (hend : (do if ← eatMark .comma then return !(← stop) else return false : Parser Bool) last =
      .ok (false, rest)) {budget : List Token} (hbudget : items.length < budget.length)
    (done : List α) :
    collectWithin (do if ← eatMark .comma then return !(← stop) else return false) item budget done
      c = .ok (done.reverse ++ items, rest) := by
  induction items generalizing c budget done with
  | nil =>
    obtain rfl := hc.eq_of_nil
    cases budget with
    | nil => cases hbudget
    | cons token budget =>
      rw [List.append_nil]
      exact bind_run hend
  | cons a items ih =>
    cases budget with
    | nil => cases hbudget
    | cons token budget =>
      obtain ⟨hitem, hitems⟩ := List.forall_mem_cons.mp hitems
      obtain ⟨hopen, hstop⟩ := List.forall_mem_cons.mp hstop
      rw [List.flatMap_cons, List.cons_append] at hc
      obtain ⟨behind, hseparator, hc⟩ := hc.head
      obtain ⟨mid, hfirst, hmore⟩ := hc.split
      have hmid := follow_here hmore hcomma hlast
      refine (bind_run (comma_run hseparator (hopen behind mid hfirst))).trans
        ((bind_run (hitem behind mid hfirst hmid)).trans ?_)
      rw [ih hitems hstop hmore (Nat.lt_of_succ_lt_succ hbudget) (a :: done),
        List.reverse_cons, List.append_assoc]
      rfl

theorem commaRest_items {items : List α} (hitems : ∀ a ∈ items, Reads item follow (F a) a)
    (hstop : ∀ a ∈ items, ∀ c rest : Cursor, c.Spells (F a) rest → stop c = .ok (false, c))
    (hcomma : follow (.mark .comma)) {c last rest : Cursor}
    (hc : c.Spells (items.flatMap fun a => .mark .comma :: F a) last)
    (hlast : follow last.here.lexeme)
    (hend : (do if ← eatMark .comma then return !(← stop) else return false : Parser Bool) last =
      .ok (false, rest)) : commaRest stop item c = .ok (items, rest) := by
  have hbudget : items.length < c.tokens.length := by
    have hlength := hc.length_tokens
    have hitems := length_le_flatMap (F := F) items
    have hlast : 0 < last.tokens.length := Nat.succ_pos _
    omega
  exact collectWithin_items hitems hstop hcomma hc hlast hend hbudget []

theorem commaRest_reads {items : List α} (hitems : ∀ a ∈ items, Reads item follow (F a) a)
    (hstop : ∀ a ∈ items, ∀ c rest : Cursor, c.Spells (F a) rest → stop c = .ok (false, c))
    (hcomma : follow (.mark .comma)) :
    Reads (commaRest stop item) (fun lexeme => follow lexeme ∧ lexeme ≠ .mark .comma)
      (items.flatMap fun a => .mark .comma :: F a) items := by
  intro c rest hc hrest
  exact commaRest_items hitems hstop hcomma hc hrest.1 (no_comma_run hrest.2)

/-- A comma behind the last item, or none. -/
def commaIf (closed : Bool) : List Lexeme := if closed then [.mark .comma] else []

/-- A comma may stand behind the last item, in front of what ends the list. -/
theorem commaRest_closed {items : List α} (hitems : ∀ a ∈ items, Reads item follow (F a) a)
    (hstop : ∀ a ∈ items, ∀ c rest : Cursor, c.Spells (F a) rest → stop c = .ok (false, c))
    (hcomma : follow (.mark .comma)) {closed : Bool} {c rest : Cursor}
    (hc : c.Spells ((items.flatMap fun a => .mark .comma :: F a) ++ commaIf closed) rest)
    (hrest : follow rest.here.lexeme) (hne : rest.here.lexeme ≠ .mark .comma)
    (hlast : stop rest = .ok (true, rest)) : commaRest stop item c = .ok (items, rest) := by
  obtain ⟨last, hspells, hclose⟩ := hc.split
  cases closed with
  | false =>
    obtain rfl := hclose.eq_of_nil
    exact commaRest_items hitems hstop hcomma hspells hrest (no_comma_run hne)
  | true =>
    have hfollow : follow last.here.lexeme := by
      rw [hclose.here]
      exact hcomma
    exact commaRest_items hitems hstop hcomma hspells hfollow (comma_run hclose hlast)

/-- A comma behind the last item. -/
theorem commaRest_trailing {c rest : Cursor} (hc : c.Spells [.mark .comma] rest)
    (hstop : stop rest = .ok (true, rest)) : commaRest stop item c = .ok ([], rest) :=
  bind_run (comma_run hc hstop)

theorem commaList_reads (close : Mark) {items : List α}
    (hitems : ∀ a ∈ items, Reads item follow (F a) a)
    (hopen : ∀ a ∈ items, ∀ c rest : Cursor, c.Spells (F a) rest → c.here.lexeme ≠ .mark close)
    (hcomma : follow (.mark .comma)) (hclose : follow (.mark close)) (hne : close ≠ .comma) :
    Reads (commaList (at? (.mark close)) item) (· = .mark close) (separated (items.map F))
      items := by
  intro c rest hc hrest
  cases items with
  | nil =>
    obtain rfl := hc.eq_of_nil
    exact bind_run (at?_of_eq hrest)
  | cons a items =>
    obtain ⟨hitem, hitems⟩ := List.forall_mem_cons.mp hitems
    obtain ⟨hfirst, hopen⟩ := List.forall_mem_cons.mp hopen
    rw [List.map_cons, separated, List.flatMap_map] at hc
    obtain ⟨mid, ha, hmore⟩ := hc.split
    have hrest' : follow rest.here.lexeme ∧ rest.here.lexeme ≠ .mark .comma := by
      rw [hrest]
      exact ⟨hclose, fun heq => hne (Lexeme.mark.inj heq)⟩
    have hmid := follow_here hmore hcomma hrest'.1
    have hrun := commaRest_reads hitems
      (fun b hb c' rest' hc' => at?_of_ne (hopen b hb c' rest' hc')) hcomma mid rest hmore hrest'
    exact (bind_run (at?_of_ne (hfirst c mid ha))).trans
      ((bind_run (hitem c mid ha hmid)).trans (bind_run hrun))

end Items

theorem length_le_separated {lexemes : List Lexeme} {items : List (List Lexeme)}
    (h : lexemes ∈ items) : lexemes.length ≤ (separated items).length := by
  cases items with
  | nil => cases h
  | cons first items =>
    rw [separated, List.length_append]
    rcases List.mem_cons.mp h with rfl | h
    · exact Nat.le_add_right _ _
    · have hsublist := List.sublist_flatten_of_mem
        (List.mem_map.mpr ⟨lexemes, h, rfl⟩ : Lexeme.mark .comma :: lexemes ∈
          items.map (Lexeme.mark .comma :: ·))
      have hlength := hsublist.length_le
      rw [List.length_cons, ← List.flatMap_def] at hlength
      omega

/-! ## Atoms -/

section Atoms

variable {n : Nat} {inner : Inner}

theorem atom_leaf {lexeme : Lexeme} {e : Expr} (hbody : e.body = [lexeme])
    (h : ∀ c : Cursor, c.here.lexeme = lexeme → atom inner c = .ok (e, c.next)) :
    Reads (atom inner) (fun _ => True) e.body e := by
  intro c rest hc _
  rw [hbody] at hc
  rw [← advance_run hc]
  exact h c hc.here

theorem reads_leaf {lexeme : Lexeme} {e : Expr} (hlevel : e.level = 9) (hbody : e.body = [lexeme])
    (h : ∀ (inner : Inner) (c : Cursor), c.here.lexeme = lexeme →
      atom inner c = .ok (e, c.next)) : e.ReadsBody := by
  intro n inner _ _ c rest hc _
  rw [hlevel]
  exact atom_leaf hbody (h inner) c rest hc trivial

/-- Where a token is read as an expression, it is so at a cursor in front of it. -/
theorem atom_token {lexeme : Lexeme} {e : Expr}
    (h : ∀ position ahead, atom inner ⟨⟨lexeme, position⟩, ahead⟩ =
      .ok (e, Cursor.next ⟨⟨lexeme, position⟩, ahead⟩))
    (c : Cursor) (hc : c.here.lexeme = lexeme) : atom inner c = .ok (e, c.next) := by
  obtain ⟨⟨found, position⟩, ahead⟩ := c
  obtain rfl : found = lexeme := hc
  exact h position ahead

theorem atom_name {name : String} (hname : IsVariable name) {c : Cursor}
    (hc : c.here.lexeme = .name name) : atom inner c = .ok (.name name, c.next) := by
  obtain ⟨hkeyword, htrue, hfalse, hnone⟩ := hname
  unfold atom
  rw [peek_bind]
  generalize c.here.lexeme = lexeme at hc
  split
  case h_7 =>
    cases hc
    rw [hkeyword]
    rfl
  all_goals simp_all

theorem here_ne_of_starts {e : Expr} (he : e.Spellable) {lexeme : Lexeme}
    (h : starts 0 lexeme = false) {c rest : Cursor} (hc : c.Spells e.body rest) :
    c.here.lexeme ≠ lexeme := by
  rw [Expr.body_eq_render] at hc
  exact ne_of_starts (Expr.starts_here he hc) h

/-- Items behind a first one, up to a closing bracket. -/
theorem closedRest_run {items : List Expr}
    (hitems : ∀ e ∈ items, Reads inner.test (Stops 0) e.body e)
    (hspells : ∀ e ∈ items, e.Spellable) (close : Mark)
    (hclose : starts 0 (.mark close) = false) (hstops : grip (.mark close) = none)
    (hne : close ≠ .comma) {c rest : Cursor}
    (hc : c.Spells (items.flatMap fun e => .mark .comma :: e.body) rest)
    (hrest : rest.here.lexeme = .mark close) :
    commaRest (at? (.mark close)) inner.test c = .ok (items, rest) := by
  refine commaRest_reads hitems
    (fun e he c' rest' hc' => at?_of_ne (here_ne_of_starts (hspells e he) hclose hc'))
    (stops_of_grip_none rfl 0) c rest hc ?_
  rw [hrest]
  exact ⟨stops_of_grip_none hstops 0, fun heq => hne (Lexeme.mark.inj heq)⟩

/-- The first of several items, up to the comma or bracket behind it. -/
theorem first_run {e : Expr} {items : List Expr} (he : Reads inner.test (Stops 0) e.body e)
    (hspell : e.Spellable) {c mid : Cursor} {close : Mark}
    (hc : c.Spells (separated ((e :: items).map Expr.body)) mid)
    (hclose : mid.here.lexeme = .mark close) (hstops : grip (.mark close) = none) :
    ∃ behind : Cursor, inner.test c = .ok (e, behind) ∧ starts 0 c.here.lexeme = true ∧
      behind.Spells (items.flatMap fun e => .mark .comma :: e.body) mid ∧
      (behind.here.lexeme = .mark .comma ∨ items = [] ∧ behind = mid) := by
  rw [List.map_cons, separated, List.flatMap_map] at hc
  obtain ⟨behind, hfirst, hmore⟩ := hc.split
  refine ⟨behind, he c behind hfirst ?_, ?_, hmore, ?_⟩
  · refine follow_here hmore (stops_of_grip_none rfl 0) ?_
    rw [hclose]
    exact stops_of_grip_none hstops 0
  · exact Expr.starts_here hspell (e.body_eq_render ▸ hfirst)
  · cases items with
    | nil => exact Or.inr ⟨rfl, hmore.eq_of_nil⟩
    | cons e' items =>
      rw [List.flatMap_cons, List.cons_append] at hmore
      exact Or.inl hmore.here

theorem atom_list {items : List Expr}
    (hitems : ∀ e ∈ items, Reads inner.test (Stops 0) e.body e)
    (hspells : ∀ e ∈ items, e.Spellable) :
    Reads (atom inner) (fun _ => True) (Expr.list items).body (.list items) := by
  intro c rest hc _
  rw [Expr.body, itemBodies_eq, List.cons_append] at hc
  obtain ⟨first, hopen, hc⟩ := hc.head
  obtain ⟨last, hcontent, hclose⟩ := hc.split
  rw [atom_leftBracket hopen]
  cases items with
  | nil =>
    obtain rfl := hcontent.eq_of_nil
    exact bind_run (eat_run hclose)
  | cons e items =>
    obtain ⟨he, hitems⟩ := List.forall_mem_cons.mp hitems
    obtain ⟨hspell, hspells⟩ := List.forall_mem_cons.mp hspells
    obtain ⟨behind, htest, hstart, hmore, hbehind⟩ := first_run he hspell hcontent hclose.here rfl
    have hfor : behind.here.lexeme ≠ .name "for" := by
      rcases hbehind with h | ⟨-, rfl⟩
      · rw [h]
        simp
      · rw [hclose.here]
        simp
    have hitems := closedRest_run hitems hspells .rightBracket rfl rfl (by simp) hmore hclose.here
    exact (bind_run (eat_of_ne (ne_of_starts hstart rfl))).trans ((bind_run htest).trans
      ((bind_run (eat_of_ne hfor)).trans ((bind_run hitems).trans
        (bind_run (expect_run _ hclose)))))

/-- An item with a comma behind it begins a tuple. -/
theorem parenthesized_run {e : Expr} {items : List Expr} {c mid last rest : Cursor}
    (hstart : starts 0 c.here.lexeme = true) (htest : inner.test c = .ok (e, mid))
    (hcomma : mid.here.lexeme = .mark .comma)
    (hmore : commaRest (at? (.mark .rightParen)) inner.test mid = .ok (items, last))
    (hclose : last.Spells [.mark .rightParen] rest) :
    parenthesized inner c = .ok (.tuple (e :: items), rest) := by
  have hopen : mid.here.lexeme ≠ .mark .rightParen := by
    rw [hcomma]
    nofun
  exact (bind_run (eat_of_ne (ne_of_starts hstart rfl))).trans ((bind_run htest).trans
    ((bind_run (eat_of_ne hopen)).trans ((bind_run hmore).trans
      (bind_run (expect_run _ hclose)))))

theorem atom_tuple {items : List Expr}
    (hitems : ∀ e ∈ items, Reads inner.test (Stops 0) e.body e)
    (hspells : ∀ e ∈ items, e.Spellable) :
    Reads (atom inner) (fun _ => True) (Expr.tuple items).body (.tuple items) := by
  intro c rest hc _
  rw [Expr.body, itemBodies_eq, inParens, List.cons_append, List.append_assoc] at hc
  obtain ⟨first, hopen, hc⟩ := hc.head
  obtain ⟨mid, hcontent, hc⟩ := hc.split
  rw [atom_leftParen hopen]
  cases items with
  | nil =>
    obtain rfl := hcontent.eq_of_nil
    exact bind_run (eat_run hc)
  | cons e items =>
    obtain ⟨he, hitems⟩ := List.forall_mem_cons.mp hitems
    obtain ⟨hspell, hspells⟩ := List.forall_mem_cons.mp hspells
    cases items with
    | nil =>
      -- one item, and the comma behind it
      rw [List.length_singleton, if_pos rfl] at hc
      obtain ⟨last, hcomma, hclose⟩ := hc.split
      obtain ⟨behind, htest, hstart, hnone, -⟩ := first_run he hspell hcontent hcomma.here rfl
      obtain rfl := hnone.eq_of_nil
      exact parenthesized_run hstart htest hcomma.here
        (commaRest_trailing hcomma (at?_of_eq hclose.here)) hclose
    | cons e' items =>
      rw [if_neg (by simp)] at hc
      obtain ⟨behind, htest, hstart, hmore, -⟩ := first_run he hspell hcontent hc.here rfl
      have hrest := closedRest_run hitems hspells .rightParen rfl rfl (by simp) hmore hc.here
      exact parenthesized_run hstart htest hmore.here hrest hc

theorem atom_dict {entries : List (Expr × Expr)}
    (hentries : ∀ entry ∈ entries, Reads inner.test (Stops 0) entry.1.body entry.1 ∧
      Reads inner.test (Stops 0) entry.2.body entry.2)
    (hspells : ∀ entry ∈ entries, entry.1.Spellable) :
    Reads (atom inner) (fun _ => True) (Expr.dict entries).body (.dict entries) := by
  intro c rest hc _
  rw [Expr.body, entryBodies_eq, List.cons_append] at hc
  obtain ⟨first, hopen, hc⟩ := hc.head
  obtain ⟨last, hcontent, hclose⟩ := hc.split
  have hentry : ∀ entry ∈ entries, Reads (Script.entry inner) (Stops 0)
      (entry.1.body ++ .mark .colon :: entry.2.body) entry := by
    intro entry hmem c rest hc hrest
    obtain ⟨mid, hkey, hc⟩ := hc.split
    obtain ⟨behind, hcolon, hvalue⟩ := hc.head
    have hkey := (hentries entry hmem).1 c mid hkey (hcolon.stops rfl 0)
    have hvalue := (hentries entry hmem).2 behind rest hvalue hrest
    exact (bind_run hkey).trans ((bind_run (expect_run _ hcolon)).trans (bind_run hvalue))
  have hlist := commaList_reads .rightBrace hentry (fun entry hmem c rest hc => by
    obtain ⟨mid, hkey, -⟩ := hc.split
    exact here_ne_of_starts (hspells entry hmem) rfl hkey) (stops_of_grip_none rfl 0)
      (stops_of_grip_none rfl 0) (by simp) first last hcontent hclose.here
  rw [atom_leftBrace hopen]
  exact (bind_run hlist).trans (bind_run (expect_run _ hclose))

/-! ### With room for each token -/

theorem reads_list {items : List Expr} (hitems : ∀ e ∈ items, e.Readable)
    (hspells : ∀ e ∈ items, e.Spellable) : (Expr.list items).ReadsBody := by
  intro n inner hinner hn c rest hc _
  have htests : ∀ e ∈ items, Reads inner.test (Stops 0) e.body e := by
    intro e he
    have hbody : e.body ∈ items.map Expr.body := List.mem_map.mpr ⟨e, he, rfl⟩
    have hlength := length_le_separated hbody
    rw [Expr.body, itemBodies_eq] at hn
    simp only [List.length_append, List.length_cons] at hn
    exact (hitems e he).test hinner (by omega)
  exact atom_list htests hspells c rest hc trivial

theorem reads_tuple {items : List Expr} (hitems : ∀ e ∈ items, e.Readable)
    (hspells : ∀ e ∈ items, e.Spellable) : (Expr.tuple items).ReadsBody := by
  intro n inner hinner hn c rest hc _
  have htests : ∀ e ∈ items, Reads inner.test (Stops 0) e.body e := by
    intro e he
    have hbody : e.body ∈ items.map Expr.body := List.mem_map.mpr ⟨e, he, rfl⟩
    have hlength := length_le_separated hbody
    rw [Expr.body, itemBodies_eq, inParens] at hn
    simp only [List.cons_append, List.append_assoc, List.length_cons, List.length_append] at hn
    exact (hitems e he).test hinner (by omega)
  exact atom_tuple htests hspells c rest hc trivial

theorem reads_dict {entries : List (Expr × Expr)}
    (hentries : ∀ entry ∈ entries, entry.1.Readable ∧ entry.2.Readable)
    (hspells : ∀ entry ∈ entries, entry.1.Spellable) : (Expr.dict entries).ReadsBody := by
  intro n inner hinner hn c rest hc _
  have htests : ∀ entry ∈ entries, Reads inner.test (Stops 0) entry.1.body entry.1 ∧
      Reads inner.test (Stops 0) entry.2.body entry.2 := by
    intro entry hentry
    have hlength := length_le_separated (List.mem_map.mpr ⟨entry, hentry, rfl⟩ :
      entry.1.body ++ Lexeme.mark .colon :: entry.2.body ∈ entries.map fun entry =>
        entry.1.body ++ .mark .colon :: entry.2.body)
    rw [Expr.body, entryBodies_eq] at hn
    simp only [List.length_append, List.length_cons] at hn hlength
    exact ⟨(hentries entry hentry).1.test hinner (by omega),
      (hentries entry hentry).2.test hinner (by omega)⟩
  exact atom_dict htests hspells c rest hc trivial

theorem reads_identifier {name : String} (hname : isKeyword name = false) :
    Reads identifier (fun _ => True) [.name name] name := by
  intro c rest hc _
  cases hc with
  | cons hc =>
    obtain rfl := hc.eq_of_nil
    unfold identifier
    rw [peek_bind]
    dsimp only
    rw [hname]
    rfl

/-- Tokens in parentheses or not. -/
def parensIf (grouped : Bool) (lexemes : List Lexeme) : List Lexeme :=
  if grouped then inParens lexemes else lexemes

/-- The names of a list of targets, up to what ends it. -/
theorem targets_run {name : String} {targets : List String} {closed : Bool}
    (htargets : ∀ n ∈ name :: targets, isKeyword n = false) {c rest : Cursor}
    (hc : c.Spells (separated ((name :: targets).map ([.name ·])) ++ commaIf closed) rest)
    (hrest : rest.here.lexeme = .name "in" ∨ rest.here.lexeme = .mark .rightParen) :
    ∃ mid : Cursor, identifier c = .ok (name, mid) ∧
      commaRest (do return (← at? (.name "in")) || (← at? (.mark .rightParen))) identifier mid =
        .ok (targets, rest) := by
  obtain ⟨hname, htargets⟩ := List.forall_mem_cons.mp htargets
  rw [List.map_cons, separated, List.flatMap_map, List.append_assoc] at hc
  obtain ⟨mid, hfirst, hmore⟩ := hc.split
  have hopen : ∀ n ∈ targets, ∀ c rest : Cursor, c.Spells [.name n] rest →
      (do return (← at? (.name "in")) || (← at? (.mark .rightParen)) : Parser Bool) c =
        .ok (false, c) := by
    intro n hn c rest hc
    have hin : c.here.lexeme ≠ .name "in" := by
      rw [hc.here]
      intro heq
      have hkeyword := htargets n hn
      rw [Lexeme.name.inj heq] at hkeyword
      cases hkeyword
    have hclose : c.here.lexeme ≠ .mark .rightParen := hc.here_ne nofun
    exact (bind_run (at?_of_ne hin)).trans (bind_run (at?_of_ne hclose))
  have hlast : (do return (← at? (.name "in")) || (← at? (.mark .rightParen)) : Parser Bool) rest =
      .ok (true, rest) := by
    change Except.ok _ = _
    rcases hrest with hrest | hrest <;> rw [hrest] <;> rfl
  have hcomma : rest.here.lexeme ≠ .mark .comma := by
    rcases hrest with hrest | hrest <;> rw [hrest] <;> nofun
  exact ⟨mid, reads_identifier hname c mid hfirst trivial, commaRest_closed
    (fun n hn => reads_identifier (htargets n hn)) hopen trivial hmore trivial hcomma hlast⟩

/-- The targets of a loop, with a comma behind them or not, in parentheses or not. -/
theorem reads_loopTargets {targets : List String} (hne : targets ≠ [])
    (htargets : ∀ name ∈ targets, isKeyword name = false) (closed grouped : Bool) :
    Reads loopTargets (· = .name "in")
      (parensIf grouped (separated (targets.map ([.name ·])) ++ commaIf closed)) targets := by
  intro c rest hc hrest
  cases targets with
  | nil => exact absurd rfl hne
  | cons name targets =>
    cases grouped with
    | false =>
      obtain ⟨mid, hfirst, hmore⟩ := targets_run htargets hc (.inl hrest)
      have hopen : c.here.lexeme ≠ .mark .leftParen := hc.here_ne nofun
      exact (bind_run (eat_of_ne hopen)).trans ((bind_run hfirst).trans (bind_run hmore))
    | true =>
      rw [parensIf, if_pos rfl, inParens, List.cons_append] at hc
      obtain ⟨first, hopen, hc⟩ := hc.head
      obtain ⟨last, hc, hclose⟩ := hc.split
      obtain ⟨mid, hfirst, hmore⟩ := targets_run htargets hc (.inr hclose.here)
      exact (bind_run (eat_run hopen)).trans ((bind_run hfirst).trans ((bind_run hmore).trans
        (bind_run (expect_run _ hclose))))

theorem loopTargets_run {targets : List String} (hne : targets ≠ [])
    (htargets : ∀ name ∈ targets, isKeyword name = false) {c rest : Cursor}
    (hc : c.Spells (separated (targets.map ([.name ·]))) rest)
    (hrest : rest.here.lexeme = .name "in") : loopTargets c = .ok (targets, rest) := by
  rw [← List.append_nil (separated _)] at hc
  exact reads_loopTargets hne htargets false false c rest hc hrest

theorem Expr.Readable.clause {e : Expr} (h : e.Readable) (hinner : inner.Ample n)
    (hn : (e.render 1).length < n) : Reads inner.clause (Stops 1) (e.render 1) e := by
  obtain ⟨closer, clauses, -, hclauses, rfl⟩ := hinner.exists_closer (Nat.zero_lt_of_lt hn)
  exact h.reads (by decide) hclauses (Nat.le_sub_one_of_lt hn)

/-- The condition of a comprehension is read from one cursor to another one, or there is none. -/
def ReadsCondition (inner : Inner) (condition : Option Expr) (c rest : Cursor) : Prop :=
  match condition with
  | none => c.here.lexeme ≠ .name "if" ∧ c = rest
  | some e => ∃ mid, c.Spells [.name "if"] mid ∧ inner.clause mid = .ok (e, rest)

/-- A comprehension is read from its parts. -/
theorem atom_comprehension {element source : Expr} {targets : List String} {condition : Option Expr}
    {c c₁ c₂ c₃ c₄ c₅ c₆ c₇ rest : Cursor} (hopen : c.Spells [.mark .leftBracket] c₁)
    (hfirst : c₁.here.lexeme ≠ .mark .rightBracket) (helement : inner.test c₁ = .ok (element, c₂))
    (hfor : c₂.Spells [.name "for"] c₃) (htargets : loopTargets c₃ = .ok (targets, c₄))
    (hin : c₄.Spells [.name "in"] c₅) (hsource : inner.clause c₅ = .ok (source, c₆))
    (hcondition : ReadsCondition inner condition c₆ c₇)
    (hclose : c₇.Spells [.mark .rightBracket] rest) :
    atom inner c = .ok (.comprehension element targets source condition, rest) := by
  rw [atom_leftBracket hopen]
  refine (bind_run (eat_of_ne hfirst)).trans ((bind_run helement).trans
    ((bind_run (eat_run hfor)).trans ((bind_run htargets).trans ((bind_run (expect_run _ hin)).trans
      ((bind_run hsource).trans ?_)))))
  cases condition with
  | none =>
    obtain ⟨hif, rfl⟩ := hcondition
    exact (bind_run (eat_of_ne hif)).trans ((bind_run (pure_run none)).trans
      (bind_run (expect_run _ hclose)))
  | some e =>
    obtain ⟨mid, hif, hclause⟩ := hcondition
    exact (bind_run (eat_run hif)).trans ((bind_run (map_run hclause)).trans
      (bind_run (expect_run _ hclose)))

theorem reads_comprehension {element source : Expr} {targets : List String}
    {condition : Option Expr} (helement : element.Readable) (hspell : element.Spellable)
    (hsource : source.Readable) (hcondition : ∀ e ∈ condition, e.Readable) (hne : targets ≠ [])
    (htargets : ∀ name ∈ targets, isKeyword name = false) :
    (Expr.comprehension element targets source condition).ReadsBody := by
  intro n inner hinner hn c rest hc _
  rw [Expr.body] at hn hc
  simp only [List.cons_append, List.append_assoc, List.length_cons, List.length_append] at hn hc
  obtain ⟨first, hopen, hc⟩ := hc.head
  obtain ⟨behind, hfirst, hc⟩ := hc.split
  obtain ⟨c₁, hfor, hc⟩ := hc.head
  obtain ⟨c₂, hnames, hc⟩ := hc.split
  obtain ⟨c₃, hin, hc⟩ := hc.head
  obtain ⟨c₄, hover, hc⟩ := hc.split
  obtain ⟨c₅, hc, hclose⟩ := hc.split
  have htest := helement.test hinner (by omega) first behind hfirst (hfor.stops rfl 0)
  have hclause (hstops : Stops 1 c₄.here.lexeme) : inner.clause c₃ = .ok (source, c₄) :=
    hsource.clause hinner (by rw [Expr.render]; omega) c₃ c₄ hover hstops
  have hparts : Stops 1 c₄.here.lexeme ∧ ReadsCondition inner condition c₄ c₅ := by
    cases condition with
    | none =>
      obtain rfl := hc.eq_of_nil
      exact ⟨hclose.stops rfl 1, hclose.here_ne (by simp), rfl⟩
    | some e =>
      rw [conditionBody] at hc hn
      rw [List.length_cons] at hn
      obtain ⟨mid, hif, hcond⟩ := hc.head
      refine ⟨?_, mid, hif, ?_⟩
      · rw [hif.here]
        exact fun g hg => by cases hg; decide
      · exact (hcondition e rfl).clause hinner (by rw [Expr.render]; omega) mid c₅ hcond
          (hclose.stops rfl 1)
  exact atom_comprehension hopen (here_ne_of_starts hspell rfl hfirst) htest hfor
    (loopTargets_run hne htargets hnames hin.here) hin (hclause hparts.1) hparts.2 hclose

end Atoms

end Monorepo.Script
