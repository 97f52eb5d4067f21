import Monorepo.Proofs.Descent

/-!
# Descents that mirror parsers

A descent mirrors a parser if both take the same tokens and give the same result, the one with an
index into a stream, the other with a cursor, or both fail in the same way. So a descent that
mirrors a parser halts for a fault of the text only, and the parser does not stall. Sequences,
branches, levels of nesting and loops of descents mirror those of parsers, as long as every turn of
a loop takes a token. A parser goes one level further in at each link of a chain of operators; a
loop mirrors it that opens a level for each link and leaves them all at the end.
-/

namespace Monorepo.Script

open Monorepo.Script.Parser

namespace Cursor

/-- The cursor stands at an index of a stream. -/
def IsAt (c : Cursor) (tokens : List Token) (i : Nat) : Prop := tokens.drop i = c.tokens

variable {c : Cursor} {tokens : List Token} {i : Nat}

theorem IsAt.lt_length (h : c.IsAt tokens i) : i < tokens.length := by
  have hne : tokens.drop i ≠ [] := by
    rw [h]
    exact List.cons_ne_nil _ _
  exact Nat.lt_of_not_le fun hle => hne (List.drop_eq_nil_of_le hle)

theorem IsAt.length_tokens (h : c.IsAt tokens i) : c.tokens.length = tokens.length - i := by
  rw [← h, List.length_drop]

theorem IsAt.getElem? (h : c.IsAt tokens i) : tokens[i]? = some c.here := by
  have hhead : (tokens.drop i)[0]? = some c.here := by rw [h]; rfl
  rwa [List.getElem?_drop] at hhead

theorem IsAt.getElem?_succ (h : c.IsAt tokens i) : tokens[i + 1]? = c.ahead.head? := by
  have hsecond : (tokens.drop i)[1]? = c.ahead.head? := by
    rw [h, List.head?_eq_getElem?]
    rfl
  rwa [List.getElem?_drop] at hsecond

theorem IsAt.next (h : c.IsAt tokens i) (hlt : i + 1 < tokens.length) :
    c.next.IsAt tokens (i + 1) := by
  have hrest : tokens.drop (i + 1) = c.ahead := by
    rw [← List.tail_drop, h]
    rfl
  unfold IsAt Cursor.next
  cases hahead : c.ahead with
  | nil =>
    rw [hahead] at hrest
    have hshort := List.drop_eq_nil_iff.mp hrest
    omega
  | cons token ahead => rw [hrest, hahead]; rfl

theorem isAt_of_getElem? {token : Token} (h : tokens[i]? = some token) :
    IsAt ⟨token, tokens.drop (i + 1)⟩ tokens i := by
  obtain ⟨hlt, rfl⟩ := List.getElem?_eq_some_iff.mp h
  exact List.drop_eq_getElem_cons hlt

end Cursor

namespace Lexeme

theorem mark_ne_finish (m : Mark) : mark m ≠ finish := nofun

theorem name_ne_finish (name : String) : Lexeme.name name ≠ finish := nofun

theorem newline_ne_finish : newline ≠ finish := nofun

end Lexeme

/-- A stream that ends with the end of the input. -/
def EndsInFinish (tokens : List Token) : Prop :=
  ∃ t ∈ tokens.getLast?, t.lexeme = .finish

theorem EndsInFinish.lt_length {tokens : List Token} (h : EndsInFinish tokens) {i : Nat}
    {t : Token} (ht : tokens[i]? = some t) (hne : t.lexeme ≠ .finish) : i + 1 < tokens.length := by
  obtain ⟨last, hlast, hfinish⟩ := h
  obtain ⟨hlt, hget⟩ := List.getElem?_eq_some_iff.mp ht
  rcases Nat.lt_or_ge (i + 1) tokens.length with hnext | hnext
  · exact hnext
  · have hindex : i = tokens.length - 1 := by omega
    rw [Option.mem_def, List.getLast?_eq_getElem?, ← hindex, ht] at hlast
    cases hlast
    exact absurd hfinish hne

/-! ## What is left of a loop -/

namespace Parser

variable {α : Type} (more stop : Parser Bool) (item : Parser α) (token : Token)
variable (budget : List Token) (done : List α)

theorem collectWithin_cons : collectWithin more item (token :: budget) done.reverse =
    (do if ← more then return .inl (done ++ [← item]) else return .inr done) >>=
      Sum.elim (fun done => collectWithin more item budget done.reverse) Pure.pure := by
  rw [collectWithin, bind_assoc]
  refine bind_congr fun b => ?_
  cases b with
  | false => simp
  | true => simp

/-- Items that are there already stand in front of those that are collected. -/
theorem collectWithin_append : collectWithin more item budget done =
    (do return done.reverse ++ (← collectWithin more item budget []) : Parser (List α)) := by
  induction budget generalizing done with
  | nil => rfl
  | cons token budget ih =>
    rw [collectWithin, collectWithin, bind_assoc]
    refine bind_congr fun b => ?_
    cases b with
    | false => simp
    | true =>
      simp only [if_true, bind_assoc]
      refine bind_congr fun a => ?_
      rw [ih (a :: done), ih [a]]
      simp

/-- The next item behind those that are done, and others with a test behind each of them. -/
def itemsWithin : Parser (List α) := do collectWithin more item budget ((← item) :: done.reverse)

theorem itemsWithin_cons : itemsWithin more item (token :: budget) done =
    (do
      let done := done ++ [← item]
      if ← more then return .inl done else return .inr done) >>=
      Sum.elim (itemsWithin more item budget) Pure.pure := by
  unfold itemsWithin
  rw [bind_assoc]
  refine bind_congr fun a => ?_
  rw [collectWithin, bind_assoc]
  refine bind_congr fun b => ?_
  cases b with
  | false => simp
  | true => simp

/-- Whether a comma leads to a further item. -/
def commaBefore : Parser Bool := do if ← eatMark .comma then return !(← stop) else return false

/-- The items behind those that are done, with commas between them. -/
def commaWithin : Parser (List α) := do
  if ← stop then return done
  itemsWithin (commaBefore stop) item budget done

theorem commaWithin_cons : commaWithin stop item (token :: budget) done =
    (do
      if ← stop then return .inr done
      let done := done ++ [← item]
      if ← eatMark .comma then return .inl done else return .inr done) >>=
      Sum.elim (commaWithin stop item budget) Pure.pure := by
  unfold commaWithin
  rw [itemsWithin_cons]
  conv =>
    rhs
    rw [bind_assoc]
  refine bind_congr fun b => ?_
  cases b with
  | true => simp
  | false =>
    simp only [Bool.false_eq_true, if_false, bind_assoc, commaBefore]
    refine bind_congr fun a => ?_
    refine bind_congr fun b => ?_
    cases b with
    | false => simp
    | true =>
      simp only [if_true, bind_assoc, pure_bind, Sum.elim_inl]
      refine bind_congr fun b => ?_
      cases b <;> simp

end Parser

namespace Descent

section Primitives

variable {α β : Type} {tokens : List Token} {s s' : Place} {h : Halt}

theorem bind_ok {m : Descent α} {a : α} (hm : m tokens s = (.ok a, s')) (f : α → Descent β) :
    (m >>= f) tokens s = f a tokens s' := by
  change ExceptT.bindCont (fun a => f a tokens) (m tokens s).1 (m tokens s).2 = _
  rw [hm]
  rfl

theorem bind_error {m : Descent α} (hm : m tokens s = (.error h, s')) (f : α → Descent β) :
    (m >>= f) tokens s = (.error h, s') := by
  change ExceptT.bindCont (fun a => f a tokens) (m tokens s).1 (m tokens s).2 = _
  rw [hm]
  rfl

theorem token_of_isAt {c : Cursor} (hc : c.IsAt tokens s.index) :
    token tokens s = (.ok c.here, s) := by
  have hmin : min s.index (tokens.length - 1) = s.index := by
    have hlt := hc.lt_length
    omega
  unfold token tokenAt
  rw [hmin, hc.getElem?]

theorem peek_of_isAt {c : Cursor} (hc : c.IsAt tokens s.index) :
    peek tokens s = (.ok c.here.lexeme, s) := bind_ok (token_of_isAt hc) _

theorem at?_of_isAt {c : Cursor} (hc : c.IsAt tokens s.index) (lexeme : Lexeme) :
    at? lexeme tokens s = (.ok (decide (c.here.lexeme = lexeme)), s) := bind_ok (peek_of_isAt hc) _

theorem advance_of_isAt {c : Cursor} {i d : Nat} (hend : EndsInFinish tokens)
    (hc : c.IsAt tokens i) (hne : c.here.lexeme ≠ .finish) :
    advance tokens ⟨i, d⟩ = (.ok (), ⟨i + 1, d⟩) ∧ c.next.IsAt tokens (i + 1) := by
  have hlt := hend.lt_length hc.getElem? hne
  refine ⟨?_, hc.next hlt⟩
  unfold advance
  rw [if_pos (show i < tokens.length - 1 by omega)]

variable {σ κ : Type} {turn : σ → Descent (σ ⊕ β)} {x y : σ}

theorem turns_of_inl (hturn : turn x tokens s = (.ok (.inl y), s'))
    (hlt : tokens.length - s'.index < tokens.length - s.index) :
    turns turn x tokens s = turns turn y tokens s' := by
  rw [turns, hturn]
  exact if_pos hlt

theorem turns_of_inr {b : β} (hturn : turn x tokens s = (.ok (.inr b), s')) :
    turns turn x tokens s = (.ok b, s') := by
  rw [turns, hturn]

theorem turns_of_error (hturn : turn x tokens s = (.error h, s')) :
    turns turn x tokens s = (.error h, s') := by
  rw [turns, hturn]

variable {i d : Nat}

theorem descend_of_lt (hd : d < maxNesting) :
    descend tokens ⟨i, d⟩ = (.ok (), ⟨i, d + 1⟩) := by
  unfold descend
  rw [if_neg (Nat.not_le_of_lt hd)]

theorem descend_of_not_lt (hd : ¬ d < maxNesting) {c : Cursor} (hc : c.IsAt tokens i) :
    descend tokens ⟨i, d⟩ = (.error (.fault ⟨c.here.position, .nesting⟩), ⟨i, d⟩) := by
  unfold descend
  rw [if_pos (Nat.le_of_not_lt hd)]
  exact bind_ok (token_of_isAt hc) _

theorem ascend_of_le {n : Nat} (hn : n ≤ s.depth) :
    ascend n tokens s = (.ok (), ⟨s.index, s.depth - n⟩) := by
  unfold ascend
  rw [if_neg (Nat.not_lt_of_le hn)]

variable {operator : Descent (Option κ)} {link : κ → Expr → Descent Expr} {left : Expr} {n : Nat}

theorem chainTurn_none (h : operator tokens s = (.ok none, s')) (hn : n ≤ s'.depth) :
    chainTurn operator link (left, n) tokens s =
      (.ok (.inr left), ⟨s'.index, s'.depth - n⟩) :=
  (bind_ok h _).trans (bind_ok (ascend_of_le hn) _)

theorem chainTurn_some {op : κ} (h : operator tokens s = (.ok (some op), s')) :
    chainTurn operator link (left, n) tokens s =
      (do
        descend
        return .inl (← link op left, n + 1) : Descent ((Expr × Nat) ⊕ Expr)) tokens s' :=
  bind_ok h _

end Primitives

/-- From a place on, a descent does what a parser does: both give the same result at the same token
and with the given depth, or both fail in the same way. The result and its index have the property
`Q`, and the index is not behind the start. -/
def Mirrors {α : Type} (tokens : List Token) (s : Place) (depth : Nat) (Q : α → Nat → Prop)
    (m : Descent α) (p : Parser α) : Prop :=
  ∀ c : Cursor, c.IsAt tokens s.index →
    (∃ a c' i, p c = .ok (a, c') ∧ m tokens s = (.ok a, ⟨i, depth⟩) ∧ c'.IsAt tokens i ∧
      s.index ≤ i ∧ Q a i) ∨
    ∃ e s', p c = .error e ∧ m tokens s = (.error (.fault e), s') ∧ depth ≤ s'.depth ∧
      e.fault ≠ .stalled

namespace Mirrors

variable {α β : Type} {tokens : List Token} {s : Place} {i d depth : Nat} {t : Token}
variable {Q : α → Nat → Prop} {Q' : β → Nat → Prop} {m : Descent α} {p : Parser α}

theorem pure {a : α} (h : Q a i) : Mirrors tokens ⟨i, d⟩ d Q (pure a) (pure a) :=
  fun c hc => Or.inl ⟨a, c, i, rfl, rfl, hc, Nat.le_refl _, h⟩

theorem mono {Q₂ : α → Nat → Prop} (h : Mirrors tokens ⟨i, d⟩ depth Q m p)
    (hQ : ∀ a j, i ≤ j → Q a j → Q₂ a j) : Mirrors tokens ⟨i, d⟩ depth Q₂ m p := by
  intro c hc
  rcases h c hc with ⟨a, c', j, hp, hm, hc', hle, ha⟩ | hfault
  · exact Or.inl ⟨a, c', j, hp, hm, hc', hle, hQ a j hle ha⟩
  · exact Or.inr hfault

theorem bind {f : α → Descent β} {g : α → Parser β} (h : Mirrors tokens ⟨i, d⟩ d Q m p)
    (hf : ∀ a j, i ≤ j → Q a j → Mirrors tokens ⟨j, d⟩ d Q' (f a) (g a)) :
    Mirrors tokens ⟨i, d⟩ d Q' (m >>= f) (p >>= g) := by
  intro c hc
  have hbind : (p >>= g) c = (p c).bind fun r => g r.1 r.2 := rfl
  rcases h c hc with ⟨a, c', j, hp, hm, hc', hj, ha⟩ | ⟨e, s', hp, hm, hdepth, hgenuine⟩
  · rw [hbind, hp, Descent.bind_ok hm]
    rcases hf a j hj ha c' hc' with ⟨b, c'', k, hg, hfm, hc'', hk, hb⟩ | hfault
    · exact Or.inl ⟨b, c'', k, hg, hfm, hc'', Nat.le_trans hj hk, hb⟩
    · exact Or.inr hfault
  · refine Or.inr ⟨e, s', ?_, Descent.bind_error hm f, hdepth, hgenuine⟩
    rw [hbind, hp]
    rfl

theorem ite {b : Prop} [Decidable b] {m' : Descent α} {p' : Parser α}
    (h : b → Mirrors tokens s depth Q m p) (h' : ¬ b → Mirrors tokens s depth Q m' p') :
    Mirrors tokens s depth Q (if b then m else m') (if b then p else p') := by
  split
  · exact h ‹_›
  · exact h' ‹_›

/-! ### Tokens -/

/-- The token under the index is read without moving. -/
theorem token {f : Token → Descent β} {p : Parser β}
    (h : ∀ t, tokens[i]? = some t → Mirrors tokens ⟨i, d⟩ depth Q' (f t) p) :
    Mirrors tokens ⟨i, d⟩ depth Q' (Descent.token >>= f) p := by
  intro c hc
  rw [Descent.bind_ok (Descent.token_of_isAt hc)]
  exact h c.here hc.getElem? c hc

theorem line {f : Token → Descent β} {g : Nat → Parser β}
    (h : ∀ t, tokens[i]? = some t →
      Mirrors tokens ⟨i, d⟩ depth Q' (f t) (g t.position.line)) :
    Mirrors tokens ⟨i, d⟩ depth Q' (Descent.token >>= f) (Parser.line >>= g) := by
  refine token fun t ht c hc => ?_
  obtain rfl : c.here = t := Option.some.inj (hc.getElem?.symm.trans ht)
  exact h c.here ht c hc

theorem peek {f : Lexeme → Descent β} {g : Lexeme → Parser β}
    (h : ∀ t, tokens[i]? = some t →
      Mirrors tokens ⟨i, d⟩ depth Q' (f t.lexeme) (g t.lexeme)) :
    Mirrors tokens ⟨i, d⟩ depth Q' (Descent.peek >>= f) (Parser.peek >>= g) := by
  intro c hc
  rw [Descent.bind_ok (Descent.peek_of_isAt hc)]
  exact h c.here hc.getElem? c hc

theorem peekNext {f : Option Lexeme → Descent β} {g : Option Lexeme → Parser β}
    (h : Mirrors tokens ⟨i, d⟩ depth Q' (f (tokens[i + 1]?.map Token.lexeme))
      (g (tokens[i + 1]?.map Token.lexeme))) :
    Mirrors tokens ⟨i, d⟩ depth Q' (Descent.peekNext >>= f) (Parser.peekNext >>= g) := by
  intro c hc
  have hnext := h c hc
  have hpeek : Parser.peekNext c = .ok (tokens[i + 1]?.map Token.lexeme, c) := by
    rw [hc.getElem?_succ]
    rfl
  have hbind : (Parser.peekNext >>= g) c = (Parser.peekNext c).bind fun r => g r.1 r.2 := rfl
  rw [hbind, hpeek]
  exact hnext

theorem fail {fault : SyntaxFault} (hgenuine : fault ≠ .stalled) (hdepth : depth ≤ s.depth) :
    Mirrors tokens s depth Q (Descent.fail fault) (Parser.fail fault) := by
  intro c hc
  exact Or.inr ⟨_, s, rfl, Descent.bind_ok (Descent.token_of_isAt hc) _, hdepth, hgenuine⟩

/-- What would follow a failure does not matter. -/
theorem fail_bind {fault : SyntaxFault} {f : β → Descent α} {g : β → Parser α}
    (hgenuine : fault ≠ .stalled) :
    Mirrors tokens ⟨i, d⟩ d Q (Descent.fail fault >>= f) (Parser.fail fault >>= g) :=
  bind (Q := fun _ _ => False) (fail hgenuine (Nat.le_refl d)) nofun

theorem unexpected {expected : Expectation} (hdepth : depth ≤ s.depth) :
    Mirrors tokens s depth Q (Descent.unexpected expected) (Parser.unexpected expected) := by
  intro c hc
  exact Or.inr ⟨_, s, rfl, Descent.bind_ok (Descent.token_of_isAt hc) _, hdepth, nofun⟩

theorem at? {lexeme : Lexeme} {f : Bool → Descent β} {g : Bool → Parser β}
    (h : ∀ t, tokens[i]? = some t →
      Mirrors tokens ⟨i, d⟩ depth Q' (f (t.lexeme = lexeme)) (g (t.lexeme = lexeme))) :
    Mirrors tokens ⟨i, d⟩ depth Q' (Descent.at? lexeme >>= f) (Parser.at? lexeme >>= g) := by
  intro c hc
  rw [Descent.bind_ok (Descent.at?_of_isAt hc lexeme)]
  exact h c.here hc.getElem? c hc

/-- A test for what stands under the index. -/
theorem test {lexeme : Lexeme} : Mirrors tokens ⟨i, d⟩ d (fun _ _ => True)
    (Descent.at? lexeme) (Parser.at? lexeme) := by
  intro c hc
  exact Or.inl ⟨decide (c.here.lexeme = lexeme), c, i, rfl, Descent.at?_of_isAt hc lexeme, hc,
    Nat.le_refl i, trivial⟩

/-- Whatever stands under the index, the next token follows, unless it is the last one. -/
theorem step {f : Unit → Descent β} {g : Unit → Parser β}
    (h : ∀ j, i ≤ j → Mirrors tokens ⟨j, d⟩ depth Q' (f ()) (g ())) :
    Mirrors tokens ⟨i, d⟩ depth Q' (Descent.advance >>= f) (Parser.advance >>= g) := by
  intro c (hc : c.IsAt tokens i)
  have hmove : ∃ j, i ≤ j ∧ Descent.advance tokens ⟨i, d⟩ = (.ok (), ⟨j, d⟩) ∧
      c.next.IsAt tokens j := by
    unfold Descent.advance
    by_cases hlt : i < tokens.length - 1
    · rw [if_pos hlt]
      exact ⟨i + 1, Nat.le_succ i, rfl, hc.next (by omega)⟩
    · have hahead : c.ahead = [] := by
        have hget := hc.getElem?_succ
        rw [List.getElem?_eq_none (by omega)] at hget
        exact List.head?_eq_none_iff.mp hget.symm
      have hsame : c.next = c := by
        unfold Cursor.next
        rw [hahead]
      rw [if_neg hlt, hsame]
      exact ⟨i, Nat.le_refl i, rfl, hc⟩
  obtain ⟨j, hij, hadvance, hnext⟩ := hmove
  rw [Descent.bind_ok hadvance]
  rcases h j hij c.next hnext with ⟨b, c', k, hp, hm, hc', hjk, hb⟩ | hfault
  · exact Or.inl ⟨b, c', k, hp, hm, hc', Nat.le_trans hij hjk, hb⟩
  · exact Or.inr hfault

section Taking

variable (hend : EndsInFinish tokens)
include hend

theorem advance {f : Unit → Descent β} {g : Unit → Parser β} (ht : tokens[i]? = some t)
    (hne : t.lexeme ≠ .finish) (h : Mirrors tokens ⟨i + 1, d⟩ depth Q' (f ()) (g ())) :
    Mirrors tokens ⟨i, d⟩ depth Q' (Descent.advance >>= f) (Parser.advance >>= g) := by
  intro c (hc : c.IsAt tokens i)
  obtain rfl : c.here = t := Option.some.inj (hc.getElem?.symm.trans ht)
  obtain ⟨hmove, hnext⟩ := Descent.advance_of_isAt hend hc hne
  rw [Descent.bind_ok hmove]
  rcases h c.next hnext with ⟨b, c', j, hp, hm, hc', hij, hb⟩ | hfault
  · exact Or.inl ⟨b, c', j, hp, hm, hc', Nat.le_of_succ_le hij, hb⟩
  · exact Or.inr hfault

/-- What is taken is behind the index then. -/
theorem eat {lexeme : Lexeme} (hne : lexeme ≠ .finish) :
    Mirrors tokens ⟨i, d⟩ d (fun b j => b = true → i < j) (Descent.eat lexeme)
      (Parser.eat lexeme) := by
  refine at? fun t ht => ite (fun heq => ?_) fun _ => pure nofun
  refine advance hend ht ?_ (pure fun _ => Nat.lt_succ_self i)
  rw [of_decide_eq_true heq]
  exact hne

theorem eatMark {m : Mark} : Mirrors tokens ⟨i, d⟩ d (fun b j => b = true → i < j)
    (Descent.eatMark m) (Parser.eatMark m) :=
  eat hend (Lexeme.mark_ne_finish m)

theorem eatKeyword {keyword : String} :
    Mirrors tokens ⟨i, d⟩ d (fun b j => b = true → i < j) (Descent.eatKeyword keyword)
      (Parser.eatKeyword keyword) :=
  eat hend (Lexeme.name_ne_finish keyword)

theorem expect {lexeme : Lexeme} (hne : lexeme ≠ .finish) {expected : Expectation} :
    Mirrors tokens ⟨i, d⟩ d (fun _ j => i < j) (Descent.expect lexeme expected)
      (Parser.expect lexeme expected) := by
  refine (eat hend hne).bind fun b j _ hj => ?_
  exact ite (fun hb => pure (hj hb)) fun _ => unexpected (Nat.le_refl d)

theorem expectMark {m : Mark} : Mirrors tokens ⟨i, d⟩ d (fun _ j => i < j)
    (Descent.expectMark m) (Parser.expectMark m) :=
  expect hend (Lexeme.mark_ne_finish m)

theorem expectKeyword {keyword : String} : Mirrors tokens ⟨i, d⟩ d (fun _ j => i < j)
    (Descent.expectKeyword keyword) (Parser.expectKeyword keyword) :=
  expect hend (Lexeme.name_ne_finish keyword)

end Taking

/-- One level further in, as long as there is room. -/
theorem nested (h : d < maxNesting → Mirrors tokens ⟨i, d + 1⟩ (d + 1) Q m p) :
    Mirrors tokens ⟨i, d⟩ d Q (Descent.nested m)
      (if d < maxNesting then p else Parser.fail .nesting) := by
  intro c hc
  unfold Descent.nested
  by_cases hd : d < maxNesting
  · rw [if_pos hd, Descent.bind_ok (Descent.descend_of_lt hd)]
    rcases h hd c hc with ⟨a, c', j, hp, hm, hc', hle, ha⟩ | ⟨e, s', hp, hm, hdepth, hgenuine⟩
    · refine Or.inl ⟨a, c', j, hp, ?_, hc', hle, ha⟩
      rw [hm]
      dsimp only
      rw [Descent.ascend_of_le (Nat.le_add_left 1 d)]
      rfl
    · refine Or.inr ⟨e, ⟨s'.index, s'.depth - 1⟩, hp, ?_, Nat.le_sub_one_of_lt hdepth, hgenuine⟩
      rw [hm]
      dsimp only
      rw [Descent.ascend_of_le (Nat.le_trans (Nat.le_add_left 1 d) hdepth)]
  · rw [if_neg hd, Descent.bind_error (Descent.descend_of_not_lt hd hc)]
    exact Or.inr ⟨_, ⟨i, d⟩, rfl, rfl, Nat.le_refl d, nofun⟩

/-! ### Loops -/

/-- A loop mirrors a parser that does one turn of it and goes on like the rest of the loop. -/
theorem turns {σ : Type} {turn : σ → Descent (σ ⊕ β)} {x : σ} {q : Parser (σ ⊕ β)}
    {next : σ → Parser β} {P : σ ⊕ β → Nat → Prop}
    (hturn : Mirrors tokens ⟨i, d⟩ d P (turn x) q)
    (hnext : ∀ y j, P (.inl y) j →
      i < j ∧ Mirrors tokens ⟨j, d⟩ d Q' (Descent.turns turn y) (next y))
    (hdone : ∀ b j, P (.inr b) j → Q' b j) :
    Mirrors tokens ⟨i, d⟩ d Q' (Descent.turns turn x) (q >>= Sum.elim next Pure.pure) := by
  intro c hc
  have hbind : (q >>= Sum.elim next Pure.pure) c =
      (q c).bind fun r => Sum.elim next Pure.pure r.1 r.2 := rfl
  rw [hbind]
  rcases hturn c hc with ⟨r, c', j, hq, hm, hc', hle, hr⟩ | ⟨e, s', hq, hm, hdepth, hgenuine⟩
  · rw [hq]
    cases r with
    | inl y =>
      obtain ⟨hlt, hrest⟩ := hnext y j hr
      have hleft : tokens.length - j < tokens.length - i := by
        have hrange := hc'.lt_length
        omega
      rw [Descent.turns_of_inl hm hleft]
      rcases hrest c' hc' with ⟨b, c'', k, hp, hb, hc'', hjk, hQ⟩ | hfault
      · exact Or.inl ⟨b, c'', k, hp, hb, hc'', Nat.le_trans hle hjk, hQ⟩
      · exact Or.inr hfault
    | inr b =>
      exact Or.inl ⟨b, c', j, rfl, Descent.turns_of_inr hm, hc', hle, hdone b j hr⟩
  · rw [hq]
    exact Or.inr ⟨e, s', rfl, Descent.turns_of_error hm, hdepth, hgenuine⟩

/-- What mirrors the same descent is the same. -/
theorem unique {q : Parser α} {Q₂ : α → Nat → Prop} (hp : Mirrors tokens s depth Q m p)
    (hq : Mirrors tokens s depth Q₂ m q) {c : Cursor} (hc : c.IsAt tokens s.index) : p c = q c := by
  rcases hp c hc with ⟨a, c', j, hp, hm, hc', -⟩ | ⟨e, s', hp, hm, -⟩
  · rcases hq c hc with ⟨a', c'', j', hq, hm', hc'', -⟩ | ⟨e', s'', hq, hm', -⟩
    · cases hm.symm.trans hm'
      have htokens : c'.tokens = c''.tokens := hc'.symm.trans hc''
      obtain ⟨here, ahead⟩ := c'
      obtain ⟨here', ahead'⟩ := c''
      obtain ⟨rfl, rfl⟩ := List.cons.inj htokens
      rw [hp, hq]
    · cases hm.symm.trans hm'
  · rcases hq c hc with ⟨a', c'', j', hq, hm', -⟩ | ⟨e', s'', hq, hm', -⟩
    · cases hm.symm.trans hm'
    · cases hm.symm.trans hm'
      rw [hp, hq]

/-- Descents that mirror the same parser give the same result. -/
theorem result_unique {m' : Descent α} {Q₂ : α → Nat → Prop} (h : Mirrors tokens s depth Q m p)
    (h' : Mirrors tokens s depth Q₂ m' p) {c : Cursor} (hc : c.IsAt tokens s.index) :
    (m tokens s).1 = (m' tokens s).1 := by
  rcases h c hc with ⟨a, c', j, hp, hm, -⟩ | ⟨e, s', hp, hm, -⟩
  · rcases h' c hc with ⟨a', c'', j', hp', hm', -⟩ | ⟨e', s'', hp', hm', -⟩
    · cases hp.symm.trans hp'
      rw [hm, hm']
    · cases hp.symm.trans hp'
  · rcases h' c hc with ⟨a', c'', j', hp', hm', -⟩ | ⟨e', s'', hp', hm', -⟩
    · cases hp.symm.trans hp'
    · cases hp.symm.trans hp'
      rw [hm, hm']

/-- Behind the stream there is nothing to mirror. -/
theorem of_length_le (h : tokens.length ≤ i) : Mirrors tokens ⟨i, d⟩ depth Q m p :=
  fun _ hc => absurd hc.lt_length (Nat.not_lt_of_le h)

/-- A loop mirrors the parsers `f` if each of them does a turn and goes on like the one that has a
token less to pay for the turns. -/
theorem loop {σ : Type} {i₀ : Nat} {turn : σ → Descent (σ ⊕ β)} {q : σ → Parser (σ ⊕ β)}
    {f : List Token → σ → Parser β} {P : Nat → σ ⊕ β → Nat → Prop} {R : Nat → β → Nat → Prop}
    (hf : ∀ token budget x, f (token :: budget) x = q x >>= Sum.elim (f budget) Pure.pure)
    (hturn : ∀ i x, i₀ ≤ i → Mirrors tokens ⟨i, d⟩ d (P i) (turn x) (q x))
    (hnext : ∀ i y j, P i (.inl y) j → i < j ∧ ∀ b k, R j b k → R i b k)
    (hdone : ∀ i b j, P i (.inr b) j → R i b j) {budget : List Token} {x : σ} (hi : i₀ ≤ i)
    (hbudget : tokens.length - i ≤ budget.length) :
    Mirrors tokens ⟨i, d⟩ d (R i) (Descent.turns turn x) (f budget x) := by
  induction budget generalizing i x with
  | nil => exact of_length_le (Nat.le_of_sub_eq_zero (Nat.le_zero.mp hbudget))
  | cons token budget ih =>
    rw [hf]
    refine turns (hturn i x hi) (fun y j hy => ?_) (hdone i)
    obtain ⟨hij, hweaker⟩ := hnext i y j hy
    have hleft : tokens.length - j ≤ budget.length := by
      rw [List.length_cons] at hbudget
      omega
    exact ⟨hij, (ih (Nat.le_trans hi (Nat.le_of_lt hij)) hleft).mono fun b k _ => hweaker b k⟩

section Collecting

variable {more : Descent Bool} {pmore : Parser Bool} {item : Descent α} {pitem : Parser α}
variable {i₀ : Nat} {R : Nat → Nat → Prop}

section While

variable (hmore : ∀ i, i₀ ≤ i →
    Mirrors tokens ⟨i, d⟩ d (fun b j => b = true → R i j) more pmore)
variable (hitem : ∀ i j, i₀ ≤ i → i ≤ j → R i j →
    Mirrors tokens ⟨j, d⟩ d (fun _ k => i < k) item pitem)
include hmore hitem

theorem collectWithin {budget : List Token} {done : List α} (hi : i₀ ≤ i)
    (hbudget : tokens.length - i ≤ budget.length) :
    Mirrors tokens ⟨i, d⟩ d (fun _ _ => True)
      (Descent.turns (Descent.whileTurn more item) done)
      (Parser.collectWithin pmore pitem budget done.reverse) := by
  refine loop (P := fun i r j => r.isLeft = true → i < j) (R := fun _ _ _ => True)
    (f := fun budget (done : List α) => Parser.collectWithin pmore pitem budget done.reverse)
    (Parser.collectWithin_cons pmore pitem) (fun i done hi => ?_) (fun i y j hij => ?_)
    (fun _ _ _ _ => trivial) hi hbudget
  · refine (hmore i hi).bind fun b j hij hb => ite (fun hb' => ?_) fun _ => pure nofun
    exact (hitem i j hi hij (hb hb')).bind fun a k _ hk => pure fun _ => hk
  · exact ⟨hij rfl, fun _ _ _ => trivial⟩

theorem whileMore : Mirrors tokens ⟨i₀, d⟩ d (fun _ _ => True) (Descent.whileMore more item)
    (Parser.collect pmore pitem) := by
  intro c hc
  have hcollect : Mirrors tokens ⟨i₀, d⟩ d (fun _ _ => True)
      (Descent.turns (Descent.whileTurn more item) [])
      (Parser.collectWithin pmore pitem c.tokens []) :=
    collectWithin hmore hitem (Nat.le_refl i₀) (Nat.le_of_eq hc.length_tokens.symm)
  exact hcollect c hc

end While

section Separated

variable (hitem : ∀ i, i₀ ≤ i → Mirrors tokens ⟨i, d⟩ d (fun _ j => i < j) item pitem)
variable (hmore : ∀ i, i₀ ≤ i → Mirrors tokens ⟨i, d⟩ d (fun _ _ => True) more pmore)
include hitem hmore

/-- Behind a first item the others are collected, whatever is left to pay for them. -/
theorem first_collect {budget : List Token} (hi : i₀ ≤ i)
    (hbudget : tokens.length - i ≤ budget.length) {c : Cursor} (hc : c.IsAt tokens i) :
    Parser.itemsWithin pmore pitem budget [] c =
      (do
        let first ← pitem
        return first :: (← Parser.collect pmore pitem) : Parser (List α)) c := by
  have hmirrors {budget : List Token} {j : Nat} (hj : i₀ ≤ j)
      (hbudget : tokens.length - j ≤ budget.length) :
      Mirrors tokens ⟨j, d⟩ d (fun _ _ => True)
        (Descent.turns (Descent.whileTurn more item) [])
        (Parser.collectWithin pmore pitem budget []) :=
    collectWithin (R := fun i j => i ≤ j)
      (fun i hi => (hmore i hi).mono fun _ _ hle _ _ => hle)
      (fun i j hi hij _ => (hitem j (Nat.le_trans hi hij)).mono fun _ _ _ => Nat.lt_of_le_of_lt hij)
      hj hbudget
  have hrest {c' : Cursor} {j : Nat} (hc' : c'.IsAt tokens j) (hij : i ≤ j) :
      Parser.collectWithin pmore pitem budget [] c' = Parser.collect pmore pitem c' := by
    have hexact : tokens.length - j ≤ c'.tokens.length := Nat.le_of_eq hc'.length_tokens.symm
    exact unique (hmirrors (by omega) (by omega)) (hmirrors (by omega) hexact) hc'
  change (pitem c).bind _ = (pitem c).bind _
  rcases hitem i hi c hc with ⟨a, c', j, hp, -, hc', hij, -⟩ | ⟨e, s', hp, -⟩
  · rw [hp]
    change Parser.collectWithin pmore pitem budget [a] c' =
      (Parser.collect pmore pitem c').bind _
    rw [Parser.collectWithin_append pmore pitem budget [a], ← hrest hc' hij]
    rfl
  · rw [hp]
    rfl

/-- Items with a test behind each of them. -/
theorem itemsWhile : Mirrors tokens ⟨i₀, d⟩ d (fun _ j => i₀ < j) (Descent.itemsWhile item more)
    (do
      let first ← pitem
      return first :: (← Parser.collect pmore pitem)) := by
  intro c hc
  have hbudget : tokens.length - i₀ ≤ c.tokens.length := Nat.le_of_eq hc.length_tokens.symm
  rw [← first_collect hitem hmore (Nat.le_refl i₀) hbudget hc]
  refine loop (P := fun i _ j => i < j) (R := fun i _ j => i < j)
    (Parser.itemsWithin_cons pmore pitem) (fun i done hi => ?_)
    (fun i y j hij => ⟨hij, fun _ _ hjk => Nat.lt_trans hij hjk⟩) (fun _ _ _ hij => hij)
    (Nat.le_refl i₀) hbudget c hc
  refine (hitem i hi).bind fun a j _ hij => (hmore j (by omega)).bind fun b k hjk _ => ?_
  have hik : i < k := Nat.lt_of_lt_of_le hij hjk
  exact ite (fun _ => pure hik) fun _ => pure hik

end Separated

/-- Items with commas between them. -/
theorem commaItems {stop : Descent Bool} {pstop : Parser Bool} (hend : EndsInFinish tokens)
    (hitem : ∀ i, i₀ ≤ i → Mirrors tokens ⟨i, d⟩ d (fun _ j => i < j) item pitem)
    (hstop : ∀ i, i₀ ≤ i → Mirrors tokens ⟨i, d⟩ d (fun _ _ => True) stop pstop) :
    Mirrors tokens ⟨i₀, d⟩ d (fun _ _ => True) (Descent.commaItems stop item)
      (Parser.commaList pstop pitem) := by
  have hmore (i : Nat) (hi : i₀ ≤ i) : Mirrors tokens ⟨i, d⟩ d (fun _ _ => True)
      (do if ← Descent.eatMark .comma then return !(← stop) else return false)
      (Parser.commaBefore pstop) := by
    refine (eatMark hend).bind fun b j hij _ => ite (fun _ => ?_) fun _ => pure trivial
    exact (hstop j (by omega)).bind fun _ _ _ _ => pure trivial
  intro c hc
  have hbudget : tokens.length - i₀ ≤ c.tokens.length := Nat.le_of_eq hc.length_tokens.symm
  have hsame : Parser.commaList pstop pitem c = Parser.commaWithin pstop pitem c.tokens [] c := by
    change (pstop c).bind _ = (pstop c).bind _
    rcases hstop i₀ (Nat.le_refl i₀) c hc with ⟨b, c', j, hp, -, hc', hij, -⟩ | ⟨e, s', hp, -⟩
    · rw [hp]
      have hshort : tokens.length - j ≤ c.tokens.length :=
        Nat.le_trans (Nat.sub_le_sub_left hij _) hbudget
      cases b with
      | true => rfl
      | false => exact (first_collect hitem hmore hij hshort hc').symm
    · rw [hp]
      rfl
  rw [hsame]
  refine loop (P := fun i r j => r.isLeft = true → i < j) (R := fun _ _ _ => True)
    (Parser.commaWithin_cons pstop pitem) (fun i done hi => ?_)
    (fun i y j hij => ⟨hij rfl, fun _ _ _ => trivial⟩) (fun _ _ _ _ => trivial)
    (Nat.le_refl i₀) hbudget c hc
  refine (hstop i hi).bind fun b j hij _ => ite (fun _ => pure nofun) fun _ => ?_
  refine (hitem j (by omega)).bind fun a k _ hjk => (eatMark hend).bind fun b l hkl _ => ?_
  exact ite (fun _ => pure fun _ => by omega) fun _ => pure nofun

theorem commaRest {stop : Descent Bool} {pstop : Parser Bool} (hend : EndsInFinish tokens)
    (hitem : ∀ i, i₀ ≤ i → Mirrors tokens ⟨i, d⟩ d (fun _ j => i < j) item pitem)
    (hstop : ∀ i, i₀ ≤ i → Mirrors tokens ⟨i, d⟩ d (fun _ _ => True) stop pstop) :
    Mirrors tokens ⟨i₀, d⟩ d (fun _ _ => True) (Descent.commaRest stop item)
      (Parser.commaRest pstop pitem) := by
  refine whileMore (R := fun i j => i ≤ j) (fun i hi => ?_) fun i j hi hij _ => ?_
  · refine (eatMark hend).bind fun b j hij _ => ite (fun _ => ?_) fun _ => pure nofun
    exact (hstop j (by omega)).bind fun _ k hjk _ => pure fun _ => Nat.le_trans hij hjk
  · exact (hitem j (Nat.le_trans hi hij)).mono fun _ k _ hjk => Nat.lt_of_le_of_lt hij hjk

end Collecting

end Mirrors

/-! ## Chains -/

/-- What a chain goes on with behind an expression: it ends there, or has a link, which `link` reads
one level further in, and goes on at that level as `tail` does. -/
def chainRest {κ : Type} (link : Nat → κ → Expr → Parser Expr) (tail : Nat → Expr → Parser Expr)
    (depth : Nat) (left : Expr) : Option κ → Parser Expr
  | none => pure left
  | some op =>
    if depth < maxNesting then do tail (depth + 1) (← link (depth + 1) op left)
    else Parser.fail .nesting

/-- An operator finds what the rest of a chain goes on with, and the operators it finds have the
property `P`. -/
def Leads {κ : Type} (tokens : List Token) (operator : Descent (Option κ))
    (link : Nat → κ → Expr → Parser Expr) (tail : Nat → Expr → Parser Expr)
    (P : κ → Nat → Prop) : Prop :=
  ∀ left i e (c : Cursor), c.IsAt tokens i → ∃ r c' j,
    operator tokens ⟨i, e⟩ = (.ok r, ⟨j, e⟩) ∧ tail e left c = chainRest link tail e left r c' ∧
      c'.IsAt tokens j ∧ i ≤ j ∧ ∀ op ∈ r, P op j

namespace Leads

variable {κ : Type} {tokens : List Token} (hend : EndsInFinish tokens)
include hend

/-- An operator that is seen from one token, and taken. -/
theorem peek {link : Nat → κ → Expr → Parser Expr} {tail : Nat → Expr → Parser Expr}
    {F : Lexeme → Descent (Option κ)} {G : Nat → Expr → Lexeme → Parser Expr}
    (htail : ∀ e left, tail e left = Parser.peek >>= G e left)
    (h : ∀ lexeme, (F lexeme = pure none ∧ ∀ e left, G e left lexeme = pure left) ∨
      lexeme ≠ .finish ∧ ∃ op, F lexeme = (do Descent.advance; return some op) ∧
        ∀ e left, G e left lexeme = (do
          Parser.advance
          chainRest link tail e left (some op))) :
    Leads tokens (Descent.peek >>= F) link tail fun _ _ => True := by
  intro left i e c hc
  have hbind : (Parser.peek >>= G e left) c = G e left c.here.lexeme c := rfl
  rw [Descent.bind_ok (Descent.peek_of_isAt hc), htail, hbind]
  rcases h c.here.lexeme with ⟨hF, hG⟩ | ⟨hne, op, hF, hG⟩
  · rw [hF, hG]
    exact ⟨none, c, i, rfl, rfl, hc, Nat.le_refl i, fun _ _ => trivial⟩
  · obtain ⟨hmove, hnext⟩ := Descent.advance_of_isAt (d := e) hend hc hne
    rw [hF, hG, Descent.bind_ok hmove]
    exact ⟨some op, c.next, i + 1, rfl, rfl, hnext, Nat.le_succ i, fun _ _ => trivial⟩

/-- A keyword between two operands. -/
theorem keyword {link : Nat → Unit → Expr → Parser Expr} {tail : Nat → Expr → Parser Expr}
    {keyword : String} (htail : ∀ e left, tail e left = (do
      if ← Parser.eatKeyword keyword then chainRest link tail e left (some ()) else return left)) :
    Leads tokens (Descent.keywordOp keyword) link tail fun _ _ => True := by
  intro left i e c hc
  have hbind {p : Parser Bool} {q : Bool → Parser Expr} :
      (p >>= q) c = (p c).bind fun r => q r.1 r.2 := rfl
  have heat : Parser.eatKeyword keyword c = (if decide (c.here.lexeme = .name keyword) = true then
      (do Parser.advance; return true) else return false : Parser Bool) c := rfl
  unfold Descent.keywordOp Descent.eatKeyword Descent.eat
  rw [htail, hbind, heat, bind_assoc, Descent.bind_ok (Descent.at?_of_isAt hc _)]
  by_cases hhere : c.here.lexeme = .name keyword
  · have hne : c.here.lexeme ≠ .finish := by
      rw [hhere]
      nofun
    obtain ⟨hmove, hnext⟩ := Descent.advance_of_isAt (d := e) hend hc hne
    rw [decide_eq_true hhere, if_pos rfl, if_pos rfl, bind_assoc, Descent.bind_ok hmove]
    exact ⟨some (), c.next, i + 1, rfl, rfl, hnext, Nat.le_succ i, fun _ _ => trivial⟩
  · rw [decide_eq_false hhere, if_neg Bool.false_ne_true, if_neg Bool.false_ne_true]
    exact ⟨none, c, i, rfl, rfl, hc, Nat.le_refl i, fun _ _ => trivial⟩

end Leads

namespace Mirrors

section Chain

variable {κ : Type} {tokens : List Token} {operator : Descent (Option κ)}
variable {link : κ → Expr → Descent Expr} {plink : Nat → κ → Expr → Parser Expr}
variable {tail : Nat → Expr → Parser Expr} {P : κ → Nat → Prop}
variable {i₀ i d n : Nat} {left : Expr}
variable (hoperator : Leads tokens operator plink tail P)
variable (hlink : ∀ op left i e, i₀ ≤ i → P op i → e ≤ maxNesting →
    Mirrors tokens ⟨i, e⟩ e (fun _ j => i < j) (link op left) (plink e op left))
include hoperator hlink

/-- A turn of a chain ends it and leaves the levels of its `n` links, or adds one, or fails. -/
theorem chainTurn {c : Cursor} (hc : c.IsAt tokens i) (hi : i₀ ≤ i) :
    (∃ c' j, tail (d + n) left c = .ok (left, c') ∧
      Descent.chainTurn operator link (left, n) tokens ⟨i, d + n⟩ = (.ok (.inr left), ⟨j, d⟩) ∧
      c'.IsAt tokens j ∧ i ≤ j) ∨
    (∃ longer c' j, tail (d + n) left c = tail (d + (n + 1)) longer c' ∧
      Descent.chainTurn operator link (left, n) tokens ⟨i, d + n⟩ =
        (.ok (.inl (longer, n + 1)), ⟨j, d + (n + 1)⟩) ∧
      c'.IsAt tokens j ∧ i < j ∧ d + (n + 1) ≤ maxNesting) ∨
    ∃ e s', tail (d + n) left c = .error e ∧
      Descent.chainTurn operator link (left, n) tokens ⟨i, d + n⟩ = (.error (.fault e), s') ∧
      d ≤ s'.depth ∧ e.fault ≠ .stalled := by
  obtain ⟨r, c', j, hm, htail, hc', hij, hr⟩ := hoperator left i (d + n) c hc
  rw [htail]
  cases r with
  | none =>
    refine Or.inl ⟨c', j, rfl, ?_, hc', hij⟩
    rw [Descent.chainTurn_none hm (Nat.le_add_left n d), Nat.add_sub_cancel]
  | some op =>
    rw [Descent.chainTurn_some hm, chainRest]
    by_cases hroom : d + n < maxNesting
    · rw [if_pos hroom, Descent.bind_ok (Descent.descend_of_lt hroom)]
      change (∃ c'' k, (plink (d + n + 1) op left c').bind _ = _ ∧ _) ∨
        (∃ longer c'' k, (plink (d + n + 1) op left c').bind _ = _ ∧ _) ∨
        ∃ e s', (plink (d + n + 1) op left c').bind _ = _ ∧ _
      rcases hlink op left j (d + n + 1) (Nat.le_trans hi hij) (hr op rfl) hroom c' hc' with
        ⟨longer, c'', k, hpl, hml, hc'', hjk, hlt⟩ | ⟨e, s', hpl, hml, hdepth, hgenuine⟩
      · rw [hpl, Descent.bind_ok hml]
        exact Or.inr (Or.inl ⟨longer, c'', k, rfl, rfl, hc'', Nat.lt_of_le_of_lt hij hlt, hroom⟩)
      · rw [hpl, Descent.bind_error hml]
        exact Or.inr (Or.inr ⟨e, s', rfl, rfl, by omega, hgenuine⟩)
    · rw [if_neg hroom, Descent.bind_error (Descent.descend_of_not_lt hroom hc')]
      exact Or.inr (Or.inr ⟨_, _, rfl, rfl, Nat.le_add_right d n, nofun⟩)

/-- The turns of a chain read what is left of it. -/
theorem chainTurns (hi : i₀ ≤ i) (hdepth : d + n ≤ maxNesting) :
    Mirrors tokens ⟨i, d + n⟩ d (fun _ _ => True)
      (Descent.turns (Descent.chainTurn operator link) (left, n)) (tail (d + n) left) := by
  -- On the tokens left, since a turn need not take just one; the depth grows with the links.
  induction hleft : tokens.length - i using Nat.strongRecOn generalizing i left n with
  | ind _ ih =>
    subst hleft
    intro c (hc : c.IsAt tokens i)
    rcases chainTurn hoperator hlink hc hi with ⟨c', j, hp, hturn, hc', hij⟩ |
      ⟨longer, c', j, hp, hturn, hc', hij, hroom⟩ | ⟨e, s', hp, hturn, hfault⟩
    · exact Or.inl ⟨left, c', j, hp, Descent.turns_of_inr hturn, hc', hij, trivial⟩
    · have hshort : tokens.length - j < tokens.length - i := by
        have hrange := hc'.lt_length
        omega
      rw [hp, Descent.turns_of_inl hturn hshort]
      rcases ih _ hshort (Nat.le_trans hi (Nat.le_of_lt hij)) hroom rfl c' hc' with
        ⟨b, c'', k, hpb, hmb, hc'', hjk, -⟩ | hfault
      · exact Or.inl ⟨b, c'', k, hpb, hmb, hc'', Nat.le_trans (Nat.le_of_lt hij) hjk, trivial⟩
      · exact Or.inr hfault
    · exact Or.inr ⟨e, s', hp, Descent.turns_of_error hturn, hfault⟩

omit hoperator hlink

/-- A chain, the links of which each go one level further in than the last one. -/
theorem chain {operand : Descent Expr} {poperand : Parser Expr}
    (hoperand : Mirrors tokens ⟨i, d⟩ d (fun _ j => i < j) operand poperand)
    (hoperator : Leads tokens operator plink tail P)
    (hlink : ∀ op left j e, i < j → P op j → e ≤ maxNesting →
      Mirrors tokens ⟨j, e⟩ e (fun _ k => j < k) (link op left) (plink e op left))
    (hd : d ≤ maxNesting) :
    Mirrors tokens ⟨i, d⟩ d (fun _ j => i < j) (Descent.chain operand operator link)
      (do tail d (← poperand)) := by
  refine hoperand.bind fun first j _ hij => ?_
  refine (chainTurns (n := 0) hoperator hlink hij hd).mono fun _ k hjk _ => ?_
  exact Nat.lt_of_lt_of_le hij hjk

end Chain

end Mirrors

end Descent

end Monorepo.Script
