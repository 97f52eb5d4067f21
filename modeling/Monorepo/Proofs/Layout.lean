import Mathlib.Data.List.Chain
import Monorepo.Proofs.Lines
import Monorepo.Proofs.Margins

/-!
# Texts and their tokens

A text is made up of tokens and of gaps between them. What is said here of the tokens says nothing of
how they are found: each stands where the text in front of it ends, a logical line ends only where
no bracket is open, and blocks open and close between two logical lines only. From this follows what
a parser relies on: where a layout token may stand, and that no token stands in front of an earlier
one.
-/

namespace Monorepo.Script

/-! ## Places -/

/-- The place behind a text: a line for each line break, and a column for each character since the
    last one. -/
def placeBehind (cs : List Char) : Position where
  line := 1 + cs.count '\n'
  column := 1 + (cs.reverse.takeWhile (· ≠ '\n')).length

theorem placeBehind_concat (cs : List Char) (c : Char) :
    placeBehind (cs ++ [c]) = (placeBehind cs).after c := by
  unfold placeBehind Position.after
  by_cases hc : c = '\n'
  · simp [hc, Nat.add_assoc]
  · simp [hc, Nat.add_comm]

namespace Position

/-- A place that is not behind another one. -/
instance : LE Position where
  le p q := p.line < q.line ∨ p.line = q.line ∧ p.column ≤ q.column

theorem le_refl (p : Position) : p ≤ p := Or.inr ⟨rfl, Nat.le_refl _⟩

theorem le_trans {p q r : Position} (h : p ≤ q) (h' : q ≤ r) : p ≤ r := by
  rcases h with h | ⟨h, hc⟩
  · rcases h' with h' | ⟨h', hc'⟩
    · exact Or.inl (by omega)
    · exact Or.inl (by omega)
  · rcases h' with h' | ⟨h', hc'⟩
    · exact Or.inl (by omega)
    · exact Or.inr ⟨by omega, by omega⟩

theorem le_after (p : Position) (c : Char) : p ≤ p.after c := by
  unfold after
  split
  · exact Or.inl (Nat.lt_succ_self _)
  · exact Or.inr ⟨rfl, Nat.le_succ _⟩

end Position

theorem placeBehind_le_append (cs ds : List Char) : placeBehind cs ≤ placeBehind (cs ++ ds) := by
  induction ds generalizing cs with
  | nil =>
    rw [List.append_nil]
    exact Position.le_refl _
  | cons d ds ih =>
    have hsplit : cs ++ d :: ds = (cs ++ [d]) ++ ds := by simp
    have hstep : placeBehind cs ≤ placeBehind (cs ++ [d]) := by
      rw [placeBehind_concat]
      exact Position.le_after _ d
    rw [hsplit]
    exact Position.le_trans hstep (ih _)

/-- The place where a line begins. -/
def Position.margin (p : Position) : Position := ⟨p.line, 1⟩

theorem margin_le_placeBehind (cs : List Char) : (placeBehind cs).margin ≤ placeBehind cs :=
  Or.inr ⟨rfl, Nat.le_add_right _ _⟩

theorem margin_le_margin {p q : Position} (h : p ≤ q) : p.margin ≤ q.margin := by
  rcases h with h | ⟨h, -⟩
  · exact Or.inl h
  · exact Or.inr ⟨h, Nat.le_refl _⟩

/-! ## How tokens are written -/

/-- How a literal goes on behind its first quotes, and what it stands for so far, in reverse. A long
    one may hold quotes and line breaks. -/
inductive Literal.Body (l : Literal) (long : Bool) : (written reversed : List Char) → Prop
  | nil : Body l long [] []
  | plain {written reversed : List Char} {c : Char} (h : Body l long written reversed)
    (hbackslash : c ≠ '\\') (hc : long = true ∨ c ≠ l.quote ∧ c ≠ '\n') :
    Body l long (written ++ [c]) (c :: reversed)
  | escape {written reversed : List Char} (h : Body l long written reversed) (c : Char) :
    Body l long (written ++ ['\\', c]) (l.escaped c ++ reversed)

/-- How a literal is written from its first quote on, and what it stands for, in reverse. -/
inductive Literal.Written (l : Literal) : (written reversed : List Char) → Prop
  | short {written reversed : List Char} (h : l.Body false written reversed) :
    Written l (l.quote :: written ++ [l.quote]) reversed
  | long {written reversed : List Char} (h : l.Body true written reversed) :
    Written l (List.replicate 3 l.quote ++ written ++ List.replicate 3 l.quote) reversed

/-- A literal that begins behind a text and the marks in front of its first quote. Its place is that
    of the quote. -/
structure Literal.Stands (l : Literal) (cs marks : List Char) : Prop where
  start : l.start = placeBehind (cs ++ marks)
  isMark : Scanner.isLiteralMark marks = true
  raw : l.raw = marks.any (·.toLower == 'r')
  quote : l.quote = '"' ∨ l.quote = '\''

/-- How the other printed tokens are written. -/
inductive Lexeme.Written : (lexeme : Lexeme) → (written : List Char) → Prop
  | name {c : Char} {cs : List Char} (hfirst : isWordStart c = true)
    (hrest : ∀ d ∈ cs, isWordChar d = true) : Written (.name (String.ofList (c :: cs))) (c :: cs)
  /-- Underscores and the case of letters do not matter. -/
  | number {lexeme : Lexeme} {c : Char} {cs : List Char} (hfirst : c.isDigit = true ∨ c = '.')
    (hread : Scanner.readNumber? (((c :: cs).filter (· != '_')).map Char.toLower) = some lexeme) :
    Written lexeme (c :: cs)
  | mark (m : Mark) : Written (.mark m) m.spelling.toList

/-! ## Laid out texts -/

/-- A text that is made up of given tokens, the last one first, and of gaps, and that leaves some
    brackets open. -/
inductive Laid : (cs : List Char) → (emitted : List Token) → (brackets : Nat) → Prop
  | nil : Laid [] [] 0
  | blank {cs : List Char} {ts : List Token} {b : Nat} {c : Char} (h : Laid cs ts b)
    (hc : c ∈ [' ', '\t', '\r', '\x0c']) : Laid (cs ++ [c]) ts b
  | comment {cs : List Char} {ts : List Token} {b : Nat} {text : List Char} (h : Laid cs ts b)
    (htext : '\n' ∉ text) : Laid (cs ++ '#' :: text) ts b
  /-- A line that goes on. -/
  | continued {cs : List Char} {ts : List Token} {b : Nat} (h : Laid cs ts b) :
    Laid (cs ++ ['\\', '\n']) ts b
  /-- A line break within brackets. -/
  | joined {cs : List Char} {ts : List Token} {b : Nat} (h : Laid cs ts b) (hb : 0 < b) :
    Laid (cs ++ ['\n']) ts b
  /-- The end of a line without a token. -/
  | emptyLine {cs : List Char} {ts : List Token} (h : Laid cs ts 0)
    (htop : ∀ t ∈ ts.head?, t.lexeme = .newline) : Laid (cs ++ ['\n']) ts 0
  | printed {cs : List Char} {ts : List Token} {b : Nat} {lexeme : Lexeme} {written : List Char}
    (h : Laid cs ts b) (hwritten : lexeme.Written written) :
    Laid (cs ++ written) (⟨lexeme, placeBehind cs⟩ :: ts) (lexeme.brackets b)
  | text {cs : List Char} {ts : List Token} {b : Nat} {l : Literal}
    {marks written reversed : List Char} (h : Laid cs ts b) (hl : l.Stands cs marks)
    (hwritten : l.Written written reversed) :
    Laid (cs ++ (marks ++ written)) (⟨.text (String.ofList reversed.reverse), l.start⟩ :: ts) b
  /-- A literal that follows a literal is a part of it. -/
  | further {cs : List Char} {ts : List Token} {b : Nat} {l : Literal}
    {marks written reversed : List Char} {before : String} {place : Position}
    (h : Laid cs (⟨.text before, place⟩ :: ts) b) (hl : l.Stands cs marks)
    (hwritten : l.Written written reversed) :
    Laid (cs ++ (marks ++ written))
      (⟨.text (before ++ String.ofList reversed.reverse), place⟩ :: ts) b
  /-- The end of a logical line. -/
  | newline {cs : List Char} {ts : List Token} (h : Laid cs ts 0) :
    Laid (cs ++ ['\n']) (⟨.newline, placeBehind cs⟩ :: ts) 0
  | indent {cs : List Char} {ts : List Token} (h : Laid cs ts 0)
    (htop : ∀ t ∈ ts.head?, t.lexeme = .newline) :
    Laid cs (⟨.indent, (placeBehind cs).margin⟩ :: ts) 0
  | dedent {cs : List Char} {t : Token} {ts : List Token} (h : Laid cs (t :: ts) 0)
    (htop : t.lexeme = .newline ∨ t.lexeme = .dedent) :
    Laid cs (⟨.dedent, (placeBehind cs).margin⟩ :: t :: ts) 0

theorem Lexeme.Written.isPrinted {lexeme : Lexeme} {written : List Char}
    (h : lexeme.Written written) : lexeme.isPrinted = true := by
  cases h with
  | name hfirst hrest => rfl
  | number hfirst hread => exact (Scanner.readNumber?_printed hread).1
  | mark m => rfl

/-! ## Which tokens may stand side by side -/

/-- What two tokens are that stand side by side. -/
structure Token.Precedes (t u : Token) : Prop where
  indent : u.lexeme = .indent → t.lexeme = .newline
  dedent : u.lexeme = .dedent → t.lexeme = .newline ∨ t.lexeme = .dedent
  behindIndent : t.lexeme = .indent → u.lexeme ≠ .dedent ∧ u.lexeme ≠ .finish

/-- A token that is printed or ends a line may stand anywhere. -/
theorem Token.precedes_of_isOnLine (t : Token) {u : Token} (h : u.lexeme.IsOnLine) :
    t.Precedes u := by
  obtain ⟨lexeme, place⟩ := u
  constructor
  · rintro rfl
    rcases h with h | h <;> cases h
  · rintro rfl
    rcases h with h | h <;> cases h
  · intro _
    constructor
    · rintro rfl
      rcases h with h | h <;> cases h
    · rintro rfl
      rcases h with h | h <;> cases h

theorem Laid.isChain {cs : List Char} {ts : List Token} {b : Nat} (h : Laid cs ts b) :
    ts.IsChain (fun u t => t.Precedes u) := by
  induction h with
  | nil => exact .nil
  | blank h hc ih => exact ih
  | comment h htext ih => exact ih
  | continued h ih => exact ih
  | joined h hb ih => exact ih
  | emptyLine h htop ih => exact ih
  | printed h hwritten ih =>
    refine List.isChain_cons.mpr ⟨fun t _ => ?_, ih⟩
    exact t.precedes_of_isOnLine (Or.inl hwritten.isPrinted)
  | text h hl hwritten ih =>
    exact List.isChain_cons.mpr ⟨fun t _ => t.precedes_of_isOnLine (Or.inl rfl), ih⟩
  | further h hl hwritten ih =>
    obtain ⟨-, htail⟩ := List.isChain_cons.mp ih
    exact List.isChain_cons.mpr ⟨fun t _ => t.precedes_of_isOnLine (Or.inl rfl), htail⟩
  | newline h ih =>
    exact List.isChain_cons.mpr ⟨fun t _ => t.precedes_of_isOnLine (Or.inr rfl), ih⟩
  | indent h htop ih =>
    refine List.isChain_cons.mpr ⟨fun t ht => ?_, ih⟩
    have hnewline := htop t ht
    exact ⟨fun _ => hnewline, nofun, fun hindent => by rw [hnewline] at hindent; cases hindent⟩
  | @dedent cs t ts h htop ih =>
    refine List.isChain_cons_cons.mpr ⟨⟨nofun, fun _ => htop, fun hindent => ?_⟩, ih⟩
    rw [hindent] at htop
    rcases htop with h | h <;> cases h

/-! ## Brackets -/

/-- How many brackets are open behind some tokens; a closing one too many is not counted. -/
def openBrackets (tokens : List Token) : Nat := tokens.foldl (fun b t => t.lexeme.brackets b) 0

theorem openBrackets_concat (tokens : List Token) (t : Token) :
    openBrackets (tokens ++ [t]) = t.lexeme.brackets (openBrackets tokens) := by
  unfold openBrackets
  rw [List.foldl_append]
  rfl

theorem Laid.openBrackets_eq {cs : List Char} {ts : List Token} {b : Nat} (h : Laid cs ts b) :
    openBrackets ts.reverse = b := by
  induction h with
  | nil => rfl
  | blank h hc ih => exact ih
  | comment h htext ih => exact ih
  | continued h ih => exact ih
  | joined h hb ih => exact ih
  | emptyLine h htop ih => exact ih
  | printed h hwritten ih => rw [List.reverse_cons, openBrackets_concat, ih]
  | text h hl hwritten ih =>
    rw [List.reverse_cons, openBrackets_concat, ih]
    rfl
  | further h hl hwritten ih =>
    rw [List.reverse_cons, openBrackets_concat] at ih ⊢
    exact ih
  | newline h ih =>
    rw [List.reverse_cons, openBrackets_concat, ih]
    rfl
  | indent h htop ih =>
    rw [List.reverse_cons, openBrackets_concat, ih]
    rfl
  | dedent h htop ih =>
    rw [List.reverse_cons, openBrackets_concat, ih]
    rfl

/-- No bracket is open where a line ends or a block opens or closes. -/
theorem Laid.openBrackets_eq_zero {cs : List Char} {ts : List Token} {b : Nat} (h : Laid cs ts b)
    {t : Token} {before : List Token} (hsuffix : t :: before <:+ ts)
    (ht : t.lexeme.isPrinted = false) : openBrackets before.reverse = 0 := by
  -- A printed token on top is not the one that is asked for.
  have hbelow {u : Token} {us : List Token} (hu : u.lexeme.isPrinted = true)
      (hsuffix : t :: before <:+ u :: us) : t :: before <:+ us := by
    rcases List.suffix_cons_iff.mp hsuffix with heq | hsuffix
    · obtain ⟨rfl, -⟩ := List.cons.inj heq
      rw [hu] at ht
      cases ht
    · exact hsuffix
  -- No bracket is open below a layout token on top.
  have htop {u : Token} {cs : List Char} {us : List Token} (h : Laid cs us 0)
      (ih : t :: before <:+ us → openBrackets before.reverse = 0)
      (hsuffix : t :: before <:+ u :: us) : openBrackets before.reverse = 0 := by
    rcases List.suffix_cons_iff.mp hsuffix with heq | hsuffix
    · obtain ⟨-, rfl⟩ := List.cons.inj heq
      exact h.openBrackets_eq
    · exact ih hsuffix
  induction h with
  | nil => exact absurd (List.suffix_nil.mp hsuffix) (List.cons_ne_nil _ _)
  | blank h hc ih => exact ih hsuffix
  | comment h htext ih => exact ih hsuffix
  | continued h ih => exact ih hsuffix
  | joined h hb ih => exact ih hsuffix
  | emptyLine h htop ih => exact ih hsuffix
  | printed h hwritten ih => exact ih (hbelow hwritten.isPrinted hsuffix)
  | text h hl hwritten ih => exact ih (hbelow rfl hsuffix)
  | further h hl hwritten ih => exact ih ((hbelow rfl hsuffix).trans (List.suffix_cons _ _))
  | newline h ih => exact htop h ih hsuffix
  | indent h _ ih => exact htop h ih hsuffix
  | dedent h _ ih => exact htop h ih hsuffix

/-! ## The order of the tokens -/

namespace Laid

variable {cs : List Char} {ts : List Token} {b : Nat}

/-- No token stands behind the text. -/
theorem le (h : Laid cs ts b) : ∀ t ∈ ts, t.position ≤ placeBehind cs := by
  have hgap {cs : List Char} {ts : List Token} (ds : List Char)
      (ih : ∀ t ∈ ts, t.position ≤ placeBehind cs) :
      ∀ t ∈ ts, t.position ≤ placeBehind (cs ++ ds) :=
    fun t ht => Position.le_trans (ih t ht) (placeBehind_le_append cs ds)
  induction h with
  | nil => exact List.forall_mem_nil _
  | blank h hc ih => exact hgap _ ih
  | comment h htext ih => exact hgap _ ih
  | continued h ih => exact hgap _ ih
  | joined h hb ih => exact hgap _ ih
  | emptyLine h htop ih => exact hgap _ ih
  | printed h hwritten ih =>
    exact List.forall_mem_cons.mpr ⟨placeBehind_le_append _ _, hgap _ ih⟩
  | @text cs ts b l marks written reversed h hl hwritten ih =>
    refine List.forall_mem_cons.mpr ⟨?_, hgap _ ih⟩
    have hstart : l.start ≤ placeBehind (cs ++ marks ++ written) := by
      rw [hl.start]
      exact placeBehind_le_append (cs ++ marks) written
    rwa [List.append_assoc] at hstart
  | further h hl hwritten ih =>
    obtain ⟨hplace, hrest⟩ := List.forall_mem_cons.mp (hgap _ ih)
    exact List.forall_mem_cons.mpr ⟨hplace, hrest⟩
  | newline h ih => exact List.forall_mem_cons.mpr ⟨placeBehind_le_append _ _, hgap _ ih⟩
  | indent h htop ih => exact List.forall_mem_cons.mpr ⟨margin_le_placeBehind _, ih⟩
  | dedent h htop ih => exact List.forall_mem_cons.mpr ⟨margin_le_placeBehind _, ih⟩

/-- Between two lines no token stands behind the margin of the next one. -/
theorem le_margin (h : Laid cs ts b)
    (htop : ∀ t ∈ ts.head?, t.lexeme = .newline ∨ t.lexeme = .dedent) :
    ∀ t ∈ ts, t.position ≤ (placeBehind cs).margin := by
  have hgap {cs : List Char} {ts : List Token} (ds : List Char)
      (ih : ∀ t ∈ ts, t.position ≤ (placeBehind cs).margin) :
      ∀ t ∈ ts, t.position ≤ (placeBehind (cs ++ ds)).margin :=
    fun t ht => Position.le_trans (ih t ht) (margin_le_margin (placeBehind_le_append cs ds))
  induction h with
  | nil => exact List.forall_mem_nil _
  | blank h hc ih => exact hgap _ (ih htop)
  | comment h htext ih => exact hgap _ (ih htop)
  | continued h ih => exact hgap _ (ih htop)
  | joined h hb ih => exact hgap _ (ih htop)
  | emptyLine h _ ih => exact hgap _ (ih htop)
  | printed h hwritten ih =>
    have hprinted := hwritten.isPrinted
    rcases htop _ rfl with hlexeme | hlexeme
    · cases hlexeme
      cases hprinted
    · cases hlexeme
      cases hprinted
  | text h hl hwritten ih => rcases htop _ rfl with hlexeme | hlexeme <;> cases hlexeme
  | further h hl hwritten ih => rcases htop _ rfl with hlexeme | hlexeme <;> cases hlexeme
  | @newline cs ts h ih =>
    -- The next line begins behind the whole text.
    have hbehind (t : Token) (ht : t.position ≤ placeBehind cs) :
        t.position ≤ (placeBehind (cs ++ ['\n'])).margin := by
      refine Position.le_trans ht (Or.inl ?_)
      rw [placeBehind_concat]
      exact Nat.lt_succ_self _
    refine List.forall_mem_cons.mpr ⟨hbehind _ (Position.le_refl _), fun t ht => ?_⟩
    exact hbehind t (h.le t ht)
  | indent h _ ih => rcases htop _ rfl with hlexeme | hlexeme <;> cases hlexeme
  | dedent h hbelow ih =>
    refine List.forall_mem_cons.mpr ⟨Position.le_refl _, ih ?_⟩
    rintro _ ⟨⟩
    exact hbelow

/-- No token stands in front of an earlier one. -/
theorem pairwise (h : Laid cs ts b) : ts.Pairwise (fun u t => t.position ≤ u.position) := by
  induction h with
  | nil => exact .nil
  | blank h hc ih => exact ih
  | comment h htext ih => exact ih
  | continued h ih => exact ih
  | joined h hb ih => exact ih
  | emptyLine h htop ih => exact ih
  | printed h hwritten ih => exact .cons h.le ih
  | text h hl hwritten ih =>
    refine .cons (fun t ht => Position.le_trans (h.le t ht) ?_) ih
    rw [hl.start]
    exact placeBehind_le_append _ _
  | further h hl hwritten ih =>
    obtain ⟨hplace, hrest⟩ := List.pairwise_cons.mp ih
    exact .cons hplace hrest
  | newline h ih => exact .cons h.le ih
  | indent h htop ih => exact .cons (h.le_margin fun t ht => Or.inl (htop t ht)) ih
  | dedent h htop ih =>
    refine .cons (h.le_margin ?_) ih
    rintro _ ⟨⟩
    exact htop

/-- Several blocks close at a margin. -/
theorem dedents (h : Laid cs ts 0) (htop : ∀ t ∈ ts.head?, t.lexeme = .newline) {n : Nat}
    (hn : ts = [] → n = 0) :
    Laid cs (List.replicate n ⟨.dedent, (placeBehind cs).margin⟩ ++ ts) 0 := by
  induction n with
  | zero => exact h
  | succ n ih =>
    have hne : ts ≠ [] := fun hnil => absurd (hn hnil) (Nat.succ_ne_zero n)
    cases n with
    | zero =>
      cases ts with
      | nil => exact absurd rfl hne
      | cons t ts => exact .dedent h (Or.inl (htop t rfl))
    | succ n => exact .dedent (ih fun hnil => absurd hnil hne) (Or.inr rfl)

end Laid

end Monorepo.Script
