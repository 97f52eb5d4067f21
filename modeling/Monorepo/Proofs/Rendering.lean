import Monorepo.Proofs.Occurrences

/-!
# Writing expressions down

An expression is written down as tokens with as few parentheses as its operators allow: a part
stands in parentheses just if its operator binds more loosely than its position asks. Positions are
counted by levels, from conditional expressions, which bind most loosely, to atoms.
-/

namespace Monorepo.Script

/-! ## Levels -/

/-- The level of sums or of products. -/
def ArithmeticOp.level : ArithmeticOp → Nat
  | .add | .subtract => 5
  | .multiply | .divide | .floorDivide | .modulo => 6

/-- The level of an operator with one operand. -/
def UnaryOp.level : UnaryOp → Nat
  | .not => 3
  | .minus | .plus => 7

/-- How tightly an expression binds: 0 for a conditional one, then `or`, `and`, `not`, comparisons,
    sums, products and signs, 8 for calls, subscripts and attributes, and 9 for atoms. -/
def Expr.level : Expr → Nat
  | .conditional .. => 0
  | .either .. => 1
  | .both .. => 2
  | .compare .. => 4
  | .arithmetic op .. => op.level
  | .unary op _ => op.level
  | .call .. | .attribute .. | .subscript .. => 8
  | _ => 9

/-! ## Tokens -/

/-- How an arithmetic operator is written. -/
def ArithmeticOp.mark : ArithmeticOp → Mark
  | .add => .plus
  | .subtract => .minus
  | .multiply => .star
  | .divide => .slash
  | .floorDivide => .doubleSlash
  | .modulo => .percent

/-- How an operator with one operand is written. -/
def UnaryOp.lexeme : UnaryOp → Lexeme
  | .minus => .mark .minus
  | .plus => .mark .plus
  | .not => .name "not"

/-- How a comparison operator is written. -/
def ComparisonOp.lexemes : ComparisonOp → List Lexeme
  | .equal => [.mark .equal]
  | .notEqual => [.mark .notEqual]
  | .less => [.mark .less]
  | .lessEqual => [.mark .lessEqual]
  | .greater => [.mark .greater]
  | .greaterEqual => [.mark .greaterEqual]
  | .within => [.name "in"]
  | .notWithin => [.name "not", .name "in"]
  | .same => [.name "is"]
  | .notSame => [.name "is", .name "not"]

/-- Items with commas between them. -/
def separated : List (List Lexeme) → List Lexeme
  | [] => []
  | first :: rest => first ++ rest.flatMap (.mark .comma :: ·)

/-- Tokens in parentheses. -/
def inParens (lexemes : List Lexeme) : List Lexeme :=
  .mark .leftParen :: lexemes ++ [.mark .rightParen]

/-- Tokens of an expression of some level where a level is asked for. -/
def placed (level asked : Nat) (lexemes : List Lexeme) : List Lexeme :=
  if level < asked then inParens lexemes else lexemes

mutual

/-- An expression without parentheses around it, a tuple apart. -/
def Expr.body : Expr → List Lexeme
  | .none => [.name "None"]
  | .bool value => [.name (if value then "True" else "False")]
  | .int value => [.int value]
  | .float value => [.float value]
  | .text value => [.text value]
  | .name name => [.name name]
  | .list items => .mark .leftBracket :: separated (itemBodies items) ++ [.mark .rightBracket]
  | .tuple items =>
    -- the comma tells a tuple of one item from an expression in parentheses
    inParens (separated (itemBodies items) ++ if items.length = 1 then [.mark .comma] else [])
  | .dict entries =>
    .mark .leftBrace :: separated (entryBodies entries) ++ [.mark .rightBrace]
  | .comprehension element targets source condition =>
    .mark .leftBracket :: element.body ++
      .name "for" :: separated (targets.map ([.name ·])) ++
      .name "in" :: placed source.level 1 source.body ++ conditionBody condition ++
      [.mark .rightBracket]
  | .call callee arguments =>
    placed callee.level 8 callee.body ++ inParens (separated (argumentBodies arguments))
  | .attribute object name => placed object.level 8 object.body ++ [.mark .dot, .name name]
  | .subscript object index =>
    placed object.level 8 object.body ++
      .mark .leftBracket :: index.body ++ [.mark .rightBracket]
  | .arithmetic op left right =>
    placed left.level op.level left.body ++
      .mark op.mark :: placed right.level (op.level + 1) right.body
  | .unary op operand => op.lexeme :: placed operand.level op.level operand.body
  | .compare op left right =>
    placed left.level 4 left.body ++ op.lexemes ++ placed right.level 5 right.body
  | .both left right =>
    placed left.level 2 left.body ++ .name "and" :: placed right.level 3 right.body
  | .either left right =>
    placed left.level 1 left.body ++ .name "or" :: placed right.level 2 right.body
  | .conditional condition positive negative =>
    placed positive.level 1 positive.body ++
      .name "if" :: placed condition.level 1 condition.body ++ .name "else" :: negative.body

/-- Several expressions. -/
def itemBodies : List Expr → List (List Lexeme)
  | [] => []
  | e :: es => e.body :: itemBodies es

/-- The entries of a dictionary. -/
def entryBodies : List (Expr × Expr) → List (List Lexeme)
  | [] => []
  | (key, value) :: entries => (key.body ++ .mark .colon :: value.body) :: entryBodies entries

/-- The condition of a comprehension. -/
def conditionBody : Option Expr → List Lexeme
  | none => []
  | some condition => .name "if" :: placed condition.level 1 condition.body

/-- An argument of a call. -/
def Argument.body : Argument → List Lexeme
  | .positional e => e.body
  | .keyword name e => .name name :: .mark .assign :: e.body
  | .spread e => .mark .star :: e.body
  | .spreadKeywords e => .mark .doubleStar :: e.body

/-- The arguments of a call. -/
def argumentBodies : List Argument → List (List Lexeme)
  | [] => []
  | a :: arguments => a.body :: argumentBodies arguments

end

/-- An expression where a level is asked for. -/
def Expr.render (e : Expr) (asked : Nat) : List Lexeme := placed e.level asked e.body

-- `not a.b == (-1 if x else 2) * 3`
example : (Expr.unary .not (.compare .equal (.attribute (.name "a") "b") (.arithmetic .multiply
    (.conditional (.name "x") (.unary .minus (.int 1)) (.int 2)) (.int 3)))).render 0 =
      [.name "not", .name "a", .mark .dot, .name "b", .mark .equal, .mark .leftParen, .mark .minus,
        .int 1, .name "if", .name "x", .name "else", .int 2, .mark .rightParen, .mark .star,
        .int 3] := by
  rfl

/-! ## What can be written down -/

/-- Whether a name is read as a variable. -/
def IsVariable (name : String) : Prop :=
  isKeyword name = false ∧ name ≠ "True" ∧ name ≠ "False" ∧ name ≠ "None"

instance (name : String) : Decidable (IsVariable name) :=
  inferInstanceAs (Decidable (_ ∧ _))

/-- What the grammar asks of the names in an expression, its parts apart, and of the targets of a
    comprehension. -/
def Expr.HasNames : Expr → Prop
  | .name n => IsVariable n
  | .comprehension _ targets _ _ => targets ≠ [] ∧ ∀ n ∈ targets, isKeyword n = false
  | .call _ arguments => ∀ n value, .keyword n value ∈ arguments → isKeyword n = false
  | .attribute _ n => isKeyword n = false
  | _ => True

/-- The expressions that have a text. -/
def Expr.Spellable (e : Expr) : Prop := e.All HasNames

theorem Expr.sizeOf_lt_of_mem_parts {e : Expr} {p : Step × Expr} (h : p ∈ e.parts) :
    sizeOf p.2 < sizeOf e := by
  cases e with
  | list items | tuple items =>
    obtain ⟨item, hitem, rfl⟩ := List.mem_map.mp h
    have := List.sizeOf_lt_of_mem hitem
    simp only [list.sizeOf_spec, tuple.sizeOf_spec]
    omega
  | dict entries =>
    obtain ⟨⟨key, value⟩, hentry, hp⟩ := List.mem_flatMap.mp h
    have := List.sizeOf_lt_of_mem hentry
    simp only [Prod.mk.sizeOf_spec] at this
    simp only [dict.sizeOf_spec]
    have hp : p = (.inside, key) ∨ p = (.inside, value) := by simpa using hp
    rcases hp with rfl | rfl <;> simp only <;> omega
  | comprehension element targets source condition =>
    simp only [comprehension.sizeOf_spec]
    rcases List.mem_cons.mp h with rfl | h
    · simp only
      omega
    rcases List.mem_cons.mp h with rfl | h
    · simp only
      omega
    · obtain ⟨c, hc, rfl⟩ := List.mem_map.mp h
      obtain rfl := Option.mem_toList.mp hc
      simp only [Option.some.sizeOf_spec]
      omega
  | call callee arguments =>
    simp only [call.sizeOf_spec]
    rcases List.mem_cons.mp h with rfl | h
    · simp only
      omega
    · obtain ⟨a, ha, rfl⟩ := List.mem_map.mp h
      have := List.sizeOf_lt_of_mem ha
      have hvalue : sizeOf a.value < sizeOf a := by
        cases a <;> simp only [Argument.value, Argument.positional.sizeOf_spec,
          Argument.keyword.sizeOf_spec, Argument.spread.sizeOf_spec,
          Argument.spreadKeywords.sizeOf_spec] <;> omega
      simp only
      omega
  | «attribute» | unary =>
    obtain rfl := List.mem_singleton.mp h
    simp only [attribute.sizeOf_spec, unary.sizeOf_spec]
    omega
  | subscript | arithmetic | compare | both | either =>
    simp only [parts, List.mem_cons, List.not_mem_nil, or_false] at h
    simp only [subscript.sizeOf_spec, arithmetic.sizeOf_spec, compare.sizeOf_spec,
      both.sizeOf_spec, either.sizeOf_spec]
    rcases h with rfl | rfl <;> simp only <;> omega
  | conditional =>
    simp only [parts, List.mem_cons, List.not_mem_nil, or_false] at h
    simp only [conditional.sizeOf_spec]
    rcases h with rfl | rfl | rfl <;> simp only <;> omega
  | _ => cases h

/-- What holds of an expression as soon as it holds of all its parts holds of every expression. -/
theorem Expr.induction_parts {M : Expr → Prop} (step : ∀ e, (∀ p ∈ e.parts, M p.2) → M e)
    (e : Expr) : M e :=
  step e fun p _ => induction_parts step p.2
termination_by sizeOf e
decreasing_by exact sizeOf_lt_of_mem_parts ‹_›

theorem itemBodies_eq (items : List Expr) : itemBodies items = items.map Expr.body := by
  induction items with
  | nil => rfl
  | cons e items ih => rw [itemBodies, ih, List.map_cons]

theorem entryBodies_eq (entries : List (Expr × Expr)) :
    entryBodies entries =
      entries.map fun entry => entry.1.body ++ .mark .colon :: entry.2.body := by
  induction entries with
  | nil => rfl
  | cons entry entries ih => rw [entryBodies, ih, List.map_cons]

theorem argumentBodies_eq (arguments : List Argument) :
    argumentBodies arguments = arguments.map Argument.body := by
  induction arguments with
  | nil => rfl
  | cons a arguments ih => rw [argumentBodies, ih, List.map_cons]

/-! ## How expressions begin -/

/-- Whether an expression of a level or above may begin with a lexeme. -/
def starts (level : Nat) : Lexeme → Bool
  | .name name => !isKeyword name || (name == "not" && decide (level ≤ 3))
  | .int _ | .float _ | .text _ => true
  | .mark .leftParen | .mark .leftBracket | .mark .leftBrace => true
  | .mark .plus | .mark .minus => decide (level ≤ 7)
  | _ => false

theorem starts_of_le {level asked : Nat} (hle : asked ≤ level) {lexeme : Lexeme}
    (h : starts level lexeme = true) : starts asked lexeme = true := by
  unfold starts at h ⊢
  split at h
  · rcases (Bool.or_eq_true _ _).mp h with h | h
    · simp [h]
    · simp only [Bool.and_eq_true, decide_eq_true_eq] at h
      simp [h.1, Nat.le_trans hle h.2]
  all_goals first
    | rfl
    | exact decide_eq_true (Nat.le_trans hle (of_decide_eq_true h))
    | cases h

theorem starts_ne_assign {level : Nat} {lexeme : Lexeme} (h : starts level lexeme = true) :
    lexeme ≠ .mark .assign := by
  rintro rfl
  cases h

/-- Lexemes of which the first may begin an expression of a level and the second is no `=`, so that
    they do not begin a keyword argument. -/
def Opens (level : Nat) (lexemes : List Lexeme) : Prop :=
  ∃ first second more, lexemes = first :: second :: more ∧ starts level first = true ∧
    second ≠ .mark .assign

/-- Lexemes that open an expression whatever follows, other than `=`. -/
def OpensBefore (level : Nat) (lexemes : List Lexeme) : Prop :=
  ∀ follow more, follow ≠ .mark .assign → Opens level (lexemes ++ follow :: more)

namespace OpensBefore

variable {level asked : Nat} {lexemes : List Lexeme}

theorem begins (h : OpensBefore level lexemes) :
    ∃ first more, lexemes = first :: more ∧ starts level first = true := by
  obtain ⟨first, second, more, heq, hfirst, -⟩ := h .newline [] nofun
  cases lexemes with
  | nil => cases heq
  | cons head tail =>
    obtain ⟨rfl, -⟩ := List.cons.inj heq
    exact ⟨head, tail, rfl, hfirst⟩

/-- What is written behind a beginning does not change it. -/
theorem append (h : OpensBefore level lexemes) (follow : Lexeme)
    (hfollow : follow ≠ .mark .assign) (more : List Lexeme) :
    OpensBefore level (lexemes ++ follow :: more) := by
  intro follow' more' _
  rw [List.append_assoc, List.cons_append]
  exact h follow _ hfollow

theorem of_le (h : OpensBefore level lexemes) (hle : asked ≤ level) :
    OpensBefore asked lexemes := by
  intro follow more hfollow
  obtain ⟨first, second, more', heq, hfirst, hsecond⟩ := h follow more hfollow
  exact ⟨first, second, more', heq, starts_of_le hle hfirst, hsecond⟩

/-- A lexeme in front of an expression. -/
theorem cons {first : Lexeme} (hfirst : starts asked first = true)
    (h : OpensBefore level lexemes) : OpensBefore asked (first :: lexemes) := by
  intro follow more _
  obtain ⟨second, more', rfl, hsecond⟩ := h.begins
  exact ⟨first, second, _, rfl, hfirst, starts_ne_assign hsecond⟩

theorem single {first : Lexeme} (hfirst : starts asked first = true) :
    OpensBefore asked [first] :=
  fun follow more hfollow => ⟨first, follow, more, rfl, hfirst, hfollow⟩

/-- Items in brackets. -/
theorem bracket {first last : Lexeme} (hfirst : starts asked first = true)
    (hlast : last ≠ .mark .assign) {items : List (List Lexeme)}
    (h : ∀ item ∈ items, ∃ level, OpensBefore level item) (more : List Lexeme) :
    OpensBefore asked (first :: (separated items ++ last :: more)) := by
  cases items with
  | nil => exact fun _ _ _ => ⟨first, last, _, rfl, hfirst, hlast⟩
  | cons item items =>
    obtain ⟨level, hitem⟩ := h item List.mem_cons_self
    obtain ⟨second, rest, rfl, hsecond⟩ := hitem.begins
    exact fun _ _ _ => ⟨first, second, _, rfl, hfirst, starts_ne_assign hsecond⟩

theorem placed (h : OpensBefore level lexemes) (asked : Nat) :
    OpensBefore asked (placed level asked lexemes) := by
  unfold Script.placed
  split
  · exact cons rfl (h.append (.mark .rightParen) nofun [])
  · rename_i hle
    exact h.of_le (Nat.not_lt.mp hle)

end OpensBefore

/-- How an expression begins. -/
theorem Expr.opens_body {e : Expr} (he : e.Spellable) : OpensBefore e.level e.body := by
  induction e using induction_parts with
  | step e ih =>
    have hpart (s : Step) (part : Expr) (hp : (s, part) ∈ e.parts) :
        OpensBefore part.level part.body := ih _ hp (he.part hp)
    have hlink {l r : Expr} (hparts : e.parts = [(.left, l), (.inside, r)]) :
        OpensBefore l.level l.body :=
      hpart .left l (hparts ▸ List.mem_cons_self)
    cases e with
    | none | int | float | text => exact .single rfl
    | bool value => cases value <;> exact .single rfl
    | name name =>
      have hname : isKeyword name = false := he.self.1
      exact .single (by rw [starts, hname]; rfl)
    | list items =>
      rw [body, itemBodies_eq, List.cons_append]
      refine .bracket (by rfl) (by simp) (List.forall_mem_map.mpr fun item hitem => ?_) []
      exact ⟨_, hpart .inside item (List.mem_map.mpr ⟨item, hitem, rfl⟩)⟩
    | tuple items =>
      have hitems : ∀ lexemes ∈ items.map body, ∃ level, OpensBefore level lexemes :=
        List.forall_mem_map.mpr fun item hitem =>
          ⟨_, hpart .inside item (List.mem_map.mpr ⟨item, hitem, rfl⟩)⟩
      rw [body, itemBodies_eq, inParens, List.cons_append, List.append_assoc]
      split
      · exact .bracket (by rfl) (by simp) hitems _
      · exact .bracket (by rfl) (by simp) hitems _
    | dict entries =>
      rw [body, entryBodies_eq, List.cons_append]
      refine .bracket (by rfl) (by simp) (List.forall_mem_map.mpr fun entry hentry => ?_) []
      refine ⟨_, OpensBefore.append (hpart .inside entry.1 ?_) _ (by simp) _⟩
      exact List.mem_flatMap.mpr ⟨entry, hentry, List.mem_cons_self⟩
    | comprehension element targets source condition =>
      rw [body]
      simp only [List.cons_append, List.append_assoc]
      exact .cons (by rfl) ((hpart _ _ List.mem_cons_self).append _ (by simp) _)
    | call callee arguments =>
      rw [body, inParens, List.cons_append]
      exact ((hpart _ _ List.mem_cons_self).placed 8).append _ (by simp) _
    | «attribute» object name =>
      rw [body]
      exact ((hpart _ _ List.mem_cons_self).placed 8).append _ (by simp) _
    | subscript object index =>
      rw [body, List.append_assoc, List.cons_append]
      exact ((hlink rfl).placed 8).append _ (by simp) _
    | arithmetic op left right =>
      rw [body]
      exact ((hlink rfl).placed op.level).append _ (by cases op <;> decide) _
    | unary op operand =>
      rw [body]
      refine .cons ?_ ((hpart _ _ List.mem_cons_self).placed op.level)
      cases op <;> rfl
    | compare op left right =>
      obtain ⟨first, more, hop, hfirst⟩ :
          ∃ first more, op.lexemes = first :: more ∧ first ≠ .mark .assign := by
        cases op <;> exact ⟨_, _, rfl, by simp⟩
      rw [body, hop, List.append_assoc]
      exact ((hlink rfl).placed 4).append _ hfirst _
    | both left right =>
      rw [body]
      exact ((hlink rfl).placed 2).append _ (by simp) _
    | either left right =>
      rw [body]
      exact ((hlink rfl).placed 1).append _ (by simp) _
    | conditional condition positive negative =>
      have hpositive := hpart .plain positive (by simp [parts])
      rw [body, List.append_assoc, List.cons_append]
      exact ((hpositive.placed 1).append _ (by simp) _).of_le (Nat.zero_le 1)

theorem Expr.opens_render {e : Expr} (he : e.Spellable) (asked : Nat) :
    OpensBefore asked (e.render asked) :=
  (opens_body he).placed asked

end Monorepo.Script
