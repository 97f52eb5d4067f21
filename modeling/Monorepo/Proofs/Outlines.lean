import Monorepo.Proofs.Lines
import Monorepo.Proofs.Rendering

/-!
# Statements on lines

An outline is a statement as it is laid out: all its expressions are variables, and each of its
blocks stands on the lines below a header, indented by as much as one likes. An outline has lines,
which make up its text; it is a statement, given the line on which it begins; and it has tokens,
with a pair of layout tokens around each block. The layout of the lines is what stands among these
tokens.
-/

namespace Monorepo.Script

/-! ## Outlines -/

/-- A word that may be bound. -/
structure Name extends Word where
  /-- It is no keyword. -/
  free : isKeyword text = false

/-- A word that is an expression. -/
structure Variable extends Word where
  /-- It is neither a keyword nor a constant. -/
  named : IsVariable text

/-- A statement without a block. -/
inductive Simple
  | pass | leave | proceed
  /-- `return`, with a value or without. -/
  | give (value : Option Variable)
  /-- `target = value`. -/
  | assign (target value : Variable)
  /-- A variable as a statement. -/
  | evaluate (value : Variable)

mutual

/-- A statement on lines. -/
inductive Outline
  /-- One without a block. -/
  | simple (statement : Simple)
  /-- `if`, and what belongs to it. -/
  | branch (condition : Variable) (body : Block) (arms : Arms)
  /-- `for target, targets… in source`. -/
  | loop (target : Name) (targets : List Name) (source : Variable) (body : Block)
  /-- `def name(parameters…)`. -/
  | define (name : Name) (parameters : List (Name × Option Variable)) (body : Block)

/-- The lines below a header, which are indented by one more than `deeper`. -/
inductive Block
  | mk (deeper : Nat) (first : Outline) (rest : List Outline)

/-- What follows the first block of `if`. -/
inductive Arms
  | none
  /-- `else`. -/
  | last (body : Block)
  /-- `elif`, and what follows its block. -/
  | elif (condition : Variable) (body : Block) (arms : Arms)

end

/-! ## Lines -/

/-- Parts of a line with commas between them. -/
def commas : List (List Piece) → List Piece
  | [] => []
  | first :: rest => first ++ rest.flatMap (.comma :: ·)

/-- A parameter with its default. -/
def parameterPieces : Name × Option Variable → List Piece
  | (name, none) => [.word name.toWord]
  | (name, some value) => [.word name.toWord, .assign, .word value.toWord]

namespace Simple

/-- The line of a statement. -/
def line (margin : Nat) : Simple → Line
  | pass => ⟨margin, ⟨"pass", by decide⟩, []⟩
  | leave => ⟨margin, ⟨"break", by decide⟩, []⟩
  | proceed => ⟨margin, ⟨"continue", by decide⟩, []⟩
  | give none => ⟨margin, ⟨"return", by decide⟩, []⟩
  | give (some value) => ⟨margin, ⟨"return", by decide⟩, [.word value.toWord]⟩
  | assign target value => ⟨margin, target.toWord, [.assign, .word value.toWord]⟩
  | evaluate value => ⟨margin, value.toWord, []⟩

/-- What a statement does. -/
def action : Simple → Action
  | pass => .pass
  | leave => .leave
  | proceed => .proceed
  | give none => .give none
  | give (some value) => .give (some (.name value.text))
  | assign target value => .assign (.name target.text) (.name value.text)
  | evaluate value => .evaluate (.name value.text)

end Simple

/-- The header of a loop. -/
def loopLine (margin : Nat) (target : Name) (targets : List Name) (source : Variable) : Line :=
  ⟨margin, ⟨"for", by decide⟩, commas ((target :: targets).map fun name => [.word name.toWord]) ++
    [.word ⟨"in", by decide⟩, .word source.toWord, .colon]⟩

/-- The header of a function. -/
def defineLine (margin : Nat) (name : Name) (parameters : List (Name × Option Variable)) : Line :=
  ⟨margin, ⟨"def", by decide⟩, .word name.toWord :: .leftParen ::
    (commas (parameters.map parameterPieces) ++ [.rightParen, .colon])⟩

/-- The header of a block with a condition. -/
def branchLine (margin : Nat) (keyword : Word) (condition : Variable) : Line :=
  ⟨margin, keyword, [.word condition.toWord, .colon]⟩

/-- The header of the block without a condition. -/
def elseLine (margin : Nat) : Line := ⟨margin, ⟨"else", by decide⟩, [.colon]⟩

/-- The word `if`. -/
def ifWord : Word := ⟨"if", by decide⟩

/-- The word `elif`. -/
def elifWord : Word := ⟨"elif", by decide⟩

mutual

/-- The lines of a statement with a given margin. -/
def Outline.lines (margin : Nat) : Outline → List Line
  | .simple statement => [statement.line margin]
  | .branch condition body arms =>
    branchLine margin ifWord condition :: (body.lines margin ++ arms.lines margin)
  | .loop target targets source body => loopLine margin target targets source :: body.lines margin
  | .define name parameters body => defineLine margin name parameters :: body.lines margin

/-- The lines of a block below a header with a given margin. -/
def Block.lines (margin : Nat) : Block → List Line
  | .mk deeper first rest =>
    first.lines (margin + deeper + 1) ++ outlineLines (margin + deeper + 1) rest

/-- The lines of what follows the first block of `if`. -/
def Arms.lines (margin : Nat) : Arms → List Line
  | .none => []
  | .last body => elseLine margin :: body.lines margin
  | .elif condition body arms =>
    branchLine margin elifWord condition :: (body.lines margin ++ arms.lines margin)

/-- The lines of statements with a given margin. -/
def outlineLines (margin : Nat) : List Outline → List Line
  | [] => []
  | o :: os => o.lines margin ++ outlineLines margin os

end

mutual

/-- How many lines a statement takes. -/
def Outline.height : Outline → Nat
  | .simple _ => 1
  | .branch _ body arms => 1 + body.height + arms.height
  | .loop _ _ _ body => 1 + body.height
  | .define _ _ body => 1 + body.height

/-- How many lines a block takes. -/
def Block.height : Block → Nat
  | .mk _ first rest => first.height + outlineHeight rest

/-- How many lines follow the first block of `if`. -/
def Arms.height : Arms → Nat
  | .none => 0
  | .last body => 1 + body.height
  | .elif _ body arms => 1 + body.height + arms.height

/-- How many lines statements take. -/
def outlineHeight : List Outline → Nat
  | [] => 0
  | o :: os => o.height + outlineHeight os

end

/-! ## Statements -/

mutual

/-- The statement that begins on a given line. -/
def Outline.statement (line : Nat) : Outline → Statement
  | .simple statement => .at line statement.action
  | .branch condition body arms =>
    .at line (.branch
      ((.name condition.text, body.statements (line + 1)) :: arms.branches (line + 1 + body.height))
      (arms.otherwise (line + 1 + body.height)))
  | .loop target targets source body =>
    .at line (.loop ((target :: targets).map (·.text)) (.name source.text)
      (body.statements (line + 1)))
  | .define name parameters body =>
    .at line (.define name.text
      (parameters.map fun (name, value) => ⟨name.text, value.map fun v => .name v.text⟩)
      (body.statements (line + 1)))

/-- The statements of a block that begins on a given line. -/
def Block.statements (line : Nat) : Block → List Statement
  | .mk _ first rest => first.statement line :: outlineStatements (line + first.height) rest

/-- The further conditions of `if` with their blocks. -/
def Arms.branches (line : Nat) : Arms → List (Expr × List Statement)
  | .none => []
  | .last _ => []
  | .elif condition body arms =>
    (.name condition.text, body.statements (line + 1)) :: arms.branches (line + 1 + body.height)

/-- The block for the case that no condition holds. -/
def Arms.otherwise (line : Nat) : Arms → List Statement
  | .none => []
  | .last body => body.statements (line + 1)
  | .elif _ body arms => arms.otherwise (line + 1 + body.height)

/-- The statements that begin on a given line. -/
def outlineStatements (line : Nat) : List Outline → List Statement
  | [] => []
  | o :: os => o.statement line :: outlineStatements (line + o.height) os

end

mutual

/-- How deeply the blocks of a statement are nested. -/
def Outline.depth : Outline → Nat
  | .simple _ => 0
  | .branch _ body arms => max body.depth arms.depth
  | .loop _ _ _ body => body.depth
  | .define _ _ body => body.depth

/-- How deeply blocks are nested in a block, that block included. -/
def Block.depth : Block → Nat
  | .mk _ first rest => max first.depth (outlineDepth rest) + 1

/-- How deeply the blocks are nested that follow the first block of `if`. -/
def Arms.depth : Arms → Nat
  | .none => 0
  | .last body => body.depth
  | .elif _ body arms => max body.depth arms.depth

/-- How deeply the blocks of statements are nested. -/
def outlineDepth : List Outline → Nat
  | [] => 0
  | o :: os => max o.depth (outlineDepth os)

end

/-! ## Tokens -/

/-- The tokens of a line, with its end. -/
def lineItems (line : Nat) (l : Line) : List Placed :=
  placedOn line l.pieces ++ [(.newline, some line)]

mutual

/-- The tokens of a statement that begins on a given line. -/
def Outline.items (line : Nat) : Outline → List Placed
  | .simple statement => lineItems line (statement.line 0)
  | .branch condition body arms =>
    lineItems line (branchLine 0 ifWord condition) ++
      (body.items (line + 1) ++ arms.items (line + 1 + body.height))
  | .loop target targets source body =>
    lineItems line (loopLine 0 target targets source) ++ body.items (line + 1)
  | .define name parameters body =>
    lineItems line (defineLine 0 name parameters) ++ body.items (line + 1)

/-- The tokens of a block, those of its layout included. -/
def Block.items (line : Nat) : Block → List Placed
  | .mk _ first rest =>
    (.indent, none) :: (first.items line ++ outlineItems (line + first.height) rest ++
      [(.dedent, none)])

/-- The tokens of what follows the first block of `if`. -/
def Arms.items (line : Nat) : Arms → List Placed
  | .none => []
  | .last body => lineItems line (elseLine 0) ++ body.items (line + 1)
  | .elif condition body arms =>
    lineItems line (branchLine 0 elifWord condition) ++
      (body.items (line + 1) ++ arms.items (line + 1 + body.height))

/-- The tokens of statements that begin on a given line. -/
def outlineItems (line : Nat) : List Outline → List Placed
  | [] => []
  | o :: os => o.items line ++ outlineItems (line + o.height) os

end

/-! ## Brackets in lines -/

theorem foldl_brackets {pieces : List Piece} (h : ∀ p ∈ pieces, ∀ n, p.brackets n = n) (n : Nat) :
    pieces.foldl Piece.brackets n = n := by
  induction pieces with
  | nil => rfl
  | cons p pieces ih =>
    obtain ⟨hp, hpieces⟩ := List.forall_mem_cons.mp h
    rw [List.foldl_cons, hp n]
    exact ih hpieces

theorem commas_brackets {items : List (List Piece)}
    (h : ∀ pieces ∈ items, ∀ p ∈ pieces, ∀ n, p.brackets n = n) :
    ∀ p ∈ commas items, ∀ n, p.brackets n = n := by
  cases items with
  | nil => nofun
  | cons first rest =>
    obtain ⟨hfirst, hrest⟩ := List.forall_mem_cons.mp h
    intro p hp
    rcases List.mem_append.mp hp with hp | hp
    · exact hfirst p hp
    · obtain ⟨pieces, hmem, hp⟩ := List.mem_flatMap.mp hp
      rcases List.mem_cons.mp hp with rfl | hp
      · exact fun _ => rfl
      · exact hrest pieces hmem p hp

theorem parameterPieces_brackets (parameter : Name × Option Variable) :
    ∀ p ∈ parameterPieces parameter, ∀ n, p.brackets n = n := by
  obtain ⟨name, value⟩ := parameter
  cases value <;> simp [parameterPieces, Piece.brackets]

theorem Simple.closed_line (statement : Simple) (margin : Nat) :
    (statement.line margin).Closed := by
  cases statement with
  | give value => cases value <;> rfl
  | _ => rfl

theorem closed_loopLine (margin : Nat) (target : Name) (targets : List Name) (source : Variable) :
    (loopLine margin target targets source).Closed := by
  refine foldl_brackets (fun p hp => ?_) 0
  rcases List.mem_cons.mp hp with rfl | hp
  · exact fun _ => rfl
  · rcases List.mem_append.mp hp with hp | hp
    · refine commas_brackets (fun pieces hpieces => ?_) p hp
      obtain ⟨name, -, rfl⟩ := List.mem_map.mp hpieces
      simp [Piece.brackets]
    · simp only [List.mem_cons, List.not_mem_nil, or_false] at hp
      rcases hp with rfl | rfl | rfl <;> exact fun _ => rfl

theorem closed_defineLine (margin : Nat) (name : Name)
    (parameters : List (Name × Option Variable)) :
    (defineLine margin name parameters).Closed := by
  have hflat : ∀ pieces ∈ parameters.map parameterPieces, ∀ p ∈ pieces, ∀ n,
      p.brackets n = n := by
    intro pieces hpieces
    obtain ⟨parameter, -, rfl⟩ := List.mem_map.mp hpieces
    exact parameterPieces_brackets parameter
  have hparameters := foldl_brackets (commas_brackets hflat) 1
  change (commas (parameters.map parameterPieces) ++ [Piece.rightParen, Piece.colon]).foldl
    Piece.brackets 1 = 0
  rw [List.foldl_append, hparameters]
  rfl

mutual

theorem Outline.closed (margin : Nat) : (o : Outline) → ∀ l ∈ o.lines margin, l.Closed
  | .simple statement => List.forall_mem_singleton.mpr (statement.closed_line margin)
  | .branch _ body arms => List.forall_mem_cons.mpr
    ⟨rfl, List.forall_mem_append.mpr ⟨body.closed margin, arms.closed margin⟩⟩
  | .loop target targets source body => List.forall_mem_cons.mpr
    ⟨closed_loopLine margin target targets source, body.closed margin⟩
  | .define name parameters body => List.forall_mem_cons.mpr
    ⟨closed_defineLine margin name parameters, body.closed margin⟩

theorem Block.closed (margin : Nat) : (b : Block) → ∀ l ∈ b.lines margin, l.Closed
  | .mk deeper first rest => List.forall_mem_append.mpr
    ⟨first.closed (margin + deeper + 1), outlines_closed (margin + deeper + 1) rest⟩

theorem Arms.closed (margin : Nat) : (a : Arms) → ∀ l ∈ a.lines margin, l.Closed
  | .none => nofun
  | .last body => List.forall_mem_cons.mpr ⟨rfl, body.closed margin⟩
  | .elif _ body arms => List.forall_mem_cons.mpr
    ⟨rfl, List.forall_mem_append.mpr ⟨body.closed margin, arms.closed margin⟩⟩

theorem outlines_closed (margin : Nat) :
    (os : List Outline) → ∀ l ∈ outlineLines margin os, l.Closed
  | [] => nofun
  | o :: os => List.forall_mem_append.mpr ⟨o.closed margin, outlines_closed margin os⟩

end

/-! ## The layout of the lines -/

/-- Lines that go on with a margin or further to the left. -/
def Returns (margin : Nat) (lines : List Line) : Prop := ∀ l ∈ lines.head?, l.margin ≤ margin

theorem Returns.of_le {margin margin' : Nat} {lines : List Line} (h : Returns margin lines)
    (hle : margin ≤ margin') : Returns margin' lines :=
  fun l hl => Nat.le_trans (h l hl) hle

theorem Returns.append {margin : Nat} {lines tail : List Line} (h : Returns margin lines)
    (htail : Returns margin tail) : Returns margin (lines ++ tail) := by
  cases lines with
  | nil => exact htail
  | cons l lines => exact h

theorem returns_nil (margin : Nat) : Returns margin [] := nofun

theorem returns_cons {margin : Nat} {l : Line} (h : l.margin = margin) (lines : List Line) :
    Returns margin (l :: lines) := by
  rintro _ ⟨⟩
  exact Nat.le_of_eq h

theorem Simple.margin_line (statement : Simple) (margin : Nat) :
    (statement.line margin).margin = margin := by
  cases statement with
  | give value => cases value <;> rfl
  | _ => rfl

theorem Simple.pieces_line (statement : Simple) (margin : Nat) :
    (statement.line margin).pieces = (statement.line 0).pieces := by
  cases statement with
  | give value => cases value <;> rfl
  | _ => rfl

/-- The first line of a statement has its margin. -/
theorem Outline.exists_lines (o : Outline) (margin : Nat) :
    ∃ l rest, o.lines margin = l :: rest ∧ l.margin = margin := by
  cases o with
  | simple statement => exact ⟨_, _, rfl, statement.margin_line margin⟩
  | _ => exact ⟨_, _, rfl, rfl⟩

theorem returns_outlines (os : List Outline) (margin : Nat) :
    Returns margin (outlineLines margin os) := by
  cases os with
  | nil => exact returns_nil margin
  | cons o os =>
    obtain ⟨l, rest, hlines, hmargin⟩ := o.exists_lines margin
    rw [outlineLines, hlines]
    exact returns_cons hmargin _

theorem returns_arms (arms : Arms) (margin : Nat) : Returns margin (arms.lines margin) := by
  cases arms with
  | none => exact returns_nil margin
  | last body => exact returns_cons rfl _
  | elif condition body arms => exact returns_cons rfl _

section Layout

variable {widths : List Nat} {line : Nat} {tail : List Line}

/-- A line with the margin of the innermost open block goes on with that block. -/
theorem layout_line {l : Line} (h : widths.headD 0 = l.margin) :
    layout widths line (l :: tail) =
      (layout widths (line + 1) tail).map (lineItems line l ++ ·) := by
  have hopen : openTo widths l.margin = some ([], widths) := by
    have htake : widths.takeWhile (· > l.margin) = [] := by
      cases widths with
      | nil => rfl
      | cons width widths =>
        rw [List.headD_cons] at h
        exact List.takeWhile_cons_of_neg (by simp [h])
    have hdrop : widths.dropWhile (· > l.margin) = widths := by
      have hall := List.takeWhile_append_dropWhile (p := (· > l.margin)) (l := widths)
      rwa [htake, List.nil_append] at hall
    unfold openTo
    dsimp only
    rw [if_neg (by omega), hdrop, if_pos h, htake]
    rfl
  rw [layout, hopen]
  change (layout widths (line + 1) tail).bind _ = _
  cases layout widths (line + 1) tail with
  | none => rfl
  | some items =>
    change some _ = some _
    simp [lineItems]

/-- A line further to the right opens a block. -/
theorem layout_open {l : Line} (h : widths.headD 0 < l.margin) :
    layout widths line (l :: tail) =
      (layout (l.margin :: widths) line (l :: tail)).map ((.indent, none) :: ·) := by
  have hopen : openTo widths l.margin = some ([.indent], l.margin :: widths) := by
    unfold openTo
    exact if_pos h
  have hline : layout (l.margin :: widths) line (l :: tail) =
      (layout (l.margin :: widths) (line + 1) tail).map (lineItems line l ++ ·) := layout_line rfl
  rw [hline, layout, hopen, Option.map_map]
  change (layout (l.margin :: widths) (line + 1) tail).bind _ = _
  cases layout (l.margin :: widths) (line + 1) tail with
  | none => rfl
  | some items =>
    change some _ = some _
    simp [lineItems]

/-- Where the lines go on outside of a block, the block is closed. -/
theorem layout_close {width : Nat} (h : widths.headD 0 < width)
    (htail : Returns (widths.headD 0) tail) :
    layout (width :: widths) line tail =
      (layout widths line tail).map ((.dedent, none) :: ·) := by
  cases tail with
  | nil => rfl
  | cons l tail =>
    have hle : l.margin ≤ widths.headD 0 := htail l rfl
    have hopen : openTo (width :: widths) l.margin =
        (openTo widths l.margin).map fun opened => (.dedent :: opened.1, opened.2) := by
      have hgt : decide (width > l.margin) = true := decide_eq_true (by omega)
      have hdrop : (width :: widths).dropWhile (· > l.margin) = widths.dropWhile (· > l.margin) :=
        List.dropWhile_cons_of_pos hgt
      have htake : (width :: widths).takeWhile (· > l.margin) =
          width :: widths.takeWhile (· > l.margin) := List.takeWhile_cons_of_pos hgt
      unfold openTo
      dsimp only
      rw [List.headD_cons, if_neg (Nat.not_lt.mpr hle),
        if_neg (Nat.not_lt.mpr (Nat.le_trans hle (Nat.le_of_lt h))), hdrop, htake]
      split <;> rfl
    rw [layout, layout, hopen]
    cases openTo widths l.margin with
    | none => rfl
    | some opened =>
      obtain ⟨marks, widths'⟩ := opened
      change (layout widths' (line + 1) tail).bind _ =
        ((layout widths' (line + 1) tail).bind _).map _
      cases layout widths' (line + 1) tail <;> rfl

/-- Lines whose tokens, where what follows them goes on with the innermost open block or outside of
    it, are known. -/
def Lays (widths : List Nat) (line : Nat) (lines : List Line) (height : Nat)
    (items : List Placed) : Prop :=
  ∀ tail, Returns (widths.headD 0) tail →
    layout widths line (lines ++ tail) = (layout widths (line + height) tail).map (items ++ ·)

namespace Lays

variable {lines lines' : List Line} {height height' : Nat} {items items' : List Placed}

theorem nil : Lays widths line [] 0 [] := by
  intro tail _
  change layout widths line tail = (layout widths line tail).map id
  rw [Option.map_id, id]

/-- A line where the innermost open block goes on, and lines below it. -/
theorem cons {l : Line} (hl : widths.headD 0 = l.margin)
    (h : Lays widths (line + 1) lines height items) :
    Lays widths line (l :: lines) (1 + height) (lineItems line l ++ items) := by
  intro tail htail
  rw [List.cons_append, layout_line hl, h tail htail, Option.map_map, ← Nat.add_assoc]
  congr 1
  funext rest
  exact (List.append_assoc _ _ _).symm

theorem append (h : Lays widths line lines height items)
    (h' : Lays widths (line + height) lines' height' items')
    (hreturns : Returns (widths.headD 0) lines') :
    Lays widths line (lines ++ lines') (height + height') (items ++ items') := by
  intro tail htail
  rw [List.append_assoc, h _ (hreturns.append htail), h' tail htail, Option.map_map,
    Nat.add_assoc]
  congr 1
  funext rest
  exact (List.append_assoc _ _ _).symm

/-- The first line opens the block, and what follows closes it. -/
theorem block {width : Nat} (h : Lays (width :: widths) line lines height items)
    (hlt : widths.headD 0 < width) {l : Line} {rest : List Line} (hlines : lines = l :: rest)
    (hl : l.margin = width) :
    Lays widths line lines height ((.indent, none) :: (items ++ [(.dedent, none)])) := by
  intro tail htail
  have hopen : layout widths line (lines ++ tail) =
      (layout (width :: widths) line (lines ++ tail)).map ((.indent, none) :: ·) := by
    rw [hlines, List.cons_append, layout_open (hl.symm ▸ hlt), hl]
  have htail' : Returns width tail := htail.of_le (Nat.le_of_lt hlt)
  rw [hopen, h tail htail', layout_close hlt htail, Option.map_map, Option.map_map]
  congr 1
  funext rest
  simp

end Lays

end Layout

mutual

/-- The layout of a statement where its block is open. -/
theorem Outline.lays (widths : List Nat) (line : Nat) : (o : Outline) →
    Lays widths line (o.lines (widths.headD 0)) o.height (o.items line)
  | .simple statement => by
    have hline : Lays widths line [statement.line (widths.headD 0)] 1
        (lineItems line (statement.line (widths.headD 0)) ++ []) :=
      .cons (statement.margin_line (widths.headD 0)).symm .nil
    rwa [lineItems, statement.pieces_line, List.append_nil] at hline
  | .branch condition body arms => by
    have hlines := (body.lays widths (line + 1)).append
      (arms.lays widths (line + 1 + body.height)) (returns_arms arms _)
    rw [Outline.height, Nat.add_assoc]
    exact hlines.cons (l := branchLine (widths.headD 0) ifWord condition) rfl
  | .loop target targets source body =>
    (body.lays widths (line + 1)).cons (l := loopLine (widths.headD 0) target targets source) rfl
  | .define name parameters body =>
    (body.lays widths (line + 1)).cons (l := defineLine (widths.headD 0) name parameters) rfl

/-- The layout of a block below its header. -/
theorem Block.lays (widths : List Nat) (line : Nat) : (b : Block) →
    Lays widths line (b.lines (widths.headD 0)) b.height (b.items line)
  | .mk deeper first rest => by
    have hlt : widths.headD 0 < widths.headD 0 + deeper + 1 := by omega
    have hlines := (first.lays ((widths.headD 0 + deeper + 1) :: widths) line).append
      (outlines_lay ((widths.headD 0 + deeper + 1) :: widths) (line + first.height) rest)
      (returns_outlines rest _)
    obtain ⟨l, lines, hfirst, hl⟩ := first.exists_lines (widths.headD 0 + deeper + 1)
    have hhead : first.lines (widths.headD 0 + deeper + 1) ++
        outlineLines (widths.headD 0 + deeper + 1) rest =
        l :: (lines ++ outlineLines (widths.headD 0 + deeper + 1) rest) := by
      rw [hfirst]
      rfl
    exact hlines.block hlt hhead hl

/-- The layout of what follows the first block of `if`. -/
theorem Arms.lays (widths : List Nat) (line : Nat) : (a : Arms) →
    Lays widths line (a.lines (widths.headD 0)) a.height (a.items line)
  | .none => .nil
  | .last body => (body.lays widths (line + 1)).cons (l := elseLine (widths.headD 0)) rfl
  | .elif condition body arms => by
    have hlines := (body.lays widths (line + 1)).append
      (arms.lays widths (line + 1 + body.height)) (returns_arms arms _)
    rw [Arms.height, Nat.add_assoc]
    exact hlines.cons (l := branchLine (widths.headD 0) elifWord condition) rfl

/-- The layout of statements where their block is open. -/
theorem outlines_lay (widths : List Nat) (line : Nat) : (os : List Outline) →
    Lays widths line (outlineLines (widths.headD 0) os) (outlineHeight os) (outlineItems line os)
  | [] => .nil
  | o :: os => (o.lays widths line).append (outlines_lay widths (line + o.height) os)
    (returns_outlines os _)

end

/-- The tokens of a script are those of its statements. -/
theorem layout_outlines (os : List Outline) :
    layout [] 1 (outlineLines 0 os) = some (outlineItems 1 os) := by
  have hlays := outlines_lay [] 1 os [] (returns_nil _)
  rw [List.append_nil] at hlays
  refine hlays.trans ?_
  change some (outlineItems 1 os ++ []) = _
  rw [List.append_nil]

end Monorepo.Script
