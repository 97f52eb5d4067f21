import Monorepo.Proofs.Measure
import Monorepo.Proofs.Rendering
import Monorepo.Script.Value.Text

/-!
# Values written as literals

`repr` writes a value made of texts, numbers, truth values and containers as an expression. A text
stands in quotes, where most characters stand for themselves and some have an escape. The escapes by
a letter are read back; an escape by number is not one to the scanner, which reads its four
characters as they stand. So a text is read back just if it needs no escape of that kind.
-/

namespace Monorepo.Script

/-! ## Texts in quotes -/

/-- Whether a character is quoted by its number: a control character other than a line break, a tab
    and a carriage return. -/
def isNumbered (c : Char) : Bool := Text.isControl c && !(['\n', '\t', '\r'].contains c)

/-- What the scanner reads for a quoted character. -/
def rereadChar (c : Char) : List Char :=
  if isNumbered c then ['\\', 'x', hexDigit (c.toNat / 16), hexDigit (c.toNat % 16)] else [c]

/-- What the scanner reads for a quoted text. -/
def reread (s : String) : String := String.ofList (s.toList.flatMap rereadChar)

/-- A text without control characters other than line breaks, tabs and carriage returns. -/
def IsPlain (s : String) : Prop :=
  ∀ c ∈ s.toList, Text.isControl c = true → c = '\n' ∨ c = '\t' ∨ c = '\r'

instance (s : String) : Decidable (IsPlain s) :=
  List.decidableBAll (fun c => Text.isControl c = true → c = '\n' ∨ c = '\t' ∨ c = '\r') s.toList

theorem isNumbered_eq_false_iff {c : Char} :
    isNumbered c = false ↔ (Text.isControl c = true → c = '\n' ∨ c = '\t' ∨ c = '\r') := by
  have himp (a b c : Prop) : (¬a → ¬b → c) ↔ a ∨ b ∨ c := by
    rw [← Classical.or_iff_not_imp_left, ← Classical.or_iff_not_imp_left]
  simp [isNumbered, himp]

theorem rereadChar_of_not_numbered {c : Char} (h : isNumbered c = false) : rereadChar c = [c] := by
  rw [rereadChar, h]
  rfl

theorem length_le_flatMap_rereadChar (cs : List Char) :
    cs.length ≤ (cs.flatMap rereadChar).length := by
  induction cs with
  | nil => exact Nat.le_refl _
  | cons c cs ih =>
    have hone : 1 ≤ (rereadChar c).length := by
      unfold rereadChar
      split <;> simp
    rw [List.flatMap_cons, List.length_append, List.length_cons]
    omega

/-- An escape by number is longer than the character that it stands for, so nothing makes up for
    it. -/
theorem flatMap_rereadChar_eq_iff {cs : List Char} :
    cs.flatMap rereadChar = cs ↔ ∀ c ∈ cs, isNumbered c = false := by
  induction cs with
  | nil => simp
  | cons c cs ih =>
    rw [List.flatMap_cons, List.forall_mem_cons]
    constructor
    · intro h
      cases hc : isNumbered c with
      | false =>
        rw [rereadChar_of_not_numbered hc] at h
        exact ⟨rfl, ih.mp (List.cons.inj h).2⟩
      | true =>
        have hlength := congrArg List.length h
        have hle := length_le_flatMap_rereadChar cs
        rw [rereadChar, hc, if_pos rfl, List.length_append] at hlength
        simp only [List.length_cons, List.length_nil] at hlength
        omega
    · rintro ⟨hc, hcs⟩
      rw [rereadChar_of_not_numbered hc, ih.mpr hcs]
      rfl

/-- A text is read back from its quotes just if it is plain. -/
theorem reread_eq_iff {s : String} : reread s = s ↔ IsPlain s := by
  have hchars : reread s = s ↔ s.toList.flatMap rereadChar = s.toList := by
    rw [← String.toList_inj, reread, String.toList_ofList]
  rw [hchars, flatMap_rereadChar_eq_iff]
  exact forall₂_congr fun c _ => isNumbered_eq_false_iff

theorem toList_quote (s : String) :
    (quote s).toList = '\'' :: (s.toList.flatMap fun c => (quoteChar c).toList) ++ ['\''] := by
  have hfold (cs : List Char) (out : String) :
      (cs.foldl (fun out c => out ++ quoteChar c) out).toList =
        out.toList ++ cs.flatMap fun c => (quoteChar c).toList := by
    induction cs generalizing out with
    | nil => simp
    | cons c cs ih =>
      rw [List.foldl_cons, ih, String.toList_append, List.flatMap_cons, List.append_assoc]
  rw [quote, String.toList_append, hfold]
  rfl

namespace Value

/-! ## Written values -/

/-- Texts with commas and blanks between them. -/
def joined : List (List Char) → List Char
  | [] => []
  | first :: rest => first ++ rest.flatMap fun cs => ',' :: ' ' :: cs

/-- The characters of a written value. -/
def chars (v : Value) : List Char := v.repr.toList

/-- The characters of a written entry. -/
def entryChars (entry : Value × Value) : List Char :=
  entry.1.chars ++ ':' :: ' ' :: entry.2.chars

/-- A value is written behind what has been written before. -/
def IsAppended (v : Value) : Prop := ∀ out, (v.write out).toList = out.toList ++ v.chars

theorem toList_writeItems {items : List Value} (h : ∀ v ∈ items, v.IsAppended) (out : String) :
    (writeItems "" out items).toList = out.toList ++ joined (items.map chars) := by
  have hrest {items : List Value} (h : ∀ v ∈ items, v.IsAppended) (out : String) :
      (writeItems ", " out items).toList =
        out.toList ++ (items.map chars).flatMap fun cs => ',' :: ' ' :: cs := by
    induction items generalizing out with
    | nil => simp [writeItems]
    | cons item items ih =>
      obtain ⟨hitem, hitems⟩ := List.forall_mem_cons.mp h
      rw [writeItems, ih hitems, hitem, String.toList_append]
      simp
  cases items with
  | nil => simp [writeItems, joined]
  | cons item items =>
    obtain ⟨hitem, hitems⟩ := List.forall_mem_cons.mp h
    rw [writeItems, hrest hitems, hitem, String.toList_append]
    simp [joined]

theorem toList_writeEntries {entries : List (Value × Value)}
    (h : ∀ e ∈ entries, e.1.IsAppended ∧ e.2.IsAppended) (out : String) :
    (writeEntries "" out entries).toList = out.toList ++ joined (entries.map entryChars) := by
  have hrest {entries : List (Value × Value)}
      (h : ∀ e ∈ entries, e.1.IsAppended ∧ e.2.IsAppended) (out : String) :
      (writeEntries ", " out entries).toList =
        out.toList ++ (entries.map entryChars).flatMap fun cs => ',' :: ' ' :: cs := by
    induction entries generalizing out with
    | nil => simp [writeEntries]
    | cons entry entries ih =>
      obtain ⟨⟨hkey, hvalue⟩, hentries⟩ := List.forall_mem_cons.mp h
      rw [writeEntries, ih hentries, hvalue, String.toList_append, hkey, String.toList_append]
      simp [entryChars]
  cases entries with
  | nil => simp [writeEntries, joined]
  | cons entry entries =>
    obtain ⟨⟨hkey, hvalue⟩, hentries⟩ := List.forall_mem_cons.mp h
    rw [writeEntries, hrest hentries, hvalue, String.toList_append, hkey, String.toList_append]
    simp [joined, entryChars]

/-- What has been written before a value does not change it. -/
theorem isAppended (v : Value) : v.IsAppended := by
  induction v using induction_parts with
  | step v ih =>
    intro out
    unfold chars repr
    cases v with
    | none => simp [write]
    | bool b => cases b <;> simp [write]
    | list items =>
      have hitems : ∀ v ∈ items, v.IsAppended := ih
      simp [write, toList_writeItems hitems]
    | tuple items =>
      have hitems : ∀ v ∈ items, v.IsAppended := ih
      cases items with
      | nil => simp [write, writeItems]
      | cons item items =>
        cases items with
        | nil =>
          have hitem := hitems item List.mem_cons_self
          simp [write, hitem (out ++ "("), hitem "("]
        | cons item' items => simp [write, toList_writeItems hitems]
    | dict entries =>
      have hentries := forall_mem_parts_dict.mp ih
      simp [write, toList_writeEntries hentries]
    | _ => simp [write]

theorem chars_list (items : List Value) :
    (Value.list items).chars = '[' :: joined (items.map chars) ++ [']'] := by
  rw [chars, repr, write, String.toList_append, toList_writeItems fun v _ => v.isAppended]
  rfl

theorem chars_tuple (items : List Value) :
    (Value.tuple items).chars =
      '(' :: (joined (items.map chars) ++ if items.length = 1 then [','] else []) ++ [')'] := by
  cases items with
  | nil => rfl
  | cons item items =>
    cases items with
    | nil =>
      rw [chars, repr, write, String.toList_append, item.isAppended]
      simp [joined]
    | cons item' items =>
      have hitems : ∀ v ∈ item :: item' :: items, v.IsAppended := fun v _ => v.isAppended
      rw [chars, repr]
      simp [write, toList_writeItems hitems]

theorem chars_dict (entries : List (Value × Value)) :
    (Value.dict entries).chars = '{' :: joined (entries.map entryChars) ++ ['}'] := by
  rw [chars, repr, write, String.toList_append,
    toList_writeEntries fun e _ => ⟨e.1.isAppended, e.2.isAppended⟩]
  rfl

theorem chars_text (s : String) :
    (Value.text s).chars =
      '\'' :: (s.toList.flatMap fun c => (quoteChar c).toList) ++ ['\''] := by
  rw [chars, repr_text, toList_quote]

theorem chars_ofNat (n : Nat) : (Value.int (.ofNat n)).chars = Nat.toDigits 10 n := by
  rw [chars, repr_int]
  exact String.toList_ofList

theorem chars_negSucc (n : Nat) :
    (Value.int (.negSucc n)).chars = '-' :: Nat.toDigits 10 (n + 1) := by
  rw [chars, repr_int]
  have hspelled : toString (Int.negSucc n) = "-" ++ String.ofList (Nat.toDigits 10 (n + 1)) := rfl
  simp [hspelled]

/-! ## Literals -/

/-- A value that a literal can stand for, its parts apart. -/
def HasLiteral : Value → Prop
  | .none | .bool _ | .text _ | .list _ | .tuple _ => True
  | .int n => Decimal.minInt64 < n ∧ n ≤ Decimal.maxInt64
  | .dict entries => entries.Pairwise fun earlier later => earlier.1.equals later.1 = false
  | _ => False

/-- A value with a plain text, if it is a text. -/
def HasPlainText : Value → Prop
  | .text s => IsPlain s
  | _ => True

mutual

/-- The literal that the scanner reads where a value is written, if there is a literal for it. -/
def literal : Value → Expr
  | .bool b => .bool b
  | .int (.ofNat n) => .int n
  | .int (.negSucc n) => .unary .minus (.int (n + 1))
  | .text s => .text (reread s)
  | .list items => .list (literals items)
  | .tuple items => .tuple (literals items)
  | .dict entries => .dict (entryLiterals entries)
  | .none | .float _ | .builtin _ | .function _ | .method .. | .stub _ => .none

/-- The literals of several values. -/
def literals : List Value → List Expr
  | [] => []
  | value :: values => value.literal :: literals values

/-- The literals of entries. -/
def entryLiterals : List (Value × Value) → List (Expr × Expr)
  | [] => []
  | (key, value) :: entries => (key.literal, value.literal) :: entryLiterals entries

end

theorem literals_eq (values : List Value) : literals values = values.map literal := by
  induction values with
  | nil => rfl
  | cons value values ih => rw [literals, ih, List.map_cons]

theorem entryLiterals_eq (entries : List (Value × Value)) :
    entryLiterals entries = entries.map fun entry => (entry.1.literal, entry.2.literal) := by
  induction entries with
  | nil => rfl
  | cons entry entries ih => rw [entryLiterals, ih, List.map_cons]

/-- There are no names in literals. -/
theorem spellable_literal (v : Value) : v.literal.Spellable := by
  have hleaf {e : Expr} (hnames : e.HasNames) (hparts : e.parts = []) : e.Spellable :=
    Expr.all_of_parts hnames (by rw [hparts]; nofun)
  induction v using induction_parts with
  | step v ih =>
    cases v with
    | int n =>
      cases n with
      | ofNat n => exact hleaf trivial rfl
      | negSucc n => exact Expr.all_unary trivial (hleaf trivial rfl)
    | list items =>
      rw [literal, literals_eq]
      exact Expr.all_list trivial (List.forall_mem_map.mpr ih)
    | tuple items =>
      rw [literal, literals_eq]
      exact Expr.all_tuple trivial (List.forall_mem_map.mpr ih)
    | dict entries =>
      have hentries := forall_mem_parts_dict.mp ih
      rw [literal, entryLiterals_eq]
      refine Expr.all_dict trivial ?_
      exact List.forall_mem_map.mpr hentries
    | _ => exact hleaf trivial rfl

end Value

end Monorepo.Script
