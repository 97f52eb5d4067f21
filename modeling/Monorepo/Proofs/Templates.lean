import Monorepo.Proofs.LiteralTokens
import Monorepo.Proofs.Pieces
import Monorepo.Script.Methods

/-!
# Templates and concatenation

A template in either of the two small languages is made of pieces of text with a field between each
two. The characters that mean something in the language are written twice in the pieces, so that
they stand for themselves, also next to a field. Filled with values, one for each field, it is the
pieces and the texts of the values one after another.
-/

namespace Monorepo.Script

namespace Template

/-! ## Pieces and fields -/

/-- A text with every character that satisfies `p` written twice. -/
def doubled (p : Char → Bool) (s : String) : String :=
  String.ofList (s.toList.flatMap fun c => if p c then [c, c] else [c])

/-- Whether a character is a brace. -/
def isBrace (c : Char) : Bool := c == '{' || c == '}'

/-- A piece of text and behind it pairs of what stands between the pieces and the next piece. -/
def interlaced (piece : String) : List (String × String) → String
  | [] => piece
  | (between, next) :: rest => piece ++ between ++ interlaced next rest

/-- What a field shows of a value: its text for people, or the literal. -/
def shown (literal : Bool) (v : Value) : String := if literal then v.repr else v.display

/-- Pieces of text with values between them, one after another. -/
def filled (literal : Bool) (piece : String) (fields : List (Value × String)) : String :=
  interlaced piece (fields.map fun (value, next) => (shown literal value, next))

/-- The characters between the braces of the field at position `i`. -/
def key (numbered literal : Bool) (i : Nat) : List Char :=
  (if numbered then Nat.toDigits 10 i else []) ++ if literal then ['!', 'r'] else []

/-- A field in braces. -/
def bracedField (numbered literal : Bool) (i : Nat) : String :=
  String.ofList ('{' :: (key numbered literal i ++ ['}']))

/-- The template in braces for pieces of text with values between them, the first of them at
    position `first`. The fields name the positions or leave them to be counted. -/
def braced (numbered literal : Bool) (first : Nat) (piece : String)
    (fields : List (Value × String)) : String :=
  interlaced (doubled isBrace piece) ((fields.zipIdx first).map fun ((_, next), i) =>
    (bracedField numbered literal i, doubled isBrace next))

/-- The template with percent signs for pieces of text with values between them. -/
def percented (literal : Bool) (piece : String) (fields : List (Value × String)) : String :=
  interlaced (doubled (· == '%') piece) (fields.map fun (_, next) =>
    (if literal then "%r" else "%s", doubled (· == '%') next))

theorem filled_cons (literal : Bool) (piece : String) (value : Value) (next : String)
    (fields : List (Value × String)) :
    filled literal piece ((value, next) :: fields) =
      piece ++ shown literal value ++ filled literal next fields := rfl

theorem toList_doubled (p : Char → Bool) (s : String) :
    (doubled p s).toList = s.toList.flatMap fun c => if p c then [c, c] else [c] :=
  String.toList_ofList

theorem append_ofList_cons (out : String) (c : Char) (cs : List Char) :
    out ++ String.ofList (c :: cs) = out.push c ++ String.ofList cs := by
  rw [String.ofList_cons, ← String.append_assoc, String.append_singleton]

theorem toList_braced_nil (numbered literal : Bool) (first : Nat) (piece : String) :
    (braced numbered literal first piece []).toList = (doubled isBrace piece).toList ++ [] :=
  (List.append_nil _).symm

theorem toList_braced_cons (numbered literal : Bool) (first : Nat) (piece : String) (value : Value)
    (next : String) (fields : List (Value × String)) :
    (braced numbered literal first piece ((value, next) :: fields)).toList =
      (doubled isBrace piece).toList ++ '{' :: (key numbered literal first ++
        '}' :: (braced numbered literal (first + 1) next fields).toList) := by
  have hcons : braced numbered literal first piece ((value, next) :: fields) =
      doubled isBrace piece ++ bracedField numbered literal first ++
        braced numbered literal (first + 1) next fields := rfl
  simp [hcons, bracedField]

theorem toList_percented_cons (literal : Bool) (piece : String) (value : Value) (next : String)
    (fields : List (Value × String)) :
    (percented literal piece ((value, next) :: fields)).toList =
      (doubled (· == '%') piece).toList ++ '%' :: (if literal then 'r' else 's') ::
        (percented literal next fields).toList := by
  have hcons : percented literal piece ((value, next) :: fields) =
      doubled (· == '%') piece ++ (if literal then "%r" else "%s") ++
        percented literal next fields := rfl
  cases literal <;> simp [hcons]

/-! ## Braces -/

section Braces

variable {arguments : List Value} {keywords : Keywords}

/-- Doubled braces and all other characters are written as they are meant. -/
theorem formatFrom_doubled (next : Nat) (out piece : String) (rest : List Char) :
    formatFrom arguments keywords none next out ((doubled isBrace piece).toList ++ rest) =
      formatFrom arguments keywords none next (out ++ piece) rest := by
  obtain ⟨cs, rfl⟩ : ∃ cs, piece = String.ofList cs := ⟨_, String.ofList_toList.symm⟩
  rw [toList_doubled, String.toList_ofList]
  induction cs generalizing out with
  | nil => simp
  | cons c cs ih =>
    rw [List.flatMap_cons, List.append_assoc, append_ofList_cons, ← ih]
    by_cases hopen : c = '{'
    · subst hopen
      exact formatFrom.eq_5 ..
    · by_cases hclose : c = '}'
      · subst hclose
        exact formatFrom.eq_6 ..
      · have hplain : isBrace c = false := by simp [isBrace, hopen, hclose]
        rw [if_neg (Bool.not_eq_true _ ▸ hplain), List.singleton_append]
        exact formatFrom_plain _ _ hopen hclose ..

/-- Inside a field its characters are gathered up to the closing brace. -/
theorem formatFrom_inside {field : List Char} (hfield : '}' ∉ field) (read : List Char) (next : Nat)
    (out : String) (rest : List Char) :
    formatFrom arguments keywords (some read) next out (field ++ '}' :: rest) =
      (fill arguments keywords next (read.reverse ++ field) out).bind fun (next, out) =>
        formatFrom arguments keywords none next out rest := by
  induction field generalizing read with
  | nil =>
    rw [List.append_nil]
    exact formatFrom.eq_2 ..
  | cons c field ih =>
    have hc : c ≠ '}' := (List.ne_of_not_mem_cons hfield).symm
    rw [List.cons_append, formatFrom.eq_3 _ _ _ _ _ _ _ hc,
      ih (List.not_mem_of_not_mem_cons hfield), List.reverse_cons, List.append_assoc,
      List.singleton_append]

/-- A field begins at a brace with no second one behind it. -/
theorem formatFrom_field {field : List Char} (hfield : '}' ∉ field) (hopen : '{' ∉ field)
    (next : Nat) (out : String) (rest : List Char) :
    formatFrom arguments keywords none next out ('{' :: (field ++ '}' :: rest)) =
      (fill arguments keywords next field out).bind fun (next, out) =>
        formatFrom arguments keywords none next out rest := by
  have hsingle : ∀ cs, field ++ '}' :: rest = '{' :: cs → False := by
    intro cs heq
    cases field with
    | nil => cases heq
    | cons c field =>
      obtain ⟨rfl, -⟩ := List.cons.inj heq
      exact hopen List.mem_cons_self
  rw [formatFrom.eq_7 _ _ _ _ _ hsingle]
  exact formatFrom_inside hfield [] next out rest

/-! ### Keys -/

theorem not_mem_key {c : Char} (hdigit : c.isDigit = false) (hmark : c ≠ '!') (hletter : c ≠ 'r')
    (numbered literal : Bool) (i : Nat) : c ∉ key numbered literal i := by
  have hdigits := (isDigits_toDigits i).not_mem hdigit
  cases numbered <;> cases literal <;> simp [key, hdigits, hmark, hletter]

/-- The mark for literals stands in the key of a field just if it is meant. -/
theorem holds_key (numbered literal : Bool) (i : Nat) :
    Text.holds ['!', 'r'] (key numbered literal i) = literal := by
  cases literal with
  | true => exact Text.holds_iff.mpr (List.suffix_append _ _).isInfix
  | false =>
    refine Bool.eq_false_iff.mpr fun hholds => ?_
    have hmem : '!' ∈ key numbered false i :=
      (Text.holds_iff.mp hholds).subset List.mem_cons_self
    have hdigits := (isDigits_toDigits i).not_mem (c := '!') rfl
    cases numbered <;> simp [key, hdigits] at hmem

theorem takeWhile_key (numbered literal : Bool) (i : Nat) :
    (key numbered literal i).takeWhile (fun c => c != ':' && c != '!') =
      if numbered then Nat.toDigits 10 i else [] := by
  have hdigits : ∀ c ∈ Nat.toDigits 10 i, (c != ':' && c != '!') = true := by
    intro c hc
    have hcolon : c ≠ ':' := fun heq => (isDigits_toDigits i).not_mem (c := ':') rfl (heq ▸ hc)
    have hmark : c ≠ '!' := fun heq => (isDigits_toDigits i).not_mem (c := '!') rfl (heq ▸ hc)
    simp [hcolon, hmark]
  have hmarked : (if literal then ['!', 'r'] else []).takeWhile
      (fun c => c != ':' && c != '!') = [] := by
    cases literal <;> rfl
  unfold key
  cases numbered with
  | false => exact hmarked
  | true =>
    change (Nat.toDigits 10 i ++ _).takeWhile _ = Nat.toDigits 10 i
    rw [List.takeWhile_append_of_pos hdigits, hmarked, List.append_nil]

theorem position?_toDigits {i : Nat} (hi : i < Decimal.wordLimit) :
    position? (Nat.toDigits 10 i) = some i := by
  have hplus : ∀ cs, Nat.toDigits 10 i ≠ '+' :: cs := by
    intro cs heq
    exact (isDigits_toDigits i).not_mem (c := '+') rfl (heq ▸ List.mem_cons_self)
  unfold position?
  dsimp only
  split
  · exact absurd ‹_› (hplus _)
  · rw [readNat?_toDigits]
    exact Option.filter_some_pos (decide_eq_true hi)

/-- A field names the argument at its position, by the number or by counting. -/
theorem argument_key {numbered : Bool} (literal : Bool) {i : Nat}
    (hi : numbered = true → i < Decimal.wordLimit) :
    argument arguments keywords (if numbered then 0 else i) (key numbered literal i) =
      (arguments[i]?, if numbered then 0 else i + 1) := by
  unfold argument
  rw [takeWhile_key]
  cases numbered with
  | false => rfl
  | true =>
    have hne : (Nat.toDigits 10 i).isEmpty = false := by simp [Nat.toDigits_ne_nil]
    simp [position?_toDigits (hi rfl), hne]

/-- A field is filled with the argument at its position, if the text does not get too long. -/
theorem fill_key {numbered : Bool} (literal : Bool) {i : Nat}
    (hi : numbered = true → i < Decimal.wordLimit) {value : Value}
    (hvalue : arguments[i]? = some value) {out : String}
    (hsize : (out ++ shown literal value).utf8ByteSize ≤ maxSequence) :
    fill arguments keywords (if numbered then 0 else i) (key numbered literal i) out =
      .ok (if numbered then 0 else i + 1, out ++ shown literal value) := by
  unfold fill
  rw [argument_key literal hi, hvalue]
  dsimp only
  rw [holds_key]
  exact if_neg (Nat.not_lt.mpr hsize)

/-- From its first field on, a template is filled with the arguments from that position on. -/
theorem formatFrom_braced (keywords : Keywords) {numbered : Bool} (literal : Bool)
    (hlength : numbered = true → arguments.length ≤ Decimal.wordLimit)
    (fields : List (Value × String)) (before : List Value)
    (harguments : arguments = before ++ fields.map Prod.fst) (piece out : String)
    (hsize : (out ++ filled literal piece fields).utf8ByteSize ≤ maxSequence) :
    formatFrom arguments keywords none (if numbered then 0 else before.length) out
      (braced numbered literal before.length piece fields).toList =
        .ok (out ++ filled literal piece fields) := by
  induction fields generalizing before piece out with
  | nil =>
    rw [toList_braced_nil, formatFrom_doubled]
    exact formatFrom.eq_4 ..
  | cons field fields ih =>
    obtain ⟨value, next⟩ := field
    have hvalue : arguments[before.length]? = some value := by
      rw [harguments, List.getElem?_append_right (Nat.le_refl _), Nat.sub_self]
      rfl
    have hposition : numbered = true → before.length < Decimal.wordLimit := fun hnumbered =>
      Nat.lt_of_lt_of_le (List.getElem?_eq_some_iff.mp hvalue).1 (hlength hnumbered)
    rw [filled_cons, ← String.append_assoc, ← String.append_assoc] at hsize ⊢
    have hshort : (out ++ piece ++ shown literal value).utf8ByteSize ≤ maxSequence := by
      rw [String.utf8ByteSize_append] at hsize
      omega
    have hclose : '}' ∉ key numbered literal before.length :=
      not_mem_key rfl (by decide) (by decide) _ _ _
    have hopen : '{' ∉ key numbered literal before.length :=
      not_mem_key rfl (by decide) (by decide) _ _ _
    rw [toList_braced_cons, formatFrom_doubled, formatFrom_field hclose hopen,
      fill_key literal hposition hvalue hshort]
    have hrest := ih (before ++ [value]) (by simpa using harguments) next _ hsize
    rw [List.length_append, List.length_singleton] at hrest
    exact hrest

end Braces

/-! ## Percent signs -/

/-- Doubled percent signs and all other characters are written as they are meant. -/
theorem percentFrom_doubled (values : List Value) (out piece : String) (rest : List Char) :
    percentFrom values out ((doubled (· == '%') piece).toList ++ rest) =
      percentFrom values (out ++ piece) rest := by
  obtain ⟨cs, rfl⟩ : ∃ cs, piece = String.ofList cs := ⟨_, String.ofList_toList.symm⟩
  rw [toList_doubled, String.toList_ofList]
  induction cs generalizing out with
  | nil => simp
  | cons c cs ih =>
    rw [List.flatMap_cons, List.append_assoc, append_ofList_cons, ← ih]
    by_cases hc : c = '%'
    · subst hc
      exact percentFrom.eq_4 ..
    · rw [if_neg (by simpa using hc), List.singleton_append]
      exact percentFrom_plain hc ..

theorem convert_shown (literal : Bool) (value : Value) :
    convert (if literal then 'r' else 's') value = .ok (shown literal value) := by
  cases literal <;> rfl

/-- A template is filled with one value for each field. -/
theorem percentFrom_percented (literal : Bool) (fields : List (Value × String))
    (piece out : String) :
    percentFrom (fields.map Prod.fst) out (percented literal piece fields).toList =
      .ok (out ++ filled literal piece fields) := by
  induction fields generalizing piece out with
  | nil =>
    have h := percentFrom_doubled [] out piece []
    rw [List.append_nil, percentFrom.eq_1] at h
    exact h
  | cons field fields ih =>
    obtain ⟨value, next⟩ := field
    have hconversion : (if literal then 'r' else 's') ≠ '%' := by
      cases literal <;> decide
    rw [toList_percented_cons, percentFrom_doubled, List.map_cons,
      percentFrom.eq_6 _ _ _ _ _ hconversion, convert_shown, filled_cons, ← String.append_assoc,
      ← String.append_assoc]
    exact ih next _

end Template

/-- **Templates are concatenation.** Let pieces of text have values between them, and let all of it
    together be no longer than a text may be. Then that is what both templates yield that have the
    pieces with their special characters doubled and a field for each value: the one in braces by
    the method `format`, with fields that are counted or numbered, and the one with percent signs
    by the operator `%`. A number in a field is read as a word, which is also what the arguments
    of a call are counted in. -/
theorem templates_filled (literal : Bool) (piece : String) (fields : List (Value × String))
    (hsize : (Template.filled literal piece fields).utf8ByteSize ≤ maxSequence) :
    let values := fields.map Prod.fst
    let whole := Value.text (Template.filled literal piece fields)
    (∀ keywords, callMethod (.text (Template.braced false literal 0 piece fields)) "format" values
      keywords = .ok whole) ∧
    (values.length ≤ Decimal.wordLimit → ∀ keywords,
      callMethod (.text (Template.braced true literal 0 piece fields)) "format" values keywords =
        .ok whole) ∧
    operate .modulo (.text (Template.percented literal piece fields)) (.tuple values) =
      .ok whole := by
  intro values whole
  have hbraced (numbered : Bool) (keywords : Keywords)
      (hlength : numbered = true → values.length ≤ Decimal.wordLimit) :
      callMethod (.text (Template.braced numbered literal 0 piece fields)) "format" values
        keywords = .ok whole := by
    have hcall (template : String) : callMethod (.text template) "format" values keywords =
        (Template.format template values keywords).map .text := by
      unfold callMethod
      rw [if_neg (by simp)]
      rfl
    have hformat := Template.formatFrom_braced keywords literal hlength fields [] rfl piece ""
      (by rwa [String.empty_append])
    rw [List.length_nil, ite_self, String.empty_append] at hformat
    rw [hcall, Template.format, hformat]
    rfl
  refine ⟨fun keywords => hbraced false keywords nofun,
    fun hlength keywords => hbraced true keywords fun _ => hlength, ?_⟩
  have hpercent := Template.percentFrom_percented literal fields piece ""
  rw [String.empty_append] at hpercent
  change (Template.percentFrom values "" _).map Value.text = _
  rw [hpercent]
  rfl

/-- Braces and percent signs that touch the fields. -/
theorem templates_filled_touching :
    let fields := [(Value.int 7, "\x7d%"), (Value.text "'", "\x7b")]
    let values := [Value.int 7, Value.text "'"]
    let whole := Value.text "\x7b7\x7d%'\\''\x7b"
    (Template.filled true "\x7b" fields).utf8ByteSize ≤ maxSequence ∧
    callMethod (.text "\x7b\x7b\x7b!r\x7d\x7d\x7d%\x7b!r\x7d\x7b\x7b") "format" values [] =
      .ok whole ∧
    callMethod (.text "\x7b\x7b\x7b0!r\x7d\x7d\x7d%\x7b1!r\x7d\x7b\x7b") "format" values [] =
      .ok whole ∧
    operate .modulo (.text "\x7b%r\x7d%%%r\x7b") (.tuple values) = .ok whole := by
  intro fields values whole
  have hsize : (Template.filled true "\x7b" fields).utf8ByteSize ≤ maxSequence := by decide
  obtain ⟨hcounted, hnumbered, hpercent⟩ := templates_filled true "\x7b" fields hsize
  exact ⟨hsize, hcounted [], hnumbered (by decide) [], hpercent⟩

end Monorepo.Script
