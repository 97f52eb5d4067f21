import Monorepo.Text.Blank

/-!
# Cutting texts into pieces

Occurrences of a separator are taken from the left and do not overlap. All functions work on lists
of characters and walk them once, so that a long text takes no more room than its pieces.
-/

namespace Monorepo.Text

/-- Cuts `cs` at the first occurrences of `separator`, at most `limit` of them if there is a limit.
    `skip` characters still belong to the last occurrence; `piece` is the piece under way and `done`
    the pieces before it, all in reverse. -/
def cutFrom (separator : List Char) :
    Option Nat → Nat → List Char → List (List Char) → List Char → List (List Char)
  | _, _, piece, done, [] => (piece.reverse :: done).reverse
  | limit, skip + 1, piece, done, _ :: cs => cutFrom separator limit skip piece done cs
  | limit, 0, piece, done, c :: cs =>
    if limit != some 0 && separator.isPrefixOf (c :: cs) then
      cutFrom separator (limit.map (· - 1)) (separator.length - 1) [] (piece.reverse :: done) cs
    else cutFrom separator limit 0 (c :: piece) done cs

/-- The pieces of `cs` between occurrences of a separator that is not empty. -/
def cut (separator : List Char) (limit : Option Nat) (cs : List Char) : List (List Char) :=
  cutFrom separator limit 0 [] [] cs

/-- How often a text that is not empty occurs. -/
def occurrences (pattern cs : List Char) : Nat := (cut pattern none cs).length - 1

/-- Whether `pattern` stands somewhere in `cs`. -/
def holds (pattern : List Char) : List Char → Bool
  | [] => pattern.isEmpty
  | c :: cs => pattern.isPrefixOf (c :: cs) || holds pattern cs

/-- Joins pieces with a separator behind `done`, all in reverse. -/
def joinFrom (separator : List Char) : List Char → List (List Char) → List Char
  | done, [] => done.reverse
  | done, [piece] => (piece.reverse ++ done).reverse
  | done, piece :: pieces =>
    joinFrom separator (separator.reverse ++ (piece.reverse ++ done)) pieces

/-- The pieces one after another with a separator between them. -/
def join (separator : List Char) (pieces : List (List Char)) : List Char :=
  joinFrom separator [] pieces

/-- Puts `new` in front of every character of the text and at its end, at most `limit` times;
    `done` is what was written, in reverse. -/
def interleaveFrom (new : List Char) : Option Nat → List Char → List Char → List Char
  | some 0, done, cs => done.reverse ++ cs
  | _, done, [] => (new.reverse ++ done).reverse
  | limit, done, c :: cs =>
    interleaveFrom new (limit.map (· - 1)) (c :: (new.reverse ++ done)) cs

/-- Replaces occurrences of `old` by `new`, at most `limit` of them. The empty text occurs in front
    of every character and at the end. -/
def replace (old new : List Char) (limit : Option Nat) (cs : List Char) : List Char :=
  if old.isEmpty then interleaveFrom new limit [] cs else join new (cut old limit cs)

/-! ## Blanks at the ends and between words -/

/-- The text without the characters at its start that satisfy `p`. -/
def dropLeft (p : Char → Bool) (cs : List Char) : List Char := cs.dropWhile p

/-- The text without the characters at its end that satisfy `p`. -/
def dropRight (p : Char → Bool) (cs : List Char) : List Char := (cs.reverse.dropWhile p).reverse

/-- The text without the characters at both ends that satisfy `p`. -/
def dropEnds (p : Char → Bool) (cs : List Char) : List Char := dropRight p (dropLeft p cs)

/-- The words of a text; `word` is the word under way and `done` the words before it, all in
    reverse. -/
def wordsFrom : List Char → List (List Char) → List Char → List (List Char)
  | word, done, [] => (if word.isEmpty then done else word.reverse :: done).reverse
  | word, done, c :: cs =>
    if isBlank c then wordsFrom [] (if word.isEmpty then done else word.reverse :: done) cs
    else wordsFrom (c :: word) done cs

/-- The longest pieces of a text that hold no blank. -/
def words (cs : List Char) : List (List Char) := wordsFrom [] [] cs

/-- The first words of a text, at most `limit` of them, and then the rest from the next word on, if
    there is one; `word` and `done` are as for `wordsFrom`. -/
def firstWordsFrom : Nat → List Char → List (List Char) → List Char → List (List Char)
  | _, word, done, [] => (if word.isEmpty then done else word.reverse :: done).reverse
  | limit, word, done, c :: cs =>
    if isBlank c then
      if word.isEmpty then firstWordsFrom limit [] done cs
      else firstWordsFrom (limit - 1) [] (word.reverse :: done) cs
    else if limit = 0 then ((c :: cs) :: done).reverse
    else firstWordsFrom limit (c :: word) done cs

/-- The first words of a text, at most `limit` of them, and then the rest from the next word on. -/
def firstWords (limit : Nat) (cs : List Char) : List (List Char) := firstWordsFrom limit [] [] cs

end Monorepo.Text
