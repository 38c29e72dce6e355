import Lox.Text.Digit
import Lox.Text.Line
import Lox.Token.Basic

/-!
Source text as tokens. Between lexemes stand blanks and comments; at each place the longest lexeme
is taken, and a place where none starts ends the scan.
-/
namespace Lox.Token

def isBlank (c : Char) : Bool := c = ' ' || c = '\t' || c = '\r' || c = '\n'

/-- Blanks and comments, and the text after them; a comment runs from two slashes up to a line
feed. -/
def splitGap : (inComment : Bool) → List Char → List Char × List Char
  | _, [] => ([], [])
  | true, c :: rest =>
    let (gap, text) := splitGap (c != '\n') rest
    (c :: gap, text)
  | false, '/' :: '/' :: rest =>
    let (gap, text) := splitGap true rest
    ('/' :: '/' :: gap, text)
  | false, c :: rest =>
    if isBlank c then
      let (gap, text) := splitGap false rest
      (c :: gap, text)
    else ([], c :: rest)

def isWordStart (c : Char) : Bool := c.isAlpha || c = '_'

def isWordPart (c : Char) : Bool := isWordStart c || c.isDigit

/-- A lexeme at the front of a text, and the text after it. -/
structure Lexeme where
  kind : Kind
  spelling : List Char
  rest : List Char

namespace Lexeme

def string? (afterQuote : List Char) : Option Lexeme :=
  let text := afterQuote.takeWhile (· != '\x22')
  match afterQuote.dropWhile (· != '\x22') with
  | [] => none
  | quote :: rest => some ⟨.string (String.ofList text), '\x22' :: (text ++ [quote]), rest⟩

def number (source : List Char) : Lexeme :=
  let whole := source.takeWhile Text.isDigit
  let rest := source.dropWhile Text.isDigit
  let fraction := (rest.drop 1).takeWhile Text.isDigit
  if rest.head? = some '.' ∧ fraction ≠ [] then
    let decimal : Decimal := ⟨Text.digitsValue (whole ++ fraction), fraction.length⟩
    ⟨.number decimal.toNumber, whole ++ '.' :: fraction, (rest.drop 1).dropWhile Text.isDigit⟩
  else
    ⟨.number (Decimal.toNumber ⟨Text.digitsValue whole, 0⟩), whole, rest⟩

def word (source : List Char) : Lexeme :=
  let spelling := source.takeWhile isWordPart
  let name := String.ofList spelling
  ⟨(keywords.lookup name).getD (.identifier name), spelling, source.dropWhile isWordPart⟩

def symbol? (source : List Char) : Option Lexeme :=
  (symbols.find? fun entry => entry.1.toList.isPrefixOf source).map fun entry =>
    ⟨entry.2, entry.1.toList, source.drop entry.1.toList.length⟩

def first? (source : List Char) : Option Lexeme :=
  match source with
  | [] => none
  | c :: rest =>
    if c = '\x22' then string? rest
    else if Text.isDigit c then some (number source)
    else if isWordStart c then some (word source)
    else symbol? source

end Lexeme

def gap (source : List Char) : List Char := (splitGap false source).1

def afterGap (source : List Char) : List Char := (splitGap false source).2

theorem splitGap_append (inComment : Bool) (source : List Char) :
    (splitGap inComment source).1 ++ (splitGap inComment source).2 = source := by
  fun_induction splitGap inComment source <;> simp_all

theorem gap_append_afterGap (source : List Char) : gap source ++ afterGap source = source :=
  splitGap_append false source

namespace Lexeme

def Fits (lexeme : Lexeme) (source : List Char) : Prop :=
  lexeme.spelling ++ lexeme.rest = source ∧ lexeme.spelling ≠ []

theorem string?_fits {rest : List Char} {lexeme : Lexeme} (found : string? rest = some lexeme) :
    lexeme.Fits ('\x22' :: rest) := by
  unfold string? at found
  split at found
  · cases found
  · next quote after closed =>
    cases found
    refine ⟨?_, by simp⟩
    have split := List.takeWhile_append_dropWhile (p := (· != '\x22')) (l := rest)
    rw [closed] at split
    simp [split]

theorem number_fits {c : Char} {rest : List Char} (digit : Text.isDigit c) :
    (number (c :: rest)).Fits (c :: rest) := by
  have split := List.takeWhile_append_dropWhile (p := Text.isDigit) (l := c :: rest)
  have front : (c :: rest).takeWhile Text.isDigit = c :: rest.takeWhile Text.isDigit := by
    simp [digit]
  unfold number
  extract_lets whole tail fraction
  split
  · next point =>
    obtain ⟨after, tail_eq⟩ : ∃ after, tail = '.' :: after := by
      cases shape : tail with
      | nil => simp [shape] at point
      | cons head after => simp [shape] at point; exact ⟨after, by rw [point.1]⟩
    refine ⟨?_, by simp⟩
    have split_tail := List.takeWhile_append_dropWhile (p := Text.isDigit) (l := after)
    simp only [fraction, tail_eq, List.drop_succ_cons, List.drop_zero, List.append_assoc,
      List.cons_append, split_tail]
    rw [← tail_eq]
    exact split
  · exact ⟨split, by simp [whole, front]⟩

theorem word_fits {c : Char} {rest : List Char} (start : isWordStart c) :
    (word (c :: rest)).Fits (c :: rest) := by
  refine ⟨List.takeWhile_append_dropWhile, ?_⟩
  simp [word, isWordPart, start]

theorem symbol?_fits {source : List Char} {lexeme : Lexeme} (found : symbol? source = some lexeme) :
    lexeme.Fits source := by
  unfold symbol? at found
  obtain ⟨entry, entry_found, rfl⟩ := Option.map_eq_some_iff.mp found
  have front := List.find?_some entry_found
  have listed := List.mem_of_find?_eq_some entry_found
  obtain ⟨after, rfl⟩ := List.isPrefixOf_iff_prefix.mp front
  have spelled : entry.1.toList ≠ [] := by
    have all : ∀ entry ∈ symbols, entry.1.toList ≠ [] := by decide
    exact all entry listed
  exact ⟨by simp, spelled⟩

theorem first?_fits {source : List Char} {lexeme : Lexeme} (found : first? source = some lexeme) :
    lexeme.Fits source := by
  cases source with
  | nil => cases found
  | cons c rest =>
    simp only [first?] at found
    split at found
    · next quote => subst quote; exact string?_fits found
    · split at found
      · next digit => cases found; exact number_fits digit
      · split at found
        · next start => cases found; exact word_fits start
        · exact symbol?_fits found

theorem rest_lt_of_first? {source : List Char} {lexeme : Lexeme}
    (found : first? source = some lexeme) : lexeme.rest.length < source.length := by
  obtain ⟨split, spelled⟩ := first?_fits found
  have := List.length_pos_iff.mpr spelled
  rw [← split, List.length_append]
  omega

end Lexeme

theorem rest_lt_source {source : List Char} {lexeme : Lexeme}
    (found : Lexeme.first? (afterGap source) = some lexeme) :
    lexeme.rest.length < source.length := by
  have shorter := Lexeme.rest_lt_of_first? found
  have parts := congrArg List.length (gap_append_afterGap source)
  rw [List.length_append] at parts
  omega

/-- The tokens of a text whose first character is on a line, or the text at the first place where
no lexeme starts. -/
def scanFrom (line : Nat) (source : List Char) : Except (List Char) (List Token) :=
  let start := line + (gap source).count '\n'
  match _found : Lexeme.first? (afterGap source) with
  | some lexeme => do
    let last := start + lexeme.spelling.count '\n'
    let others ← scanFrom last lexeme.rest
    return ⟨lexeme.kind, String.ofList lexeme.spelling, last⟩ :: others
  | none => if (afterGap source).isEmpty then .ok [endOfInput start] else .error (afterGap source)
termination_by source.length
decreasing_by exact rest_lt_source ‹_›

end Lox.Token
