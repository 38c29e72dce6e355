import Lox.Proofs.Number.Written
import Lox.Proofs.Text.Cut
import Lox.Token.ScanError

namespace Lox.Token

/-- The text is scanned, on whatever line it starts, as tokens of such kinds and the end. -/
def Scans (source : List Char) (kinds : List Kind) : Prop :=
  ∀ line, ∃ tokens, scanFrom line source = .ok tokens ∧
    tokens.map Token.kind = kinds ++ [.endOfInput]

/-- No sign goes on into the text, and no comment starts with a sign before it. -/
def Calm (rest : List Char) : Prop := ∀ c ∈ rest.head?, c ≠ '=' ∧ c ≠ '/'

/-- No lexeme goes on into the text. -/
def Apart (rest : List Char) : Prop :=
  ∀ c ∈ rest.head?, isWordPart c = false ∧ Text.isDigit c = false ∧ c ≠ '=' ∧ c ≠ '/'

theorem Apart.calm {rest : List Char} (apart : Apart rest) : Calm rest :=
  fun c front => (apart c front).2.2

theorem Apart.nil : Apart [] := by simp [Apart]

def isWord (name : String) : Bool :=
  name.toList.head?.any isWordStart && name.toList.all isWordPart

section
variable {source rest : List Char} {kinds : List Kind}

theorem scanFrom_eq (line : Nat) (source : List Char) : scanFrom line source =
    let start := line + (gap source).count '\n'
    match Lexeme.first? (afterGap source) with
    | some lexeme =>
      let last := start + lexeme.spelling.count '\n'
      (scanFrom last lexeme.rest).map fun others =>
        ⟨lexeme.kind, String.ofList lexeme.spelling, last⟩ :: others
    | none => if (afterGap source).isEmpty then .ok [endOfInput start] else .error (afterGap source) := by
  rw [scanFrom]
  split
  · next lexeme found =>
    rw [found]
    cases scanFrom (line + (gap source).count '\n' + lexeme.spelling.count '\n') lexeme.rest <;> rfl
  · next missing => rw [missing]

theorem Scans.nil : Scans [] [] := by
  intro line
  refine ⟨[endOfInput line], ?_, rfl⟩
  rw [scanFrom_eq]
  rfl

theorem Scans.cons {lexeme : Lexeme} (found : Lexeme.first? (afterGap source) = some lexeme)
    (others : Scans lexeme.rest kinds) : Scans source (lexeme.kind :: kinds) := by
  intro line
  rcases others (line + (gap source).count '\n' + lexeme.spelling.count '\n') with
    ⟨tokens, scanned, same⟩
  refine ⟨⟨lexeme.kind, String.ofList lexeme.spelling,
    (line + (gap source).count '\n' + lexeme.spelling.count '\n' : Nat)⟩ :: tokens, ?_, by simp [same]⟩
  rw [scanFrom_eq, found]
  simp only [scanned]
  rfl

theorem splitGap_blank {c : Char} (blank : isBlank c = true) :
    splitGap false (c :: rest) = (c :: gap rest, afterGap rest) := by
  have other : c ≠ '/' := by
    intro slash
    subst slash
    cases blank
  simp [gap, afterGap, splitGap, blank, other]

theorem Scans.blank {c : Char} (blank : isBlank c = true) (scans : Scans rest kinds) :
    Scans (c :: rest) kinds := by
  intro line
  rcases scans (line + [c].count '\n') with ⟨tokens, scanned, same⟩
  refine ⟨tokens, ?_, same⟩
  have counted : line + (c :: gap rest).count '\n' =
      line + [c].count '\n' + (gap rest).count '\n' := by
    rw [← List.singleton_append, List.count_append, Nat.add_assoc]
  have inFront : gap (c :: rest) = c :: gap rest := by
    rw [gap, splitGap_blank blank]
  have behind : afterGap (c :: rest) = afterGap rest := by
    rw [afterGap, splitGap_blank blank]
  rw [← scanned, scanFrom_eq, inFront, behind, counted, ← scanFrom_eq]

theorem afterGap_cons {c : Char} (inside : isBlank c = false)
    (calm : c = '/' → Calm rest) : afterGap (c :: rest) = c :: rest := by
  have other : ∀ after, c = '/' → rest = '/' :: after → False := by
    intro after slash again
    subst again
    exact (calm slash '/' rfl).2 rfl
  simp [afterGap, splitGap, inside]

theorem Scans.front {c : Char} {after : List Char} {lexeme : Lexeme} (inside : isBlank c = false)
    (calm : c = '/' → Calm rest) (found : Lexeme.first? (c :: rest) = some lexeme)
    (behind : lexeme.rest = after) (others : Scans after kinds) :
    Scans (c :: rest) (lexeme.kind :: kinds) := by
  subst behind
  exact Scans.cons ((afterGap_cons inside calm).symm ▸ found) others

theorem Scans.string {text : String} (unquoted : '\x22' ∉ text.toList) (scans : Scans rest kinds) :
    Scans ('\x22' :: (text.toList ++ '\x22' :: rest)) (.string text :: kinds) := by
  have inside : ∀ c ∈ text.toList, (c != '\x22') = true := by
    intro c member
    have other : c ≠ '\x22' := fun same => unquoted (same ▸ member)
    simpa using other
  have found : Lexeme.first? ('\x22' :: (text.toList ++ '\x22' :: rest)) =
      some ⟨.string text, '\x22' :: (text.toList ++ ['\x22']), rest⟩ := by
    simp [Lexeme.first?, Lexeme.string?, List.takeWhile_append_of_pos inside,
      List.dropWhile_append_of_pos inside, String.ofList_toList]
  exact Scans.front rfl (by simp) found rfl scans

theorem isDigit_range {c : Char} (digit : Text.isDigit c = true) :
    (0x30 ≤ c.toNat ∧ c.toNat < 0x3a) ∨ 0x660 ≤ c.toNat := by
  -- the zeros of all scripts but the first come after the letters of the first
  have zeros : ∀ start ∈ Text.zeroDigits, start = 0x30 ∨ 0x660 ≤ start := by decide
  rw [Text.isDigit, Text.digitValue?, Option.isSome_map] at digit
  rcases Option.isSome_iff_exists.mp digit with ⟨start, found⟩
  have bounds := List.find?_some found
  simp only [Bool.and_eq_true, decide_eq_true_eq] at bounds
  rcases zeros start (List.mem_of_find?_eq_some found) with rfl | later
  · exact .inl bounds
  · exact .inr (later.trans bounds.1)

theorem isDigit_wordStart {c : Char} (start : isWordStart c = true) : Text.isDigit c = false := by
  refine Bool.eq_false_iff.mpr fun digit => ?_
  have range := isDigit_range digit
  change (decide (c.val ≥ 'A'.val ∧ c.val ≤ 'Z'.val) ||
    (decide (c.val ≥ 'a'.val) && decide (c.val ≤ 'z'.val)) || decide (c = '_')) = true at start
  simp only [Bool.or_eq_true, Bool.and_eq_true, decide_eq_true_eq, ge_iff_le,
    UInt32.le_iff_toNat_le] at start
  rcases start with (upper | lower) | rfl
  · have bound : c.toNat ≤ 0x5a := upper.2
    have least : 0x41 ≤ c.toNat := upper.1
    omega
  · have bound : c.toNat ≤ 0x7a := lower.2
    have least : 0x61 ≤ c.toNat := lower.1
    omega
  · revert range
    decide

def reserved : List Char := [' ', '\t', '\r', '\n', '\x22', '/', '=']

theorem not_reserved {property : Char → Bool} {c : Char} (holds : property c = true)
    (lacks : reserved.any property = false) : c ∉ reserved :=
  fun member => List.any_eq_false.mp lacks c member holds

theorem isDigit_not_reserved {c : Char} (digit : Text.isDigit c = true) : c ∉ reserved :=
  not_reserved digit (by decide)

theorem isWordStart_not_reserved {c : Char} (start : isWordStart c = true) : c ∉ reserved :=
  not_reserved start (by decide)

theorem Scans.begun {c : Char} {lexeme : Lexeme} (inside : c ∉ reserved)
    (found : Lexeme.first? (c :: rest) = some lexeme) (others : Scans lexeme.rest kinds) :
    Scans (c :: rest) (lexeme.kind :: kinds) := by
  simp only [reserved, List.mem_cons, not_or] at inside
  refine Scans.front ?_ (fun slash => absurd slash inside.2.2.2.2.2.1) found rfl others
  simp [isBlank, inside]

theorem first?_digit {c : Char} (digit : Text.isDigit c = true) :
    Lexeme.first? (c :: rest) = some (Lexeme.number (c :: rest)) := by
  have inside := isDigit_not_reserved digit
  simp only [reserved, List.mem_cons, not_or] at inside
  rw [Lexeme.first?, if_neg inside.2.2.2.2.1, if_pos digit]

theorem first?_wordStart {c : Char} (start : isWordStart c = true) :
    Lexeme.first? (c :: rest) = some (Lexeme.word (c :: rest)) := by
  have inside := isWordStart_not_reserved start
  simp only [reserved, List.mem_cons, not_or] at inside
  rw [Lexeme.first?, if_neg inside.2.2.2.2.1, if_neg (by simp [isDigit_wordStart start]),
    if_pos start]

theorem number_eq {whole fraction : List Char} (more : fraction ≠ [])
    (digits : ∀ c ∈ whole ++ fraction, Text.isDigit c = true) (apart : Apart rest) :
    Lexeme.number (whole ++ '.' :: (fraction ++ rest)) =
      ⟨.number (Decimal.toNumber ⟨Text.digitsValue (whole ++ fraction), fraction.length⟩),
        whole ++ '.' :: fraction, rest⟩ := by
  have point : Text.isDigit '.' = false := by decide
  have first := @Text.split_at_end ('.' :: (fraction ++ rest)) Text.isDigit whole
    (fun d member => digits d (List.mem_append_left _ member)) (by simp [point])
  have second := @Text.split_at_end rest Text.isDigit fraction
    (fun d member => digits d (List.mem_append_right _ member)) fun d front => (apart d front).2.1
  simp [Lexeme.number, first, second, more]

theorem Scans.number {whole fraction : List Char} (started : whole ≠ []) (more : fraction ≠ [])
    (digits : ∀ c ∈ whole ++ fraction, Text.isDigit c = true) (apart : Apart rest)
    (scans : Scans rest kinds) :
    Scans (whole ++ '.' :: (fraction ++ rest))
      (.number (Decimal.toNumber ⟨Text.digitsValue (whole ++ fraction), fraction.length⟩) ::
        kinds) := by
  have same := number_eq more digits apart
  cases whole with
  | nil => exact absurd rfl started
  | cons c whole =>
    have digit := digits c List.mem_cons_self
    have found := @first?_digit (whole ++ '.' :: (fraction ++ rest)) c digit
    rw [← List.cons_append, same] at found
    exact Scans.begun (isDigit_not_reserved digit) found scans

theorem Scans.word {name : String} (word : isWord name = true) (apart : Apart rest)
    (scans : Scans rest kinds) :
    Scans (name.toList ++ rest) ((keywords.lookup name).getD (.identifier name) :: kinds) := by
  rcases Bool.and_eq_true_iff.mp word with ⟨started, parts⟩
  have split := @Text.split_at_end rest isWordPart name.toList (List.all_eq_true.mp parts)
    fun d front => (apart d front).1
  have same : Lexeme.word (name.toList ++ rest) =
      ⟨(keywords.lookup name).getD (.identifier name), name.toList, rest⟩ := by
    simp only [Lexeme.word, split, String.ofList_toList]
  cases shape : name.toList with
  | nil => simp [shape] at started
  | cons c more =>
    rw [shape] at same started
    have found := @first?_wordStart (more ++ rest) c started
    rw [← List.cons_append, same] at found
    exact Scans.begun (isWordStart_not_reserved started) found scans

theorem lookup_keyword {name : String} {kind : Kind} (listed : (name, kind) ∈ keywords) :
    isWord name = true ∧ keywords.lookup name = some kind := by
  have all : ∀ entry ∈ keywords, isWord entry.1 = true ∧ keywords.lookup entry.1 = some entry.2 := by
    decide
  exact all (name, kind) listed

theorem Scans.keyword {name : String} {kind : Kind} (listed : (name, kind) ∈ keywords)
    (apart : Apart rest) (scans : Scans rest kinds) :
    Scans (name.toList ++ rest) (kind :: kinds) := by
  rcases lookup_keyword listed with ⟨word, named⟩
  have reads := Scans.word word apart scans
  rw [named] at reads
  exact reads

theorem symbol?_eq {text : String} {kind : Kind} (listed : (text, kind) ∈ symbols)
    (calm : Calm rest) :
    Lexeme.symbol? (text.toList ++ rest) = some ⟨kind, text.toList, rest⟩ := by
  have noEqual : ['='].isPrefixOf rest = false := by
    cases rest with
    | nil => rfl
    | cons c rest =>
      have other := (calm c rfl).1
      simpa [List.isPrefixOf] using other.symm
  simp only [symbols, List.mem_cons, List.not_mem_nil, or_false, Prod.mk.injEq] at listed
  casesm* _ ∨ _
  all_goals
    rcases listed with ⟨rfl, rfl⟩
    simp [Lexeme.symbol?, symbols, noEqual]

theorem Scans.symbol {text : String} {kind : Kind} (listed : (text, kind) ∈ symbols)
    (calm : Calm rest) (scans : Scans rest kinds) : Scans (text.toList ++ rest) (kind :: kinds) := by
  have signs : ∀ entry ∈ symbols, entry.1.toList.head?.any fun c =>
      !isBlank c && c != '\x22' && !Text.isDigit c && !isWordStart c &&
        (c != '/' || entry.1.toList.tail.isEmpty) := by
    decide
  have found := symbol?_eq listed calm
  have sign := signs _ listed
  cases spelled : text.toList with
  | nil => simp [spelled] at sign
  | cons c more =>
    simp only [spelled, List.head?_cons, Option.any_some, List.tail_cons, Bool.and_eq_true,
      Bool.not_eq_true', bne_iff_ne, Bool.or_eq_true, List.isEmpty_iff] at sign
    rcases sign with ⟨⟨⟨⟨inside, notQuote⟩, notDigit⟩, notWord⟩, slash⟩
    rw [spelled, List.cons_append] at found
    have first : Lexeme.first? (c :: (more ++ rest)) = some ⟨kind, c :: more, rest⟩ := by
      rw [Lexeme.first?, if_neg notQuote, if_neg (by simp [notDigit]), if_neg (by simp [notWord]),
        found]
    refine Scans.front inside (fun same => ?_) first rfl scans
    rcases slash with other | alone
    · exact absurd same other
    · rw [alone]
      exact calm

end
end Lox.Token
