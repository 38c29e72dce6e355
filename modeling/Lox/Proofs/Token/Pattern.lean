import Lox.Proofs.Token.Scanning

namespace Lox.Token

/-- The texts that are lexemes, with the kind of token that each of them makes. A word makes the
kind of a keyword if it is one as a whole, and otherwise a name. -/
inductive Pattern : List Char → Kind → Prop where
  | string {text : List Char} :
    '\x22' ∉ text → Pattern ('\x22' :: (text ++ ['\x22'])) (.string (String.ofList text))
  | whole {digits : List Char} :
    digits ≠ [] → (∀ c ∈ digits, Text.isDigit c = true) →
    Pattern digits (.number (Decimal.toNumber ⟨Text.digitsValue digits, 0⟩))
  | fraction {whole fraction : List Char} :
    whole ≠ [] → fraction ≠ [] → (∀ c ∈ whole ++ fraction, Text.isDigit c = true) →
    Pattern (whole ++ '.' :: fraction)
      (.number (Decimal.toNumber ⟨Text.digitsValue (whole ++ fraction), fraction.length⟩))
  | keyword {name : String} {kind : Kind} : (name, kind) ∈ keywords → Pattern name.toList kind
  | identifier {name : String} :
    isWord name = true → (∀ kind, (name, kind) ∉ keywords) → Pattern name.toList (.identifier name)
  | symbol {text : String} {kind : Kind} : (text, kind) ∈ symbols → Pattern text.toList kind

section
variable {source text : List Char} {kind : Kind} {lexeme : Lexeme}

theorem isWordPart_of_isWord {name : String} (word : isWord name = true) :
    ∀ c ∈ name.toList, isWordPart c = true :=
  List.all_eq_true.mp (Bool.and_eq_true_iff.mp word).2

theorem cons_of_isWord {name : String} (word : isWord name = true) :
    ∃ c rest, name.toList = c :: rest ∧ isWordStart c = true := by
  have started := (Bool.and_eq_true_iff.mp word).1
  cases spelled : name.toList with
  | nil => simp [spelled] at started
  | cons c rest =>
    rw [spelled] at started
    exact ⟨c, rest, rfl, started⟩

theorem not_blank {c : Char} (inside : c ∉ reserved) : isBlank c = false := by
  simp only [reserved, List.mem_cons, not_or] at inside
  simp [isBlank, inside]

def Plain (text : List Char) : Prop := ∀ c ∈ text, isBlank c = false ∧ c ≠ '\x22'

theorem Plain.noFeed (plain : Plain text) : '\n' ∉ text :=
  fun member => Bool.noConfusion (plain '\n' member).1

theorem plain_of_property {property : Char → Bool} (holds : ∀ c ∈ text, property c = true)
    (lacks : reserved.any property = false) : Plain text := by
  intro c member
  have inside := not_reserved (holds c member) lacks
  refine ⟨not_blank inside, ?_⟩
  rintro rfl
  exact inside (by decide)

theorem Pattern.plain_or_string (pattern : Pattern text kind) :
    Plain text ∨ ∃ inner, '\x22' ∉ inner ∧ text = '\x22' :: (inner ++ ['\x22']) := by
  have digits (all : ∀ c ∈ text, Text.isDigit c = true) := plain_of_property all (by decide)
  have parts {name : String} (word : isWord name = true) :=
    plain_of_property (isWordPart_of_isWord word) (by decide)
  cases pattern with
  | string unquoted => exact .inr ⟨_, unquoted, rfl⟩
  | whole _ all => exact .inl (digits all)
  | fraction _ _ all =>
    left
    have plain := plain_of_property all (by decide)
    have point : isBlank '.' = false ∧ '.' ≠ '\x22' := by decide
    intro c member
    rcases List.mem_append.mp member with before | behind
    · exact plain c (List.mem_append_left _ before)
    · rcases List.mem_cons.mp behind with rfl | after
      · exact point
      · exact plain c (List.mem_append_right _ after)
  | keyword listed => exact .inl (parts (lookup_keyword listed).1)
  | identifier word _ => exact .inl (parts word)
  | @symbol name _ listed =>
    have all : symbols.all fun entry =>
        entry.1.toList.all fun c => !isBlank c && c != '\x22' := by decide
    have plain := List.all_eq_true.mp (List.all_eq_true.mp all _ listed)
    exact .inl fun c member => by simpa using plain c member

theorem Pattern.starts (pattern : Pattern text kind) :
    ∃ c rest, text = c :: rest ∧ isBlank c = false := by
  cases pattern with
  | string => exact ⟨_, _, rfl, rfl⟩
  | whole started digits =>
    rcases List.exists_cons_of_ne_nil started with ⟨c, rest, rfl⟩
    exact ⟨c, rest, rfl, not_blank (isDigit_not_reserved (digits c List.mem_cons_self))⟩
  | fraction started _ digits =>
    rcases List.exists_cons_of_ne_nil started with ⟨c, rest, rfl⟩
    exact ⟨c, _, rfl, not_blank (isDigit_not_reserved (digits c List.mem_cons_self))⟩
  | keyword listed =>
    rcases cons_of_isWord (lookup_keyword listed).1 with ⟨c, rest, spelled, start⟩
    exact ⟨c, rest, spelled, not_blank (isWordStart_not_reserved start)⟩
  | identifier word _ =>
    rcases cons_of_isWord word with ⟨c, rest, spelled, start⟩
    exact ⟨c, rest, spelled, not_blank (isWordStart_not_reserved start)⟩
  | @symbol name _ listed =>
    have all : ∀ entry ∈ symbols, entry.1.toList.head?.any fun c => !isBlank c := by decide
    have first := all (name, kind) listed
    cases spelled : name.toList with
    | nil => simp [spelled] at first
    | cons c rest => exact ⟨c, rest, rfl, by simpa [spelled] using first⟩

theorem Pattern.inside (pattern : Pattern text kind) : kind ≠ .endOfInput := by
  cases pattern with
  | string | whole | fraction | identifier => simp
  | @keyword name _ listed =>
    have all : ∀ entry ∈ keywords, entry.2 ≠ .endOfInput := by decide
    exact all (name, kind) listed
  | @symbol name _ listed =>
    have all : ∀ entry ∈ symbols, entry.2 ≠ .endOfInput := by decide
    exact all (name, kind) listed

theorem prefix_takeWhile {property : Char → Bool} (front : text <+: source)
    (holds : ∀ c ∈ text, property c = true) : text <+: source.takeWhile property := by
  rcases front with ⟨rest, rfl⟩
  rw [List.takeWhile_append_of_pos holds]
  exact List.prefix_append text _

theorem shorter_or_eq (front : text <+: source) : text.length < source.length ∨ text = source := by
  rcases Nat.lt_or_ge text.length source.length with shorter | same
  · exact .inl shorter
  · exact .inr (front.eq_of_length_le same)

theorem first?_quote {rest : List Char} :
    Lexeme.first? ('\x22' :: rest) = Lexeme.string? rest := by
  rw [Lexeme.first?, if_pos rfl]

theorem first?_sign {entry : String × Kind} (listed : entry ∈ symbols)
    (front : entry.1.toList <+: source) : Lexeme.first? source = Lexeme.symbol? source := by
  have signs : ∀ entry ∈ symbols, entry.1.toList.head?.any fun c =>
      c != '\x22' && !Text.isDigit c && !isWordStart c := by
    decide
  have sign := signs entry listed
  rcases front with ⟨rest, rfl⟩
  cases spelled : entry.1.toList with
  | nil => simp [spelled] at sign
  | cons c more =>
    simp only [spelled, List.head?_cons, Option.any_some, Bool.and_eq_true, bne_iff_ne,
      Bool.not_eq_true'] at sign
    rw [List.cons_append, Lexeme.first?, if_neg sign.1.1, if_neg (by simp [sign.1.2]),
      if_neg (by simp [sign.2])]

theorem first?_word {name : String} (word : isWord name = true) (front : name.toList <+: source) :
    Lexeme.first? source = some (Lexeme.word source) := by
  rcases front with ⟨rest, rfl⟩
  rcases cons_of_isWord word with ⟨c, more, spelled, start⟩
  rw [spelled]
  exact first?_wordStart start

theorem lookup_other {name : String} (unlisted : ∀ kind, (name, kind) ∉ keywords) :
    keywords.lookup name = none := by
  cases found : keywords.lookup name with
  | none => rfl
  | some kind =>
    rcases List.lookup_eq_some_iff.mp found with ⟨before, after, split, -⟩
    exact absurd (by rw [split]; simp) (unlisted kind)

theorem string?_pattern {rest : List Char} (found : Lexeme.string? rest = some lexeme) :
    Pattern lexeme.spelling lexeme.kind := by
  unfold Lexeme.string? at found
  split at found
  · cases found
  · next quote after closed =>
    cases found
    have ends : quote = '\x22' := by
      have first := List.head?_dropWhile_not (· != '\x22') rest
      rw [closed] at first
      simpa using first
    subst ends
    apply Pattern.string
    intro member
    have other := List.mem_takeWhile_imp member
    simp at other

theorem number_pattern {c : Char} {rest : List Char} (digit : Text.isDigit c = true) :
    Pattern (Lexeme.number (c :: rest)).spelling (Lexeme.number (c :: rest)).kind := by
  have started : (c :: rest).takeWhile Text.isDigit ≠ [] := by simp [digit]
  unfold Lexeme.number
  extract_lets whole tail fraction
  split
  · next more =>
    apply Pattern.fraction started more.2
    intro d member
    rcases List.mem_append.mp member with before | behind
    · exact List.mem_takeWhile_imp before
    · exact List.mem_takeWhile_imp behind
  · exact Pattern.whole started fun d member => List.mem_takeWhile_imp member

theorem word_pattern {c : Char} {rest : List Char} (start : isWordStart c = true) :
    Pattern (Lexeme.word (c :: rest)).spelling (Lexeme.word (c :: rest)).kind := by
  simp only [Lexeme.word]
  have parts : ∀ d ∈ (c :: rest).takeWhile isWordPart, isWordPart d = true :=
    fun d member => List.mem_takeWhile_imp member
  have first : ((c :: rest).takeWhile isWordPart).head? = some c := by
    rw [List.takeWhile_cons_of_pos (by simp [isWordPart, start]), List.head?_cons]
  generalize (c :: rest).takeWhile isWordPart = spelling at parts first
  rw [← String.toList_ofList (l := spelling)] at parts first ⊢
  generalize String.ofList spelling = name at parts first ⊢
  rw [String.ofList_toList]
  cases found : keywords.lookup name with
  | some kind =>
    rcases List.lookup_eq_some_iff.mp found with ⟨before, after, split, -⟩
    exact Pattern.keyword (by rw [split]; simp)
  | none =>
    apply Pattern.identifier
    · simp [isWord, first, start, List.all_eq_true.mpr parts]
    · intro kind listed
      rw [(lookup_keyword listed).2] at found
      cases found

theorem symbol?_pattern (found : Lexeme.symbol? source = some lexeme) :
    Pattern lexeme.spelling lexeme.kind := by
  rcases Option.map_eq_some_iff.mp found with ⟨entry, taken, rfl⟩
  exact Pattern.symbol (List.mem_of_find?_eq_some taken)

theorem first?_pattern (found : Lexeme.first? source = some lexeme) :
    Pattern lexeme.spelling lexeme.kind := by
  cases source with
  | nil => cases found
  | cons c rest =>
    rw [Lexeme.first?] at found
    split at found
    · exact string?_pattern found
    · split at found
      · next digit =>
        cases found
        exact number_pattern digit
      · split at found
        · next start =>
          cases found
          exact word_pattern start
        · exact symbol?_pattern found

def Lexeme.Beats (lexeme : Lexeme) (text : List Char) (kind : Kind) : Prop :=
  text.length < lexeme.spelling.length ∨ text = lexeme.spelling ∧ kind = lexeme.kind

theorem whole_beaten (digits : ∀ c ∈ text, Text.isDigit c = true) (front : text <+: source) :
    (Lexeme.number source).Beats text
      (.number (Decimal.toNumber ⟨Text.digitsValue text, 0⟩)) := by
  have within := prefix_takeWhile front digits
  unfold Lexeme.number
  extract_lets whole rest fraction
  split
  · left
    have bound := within.length_le
    simp only [List.length_append, List.length_cons, whole]
    omega
  · rcases shorter_or_eq within with shorter | same
    · exact .inl shorter
    · exact .inr ⟨same, by simp only [same, whole]⟩

theorem fraction_beaten {whole fraction : List Char} (more : fraction ≠ [])
    (digits : ∀ c ∈ whole ++ fraction, Text.isDigit c = true)
    (front : whole ++ '.' :: fraction <+: source) :
    (Lexeme.number source).Beats (whole ++ '.' :: fraction)
      (.number (Decimal.toNumber ⟨Text.digitsValue (whole ++ fraction), fraction.length⟩)) := by
  rcases front with ⟨rest, rfl⟩
  have point : Text.isDigit '.' = false := by decide
  have first := @Text.split_at_end ('.' :: (fraction ++ rest)) Text.isDigit whole
    (fun d member => digits d (List.mem_append_left _ member)) (by simp [point])
  have second : (fraction ++ rest).takeWhile Text.isDigit =
      fraction ++ rest.takeWhile Text.isDigit :=
    List.takeWhile_append_of_pos fun d member => digits d (List.mem_append_right whole member)
  have spelled : Lexeme.number (whole ++ '.' :: fraction ++ rest) =
      ⟨.number (Decimal.toNumber ⟨Text.digitsValue (whole ++ (fraction ++ rest.takeWhile Text.isDigit)),
          (fraction ++ rest.takeWhile Text.isDigit).length⟩),
        whole ++ '.' :: (fraction ++ rest.takeWhile Text.isDigit),
        (fraction ++ rest).dropWhile Text.isDigit⟩ := by
    rw [List.append_assoc, List.cons_append]
    simp only [Lexeme.number, first, List.head?_cons, List.drop_succ_cons, List.drop_zero, second]
    rw [if_pos ⟨trivial, by simp [more]⟩]
  rw [spelled, Lexeme.Beats]
  cases later : rest.takeWhile Text.isDigit with
  | nil => exact .inr (by simp)
  | cons d others =>
    left
    simp only [List.length_append, List.length_cons]
    omega

theorem word_beaten {name : String} (word : isWord name = true)
    (named : (keywords.lookup name).getD (.identifier name) = kind) (front : name.toList <+: source) :
    (Lexeme.word source).Beats name.toList kind := by
  rcases shorter_or_eq (prefix_takeWhile front (isWordPart_of_isWord word)) with shorter | same
  · exact .inl shorter
  · refine .inr ⟨same, ?_⟩
    rw [Lexeme.word, ← same, String.ofList_toList, named]

/-- Of two signs that a text starts with, the list has the longer one first. -/
theorem symbol_taken {name : String} (listed : (name, kind) ∈ symbols)
    (front : name.toList <+: source) :
    ∃ lexeme, Lexeme.symbol? source = some lexeme ∧ lexeme.Beats name.toList kind := by
  have sorted : symbols.Pairwise fun first second =>
      second.1.toList.length < first.1.toList.length ∨
        second.1.toList.length = first.1.toList.length ∧ first.1.toList ≠ second.1.toList := by
    decide
  have starts := List.isPrefixOf_iff_prefix.mpr front
  have present : (symbols.find? fun entry => entry.1.toList.isPrefixOf source).isSome = true :=
    List.find?_isSome.mpr ⟨(name, kind), listed, starts⟩
  rcases Option.isSome_iff_exists.mp present with ⟨entry, taken⟩
  refine ⟨_, by rw [Lexeme.symbol?, taken]; rfl, ?_⟩
  rcases List.find?_eq_some_iff_append.mp taken with ⟨begun, before, after, split, passed⟩
  rw [split] at listed sorted
  have later := (List.pairwise_cons.mp (List.pairwise_append.mp sorted).2.1).1
  rcases List.mem_append.mp listed with earlier | member
  · have other := passed (name, kind) earlier
    rw [starts] at other
    cases other
  · rcases List.mem_cons.mp member with rfl | behind
    · exact .inr ⟨rfl, rfl⟩
    · rcases later (name, kind) behind with shorter | ⟨long, differ⟩
      · exact .inl shorter
      · have alike := List.prefix_of_prefix_length_le front (List.isPrefixOf_iff_prefix.mp begun)
          (Nat.le_of_eq long)
        exact absurd (alike.eq_of_length long).symm differ

/-- Where a text matches a pattern a lexeme is taken, and whatever matches a pattern there is
shorter than the lexeme, or it is the same text with the same kind. -/
theorem Pattern.taken (pattern : Pattern text kind) (front : text <+: source) :
    ∃ lexeme, Lexeme.first? source = some lexeme ∧ lexeme.Beats text kind := by
  cases pattern with
  | @string inner unquoted =>
    rcases front with ⟨rest, rfl⟩
    have inside : ∀ c ∈ inner, (c != '\x22') = true := by
      intro c member
      have other : c ≠ '\x22' := fun same => unquoted (same ▸ member)
      simpa using other
    have found : Lexeme.string? (inner ++ '\x22' :: rest) =
        some ⟨.string (String.ofList inner), '\x22' :: (inner ++ ['\x22']), rest⟩ := by
      simp [Lexeme.string?, List.takeWhile_append_of_pos inside,
        List.dropWhile_append_of_pos inside]
    rw [List.cons_append, List.append_assoc, first?_quote]
    exact ⟨_, found, .inr ⟨rfl, rfl⟩⟩
  | whole started digits =>
    cases text with
    | nil => exact absurd rfl started
    | cons c more =>
      rcases front with ⟨rest, rfl⟩
      rw [List.cons_append, first?_digit (digits c List.mem_cons_self)]
      exact ⟨_, rfl, whole_beaten digits (List.prefix_append _ rest)⟩
  | @fraction whole fraction started more digits =>
    cases whole with
    | nil => exact absurd rfl started
    | cons c whole =>
      rcases front with ⟨rest, rfl⟩
      rw [List.cons_append, List.cons_append, first?_digit (digits c List.mem_cons_self)]
      exact ⟨_, rfl, fraction_beaten more digits (List.prefix_append _ rest)⟩
  | keyword listed =>
    rcases lookup_keyword listed with ⟨word, named⟩
    exact ⟨_, first?_word word front, word_beaten word (by rw [named]; rfl) front⟩
  | identifier word unlisted =>
    exact ⟨_, first?_word word front,
      word_beaten word (by rw [lookup_other unlisted]; rfl) front⟩
  | symbol listed =>
    rw [first?_sign listed front]
    exact symbol_taken listed front

end
end Lox.Token
