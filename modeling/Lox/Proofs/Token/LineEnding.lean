import Lox.Proofs.Diagnostic.Scan
import Lox.Proofs.Text.Unpaired

/-!
A text with other line endings, a line feed in place of each carriage return and line feed, is
scanned as the same tokens on the same lines, or it fails at the same place: `scan_unpaired`. A
return in front of a feed is a blank between lexemes, it ends no comment, and within a lexeme it
stands in strings only, which is why strings are the only tokens that differ.
-/
namespace Lox

namespace Token

open Text

def Kind.unpaired : Kind → Kind
  | string text => string (String.ofList (Text.unpaired text.toList))
  | kind => kind

def unpaired (token : Token) : Token :=
  match token.kind with
  | .string _ =>
    ⟨token.kind.unpaired, String.ofList (Text.unpaired token.lexeme.toList), token.line⟩
  | _ => token

namespace Lexeme

def unpaired (lexeme : Lexeme) : Lexeme :=
  ⟨lexeme.kind.unpaired, Text.unpaired lexeme.spelling, Text.unpaired lexeme.rest⟩

theorem string?_unpaired (rest : List Char) :
    string? (Text.unpaired rest) = (string? rest).map unpaired := by
  obtain ⟨before, behind⟩ := @split_unpaired (· != '\x22') rfl rest
  rw [string?, string?, before, behind]
  cases closed : rest.dropWhile (· != '\x22') with
  | nil => rfl
  | cons quote after =>
    have ends : quote = '\x22' := by
      have first := List.head?_dropWhile_not (· != '\x22') rest
      rw [closed] at first
      simpa using first
    subst ends
    have spelling : Text.unpaired ('\x22' :: (rest.takeWhile (· != '\x22') ++ ['\x22'])) =
        '\x22' :: (Text.unpaired (rest.takeWhile (· != '\x22')) ++ ['\x22']) := by
      rw [unpaired_cons (by decide), unpaired_append _ (by decide)]
      rfl
    rw [unpaired_cons (by decide), Option.map_some, unpaired, Kind.unpaired, spelling,
      String.toList_ofList]

end Lexeme

section
variable {source text : List Char} {kind other : Kind} {lexeme : Lexeme}

theorem Plain.unbroken (plain : Plain text) : ∀ c ∈ text, c ≠ '\r' ∧ c ≠ '\n' := by
  intro c member
  constructor <;> rintro rfl <;> exact absurd (plain _ member).1 (by decide)

theorem Plain.unpaired (plain : Plain text) : Text.unpaired text = text :=
  unpaired_of_lacks (.inl plain.noFeed)

theorem Pattern.kind_unique (pattern : Pattern text kind) (again : Pattern text other) :
    kind = other := by
  obtain ⟨lexeme, found, beats⟩ := pattern.taken (List.prefix_refl text)
  obtain ⟨second, same, alsoBeats⟩ := again.taken (List.prefix_refl text)
  obtain rfl : second = lexeme := Option.some.inj (same.symm.trans found)
  have whole : second.spelling.length ≤ text.length := by
    rw [← (Lexeme.first?_fits found).1, List.length_append]
    omega
  rcases beats with shorter | ⟨-, kind⟩
  · omega
  · rcases alsoBeats with shorter | ⟨-, other⟩
    · omega
    · rw [kind, other]

theorem Pattern.unpaired_kind (pattern : Pattern text kind) (plain : Plain text) :
    kind.unpaired = kind := by
  cases pattern with
  | string => exact absurd rfl (plain '\x22' List.mem_cons_self).2
  | whole | fraction | identifier => rfl
  | keyword listed =>
    have all : ∀ entry ∈ keywords, entry.2.unpaired = entry.2 := by decide
    exact all _ listed
  | symbol listed =>
    have all : ∀ entry ∈ symbols, entry.2.unpaired = entry.2 := by decide
    exact all _ listed

theorem Pattern.unpaired_token (pattern : Pattern text kind) (line : Int) :
    Token.unpaired ⟨kind, String.ofList text, line⟩ =
      ⟨kind.unpaired, String.ofList (Text.unpaired text), line⟩ := by
  rcases pattern.plain_or_string with plain | ⟨inner, unquoted, rfl⟩
  · rw [pattern.unpaired_kind plain, plain.unpaired, Token.unpaired]
    split
    · next same =>
      dsimp only at same ⊢
      rw [String.toList_ofList, plain.unpaired, pattern.unpaired_kind plain]
    · rfl
  · obtain rfl := pattern.kind_unique (.string unquoted)
    rw [Token.unpaired, String.toList_ofList]

theorem plain_of_first? (unquoted : ¬ ['\x22'] <+: source)
    (found : Lexeme.first? source = some lexeme) : Plain lexeme.spelling := by
  obtain ⟨fits, -⟩ := Lexeme.first?_fits found
  rcases (first?_pattern found).plain_or_string with plain | ⟨inner, -, spelled⟩
  · exact plain
  · rw [spelled] at fits
    exact absurd ⟨_, fits⟩ unquoted

/-- The lexeme at the front of the text without pairs. Of lexemes other than strings the same ones stand
at the front of both texts, so the longest of them is the same. -/
theorem first?_unpaired (source : List Char) :
    Lexeme.first? (Text.unpaired source) = (Lexeme.first? source).map Lexeme.unpaired := by
  by_cases quoted : ['\x22'] <+: source
  · obtain ⟨rest, rfl⟩ := quoted
    rw [List.singleton_append, unpaired_cons (by decide), first?_quote, first?_quote,
      Lexeme.string?_unpaired]
  · have unquoted : ¬ ['\x22'] <+: Text.unpaired source := by
      rwa [prefix_unpaired (by simp)]
    cases found : Lexeme.first? source with
    | none =>
      cases also : Lexeme.first? (Text.unpaired source) with
      | none => rfl
      | some other =>
        have plain := plain_of_first? unquoted also
        have front := (prefix_unpaired plain.unbroken).mp ⟨_, (Lexeme.first?_fits also).1⟩
        obtain ⟨lexeme, again, -⟩ := (first?_pattern also).taken front
        rw [found] at again
        cases again
    | some lexeme =>
      -- both texts start with either lexeme, and each lexeme is the longest in its text
      have plain := plain_of_first? quoted found
      have pattern := first?_pattern found
      have fits := (Lexeme.first?_fits found).1
      obtain ⟨other, also, beats⟩ :=
        pattern.taken ((prefix_unpaired plain.unbroken).mpr ⟨_, fits⟩)
      have alsoPlain := plain_of_first? unquoted also
      have front := (prefix_unpaired alsoPlain.unbroken).mp ⟨_, (Lexeme.first?_fits also).1⟩
      obtain ⟨again, same, beaten⟩ := (first?_pattern also).taken front
      obtain rfl : again = lexeme := Option.some.inj (same.symm.trans found)
      have equal : again.spelling = other.spelling ∧ again.kind = other.kind := by
        rcases beats with longer | equal
        · rcases beaten with shorter | ⟨spelling, kind⟩
          · omega
          · exact ⟨spelling.symm, kind.symm⟩
        · exact equal
      have split : again.spelling ++ Text.unpaired again.rest = Text.unpaired source := by
        have lacks : '\r' ∉ again.spelling := fun member => (plain.unbroken _ member).1 rfl
        rw [← fits, unpaired_append_left lacks]
      have rest : other.rest = Text.unpaired again.rest := by
        rw [← (Lexeme.first?_fits also).1, equal.1] at split
        exact (List.append_cancel_left split).symm
      rw [also, Option.map_some, Lexeme.unpaired, plain.unpaired, pattern.unpaired_kind plain, equal.1,
        equal.2, ← rest]

theorem unpaired_comment {comment rest : List Char} (inside : '\n' ∉ comment) :
    ∃ less, '\n' ∉ less ∧
      Text.unpaired (comment ++ '\n' :: rest) = less ++ '\n' :: Text.unpaired rest := by
  induction comment with
  | nil => exact ⟨[], List.not_mem_nil, unpaired_cons (by decide)⟩
  | cons c more ih =>
    obtain ⟨less, without, same⟩ := ih fun member => inside (List.mem_cons_of_mem c member)
    by_cases pair : c = '\r' ∧ more = []
    · obtain ⟨rfl, rfl⟩ := pair
      exact ⟨[], List.not_mem_nil, rfl⟩
    · have single : ∀ others, c = '\r' → more ++ '\n' :: rest = '\n' :: others → False := by
        intro others isReturn feed
        cases more with
        | nil => exact pair ⟨isReturn, rfl⟩
        | cons first behind =>
          obtain rfl : first = '\n' := (List.cons.inj feed).1
          exact inside (by simp)
      have other : '\n' ≠ c := fun same => inside (same ▸ List.mem_cons_self)
      refine ⟨c :: less, by simp [other, without], ?_⟩
      rw [List.cons_append, Text.unpaired.eq_3 c _ single, same, List.cons_append]

theorem Gap.unpaired {final : Bool} (between : Gap final text) : Gap final (Text.unpaired text) := by
  induction between with
  | nil => exact .nil
  | @blank _ c rest listed between ih =>
    by_cases pair : c = '\r' ∧ rest.head? = some '\n'
    · -- The feed alone makes the same gap as the return and the feed.
      obtain ⟨rfl, feed⟩ := pair
      obtain ⟨others, rfl⟩ := List.head?_eq_some_iff.mp feed
      rwa [unpaired_cons (by decide)] at ih
    · rw [Text.unpaired.eq_3 c rest fun others same feed => pair ⟨same, by rw [feed]; rfl⟩]
      exact .blank listed ih
  | comment inside _ ih =>
    obtain ⟨less, without, same⟩ := unpaired_comment inside
    rw [unpaired_cons (by decide), unpaired_cons (by decide), same]
    exact .comment without ih
  | lastComment inside =>
    rw [unpaired_of_lacks (.inl (by simpa using inside))]
    exact .lastComment inside

theorem Bare.unpaired (bare : Bare text) : Bare (Text.unpaired text) := by
  refine ⟨?_, ?_⟩
  · cases text with
    | nil => exact bare.1
    | cons c rest =>
      have inside : isBlank c = false := bare.1 c rfl
      have other : c ≠ '\r' := by
        rintro rfl
        exact absurd inside (by decide)
      rw [unpaired_cons other]
      intro first same
      obtain rfl := Option.some.inj same
      exact inside
  · rw [prefix_unpaired (by simp)]
    exact bare.2

theorem Bare.gap (bare : Bare text) : Token.gap text = [] ∧ afterGap text = text := by
  rw [Token.gap, afterGap, splitGap_bare bare]
  exact ⟨rfl, rfl⟩

theorem splitGap_unpaired (source : List Char) :
    splitGap false (Text.unpaired source) =
      (Text.unpaired (gap source), Text.unpaired (afterGap source)) := by
  have between : Gap (afterGap source).isEmpty (gap source) := splitGap_gap false source
  have bare : Bare (afterGap source) := splitGap_rest false source
  have apart : '\n' ∉ (afterGap source).head? := fun feed => absurd (bare.1 _ feed) (by decide)
  have ends : (afterGap source).isEmpty = true → Text.unpaired (afterGap source) = [] := by
    intro ended
    rw [List.isEmpty_iff.mp ended]
    rfl
  have split := between.unpaired.goesOn ends
  rwa [← unpaired_append _ apart, gap_append_afterGap, bare.unpaired.gap.1, bare.unpaired.gap.2,
    List.append_nil] at split

theorem scanFrom_unpaired (line : Nat) (source : List Char) :
    scanFrom line (Text.unpaired source) =
      match scanFrom line source with
      | .ok tokens => .ok (tokens.map Token.unpaired)
      | .error rest => .error (Text.unpaired rest) := by
  induction length : source.length using Nat.strongRecOn generalizing line source with
  | ind size ih =>
    rw [scanFrom_eq, scanFrom_eq line source, gap, afterGap, splitGap_unpaired]
    dsimp only
    rw [first?_unpaired, count_unpaired]
    cases found : Lexeme.first? (afterGap source) with
    | none =>
      simp only [Option.map_none, isEmpty_unpaired]
      cases (afterGap source).isEmpty <;> rfl
    | some lexeme =>
      have shorter := rest_lt_source found
      have token := (first?_pattern found).unpaired_token
      simp only [Option.map_some, Lexeme.unpaired, count_unpaired]
      rw [ih lexeme.rest.length (by omega) _ _ rfl]
      cases scanFrom (line + (gap source).count '\n' + lexeme.spelling.count '\n') lexeme.rest with
      | ok tokens =>
        simp only [Except.map, List.map_cons, token]
      | error rest => rfl

open ScanError in
/-- Whether a text is scanned does not depend on whether its lines end in feeds alone or in returns
and feeds. The tokens are the same, on the same lines, but for the texts of strings, in which the
ends of lines are those of the source. Where the scan fails, it fails with the same message at the
same character, on the same line and in the same column. -/
theorem scan_unpaired (source : List Char) :
    ((∃ tokens, scan source = .ok tokens) ↔ ∃ tokens, scan (Text.unpaired source) = .ok tokens) ∧
    (∀ tokens, scan source = .ok tokens →
      scan (Text.unpaired source) = .ok (tokens.map Token.unpaired)) ∧
    ∀ error, scan source = .error error → ∃ again, scan (Text.unpaired source) = .error again ∧
      again.message = error.message ∧ again.line = error.line ∧ again.column = error.column ∧
      again.got = error.got := by
  have whole := scanFrom_unpaired 1 source
  cases scanned : scanFrom 1 source with
  | ok tokens =>
    rw [scanned] at whole
    have first : scan source = .ok tokens := by rw [scan, scanned]; rfl
    have second : scan (Text.unpaired source) = .ok (tokens.map Token.unpaired) := by
      rw [scan, whole]
      rfl
    rw [first, second]
    refine ⟨?_, ?_, ?_⟩
    · exact ⟨fun _ => ⟨_, rfl⟩, fun _ => ⟨_, rfl⟩⟩
    · rintro _ ⟨⟩
      rfl
    · intro _ failed
      cases failed
  | error rest =>
    obtain ⟨before, c, after, rfl, rfl, -⟩ := scanFrom_error scanned
    have bare := bare_of_scanFrom_error scanned
    have inside : isBlank c = false := bare.1 c rfl
    have single : c ≠ '\r' := by
      rintro rfl
      exact absurd inside (by decide)
    have apart : '\n' ∉ (c :: after).head? := by
      intro feed
      obtain rfl := Option.some.inj feed
      exact absurd inside (by decide)
    rw [scanned] at whole
    dsimp only at whole
    rw [unpaired_append before apart, unpaired_cons single] at whole
    have first := scan_behind scanned
    have second := scan_behind whole
    rw [unpaired_append before apart, unpaired_cons single, first, second]
    refine ⟨?_, ?_, ?_⟩
    · constructor <;> rintro ⟨_, ok⟩ <;> cases ok
    · intro _ ok
      cases ok
    · rintro _ ⟨⟩
      refine ⟨_, rfl, ?_, ?_, ?_, ?_⟩
      · rw [behind_message, behind_message]
      · rw [behind_line, behind_line, count_unpaired]
      · rw [behind_column, behind_column, lineOffset_unpaired]
      · rw [behind_got, behind_got]

end
end Token
end Lox
