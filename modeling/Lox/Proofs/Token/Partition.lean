import Lox.Proofs.Token.Pattern
import Lox.Token.ScanError

/-!
A text that is scanned falls into lexemes, each the longest at its place, with blanks and comments
between them: `scan_iff_partition`. A piece is a lexeme with the gap in front of it.
-/
namespace Lox.Token

/-- Blanks and comments. A comment runs up to a line feed; in the final gap of a text, the last one
may run up to the end. -/
inductive Gap : (final : Bool) → List Char → Prop where
  | nil {final : Bool} : Gap final []
  | blank {final : Bool} {c : Char} {rest : List Char} :
    c ∈ [' ', '\t', '\r', '\n'] → Gap final rest → Gap final (c :: rest)
  | comment {final : Bool} {text rest : List Char} :
    '\n' ∉ text → Gap final rest → Gap final ('/' :: '/' :: (text ++ '\n' :: rest))
  | lastComment {text : List Char} : '\n' ∉ text → Gap true ('/' :: '/' :: text)

def Bare (text : List Char) : Prop :=
  (∀ c ∈ text.head?, isBlank c = false) ∧ ¬ ['/', '/'] <+: text

theorem isBlank_iff {c : Char} : isBlank c = true ↔ c ∈ [' ', '\t', '\r', '\n'] := by
  simp [isBlank, or_assoc]

section
variable {source rest text : List Char}

theorem splitGap_lastComment (inside : '\n' ∉ text) : splitGap true text = (text, []) := by
  induction text with
  | nil => rfl
  | cons c text ih =>
    have other : (c != '\n') = true := by
      have different : c ≠ '\n' := fun same => inside (same ▸ List.mem_cons_self)
      simpa using different
    simp [splitGap, other, ih fun member => inside (List.mem_cons_of_mem c member)]

theorem splitGap_comment (inside : '\n' ∉ text) :
    splitGap true (text ++ '\n' :: rest) = (text ++ '\n' :: gap rest, afterGap rest) := by
  induction text with
  | nil => rfl
  | cons c text ih =>
    have other : (c != '\n') = true := by
      have different : c ≠ '\n' := fun same => inside (same ▸ List.mem_cons_self)
      simpa using different
    simp [splitGap, other, ih fun member => inside (List.mem_cons_of_mem c member)]

theorem splitGap_bare (bare : Bare text) : splitGap false text = ([], text) := by
  rw [splitGap.eq_def]
  split
  · rfl
  · contradiction
  · next after _ => exact absurd (List.prefix_append ['/', '/'] _) bare.2
  · next c after notComment _ =>
    rw [if_neg (by simp [bare.1 c rfl])]

theorem Gap.goesOn {final : Bool} (between : Gap final source) (ends : final = true → rest = []) :
    splitGap false (source ++ rest) = (source ++ gap rest, afterGap rest) := by
  induction between with
  | nil => rfl
  | blank blank _ ih =>
    rw [List.cons_append, splitGap_blank (isBlank_iff.mpr blank), gap, afterGap, ih ends]
    rfl
  | comment inside _ ih =>
    simp only [List.cons_append, List.append_assoc, splitGap, splitGap_comment inside]
    rw [gap, afterGap, ih ends]
  | lastComment inside =>
    -- a comment without its line feed takes in whatever comes next, so nothing may come
    rw [ends rfl, List.append_nil]
    simp only [splitGap, splitGap_lastComment inside]
    exact congrArg (·, []) (List.append_nil _).symm

theorem Gap.inComment {final : Bool} {c : Char} (other : c ≠ '\n')
    (between : Gap final ('/' :: '/' :: text)) : Gap final ('/' :: '/' :: c :: text) := by
  have apart {inner : List Char} (inside : '\n' ∉ inner) : '\n' ∉ c :: inner := by
    simp [inside, other.symm]
  generalize shape : '/' :: '/' :: text = whole at between
  cases between with
  | nil => cases shape
  | blank blank _ =>
    cases shape
    simp at blank
  | comment inside rest =>
    cases shape
    exact .comment (apart inside) rest
  | lastComment inside =>
    cases shape
    exact .lastComment (apart inside)

theorem splitGap_gap (inComment : Bool) (source : List Char) :
    Gap (splitGap inComment source).2.isEmpty
      (if inComment then '/' :: '/' :: (splitGap inComment source).1
        else (splitGap inComment source).1) := by
  fun_induction splitGap inComment source with
  | case1 inComment =>
    cases inComment with
    | false => exact .nil
    | true => exact .lastComment List.not_mem_nil
  | case2 c rest gap text split ih =>
    by_cases ended : c = '\n'
    · subst ended
      rw [split] at ih
      exact .comment List.not_mem_nil ih
    · have goesOn : (c != '\n') = true := by simpa using ended
      rw [goesOn] at split ih
      rw [split] at ih
      exact ih.inComment ended
  | case3 rest gap text split ih =>
    rw [split] at ih
    exact ih
  | case4 c rest notComment blank gap text split ih =>
    rw [split] at ih
    exact .blank (isBlank_iff.mp blank) ih
  | case5 c rest notComment notBlank => exact .nil

theorem splitGap_rest (inComment : Bool) (source : List Char) :
    Bare (splitGap inComment source).2 := by
  fun_induction splitGap inComment source with
  | case1 => simp [Bare]
  | case2 c rest gap text split ih => rwa [split] at ih
  | case3 rest gap text split ih => rwa [split] at ih
  | case4 c rest notComment blank gap text split ih => rwa [split] at ih
  | case5 c rest notComment notBlank =>
    refine ⟨by simpa using notBlank, fun slashes => ?_⟩
    rcases slashes with ⟨after, same⟩
    cases same
    exact notComment after rfl rfl

end

/-- A lexeme, as the token that it makes, and the gap in front of it. -/
structure Piece where
  gap : List Char
  token : Token

namespace Piece

def lexeme (piece : Piece) : List Char := piece.token.lexeme.toList

def text (piece : Piece) : List Char := piece.gap ++ piece.lexeme

/-- How a piece is cut from between the text before it and the text behind it, the text before
starting on a line. The lexeme matches a pattern with the kind of the token, whatever else matches
one at its place is shorter, no comment starts there, and the line is that of its last character. -/
structure Cut (start : Nat) (before : List Char) (piece : Piece) (behind : List Char) : Prop where
  gap : Gap false piece.gap
  pattern : Pattern piece.lexeme piece.token.kind
  longest : ∀ other kind, Pattern other kind → other <+: piece.lexeme ++ behind →
    other.length < piece.lexeme.length ∨ other = piece.lexeme ∧ kind = piece.token.kind
  uncommented : ¬ ['/', '/'] <+: piece.lexeme ++ behind
  line : piece.token.line =
    (start + (before ++ piece.gap ++ piece.lexeme.dropLast).count '\n' : Nat)

end Piece

/-- A text that starts on a line is made of pieces and a last gap, and its tokens are those of the
pieces and the end, which is on the last line. -/
structure Partition (start : Nat) (source : List Char) (pieces : List Piece) (last : List Char)
    (tokens : List Token) : Prop where
  covers : source = pieces.flatMap Piece.text ++ last
  spells : tokens = pieces.map Piece.token ++ [endOfInput (start + source.count '\n' : Nat)]
  ends : Gap true last
  cut : ∀ before piece after, pieces = before ++ piece :: after →
    piece.Cut start (before.flatMap Piece.text) (after.flatMap Piece.text ++ last)

section
variable {start : Nat} {source behind last : List Char} {piece : Piece} {pieces : List Piece}
  {tokens : List Token}

theorem Pattern.count_dropLast {text : List Char} {kind : Kind} (pattern : Pattern text kind) :
    text.dropLast.count '\n' = text.count '\n' := by
  rcases pattern.plain_or_string with plain | ⟨inner, -, rfl⟩
  · rw [List.count_eq_zero.mpr plain.noFeed]
    exact List.count_eq_zero.mpr fun member => plain.noFeed ((List.dropLast_sublist text).mem member)
  · rw [← List.cons_append, List.dropLast_concat, List.count_append]
    rfl

theorem Piece.Cut.shift {before : List Char} (front : List Char) :
    piece.Cut (start + front.count '\n') before behind ↔
      piece.Cut start (front ++ before) behind := by
  have lines : start + front.count '\n' + (before ++ piece.gap ++ piece.lexeme.dropLast).count '\n' =
      start + (front ++ before ++ piece.gap ++ piece.lexeme.dropLast).count '\n' := by
    simp only [List.count_append]
    omega
  constructor
  · intro cut
    exact { cut with line := by rw [cut.line, lines] }
  · intro cut
    exact { cut with line := by rw [cut.line, lines] }

theorem Partition.cons_iff : Partition start source (piece :: pieces) last tokens ↔
    ∃ rest later, source = piece.text ++ rest ∧ tokens = piece.token :: later ∧
      piece.Cut start [] rest ∧
      Partition (start + piece.text.count '\n') rest pieces last later := by
  constructor
  · intro parts
    rcases parts with ⟨rfl, rfl, ends, cut⟩
    refine ⟨pieces.flatMap Piece.text ++ last, _, ?_, rfl, cut [] piece pieces rfl, rfl, ?_, ends, ?_⟩
    · rw [List.flatMap_cons, List.append_assoc]
    · rw [List.flatMap_cons, List.append_assoc, List.count_append, Nat.add_assoc]
      rfl
    · intro before other after split
      rw [Piece.Cut.shift, ← List.flatMap_cons]
      exact cut (piece :: before) other after (by rw [split]; rfl)
  · intro parts
    rcases parts with ⟨rest, later, rfl, rfl, first, rfl, rfl, ends, cut⟩
    refine ⟨?_, ?_, ends, ?_⟩
    · rw [List.flatMap_cons, List.append_assoc]
    · rw [@List.count_append _ _ _ piece.text, ← Nat.add_assoc]
      rfl
    · intro before other after split
      cases before with
      | nil =>
        cases split
        exact first
      | cons front before =>
        cases split
        have later := cut before other after rfl
        rwa [Piece.Cut.shift, ← List.flatMap_cons] at later

theorem Partition.nil_iff : Partition start source [] last tokens ↔
    source = last ∧ Gap true last ∧
      tokens = [endOfInput (start + source.count '\n' : Nat)] := by
  constructor
  · intro parts
    exact ⟨parts.covers, parts.ends, parts.spells⟩
  · intro parts
    rcases parts with ⟨covers, ends, spells⟩
    exact ⟨covers, spells, ends, fun before piece after split => by simp at split⟩

theorem Piece.Cut.front (cut : piece.Cut start [] behind) :
    Token.gap (piece.text ++ behind) = piece.gap ∧
      afterGap (piece.text ++ behind) = piece.lexeme ++ behind ∧
      ∃ lexeme, Lexeme.first? (piece.lexeme ++ behind) = some lexeme ∧
        lexeme.spelling = piece.lexeme ∧ lexeme.kind = piece.token.kind ∧ lexeme.rest = behind := by
  have bare : Bare (piece.lexeme ++ behind) := by
    refine ⟨?_, cut.uncommented⟩
    rcases cut.pattern.starts with ⟨c, rest, spelled, inside⟩
    simp [spelled, inside]
  have split := splitGap_bare bare
  rcases cut.pattern.taken (List.prefix_append piece.lexeme behind) with ⟨lexeme, found, beats⟩
  rcases Lexeme.first?_fits found with ⟨fits, -⟩
  have same : lexeme.spelling = piece.lexeme ∧ lexeme.kind = piece.token.kind := by
    have front : lexeme.spelling <+: piece.lexeme ++ behind := ⟨lexeme.rest, fits⟩
    rcases cut.longest _ _ (first?_pattern found) front with shorter | same
    · rcases beats with longer | other
      · omega
      · exact ⟨other.1.symm, other.2.symm⟩
    · exact same
  rw [same.1] at fits
  rw [Piece.text, List.append_assoc, Token.gap, afterGap, cut.gap.goesOn (by simp), Token.gap,
    afterGap, split, List.append_nil]
  exact ⟨rfl, rfl, lexeme, found, same.1, same.2, List.append_cancel_left fits⟩

theorem cut_of_first? {lexeme : Lexeme} (found : Lexeme.first? (afterGap source) = some lexeme) :
    Piece.Cut start [] ⟨gap source, ⟨lexeme.kind, String.ofList lexeme.spelling,
      (start + (gap source).count '\n' + lexeme.spelling.count '\n' : Nat)⟩⟩ lexeme.rest := by
  have pattern := first?_pattern found
  rcases Lexeme.first?_fits found with ⟨fits, spelled⟩
  have between : Gap (afterGap source).isEmpty (gap source) := splitGap_gap false source
  have bare : Bare (afterGap source) := splitGap_rest false source
  have more : (afterGap source).isEmpty = false := by
    rw [← fits]
    simp [spelled]
  rw [more] at between
  rw [← fits] at bare
  have lexeme_eq : Piece.lexeme ⟨gap source, ⟨lexeme.kind, String.ofList lexeme.spelling,
      (start + (gap source).count '\n' + lexeme.spelling.count '\n' : Nat)⟩⟩ = lexeme.spelling :=
    String.toList_ofList
  constructor
  · exact between
  · rwa [lexeme_eq]
  · intro other kind matching front
    rw [lexeme_eq] at front ⊢
    rw [fits] at front
    rcases matching.taken front with ⟨taken, again, beats⟩
    rw [found] at again
    cases again
    exact beats
  · rw [lexeme_eq]
    exact bare.2
  · rw [lexeme_eq, List.nil_append, List.count_append, pattern.count_dropLast, Nat.add_assoc]

theorem Piece.Cut.scanFrom_eq (cut : piece.Cut start [] behind) :
    scanFrom start (piece.text ++ behind) =
      (scanFrom (start + piece.text.count '\n') behind).map (piece.token :: ·) := by
  rcases cut.front with ⟨between, after, lexeme, found, spelling, kind, rest⟩
  have token : (⟨lexeme.kind, String.ofList lexeme.spelling,
      (start + piece.gap.count '\n' + lexeme.spelling.count '\n' : Nat)⟩ : Token) =
        piece.token := by
    have line := cut.line
    rw [List.nil_append, List.count_append, cut.pattern.count_dropLast, ← Nat.add_assoc] at line
    rw [spelling, kind, ← line, Piece.lexeme, String.ofList_toList]
  rw [Token.scanFrom_eq, between, after, found]
  simp only [token]
  rw [spelling, rest, Piece.text, List.count_append, ← Nat.add_assoc]

theorem exists_piece {lexeme : Lexeme} (found : Lexeme.first? (afterGap source) = some lexeme)
    (start : Nat) : ∃ piece behind, source = Piece.text piece ++ behind ∧
      behind.length < source.length ∧ piece.Cut start [] behind := by
  refine ⟨_, lexeme.rest, ?_, rest_lt_source found, cut_of_first? found⟩
  rw [Piece.text, Piece.lexeme, String.toList_ofList, List.append_assoc,
    (Lexeme.first?_fits found).1, gap_append_afterGap]

theorem partition_of_scanFrom (scanned : scanFrom start source = .ok tokens) :
    ∃ pieces last, Partition start source pieces last tokens := by
  induction length : source.length using Nat.strongRecOn generalizing start source tokens with
  | ind size ih =>
    cases found : Lexeme.first? (afterGap source) with
    | none =>
      have split := gap_append_afterGap source
      rw [scanFrom_eq, found] at scanned
      by_cases ended : (afterGap source).isEmpty = true
      · simp only [if_pos ended, Except.ok.injEq] at scanned
        have between : Gap (afterGap source).isEmpty (gap source) := splitGap_gap false source
        rw [List.isEmpty_iff.mp ended, List.append_nil] at split
        rw [ended, split] at between
        exact ⟨[], source, Partition.nil_iff.mpr ⟨rfl, between, by rw [← scanned, split]⟩⟩
      · simp [ended] at scanned
    | some lexeme =>
      rcases exists_piece found start with ⟨piece, behind, rfl, shorter, cut⟩
      rw [cut.scanFrom_eq] at scanned
      cases later : scanFrom (start + piece.text.count '\n') behind with
      | error rest => simp [later, Except.map] at scanned
      | ok others =>
        simp only [later, Except.map, Except.ok.injEq] at scanned
        rcases ih behind.length (by omega) later rfl with ⟨pieces, last, parts⟩
        exact ⟨piece :: pieces, last,
          Partition.cons_iff.mpr ⟨behind, others, rfl, scanned.symm, cut, parts⟩⟩

theorem Partition.scanned (parts : Partition start source pieces last tokens) :
    scanFrom start source = .ok tokens := by
  induction pieces generalizing start source tokens with
  | nil =>
    rcases Partition.nil_iff.mp parts with ⟨rfl, ends, rfl⟩
    have split : splitGap false (source ++ []) = (source ++ [], []) := ends.goesOn fun _ => rfl
    rw [List.append_nil] at split
    rw [scanFrom_eq, gap, afterGap, split]
    rfl
  | cons piece pieces ih =>
    rcases Partition.cons_iff.mp parts with ⟨rest, later, rfl, rfl, cut, others⟩
    rw [cut.scanFrom_eq, ih others]
    rfl

theorem scanFrom_iff : scanFrom start source = .ok tokens ↔
    ∃ pieces last, Partition start source pieces last tokens := by
  constructor
  · exact partition_of_scanFrom
  · intro parts
    rcases parts with ⟨pieces, last, parts⟩
    exact parts.scanned

theorem Partition.lines (parts : Partition start source pieces last tokens) :
    (∀ token ∈ tokens, (start : Int) ≤ token.line) ∧
      tokens.Pairwise fun earlier later => earlier.line ≤ later.line := by
  induction pieces generalizing start source tokens with
  | nil =>
    rcases Partition.nil_iff.mp parts with ⟨-, -, rfl⟩
    simp only [List.mem_singleton, forall_eq, List.pairwise_singleton, and_true, endOfInput]
    omega
  | cons piece pieces ih =>
    rcases Partition.cons_iff.mp parts with ⟨rest, later, rfl, rfl, cut, others⟩
    rcases ih others with ⟨bound, sorted⟩
    have within : piece.token.line = (start + piece.text.count '\n' : Nat) := by
      rw [cut.line, List.nil_append, Piece.text, List.count_append, List.count_append,
        cut.pattern.count_dropLast]
    have behind : ∀ token ∈ later, piece.token.line ≤ token.line := by
      intro token member
      rw [within]
      exact bound token member
    refine ⟨?_, List.pairwise_cons.mpr ⟨behind, sorted⟩⟩
    intro token member
    rcases List.mem_cons.mp member with rfl | inside
    · rw [within]
      omega
    · have first := behind token inside
      rw [within] at first
      omega

theorem scan_eq_ok : scan source = .ok tokens ↔
    ∃ pieces last, Partition 1 source pieces last tokens := by
  rw [← scanFrom_iff, scan]
  cases scanFrom 1 source <;> simp [Except.mapError]

end

/-- A text is scanned as some tokens if and only if it is made of their lexemes, each the longest
at its place and of its kind, with nothing but blanks and comments between them. Each token is on
the line of its last character and the end on that of the end of the text, so lines never go
back. -/
theorem scan_iff_partition (source : List Char) (tokens : List Token) :
    scan source = .ok tokens ↔
      (∃ pieces last, Partition 1 source pieces last tokens) ∧
        tokens.Pairwise fun earlier later => earlier.line ≤ later.line := by
  rw [scan_eq_ok]
  constructor
  · intro parts
    rcases parts with ⟨pieces, last, parts⟩
    exact ⟨⟨pieces, last, parts⟩, parts.lines.2⟩
  · exact And.left

end Lox.Token
