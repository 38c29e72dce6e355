import Lox.Proofs.Token.Partition

/-!
Two texts put together with a line feed between them are scanned as the tokens of the one and then
those of the other: no lexeme and no comment goes on over the seam. The statement is
`scans_of_scan`.
-/
namespace Lox.Token

section
variable {start : Nat} {source other behind text : List Char} {piece : Piece}
  {tokens : List Token} {kinds : List Kind}

theorem Gap.ended {final : Bool} (between : Gap final text) : Gap false (text ++ ['\n']) := by
  induction between with
  | nil => exact .blank (by simp) .nil
  | blank blank _ ih => exact .blank blank ih
  | comment inside _ ih =>
    rw [List.cons_append, List.cons_append, List.append_assoc, List.cons_append]
    exact .comment inside ih
  | lastComment inside => exact .comment inside .nil

theorem Gap.final (gap : Gap false text) : Gap true text := by
  generalize ended : false = final at gap
  induction gap with
  | nil => exact .nil
  | blank listed _ ih => exact .blank listed (ih ended)
  | comment inside _ ih => exact .comment inside (ih ended)
  | lastComment inside => cases ended

theorem Scans.gap (between : Gap false text) (scans : Scans source kinds) :
    Scans (text ++ source) kinds := by
  intro line
  rcases scans (line + text.count '\n') with ⟨tokens, scanned, same⟩
  refine ⟨tokens, ?_, same⟩
  have split : splitGap false (text ++ source) = (text ++ Token.gap source, afterGap source) :=
    between.goesOn (by simp)
  have inFront : Token.gap (text ++ source) = text ++ Token.gap source := by
    rw [Token.gap, split]
  have after : afterGap (text ++ source) = afterGap source := by
    rw [afterGap, split]
  rw [← scanned, scanFrom_eq, inFront, after, List.count_append, ← Nat.add_assoc, ← scanFrom_eq]

theorem prefix_of_not_mem {c : Char} (lacks : c ∉ text) (front : text <+: source ++ c :: other) :
    text <+: source := by
  rcases List.prefix_or_prefix_of_prefix front (List.prefix_append source _) with within | beyond
  · exact within
  · rcases beyond with ⟨more, rfl⟩
    have later := (List.prefix_append_right_inj source).mp front
    cases more with
    | nil => simp
    | cons first more =>
      obtain rfl : first = c := (List.cons_prefix_cons.mp later).1
      exact absurd (by simp) lacks

theorem string_unique {inner outer : List Char} (unquoted : '\x22' ∉ inner)
    (alsoUnquoted : '\x22' ∉ outer) (front : '\x22' :: (inner ++ ['\x22']) <+: source)
    (again : '\x22' :: (outer ++ ['\x22']) <+: source) : inner = outer := by
  have upTo {middle : List Char} (unquoted : '\x22' ∉ middle)
      (front : '\x22' :: (middle ++ ['\x22']) <+: source) :
      source.tail.takeWhile (· != '\x22') = middle := by
    rcases front with ⟨rest, rfl⟩
    have passed : ∀ c ∈ middle, (c != '\x22') = true := by
      intro c member
      have different : c ≠ '\x22' := fun same => unquoted (same ▸ member)
      simpa using different
    simp [List.takeWhile_append_of_pos passed]
  rw [← upTo unquoted front, upTo alsoUnquoted again]

/-- The character stands in no lexeme but in strings. -/
def Outside (c : Char) : Prop := ∀ text kind, Pattern text kind → Plain text → c ∉ text

theorem outside_of_blank {c : Char} (blank : isBlank c = true) : Outside c := by
  intro text kind _ plain member
  rw [(plain c member).1] at blank
  cases blank

theorem Outside.ne_slash {c : Char} (outside : Outside c) : c ≠ '/' := by
  rintro rfl
  have slash : Pattern "/".toList .slash := .symbol (by decide)
  exact outside _ _ slash (by simp [Plain, isBlank]) (by simp)

theorem Pattern.prefix_of_outside {lexeme : List Char} {other kind : Kind} {c : Char}
    {rest : List Char} (pattern : Pattern text kind) (taken : Pattern lexeme other)
    (begun : lexeme <+: source) (outside : Outside c) (front : text <+: source ++ c :: rest) :
    text <+: source := by
  rcases pattern.plain_or_string with plain | ⟨inner, unquoted, rfl⟩
  · exact prefix_of_not_mem (outside text kind pattern plain) front
  · -- Where a string starts, the lexeme is a string as well, and it ends at the same quote.
    have string : ∃ outer, '\x22' ∉ outer ∧ lexeme = '\x22' :: (outer ++ ['\x22']) := by
      rcases taken.plain_or_string with plain | string
      · rcases taken.starts with ⟨first, more, rfl, -⟩
        have started := begun.trans (List.prefix_append source (c :: rest))
        rcases started with ⟨after, same⟩
        rw [← same] at front
        obtain rfl : '\x22' = first := (List.cons_prefix_cons.mp front).1
        exact absurd rfl (plain _ List.mem_cons_self).2
      · exact string
    rcases string with ⟨outer, alsoUnquoted, rfl⟩
    have again := begun.trans (List.prefix_append source (c :: rest))
    obtain rfl := string_unique unquoted alsoUnquoted front again
    exact begun

theorem Piece.Cut.narrow {before : List Char} (cut : piece.Cut start before (behind ++ other)) :
    piece.Cut start before behind := by
  have front : piece.lexeme ++ behind <+: piece.lexeme ++ (behind ++ other) :=
    ⟨other, by rw [List.append_assoc]⟩
  exact { cut with
    longest := fun text kind pattern begun => cut.longest text kind pattern (begun.trans front)
    uncommented := fun slashes => cut.uncommented (slashes.trans front) }

/-- A piece stays a piece if a character that is in no lexeme and another text come after the text
that it stands in. -/
theorem Piece.Cut.widen {c : Char} (outside : Outside c) (cut : piece.Cut start [] behind) :
    piece.Cut start [] (behind ++ c :: other) := by
  refine { cut with longest := ?_, uncommented := ?_ }
  · intro text kind pattern front
    rw [← List.append_assoc] at front
    exact cut.longest text kind pattern
      (pattern.prefix_of_outside cut.pattern (List.prefix_append _ _) outside front)
  · intro slashes
    rw [← List.append_assoc] at slashes
    refine cut.uncommented (prefix_of_not_mem (fun member => ?_) slashes)
    obtain rfl : c = '/' := by simpa using member
    exact outside.ne_slash rfl

theorem Piece.Cut.scans (cut : piece.Cut start [] behind) (scans : Scans behind kinds) :
    Scans (piece.text ++ behind) (piece.token.kind :: kinds) := by
  rcases cut.front with ⟨-, after, lexeme, found, -, kind, rest⟩
  subst rest
  rw [← kind]
  exact Scans.cons (after ▸ found) scans

variable {last : List Char} {pieces : List Piece}

theorem Partition.scans (parts : Partition start source pieces last tokens) :
    Scans source (pieces.map fun piece => piece.token.kind) := by
  induction pieces generalizing start source tokens with
  | nil =>
    rcases Partition.nil_iff.mp parts with ⟨rfl, ends, -⟩
    intro line
    exact ⟨_, scanFrom_iff.mpr ⟨[], source, Partition.nil_iff.mpr ⟨rfl, ends, rfl⟩⟩, rfl⟩
  | cons piece pieces ih =>
    rcases Partition.cons_iff.mp parts with ⟨rest, later, rfl, -, cut, others⟩
    exact cut.scans (ih others)

theorem Partition.joined (parts : Partition start source pieces last tokens)
    (scans : Scans other kinds) :
    Scans (source ++ '\n' :: other) ((pieces.map fun piece => piece.token.kind) ++ kinds) := by
  induction pieces generalizing start source tokens with
  | nil =>
    rcases Partition.nil_iff.mp parts with ⟨rfl, ends, -⟩
    have scans := scans.gap ends.ended
    rwa [List.append_assoc] at scans
  | cons piece pieces ih =>
    rcases Partition.cons_iff.mp parts with ⟨rest, later, rfl, -, cut, others⟩
    rw [List.append_assoc]
    exact (cut.widen (outside_of_blank rfl)).scans (ih others)

theorem scans_of_scan (scanned : scan source = .ok tokens) :
    ∃ kinds, tokens.map Token.kind = kinds ++ [.endOfInput] ∧ .endOfInput ∉ kinds ∧
      Scans source kinds ∧
      ∀ other others, Scans other others → Scans (source ++ '\n' :: other) (kinds ++ others) := by
  rcases scan_eq_ok.mp scanned with ⟨pieces, last, parts⟩
  refine ⟨pieces.map fun piece => piece.token.kind, ?_, ?_, parts.scans, fun _ _ => parts.joined⟩
  · rw [parts.spells, List.map_append, List.map_map]
    rfl
  · intro member
    rcases List.mem_map.mp member with ⟨piece, listed, same⟩
    rcases List.append_of_mem listed with ⟨before, after, split⟩
    exact (parts.cut before piece after split).pattern.inside same

end
end Lox.Token
