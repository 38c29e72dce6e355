import Lox.Proofs.Text.Lines
import Lox.Proofs.Token.Seam

namespace Lox.Token

section
variable {start : Nat} {source rest text after : List Char} {kind : Kind} {c : Char}

theorem isDigit_of_isDigit (digit : c.isDigit = true) : Text.isDigit c = true := by
  have bounds : 0x30 ≤ c.toNat ∧ c.toNat ≤ 0x39 := by
    simpa [Char.isDigit, UInt32.le_iff_toNat_le] using digit
  rw [Text.isDigit, Text.digitValue?, Option.isSome_map, List.find?_isSome]
  refine ⟨0x30, by decide, ?_⟩
  simp only [Bool.and_eq_true, decide_eq_true_eq]
  omega

theorem Pattern.single (pattern : Pattern text kind) (plain : Plain text) (member : c ∈ text) :
    ∃ other, Pattern [c] other := by
  have digit (digit : Text.isDigit c = true) : ∃ other, Pattern [c] other :=
    ⟨_, .whole (List.cons_ne_nil c []) (by simpa using digit)⟩
  have letter (part : isWordPart c = true) : ∃ other, Pattern [c] other := by
    rcases Bool.or_eq_true_iff.mp part with first | ascii
    · have spelled : (String.singleton c).toList = [c] := by simp
      have long : ∀ entry ∈ keywords, entry.1.toList.length ≠ 1 := by decide
      refine ⟨_, spelled ▸ Pattern.identifier ?_ fun kind listed => long _ listed ?_⟩
      · simp [isWord, first, part]
      · rw [spelled, List.length_singleton]
    · exact digit (isDigit_of_isDigit ascii)
  cases pattern with
  | string => exact absurd rfl (plain '\x22' List.mem_cons_self).2
  | whole _ digits => exact digit (digits c member)
  | fraction _ _ digits =>
    rcases List.mem_append.mp member with before | behind
    · exact digit (digits c (List.mem_append_left _ before))
    · rcases List.mem_cons.mp behind with rfl | last
      · exact ⟨.dot, Pattern.symbol (by decide : (".", Kind.dot) ∈ symbols)⟩
      · exact digit (digits c (List.mem_append_right _ last))
  | keyword listed => exact letter (isWordPart_of_isWord (lookup_keyword listed).1 c member)
  | identifier word _ => exact letter (isWordPart_of_isWord word c member)
  | symbol listed =>
    have signs : (symbols.all fun entry => entry.1.toList.all fun c =>
        symbols.any fun sign => sign.1.toList == [c]) = true := by decide
    have single := List.all_eq_true.mp (List.all_eq_true.mp signs _ listed) c member
    rcases List.any_eq_true.mp single with ⟨sign, among, spelled⟩
    exact ⟨sign.2, beq_iff_eq.mp spelled ▸ Pattern.symbol among⟩

theorem outside_of_first? (stops : Lexeme.first? (c :: after) = none) : Outside c := by
  intro text kind pattern plain member
  rcases pattern.single plain member with ⟨other, single⟩
  have front : [c] <+: c :: after := ⟨after, rfl⟩
  rcases single.taken front with ⟨lexeme, found, -⟩
  rw [stops] at found
  cases found

/-- No lexeme starts with such a character, whatever comes after it, unless it is a quote. -/
theorem Outside.first? (outside : Outside c) (unquoted : c ≠ '\x22') (after : List Char) :
    Lexeme.first? (c :: after) = none := by
  cases found : Lexeme.first? (c :: after) with
  | none => rfl
  | some lexeme =>
    rcases Lexeme.first?_fits found with ⟨fits, spelled⟩
    rcases List.exists_cons_of_ne_nil spelled with ⟨first, more, shape⟩
    have pattern := first?_pattern found
    rw [shape] at fits pattern
    obtain rfl : first = c := (List.cons.inj fits).1
    rcases pattern.plain_or_string with plain | ⟨inner, -, same⟩
    · exact absurd List.mem_cons_self (outside _ _ pattern plain)
    · exact absurd (List.cons.inj same).1 unquoted

theorem unclosed_of_first? (stops : Lexeme.first? ('\x22' :: after) = none) : '\x22' ∉ after := by
  intro member
  rcases List.eq_append_cons_of_mem member with ⟨inner, others, rfl, unquoted⟩
  have front : '\x22' :: (inner ++ ['\x22']) <+: '\x22' :: (inner ++ '\x22' :: others) :=
    ⟨others, by simp⟩
  rcases (Pattern.string unquoted).taken front with ⟨lexeme, found, -⟩
  rw [stops] at found
  cases found

theorem scanFrom_stops (between : Gap false text) (blankless : isBlank c = false)
    (stops : Lexeme.first? (c :: after) = none) :
    scanFrom start (text ++ c :: after) = .error (c :: after) := by
  have bare : Bare (c :: after) := by
    refine ⟨by simpa using blankless, fun slashes => ?_⟩
    exact (outside_of_first? stops).ne_slash (List.cons_prefix_cons.mp slashes).1.symm
  have split : splitGap false (text ++ c :: after) = (text ++ [], c :: after) := by
    rw [between.goesOn (by simp), gap, afterGap, splitGap_bare bare]
  rw [scanFrom_eq, gap, afterGap, split, stops]
  rfl

/-- A scan that fails stops at a character at which no lexeme starts. The text before it is scanned,
and the scan stops there with every other text behind it with which no lexeme starts there. By
induction on what is left of the text. -/
theorem scanFrom_error (failed : scanFrom start source = .error rest) :
    ∃ before c after, source = before ++ c :: after ∧ rest = c :: after ∧
      Lexeme.first? (c :: after) = none ∧ (∃ tokens, scanFrom start before = .ok tokens) ∧
      ∀ others, Lexeme.first? (c :: others) = none →
        scanFrom start (before ++ c :: others) = .error (c :: others) := by
  induction length : source.length using Nat.strongRecOn generalizing start source with
  | ind size ih =>
    cases found : Lexeme.first? (afterGap source) with
    | none =>
      have split := gap_append_afterGap source
      have between : Gap (afterGap source).isEmpty (gap source) := splitGap_gap false source
      have bare : Bare (afterGap source) := splitGap_rest false source
      rw [scanFrom_eq, found] at failed
      cases left : afterGap source with
      | nil => simp [left] at failed
      | cons c after =>
        rw [left] at split between bare found failed
        obtain rfl : c :: after = rest := by simpa using failed
        refine ⟨gap source, c, after, split.symm, rfl, found, ?_, fun others stops => ?_⟩
        · exact ⟨_, scanFrom_iff.mpr ⟨[], _, Partition.nil_iff.mpr ⟨rfl, between.final, rfl⟩⟩⟩
        · exact scanFrom_stops between (bare.1 c rfl) stops
    | some lexeme =>
      rcases exists_piece found start with ⟨piece, behind, rfl, shorter, cut⟩
      rw [cut.scanFrom_eq] at failed
      cases later : scanFrom (start + piece.text.count '\n') behind with
      | ok tokens => simp [later, Except.map] at failed
      | error left =>
        obtain rfl : left = rest := by simpa [later, Except.map] using failed
        rcases ih behind.length (by omega) later rfl with
          ⟨before, c, after, rfl, rfl, stops, ⟨tokens, scanned⟩, again⟩
        refine ⟨piece.text ++ before, c, after, ?_, rfl, stops, ?_, fun others also => ?_⟩
        · rw [List.append_assoc]
        · rw [cut.narrow.scanFrom_eq, scanned]
          exact ⟨_, rfl⟩
        -- no lexeme goes on over a character at which none starts
        · have cut : piece.Cut start [] (before ++ c :: others) :=
            cut.narrow.widen (outside_of_first? stops)
          rw [List.append_assoc, cut.scanFrom_eq, again others also]
          rfl

end
end Lox.Token

namespace Lox

namespace ScanError

open Token

/-- The error stands at a character behind a text: on the line after the line feeds of the text, and
one column further than the distance from the start of that line. -/
structure At (error : ScanError) (before : List Char) (c : Char) : Prop where
  line : error.line = 1 + before.count '\n'
  column : ∃ earlier current, before = earlier ++ current ∧
    (earlier = [] ∨ earlier.getLast? = some '\n') ∧ '\n' ∉ current ∧
    error.column = 1 + current.length
  got : error.got = String.singleton c

section
variable (before after : List Char) (c : Char)

def behind : ScanError := ⟨before ++ c :: after, before.length⟩

theorem behind_before : (behind before after c).before = before := List.take_left

theorem behind_found : (before ++ c :: after)[before.length]? = some c := by simp

theorem behind_got : (behind before after c).got = String.singleton c := by
  simp only [got, behind, behind_found]

theorem behind_line : (behind before after c).line = 1 + before.count '\n' := by
  rw [line, behind_before, Text.lineAfter]

theorem behind_column : (behind before after c).column = 1 + Text.lineOffset before := by
  rw [column, behind_before, behind, Nat.sub_self, Nat.zero_add, Nat.add_comm]

theorem behind_message : (behind before after c).message =
    if c = '\x22' then "Unterminated string"
    else "Unexpected character '" ++ String.singleton c ++ "'" := by
  simp only [message, behind, behind_found]

theorem behind_at : (behind before after c).At before c := by
  rcases Text.exists_current before with ⟨earlier, current, split, ended, inside, offset⟩
  exact ⟨behind_line before after c,
    ⟨earlier, current, split, ended, inside, by rw [behind_column, offset]⟩,
    behind_got before after c⟩

end

theorem scan_behind {before after : List Char} {c : Char}
    (stops : scanFrom 1 (before ++ c :: after) = .error (c :: after)) :
    scan (before ++ c :: after) = .error (behind before after c) := by
  have offset : (before ++ c :: after).length - (c :: after).length = before.length := by simp
  rw [scan, stops, behind, ← offset]
  rfl

/-- An error of the scan stands at the first character at which the text cannot be tokens. What is
before it is scanned. Either it is a quote with no other behind it, or every text that goes on
otherwise behind it fails at the same place as well. It is never the end of the text. -/
theorem scan_error_first {source : List Char} {error : ScanError}
    (failed : scan source = .error error) :
    ∃ before c after, source = before ++ c :: after ∧ error.At before c ∧
      (∃ tokens, scan before = .ok tokens) ∧
      (c = '\x22' → error.message = "Unterminated string" ∧ '\x22' ∉ after) ∧
      (c ≠ '\x22' → ∀ others, ∃ again, scan (before ++ c :: others) = .error again ∧
        again.line = error.line ∧ again.column = error.column ∧ again.got = error.got) ∧
      error.message ≠ "Unexpected end of input" := by
  cases stopped : scanFrom 1 source with
  | ok tokens => simp [scan, stopped, Except.mapError] at failed
  | error rest =>
    rcases scanFrom_error stopped with
      ⟨before, c, after, rfl, rfl, stops, ⟨tokens, scanned⟩, again⟩
    obtain rfl : behind before after c = error :=
      Except.error.inj ((scan_behind stopped).symm.trans failed)
    refine ⟨before, c, after, rfl, behind_at before after c, ⟨tokens, ?_⟩, ?_, ?_, ?_⟩
    · rw [scan, scanned]
      rfl
    · rintro rfl
      exact ⟨behind_message before after _, unclosed_of_first? stops⟩
    · intro unquoted others
      have elsewhere := again others ((outside_of_first? stops).first? unquoted others)
      refine ⟨behind before others c, scan_behind elsewhere, ?_, ?_, ?_⟩
      · rw [behind_line, behind_line]
      · rw [behind_column, behind_column]
      · rw [behind_got, behind_got]
    · rw [behind_message]
      split
      · decide
      · intro same
        have spelled := congrArg String.toList same
        simp at spelled

/-- In the third line of this text a character is found that starts no lexeme. The quote in the
comment before it opens no string. -/
theorem hash_fails_first :
    let source := "a = \x22\n\x22; // \x22\n 1.#/".toList
    ∃ error, scan source = .error error ∧ error.line = 3 ∧ error.column = 4 ∧
      error.got = "#" ∧ ∃ before c after, source = before ++ c :: after ∧ error.At before c ∧
        (∃ tokens, scan before = .ok tokens) ∧
        (c = '\x22' → error.message = "Unterminated string" ∧ '\x22' ∉ after) ∧
        (c ≠ '\x22' → ∀ others, ∃ again, scan (before ++ c :: others) = .error again ∧
          again.line = error.line ∧ again.column = error.column ∧ again.got = error.got) ∧
        error.message ≠ "Unexpected end of input" := by
  intro source
  have failed : scan source = .error ⟨source, 17⟩ := by decide +kernel
  exact ⟨_, failed, by decide +kernel, by decide +kernel, by decide +kernel,
    scan_error_first failed⟩

end ScanError
end Lox
