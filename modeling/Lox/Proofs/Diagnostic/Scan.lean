import Lox.Proofs.Diagnostic.Excerpt
import Lox.Proofs.Token.Failure

namespace Lox

namespace Token

theorem bare_of_scanFrom_error {start : Nat} {source rest : List Char}
    (failed : scanFrom start source = .error rest) : Bare rest := by
  -- a scan that fails behind a lexeme fails where the scan of what is left fails
  induction length : source.length using Nat.strongRecOn generalizing start source with
  | ind size ih =>
    rw [scanFrom_eq] at failed
    cases found : Lexeme.first? (afterGap source) with
    | none =>
      simp only [found] at failed
      split at failed
      · cases failed
      · obtain rfl := Except.error.inj failed
        exact splitGap_rest false source
    | some lexeme =>
      simp only [found] at failed
      have shorter := rest_lt_source found
      cases later : scanFrom (start + (gap source).count '\n' + lexeme.spelling.count '\n')
          lexeme.rest with
      | ok tokens => simp [later, Except.map] at failed
      | error left =>
        obtain rfl : left = rest := by simpa [later, Except.map] using failed
        exact ih lexeme.rest.length (by omega) later rfl

end Token

namespace ScanError

open Diagnostic Token

/-- What an error of the scan shows: the lines from two before it to two after it, as far as there
are such lines, each behind its number, and directly after its own line the caret. Before the caret
stand six blanks and as many as there are characters before the offending one on its line; on the
printed line these characters stand behind the label. So the caret is below the offending character
if and only if the label is six characters long, which it is up to line 9999. -/
theorem scan_error_excerpt {source : List Char} {error : ScanError}
    (failed : scan source = .error error) :
    ∃ (before : List Char) (c : Char) (after front behind : List Char),
      source = before ++ c :: after ∧ error.offset = before.length ∧
      error.line = 1 + before.count '\n' ∧ lineAt source error.line = front ++ c :: behind ∧
      front.length = Text.lineOffset before ∧
      Text.lines error.excerpt.toList =
        numbered source (List.Ico (max 1 (error.line - 2)) (error.line + 1)) ++
          (List.replicate (6 + front.length) ' ' ++ "^ Error here".toList) ::
            numbered source (List.Ico (error.line + 1)
              (min (Text.lines source).length (error.line + 2) + 1)) ∧
      ((lineLabel error.line ++ front).length = 6 + front.length ↔ error.line < 10000) := by
  cases stopped : scanFrom 1 source with
  | ok tokens => simp [scan, stopped, Except.mapError] at failed
  | error rest =>
    obtain ⟨before, c, after, rfl, rfl, -, -, -⟩ := scanFrom_error stopped
    obtain rfl : behind before after c = error :=
      Except.error.inj ((scan_behind stopped).symm.trans failed)
    have printed : c ≠ '\n' := by
      rintro rfl
      exact absurd ((bare_of_scanFrom_error stopped).1 '\n' rfl) (by decide)
    obtain ⟨front, later, offset, line⟩ :=
      Text.exists_line before (by simpa using Ne.symm printed : '\n' ∉ [c]) after
    rw [List.singleton_append, List.singleton_append] at line
    have within : before.count '\n' < (Text.lines (before ++ c :: after)).length :=
      (List.getElem?_eq_some_iff.mp line).1
    refine ⟨before, c, after, front, later, rfl, rfl, behind_line before after c, ?_, offset, ?_,
      ?_⟩
    · rw [lineAt, behind_line, Nat.add_sub_cancel_left, line]
      rfl
    · have column : (behind before after c).column = 1 + front.length := by
        rw [behind_column, offset]
      have caret : caretLine (behind before after c).column =
          List.replicate (6 + front.length) ' ' ++ "^ Error here".toList := by
        rw [caretLine, column]
        congr 2
        omega
      have listed := @shown_eq (before ++ c :: after) (behind before after c).line 2
        (behind before after c).column (by rw [behind_line]; omega) (by rw [behind_line]; omega)
        (by omega)
      rw [caret] at listed
      have lines := lines_excerpt (before ++ c :: after) (behind before after c).line
        (behind before after c).column 2
      rw [Nat.cast_ofNat] at listed
      rw [listed, if_neg (by simp)] at lines
      exact lines
    · have digit := length_digits_le (behind before after c).line 3
      rw [List.length_append, length_lineLabel]
      omega

/-- Behind 9999 line feeds the label has seven characters, and the caret stands one to the left of
the character it is meant for. -/
theorem caret_beside_in_line_10000 :
    let source := List.replicate 9999 '\n' ++ ['@']
    ∃ error, scan source = .error error ∧ error.line = 10000 ∧ error.got = "@" ∧
      (lineLabel error.line ++ lineAt source error.line)[7]? = some '@' ∧
      "      ^ Error here".toList ∈ Text.lines error.excerpt.toList := by
  intro source
  have feeds (count : Nat) : Gap false (List.replicate count '\n') := by
    induction count with
    | zero => exact .nil
    | succ count ih => exact .blank (by decide) ih
  have stopped : scanFrom 1 source = .error ['@'] :=
    scanFrom_stops (feeds 9999) (by decide) (by decide)
  have failed : scan source = .error (behind (List.replicate 9999 '\n') [] '@') :=
    scan_behind stopped
  have number : (behind (List.replicate 9999 '\n') [] '@').line = 10000 := by
    rw [behind_line, List.count_replicate_self]
  refine ⟨_, failed, number, behind_got _ _ _, ?_⟩
  obtain ⟨before, c, after, front, later, split, offset, -, printed, column, listed, -⟩ :=
    scan_error_excerpt failed
  obtain ⟨rfl, rest⟩ := List.append_inj split offset
  obtain ⟨rfl, rfl⟩ := List.cons.inj rest
  have start : front = [] := by
    rw [← List.length_eq_zero_iff, column, Text.lineOffset, List.reverse_replicate]
    rfl
  rw [start] at printed listed
  refine ⟨?_, ?_⟩
  · have label : lineLabel 10000 = "10000: ".toList := by decide +kernel
    rw [printed, number, label]
    rfl
  · rw [listed]
    exact List.mem_append_right _ List.mem_cons_self

end ScanError
end Lox
