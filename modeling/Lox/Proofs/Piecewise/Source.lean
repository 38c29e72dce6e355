import Lox.Proofs.Grammar.Locality.Program
import Lox.Proofs.Source.Program
import Lox.Proofs.Token.Seam

namespace Lox.Source

open Grammar
open Token (Kind)

section
variable {limits : Limits} {source other : List Char} {statements others : List Node}
  {tokens : List Token}

theorem scans_of_tokens (scanned : Source.tokens source = .ok tokens) :
    Token.Scans source (spelled tokens) ∧ Kind.endOfInput ∉ spelled tokens ∧
      ∀ other kinds, Token.Scans other kinds →
        Token.Scans (source ++ '\n' :: other) (spelled tokens ++ kinds) := by
  rcases Token.scans_of_scan (tokens_eq_ok.mp scanned) with ⟨kinds, same, inside, scans, joined⟩
  rcases List.map_eq_append_iff.mp same with ⟨used, last, rfl, rfl, lastKinds⟩
  rcases List.map_eq_singleton_iff.mp lastKinds with ⟨token, rfl, ends⟩
  have atEnd : (front [token]).isEnd = true := by simp [Token.isEnd, ends]
  rw [spelled_append inside atEnd]
  exact ⟨scans, inside, joined⟩

/-- A program that was read is read again in front of another one, whatever the lines of its
tokens. -/
theorem exists_reading {limit : Nat} (read : parseProgram limit tokens = .ok statements) :
    ∀ again other, again.map Token.kind = spelled tokens → (front other).kind ≠ .elseWord →
      readProgram limit (fun _ => true) (again ++ other) =
        (readProgram limit (fun _ => true) other).behind statements := by
  rcases (read_eq_ok (ended_of_ok read)).mp read with ⟨rest, returned⟩
  rcases readProgram_returns (Grammar.program_eq_ok.mp returned) with
    ⟨used, rfl, inside, atEnd, reread⟩
  rw [spelled_append inside (by simp [Token.isEnd, atEnd])]
  exact reread

theorem begins_of_parse {limit : Nat} (read : parseProgram limit tokens = .ok statements)
    {again rest : List Token} (alike : again.map Token.kind = spelled tokens)
    (atEnd : (front rest).kind = .endOfInput) : (front (again ++ rest)).kind ≠ .elseWord := by
  rcases parseProgram_sound (ended_of_ok read) read with ⟨parts, sentences, same, -⟩
  exact declarations_stop sentences (alike.trans same) (by simp [atEnd])

theorem program_nil : program limits [] = .ok [] := by
  have scanned : Source.tokens [] = .ok [Token.endOfInput 1] := by
    rw [Source.tokens, Token.scan, Token.scanFrom_eq]
    rfl
  rw [program_eq limits scanned]
  rfl

theorem program_joined (first : program limits source = .ok statements)
    (second : program limits other = .ok others) :
    program limits (source ++ '\n' :: other) = .ok (statements ++ others) := by
  rcases program_eq_ok.mp first with ⟨tokens, scanned, read⟩
  rcases program_eq_ok.mp second with ⟨later, laterScanned, laterRead⟩
  rcases scans_of_tokens scanned with ⟨-, inside, joins⟩
  rcases scans_of_tokens laterScanned with ⟨scans, laterInside, -⟩
  rcases exists_tokens (joins other _ scans) (by simp [inside, laterInside]) with
    ⟨joined, joinedScanned, ended, spells⟩
  rcases exists_spelled joined with ⟨used, rest, rfl, usedKinds, atEnd⟩
  rw [spells] at usedKinds
  rcases List.map_eq_append_iff.mp usedKinds with ⟨again, laterAgain, rfl, alike, laterAlike⟩
  refine program_eq_ok.mpr ⟨_, joinedScanned, (read_eq_ok ended).mpr ⟨rest, ?_⟩⟩
  apply Grammar.program_eq_ok.mpr
  have none : readProgram limits.parsing (fun _ => true) rest = ⟨[], rest, none⟩ :=
    readProgram_end (by simp [Token.isEnd, atEnd])
  have behind : readProgram limits.parsing (fun _ => true) (laterAgain ++ rest) =
      ⟨others, rest, Option.none⟩ := by
    rw [exists_reading laterRead laterAgain rest laterAlike (by simp [atEnd]), none,
      Reading.behind, List.append_nil]
  change readProgram limits.parsing (fun _ => true) (again ++ laterAgain ++ rest) = _
  rw [List.append_assoc, exists_reading read again _ alike (begins_of_parse laterRead laterAlike atEnd),
    behind]
  rfl

end

theorem program_intercalate {limits : Limits} {sources : List (List Char)}
    {programs : List (List Node)}
    (reads : List.Forall₂ (fun source statements => program limits source = .ok statements)
      sources programs) :
    program limits (['\n'].intercalate sources) = .ok programs.flatten := by
  induction reads with
  | nil => exact program_nil
  | @cons source statements sources programs read others ih =>
    cases others with
    | nil => simpa using read
    | @cons next _ sources _ _ _ =>
      have joined : ['\n'].intercalate (source :: next :: sources) =
          source ++ '\n' :: ['\n'].intercalate (next :: sources) := by
        simp [List.intercalate]
      rw [joined, List.flatten_cons]
      exact program_joined read ih

end Lox.Source
