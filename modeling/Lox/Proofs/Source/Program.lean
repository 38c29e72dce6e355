import Lox.Proofs.Grammar.Rendering.Sentence
import Lox.Proofs.Source.Reading

namespace Lox.Source

open Grammar

def written (statements : List Node) : String := "\n".intercalate (Node.sources statements)

variable {limits : Limits} {source : List Char} {statements : List Node}

theorem program_eq (limits : Limits) {tokens : List Token}
    (scanned : Source.tokens source = .ok tokens) :
    program limits source = (parseProgram limits.parsing tokens).mapError fun error =>
      .grammar (error.inSource source) := by
  rw [program, scanned]
  rfl

theorem program_eq_ok : program limits source = .ok statements ↔
    ∃ tokens, Source.tokens source = .ok tokens ∧
      parseProgram limits.parsing tokens = .ok statements := by
  cases scanned : Source.tokens source with
  | error error => simp [program, scanned, bind, Except.bind]
  | ok tokens =>
    rw [program_eq limits scanned]
    cases result : parseProgram limits.parsing tokens <;> simp [Except.mapError, result]

theorem program_derived (read : program limits source = .ok statements) :
    ∃ kinds, Grammar.Program kinds statements ∧ ∀ kind ∈ kinds, kind.Scanned := by
  rcases program_eq_ok.mp read with ⟨tokens, scanned, returned⟩
  exact ⟨spelled tokens, parseProgram_sound (ended_of_ok returned) returned,
    spelled_scanned scanned⟩

/-- The text of a program whose numbers are finite spells the kinds of the program with braces
around the bodies of loops. -/
theorem written_scans (read : program limits source = .ok statements)
    (finite : ∀ statement ∈ statements, statement.finite = true) :
    ∃ kinds, Grammar.Program kinds (statements.map Node.braced) ∧
      Token.Scans (written statements).toList kinds := by
  rcases program_derived read with ⟨kinds, ⟨parts, sentences, rfl, rfl⟩, scanned⟩
  have each : ∀ node ∈ parts.map Part.node, Form.declaration.Written node := by
    intro node member
    rcases List.mem_map.mp member with ⟨part, listed, rfl⟩
    exact (sentences part listed).written
      (fun kind inside => scanned kind (List.mem_flatMap.mpr ⟨part, listed, inside⟩))
      (finite _ member)
  rcases all_written each "\n" rfl rfl with ⟨again, derived, same, spells⟩
  refine ⟨again.flatMap Part.kinds, ⟨again, derived, rfl, same.symm⟩, ?_⟩
  by_cases empty : parts.map Part.node = []
  · rw [empty, List.map_nil, List.map_eq_nil_iff] at same
    rw [empty, same]
    exact Token.Scans.nil
  · have scans := (spells empty).scans [] [] Token.Apart.nil Token.Scans.nil
    rw [List.append_nil, List.append_nil] at scans
    exact scans

theorem program_of_scans {kinds : List Token.Kind} (derived : Grammar.Program kinds statements)
    (scans : Token.Scans source kinds) :
    (∀ limits, program limits source = .ok statements ∨ TooDeep (program limits source)) ∧
    ∃ enough, ∀ limits : Limits, enough ≤ limits.parsing →
      program limits source = .ok statements := by
  have inside : Token.Kind.endOfInput ∉ kinds := by
    rcases derived with ⟨parts, sentences, rfl, -⟩
    simpa using fun part member => (sentences part member).inside
  rcases exists_tokens scans inside with ⟨tokens, scanned, ended, rfl⟩
  exact @settles_of_complete _ _ _ _ (fun error => error.inSource source) (fun _ => rfl)
    (fun limits => program_eq limits scanned) (parseProgram_complete ended derived)
    fun _ _ => parseProgram_within

theorem written_reads_back (read : program limits source = .ok statements)
    (finite : ∀ statement ∈ statements, statement.finite = true) :
    (∀ others, program others (written statements).toList = .ok (statements.map Node.braced) ∨
      TooDeep (program others (written statements).toList)) ∧
    ∃ enough, ∀ others : Limits, enough ≤ others.parsing →
      program others (written statements).toList = .ok (statements.map Node.braced) := by
  rcases written_scans read finite with ⟨kinds, derived, scans⟩
  exact program_of_scans derived scans

end Lox.Source
