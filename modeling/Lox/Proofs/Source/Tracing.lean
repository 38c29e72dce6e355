import Lox.Proofs.Grammar.Enclosed.Parser
import Lox.Proofs.Grammar.Locality.Program
import Lox.Proofs.Source.Reading
import Lox.Proofs.Token.Seam

/-!
Tracing renders each declaration while the program is read, and a declaration that cannot be
rendered counts as nested too deeply. So a program is read the same with and without a trace if
each of its declarations can be rendered; otherwise reading with a trace stops behind the first one
that cannot: `tracing_stops_at_unrenderable`.
-/
namespace Lox.Grammar

section
variable {limit : Nat} {plain : Node → Bool} {tokens : List Token}

theorem readProgram_of_plain
    (each : ∀ statement ∈ (readProgram limit (fun _ => true) tokens).statements,
      plain statement = true) :
    readProgram limit plain tokens = readProgram limit (fun _ => true) tokens := by
  induction tokens using @declarations_induction limit with
  | ended tokens atEnd => rw [readProgram_end atEnd, readProgram_end atEnd]
  | refused tokens fault left inside read =>
    rw [readProgram_error inside read, readProgram_error inside read]
  | further tokens statement left inside read ih =>
    rw [readProgram_ok inside read rfl, Reading.behind, List.forall_mem_append] at each
    rw [readProgram_ok inside read (each.1 statement (by simp)), readProgram_ok inside read rfl,
      ih each.2]

/-- What is asked of declarations makes no difference, or one of them lacks it and counts as nested
too deeply. -/
theorem readProgram_plain_or_deep (limit : Nat) (plain : Node → Bool) (tokens : List Token) :
    readProgram limit plain tokens = readProgram limit (fun _ => true) tokens ∨
      ∃ left, (readProgram limit plain tokens).fault = some (.rejected .tooDeep left) := by
  induction tokens using @declarations_induction limit with
  | ended tokens atEnd =>
    left
    rw [readProgram_end atEnd, readProgram_end atEnd]
  | refused tokens fault left inside read =>
    left
    rw [readProgram_error inside read, readProgram_error inside read]
  | further tokens statement left inside read ih =>
    by_cases accepted : plain statement = true
    · rw [readProgram_ok inside read accepted, readProgram_ok inside read rfl]
      apply ih.imp
      · intro same
        rw [same]
      · exact id
    · right
      rw [readProgram_ornate inside read accepted]
      exact ⟨left, rfl⟩

theorem readProgram_of_finished (finished : (readProgram limit plain tokens).fault = none) :
    readProgram limit (fun _ => true) tokens = readProgram limit plain tokens := by
  induction tokens using @declarations_induction limit with
  | ended tokens atEnd => rw [readProgram_end atEnd, readProgram_end atEnd]
  | refused tokens fault left inside read =>
    rw [readProgram_error inside read] at finished
    cases finished
  | further tokens statement left inside read ih =>
    by_cases accepted : plain statement = true
    · rw [readProgram_ok inside read accepted] at finished
      rw [readProgram_ok inside read accepted, readProgram_ok inside read rfl, ih finished]
    · rw [readProgram_ornate inside read accepted] at finished
      cases finished

theorem readProgram_of_ornate {before after : List Node} {statement : Node}
    (split : (readProgram limit (fun _ => true) tokens).statements = before ++ statement :: after)
    (each : ∀ first ∈ before, plain first = true) (ornate : ¬ plain statement = true) :
    ∃ left, Passed tokens left ∧
      readProgram limit (fun _ => true) tokens =
        (readProgram limit (fun _ => true) left).behind (before ++ [statement]) ∧
      readProgram limit plain tokens = ⟨before, left, some (.rejected .tooDeep left)⟩ := by
  induction tokens using @declarations_induction limit generalizing before with
  | ended tokens atEnd => simp [readProgram_end atEnd] at split
  | refused tokens fault left inside read => simp [readProgram_error inside read] at split
  | further tokens first left inside read ih =>
    have passed : Passed tokens left := by
      obtain ⟨used, rfl, unended, -⟩ :=
        parse_local limit .declaration _ _ _ (ends_returned.mpr read)
      exact ⟨used, rfl, unended⟩
    have whole : readProgram limit (fun _ => true) tokens = _ := readProgram_ok inside read rfl
    rw [whole, Reading.behind, List.singleton_append] at split
    cases before with
    | nil =>
      obtain ⟨rfl, -⟩ := List.cons.inj split
      exact ⟨left, passed, whole, readProgram_ornate inside read ornate⟩
    | cons other before =>
      obtain ⟨rfl, others⟩ := List.cons.inj split
      rw [List.forall_mem_cons] at each
      obtain ⟨rest, further, same, stopped⟩ := ih others each.2
      refine ⟨rest, passed.trans further, ?_, ?_⟩
      · rw [whole, same]
        rfl
      · rw [readProgram_ok inside read each.1, stopped]
        rfl

end

def Reading.result (source : List Char) (reading : Reading) : Except SourceError (List Node) :=
  match reading.fault with
  | none => .ok reading.statements
  | some fault => .error (.grammar (fault.error.inSource source))

end Lox.Grammar

namespace Lox.Source

open Grammar

section
variable {limits : Limits} {source : List Char} {tokens : List Token}

theorem ended_of_tokens (scanned : Source.tokens source = .ok tokens) :
    tokens.getLast?.any Token.isEnd := by
  obtain ⟨kinds, same, -⟩ := Token.scans_of_scan (tokens_eq_ok.mp scanned)
  obtain ⟨used, last, rfl, -, lastKinds⟩ := List.map_eq_append_iff.mp same
  obtain ⟨token, rfl, ends⟩ := List.map_eq_singleton_iff.mp lastKinds
  simp [Token.isEnd, ends]

theorem program_eq_statements (limits : Limits) (scanned : Source.tokens source = .ok tokens) :
    program limits source = (Source.statements limits false source tokens).2 := by
  rw [program, scanned]
  rfl

theorem statements_eq_result (scanned : Source.tokens source = .ok tokens) (traced : Bool) :
    (Source.statements limits traced source tokens).2 =
      (readProgram limits.parsing (fun statement => !traced || traceable limits statement)
        tokens).result source := by
  have ended := ended_of_tokens scanned
  cases traced with
  | true =>
    simp only [Source.statements, tracedProgram, Reading.result, if_true, Bool.not_true,
      Bool.false_or]
    cases (readProgram limits.parsing (traceable limits) tokens).fault <;> rfl
  | false =>
    simp only [Source.statements, parseProgram, Grammar.read, if_pos ended, Grammar.program,
      Reading.result, Bool.false_eq_true, if_false, Bool.not_false, Bool.true_or]
    cases (readProgram limits.parsing (fun _ => true) tokens).fault <;> rfl

theorem statements_or_deep (scanned : Source.tokens source = .ok tokens) (traced : Bool) :
    (Source.statements limits traced source tokens).2 =
        (Source.statements limits false source tokens).2 ∨
      TooDeep (Source.statements limits traced source tokens).2 := by
  rw [statements_eq_result scanned, statements_eq_result scanned]
  rcases readProgram_plain_or_deep limits.parsing
    (fun statement => !traced || traceable limits statement) tokens with same | ⟨left, deep⟩
  · left
    rw [same]
    rfl
  · right
    rw [Reading.result, deep]
    exact ⟨_, rfl, rfl⟩

theorem statements_of_traceable {statements : List Node}
    (scanned : Source.tokens source = .ok tokens)
    (read : (Source.statements limits false source tokens).2 = .ok statements)
    (each : ∀ statement ∈ statements, traceable limits statement = true) (traced : Bool) :
    (Source.statements limits traced source tokens).2 = .ok statements := by
  rw [statements_eq_result scanned] at read ⊢
  simp only [Bool.not_false, Bool.true_or] at read
  have listed : (readProgram limits.parsing (fun _ => true) tokens).statements = statements := by
    rw [Reading.result] at read
    split at read
    · exact Except.ok.inj read
    · cases read
  rw [readProgram_of_plain]
  · exact read
  · intro statement member
    rw [listed] at member
    simp [each statement member]

theorem parsed_of_statements {traced : Bool} {statements : List Node}
    (scanned : Source.tokens source = .ok tokens)
    (read : (Source.statements limits traced source tokens).2 = .ok statements) :
    parseProgram limits.parsing tokens = .ok statements := by
  rw [statements_eq_result scanned, Reading.result] at read
  split at read
  · next finished =>
    cases read
    rw [parseProgram, Grammar.read, if_pos (ended_of_tokens scanned), Grammar.program,
      readProgram_of_finished finished, finished]
  · cases read

end

/-- A program is read the same with and without a trace if all of its declarations can be rendered.
If one of them cannot, reading with a trace complains about nesting at the token behind the first
such declaration, wherever reading without a trace gets to. -/
theorem tracing_stops_at_unrenderable {source : List Char} {tokens : List Token}
    (scanned : Source.tokens source = .ok tokens) (limits : Limits) :
    let reading := readProgram limits.parsing (fun _ => true) tokens
    ((∀ statement ∈ reading.statements, traceable limits statement = true) →
      (Source.statements limits true source tokens).2 =
        (Source.statements limits false source tokens).2) ∧
    ∀ before statement after, reading.statements = before ++ statement :: after →
      (∀ first ∈ before, traceable limits first = true) → ¬ traceable limits statement = true →
      ∃ left, Passed tokens left ∧
        reading = (readProgram limits.parsing (fun _ => true) left).behind (before ++ [statement]) ∧
        (Source.statements limits true source tokens).2 =
          .error (.grammar ((SyntaxError.atToken .tooDeep (front left)).inSource source)) := by
  intro reading
  simp only [statements_eq_result scanned, Bool.not_true, Bool.false_or, Bool.not_false,
    Bool.true_or]
  refine ⟨fun each => ?_, fun before statement after split each ornate => ?_⟩
  · rw [readProgram_of_plain each]
  · obtain ⟨left, passed, same, stopped⟩ := readProgram_of_ornate split each ornate
    refine ⟨left, passed, same, ?_⟩
    rw [stopped]
    rfl

/-- With room for two nodes on a way down, a sum cannot be rendered where it is printed. -/
theorem sum_stops_trace :
    let limits : Limits := ⟨40, 40, 2, 2, 10⟩
    let source := "print 1+1;print 2;".toList
    ∃ tokens, Source.tokens source = .ok tokens ∧
      (∃ statements, (Source.statements limits false source tokens).2 = .ok statements) ∧
      ∃ left, Passed tokens left ∧ (Source.statements limits true source tokens).2 =
        .error (.grammar ((SyntaxError.atToken .tooDeep (front left)).inSource source)) := by
  intro limits source
  let one : Node := .literal (.number (Decimal.toNumber ⟨1, 0⟩))
  let tokens : List Token := [⟨.printWord, "print", 1⟩,
    ⟨.number (Decimal.toNumber ⟨1, 0⟩), "1", 1⟩, ⟨.plus, "+", 1⟩,
    ⟨.number (Decimal.toNumber ⟨1, 0⟩), "1", 1⟩, ⟨.semicolon, ";", 1⟩, ⟨.printWord, "print", 1⟩,
    ⟨.number (Decimal.toNumber ⟨2, 0⟩), "2", 1⟩, ⟨.semicolon, ";", 1⟩, .endOfInput 1]
  have scanned : Source.tokens source = .ok tokens :=
    tokens_eq_ok.mpr (by decide +kernel)
  have split : (readProgram limits.parsing (fun _ => true) tokens).statements =
      [] ++ .print (.binary one .plus one) ::
        [.print (.literal (.number (Decimal.toNumber ⟨2, 0⟩)))] := rfl
  obtain ⟨left, passed, -, stopped⟩ :=
    (tracing_stops_at_unrenderable scanned limits).2 _ _ _ split (by simp) (by decide)
  exact ⟨tokens, scanned, ⟨_, rfl⟩, left, passed, stopped⟩

end Lox.Source
