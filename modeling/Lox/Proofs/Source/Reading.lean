import Lox.Proofs.Grammar.Acceptance
import Lox.Proofs.Token.Scanned
import Lox.Source

namespace Lox.Source

open Grammar

def TooDeep {α : Type} (result : Except SourceError α) : Prop :=
  ∃ error, result = .error (.grammar error) ∧ error.complaint = .tooDeep

section
variable {source : List Char} {kinds : List Token.Kind}

theorem tokens_eq_ok {tokens : List Token} :
    Source.tokens source = .ok tokens ↔ Token.scan source = .ok tokens := by
  rw [Source.tokens]
  cases Token.scan source <;> simp [Except.mapError]

theorem exists_tokens (scans : Token.Scans source kinds) (inside : Token.Kind.endOfInput ∉ kinds) :
    ∃ tokens, Source.tokens source = .ok tokens ∧ tokens.getLast?.any Token.isEnd ∧
      spelled tokens = kinds := by
  rcases scans 1 with ⟨tokens, scanned, same⟩
  rcases List.map_eq_append_iff.mp same with ⟨used, last, rfl, usedKinds, lastKinds⟩
  rcases List.map_eq_singleton_iff.mp lastKinds with ⟨token, rfl, ends⟩
  have atEnd : token.isEnd = true := by simp [Token.isEnd, ends]
  refine ⟨used ++ [token], by rw [tokens, Token.scan, scanned]; rfl, ?_, ?_⟩
  · simp [atEnd]
  · rw [@spelled_append used [token] (usedKinds.symm ▸ inside) atEnd, usedKinds]

theorem spelled_scanned {tokens : List Token} (scanned : Source.tokens source = .ok tokens) :
    ∀ kind ∈ spelled tokens, kind.Scanned := by
  have read : Token.scanFrom 1 source = .ok tokens := by
    rw [Source.tokens, Token.scan] at scanned
    cases result : Token.scanFrom 1 source with
    | error rest => simp [result, Except.mapError] at scanned
    | ok found =>
      simp only [result, Except.mapError, Except.ok.injEq] at scanned
      rw [scanned]
  intro kind member
  rcases List.mem_map.mp member with ⟨token, within, rfl⟩
  exact Token.scanFrom_scanned 1 source read token ((List.takeWhile_sublist _).mem within)

end

/-- A text is read as what a reader makes of its tokens, or the reading comes to the limit. -/
theorem settles_of_complete {α : Type} {value : α} {reading : Limits → Except SourceError α}
    {reader : Nat → Except SyntaxError α} {shown : SyntaxError → SyntaxError}
    (keeps : ∀ error, (shown error).complaint = error.complaint)
    (read : ∀ limits, reading limits = (reader limits.parsing).mapError fun error =>
      .grammar (shown error))
    (complete : ∀ᶠ limit in Filter.atTop, reader limit = .ok value)
    (within : ∀ limit higher, limit ≤ higher →
      Exhausted (reader limit) ∨ reader higher = reader limit) :
    (∀ limits, reading limits = .ok value ∨ TooDeep (reading limits)) ∧
    ∃ enough, ∀ limits : Limits, enough ≤ limits.parsing → reading limits = .ok value := by
  rcases Filter.eventually_atTop.mp complete with ⟨enough, reads⟩
  refine ⟨fun limits => ?_, enough, fun limits above => ?_⟩
  · rcases within limits.parsing (max limits.parsing enough) (le_max_left _ _) with deep | agrees
    · rcases deep with ⟨error, refused, deep⟩
      refine .inr ⟨shown error, ?_, (keeps error).trans deep⟩
      rw [read, refused]
      rfl
    · rw [reads _ (le_max_right _ _)] at agrees
      left
      rw [read, ← agrees]
      rfl
  · rw [read, reads _ above]
    rfl

end Lox.Source
