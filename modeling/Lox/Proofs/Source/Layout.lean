import Lox.Proofs.Piecewise.Source
import Lox.Proofs.Token.Layout

namespace Lox.Source

open Grammar
open Token (Kind LaidOut Separator Gap)

section
variable {limits : Limits} {source text : List Char} {statements : List Node}
  {tokens again : List Token}

theorem front_of_alike (alike : again.map Token.kind = tokens.map Token.kind) :
    (front again).kind = (front tokens).kind := by
  cases tokens with
  | nil => rw [List.map_eq_nil_iff.mp alike]
  | cons token tokens =>
    rcases List.map_eq_cons_iff.mp alike with ⟨first, others, rfl, same, -⟩
    exact same

theorem ended_of_alike (alike : again.map Token.kind = tokens.map Token.kind) :
    again.getLast?.any Token.isEnd = tokens.getLast?.any Token.isEnd := by
  have kinds := congrArg (fun kinds : List Kind => kinds.getLast?.any (· = .endOfInput)) alike
  simp only [List.getLast?_map, Option.any_map] at kinds
  exact kinds

theorem parseProgram_of_alike {limit : Nat} (alike : again.map Token.kind = tokens.map Token.kind)
    (read : parseProgram limit tokens = .ok statements) :
    parseProgram limit again = .ok statements := by
  have ended := (ended_of_alike alike).trans (ended_of_ok read)
  rcases exists_spelled tokens with ⟨used, rest, rfl, usedKinds, atEnd⟩
  rw [List.map_append] at alike
  rcases List.map_eq_append_iff.mp alike with ⟨passed, last, rfl, passedKinds, lastKinds⟩
  have lastEnd : (front last).kind = .endOfInput := (front_of_alike lastKinds).trans atEnd
  have finished := exists_reading read passed last (passedKinds.trans usedKinds) (by simp [lastEnd])
  have none : readProgram limit (fun _ => true) last = ⟨[], last, none⟩ :=
    readProgram_end (by simp [Token.isEnd, lastEnd])
  rw [none, Reading.behind, List.append_nil] at finished
  exact (read_eq_ok ended).mpr ⟨last, Grammar.program_eq_ok.mpr finished⟩

theorem program_of_alike (scanned : Token.scan source = .ok tokens)
    (rescanned : Token.scan text = .ok again) (alike : again.map Token.kind = tokens.map Token.kind)
    (read : program limits source = .ok statements) : program limits text = .ok statements := by
  rcases program_eq_ok.mp read with ⟨found, found_eq, parsed⟩
  obtain rfl : found = tokens := Except.ok.inj (found_eq.symm.trans (tokens_eq_ok.mpr scanned))
  exact program_eq_ok.mpr ⟨again, tokens_eq_ok.mpr rescanned, parseProgram_of_alike alike parsed⟩

end

/-- A text that is made of the lexemes of a source, with blanks and comments between each two of
them that start with a blank, is scanned as tokens of the same kinds, with the same literals and
lexemes, and it is read as a program if and only if the source is, and then as the same one. -/
theorem layout_reads_same {source text : List Char} {tokens : List Token}
    (scanned : Token.scan source = .ok tokens) (laid : LaidOut tokens.dropLast text) :
    (∃ again, Token.scan text = .ok again ∧ again.map Token.kind = tokens.map Token.kind ∧
      again.map Token.lexeme = tokens.map Token.lexeme) ∧
    ∀ limits statements,
      program limits source = .ok statements ↔ program limits text = .ok statements := by
  rcases laid.scanned scanned with ⟨again, rescanned, same⟩
  have kinds : again.map Token.kind = tokens.map Token.kind := by
    simpa [Token.unlined, Function.comp_def] using congrArg (List.map Prod.fst) same
  have lexemes : again.map Token.lexeme = tokens.map Token.lexeme := by
    simpa [Token.unlined, Function.comp_def] using congrArg (List.map Prod.snd) same
  refine ⟨⟨again, rescanned, kinds, lexemes⟩, fun limits statements => ⟨?_, ?_⟩⟩
  · exact program_of_alike scanned rescanned kinds
  · exact program_of_alike rescanned scanned kinds.symm

/-- A comment may stand right behind a blank, a string keeps its line feed, and what stood without
any blank between it may be taken apart. -/
theorem quotient_reads_same :
    let source := "print\"a\n\"==1.5/2;".toList
    let text := "print".toList ++ (['\n', '/', '/', '/', '\n'] ++ ("\"a\n\"".toList ++ ([' '] ++
      ("==".toList ++ (['\r', '\n'] ++ ("1.5".toList ++ ([' '] ++ ("/".toList ++
      (['\t', '/', '/', '2', '\n', ' '] ++ ("2".toList ++ ([' '] ++ ";".toList)))))))))))
    ∃ tokens, Token.scan source = .ok tokens ∧ LaidOut tokens.dropLast text ∧
      (∃ again, Token.scan text = .ok again ∧ again.map Token.kind = tokens.map Token.kind ∧
        again.map Token.lexeme = tokens.map Token.lexeme) ∧
      ∀ limits statements,
        program limits source = .ok statements ↔ program limits text = .ok statements := by
  intro source text
  let tokens : List Token := [⟨.printWord, "print", 1⟩, ⟨.string "a\n", "\"a\n\"", 2⟩,
    ⟨.equalEqual, "==", 2⟩, ⟨.number (Decimal.toNumber ⟨15, 1⟩), "1.5", 2⟩, ⟨.slash, "/", 2⟩,
    ⟨.number (Decimal.toNumber ⟨2, 0⟩), "2", 2⟩, ⟨.semicolon, ";", 2⟩, .endOfInput 2]
  have scanned : Token.scan source = .ok tokens := by decide +kernel
  have blanks {c : Char} (blank : c ∈ [' ', '\t', '\r', '\n']) : Separator [c] :=
    .blank blank .nil
  have laid : LaidOut tokens.dropLast text :=
    .more (.blank (by simp) (@Gap.comment _ ['/'] _ (by simp) .nil)) <|
    .more (blanks (by simp)) <|
    .more (.blank (by simp) (.blank (by simp) .nil)) <|
    .more (blanks (by simp)) <|
    .more (.blank (by simp) (@Gap.comment _ ['2'] _ (by simp) (.blank (by simp) .nil))) <|
    .more (blanks (by simp)) .last
  exact ⟨tokens, scanned, laid, layout_reads_same scanned laid⟩

end Lox.Source
