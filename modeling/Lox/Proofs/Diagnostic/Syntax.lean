import Lox.Proofs.Diagnostic.Excerpt
import Lox.Proofs.Grammar.Enclosed.Rule
import Lox.Proofs.Source.Tracing

/-!
Where the caret of an error of the grammar stands: at the first place on the line of the rejected
token where the text of that token occurs (`caret_at_first_occurrence`). A token does not carry its
column, so the caret is left of it where its text occurs before it on the line.
-/
namespace Lox

namespace Diagnostic

variable {source : List Char} {line : Int} {lexeme : Option String} {column : Nat}

theorem columnOf_eq_succ (found : columnOf source line lexeme = column + 1) :
    ∃ sought, lexeme = some sought ∧ sought ≠ "" ∧ 1 ≤ line ∧
      Text.FirstAt sought.toList (lineAt source line.toNat) column := by
  cases lexeme with
  | none => cases found
  | some sought =>
    simp only [columnOf] at found
    split at found
    · cases found
    · next inside =>
      simp only [not_or, String.isEmpty_iff, Int.not_lt] at inside
      obtain ⟨some, positive⟩ := inside
      split at found
      · cases found
      · next text there =>
        have number : line.toNat - 1 = (line - 1).toNat := by omega
        have same : lineAt source line.toNat = text := by
          rw [lineAt, number, there]
          rfl
        refine ⟨sought, rfl, some, positive, same ▸ Text.firstAt_of_find? ?_⟩
        cases place : Text.find? sought.toList text with
        | none => cases place ▸ found
        | some offset =>
          rw [place] at found
          exact congrArg Option.some (Nat.succ.inj found)

theorem lineLabel_ne_caret (number blanks : Nat) (text mark : List Char) :
    lineLabel number ++ text ≠ List.replicate blanks ' ' ++ '^' :: mark := by
  intro same
  have each : ∀ digit < 10, digitChar digit ≠ ' ' ∧ digitChar digit ≠ '^' := by decide
  have written := @digits_all (fun c => c ≠ ' ' ∧ c ≠ '^') each number
  obtain ⟨first, others, split⟩ :=
    List.exists_cons_of_ne_nil (List.ne_nil_of_length_pos (length_digits_pos number))
  have printed := written first (split ▸ List.mem_cons_self)
  have start := congrArg (List.dropWhile (· == ' ')) same
  rw [lineLabel, split] at start
  simp [printed] at start

theorem column_of_caret {around : Int} {column : Int} {indent : Nat}
    (caret : List.replicate (6 + indent) ' ' ++ "^ Error here".toList ∈
      Text.lines (excerpt source line column around).toList) :
    column = indent + 1 := by
  rw [lines_excerpt] at caret
  split at caret
  · simp at caret
  · rcases shown_cases caret with ⟨number, same⟩ | ⟨positive, same⟩
    · exact absurd same.symm (lineLabel_ne_caret _ _ _ _)
    · have length := congrArg List.length same
      simp only [caretLine, List.length_append, List.length_replicate] at length
      omega

end Diagnostic

namespace Token

variable {start : Nat} {source last : List Char} {pieces before after : List Piece} {piece : Piece}
  {tokens earlier later : List Token} {token : Token}

theorem Partition.exists_piece (parts : Partition start source pieces last tokens)
    (split : tokens = earlier ++ token :: later) (some : token.lexeme ≠ "") :
    ∃ before piece after, pieces = before ++ piece :: after ∧ before.map Piece.token = earlier ∧
      piece.token = token := by
  have spelled := parts.spells.symm.trans split
  rcases List.eq_nil_or_concat later with rfl | ⟨others, final, rfl⟩
  · obtain ⟨-, same⟩ := List.append_inj' spelled rfl
    obtain ⟨rfl, -⟩ := List.cons.inj same
    exact absurd rfl some
  · rw [List.concat_eq_append, ← List.cons_append, ← List.append_assoc] at spelled
    obtain ⟨same, -⟩ := List.append_inj' spelled rfl
    obtain ⟨front, back, rfl, first, second⟩ := List.map_eq_append_iff.mp same
    obtain ⟨piece, more, rfl, here, -⟩ := List.map_eq_cons_iff.mp second
    exact ⟨front, piece, more, rfl, first, here⟩

def Piece.offset (before : List Piece) (piece : Piece) : Nat :=
  Text.lineOffset (before.flatMap Piece.text ++ piece.gap)

theorem Partition.lexeme_on_line (parts : Partition 1 source pieces last tokens)
    (split : pieces = before ++ piece :: after) (plain : '\n' ∉ piece.lexeme) :
    ∃ front behind : List Char,
      front.length = piece.offset before ∧
      Diagnostic.lineAt source piece.token.line.toNat = front ++ (piece.lexeme ++ behind) := by
  have covers := parts.covers
  rw [split, List.flatMap_append, List.flatMap_cons, Piece.text] at covers
  have line := (parts.cut before piece after split).line
  have ended : piece.lexeme.dropLast.count '\n' = 0 :=
    List.count_eq_zero.mpr fun member => plain ((List.dropLast_sublist _).mem member)
  rw [List.count_append, ended, Nat.add_zero] at line
  obtain ⟨front, behind, offset, there⟩ := Text.exists_line
    (before.flatMap Piece.text ++ piece.gap) plain (after.flatMap Piece.text ++ last)
  refine ⟨front, behind, offset, ?_⟩
  have same : source = before.flatMap Piece.text ++ piece.gap ++
      (piece.lexeme ++ (after.flatMap Piece.text ++ last)) := by
    rw [covers]
    simp only [List.append_assoc]
  rw [Diagnostic.lineAt, line, Int.toNat_natCast, Nat.add_sub_cancel_left, same, there]
  rfl

end Token

namespace Grammar

theorem fault_passed {limit : Nat} {plain : Node → Bool} {tokens rest : List Token}
    {complaint : Complaint}
    (refused : (readProgram limit plain tokens).fault = some (.rejected complaint rest)) :
    Passed tokens rest := by
  have stopped : plainProgram limit plain tokens =
      .error (.rejected complaint rest) (readProgram limit plain tokens).rest := by
    simp only [plainProgram, refused]
  exact (plainProgram_enclosed tokens).blamed _ _ _ stopped

end Grammar

namespace Source

open Diagnostic Grammar Token

def demand (limits : Limits) (traced : Bool) (statement : Node) : Bool :=
  !traced || traceable limits statement

/-- A caret in the excerpt of an error of the grammar stands on the line of the rejected token, at
the first place where the text of that token occurs on it. That is never right of the token, and it
is the token itself if and only if its text does not occur before it on the line. -/
theorem caret_at_first_occurrence {limits : Limits} {traced : Bool} {source : List Char}
    {tokens : List Token} {error : SyntaxError} {excerpt : String} {indent : Nat}
    (scanned : Source.tokens source = .ok tokens)
    (refused : (statements limits traced source tokens).2 = .error (.grammar error))
    (shown : error.excerpt = some excerpt)
    (caret : List.replicate (6 + indent) ' ' ++ "^ Error here".toList ∈
      Text.lines excerpt.toList) :
    ∃ (pieces : List Piece) (piece : Piece) (others : List Piece) (last : List Char)
      (later : List Token),
      Partition 1 source (pieces ++ piece :: others) last tokens ∧
      tokens = pieces.map Piece.token ++ piece.token :: later ∧
      (readProgram limits.parsing (demand limits traced) tokens).fault =
        some (.rejected error.complaint (piece.token :: later)) ∧
      Text.FirstAt piece.lexeme (lineAt source piece.token.line.toNat) indent ∧
      piece.lexeme <+: (lineAt source piece.token.line.toNat).drop (piece.offset pieces) ∧
      indent ≤ piece.offset pieces ∧
      (indent = piece.offset pieces ↔ ∀ place < piece.offset pieces,
        ¬ piece.lexeme <+: (lineAt source piece.token.line.toNat).drop place) := by
  rw [statements_eq_result scanned, Reading.result] at refused
  split at refused
  · cases refused
  · next fault faulty =>
    obtain rfl := SourceError.grammar.inj (Except.error.inj refused)
    obtain rfl := Option.some.inj shown
    have column := column_of_caret caret
    obtain ⟨sought, got, some, -, first⟩ := columnOf_eq_succ (Int.ofNat.inj column)
    cases fault with
    | tooDeep => exact absurd (Option.some.inj got).symm some
    | rejected complaint rest =>
      obtain ⟨used, rfl, -⟩ := fault_passed faulty
      cases rest with
      | nil => exact absurd (Option.some.inj got).symm some
      | cons token later =>
        obtain rfl : token.lexeme = sought := Option.some.inj got
        obtain ⟨pieces, last, parts⟩ := scan_eq_ok.mp (tokens_eq_ok.mp scanned)
        obtain ⟨before, piece, others, rfl, rfl, rfl⟩ := parts.exists_piece rfl some
        have plain : '\n' ∉ piece.lexeme := fun member =>
          plain_lineAt _ _ (List.mem_of_mem_drop (first.occurs.subset member))
        obtain ⟨front, behind, offset, line⟩ := parts.lexeme_on_line rfl plain
        have here : piece.lexeme <+: (lineAt source piece.token.line.toNat).drop front.length := by
          rw [line, List.drop_left]
          exact List.prefix_append _ _
        rw [offset] at here
        have most : indent ≤ piece.offset before := by
          by_contra after
          exact first.first (piece.offset before) (by omega) here
        refine ⟨before, piece, others, last, later, parts, rfl, faulty, first, here, most, ?_, ?_⟩
        · intro same
          exact same ▸ first.first
        · intro nowhere
          by_contra other
          exact nowhere indent (by omega) first.occurs

/-- The second of two names is rejected on a line of its own, and the caret stands under it. -/
theorem caret_under_name_on_next_line :
    let source := "print b\n  b;".toList
    let tokens := [⟨.printWord, "print", 1⟩, ⟨.identifier "b", "b", 1⟩, ⟨.identifier "b", "b", 2⟩,
      ⟨.semicolon, ";", 2⟩, .endOfInput 2]
    let error := (SyntaxError.atToken (.expected "';' after value")
      ⟨.identifier "b", "b", 2⟩).inSource source
    ∃ excerpt, Source.tokens source = .ok tokens ∧
      (statements .standard false source tokens).2 = .error (.grammar error) ∧
      error.excerpt = some excerpt ∧
      List.replicate (6 + 2) ' ' ++ "^ Error here".toList ∈ Text.lines excerpt.toList ∧
      ∃ pieces piece others last, Partition 1 source (pieces ++ piece :: others) last tokens ∧
        piece.token = ⟨.identifier "b", "b", 2⟩ ∧ piece.offset pieces = 2 := by
  intro source tokens error
  have scanned : Source.tokens source = .ok tokens := by decide +kernel
  have refused : (statements .standard false source tokens).2 = .error (.grammar error) := rfl
  have shown : error.excerpt = some (excerpt source 2 (columnOf source 2 "b") 2) := rfl
  have caret : List.replicate (6 + 2) ' ' ++ "^ Error here".toList ∈
      Text.lines (excerpt source 2 (columnOf source 2 "b") 2).toList := by decide +kernel
  refine ⟨_, scanned, refused, shown, caret, ?_⟩
  obtain ⟨pieces, piece, others, last, later, parts, -, faulty, -, here, -, -⟩ :=
    caret_at_first_occurrence scanned refused shown caret
  have rejected : (readProgram Limits.standard.parsing (demand .standard false) tokens).fault =
      some (.rejected (.expected "';' after value")
        [⟨.identifier "b", "b", 2⟩, ⟨.semicolon, ";", 2⟩, .endOfInput 2]) := rfl
  have same := (Fault.rejected.inj (Option.some.inj (rejected.symm.trans faulty))).2
  have token : piece.token = ⟨.identifier "b", "b", 2⟩ := (List.cons.inj same).1.symm
  have line : lineAt source 2 = [' ', ' ', 'b', ';'] := by decide +kernel
  have only (offset : Nat) (there : ['b'] <+: [' ', ' ', 'b', ';'].drop offset) : offset = 2 := by
    match offset with
    | 0 | 1 | 3 => exact absurd there (by decide)
    | 2 => rfl
    | more + 4 =>
      rw [List.drop_of_length_le (by simp)] at there
      cases List.prefix_nil.mp there
  have spelled : piece.lexeme = ['b'] := congrArg (fun token => token.lexeme.toList) token
  have number : piece.token.line.toNat = 2 := by rw [token]; rfl
  rw [spelled, number, line] at here
  exact ⟨pieces, piece, others, last, parts, token, only _ here⟩

/-- The second of two names is rejected on the line of the first one, and the caret stands under the
first one, two columns before the second. -/
theorem caret_not_at_rejected_token :
    ¬ ∀ (limits : Limits) (traced : Bool) (source : List Char) (tokens : List Token)
      (error : SyntaxError) (excerpt : String) (indent : Nat) (pieces : List Piece) (piece : Piece)
      (others : List Piece) (last : List Char) (later : List Token),
      Source.tokens source = .ok tokens →
      (statements limits traced source tokens).2 = .error (.grammar error) →
      error.excerpt = some excerpt →
      List.replicate (6 + indent) ' ' ++ "^ Error here".toList ∈ Text.lines excerpt.toList →
      Partition 1 source (pieces ++ piece :: others) last tokens →
      tokens = pieces.map Piece.token ++ piece.token :: later →
      (readProgram limits.parsing (demand limits traced) tokens).fault =
        some (.rejected error.complaint (piece.token :: later)) →
      indent = piece.offset pieces := by
  intro claimed
  have scanned : Source.tokens "a a".toList = .ok
      [⟨.identifier "a", "a", 1⟩, ⟨.identifier "a", "a", 1⟩, .endOfInput 1] := by decide +kernel
  have caret : List.replicate (6 + 0) ' ' ++ "^ Error here".toList ∈
      Text.lines (excerpt "a a".toList 1 (columnOf "a a".toList 1 "a") 2).toList := by
    decide +kernel
  have first : Piece.Cut 1 [] ⟨[], ⟨.identifier "a", "a", (1 : Nat)⟩⟩ " a".toList :=
    @cut_of_first? 1 "a a".toList ⟨.identifier "a", ['a'], " a".toList⟩ rfl
  have second : Piece.Cut 1 [] ⟨[' '], ⟨.identifier "a", "a", (1 : Nat)⟩⟩ [] :=
    @cut_of_first? 1 " a".toList ⟨.identifier "a", ['a'], []⟩ rfl
  have parts : Partition 1 "a a".toList
      ([⟨[], ⟨.identifier "a", "a", (1 : Nat)⟩⟩] ++
        [⟨[' '], ⟨.identifier "a", "a", (1 : Nat)⟩⟩]) []
      [⟨.identifier "a", "a", (1 : Nat)⟩, ⟨.identifier "a", "a", (1 : Nat)⟩, .endOfInput 1] :=
    Partition.cons_iff.mpr ⟨_, _, rfl, rfl, first,
      Partition.cons_iff.mpr ⟨_, _, rfl, rfl, second, Partition.nil_iff.mpr ⟨rfl, .nil, rfl⟩⟩⟩
  have same := claimed .standard false _ _ ((SyntaxError.atToken (.expected "';' after expression")
    ⟨.identifier "a", "a", 1⟩).inSource "a a".toList) _ 0 _ _ _ _ [.endOfInput 1] scanned rfl rfl
    caret parts rfl rfl
  exact absurd same (by decide)

end Source
end Lox
