import Lox.Proofs.Token.Seam

namespace Lox.Token

/-- What may stand between two lexemes: first a blank, then blanks and comments, each comment with
the line feed that ends it. -/
inductive Separator : List Char → Prop where
  | blank {c : Char} {rest : List Char} :
    c ∈ [' ', '\t', '\r', '\n'] → Gap false rest → Separator (c :: rest)

/-- The lexemes of tokens one after the other, with a separator between each two of them. -/
inductive LaidOut : List Token → List Char → Prop where
  | nil : LaidOut [] []
  | last {token : Token} : LaidOut [token] token.lexeme.toList
  | more {token next : Token} {others : List Token} {separator text : List Char} :
    Separator separator → LaidOut (next :: others) text →
    LaidOut (token :: next :: others) (token.lexeme.toList ++ (separator ++ text))

structure Alone (text : List Char) (kind : Kind) : Prop where
  pattern : Pattern text kind
  longest : ∀ other otherKind, Pattern other otherKind → other <+: text →
    other.length < text.length ∨ other = text ∧ otherKind = kind
  uncommented : ¬ ['/', '/'] <+: text

def unlined (tokens : List Token) : List (Kind × String) :=
  tokens.map fun token => (token.kind, token.lexeme)

section
variable {start : Nat} {source before behind text between : List Char} {piece : Piece} {token : Token}
  {tokens : List Token}

theorem Separator.gap (separator : Separator text) : Gap false text := by
  cases separator with
  | blank listed rest => exact .blank listed rest

theorem Piece.Cut.alone (cut : piece.Cut start before behind) :
    Alone piece.lexeme piece.token.kind where
  pattern := cut.pattern
  longest other kind pattern front :=
    cut.longest other kind pattern (front.trans (List.prefix_append _ behind))
  uncommented slashes := cut.uncommented (slashes.trans (List.prefix_append _ behind))

theorem alone_of_scan (scanned : scan source = .ok tokens) :
    ∃ inner line, tokens = inner ++ [endOfInput line] ∧
      ∀ token ∈ inner, Alone token.lexeme.toList token.kind := by
  rcases scan_eq_ok.mp scanned with ⟨pieces, last, parts⟩
  refine ⟨_, _, parts.spells, fun token member => ?_⟩
  rcases List.mem_map.mp member with ⟨piece, listed, rfl⟩
  rcases List.append_of_mem listed with ⟨before, after, split⟩
  exact (parts.cut before piece after split).alone

def lined (start : Nat) (between : List Char) (token : Token) : Token :=
  { token with line := (start + (between ++ token.lexeme.toList.dropLast).count '\n' : Nat) }

theorem Alone.cut (alone : Alone token.lexeme.toList token.kind) (gap : Gap false between) :
    Piece.Cut start [] ⟨between, lined start between token⟩ [] where
  gap := gap
  pattern := alone.pattern
  longest other kind pattern front := by
    rw [List.append_nil] at front
    exact alone.longest other kind pattern front
  uncommented slashes := by
    rw [List.append_nil] at slashes
    exact alone.uncommented slashes
  line := rfl

/-- Lexemes that are laid out anew are the pieces of the new text, by induction on the layout. A
separator is the gap of the piece behind it, and its first blank ends the lexeme in front of it. -/
theorem LaidOut.partition (laid : LaidOut tokens text)
    (alone : ∀ token ∈ tokens, Alone token.lexeme.toList token.kind) (gap : Gap false between) :
    ∃ pieces last later, Partition start (between ++ text) pieces last later ∧
      unlined later = unlined tokens ++ [(.endOfInput, "")] := by
  induction laid generalizing start between with
  | nil =>
    rw [List.append_nil]
    exact ⟨[], between, _, Partition.nil_iff.mpr ⟨rfl, gap.final, rfl⟩, rfl⟩
  | @last token =>
    have cut : Piece.Cut start [] ⟨between, lined start between token⟩ [] :=
      (alone token List.mem_cons_self).cut gap
    have ended {line : Nat} : Partition line [] [] [] [endOfInput (line + [].count '\n' : Nat)] :=
      Partition.nil_iff.mpr ⟨rfl, .nil, rfl⟩
    refine ⟨[_], [], _, Partition.cons_iff.mpr ⟨[], _, ?_, rfl, cut, ended⟩, rfl⟩
    rw [List.append_nil]
    rfl
  | @more token next others separator text separated laid ih =>
    have cut : Piece.Cut start [] ⟨between, lined start between token⟩ [] :=
      (alone token List.mem_cons_self).cut gap
    rcases ih (fun token member => alone token (List.mem_cons_of_mem _ member)) separated.gap with
      ⟨pieces, last, later, parts, same⟩
    -- its first blank ends this lexeme, and as a whole it is the gap of the next piece
    cases separated with
    | @blank c rest listed _ =>
      have cut : Piece.Cut start [] _ (c :: (rest ++ text)) :=
        cut.widen (outside_of_blank (isBlank_iff.mpr listed))
      refine ⟨_ :: pieces, last, _, Partition.cons_iff.mpr ⟨_, later, ?_, rfl, cut, parts⟩, ?_⟩
      · rw [← List.append_assoc]
        rfl
      · exact congrArg ((token.kind, token.lexeme) :: ·) same

theorem LaidOut.scanned (laid : LaidOut tokens.dropLast text) (scanned : scan source = .ok tokens) :
    ∃ again, scan text = .ok again ∧ unlined again = unlined tokens := by
  rcases alone_of_scan scanned with ⟨inner, line, rfl, alone⟩
  rw [List.dropLast_concat] at laid
  rcases laid.partition alone .nil with ⟨pieces, last, later, parts, same⟩
  refine ⟨later, scan_eq_ok.mpr ⟨pieces, last, parts⟩, same.trans ?_⟩
  rw [unlined, unlined, List.map_append]
  rfl

end
end Lox.Token
