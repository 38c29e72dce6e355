import Lox.Proofs.Grammar.Locality.Rule

namespace Lox.Grammar

open Token (Kind)

section
variable {limit : Nat} {plain : Node → Bool} {tokens rest left : List Token} {statement : Node}

theorem declaration_shorter (read : parse limit .declaration tokens = .ok statement left) :
    left.length < tokens.length :=
  (parse_local limit .declaration).length_lt read

theorem declarations_room (bound room : List Token) (enough : tokens.length ≤ bound.length)
    (larger : tokens.length ≤ room.length) :
    declarations limit plain bound tokens = declarations limit plain room tokens := by
  induction bound generalizing tokens room with
  | nil =>
    obtain rfl : tokens = [] := by simpa using enough
    cases room <;> rfl
  | cons _ bound ih =>
    cases room with
    | nil =>
      obtain rfl : tokens = [] := by simpa using larger
      rfl
    | cons _ room =>
      rw [List.length_cons] at enough larger
      simp only [declarations]
      cases read : parse limit .declaration tokens with
      | error fault left => rfl
      | ok statement left =>
        have shorter := declaration_shorter read
        have others := @ih left room (by omega) (by omega)
        simp only [others]

theorem readProgram_end (atEnd : (front tokens).isEnd = true) :
    readProgram limit plain tokens = ⟨[], tokens, none⟩ := by
  cases tokens with
  | nil => rfl
  | cons token after => rw [readProgram, declarations, if_pos atEnd]

theorem readProgram_error {fault : Fault} (inside : ¬ (front tokens).isEnd = true)
    (read : parse limit .declaration tokens = .error fault left) :
    readProgram limit plain tokens = ⟨[], left, some (fault.settle left)⟩ := by
  cases tokens with
  | nil => exact absurd rfl inside
  | cons token after => rw [readProgram, declarations, if_neg inside, read]

def Reading.behind (statements : List Node) (reading : Reading) : Reading :=
  { reading with statements := statements ++ reading.statements }

theorem readProgram_ok (inside : ¬ (front tokens).isEnd = true)
    (read : parse limit .declaration tokens = .ok statement left)
    (accepted : plain statement = true) :
    readProgram limit plain tokens = (readProgram limit plain left).behind [statement] := by
  have shorter := declaration_shorter read
  cases tokens with
  | nil => exact absurd rfl inside
  | cons token after =>
    rw [List.length_cons] at shorter
    rw [readProgram, declarations, if_neg inside, read]
    simp only [if_pos accepted]
    rw [declarations_room after left (by omega) (Nat.le_refl _)]
    rfl

theorem readProgram_ornate (inside : ¬ (front tokens).isEnd = true)
    (read : parse limit .declaration tokens = .ok statement left)
    (refused : ¬ plain statement = true) :
    readProgram limit plain tokens = ⟨[], left, some (.rejected .tooDeep left)⟩ := by
  cases tokens with
  | nil => exact absurd rfl inside
  | cons token after =>
    rw [readProgram, declarations, if_neg inside, read]
    simp only [if_neg refused]

end

theorem declarations_induction {limit : Nat} {motive : List Token → Prop}
    (ended : ∀ tokens, (front tokens).isEnd = true → motive tokens)
    (refused : ∀ tokens fault left, ¬ (front tokens).isEnd = true →
      parse limit .declaration tokens = .error fault left → motive tokens)
    (further : ∀ tokens statement left, ¬ (front tokens).isEnd = true →
      parse limit .declaration tokens = .ok statement left → motive left → motive tokens)
    (tokens : List Token) : motive tokens := by
  induction size : tokens.length using Nat.strongRecOn generalizing tokens with
  | ind size ih =>
    by_cases atEnd : (front tokens).isEnd = true
    · exact ended tokens atEnd
    · cases read : parse limit .declaration tokens with
      | error fault left => exact refused tokens fault left atEnd read
      | ok statement left =>
        have shorter := declaration_shorter read
        exact further tokens statement left atEnd read (ih left.length (by omega) left rfl)

theorem Reading.behind_eq {statement : Node} {statements : List Node} {rest : List Token}
    {fault : Option Fault} {reading : Reading}
    (same : reading.behind [statement] = ⟨statements, rest, fault⟩) :
    ∃ others, statements = statement :: others ∧ reading = ⟨others, rest, fault⟩ := by
  cases reading
  cases same
  exact ⟨_, rfl, rfl⟩

theorem front_inside {used again : List Token} (inside : Kind.endOfInput ∉ used.map Token.kind)
    (longer : used ≠ []) (alike : again.map Token.kind = used.map Token.kind) (other : List Token) :
    ¬ (front (again ++ other)).isEnd = true := by
  rcases List.exists_cons_of_ne_nil longer with ⟨token, left, rfl⟩
  rcases List.map_eq_cons_iff.mp alike with ⟨first, more, rfl, same, -⟩
  intro atEnd
  have kind : first.kind = .endOfInput := of_decide_eq_true atEnd
  exact inside (by simp [← same, kind])

inductive Refused (limit : Nat) (complaint : Complaint) (rest : List Token) : List Token → Prop where
  | here {tokens : List Token} :
    ¬ (front tokens).isEnd = true →
    Ends (parse limit .declaration tokens) (.refused complaint) rest →
    Refused limit complaint rest tokens
  | behind {tokens left : List Token} {statement : Node} :
    ¬ (front tokens).isEnd = true →
    parse limit .declaration tokens = .ok statement left →
    Refused limit complaint rest left →
    Refused limit complaint rest tokens

theorem refused_of_fault {limit : Nat} {complaint : Complaint} {tokens rest : List Token}
    (fault : (readProgram limit (fun _ => true) tokens).fault = some (.rejected complaint rest))
    (target : complaint ≠ .invalidTarget) (shallow : complaint ≠ .tooDeep) :
    Refused limit complaint rest tokens := by
  induction tokens using @declarations_induction limit with
  | ended tokens atEnd =>
    rw [readProgram_end atEnd] at fault
    cases fault
  | refused tokens found left inside read =>
    rw [readProgram_error inside read] at fault
    cases found with
    | tooDeep =>
      cases fault
      exact absurd rfl shallow
    | rejected complaint rest =>
      cases fault
      apply Refused.here inside
      rw [read]
      exact .refused target
  | further tokens statement left inside read ih =>
    rw [readProgram_ok inside read rfl] at fault
    exact .behind inside read (ih fault)

section
variable {limit : Nat} {plain : Node → Bool}

/-- A declaration that was read stays the first one of the program when other tokens come behind
it, unless they start with an `else` that it did not stand before. -/
theorem declaration_stays {tokens left : List Token} {statement : Node}
    (read : parse limit .declaration tokens = .ok statement left)
    (accepted : plain statement = true) :
    ∃ used, tokens = used ++ left ∧ Kind.endOfInput ∉ used.map Token.kind ∧
      ∀ again other, again.map Token.kind = used.map Token.kind →
        Agrees (· ≠ .elseWord) other left →
        readProgram limit plain (again ++ other) =
          (readProgram limit plain other).behind [statement] := by
  rcases parse_local limit .declaration _ _ _ (ends_returned.mpr read) with
    ⟨used, rfl, inside, passed, reread⟩
  refine ⟨used, rfl, inside, fun again other alike agrees => ?_⟩
  have first := ends_returned.mp (reread again other alike agrees)
  have further := front_inside inside (passed rfl statement rfl) alike other
  exact readProgram_ok further first accepted

theorem readProgram_returns {tokens rest : List Token} {statements : List Node}
    (finished : readProgram limit plain tokens = ⟨statements, rest, none⟩) :
    ∃ used, tokens = used ++ rest ∧ Kind.endOfInput ∉ used.map Token.kind ∧
      (front rest).kind = .endOfInput ∧
      ∀ again other, again.map Token.kind = used.map Token.kind → (front other).kind ≠ .elseWord →
        readProgram limit plain (again ++ other) =
          (readProgram limit plain other).behind statements := by
  induction tokens using @declarations_induction limit generalizing statements with
  | ended tokens atEnd =>
    rw [readProgram_end atEnd] at finished
    cases finished
    refine ⟨[], rfl, by simp, by simpa [Token.isEnd] using atEnd, fun again other alike _ => ?_⟩
    rw [List.map_eq_nil_iff.mp alike]
    rfl
  | refused tokens fault left inside read =>
    rw [readProgram_error inside read] at finished
    cases finished
  | further tokens statement left inside read ih =>
    by_cases accepted : plain statement = true
    · rw [readProgram_ok inside read accepted] at finished
      rcases Reading.behind_eq finished with ⟨others, rfl, later⟩
      rcases declaration_stays read accepted with ⟨used, rfl, passed, stays⟩
      rcases ih later with ⟨more, rfl, morePassed, ends, reread⟩
      refine ⟨used ++ more, by simp, by simp [passed, morePassed], ends,
        fun again other alike begins => ?_⟩
      rw [List.map_append] at alike
      rcases List.map_eq_append_iff.mp alike with ⟨once, twice, rfl, onceAlike, twiceAlike⟩
      have agrees : Agrees (· ≠ .elseWord) (twice ++ other) (more ++ rest) :=
        Agrees.append (.inr begins) twiceAlike fun _ _ => id
      rw [List.append_assoc, stays once _ onceAlike agrees, reread twice other twiceAlike begins]
      rfl
    · rw [readProgram_ornate inside read accepted] at finished
      cases finished

/-- A program that is refused at a token is refused at any other token of the same kind behind the
same tokens. -/
theorem readProgram_refuses {tokens rest : List Token} {complaint : Complaint}
    (refused : Refused limit complaint rest tokens) :
    ∃ used, tokens = used ++ rest ∧ Kind.endOfInput ∉ used.map Token.kind ∧
      ∀ again other, again.map Token.kind = used.map Token.kind →
        (front other).kind = (front rest).kind →
        (readProgram limit (fun _ => true) (again ++ other)).fault =
          some (.rejected complaint other) := by
  induction refused with
  | here inside ends =>
    rcases parse_local limit .declaration _ _ _ ends with ⟨used, rfl, passed, -, reread⟩
    refine ⟨used, rfl, passed, fun again other alike same => ?_⟩
    have begins : Agrees (fun _ => False) (again ++ other) (used ++ rest) :=
      Agrees.append (.inl same) alike fun _ _ => id
    have further : ¬ (front (again ++ other)).isEnd = true := by
      rw [Token.isEnd, begins.resolve_right id]
      exact inside
    rcases ends_refused (reread again other alike (.inl same)) with ⟨left, read⟩
    rw [readProgram_error further read]
    rfl
  | behind inside read _ ih =>
    rcases @declaration_stays limit (fun _ => true) _ _ _ read rfl with ⟨used, rfl, passed, stays⟩
    rcases ih with ⟨more, rfl, morePassed, reread⟩
    refine ⟨used ++ more, by simp, by simp [passed, morePassed], fun again other alike same => ?_⟩
    rw [List.map_append] at alike
    rcases List.map_eq_append_iff.mp alike with ⟨once, twice, rfl, onceAlike, twiceAlike⟩
    have agrees : Agrees (· ≠ .elseWord) (twice ++ other) (more ++ rest) :=
      Agrees.append (.inl same) twiceAlike fun _ _ => id
    rw [List.append_assoc, stays once _ onceAlike agrees]
    exact reread twice other twiceAlike same

end
end Lox.Grammar
