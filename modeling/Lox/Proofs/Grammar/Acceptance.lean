import Lox.Proofs.Grammar.Completeness.Sentence
import Lox.Proofs.Grammar.Nesting

namespace Lox.Grammar

open Filter
open Token (Kind)

def spelled (tokens : List Token) : List Kind :=
  (tokens.takeWhile fun token => !token.isEnd).map Token.kind

def Exhausted {α : Type} (result : Except SyntaxError α) : Prop :=
  ∃ error, result = .error error ∧ error.complaint = .tooDeep

theorem spelled_append {used rest : List Token} (inside : Kind.endOfInput ∉ used.map Token.kind)
    (atEnd : (front rest).isEnd = true) : spelled (used ++ rest) = used.map Token.kind := by
  have passed : ∀ token ∈ used, (!token.isEnd) = true := by
    intro token member
    have other : token.kind ≠ .endOfInput := fun same =>
      inside (same ▸ List.mem_map_of_mem member)
    simpa [Token.isEnd] using other
  have stopped : rest.takeWhile (fun token => !token.isEnd) = [] := by
    cases rest with
    | nil => rfl
    | cons token rest =>
      rw [front_cons] at atEnd
      simp [atEnd]
  rw [spelled, List.takeWhile_append_of_pos passed, stopped, List.append_nil]

theorem exists_spelled (tokens : List Token) :
    ∃ used rest, tokens = used ++ rest ∧ used.map Token.kind = spelled tokens ∧
      (front rest).kind = .endOfInput := by
  refine ⟨tokens.takeWhile fun token => !token.isEnd, tokens.dropWhile fun token => !token.isEnd,
    (List.takeWhile_append_dropWhile).symm, rfl, ?_⟩
  induction tokens with
  | nil => rfl
  | cons token tokens ih =>
    by_cases stops : token.isEnd = true
    · rw [List.dropWhile_cons_of_neg (by simp [stops])]
      simpa [Token.isEnd] using stops
    · rw [List.dropWhile_cons_of_pos (by simp [stops])]
      exact ih

section
variable {limit higher : Nat} {plain : Node → Bool}

theorem declarations_sound (bound tokens : List Token) (enough : tokens.length ≤ bound.length)
    (finished : (declarations limit plain bound tokens).fault = none) :
    ∃ (used rest : List Token) (parts : List Part), tokens = used ++ rest ∧ (front rest).isEnd = true ∧
      (∀ part ∈ parts, Sentence .declaration part.kinds part.node) ∧
      used.map Token.kind = parts.flatMap Part.kinds ∧
      (declarations limit plain bound tokens).statements = parts.map Part.node := by
  induction bound generalizing tokens with
  | nil =>
    obtain rfl : tokens = [] := by simpa using enough
    exact ⟨[], [], [], rfl, rfl, by simp, rfl, rfl⟩
  | cons _ bound ih =>
    rw [declarations] at finished ⊢
    by_cases atEnd : (front tokens).isEnd = true
    · rw [if_pos atEnd]
      exact ⟨[], tokens, [], rfl, atEnd, by simp, rfl, rfl⟩
    · rw [if_neg atEnd] at finished ⊢
      cases read : parse limit .declaration tokens with
      | error fault left => simp [read] at finished
      | ok statement left =>
        simp only [read] at finished ⊢
        by_cases accepted : plain statement = true
        · rw [if_pos accepted] at finished ⊢
          rcases parse_sound limit .declaration tokens statement left read with ⟨passed, rfl, sentence⟩
          have longer : 0 < passed.length := by
            have nonempty := (Sentence.starts sentence).ne_nil
            simpa [List.length_pos_iff] using nonempty
          rcases ih left (by simp at enough; omega) finished with
            ⟨used, rest, parts, rfl, atEnd, sentences, same, statements⟩
          refine ⟨passed ++ used, rest, ⟨passed.map Token.kind, statement⟩ :: parts, by simp, atEnd,
            ?_, by simp [same], by simp [statements]⟩
          intro part member
          rcases List.mem_cons.mp member with rfl | later
          · exact sentence
          · exact sentences part later
        · simp [accepted] at finished

theorem declarations_read (parts : List Part)
    (sentences : ∀ part ∈ parts, Sentence .declaration part.kinds part.node)
    (bound used rest : List Token) (spelled : used.map Token.kind = parts.flatMap Part.kinds)
    (enough : parts.length ≤ bound.length) (atEnd : (front rest).kind = .endOfInput) :
    ∀ᶠ limit in atTop, declarations limit (fun _ => true) bound (used ++ rest) =
      ⟨parts.map Part.node, rest, none⟩ := by
  induction parts generalizing bound used with
  | nil =>
    obtain rfl : used = [] := by simpa using spelled
    refine Eventually.of_forall fun limit => ?_
    cases bound with
    | nil => rfl
    | cons _ bound =>
      rw [List.nil_append, declarations, if_pos (by simp [Token.isEnd, atEnd])]
      rfl
  | cons part parts ih =>
    have later := fun part member => sentences part (List.mem_cons_of_mem _ member)
    rw [List.flatMap_cons] at spelled
    rcases List.map_eq_append_iff.mp spelled with ⟨inner, more, rfl, innerKinds, moreKinds⟩
    cases bound with
    | nil => simp at enough
    | cons _ bound =>
      have sentence := sentences part List.mem_cons_self
      have opens := sentence.starts_declaration.front_kind innerKinds (more ++ rest)
      have inside : (front (inner ++ (more ++ rest))).kind ≠ .endOfInput := ne_of_property opens rfl
      have first := sentence.reads inner (more ++ rest) innerKinds
        (declarations_stop later moreKinds (by simp [atEnd]))
      have others := ih later bound more moreKinds (by simpa using enough)
      filter_upwards [first, others] with limit firstRead othersRead
      rw [List.append_assoc, declarations, if_neg (by simp [Token.isEnd, inside]), firstRead]
      simp only [if_true, othersRead]
      rfl

theorem declarations_within (below : limit ≤ higher) (bound tokens : List Token) :
    (∃ left, (declarations limit plain bound tokens).fault = some (.rejected .tooDeep left)) ∨
      declarations higher plain bound tokens = declarations limit plain bound tokens := by
  induction bound generalizing tokens with
  | nil => exact .inr rfl
  | cons _ bound ih =>
    simp only [declarations]
    by_cases atEnd : (front tokens).isEnd = true
    · simp [atEnd]
    · simp only [if_neg atEnd]
      rcases parse_within below .declaration tokens with ⟨left, deep⟩ | same
      · exact .inl ⟨left, by rw [deep]; rfl⟩
      · rw [same]
        cases parse limit .declaration tokens with
        | error fault left => exact .inr rfl
        | ok statement left =>
          by_cases accepted : plain statement = true
          · simp only [if_pos accepted]
            rcases ih left with deep | others
            · exact .inl deep
            · exact .inr (by rw [others])
          · simp [accepted]

end

section
variable {limit : Nat} {tokens : List Token}

theorem program_eq_ok {statements : List Node} {rest : List Token} :
    program limit tokens = .ok statements rest ↔
      declarations limit (fun _ => true) tokens tokens = ⟨statements, rest, none⟩ := by
  simp only [program, readProgram]
  generalize declarations limit (fun _ => true) tokens tokens = reading
  rcases reading with ⟨listed, left, _ | fault⟩ <;> simp

theorem singleExpression_eq_ok {node : Node} {rest : List Token} :
    singleExpression limit tokens = .ok node rest ↔
      parse limit .expression tokens = .ok node rest ∧ (front rest).isEnd = true := by
  have unsettled {middle : List Token} {node : Node} :
      settled (parse limit .expression) tokens = .ok node middle ↔
        parse limit .expression tokens = .ok node middle := by
    simp only [settled]
    cases parse limit .expression tokens <;> simp
  simp only [singleExpression, bind_eq_ok, unsettled, atEnd, peek_eq_ok, pure_eq_ok]
  constructor
  · intro read
    rcases read with ⟨node, middle, read, _, _, ⟨_, _, ⟨rfl, rfl⟩, rfl, rfl⟩, finished⟩
    by_cases stops : (front middle).isEnd = true
    · rw [if_pos stops, pure_eq_ok] at finished
      rcases finished with ⟨rfl, rfl⟩
      exact ⟨read, stops⟩
    · rw [if_neg stops] at finished
      simp only [reject, bind_eq_ok] at finished
      obtain ⟨_, _, -, thrown⟩ := finished
      exact absurd thrown throw_ne_ok
  · intro read
    rcases read with ⟨read, stops⟩
    refine ⟨node, rest, read, _, _, ⟨_, _, ⟨rfl, rfl⟩, rfl, rfl⟩, ?_⟩
    rw [if_pos stops]
    exact pure_eq_ok.mpr ⟨rfl, rfl⟩

theorem read_eq_ok {α : Type} {parser : Parser α} {value : α}
    (ended : tokens.getLast?.any Token.isEnd) :
    read parser tokens = .ok value ↔ ∃ rest, parser tokens = .ok value rest := by
  rw [read, if_pos ended]
  cases parser tokens <;> simp

theorem ended_of_ok {α : Type} {parser : Parser α} {value : α}
    (returned : read parser tokens = .ok value) : tokens.getLast?.any Token.isEnd := by
  by_contra unended
  rw [read, if_neg unended] at returned
  cases returned

theorem parseProgram_sound {limit : Nat} {statements : List Node}
    (ended : tokens.getLast?.any Token.isEnd)
    (returned : parseProgram limit tokens = .ok statements) :
    Program (spelled tokens) statements := by
  rcases (read_eq_ok ended).mp returned with ⟨rest, read⟩
  have finished := program_eq_ok.mp read
  rcases declarations_sound tokens tokens le_rfl (by rw [finished]) with
    ⟨used, left, parts, rfl, atEnd, sentences, same, listed⟩
  have inside : Kind.endOfInput ∉ used.map Token.kind := by
    rw [same]
    simpa using fun part member => (sentences part member).inside
  rw [finished] at listed
  exact ⟨parts, sentences, (spelled_append inside atEnd).trans same, listed⟩

theorem parseExpression_sound {limit : Nat} {node : Node}
    (ended : tokens.getLast?.any Token.isEnd)
    (returned : parseExpression limit tokens = .ok node) :
    Phrase .assignment (spelled tokens) node := by
  rcases (read_eq_ok ended).mp returned with ⟨rest, read⟩
  rcases singleExpression_eq_ok.mp read with ⟨read, atEnd⟩
  rcases parse_sound limit .expression tokens node rest read with ⟨used, rfl, phrase⟩
  rw [spelled_append (Phrase.inside phrase) atEnd]
  exact phrase

theorem parseProgram_complete {statements : List Node} (ended : tokens.getLast?.any Token.isEnd)
    (derived : Program (spelled tokens) statements) :
    ∀ᶠ limit in atTop, parseProgram limit tokens = .ok statements := by
  rcases exists_spelled tokens with ⟨used, rest, split, usedKinds, atEnd⟩
  rcases derived with ⟨parts, sentences, same, rfl⟩
  have spells := usedKinds.trans same
  have room := length_le_of_flatMap rest spells fun part member =>
    (sentences part member).starts.ne_nil
  rw [← split] at room
  filter_upwards [declarations_read parts sentences tokens used rest spells room atEnd]
    with limit read
  rw [← split] at read
  exact (read_eq_ok ended).mpr ⟨rest, program_eq_ok.mpr read⟩

theorem parseExpression_complete {node : Node} (ended : tokens.getLast?.any Token.isEnd)
    (derived : Phrase .assignment (spelled tokens) node) :
    ∀ᶠ limit in atTop, parseExpression limit tokens = .ok node := by
  rcases exists_spelled tokens with ⟨used, rest, split, usedKinds, atEnd⟩
  filter_upwards [derived.reads.expression used rest usedKinds (by simp [atEnd, Level.continuing])]
    with limit read
  rw [← split] at read
  exact (read_eq_ok ended).mpr
    ⟨rest, singleExpression_eq_ok.mpr ⟨read, by simp [Token.isEnd, atEnd]⟩⟩

theorem read_within {α : Type} {parser other : Parser α}
    (each : (∃ token left, parser tokens = .error (.rejected .tooDeep token) left) ∨
      other tokens = parser tokens) :
    Exhausted (read parser tokens) ∨ read other tokens = read parser tokens := by
  by_cases ended : tokens.getLast?.any Token.isEnd
  · simp only [read, if_pos ended]
    rcases each with ⟨token, left, deep⟩ | same
    · rw [deep]
      exact .inl ⟨_, rfl, rfl⟩
    · exact .inr (by rw [same])
  · exact .inr (by simp only [read, if_neg ended])

section
variable {limit higher : Nat} (below : limit ≤ higher)
include below

theorem parseProgram_within : Exhausted (parseProgram limit tokens) ∨
    parseProgram higher tokens = parseProgram limit tokens := by
  refine read_within ?_
  simp only [program, readProgram]
  rcases @declarations_within limit higher (fun _ => true) below tokens tokens with ⟨left, deep⟩ | same
  · simp [deep]
  · exact .inr (by rw [same])

theorem parseExpression_within : Exhausted (parseExpression limit tokens) ∨
    parseExpression higher tokens = parseExpression limit tokens := by
  refine read_within ?_
  simp only [singleExpression, Bind.bind, EStateM.bind, settled]
  rcases parse_within below .expression tokens with ⟨left, deep⟩ | same
  · simp [deep, Fault.settle]
  · exact .inr (by rw [same])

end

/-- What a reader that is sound, and complete for limits that are large enough, returns within
its limit. -/
theorem returned_iff {α : Type} {reader : Nat → Except SyntaxError α} {derived : α → Prop}
    (sound : ∀ limit value, reader limit = .ok value → derived value)
    (complete : ∀ value, derived value → ∀ᶠ limit in atTop, reader limit = .ok value)
    (within : ∀ limit higher, limit ≤ higher →
      Exhausted (reader limit) ∨ reader higher = reader limit)
    (limit : Nat) (value : α) (finished : ¬ Exhausted (reader limit)) :
    reader limit = .ok value ↔ derived value := by
  constructor
  · exact sound limit value
  · intro derivation
    rcases eventually_atTop.mp (complete value derivation) with ⟨enough, reads⟩
    rcases within limit (max limit enough) (le_max_left _ _) with deep | same
    · exact absurd deep finished
    · rw [← same]
      exact reads _ (le_max_right _ _)

/-- A list of tokens that ends as it has to is read, as a program and as an expression, if and
only if the grammar derives the kinds before its first end, and then as the one tree that the
grammar derives. With limits from some limit on, no derivation comes to the limit. -/
theorem parse_iff_derived (ended : tokens.getLast?.any Token.isEnd) :
    (∀ limit statements, ¬ Exhausted (parseProgram limit tokens) →
      (parseProgram limit tokens = .ok statements ↔ Program (spelled tokens) statements)) ∧
    (∀ limit node, ¬ Exhausted (parseExpression limit tokens) →
      (parseExpression limit tokens = .ok node ↔ Phrase .assignment (spelled tokens) node)) ∧
    (∀ statements, Program (spelled tokens) statements →
      ∃ enough, ∀ limit, enough ≤ limit → parseProgram limit tokens = .ok statements) ∧
    (∀ node, Phrase .assignment (spelled tokens) node →
      ∃ enough, ∀ limit, enough ≤ limit → parseExpression limit tokens = .ok node) ∧
    (∀ statements others, Program (spelled tokens) statements → Program (spelled tokens) others →
      statements = others) ∧
    (∀ node other, Phrase .assignment (spelled tokens) node →
      Phrase .assignment (spelled tokens) other → node = other) := by
  refine ⟨?_, ?_, ?_, ?_, ?_, ?_⟩
  · exact returned_iff (fun _ _ => parseProgram_sound ended) (fun _ => parseProgram_complete ended)
      fun _ _ => parseProgram_within
  · exact returned_iff (fun _ _ => parseExpression_sound ended)
      (fun _ => parseExpression_complete ended) fun _ _ => parseExpression_within
  · exact fun _ derived => eventually_atTop.mp (parseProgram_complete ended derived)
  · exact fun _ derived => eventually_atTop.mp (parseExpression_complete ended derived)
  · intro statements others first second
    rcases ((parseProgram_complete ended first).and (parseProgram_complete ended second)).exists
      with ⟨limit, read, again⟩
    exact Except.ok.inj (read.symm.trans again)
  · intro node other first second
    rcases ((parseExpression_complete ended first).and
      (parseExpression_complete ended second)).exists with ⟨limit, read, again⟩
    exact Except.ok.inj (read.symm.trans again)

end

/-- In `if (a) if (b) c; else d;` the second `if` takes the `else`, and nothing else is derived. -/
theorem derived_iff_of_two_ifs :
    let tokens : List Token := [⟨.ifWord, "if", 1⟩, ⟨.leftParen, "(", 1⟩, ⟨.identifier "a", "a", 1⟩,
      ⟨.rightParen, ")", 1⟩, ⟨.ifWord, "if", 1⟩, ⟨.leftParen, "(", 1⟩, ⟨.identifier "b", "b", 1⟩,
      ⟨.rightParen, ")", 1⟩, ⟨.identifier "c", "c", 1⟩, ⟨.semicolon, ";", 1⟩,
      ⟨.elseWord, "else", 1⟩, ⟨.identifier "d", "d", 1⟩, ⟨.semicolon, ";", 1⟩, .endOfInput 1]
    tokens.getLast?.any Token.isEnd ∧
      ∀ statements, Program (spelled tokens) statements ↔
        statements = [.choice (.identifier "a")
          (.choice (.identifier "b") (.expression (.identifier "c"))
            (some (.expression (.identifier "d")))) none] := by
  intro tokens
  have ended : tokens.getLast?.any Token.isEnd := by decide
  have read : parseProgram 40 tokens = .ok [.choice (.identifier "a")
      (.choice (.identifier "b") (.expression (.identifier "c"))
        (some (.expression (.identifier "d")))) none] := rfl
  have finished : ¬ Exhausted (parseProgram 40 tokens) := by
    intro deep
    rcases deep with ⟨error, refused, -⟩
    rw [read] at refused
    cases refused
  refine ⟨ended, fun statements => ?_⟩
  rw [← (parse_iff_derived ended).1 40 statements finished, read]
  constructor
  · intro same
    exact (Except.ok.inj same).symm
  · intro same
    rw [same]

end Lox.Grammar
