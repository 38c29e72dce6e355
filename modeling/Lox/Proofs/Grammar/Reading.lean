import Lox.Grammar.Program

namespace Lox.Grammar

open Token (Kind)

variable {α β : Type} {tokens rest : List Token}

@[simp] theorem front_nil : (front []).kind = .endOfInput := rfl

@[simp] theorem front_cons (token : Token) : front (token :: rest) = token := rfl

theorem bind_eq_ok {parser : Parser α} {next : α → Parser β} {value : β} :
    (parser >>= next) tokens = .ok value rest ↔
      ∃ first middle, parser tokens = .ok first middle ∧ next first middle = .ok value rest := by
  simp only [bind, EStateM.bind]
  cases parser tokens with
  | ok first middle =>
    constructor
    · intro followed
      exact ⟨first, middle, rfl, followed⟩
    · intro read
      rcases read with ⟨_, _, same, followed⟩
      cases same
      exact followed
  | error fault left => simp

theorem bind_of_ok {parser : Parser α} {next : α → Parser β} {first : α} {middle : List Token}
    (read : parser tokens = .ok first middle) : (parser >>= next) tokens = next first middle := by
  simp only [bind, EStateM.bind, read]

theorem pure_eq_ok {value result : α} :
    (pure value : Parser α) tokens = .ok result rest ↔ value = result ∧ tokens = rest := by
  simp [pure, EStateM.pure]

theorem get_eq_ok {state : List Token} :
    (get : Parser (List Token)) tokens = .ok state rest ↔ tokens = state ∧ tokens = rest := by
  change EStateM.Result.ok tokens tokens = .ok state rest ↔ _
  rw [EStateM.Result.ok.injEq]

theorem throw_ne_ok {fault : Fault} {value : α} :
    ¬ (throw fault : Parser α) tokens = .ok value rest := by
  intro returned
  cases returned

theorem peek_eq_ok {token : Token} :
    peek tokens = .ok token rest ↔ front tokens = token ∧ tokens = rest := by
  simp only [peek, bind_eq_ok, get_eq_ok, pure_eq_ok]
  constructor
  · intro read
    rcases read with ⟨_, _, ⟨rfl, rfl⟩, rfl, rfl⟩
    exact ⟨rfl, rfl⟩
  · intro read
    rcases read with ⟨rfl, rfl⟩
    exact ⟨tokens, tokens, ⟨rfl, rfl⟩, rfl, rfl⟩

theorem advance_cons {token : Token} (inside : token.kind ≠ .endOfInput) :
    advance (token :: rest) = .ok token rest := by
  simp only [advance, peek, bind_eq_ok, get_eq_ok, pure_eq_ok]
  refine ⟨token, token :: rest, ⟨_, _, ⟨rfl, rfl⟩, rfl, rfl⟩, ?_⟩
  have notEnd : token.isEnd = false := by simpa [Token.isEnd] using inside
  simp only [notEnd]
  rfl

theorem advance_eq_ok {token : Token} (passed : advance tokens = .ok token rest) :
    token = front tokens ∧ (token.kind = .endOfInput ∨ tokens = token :: rest) := by
  by_cases atEnd : (front tokens).kind = .endOfInput
  · simp only [advance, peek, bind_eq_ok, get_eq_ok, pure_eq_ok] at passed
    rcases passed with ⟨_, _, ⟨_, _, ⟨rfl, rfl⟩, rfl, rfl⟩, stayed⟩
    simp only [Token.isEnd, atEnd, decide_true, if_true, pure_eq_ok] at stayed
    rcases stayed with ⟨rfl, -⟩
    exact ⟨rfl, .inl atEnd⟩
  · cases tokens with
    | nil => exact absurd rfl atEnd
    | cons first after =>
      rw [front_cons] at atEnd
      rw [advance_cons atEnd] at passed
      cases passed
      exact ⟨rfl, .inr rfl⟩

theorem cons_of_front_kind {kind : Kind} (found : (front tokens).kind = kind)
    (inside : kind ≠ .endOfInput) : ∃ token after, tokens = token :: after ∧ token.kind = kind := by
  cases tokens with
  | nil => exact absurd found.symm inside
  | cons token after => exact ⟨token, after, rfl, found⟩

section
variable {asked : Kind → Bool}

theorem acceptIf_cons {token : Token} (inside : token.kind ≠ .endOfInput)
    (wanted : asked token.kind = true) :
    acceptIf asked (token :: rest) = .ok (some token) rest := by
  simp only [acceptIf, bind_eq_ok, peek_eq_ok]
  refine ⟨token, token :: rest, ⟨rfl, rfl⟩, ?_⟩
  simp only [wanted, if_true, bind_eq_ok, pure_eq_ok]
  exact ⟨token, rest, advance_cons inside, rfl, rfl⟩

theorem acceptIf_other (unwanted : asked (front tokens).kind = false) :
    acceptIf asked tokens = .ok none tokens := by
  simp only [acceptIf, bind_eq_ok, peek_eq_ok]
  refine ⟨front tokens, tokens, ⟨rfl, rfl⟩, ?_⟩
  simp [unwanted, pure_eq_ok]

end

section
variable {kind : Kind}

theorem accept_cons {token : Token} (inside : token.kind ≠ .endOfInput) :
    accept token.kind (token :: rest) = .ok true rest := by
  simp only [accept, bind_eq_ok, pure_eq_ok]
  exact ⟨some token, rest, acceptIf_cons inside (by simp), rfl, rfl⟩

theorem accept_other (other : (front tokens).kind ≠ kind) :
    accept kind tokens = .ok false tokens := by
  simp only [accept, bind_eq_ok, pure_eq_ok]
  exact ⟨none, tokens, acceptIf_other (by simpa using other), rfl, rfl⟩

section
variable {yes no : Parser α}

theorem accept_bind_cons {token : Token} (inside : kind ≠ .endOfInput) (found : token.kind = kind) :
    (accept kind >>= fun found => if found = true then yes else no) (token :: rest) = yes rest := by
  subst found
  rw [bind_of_ok (accept_cons inside), if_pos rfl]

theorem accept_bind_other (other : (front tokens).kind ≠ kind) :
    (accept kind >>= fun found => if found = true then yes else no) tokens = no tokens := by
  rw [bind_of_ok (accept_other other), if_neg Bool.false_ne_true]

theorem accept_bind_eq_ok {value : α} (inside : kind ≠ .endOfInput) :
    (accept kind >>= fun found => if found = true then yes else no) tokens = .ok value rest ↔
      (∃ token after, tokens = token :: after ∧ token.kind = kind ∧
        yes after = .ok value rest) ∨
      ((front tokens).kind ≠ kind ∧ no tokens = .ok value rest) := by
  by_cases found : (front tokens).kind = kind
  · rcases cons_of_front_kind found inside with ⟨token, after, rfl, spelled⟩
    rw [accept_bind_cons inside spelled]
    constructor
    · intro followed
      exact .inl ⟨token, after, rfl, spelled, followed⟩
    · intro read
      rcases read with ⟨_, _, same, -, followed⟩ | ⟨other, -⟩
      · cases same
        exact followed
      · exact absurd found other
  · rw [accept_bind_other found]
    constructor
    · intro followed
      exact .inr ⟨found, followed⟩
    · intro read
      rcases read with ⟨token, after, rfl, spelled, -⟩ | ⟨-, followed⟩
      · exact absurd spelled found
      · exact followed

end

theorem require_eq_ok {what : String} {value : Unit} (inside : kind ≠ .endOfInput) :
    require kind what tokens = .ok value rest ↔
      ∃ token, tokens = token :: rest ∧ token.kind = kind := by
  simp only [require, requireIf, bind_eq_ok]
  by_cases found : (front tokens).kind = kind
  · rcases cons_of_front_kind found inside with ⟨token, after, rfl, rfl⟩
    rw [acceptIf_cons inside (by simp)]
    constructor
    · intro read
      rcases read with ⟨_, _, ⟨_, _, same, passed⟩, finished⟩
      cases same
      obtain ⟨rfl, rfl⟩ := pure_eq_ok.mp passed
      obtain ⟨-, rfl⟩ := pure_eq_ok.mp finished
      exact ⟨token, rfl, rfl⟩
    · intro read
      rcases read with ⟨_, same, -⟩
      cases same
      exact ⟨token, rest, ⟨some token, rest, rfl, rfl⟩, rfl⟩
  · rw [acceptIf_other (by simpa using found)]
    constructor
    · intro read
      rcases read with ⟨_, _, ⟨_, _, same, refused⟩, -⟩
      cases same
      simp only [reject, bind_eq_ok] at refused
      obtain ⟨_, _, -, thrown⟩ := refused
      exact absurd thrown throw_ne_ok
    · intro read
      rcases read with ⟨token, rfl, rfl⟩
      exact absurd rfl found

theorem require_cons {what : String} {token : Token} (inside : kind ≠ .endOfInput)
    (found : token.kind = kind) : require kind what (token :: rest) = .ok () rest :=
  (require_eq_ok inside).mpr ⟨token, rfl, found⟩

end

theorem requireName_eq_ok {what name : String} :
    requireName what tokens = .ok name rest ↔
      ∃ token, tokens = token :: rest ∧ token.kind = .identifier name := by
  simp only [requireName, bind_eq_ok, peek_eq_ok]
  constructor
  · intro read
    rcases read with ⟨_, _, ⟨rfl, rfl⟩, read⟩
    cases shape : (front tokens).kind with
    | identifier named =>
      obtain ⟨token, after, rfl, is⟩ := cons_of_front_kind shape (by simp)
      have passes := @advance_cons after token (by simp [is])
      simp only [shape, bind_eq_ok, pure_eq_ok, passes] at read
      rcases read with ⟨_, _, passed, rfl, rfl⟩
      cases passed
      exact ⟨token, rfl, is⟩
    | _ =>
      simp only [shape, reject, bind_eq_ok] at read
      obtain ⟨_, _, -, thrown⟩ := read
      exact absurd thrown throw_ne_ok
  · intro read
    rcases read with ⟨token, rfl, is⟩
    refine ⟨token, token :: rest, ⟨rfl, rfl⟩, ?_⟩
    simp only [is, bind_eq_ok, pure_eq_ok]
    exact ⟨token, rest, advance_cons (by simp [is]), trivial, rfl⟩

theorem peek_bind {choose : Token → Parser α} :
    (peek >>= choose) tokens = choose (front tokens) tokens :=
  bind_of_ok (peek_eq_ok.mpr ⟨rfl, rfl⟩)

theorem peek_bind_eq_ok {choose : Token → Parser α} {value : α} :
    (peek >>= choose) tokens = .ok value rest ↔ choose (front tokens) tokens = .ok value rest := by
  rw [peek_bind]

section
variable {operator? : Kind → Option Operator} {build : Node → Operator → Node → Node}
  {operand : Parser Node}

theorem furtherOperand_eq_ok {left : Node} {result : Option Node}
    (noEnd : operator? .endOfInput = none) :
    furtherOperand operator? build operand left tokens = .ok result rest ↔
      (∃ token after operator right, tokens = token :: after ∧
        operator? token.kind = some operator ∧ operand after = .ok right rest ∧
        result = some (build left operator right)) ∨
      (operator? (front tokens).kind = none ∧ result = none ∧ tokens = rest) := by
  simp only [furtherOperand, peek_bind_eq_ok]
  cases found : operator? (front tokens).kind with
  | none => simp only [pure_eq_ok]; grind [front_cons]
  | some operator =>
    have inside : (front tokens).kind ≠ .endOfInput := by
      intro atEnd
      simp [atEnd, noEnd] at found
    rcases cons_of_front_kind rfl inside with ⟨token, after, rfl, -⟩
    have passes := @advance_cons after token inside
    simp only [front_cons] at found
    constructor
    · intro read
      simp only [bind_eq_ok, pure_eq_ok, passes] at read
      rcases read with ⟨_, _, passed, right, _, operandRead, rfl, rfl⟩
      cases passed
      exact .inl ⟨token, after, operator, right, rfl, found, operandRead, rfl⟩
    · intro read
      rcases read with ⟨_, _, _, right, same, again, operandRead, rfl⟩ | ⟨missing, -⟩
      · cases same
        rw [found] at again
        cases again
        simp only [bind_eq_ok, pure_eq_ok, passes]
        exact ⟨token, after, rfl, right, rest, operandRead, rfl, rfl⟩
      · simp at missing

end

theorem furtherCall_eq_ok {expression : Parser Node} {callee : Node} {result : Option Node} :
    furtherCall expression callee tokens = .ok result rest ↔
      (∃ token after listed, tokens = token :: after ∧ token.kind = .leftParen ∧
        arguments expression after = .ok listed rest ∧ result = some (.call callee listed)) ∨
      ((front tokens).kind ≠ .leftParen ∧ result = none ∧ tokens = rest) := by
  simp only [furtherCall]
  rw [accept_bind_eq_ok (by simp)]
  simp only [bind_eq_ok, pure_eq_ok]
  grind

theorem announced_eq_ok {kind : Kind} {parser : Parser Node} {result : Option Node}
    (inside : kind ≠ .endOfInput) :
    announced kind parser tokens = .ok result rest ↔
      (∃ token after node, tokens = token :: after ∧ token.kind = kind ∧
        parser after = .ok node rest ∧ result = some node) ∨
      ((front tokens).kind ≠ kind ∧ result = none ∧ tokens = rest) := by
  simp only [announced]
  rw [accept_bind_eq_ok inside]
  simp only [bind_eq_ok, pure_eq_ok]
  grind

theorem clause_eq_ok {ends : Kind} {parser : Parser Node} {result : Option Node} :
    clause ends parser tokens = .ok result rest ↔
      ((front tokens).kind = ends ∧ result = none ∧ tokens = rest) ∨
      ((front tokens).kind ≠ ends ∧
        ∃ node, parser tokens = .ok node rest ∧ result = some node) := by
  simp only [clause, peek_bind_eq_ok]
  split
  · simp only [pure_eq_ok]
    grind
  · simp only [bind_eq_ok, pure_eq_ok]
    grind

theorem initializer_eq_ok {declaration evaluation : Parser Node} {result : Option Node} :
    initializer declaration evaluation tokens = .ok result rest ↔
      (∃ token, tokens = token :: rest ∧ token.kind = .semicolon ∧ result = none) ∨
      (∃ token after node, tokens = token :: after ∧ token.kind = .varWord ∧
        declaration after = .ok node rest ∧ result = some node) ∨
      ((front tokens).kind ≠ .semicolon ∧ (front tokens).kind ≠ .varWord ∧
        ∃ node, evaluation tokens = .ok node rest ∧ result = some node) := by
  simp only [initializer]
  rw [accept_bind_eq_ok (by simp), accept_bind_eq_ok (by simp)]
  simp only [bind_eq_ok, pure_eq_ok]
  grind [front_cons]

end Lox.Grammar
