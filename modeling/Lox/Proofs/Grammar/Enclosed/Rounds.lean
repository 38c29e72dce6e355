import Lox.Proofs.Grammar.Enclosed.Rule

/-!
The loops of the grammar end on all tokens. A loop goes round as long as its body asks for it, and
nothing says how often; that it ends is a finite list of its rounds, and what it comes to is what
the bounded recursion comes to.
-/
namespace Lox.Grammar

variable {α β : Type}

/-- The rounds of a loop up to its end. Its body makes another value to go round with, or the result
of the loop; the loop also ends where the body stops. -/
inductive Rounds (body : α → Parser (α ⊕ β)) :
    α → List Token → EStateM.Result Fault (List Token) β → Prop where
  | stopped {value : α} {tokens rest : List Token} {fault : Fault} :
    body value tokens = .error fault rest → Rounds body value tokens (.error fault rest)
  | last {value : α} {tokens rest : List Token} {result : β} :
    body value tokens = .ok (.inr result) rest → Rounds body value tokens (.ok result rest)
  | further {value next : α} {tokens middle : List Token}
    {outcome : EStateM.Result Fault (List Token) β} :
    body value tokens = .ok (.inl next) middle → Rounds body next middle outcome →
    Rounds body value tokens outcome

def itemRound (ends : Token.Kind → Bool) (item : Parser Node) (found : List Node) :
    Parser (List Node ⊕ List Node) := do
  if ends (← peek).kind then return .inr found else return .inl (found ++ [← item])

def argumentRound (expression : Parser Node) (found : List Node) :
    Parser (List Node ⊕ List Node) := do
  if 255 ≤ found.length then reject .tooManyArguments
  else do
    let argument ← expression
    if ← accept .comma then return .inl (found ++ [argument]) else return .inr (found ++ [argument])

section
variable {ends : Token.Kind → Bool} {item : Parser Node} {whole : Parser (List Node)}

theorem item_rounds
    (shape : ∀ tokens, whole tokens =
      if ends (front tokens).kind = true then .ok [] tokens
      else (do
        let first ← item
        let others ← whole
        return first :: others) tokens)
    (shorter : ∀ {tokens node rest}, item tokens = .ok node rest → rest.length < tokens.length)
    (found : List Node) (tokens : List Token) :
    Rounds (itemRound ends item) found tokens
      ((whole >>= fun others => pure (found ++ others)) tokens) := by
  induction size : tokens.length using Nat.strongRecOn generalizing tokens found with
  | ind size ih =>
    cases closed : ends (front tokens).kind with
    | true =>
      have none : whole tokens = .ok [] tokens := by rw [shape, if_pos closed]
      rw [bind_of_ok none, List.append_nil]
      apply Rounds.last
      rw [itemRound, peek_bind, if_pos closed]
      rfl
    | false =>
      have one : itemRound ends item found tokens =
          (item >>= fun node => pure (.inl (found ++ [node]))) tokens := by
        rw [itemRound, peek_bind, closed]
        rfl
      have more := shape tokens
      rw [closed, if_neg Bool.false_ne_true] at more
      cases read : item tokens with
      | error fault rest =>
        simp only [bind, EStateM.bind, read] at one more ⊢
        rw [more]
        exact .stopped one
      | ok node rest =>
        rw [bind_of_ok read] at one more
        have outcome : (whole >>= fun others => pure (found ++ others)) tokens =
            (whole >>= fun others => pure (found ++ [node] ++ others)) rest := by
          simp only [bind, EStateM.bind, more]
          cases whole rest with
          | error fault left => rfl
          | ok others left =>
            simp only [List.append_assoc]
            rfl
        rw [outcome]
        have less := shorter read
        exact .further one (ih rest.length (by omega) (found ++ [node]) rest rfl)

theorem item_rounds_nil
    (shape : ∀ tokens, whole tokens =
      if ends (front tokens).kind = true then .ok [] tokens
      else (do
        let first ← item
        let others ← whole
        return first :: others) tokens)
    (shorter : ∀ {tokens node rest}, item tokens = .ok node rest → rest.length < tokens.length)
    (tokens : List Token) : Rounds (itemRound ends item) [] tokens (whole tokens) := by
  have rounds := item_rounds shape shorter [] tokens
  simpa only [List.nil_append, bind_pure] using rounds

end

section
variable {expression : Parser Node} {found : List Node} {argument : Node}
  {tokens rest after : List Token} {token : Token}

theorem argumentRound_last (room : found.length < 255) (read : expression tokens = .ok argument rest)
    (other : (front rest).kind ≠ .comma) :
    argumentRound expression found tokens = .ok (.inr (found ++ [argument])) rest := by
  rw [argumentRound, if_neg (by omega), bind_of_ok read]
  exact accept_bind_other other

theorem argumentRound_further (room : found.length < 255)
    (read : expression tokens = .ok argument (token :: after)) (comma : token.kind = .comma) :
    argumentRound expression found tokens = .ok (.inl (found ++ [argument])) after := by
  rw [argumentRound, if_neg (by omega), bind_of_ok read]
  exact accept_bind_cons (by simp) comma

theorem furtherArguments_other {room : Nat} (other : (front rest).kind ≠ .comma) :
    furtherArguments expression room rest = .ok [] rest := by
  cases room <;> exact accept_bind_other other

theorem argument_round {room : Nat} (size : found.length < 255)
    (behind : ∀ argument token after, expression tokens = .ok argument (token :: after) →
      token.kind = .comma → Rounds (argumentRound expression) (found ++ [argument]) after
        ((furtherArguments expression room >>= fun others =>
          pure (found ++ argument :: others)) (token :: after))) :
    Rounds (argumentRound expression) found tokens ((do
      let argument ← expression
      let others ← furtherArguments expression room
      return found ++ argument :: others) tokens) := by
  cases read : expression tokens with
  | error fault rest =>
    simp only [bind, EStateM.bind, read]
    apply Rounds.stopped
    simp only [argumentRound, if_neg (by omega : ¬ 255 ≤ found.length), bind, EStateM.bind, read]
  | ok argument rest =>
    rw [bind_of_ok read]
    by_cases comma : (front rest).kind = .comma
    · obtain ⟨token, after, rfl, same⟩ := cons_of_front_kind comma (by simp)
      exact .further (argumentRound_further size read same) (behind argument token after read same)
    · rw [bind_of_ok (furtherArguments_other comma)]
      exact .last (argumentRound_last size read comma)

/-- The loop over arguments goes round at most once more for each argument that there is room for,
by induction on the room. -/
theorem argument_rounds {room : Nat} (size : found.length + room + 1 = 255) (tokens : List Token) :
    Rounds (argumentRound expression) found tokens ((do
      let argument ← expression
      let others ← furtherArguments expression room
      return found ++ argument :: others) tokens) := by
  -- found arguments and room make 255 throughout, so the room is used up as the loop gives up
  induction room generalizing found tokens with
  | zero =>
    refine argument_round (by omega) fun argument token after _ comma => ?_
    have full : furtherArguments expression 0 (token :: after) =
        reject .tooManyArguments after := accept_bind_cons (by simp) comma
    have refused : argumentRound expression (found ++ [argument]) after =
        reject .tooManyArguments after := by
      rw [argumentRound, if_pos]
      simp only [List.length_append, List.length_singleton]
      omega
    simp only [bind, EStateM.bind, full]
    exact .stopped refused
  | succ room ih =>
    refine argument_round (by omega) fun argument token after _ comma => ?_
    have one : furtherArguments expression (room + 1) (token :: after) = (do
        let argument ← expression
        let others ← furtherArguments expression room
        return argument :: others) after := accept_bind_cons (by simp) comma
    have larger : (found ++ [argument]).length + room + 1 = 255 := by
      simp only [List.length_append, List.length_singleton]
      omega
    have rounds := ih larger after
    have outcome : (furtherArguments expression (room + 1) >>= fun others =>
        pure (found ++ argument :: others)) (token :: after) = (do
          let next ← expression
          let others ← furtherArguments expression room
          return found ++ [argument] ++ next :: others) after := by
      simp only [bind, EStateM.bind, one]
      cases expression after with
      | error fault rest => rfl
      | ok next rest =>
        simp only []
        cases furtherArguments expression room rest with
        | error fault left => rfl
        | ok others left =>
          simp only [List.append_assoc]
          rfl
    rwa [outcome]

end

section
variable {limit : Nat} {plain : Node → Bool} {tokens : List Token}

theorem program_loop_ends :
    Rounds (itemRound (fun kind => decide (kind = .endOfInput)) (plainDeclaration limit plain)) []
      tokens (plainProgram limit plain tokens) :=
  item_rounds_nil plainProgram_shape plainDeclaration_shorter tokens

theorem block_loop_ends :
    Rounds (itemRound endsBlock (parse limit .declaration)) [] tokens
      (items endsBlock (parse limit .declaration) tokens) :=
  item_rounds_nil (items_shape (parse_local limit .declaration) rfl) declaration_shorter tokens

theorem argument_loop_ends {expression : Parser Node} (begins : (front tokens).kind ≠ .rightParen) :
    Rounds (argumentRound expression) [] tokens (listedArguments expression tokens) := by
  have rounds := @argument_rounds expression [] 254 rfl tokens
  rw [listedArguments_shape, if_neg (by simpa using begins)]
  simpa only [List.nil_append] using rounds

end
end Lox.Grammar
