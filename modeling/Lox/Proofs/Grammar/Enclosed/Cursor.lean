import Lox.Proofs.Grammar.Enclosed.Rounds

namespace Lox.Grammar

open Token (Kind)

section
variable {limit : Nat} {plain : Node → Bool} {previous other : Token} {request : Request}

theorem Request.parser_enclosed (tokens : List Token) :
    Enclosed (request.parser limit plain previous) tokens := by
  cases request with
  | peek => exact Enclosed.peek.map _
  | previous => exact .pure _
  | advance => exact Enclosed.advance.map _
  | atEnd => exact (Enclosed.peek.map Token.isEnd).map _
  | check name => exact Enclosed.peek.map _
  | accept names => exact Enclosed.acceptIf.map _
  | expect name => exact Enclosed.acceptIf.map _
  | consume name message => exact Enclosed.requireIf.map _
  | complain token message => exact .pure _
  | program => exact (plainProgram_enclosed tokens).map _
  | singleExpression => exact (singleExpression_enclosed tokens).map _
  | arguments callee => exact (Enclosed.arguments (parse_enclosed limit .expression)).map _
  | rule rule => exact (parse_enclosed limit rule tokens).map _

theorem Request.parser_previous (different : request ≠ .previous) :
    request.parser limit plain previous = request.parser limit plain other := by
  cases request <;> first | rfl | contradiction

theorem Fault.report_upToEnd (fault : Fault) : fault.upToEnd.report = fault.report := by
  cases fault with
  | tooDeep => rfl
  | rejected complaint rest =>
    simp only [upToEnd, report, error, front_upToEnd]

namespace Cursor

variable {here there cursor : Cursor} {tokens others used again : List Token}

structure On (tokens : List Token) (cursor : Cursor) : Prop where
  whole : cursor.tokens = tokens
  passed : Passed tokens cursor.rest

theorem ask_tokens : (here.ask limit plain request).2.tokens = here.tokens := by
  simp only [ask, run]
  cases request.parser limit plain here.previous here.rest <;> rfl

theorem ask_rest : (here.ask limit plain request).2.rest =
    left (request.parser limit plain here.previous here.rest) := by
  simp only [ask, run]
  cases request.parser limit plain here.previous here.rest <;> rfl

theorem ask_passed : Passed here.rest (here.ask limit plain request).2.rest := by
  rw [ask_rest]
  exact (Request.parser_enclosed here.rest).passed

theorem On.ask (on : here.On tokens) : (here.ask limit plain request).2.On tokens where
  whole := ask_tokens.trans on.whole
  passed := on.passed.trans ask_passed

theorem On.after (on : here.On tokens) (asked : List Request) :
    (here.after limit plain asked).On tokens := by
  induction asked generalizing here with
  | nil => exact on
  | cons request asked ih => exact ih on.ask

theorem position_of_split (on : here.On tokens) (split : tokens = used ++ here.rest) :
    here.position = used.length := by
  rw [position, on.whole, split, List.length_append]
  omega

theorem On.position_le (on : here.On tokens) : here.position ≤ tokens.findIdx Token.isEnd := by
  obtain ⟨used, split, inside⟩ := on.passed
  rw [position_of_split on split, split, List.findIdx_append]
  split
  · next found =>
    obtain ⟨token, member, ended⟩ := List.findIdx_lt_length.mp found
    exact absurd (List.mem_map.mpr ⟨token, member, isEnd_iff.mp ended⟩) inside
  · omega

theorem On.forward (on : here.On tokens) :
    here.position ≤ (here.ask limit plain request).2.position := by
  obtain ⟨used, split, -⟩ := on.passed
  obtain ⟨more, further, -⟩ := @ask_passed limit plain request here
  have later : tokens = (used ++ more) ++ (here.ask limit plain request).2.rest := by
    rw [List.append_assoc, ← further, ← split]
  rw [position_of_split on split, position_of_split on.ask later, List.length_append]
  omega

theorem On.progress (on : here.On tokens) {rule : Rule} {answer : Answer}
    (read : (here.ask limit plain (.rule rule)).1 = .ok answer) :
    here.position < (here.ask limit plain (.rule rule)).2.position := by
  have shorter : (here.ask limit plain (.rule rule)).2.rest.length < here.rest.length := by
    rw [ask_rest]
    simp only [Cursor.ask, run] at read
    cases parsed : (Request.rule rule).parser limit plain here.previous here.rest with
    | error fault rest =>
      rw [parsed] at read
      cases read
    | ok answer rest =>
      obtain ⟨node, middle, inner, finished⟩ := bind_eq_ok.mp parsed
      obtain ⟨-, rfl⟩ := pure_eq_ok.mp finished
      exact (parse_local limit rule).length_lt inner
  obtain ⟨used, split, -⟩ := on.passed
  have size : tokens.length = used.length + here.rest.length := by
    rw [← List.length_append, ← split]
  rw [position, position, on.whole, on.ask.whole]
  omega

theorem On.token (on : here.On tokens) (ended : ∃ token ∈ tokens, token.isEnd = true) :
    tokens[here.position]? = some (front here.rest) := by
  obtain ⟨used, split, inside⟩ := on.passed
  rw [position_of_split on split, split, List.getElem?_append_right (Nat.le_refl _), Nat.sub_self]
  cases rest : here.rest with
  | cons token after => rfl
  | nil =>
    rw [rest, List.append_nil] at split
    subst split
    obtain ⟨token, member, isEnd⟩ := ended
    exact absurd (List.mem_map.mpr ⟨token, member, isEnd_iff.mp isEnd⟩) inside

theorem On.token_previous (on : here.On tokens) (longer : tokens ≠ []) :
    tokens[if here.position = 0 then tokens.length - 1 else here.position - 1]? =
      some here.previous := by
  have filled {index : Nat} (inside : index < tokens.length) (token : Token) :
      tokens[index]? = some (tokens[index]?.getD token) := by
    rw [List.getElem?_eq_getElem inside, Option.getD_some]
  have size := List.length_pos_iff.mpr longer
  rw [previous, on.whole]
  split
  · rw [List.getLast?_eq_getElem?]
    exact filled (by omega) _
  · have bound : here.position ≤ tokens.length := by
      rw [position, on.whole]
      omega
    exact filled (by omega) _

theorem ask_alike (alike : upToEnd here.rest = upToEnd there.rest) :
    upToEnd (here.ask limit plain request).2.rest = upToEnd (there.ask limit plain request).2.rest ∧
      (request ≠ .previous ∨ here.previous = there.previous →
        (here.ask limit plain request).1 = (there.ask limit plain request).1) := by
  by_cases asked : request = .previous
  · subst asked
    refine ⟨alike, fun same => ?_⟩
    exact congrArg (fun token => Except.ok (Answer.token token)) (same.resolve_left (by simp))
  · have same : cutOff (request.parser limit plain here.previous here.rest) =
        cutOff (request.parser limit plain there.previous there.rest) := by
      rw [← (Request.parser_enclosed here.rest).cut, ← (Request.parser_enclosed there.rest).cut,
        alike, Request.parser_previous asked]
    simp only [ask, run]
    revert same
    cases request.parser limit plain here.previous here.rest <;>
      cases request.parser limit plain there.previous there.rest <;>
      simp only [cutOff, EStateM.Result.ok.injEq, EStateM.Result.error.injEq, reduceCtorEq,
        false_imp_iff]
    · rintro ⟨rfl, rests⟩
      exact ⟨rests, fun _ => rfl⟩
    · rintro ⟨faults, rests⟩
      refine ⟨rests, fun _ => ?_⟩
      have told := congrArg Fault.report faults
      rw [Fault.report_upToEnd, Fault.report_upToEnd] at told
      exact congrArg Except.error told

theorem after_alike (asked : List Request) (alike : upToEnd here.rest = upToEnd there.rest) :
    upToEnd (here.after limit plain asked).rest = upToEnd (there.after limit plain asked).rest := by
  induction asked generalizing here there with
  | nil => exact alike
  | cons request asked ih => exact ih (ask_alike alike).1

theorem On.split_alike (on : here.On tokens) (onOthers : there.On others)
    (same : upToEnd tokens = upToEnd others) (alike : upToEnd here.rest = upToEnd there.rest) :
    ∃ used, tokens = used ++ here.rest ∧ others = used ++ there.rest := by
  obtain ⟨used, split, inside⟩ := on.passed
  obtain ⟨again, splitOthers, insideOthers⟩ := onOthers.passed
  rw [split, splitOthers, upToEnd_append inside, upToEnd_append insideOthers, alike] at same
  obtain rfl := List.append_cancel_right same
  exact ⟨used, split, splitOthers⟩

theorem previous_alike (on : here.On tokens) (onOthers : there.On others)
    (split : tokens = used ++ here.rest) (splitOthers : others = used ++ there.rest)
    (moved : here.position ≠ 0) : here.previous = there.previous := by
  have position := position_of_split on split
  have positionOthers := position_of_split onOthers splitOthers
  have inside : used.length - 1 < used.length := by omega
  rw [previous, previous, if_neg moved, if_neg (by omega), position, positionOthers, on.whole,
    onOthers.whole, split, splitOthers, List.getElem?_append_left inside,
    List.getElem?_append_left inside]

theorem ofTokens_eq_ok (created : ofTokens tokens = .ok cursor) :
    cursor = ⟨tokens, tokens⟩ ∧ ∃ token ∈ tokens, token.isEnd = true := by
  rw [ofTokens] at created
  split at created
  · next ended =>
    cases created
    cases last : tokens.getLast? with
    | none => simp [last] at ended
    | some token => exact ⟨rfl, token, List.mem_of_getLast? last, by simpa [last] using ended⟩
  · cases created

end Cursor

/-- Whatever was asked of a cursor before, and whatever came of it: it stands in front of the first
end or at it, where the tokens that it looks at are; the next request moves it forward, if at all,
and a rule that returns has moved it; and the tokens behind the first end change no reply, except
that to a request for the token passed last when none was passed. So the loops over declarations and
over arguments come to an end, whatever tokens they start on. -/
theorem cursor_stays_inside {tokens : List Token} {cursor : Cursor}
    (created : Cursor.ofTokens tokens = .ok cursor) (limit : Nat) (plain : Node → Bool)
    (asked : List Request) :
    let here := cursor.after limit plain asked
    (here.position ≤ tokens.findIdx Token.isEnd ∧
      tokens[here.position]? = some (front here.rest) ∧
      tokens[if here.position = 0 then tokens.length - 1 else here.position - 1]? =
        some here.previous) ∧
    (∀ request, here.position ≤ (here.ask limit plain request).2.position) ∧
    (∀ rule answer, (here.ask limit plain (.rule rule)).1 = .ok answer →
      here.position < (here.ask limit plain (.rule rule)).2.position) ∧
    (∀ others twin, Cursor.ofTokens others = .ok twin → upToEnd others = upToEnd tokens →
      let there := twin.after limit plain asked
      there.position = here.position ∧
      ∀ request, request ≠ .previous ∨ here.position ≠ 0 →
        (there.ask limit plain request).1 = (here.ask limit plain request).1) ∧
    ∀ rest,
      Rounds (itemRound (fun kind => decide (kind = .endOfInput)) (plainDeclaration limit plain)) []
        rest (plainProgram limit plain rest) ∧
      Rounds (itemRound endsBlock (parse limit .declaration)) [] rest
        (items endsBlock (parse limit .declaration) rest) ∧
      ((front rest).kind ≠ .rightParen →
        Rounds (argumentRound (parse limit .expression)) [] rest
          (listedArguments (parse limit .expression) rest)) := by
  obtain ⟨rfl, ended⟩ := Cursor.ofTokens_eq_ok created
  intro here
  have begins (tokens : List Token) : Cursor.On tokens ⟨tokens, tokens⟩ := ⟨rfl, .refl tokens⟩
  have on : here.On tokens := (begins tokens).after asked
  have longer : tokens ≠ [] := by
    obtain ⟨token, member, -⟩ := ended
    exact List.ne_nil_of_mem member
  refine ⟨⟨on.position_le, on.token ended, on.token_previous longer⟩, fun _ => on.forward,
    fun _ _ => on.progress, fun others twin createdTwin same => ?_,
    fun rest => ⟨program_loop_ends, block_loop_ends, argument_loop_ends⟩⟩
  obtain ⟨rfl, -⟩ := Cursor.ofTokens_eq_ok createdTwin
  intro there
  have onOthers : there.On others := (begins others).after asked
  have alike : upToEnd there.rest = upToEnd here.rest := Cursor.after_alike asked same
  obtain ⟨used, splitOthers, split⟩ := onOthers.split_alike on same alike
  have position : there.position = here.position := by
    rw [Cursor.position_of_split on split, Cursor.position_of_split onOthers splitOthers]
  refine ⟨position, fun request known => (Cursor.ask_alike alike).2 ?_⟩
  refine known.imp_right fun moved => ?_
  exact Cursor.previous_alike onOthers on splitOthers split (by omega)

/-- A statement in front of an end that is not the last token, after a request that failed. -/
theorem statement_before_inner_end :
    let statement : List Token := [⟨.printWord, "print", 1⟩, ⟨.nilWord, "nil", 1⟩,
      ⟨.semicolon, ";", 1⟩, .endOfInput 1]
    let tokens := statement ++ [⟨.rightParen, ")", 2⟩, .endOfInput 2]
    let here := Cursor.after 20 (fun _ => true) [.consume "COMMA" "comma"] ⟨tokens, tokens⟩
    let there := Cursor.after 20 (fun _ => true) [.consume "COMMA" "comma"] ⟨statement, statement⟩
    Cursor.ofTokens tokens = .ok ⟨tokens, tokens⟩ ∧
    Cursor.ofTokens statement = .ok ⟨statement, statement⟩ ∧
    here.position ≤ tokens.findIdx Token.isEnd ∧ tokens.findIdx Token.isEnd = 3 ∧
    tokens[here.position]? = some (front here.rest) ∧
    (here.ask 20 (fun _ => true) (.rule .declaration)).1 = .ok (.node (.print (.literal .nil))) ∧
    here.position < (here.ask 20 (fun _ => true) (.rule .declaration)).2.position ∧
    there.position = here.position ∧
    (there.ask 20 (fun _ => true) (.rule .block)).1 =
      (here.ask 20 (fun _ => true) (.rule .block)).1 := by
  intro statement tokens here there
  have created : Cursor.ofTokens tokens = .ok ⟨tokens, tokens⟩ := rfl
  have createdTwin : Cursor.ofTokens statement = .ok ⟨statement, statement⟩ := rfl
  have returned : (here.ask 20 (fun _ => true) (.rule .declaration)).1 =
      .ok (.node (.print (.literal .nil))) := rfl
  obtain ⟨⟨inside, token, -⟩, -, progress, alike, -⟩ :=
    cursor_stays_inside created 20 (fun _ => true) [.consume "COMMA" "comma"]
  obtain ⟨position, replies⟩ := alike statement _ createdTwin rfl
  exact ⟨created, createdTwin, inside, rfl, token, returned, progress _ _ returned, position,
    replies _ (.inl (by simp))⟩

end
end Lox.Grammar
