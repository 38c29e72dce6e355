import Lox.Proofs.Source.Expression
import Lox.Session

namespace Lox

namespace Token

variable {rest whole fraction : List Char}

theorem scanFrom_front {c : Char} {lexeme : Lexeme} (line : Nat) (inside : isBlank c = false)
    (calm : c = '/' → Calm rest) (found : Lexeme.first? (c :: rest) = some lexeme)
    (unbroken : '\n' ∉ lexeme.spelling) :
    scanFrom line (c :: rest) = (scanFrom line lexeme.rest).map fun others =>
      ⟨lexeme.kind, String.ofList lexeme.spelling, line⟩ :: others := by
  have behind := afterGap_cons inside calm
  have between : gap (c :: rest) = [] := by
    have parts := gap_append_afterGap (c :: rest)
    rw [behind] at parts
    exact List.append_left_eq_self.mp parts
  have feeds : lexeme.spelling.count '\n' = 0 := List.count_eq_zero.mpr unbroken
  rw [scanFrom_eq, behind, between, found]
  simp only [List.count_nil, feeds, Nat.add_zero]

theorem scanFrom_minus (line : Nat) (calm : Calm rest) :
    scanFrom line ('-' :: rest) = (scanFrom line rest).map fun others =>
      ⟨.minus, "-", line⟩ :: others := by
  have found : Lexeme.first? ('-' :: rest) = some ⟨.minus, ['-'], rest⟩ :=
    symbol?_eq (by decide : ("-", Kind.minus) ∈ symbols) calm
  have unbroken : '\n' ∉ ['-'] := by decide
  exact scanFrom_front line rfl (fun slash => absurd slash (by decide)) found unbroken

theorem scanFrom_numeral (line : Nat) (started : whole ≠ []) (more : fraction ≠ [])
    (digits : ∀ c ∈ whole ++ fraction, Text.isDigit c = true) :
    scanFrom line (whole ++ '.' :: fraction) = .ok
      [⟨.number (Decimal.toNumber ⟨Text.digitsValue (whole ++ fraction), fraction.length⟩),
        String.ofList (whole ++ '.' :: fraction), line⟩, endOfInput line] := by
  have same := number_eq more digits Apart.nil
  rw [List.append_nil] at same
  have unbroken : '\n' ∉ whole ++ '.' :: fraction := by
    intro member
    have digit : '\n' ∈ whole ++ fraction := by simpa using member
    exact isDigit_not_reserved (digits '\n' digit) (by decide)
  rcases List.exists_cons_of_ne_nil started with ⟨c, others, rfl⟩
  have inside := isDigit_not_reserved (digits c List.mem_cons_self)
  have calm : c = '/' → Calm (others ++ '.' :: fraction) := by
    rintro rfl
    exact absurd (by decide) inside
  have found := @first?_digit (others ++ '.' :: fraction) c (digits c List.mem_cons_self)
  rw [← List.cons_append, same] at found
  have scanned := scanFrom_front line (not_blank inside) calm found unbroken
  have ended : scanFrom line [] = .ok [endOfInput line] := by
    rw [scanFrom_eq]
    rfl
  dsimp only at scanned
  rw [ended] at scanned
  exact scanned

end Token

namespace Number

variable {options : Options}

def IsNumeral (text : List Char) : Prop :=
  ∃ whole fraction : List Char, text = whole ++ '.' :: fraction ∧ whole ≠ [] ∧ fraction ≠ [] ∧
    ∀ c ∈ whole ++ fraction, c.isDigit = true

theorem IsNumeral.calm {text : List Char} (numeral : IsNumeral text) : Token.Calm text := by
  obtain ⟨whole, fraction, rfl, started, -, digits⟩ := numeral
  obtain ⟨first, others, rfl⟩ := List.exists_cons_of_ne_nil started
  have digit : first.isDigit = true := digits first List.mem_cons_self
  intro c front
  obtain rfl := Option.mem_some.mp front
  constructor <;> rintro rfl <;> exact absurd digit (by decide)

section
variable {decimal : Decimal} {rank : Fin finiteCount}

theorem text_numeral (denotes : decimal.toNumber = finite false rank) :
    IsNumeral decimal.text.toList ∧
    ∀ line : Nat, Token.scanFrom line decimal.text.toList = .ok
      [⟨.number (finite false rank), decimal.text, line⟩, .endOfInput line] := by
  obtain ⟨whole, fraction, written, started, more, digits, same⟩ := decimal.text_digits
  refine ⟨⟨whole, fraction, written, started, more, fun c member => ?_⟩, fun line => ?_⟩
  · have listed : c ∈ decimal.text.toList := by
      rw [written]
      exact ((List.sublist_cons_self '.' fraction).append_left whole).mem member
    rcases decimal.text_plain c listed with rfl | ascii
    · exact absurd (digits '.' member) (by decide)
    · exact ascii
  · have scanned := Token.scanFrom_numeral line started more digits
    rwa [← written, String.ofList_toList, same, denotes] at scanned

end

theorem shortest_numeral (rank : Fin finiteCount) :
    IsNumeral (shortest rank).text.toList ∧
    ∀ line : Nat, Token.scanFrom line (shortest rank).text.toList = .ok
      [⟨.number (finite false rank), (shortest rank).text, line⟩, .endOfInput line] :=
  text_numeral (toNumber_shortest rank)

def signTokens (negative : Bool) (line : Nat) : List Token :=
  if negative then [⟨.minus, "-", line⟩] else []

def signedLiteral (negative : Bool) (rank : Fin finiteCount) : Node :=
  let magnitude : Node := .literal (.number (finite false rank))
  if negative then .unary .minus magnitude else magnitude

section
variable {decimal : Decimal} {rank : Fin finiteCount}

theorem scan_signed (negative : Bool) (denotes : decimal.toNumber = finite false rank) :
    Token.scan (signText negative ++ decimal.text).toList = .ok (signTokens negative 1 ++
      [⟨.number (finite false rank), decimal.text, (1 : Nat)⟩, .endOfInput (1 : Nat)]) := by
  obtain ⟨numeral, scanned⟩ := text_numeral denotes
  rw [Token.scan, String.toList_append]
  cases negative with
  | false =>
    have same : (signText false).toList ++ decimal.text.toList = decimal.text.toList := rfl
    rw [same, scanned]
    rfl
  | true =>
    have signed : (signText true).toList ++ decimal.text.toList = '-' :: decimal.text.toList := rfl
    rw [signed, Token.scanFrom_minus 1 numeral.calm, scanned]
    rfl

/-- A sign is one more rule around the eleven that a literal is read by. -/
theorem expression_signed (room : 12 ≤ options.limits.parsing) (negative : Bool)
    (denotes : decimal.toNumber = finite false rank) :
    Source.expression options.limits (signText negative ++ decimal.text).toList =
      .ok (signedLiteral negative rank) := by
  have scanned := Source.tokens_eq_ok.mpr (scan_signed negative denotes)
  refine Source.expression_eq_ok.mpr ⟨_, scanned, ?_⟩
  obtain ⟨more, rules⟩ := Nat.exists_eq_add_of_le' room
  rw [rules]
  cases negative <;> rfl

end

theorem scan_finiteSource (negative : Bool) (rank : Fin finiteCount) :
    Token.scan (finiteSource negative rank).toList = .ok (signTokens negative 1 ++
      [⟨.number (finite false rank), (shortest rank).text, (1 : Nat)⟩, .endOfInput (1 : Nat)]) :=
  scan_signed negative (toNumber_shortest rank)

theorem expression_finiteSource (room : 12 ≤ options.limits.parsing) (negative : Bool)
    (rank : Fin finiteCount) :
    Source.expression options.limits (finiteSource negative rank).toList =
      .ok (signedLiteral negative rank) :=
  expression_signed room negative (toNumber_shortest rank)

theorem evaluate_literal (value : Value) {context : Context} (room : 1 ≤ context.depth)
    (world : World) :
    ∃ after, (Node.literal value).evaluate context world = .ok value after := by
  rw [Node.evaluate, Run.nested, if_pos room]
  simp only [bind, ReaderT.bind, EStateM.bind, Run.report_eq]
  exact ⟨_, rfl⟩

theorem evaluate_signedLiteral {context : Context} (room : 3 ≤ context.depth) (negative : Bool)
    (rank : Fin finiteCount) (world : World) :
    ∃ after, (signedLiteral negative rank).evaluate context world =
      .ok (.number (finite negative rank)) after := by
  cases negative with
  | false => exact evaluate_literal _ (by omega) world
  | true =>
    have outer : 1 ≤ context.depth := by omega
    have inner : 1 ≤ context.depth - 1 := by omega
    rw [signedLiteral, if_pos rfl, Node.evaluate, Run.nested, if_pos outer]
    simp only [bind, ReaderT.bind, EStateM.bind, Run.report_eq, Run.nested, if_pos inner]
    obtain ⟨after, magnitude⟩ := @evaluate_literal (.number (finite false rank))
      ⟨context.traced, context.limits, context.depth - 1 - 1⟩ (by dsimp only; omega) _
    rw [magnitude]
    exact ⟨after, rfl⟩

theorem evaluateSource_signed (depth : 3 ≤ options.limits.evaluating) {source : List Char}
    {negative : Bool} {rank : Fin finiteCount}
    (read : Source.expression options.limits source = .ok (signedLiteral negative rank))
    (tree : ScopeTree) :
    (Session.evaluateSource options source tree).result = .ok (.number (finite negative rank)) := by
  obtain ⟨after, value⟩ := @evaluate_signedLiteral
    ⟨options.traced, options.limits, options.limits.evaluating⟩ depth negative rank
    ⟨tree.chain 0, "", ""⟩
  simp only [Session.evaluateSource, read, Session.evaluate, Session.settled, Session.perform,
    value]
  rfl

/-- The source text of a finite number is a numeral, behind a minus if the number is negative. The
numeral is scanned as one token, and the value of the text as an expression is the number, which
for a zero includes its sign. -/
theorem finiteSource_exact (room : 12 ≤ options.limits.parsing)
    (depth : 3 ≤ options.limits.evaluating) (tree : ScopeTree) (negative : Bool)
    (rank : Fin finiteCount) :
    ∃ numeral : String, finiteSource negative rank = signText negative ++ numeral ∧
      IsNumeral numeral.toList ∧
      Token.scan numeral.toList =
        .ok [⟨.number (finite false rank), numeral, 1⟩, .endOfInput 1] ∧
      (Session.evaluateSource options (finiteSource negative rank).toList tree).result =
        .ok (.number (finite negative rank)) := by
  obtain ⟨numeral, -⟩ := shortest_numeral rank
  refine ⟨(shortest rank).text, rfl, numeral, scan_finiteSource false rank, ?_⟩
  have read := expression_finiteSource room negative rank
  obtain ⟨after, value⟩ := @evaluate_signedLiteral
    ⟨options.traced, options.limits, options.limits.evaluating⟩ depth negative rank
    ⟨tree.chain 0, "", ""⟩
  simp only [Session.evaluateSource, read, Session.evaluate, Session.settled, Session.perform,
    value]
  rfl

/-- The largest number below zero is written with a five in the 324th place after the point. -/
theorem least_subnormal_exact :
    let text := "-0." ++ String.ofList (List.replicate 323 '0') ++ "5"
    12 ≤ Limits.standard.parsing ∧ 3 ≤ Limits.standard.evaluating ∧ finiteSource true 1 = text ∧
      (Session.evaluateSource ⟨false, .standard⟩ text.toList .initial).result =
        .ok (.number (finite true 1)) := by
  have written : finiteSource true 1 =
      "-0." ++ String.ofList (List.replicate 323 '0') ++ "5" := by decide +kernel
  obtain ⟨-, -, -, -, value⟩ := @finiteSource_exact ⟨false, .standard⟩ (by decide) (by decide)
    .initial true 1
  rw [Fin.val_one, written] at value
  exact ⟨by decide, by decide, written, value⟩

end Number
end Lox
