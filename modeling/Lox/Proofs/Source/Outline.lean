import Lox.Proofs.Grammar.Carried
import Lox.Proofs.Node.Outline
import Lox.Proofs.Source.Program

/-!
Programs with one outline are equal: `outline_unambiguous`. A line shows all that its node carries,
since names and numbers have no parentheses in them, strings no quotes, and a literal is what its
text is scanned as; how far the parts of a node go on is seen from the indentation.
-/
namespace Lox

open Token (Kind)
open Text (Delimited)

theorem Operator.ofSymbol?_symbol (operator : Operator) :
    ofSymbol? operator.symbol = some operator := by
  cases operator <;> decide

theorem Operator.symbol_injective : Function.Injective Operator.symbol := by
  intro operator other same
  have found := congrArg ofSymbol? same
  rw [ofSymbol?_symbol, ofSymbol?_symbol] at found
  exact Option.some.inj found

namespace Grammar

section
variable {kind other : Kind} {value content : Value}

theorem readBack_cases (scanned : kind.Scanned) :
    kind.readBack = kind ∨ kind = .number (.infinite false) := by
  cases kind with
  | number value =>
    rcases scanned with rfl | ⟨rank, rfl⟩
    · exact .inr rfl
    · exact .inl rfl
  | _ => exact .inl rfl

/-- What literals read back as tells them apart. The infinite number reads back as a name, and no
literal is a name. -/
theorem literal_of_readBack (found : literal? kind = some value) (scanned : kind.Scanned)
    (also : literal? other = some content) (alsoScanned : other.Scanned)
    (same : kind.readBack = other.readBack) : value = content := by
  rcases readBack_cases scanned with own | rfl
  · rcases readBack_cases alsoScanned with alsoOwn | rfl
    · rw [own, alsoOwn] at same
      rw [same] at found
      exact Option.some.inj (found.symm.trans also)
    · rw [own] at same
      rw [same] at found
      cases found
  · rcases readBack_cases alsoScanned with alsoOwn | rfl
    · rw [alsoOwn] at same
      rw [← same] at also
      cases also
    · exact Option.some.inj (found.symm.trans also)

/-- Literals with one text are equal, as they are what the text is scanned as. -/
theorem literal_source_unique (found : literal? kind = some value) (scanned : kind.Scanned)
    (also : literal? other = some content) (alsoScanned : other.Scanned)
    (same : value.source = content.source) : value = content := by
  have first := (literal_spells found scanned).scans [] [] Token.Apart.nil Token.Scans.nil
  have second := (literal_spells also alsoScanned).scans [] [] Token.Apart.nil Token.Scans.nil
  rw [same] at first
  obtain ⟨tokens, read, kinds⟩ := first 1
  obtain ⟨others, again, alsoKinds⟩ := second 1
  obtain rfl : tokens = others := Except.ok.inj (read.symm.trans again)
  rw [kinds] at alsoKinds
  exact literal_of_readBack found scanned also alsoScanned (List.cons.inj alsoKinds).1

theorem literal_delimited (found : literal? kind = some value) (scanned : kind.Scanned) :
    Delimited value.source.toList := by
  revert found
  fun_cases literal? kind <;> intro found <;> cases found
  · exact .bare (by simp [Value.source])
  · exact .bare (by simp [Value.source])
  · exact .bare (by simp [Value.source])
  · rcases scanned with rfl | ⟨rank, rfl⟩
    · exact .bare (by simp [Value.source, Number.source, Number.display, Number.signText])
    · refine .bare fun c member => ?_
      have written : c ∈ (Number.shortest rank).text.toList := by
        simpa [Value.source, Number.source, Number.finiteSource, Number.signText] using member
      rcases (Number.shortest rank).text_plain c written with rfl | digit
      · decide
      · constructor <;> rintro rfl <;> exact absurd digit (by decide)
  · rw [Value.source, Value.quote, String.toList_append, String.toList_append]
    exact .quoted scanned

end
end Grammar

namespace Node

theorem word_delimited {name : String} (word : Token.isWord name = true) :
    Delimited name.toList := by
  refine .bare fun c member => ?_
  have part := Token.isWordPart_of_isWord word c member
  constructor <;> rintro rfl <;> exact absurd part (by decide)

theorem Carries.delimited {node : Node} (carries : node.Carries) :
    ∀ text ∈ node.inscription, Delimited text.toList := by
  have signs (operator : Operator) : Delimited operator.symbol.toList :=
    .bare (by cases operator <;> simp [Operator.symbol])
  cases node with
  | literal value =>
    obtain ⟨kind, scanned, found⟩ := carries
    simpa [inscription] using Grammar.literal_delimited found scanned
  | identifier name | assign name _ | declare name _ =>
    simpa [inscription] using word_delimited carries.1
  | unary operator _ | binary _ operator _ | logical _ operator _ =>
    simpa [inscription] using signs operator
  | _ => simp [inscription]

section
variable {node other : Node}

theorem eq_of_shown (own : node.Carries) (also : other.Carries) (label : node.label = other.label)
    (inscription : node.inscription = other.inscription)
    (children : node.children = other.children) : node = other := by
  have optional : Function.Injective (@Option.toList Node) := by
    intro first second same
    cases first <;> cases second <;> simp at same
    · rfl
    · rw [same]
  cases node <;> cases other <;> simp [Node.label] at label
  case literal.literal value content =>
    obtain ⟨kind, scanned, found⟩ := own
    obtain ⟨again, alsoScanned, alsoFound⟩ := also
    have same : value.source = content.source := Option.some.inj inscription
    rw [Grammar.literal_source_unique found scanned alsoFound alsoScanned same]
  all_goals
    simp only [Node.inscription, Node.children, Option.some.injEq, List.cons.injEq,
      Operator.symbol_injective.eq_iff, optional.eq_iff] at inscription children
    simp [inscription, children]

/-- A tree is determined, with the text behind it, by a text that its outline starts. -/
def Recovered (node : Node) : Prop :=
  ∀ (other : Node) (indent : Nat) (rest behind : List Char), other.Scanned →
    Outdented (indent + 1) rest → Outdented (indent + 1) behind →
    (node.outline indent).toList ++ rest = (other.outline indent).toList ++ behind →
    node = other ∧ rest = behind

theorem outlines_cut {nodes others : List Node} {indent : Nat} {rest behind : List Char}
    (each : ∀ node ∈ nodes, node.Recovered) (scanned : ∀ other ∈ others, other.Scanned)
    (leaves : Outdented indent rest) (alsoLeaves : Outdented indent behind)
    (same : (outlines indent nodes).toList ++ rest = (outlines indent others).toList ++ behind) :
    nodes = others ∧ rest = behind := by
  induction nodes generalizing others with
  | nil =>
    cases others with
    | nil => exact ⟨rfl, same⟩
    | cons other more =>
      have goesOn : rest = (outlines indent (other :: more)).toList ++ behind := same
      rw [goesOn] at leaves
      exact absurd leaves (not_outdented indent other more behind)
  | cons node nodes ih =>
    cases others with
    | nil =>
      have goesOn : (outlines indent (node :: nodes)).toList ++ rest = behind := same
      rw [← goesOn] at alsoLeaves
      exact absurd alsoLeaves (not_outdented indent node nodes rest)
    | cons other others =>
      rw [List.forall_mem_cons] at each scanned
      rw [outlines, outlines, String.toList_append, String.toList_append, List.append_assoc,
        List.append_assoc] at same
      obtain ⟨rfl, after⟩ := each.1 other indent _ _ scanned.1 (outdented_outlines nodes leaves)
        (outdented_outlines others alsoLeaves) same
      obtain ⟨rfl, behind⟩ := ih each.2 scanned.2 after
      exact ⟨rfl, behind⟩

/-- By induction on the tree: the line of the root tells what the root carries, and the parts are
recovered from the lines below. -/
theorem Scanned.recovered (scanned : node.Scanned) : node.Recovered := by
  induction scanned with
  | @intro node own parts ih =>
    rintro other indent rest behind ⟨also, alsoParts⟩ leaves alsoLeaves same
    rw [outline_eq, outline_eq, String.toList_append, String.toList_append, List.append_assoc,
      List.append_assoc] at same
    obtain ⟨label, inscription, below⟩ := outlineLine_cut own.delimited also.delimited same
    obtain ⟨children, after⟩ := outlines_cut ih alsoParts leaves alsoLeaves below
    exact ⟨eq_of_shown own also label inscription children, after⟩

end

theorem outlines_injective {nodes others : List Node} {indent : Nat}
    (scanned : ∀ node ∈ nodes, node.Scanned) (also : ∀ other ∈ others, other.Scanned)
    (same : outlines indent nodes = outlines indent others) : nodes = others := by
  have ended : Outdented indent [] := .inl rfl
  have texts := congrArg (String.toList · ++ []) same
  exact (outlines_cut (fun node member => (scanned node member).recovered) also ended ended texts).1

theorem allAgree_self {nodes : List Node} (each : ∀ node ∈ nodes, node.agrees node = true) :
    allAgree nodes nodes = true := by
  induction nodes with
  | nil => rfl
  | cons node rest ih =>
    rw [List.forall_mem_cons] at each
    rw [allAgree, each.1, ih each.2, Bool.and_self]

theorem literal_agrees_self {kind : Kind} {value : Value}
    (found : Grammar.literal? kind = some value) (scanned : kind.Scanned) :
    value.agrees value = true := by
  revert found
  fun_cases Grammar.literal? kind <;> intro found <;> cases found
  case case4 value =>
    rcases scanned with rfl | ⟨rank, rfl⟩ <;>
      simp [Value.agrees, Number.equal, Number.related, Number.key]
  all_goals simp [Value.agrees]

theorem Scanned.agrees_self {node : Node} (scanned : node.Scanned) : node.agrees node = true := by
  induction scanned with
  | @intro node own parts ih =>
    match node with
    | literal value =>
      obtain ⟨kind, scanned, found⟩ := own
      exact literal_agrees_self found scanned
    | foreign => exact own.elim
    | identifier _ | declare _ none => simp [agrees]
    | assign _ _ | unary _ _ | grouping _ | expression _ | print _ | declare _ (some _)
    | binary _ _ _ | logical _ _ _ | choice _ _ none | choice _ _ (some _) =>
      simp only [children, Option.toList_none, Option.toList_some, List.forall_mem_cons] at ih
      simp [agrees, ih]
    | call _ _ | loop _ _ =>
      rw [children, List.forall_mem_cons] at ih
      rw [agrees, ih.1, allAgree_self ih.2, Bool.and_self]
    | block _ => exact allAgree_self ih

end Node

namespace Source

/-- Programs that were read from whatever sources are equal, if the outlines of their statements, one
after the other, are equal texts. -/
theorem outline_unambiguous {limits otherLimits : Limits} {source text : List Char}
    {statements others : List Node} (read : program limits source = .ok statements)
    (also : program otherLimits text = .ok others)
    (same : String.join (statements.map (Node.outline 0)) =
      String.join (others.map (Node.outline 0))) :
    statements = others ∧ Node.allAgree statements others = true := by
  obtain ⟨kinds, derived, scanned⟩ := program_derived read
  obtain ⟨again, alsoDerived, alsoScanned⟩ := program_derived also
  have carried := derived.scanned scanned
  have alsoCarried := alsoDerived.scanned alsoScanned
  rw [← Node.outlines_eq_join, ← Node.outlines_eq_join] at same
  obtain rfl := Node.outlines_injective carried alsoCarried same
  exact ⟨rfl, Node.allAgree_self fun node member => (carried node member).agrees_self⟩

/-- The second source is laid out otherwise and writes its number with one more digit. Some lines of
the outline are lines of the string. -/
theorem call_with_string_unambiguous :
    let source := "f(\"\n    Literal(nil)\n\", 0.1);".toList
    let text := "f ( \"\n    Literal(nil)\n\" , // a tenth\n0.10 ) ;".toList
    let outline :=
      "Expression\n  Call\n    Variable(f)\n    Literal(\"\n    Literal(nil)\n\")\n    Literal(0.1)\n"
    ∃ statements others, program .standard source = .ok statements ∧
      program .standard text = .ok others ∧
      String.join (statements.map (Node.outline 0)) = outline ∧
      String.join (others.map (Node.outline 0)) = outline ∧
      statements = others ∧ Node.allAgree statements others = true := by
  intro source text outline
  let statements : List Node := [.expression (.call (.identifier "f")
    [.literal (.string "\n    Literal(nil)\n"),
      .literal (.number (.finite false 0x3fb999999999999a))])]
  have scanned : Source.tokens source = .ok [⟨.identifier "f", "f", 1⟩, ⟨.leftParen, "(", 1⟩,
      ⟨.string "\n    Literal(nil)\n", "\"\n    Literal(nil)\n\"", 3⟩, ⟨.comma, ",", 3⟩,
      ⟨.number (.finite false 0x3fb999999999999a), "0.1", 3⟩, ⟨.rightParen, ")", 3⟩,
      ⟨.semicolon, ";", 3⟩, .endOfInput 3] := by decide +kernel
  have rescanned : Source.tokens text = .ok [⟨.identifier "f", "f", 1⟩, ⟨.leftParen, "(", 1⟩,
      ⟨.string "\n    Literal(nil)\n", "\"\n    Literal(nil)\n\"", 3⟩, ⟨.comma, ",", 3⟩,
      ⟨.number (.finite false 0x3fb999999999999a), "0.10", 4⟩, ⟨.rightParen, ")", 4⟩,
      ⟨.semicolon, ";", 4⟩, .endOfInput 4] := by decide +kernel
  have read : program .standard source = .ok statements := program_eq_ok.mpr ⟨_, scanned, rfl⟩
  have reread : program .standard text = .ok statements := program_eq_ok.mpr ⟨_, rescanned, rfl⟩
  have shown : String.join (statements.map (Node.outline 0)) = outline := by decide +kernel
  exact ⟨statements, statements, read, reread, shown, shown, outline_unambiguous read reread rfl⟩

end Source
end Lox
