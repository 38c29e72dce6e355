import Lox.Grammar.Parser
import Lox.Proofs.Grammar.Derivation

/-!
Where phrases and sentences begin and end: the kinds that the first token may have, and the kinds
that a token after a phrase must not have for the phrase to be over. None of them contains the end
of input.
-/
namespace Lox.Grammar

open Token (Kind)

def opensPrimary : Kind → Bool
  | .leftParen | .identifier _ => true
  | kind => (literal? kind).isSome

def opensPhrase (kind : Kind) : Bool := opensPrimary kind || (prefixOperator? kind).isSome

def opensStatement : Kind → Bool
  | .printWord | .ifWord | .whileWord | .forWord | .leftBrace => true
  | kind => opensPhrase kind

def opensDeclaration : Kind → Bool
  | .varWord => true
  | kind => opensStatement kind

def StartsWith (property : Kind → Bool) (kinds : List Kind) : Prop :=
  ∃ kind rest, kinds = kind :: rest ∧ property kind = true

namespace StartsWith

variable {property stronger : Kind → Bool} {kinds : List Kind}

theorem append (starts : StartsWith property kinds) (rest : List Kind) :
    StartsWith property (kinds ++ rest) := by
  rcases starts with ⟨kind, more, rfl, holds⟩
  exact ⟨kind, more ++ rest, rfl, holds⟩

theorem weaken (starts : StartsWith stronger kinds)
    (weaker : ∀ kind, stronger kind = true → property kind = true) :
    StartsWith property kinds := by
  rcases starts with ⟨kind, more, rfl, holds⟩
  exact ⟨kind, more, rfl, weaker kind holds⟩

theorem ne_nil (starts : StartsWith property kinds) : kinds ≠ [] := by
  rcases starts with ⟨kind, more, rfl, -⟩
  exact List.cons_ne_nil _ _

theorem front_kind {used : List Token} (starts : StartsWith property kinds)
    (spelled : used.map Token.kind = kinds) (rest : List Token) :
    property (front (used ++ rest)).kind = true := by
  rcases starts with ⟨kind, more, rfl, holds⟩
  rcases List.map_eq_cons_iff.mp spelled with ⟨token, after, rfl, rfl, -⟩
  exact holds

end StartsWith

theorem ne_of_property {property : Kind → Bool} {kind other : Kind} (holds : property kind = true)
    (lacks : property other = false) : kind ≠ other := by
  intro same
  rw [same, lacks] at holds
  cases holds

theorem opensPhrase_of_opensPrimary (kind : Kind) (opens : opensPrimary kind = true) :
    opensPhrase kind = true := by
  simp [opensPhrase, opens]

theorem opensStatement_of_opensPhrase (kind : Kind) (opens : opensPhrase kind = true) :
    opensStatement kind = true := by
  unfold opensStatement
  split <;> simp [opens]

theorem opensDeclaration_of_opensStatement (kind : Kind) (opens : opensStatement kind = true) :
    opensDeclaration kind = true := by
  unfold opensDeclaration
  split <;> simp [opens]

def Level.opens : Level → Kind → Bool
  | call | primary => opensPrimary
  | _ => opensPhrase

theorem Level.opens_of_operand {level : Level} (kind : Kind)
    (opens : level.operand.opens kind = true) : level.opens kind = true := by
  cases level <;>
    first | exact opens | exact opensPhrase_of_opensPrimary kind opens

theorem Phrase.starts {level : Level} {kinds : List Kind} {node : Node}
    (phrase : Phrase level kinds node) : StartsWith level.opens kinds := by
  induction phrase with
  | assign => exact ⟨_, _, rfl, rfl⟩
  | disjunction _ ih => exact ih
  | chain _ _ _ _ ih => exact (ih.weaken Level.opens_of_operand).append _
  | signed found =>
    exact ⟨_, _, rfl, by simp [Level.opens, opensPhrase, found]⟩
  | unsigned _ ih => exact ih.weaken opensPhrase_of_opensPrimary
  | call _ _ _ ih => exact ih.append _
  | @literal kind value found =>
    refine ⟨kind, [], rfl, ?_⟩
    cases kind <;> simp_all [Level.opens, opensPrimary, literal?]
  | identifier => exact ⟨_, _, rfl, rfl⟩
  | grouping => exact ⟨_, _, rfl, rfl⟩

theorem Phrase.starts_phrase {kinds : List Kind} {node : Node}
    (phrase : Phrase .assignment kinds node) : StartsWith opensPhrase kinds := phrase.starts

theorem Evaluation.starts {kinds : List Kind} {node : Node} (evaluated : Evaluation kinds node) :
    StartsWith opensPhrase kinds := by
  cases evaluated with
  | intro phrase => exact phrase.starts_phrase.append _

def Form.opens : Form → Kind → Bool
  | declaration => opensDeclaration
  | statement _ => opensStatement

theorem Sentence.starts {form : Form} {kinds : List Kind} {node : Node}
    (sentence : Sentence form kinds node) : StartsWith form.opens kinds := by
  induction sentence with
  | declared declaration => cases declaration <;> exact ⟨_, _, rfl, rfl⟩
  | statement _ ih => exact ih.weaken opensDeclaration_of_opensStatement
  | evaluation evaluated => exact evaluated.starts.weaken opensStatement_of_opensPhrase
  | output => exact ⟨_, _, rfl, rfl⟩
  | choice => exact ⟨_, _, rfl, rfl⟩
  | alternative => exact ⟨_, _, rfl, rfl⟩
  | whileLoop => exact ⟨_, _, rfl, rfl⟩
  | forLoop => exact ⟨_, _, rfl, rfl⟩
  | block => exact ⟨_, _, rfl, rfl⟩

theorem Sentence.starts_declaration {form : Form} {kinds : List Kind} {node : Node}
    (sentence : Sentence form kinds node) : StartsWith opensDeclaration kinds := by
  cases form with
  | declaration => exact sentence.starts
  | statement dangling => exact sentence.starts.weaken opensDeclaration_of_opensStatement

def Level.continuing : Level → List Kind
  | primary => []
  | call | unary => [.leftParen]
  | factor => [.slash, .star, .leftParen]
  | term => [.minus, .plus, .slash, .star, .leftParen]
  | comparison =>
    [.greater, .greaterEqual, .less, .lessEqual, .minus, .plus, .slash, .star, .leftParen]
  | equality =>
    [.bangEqual, .equalEqual, .greater, .greaterEqual, .less, .lessEqual, .minus, .plus, .slash,
     .star, .leftParen]
  | conjunction =>
    [.andWord, .bangEqual, .equalEqual, .greater, .greaterEqual, .less, .lessEqual, .minus, .plus,
     .slash, .star, .leftParen]
  | disjunction =>
    [.orWord, .andWord, .bangEqual, .equalEqual, .greater, .greaterEqual, .less, .lessEqual,
     .minus, .plus, .slash, .star, .leftParen]
  | assignment =>
    [.equal, .orWord, .andWord, .bangEqual, .equalEqual, .greater, .greaterEqual, .less,
     .lessEqual, .minus, .plus, .slash, .star, .leftParen]

namespace Level

variable {level : Level} {kind : Kind}

theorem stops_operand (stops : kind ∉ level.continuing) : kind ∉ level.operand.continuing := by
  cases level <;> simp_all [operand, continuing]

theorem operator?_of_stops (stops : kind ∉ level.continuing) : level.operator? kind = none := by
  cases level <;> simp only [continuing, List.mem_cons, not_or] at stops <;>
    cases kind <;> simp_all [operator?]

theorem stops_of_operator? {operator : Operator}
    (found : level.operator? kind = some operator) : kind ∉ level.operand.continuing := by
  revert found
  fun_cases operator? level kind <;> simp [operand, continuing]

end Level

theorem Level.operator?_inside {level : Level} {kind : Kind} {operator : Operator}
    (found : level.operator? kind = some operator) : Kind.endOfInput ≠ kind := by
  intro same
  subst same
  cases level <;> cases found

theorem Phrase.inside {level : Level} {kinds : List Kind} {node : Node}
    (phrase : Phrase level kinds node) : Kind.endOfInput ∉ kinds := by
  induction phrase with
  | assign _ ih => simpa using ih
  | disjunction _ ih => exact ih
  | chain _ _ operators _ first operands =>
    simp only [List.mem_append, List.mem_flatMap, Link.kinds, List.mem_cons, not_or, not_exists,
      not_and]
    exact ⟨first, fun link member =>
      ⟨Level.operator?_inside (operators link member), operands link member⟩⟩
  | @signed kind operator kinds right found _ ih =>
    have other : Kind.endOfInput ≠ kind := by
      intro same
      subst same
      cases found
    simp [other, ih]
  | unsigned _ ih => exact ih
  | @call kinds callee calls _ _ _ ih arguments =>
    have inside (parts : List Part) (member : parts ∈ calls) :
        Kind.endOfInput ∉ separated parts := by
      have each := arguments parts member
      cases parts with
      | nil => simp [separated]
      | cons part parts =>
        simp only [separated, List.mem_append, List.mem_flatMap, not_or, not_exists, not_and]
        refine ⟨each part List.mem_cons_self, fun later within => ?_⟩
        simpa using each later (List.mem_cons_of_mem part within)
    simp only [List.mem_append, List.mem_flatMap, not_or, not_exists, not_and]
    exact ⟨ih, fun parts member => by simpa [enclosed] using inside parts member⟩
  | @literal kind value found =>
    have other : Kind.endOfInput ≠ kind := by
      intro same
      subst same
      cases found
    simpa using other
  | identifier => simp
  | grouping _ ih => simpa using ih

theorem Variable.inside {kinds : List Kind} {node : Node} (declaration : Variable kinds node) :
    Kind.endOfInput ∉ kinds := by
  cases declaration with
  | bare => simp
  | initialized phrase => simpa using phrase.inside

theorem Evaluation.inside {kinds : List Kind} {node : Node} (evaluated : Evaluation kinds node) :
    Kind.endOfInput ∉ kinds := by
  cases evaluated with
  | intro phrase => simpa using phrase.inside

theorem Initializer.inside {kinds : List Kind} {held : Option Node}
    (begun : Initializer kinds held) : Kind.endOfInput ∉ kinds := by
  cases begun with
  | absent => simp
  | declared declaration => exact declaration.inside
  | evaluation evaluated => exact evaluated.inside

theorem Clause.inside {kinds : List Kind} {held : Option Node} (clause : Clause kinds held) :
    Kind.endOfInput ∉ kinds := by
  cases clause with
  | absent => simp
  | present phrase => exact phrase.inside

theorem Sentence.inside {form : Form} {kinds : List Kind} {node : Node}
    (sentence : Sentence form kinds node) : Kind.endOfInput ∉ kinds := by
  induction sentence with
  | declared declaration => exact declaration.inside
  | statement _ ih => exact ih
  | evaluation evaluated => exact evaluated.inside
  | output phrase => simpa using phrase.inside
  | choice phrase _ ih => simpa using ⟨phrase.inside, ih⟩
  | alternative phrase _ _ branch other => simpa using ⟨phrase.inside, branch, other⟩
  | whileLoop phrase _ ih => simpa using ⟨phrase.inside, ih⟩
  | forLoop begun tested advanced _ ih =>
    simpa using ⟨begun.inside, tested.inside, advanced.inside, ih⟩
  | block _ ih => simpa using ih

end Lox.Grammar
