import Lox.Proofs.Grammar.Rendering.Phrase
import Lox.Proofs.Node.Braced

namespace Lox.Grammar

open Token

def Expressed (node : Node) : Prop :=
  ∃ kinds, Phrase .assignment kinds node ∧ Spells node.source kinds

theorem Phrase.expressed {kinds : List Kind} {node : Node} (phrase : Phrase .assignment kinds node)
    (scanned : ∀ kind ∈ kinds, kind.Scanned) (finite : node.finite = true) : Expressed node := by
  have again := phrase.readBack
  rw [Node.readBack_of_finite finite] at again
  exact ⟨_, again, phrase.spells scanned⟩

theorem Phrase.alone {level : Level} {kinds : List Kind} {node : Node} (chained : level.chained)
    (phrase : Phrase level.operand kinds node) : Phrase level kinds node := by
  have all := @Phrase.chain level kinds node [] chained phrase (by simp) (by simp)
  rw [List.flatMap_nil, List.append_nil] at all
  exact all

theorem Phrase.loosened {kinds : List Kind} {node : Node} (phrase : Phrase .primary kinds node) :
    Phrase .assignment kinds node := by
  have called := @Phrase.call kinds node [] phrase (by simp) (by simp)
  rw [List.flatMap_nil, List.append_nil] at called
  have factor : Phrase .factor kinds node := .alone rfl (.unsigned called)
  have comparison : Phrase .comparison kinds node := .alone rfl (.alone rfl factor)
  have conjunction : Phrase .conjunction kinds node := .alone rfl (.alone rfl comparison)
  exact .disjunction (.alone rfl conjunction)

def Form.Admits : Form → List Kind → Node → Prop
  | declaration, kinds, node => Sentence .declaration kinds node
  | statement dangling, kinds, node =>
    ∃ less, (less = true → dangling = true) ∧ Sentence (.statement less) kinds node

theorem Form.Admits.declaration {form : Form} {kinds : List Kind} {node : Node}
    (admits : form.Admits kinds node) : Sentence .declaration kinds node := by
  cases form with
  | declaration => exact admits
  | statement dangling =>
    rcases admits with ⟨less, -, sentence⟩
    exact .statement sentence

/-- The source text of a statement spells kinds of the statement that it reads back as. -/
def Form.Written (form : Form) (node : Node) : Prop :=
  ∃ kinds, form.Admits kinds node.braced ∧ Spells node.source kinds

section
variable {text : String} {kinds : List Kind} {rest : List Char} {others : List Kind}

theorem apart_semicolon (rest : List Char) : Apart (";".toList ++ rest) := apart_cons (by decide)

theorem scans_semicolon (calm : Calm rest) (scans : Scans rest others) :
    Scans (";".toList ++ rest) (.semicolon :: others) :=
  scans.symbol (by decide) calm

theorem Spells.ended (spells : Spells text kinds) :
    Spells (text ++ ";") (kinds ++ [.semicolon]) := by
  refine ⟨spells.opens.append _, fun rest others apart scans => ?_⟩
  have all := spells.scans _ _ (apart_semicolon rest) (scans_semicolon apart.calm scans)
  simpa only [String.toList_append, List.append_assoc, List.cons_append, List.nil_append] using all

theorem apart_blank {c : Char} (blank : isBlank c = true) (rest : List Char) :
    Apart (c :: rest) := by
  simp only [isBlank, Bool.or_eq_true, decide_eq_true_eq] at blank
  rcases blank with ((rfl | rfl) | rfl) | rfl <;> exact apart_cons (by decide)

theorem Spells.parted {separator second : String} {c : Char} {more : List Kind}
    (spells : Spells text kinds) (single : separator.toList = [c]) (blank : isBlank c = true)
    (secondSpells : Spells second more) :
    Spells (text ++ separator ++ second) (kinds ++ more) := by
  refine ⟨(spells.opens.append _).append _, fun rest others apart scans => ?_⟩
  have behind := secondSpells.scans rest others apart scans
  have all := spells.scans _ _ (apart_blank blank _) (behind.blank blank)
  simpa only [single, String.toList_append, List.append_assoc, List.cons_append, List.nil_append]
    using all

theorem Spells.spaced {second : String} {more : List Kind} (spells : Spells text kinds)
    (secondSpells : Spells second more) : Spells (text ++ " " ++ second) (kinds ++ more) :=
  spells.parted rfl rfl secondSpells

theorem Spells.inBraces (spells : Spells text kinds) :
    Spells ("\x7b " ++ text ++ " \x7d") (.leftBrace :: (kinds ++ [.rightBrace])) := by
  refine ⟨⟨'\x7b', ' ' :: (text.toList ++ [' ', '\x7d']), ?_, by decide⟩,
    fun rest others apart scans => ?_⟩
  · rw [String.toList_append, String.toList_append]
    simp
  · have closing := @Scans.symbol _ _ "\x7d" .rightBrace (by decide) apart.calm scans
    have inside := spells.scans _ _ (apart_space _) (scans_space closing)
    have all := @Scans.symbol _ _ "\x7b" .leftBrace (by decide) (apart_space _).calm
      (scans_space inside)
    have before : "\x7b ".toList = "\x7b".toList ++ " ".toList := rfl
    have behind : " \x7d".toList = " ".toList ++ "\x7d".toList := rfl
    simpa only [before, behind, String.toList_append, List.append_assoc, List.cons_append,
      List.nil_append] using all

theorem empty_braces_spell : Spells "\x7b \x7d" [.leftBrace, .rightBrace] := by
  refine ⟨⟨'\x7b', [' ', '\x7d'], rfl, by decide⟩, fun rest others apart scans => ?_⟩
  have closing := @Scans.symbol _ _ "\x7d" .rightBrace (by decide) apart.calm scans
  exact @Scans.symbol _ _ "\x7b" .leftBrace (by decide) (apart_space _).calm (scans_space closing)

end

section
variable {word text : String} {kind : Kind} {kinds : List Kind} (isWord : Token.isWord word = true)
  (listed : keywords.lookup word = some kind)
include isWord listed

theorem Spells.announced (spells : Spells text kinds) :
    Spells (word ++ " " ++ text) (kind :: kinds) :=
  (keyword_spells isWord listed).spaced spells

theorem Spells.conditional {condition : String} {test : List Kind} (tested : Spells condition test)
    (spells : Spells text kinds) :
    Spells (word ++ " (" ++ condition ++ ") " ++ text)
      (kind :: .leftParen :: (test ++ .rightParen :: kinds)) := by
  have all := Spells.announced isWord listed (tested.parenthesized.spaced spells)
  have before : " (" = " " ++ "(" := rfl
  have behind : ") " = ")" ++ " " := rfl
  simpa only [before, behind, String.append_assoc, List.append_assoc, List.cons_append,
    List.nil_append] using all

end
theorem Expressed.evaluation_written {inner : Node} (expressed : Expressed inner) :
    Form.Written (.statement false) (.expression inner) := by
  rcases expressed with ⟨kinds, phrase, spells⟩
  exact ⟨_, ⟨false, id, .evaluation (.intro phrase)⟩, spells.ended⟩

theorem Expressed.output_written {inner : Node} (expressed : Expressed inner) :
    Form.Written (.statement false) (.print inner) := by
  rcases expressed with ⟨kinds, phrase, spells⟩
  have word : "print " = "print" ++ " " := rfl
  refine ⟨_, ⟨false, id, .output phrase⟩, ?_⟩
  rw [Node.source, word, String.append_assoc]
  exact spells.ended.announced (by decide) rfl

theorem Variable.written {kinds : List Kind} {node : Node} (declared : Variable kinds node)
    (scanned : ∀ kind ∈ kinds, kind.Scanned) (finite : node.finite = true) :
    Form.declaration.Written node := by
  have word : "var " = "var" ++ " " := rfl
  cases declared with
  | @bare name =>
    have name_spells := identifier_spells (scanned (.identifier name) (by simp))
    refine ⟨_, .declared .bare, ?_⟩
    rw [Node.source, word, String.append_assoc]
    exact name_spells.ended.announced (by decide) rfl
  | @initialized name kinds initializer phrase =>
    have name_spells := identifier_spells (scanned (.identifier name) (by simp))
    rcases phrase.expressed (fun kind member => scanned kind (by simp [member])) finite with
      ⟨again, phrase, spells⟩
    refine ⟨_, .declared (.initialized phrase), ?_⟩
    have assigned := (name_spells.assigned spells).ended
    have all := assigned.announced (by decide : isWord "var" = true) rfl
    simpa only [Node.source, word, String.append_assoc, List.cons_append] using all

theorem all_written {nodes : List Node} (written : ∀ node ∈ nodes, Form.declaration.Written node)
    (separator : String) {c : Char} (single : separator.toList = [c]) (blank : isBlank c = true) :
    ∃ parts : List Part, (∀ part ∈ parts, Sentence .declaration part.kinds part.node) ∧
      parts.map Part.node = nodes.map Node.braced ∧
      (nodes ≠ [] → Spells (separator.intercalate (Node.sources nodes))
        (parts.flatMap Part.kinds)) := by
  induction nodes with
  | nil => exact ⟨[], by simp, rfl, fun nonempty => absurd rfl nonempty⟩
  | cons node nodes ih =>
    rcases written node List.mem_cons_self with ⟨kinds, sentence, spells⟩
    rcases ih fun later member => written later (List.mem_cons_of_mem _ member) with
      ⟨parts, sentences, same, behind⟩
    refine ⟨⟨kinds, node.braced⟩ :: parts, ?_, by rw [List.map_cons, same, List.map_cons],
      fun _ => ?_⟩
    · intro part member
      rcases List.mem_cons.mp member with rfl | later
      · exact sentence
      · exact sentences part later
    · cases nodes with
      | nil =>
        rw [List.map_nil, List.map_eq_nil_iff] at same
        subst same
        simpa [Node.sources] using spells
      | cons second nodes =>
        have both := spells.parted single blank (behind (List.cons_ne_nil _ _))
        simpa only [Node.sources, String.intercalate_cons_cons, List.flatMap_cons] using both

theorem Spells.nonempty {text : String} {kinds : List Kind} (spells : Spells text kinds) :
    text.isEmpty = false := by
  rcases spells.opens with ⟨c, more, spelled, -⟩
  rw [Bool.eq_false_iff]
  intro empty
  rw [String.isEmpty_iff] at empty
  rw [empty] at spelled
  cases spelled

theorem block_written {nodes : List Node}
    (written : ∀ node ∈ nodes, Form.declaration.Written node) :
    Form.Written (.statement false) (.block nodes) := by
  rcases all_written written " " rfl rfl with ⟨parts, sentences, same, spells⟩
  refine ⟨.leftBrace :: (parts.flatMap Part.kinds ++ [.rightBrace]), ⟨false, id, ?_⟩, ?_⟩
  · rw [Node.braced, Node.allBraced_eq_map, ← same]
    exact .block sentences
  · cases nodes with
    | nil =>
      rw [List.map_nil, List.map_eq_nil_iff] at same
      subst same
      exact empty_braces_spell
    | cons node nodes =>
      have body := spells (List.cons_ne_nil _ _)
      rw [Node.source, if_neg (by rw [body.nonempty]; exact Bool.false_ne_true)]
      exact body.inBraces

theorem loop_written {condition : Node} {body : List Node} (expressed : Expressed condition)
    (nonempty : body ≠ []) (written : ∀ node ∈ body, Form.declaration.Written node) :
    Form.Written (.statement false) (.loop condition body) := by
  rcases all_written written " " rfl rfl with ⟨parts, sentences, same, spells⟩
  rcases expressed with ⟨test, phrase, tested⟩
  have sentence := Sentence.whileLoop phrase (Sentence.block sentences)
  rw [same, ← Node.allBraced_eq_map] at sentence
  refine ⟨_, ⟨false, id, sentence⟩, ?_⟩
  have all := tested.conditional (by decide : isWord "while" = true) rfl (spells nonempty).inBraces
  have opening : ") \x7b " = ") " ++ "\x7b " := rfl
  have before : "while (" = "while" ++ " (" := rfl
  simpa only [Node.source, before, opening, String.append_assoc] using all

theorem Form.Written.declaration {form : Form} {node : Node} (written : form.Written node) :
    Form.declaration.Written node := by
  rcases written with ⟨kinds, admits, spells⟩
  exact ⟨kinds, admits.declaration, spells⟩

theorem Form.Written.steady {node : Node} (written : (Form.statement false).Written node)
    (dangling : Bool) : (Form.statement dangling).Written node := by
  rcases written with ⟨kinds, ⟨less, steady, sentence⟩, spells⟩
  exact ⟨kinds, ⟨less, fun dangles => absurd (steady dangles) Bool.false_ne_true, sentence⟩, spells⟩

section
variable {kinds : List Kind} {node : Option Node} (scanned : ∀ kind ∈ kinds, kind.Scanned)
include scanned

theorem Initializer.written (initializer : Initializer kinds node)
    (finite : ∀ inner ∈ node.toList, inner.finite = true) :
    ∀ inner ∈ node.toList, Form.declaration.Written inner := by
  cases initializer with
  | absent => simp
  | declared declared =>
    simpa using declared.written scanned (finite _ (by simp))
  | evaluation evaluation =>
    cases evaluation with
    | intro phrase =>
      have expressed := phrase.expressed (fun kind member => scanned kind (by simp [member]))
        (finite (.expression _) (by simp))
      simpa using expressed.evaluation_written.declaration

theorem Clause.expressed (clause : Clause kinds node)
    (finite : (node.getD (.literal (.boolean true))).finite = true) :
    Expressed (node.getD (.literal (.boolean true))) := by
  cases clause with
  | absent =>
    exact ⟨[.trueWord], Phrase.loosened (.literal rfl),
      keyword_spells (by decide : isWord "true" = true) rfl⟩
  | present phrase => exact phrase.expressed scanned finite

theorem Clause.increment_written (clause : Clause kinds node)
    (finite : ∀ inner ∈ (node.map Node.expression).toList, inner.finite = true) :
    ∀ inner ∈ (node.map Node.expression).toList, Form.declaration.Written inner := by
  cases clause with
  | absent => simp
  | present phrase =>
    have expressed := phrase.expressed scanned (finite (.expression _) (by simp))
    simpa using expressed.evaluation_written.declaration

end

/-- The source text of a scanned declaration or statement whose numbers are finite. -/
theorem Sentence.written {form : Form} {kinds : List Kind} {node : Node}
    (sentence : Sentence form kinds node) (scanned : ∀ kind ∈ kinds, kind.Scanned)
    (finite : node.finite = true) : form.Written node := by
  induction sentence with
  | declared declared => exact declared.written scanned finite
  | statement _ ih => exact (ih scanned finite).declaration
  | evaluation evaluation =>
    cases evaluation with
    | intro phrase =>
      have expressed := phrase.expressed (fun kind member => scanned kind (by simp [member])) finite
      exact expressed.evaluation_written
  | output phrase =>
    have expressed := phrase.expressed (fun kind member => scanned kind (by simp [member])) finite
    exact expressed.output_written
  | @choice dangling test branch condition thenBranch phrase _ ih =>
    rw [Node.finite, Bool.and_eq_true] at finite
    rcases phrase.expressed (fun kind member => scanned kind (by simp [member])) finite.1 with
      ⟨test, phrase, tested⟩
    rcases ih (fun kind member => scanned kind (by simp [member])) finite.2 with
      ⟨branch, ⟨less, -, sentence⟩, spells⟩
    refine ⟨_, ⟨true, id, .choice phrase sentence⟩, ?_⟩
    exact tested.conditional (by decide : isWord "if" = true) rfl spells
  | @alternative dangling test branch other condition thenBranch elseBranch phrase _ _ thenIh elseIh =>
    rw [Node.finite, Bool.and_eq_true, Bool.and_eq_true] at finite
    rcases phrase.expressed (fun kind member => scanned kind (by simp [member])) finite.1.1 with
      ⟨test, phrase, tested⟩
    rcases thenIh (fun kind member => scanned kind (by simp [member])) finite.1.2 with
      ⟨branch, ⟨_ | _, steady, sentence⟩, spells⟩
    case true => exact absurd (steady rfl) Bool.false_ne_true
    rcases elseIh (fun kind member => scanned kind (by simp [member])) finite.2 with
      ⟨other, ⟨less, allowed, otherSentence⟩, otherSpells⟩
    refine ⟨_, ⟨less, allowed, .alternative phrase sentence otherSentence⟩, ?_⟩
    have both := spells.spaced (otherSpells.announced (by decide : isWord "else" = true) rfl)
    have all := tested.conditional (by decide : isWord "if" = true) rfl both
    have before : "if (" = "if" ++ " (" := rfl
    have between : " else " = " " ++ ("else" ++ " ") := rfl
    simpa only [Node.source, before, between, String.append_assoc] using all
  | @whileLoop dangling test inner condition body phrase _ ih =>
    rw [Node.finite, Bool.and_eq_true, Node.allFinite_iff] at finite
    have expressed := phrase.expressed (fun kind member => scanned kind (by simp [member])) finite.1
    have written := ih (fun kind member => scanned kind (by simp [member]))
      (finite.2 body List.mem_cons_self)
    have looped := loop_written expressed (List.cons_ne_nil body []) (by simpa using written.declaration)
    exact looped.steady dangling
  | @forLoop dangling start test advance inner initializer condition increment body first clause
      advanced _ ih =>
    rw [desugared, Node.finite, Node.allFinite_iff] at finite
    have looped := finite _ (List.mem_append_right _ List.mem_cons_self)
    rw [Node.finite, Bool.and_eq_true, Node.allFinite_iff] at looped
    have expressed := clause.expressed (fun kind member => scanned kind (by simp [member])) looped.1
    have body_written := ih (fun kind member => scanned kind (by simp [member]))
      (looped.2 body List.mem_cons_self)
    have increment_written := advanced.increment_written
      (fun kind member => scanned kind (by simp [member]))
      fun inner member => looped.2 inner (List.mem_cons_of_mem _ member)
    have loop_written := loop_written expressed (List.cons_ne_nil body _) (by
      intro node member
      rcases List.mem_cons.mp member with rfl | later
      · exact body_written.declaration
      · exact increment_written node later)
    have first_written := first.written (fun kind member => scanned kind (by simp [member]))
      fun inner member => finite inner (List.mem_append_left _ member)
    refine (block_written fun node member => ?_).steady dangling
    rcases List.mem_append.mp member with early | later
    · exact first_written node early
    · rw [List.mem_singleton.mp later]
      exact loop_written.declaration
  | @block parts _ ih =>
    rw [Node.finite, Node.allFinite_iff] at finite
    refine block_written fun node member => ?_
    rcases List.mem_map.mp member with ⟨part, listed, rfl⟩
    refine ih part listed (fun kind inside => scanned kind ?_) (finite _ member)
    have within := List.mem_flatMap.mpr ⟨part, listed, inside⟩
    exact List.mem_cons_of_mem _ (List.mem_append_left _ within)

end Lox.Grammar
