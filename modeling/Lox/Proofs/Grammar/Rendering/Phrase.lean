import Lox.Proofs.Grammar.Boundary
import Lox.Proofs.Node.ReadBack
import Lox.Proofs.Token.Scanned

/-!
The source text of a phrase spells the kinds of the phrase, infinite numbers apart, which are
spelled as names: `Phrase.spells`, by induction on the derivation. The kinds that are spelled make
up a phrase again, of the tree that the text reads back as: `Phrase.readBack`.
-/
namespace Lox.Grammar

open Token

/-- A text may stand behind any sign: the sign does not go on into it. -/
def Opens (text : String) : Prop := ∃ c more, text.toList = c :: more ∧ c ≠ '=' ∧ c ≠ '/'

theorem Opens.of_not_reserved {text : String} {c : Char} {more : List Char}
    (spelled : text.toList = c :: more) (inside : c ∉ reserved) : Opens text := by
  simp only [reserved, List.mem_cons, not_or] at inside
  exact ⟨c, more, spelled, inside.2.2.2.2.2.2.1, inside.2.2.2.2.2.1⟩

theorem Opens.append {text : String} (opens : Opens text) (other : String) :
    Opens (text ++ other) := by
  rcases opens with ⟨c, more, spelled, signs⟩
  exact ⟨c, more ++ other.toList, by rw [String.toList_append, spelled, List.cons_append], signs⟩

theorem Opens.calm {text : String} (opens : Opens text) (rest : List Char) :
    Calm (text.toList ++ rest) := by
  rcases opens with ⟨c, more, spelled, signs⟩
  intro d front
  rw [spelled] at front
  cases front
  exact signs

/-- A text is scanned as such kinds wherever it stands before a place where no lexeme goes on, and
it may stand behind any sign. -/
structure Spells (text : String) (kinds : List Kind) : Prop where
  opens : Opens text
  scans : ∀ rest others, Apart rest → Scans rest others →
    Scans (text.toList ++ rest) (kinds ++ others)

theorem apart_cons {c : Char} {rest : List Char}
    (separate : isWordPart c = false ∧ Text.isDigit c = false ∧ c ≠ '=' ∧ c ≠ '/') :
    Apart (c :: rest) := by
  intro d front
  cases front
  exact separate

theorem apart_space (rest : List Char) : Apart (" ".toList ++ rest) := apart_cons (by decide)

theorem apart_open (rest : List Char) : Apart ("(".toList ++ rest) := apart_cons (by decide)

theorem apart_close (rest : List Char) : Apart (")".toList ++ rest) := apart_cons (by decide)

theorem apart_comma (rest : List Char) : Apart (", ".toList ++ rest) := apart_cons (by decide)

section
variable {rest : List Char} {kinds : List Kind}

theorem scans_space (scans : Scans rest kinds) : Scans (" ".toList ++ rest) kinds :=
  scans.blank rfl

theorem scans_open (calm : Calm rest) (scans : Scans rest kinds) :
    Scans ("(".toList ++ rest) (.leftParen :: kinds) :=
  scans.symbol (by decide) calm

theorem scans_close (calm : Calm rest) (scans : Scans rest kinds) :
    Scans (")".toList ++ rest) (.rightParen :: kinds) :=
  scans.symbol (by decide) calm

end

section
variable {level : Level} {kind : Kind} {operator : Operator} {rest : List Char} {kinds : List Kind}

theorem scans_operator (found : level.operator? kind = some operator) (scans : Scans rest kinds) :
    Scans (operator.symbol.toList ++ (" ".toList ++ rest)) (kind :: kinds) := by
  have behind := scans_space scans
  have apart := apart_space rest
  revert found
  fun_cases Level.operator? level kind <;> intro found <;> cases found
  case case1 => exact behind.keyword (by decide) apart
  case case2 => exact behind.keyword (by decide) apart
  all_goals exact behind.symbol (by decide) apart.calm

theorem scans_prefix (found : prefixOperator? kind = some operator) (calm : Calm rest)
    (scans : Scans rest kinds) : Scans (operator.symbol.toList ++ rest) (kind :: kinds) := by
  revert found
  fun_cases prefixOperator? kind <;> intro found <;> cases found
  all_goals exact scans.symbol (by decide) calm

theorem operator?_readBack (found : level.operator? kind = some operator) :
    kind.readBack = kind := by
  revert found
  fun_cases Level.operator? level kind <;> intro found <;> first | rfl | cases found

theorem prefixOperator?_readBack (found : prefixOperator? kind = some operator) :
    kind.readBack = kind := by
  revert found
  fun_cases prefixOperator? kind <;> intro found <;> first | rfl | cases found

end

theorem lone_word_spells {name : String} (word : isWord name = true) :
    Spells name [(keywords.lookup name).getD (.identifier name)] := by
  refine ⟨?_, fun rest others apart scans => scans.word word apart⟩
  rcases Bool.and_eq_true_iff.mp word with ⟨started, -⟩
  cases spelled : name.toList with
  | nil => simp [spelled] at started
  | cons c more =>
    rw [spelled] at started
    exact .of_not_reserved spelled (isWordStart_not_reserved started)

theorem word_spells {name : String} (word : isWord name = true)
    (free : keywords.lookup name = none) : Spells name [.identifier name] := by
  have spells := lone_word_spells word
  rw [free] at spells
  exact spells

theorem keyword_spells {name : String} {kind : Kind} (word : isWord name = true)
    (listed : keywords.lookup name = some kind) : Spells name [kind] := by
  have spells := lone_word_spells word
  rw [listed] at spells
  exact spells

theorem number_spells {value : Number} (scanned : (Kind.number value).Scanned) :
    Spells value.source [(Kind.number value).readBack] := by
  rcases scanned with rfl | ⟨rank, rfl⟩
  · exact word_spells (by decide) (by decide)
  · rcases (Number.shortest rank).text_digits with ⟨whole, fraction, spelled, started, more, digits, same⟩
    have text : (Number.finite false rank).source.toList = whole ++ '.' :: fraction := by
      rw [Number.source, Number.finiteSource, String.toList_append, spelled]
      rfl
    refine ⟨?_, fun rest others apart scans => ?_⟩
    · cases whole with
      | nil => exact absurd rfl started
      | cons c whole =>
        exact .of_not_reserved text (isDigit_not_reserved (digits c List.mem_cons_self))
    · have all := scans.number started more digits apart
      rw [same, Number.toNumber_shortest] at all
      rw [text, List.append_assoc]
      exact all

theorem string_spells {text : String} (scanned : (Kind.string text).Scanned) :
    Spells (Value.quote text) [.string text] := by
  have quoted : (Value.quote text).toList = '\x22' :: (text.toList ++ ['\x22']) := by
    rw [Value.quote, String.toList_append, String.toList_append]
    rfl
  refine ⟨⟨_, _, quoted, by decide⟩, fun rest others apart scans => ?_⟩
  rw [quoted, List.cons_append, List.append_assoc]
  exact scans.string scanned

theorem literal_spells {kind : Kind} {value : Value} (found : literal? kind = some value)
    (scanned : kind.Scanned) : Spells value.source [kind.readBack] := by
  revert found
  fun_cases literal? kind <;> intro found <;> cases found
  · exact keyword_spells (by decide) (by decide)
  · exact keyword_spells (by decide) (by decide)
  · exact keyword_spells (by decide) (by decide)
  · exact number_spells scanned
  · exact string_spells scanned

theorem identifier_spells {name : String} (scanned : (Kind.identifier name).Scanned) :
    Spells name [.identifier name] :=
  word_spells scanned.1 scanned.2

section
variable {text : String} {kinds : List Kind}

theorem Spells.operated {level : Level} {kind : Kind} {operator : Operator} {right : String}
    {operand : List Kind} (spells : Spells text kinds)
    (found : level.operator? kind = some operator) (rightSpells : Spells right operand) :
    Spells (text ++ " " ++ operator.symbol ++ " " ++ right) (kinds ++ kind :: operand) := by
  refine ⟨(((spells.opens.append _).append _).append _).append _, fun rest others apart scans => ?_⟩
  have behind := scans_operator found (rightSpells.scans rest others apart scans)
  have all := spells.scans _ _ (apart_space _) (scans_space behind)
  simpa only [String.toList_append, List.append_assoc, List.cons_append] using all

theorem Spells.parenthesized (spells : Spells text kinds) :
    Spells ("(" ++ text ++ ")") (.leftParen :: (kinds ++ [.rightParen])) := by
  refine ⟨⟨'(', _, by rw [String.toList_append, String.toList_append]; rfl, by decide⟩,
    fun rest others apart scans => ?_⟩
  have behind := spells.scans _ _ (apart_close _) (scans_close apart.calm scans)
  have all := scans_open (spells.opens.calm _) behind
  simpa only [String.toList_append, List.append_assoc, List.cons_append, List.nil_append] using all

theorem Spells.assigned {name : String} {value : Node} (spells : Spells name [.identifier name])
    (valueSpells : Spells value.source kinds) :
    Spells (Node.assign name value).source (.identifier name :: .equal :: kinds) := by
  rw [Node.source]
  refine ⟨(spells.opens.append _).append _, fun rest others apart scans => ?_⟩
  have behind := @Scans.symbol _ _ "=" .equal (by decide) (apart_space _).calm
    (scans_space (valueSpells.scans rest others apart scans))
  have all := spells.scans _ _ (apart_space _) (scans_space behind)
  have sign : " = ".toList = " ".toList ++ ("=".toList ++ " ".toList) := rfl
  simpa only [sign, String.toList_append, List.append_assoc, List.cons_append,
    List.nil_append] using all

theorem Spells.signed {kind : Kind} {operator : Operator}
    (spells : Spells text kinds) (found : prefixOperator? kind = some operator) :
    Spells (operator.symbol ++ text) (kind :: kinds) := by
  refine ⟨?_, fun rest others apart scans => ?_⟩
  · have opens : Opens operator.symbol := by
      revert found
      fun_cases prefixOperator? kind <;> intro found <;> cases found
      all_goals exact ⟨_, _, rfl, by decide⟩
    exact opens.append text
  · have all := scans_prefix found (spells.opens.calm _) (spells.scans rest others apart scans)
    rw [String.toList_append, List.append_assoc]
    exact all

end

def Part.readBack (part : Part) : Part := ⟨part.kinds.map Kind.readBack, part.node.readBack⟩

def Link.readBack (link : Link) : Link := { link with operand := link.operand.readBack }

def Part.Spelled (part : Part) : Prop := Spells part.node.source part.readBack.kinds

theorem intercalate_cons (separator first : String) (others : List String) :
    separator.intercalate (first :: others) =
      first ++ String.join (others.map (separator ++ ·)) := by
  induction others generalizing first with
  | nil => simp
  | cons second others ih =>
    rw [String.intercalate_cons_cons, ih, List.map_cons, String.join_cons, String.append_assoc,
      String.append_assoc]

theorem sources_eq_map (nodes : List Node) : Node.sources nodes = nodes.map Node.source := by
  induction nodes with
  | nil => rfl
  | cons node rest ih => rw [Node.sources, ih, List.map_cons]

section
variable {rest : List Char} {others : List Kind}

theorem further_arguments_scan {parts : List Part} (spelled : ∀ part ∈ parts, part.Spelled)
    (apart : Apart rest) (scans : Scans rest others) :
    Apart ((String.join (parts.map fun part => ", " ++ part.node.source)).toList ++ rest) ∧
    Scans ((String.join (parts.map fun part => ", " ++ part.node.source)).toList ++ rest)
      ((parts.flatMap fun part => .comma :: part.readBack.kinds) ++ others) := by
  induction parts with
  | nil => exact ⟨apart, scans⟩
  | cons part parts ih =>
    rcases ih fun later member => spelled later (List.mem_cons_of_mem part member) with
      ⟨behindApart, behind⟩
    have spells := spelled part List.mem_cons_self
    have all := @Scans.symbol _ _ "," .comma (by decide) (apart_space _).calm
      (scans_space (spells.scans _ _ behindApart behind))
    simp only [List.map_cons, String.join_cons, String.toList_append, List.append_assoc,
      List.flatMap_cons, List.cons_append]
    exact ⟨apart_comma _, all⟩

theorem mem_separated {parts : List Part} {part : Part} {kind : Kind} (within : part ∈ parts)
    (member : kind ∈ part.kinds) : kind ∈ separated parts := by
  cases parts with
  | nil => cases within
  | cons first parts =>
    rcases List.mem_cons.mp within with rfl | later
    · exact List.mem_append_left _ member
    · exact List.mem_append_right _
        (List.mem_flatMap.mpr ⟨part, later, List.mem_cons_of_mem _ member⟩)

theorem mem_enclosed {parts : List Part} {part : Part} {kind : Kind} (within : part ∈ parts)
    (member : kind ∈ part.kinds) : kind ∈ enclosed parts :=
  List.mem_cons_of_mem _ (List.mem_append_left _ (mem_separated within member))

theorem separated_readBack (parts : List Part) :
    (separated parts).map Kind.readBack = separated (parts.map Part.readBack) := by
  cases parts with
  | nil => rfl
  | cons part parts =>
    simp [separated, Part.readBack, List.map_flatMap, List.flatMap_map, Kind.readBack]

theorem enclosed_readBack (parts : List Part) :
    (enclosed parts).map Kind.readBack = enclosed (parts.map Part.readBack) := by
  simp [enclosed, separated_readBack, Kind.readBack]

theorem arguments_scan {parts : List Part} (spelled : ∀ part ∈ parts, part.Spelled)
    (apart : Apart rest) (scans : Scans rest others) :
    Calm ((", ".intercalate (Node.sources (parts.map Part.node))).toList ++ rest) ∧
    Scans ((", ".intercalate (Node.sources (parts.map Part.node))).toList ++ rest)
      (separated (parts.map Part.readBack) ++ others) := by
  cases parts with
  | nil => exact ⟨apart.calm, scans⟩
  | cons part parts =>
    have spells := spelled part List.mem_cons_self
    rcases further_arguments_scan (fun later member =>
      spelled later (List.mem_cons_of_mem part member)) apart scans with ⟨behindApart, behind⟩
    have all := spells.scans _ _ behindApart behind
    simp only [List.map_cons, sources_eq_map, intercalate_cons, String.toList_append, List.append_assoc,
      List.map_map, Function.comp_def, separated, List.flatMap_map]
    exact ⟨spells.opens.calm _, all⟩

end

theorem Spells.call {callee : Node} {kinds : List Kind} {parts : List Part}
    (spells : Spells callee.source kinds) (spelled : ∀ part ∈ parts, part.Spelled) :
    Spells (Node.call callee (parts.map Part.node)).source
      (kinds ++ enclosed (parts.map Part.readBack)) := by
  rw [Node.source]
  refine ⟨((spells.opens.append _).append _).append _, fun rest others apart scans => ?_⟩
  rcases arguments_scan spelled (apart_close rest) (scans_close apart.calm scans) with ⟨calm, behind⟩
  have all := spells.scans _ _ (apart_open _) (scans_open calm behind)
  simpa only [enclosed, String.toList_append, List.append_assoc, List.cons_append,
    List.nil_append] using all

theorem Spells.called {callee : Node} {kinds : List Kind} {calls : List (List Part)}
    (spells : Spells callee.source kinds)
    (spelled : ∀ arguments ∈ calls, ∀ part ∈ arguments, part.Spelled) :
    Spells (applied callee calls).source
      (kinds ++ (calls.flatMap enclosed).map Kind.readBack) := by
  induction calls generalizing callee kinds with
  | nil => simpa [Grammar.applied] using spells
  | cons arguments calls ih =>
    have first := spells.call (spelled arguments List.mem_cons_self)
    have all := ih first fun later member => spelled later (List.mem_cons_of_mem _ member)
    rw [List.flatMap_cons, List.map_append, enclosed_readBack, ← List.append_assoc]
    exact all

theorem join_source (level : Level) (left right : Node) (operator : Operator) :
    (level.join left operator right).source =
      left.source ++ " " ++ operator.symbol ++ " " ++ right.source := by
  cases level <;> rfl

theorem Spells.linked {level : Level} {first : Node} {kinds : List Kind} {links : List Link}
    (spells : Spells first.source kinds)
    (operators : ∀ link ∈ links, level.operator? link.kind = some link.operator)
    (spelled : ∀ link ∈ links, link.operand.Spelled) :
    Spells (Link.chain level first links).source
      (kinds ++ (links.flatMap Link.kinds).map Kind.readBack) := by
  induction links generalizing first kinds with
  | nil => simpa [Link.chain] using spells
  | cons link links ih =>
    have found := operators link List.mem_cons_self
    have joined := spells.operated found (spelled link List.mem_cons_self)
    rw [← join_source level] at joined
    have all := ih joined (fun later member => operators later (List.mem_cons_of_mem _ member))
      fun later member => spelled later (List.mem_cons_of_mem _ member)
    rw [List.flatMap_cons, List.map_append, Link.kinds, List.map_cons, operator?_readBack found,
      ← List.append_assoc]
    exact all

/-- The source text of a scanned phrase spells what its kinds read back as. -/
theorem Phrase.spells {level : Level} {kinds : List Kind} {node : Node}
    (phrase : Phrase level kinds node) (scanned : ∀ kind ∈ kinds, kind.Scanned) :
    Spells node.source (kinds.map Kind.readBack) := by
  induction phrase with
  | @assign name kinds value _ ih =>
    have name_spells := identifier_spells (scanned _ List.mem_cons_self)
    have value_spells := ih fun kind member =>
      scanned kind (List.mem_cons_of_mem _ (List.mem_cons_of_mem _ member))
    exact name_spells.assigned value_spells
  | disjunction _ ih => exact ih scanned
  | chain _ _ operators _ first operands =>
    rw [List.map_append]
    refine (first fun kind member => scanned kind (List.mem_append_left _ member)).linked operators
      fun link listed => operands link listed fun kind member => ?_
    refine scanned kind (List.mem_append_right _ (List.mem_flatMap.mpr ⟨link, listed, ?_⟩))
    exact List.mem_cons_of_mem _ member
  | signed found _ ih =>
    rw [List.map_cons, prefixOperator?_readBack found]
    exact (ih fun kind member => scanned kind (List.mem_cons_of_mem _ member)).signed found
  | unsigned _ ih => exact ih scanned
  | call _ _ _ callee arguments =>
    rw [List.map_append]
    refine (callee fun kind member => scanned kind (List.mem_append_left _ member)).called
      fun parts listed part within => arguments parts listed part within fun kind member => ?_
    refine scanned kind (List.mem_append_right _ (List.mem_flatMap.mpr ⟨parts, listed, ?_⟩))
    exact mem_enclosed within member
  | literal found => exact literal_spells found (scanned _ List.mem_cons_self)
  | identifier => exact identifier_spells (scanned _ List.mem_cons_self)
  | grouping _ ih =>
    rw [List.map_cons, List.map_append]
    exact (ih fun kind member => scanned kind (by simp [member])).parenthesized

theorem join_readBack (level : Level) (left right : Node) (operator : Operator) :
    (level.join left operator right).readBack =
      level.join left.readBack operator right.readBack := by
  cases level <;> rfl

theorem chain_readBack (level : Level) (first : Node) (links : List Link) :
    (Link.chain level first links).readBack =
      Link.chain level first.readBack (links.map Link.readBack) := by
  induction links generalizing first with
  | nil => rfl
  | cons link links ih =>
    refine (ih (level.join first link.operator link.operand.node)).trans ?_
    rw [join_readBack]
    rfl

theorem applied_readBack (callee : Node) (calls : List (List Part)) :
    (applied callee calls).readBack =
      applied callee.readBack (calls.map fun parts => parts.map Part.readBack) := by
  induction calls generalizing callee with
  | nil => rfl
  | cons parts calls ih =>
    have one : (Node.call callee (parts.map Part.node)).readBack =
        .call callee.readBack ((parts.map Part.readBack).map Part.node) := by
      rw [Node.readBack, Node.readBacks_eq_map, List.map_map, List.map_map]
      rfl
    refine (ih (.call callee (parts.map Part.node))).trans ?_
    rw [one]
    rfl

theorem literal_readBack {kind : Kind} {value : Value} (found : literal? kind = some value) :
    Phrase .primary [kind.readBack] (Node.literal value).readBack := by
  match kind, found with
  | .falseWord, rfl | .trueWord, rfl | .nilWord, rfl | .string _, rfl => exact .literal rfl
  | .number (.infinite _), rfl => exact .identifier
  | .number .nan, rfl | .number (.finite _ _), rfl => exact .literal rfl

theorem Phrase.readBack {level : Level} {kinds : List Kind} {node : Node}
    (phrase : Phrase level kinds node) : Phrase level (kinds.map Kind.readBack) node.readBack := by
  induction phrase with
  | assign _ ih => exact .assign ih
  | disjunction _ ih => exact .disjunction ih
  | @chain level kinds first links chained _ operators _ ih operands =>
    have same : (links.flatMap Link.kinds).map Kind.readBack =
        (links.map Link.readBack).flatMap Link.kinds := by
      rw [List.map_flatMap, List.flatMap_map]
      refine congrArg List.flatten (List.map_congr_left fun link listed => ?_)
      rw [Link.kinds, List.map_cons, operator?_readBack (operators link listed)]
      rfl
    rw [List.map_append, same, chain_readBack]
    refine .chain chained ih ?_ ?_
    · intro link listed
      rcases List.mem_map.mp listed with ⟨original, member, rfl⟩
      exact operators original member
    · intro link listed
      rcases List.mem_map.mp listed with ⟨original, member, rfl⟩
      exact operands original member
  | signed found _ ih =>
    rw [List.map_cons, prefixOperator?_readBack found]
    exact .signed found ih
  | unsigned _ ih => exact .unsigned ih
  | @call kinds callee calls _ short _ ih arguments =>
    have same : (calls.flatMap enclosed).map Kind.readBack =
        (calls.map fun parts => parts.map Part.readBack).flatMap enclosed := by
      rw [List.map_flatMap, List.flatMap_map]
      exact congrArg List.flatten (List.map_congr_left fun parts _ => enclosed_readBack parts)
    rw [List.map_append, same, applied_readBack]
    refine .call ih ?_ ?_
    · intro parts listed
      rcases List.mem_map.mp listed with ⟨originals, member, rfl⟩
      rw [List.length_map]
      exact short originals member
    · intro parts listed part within
      rcases List.mem_map.mp listed with ⟨originals, member, rfl⟩
      rcases List.mem_map.mp within with ⟨original, inside, rfl⟩
      exact arguments originals member original inside
  | literal found => exact literal_readBack found
  | identifier => exact .identifier
  | grouping _ ih =>
    rw [List.map_cons, List.map_append]
    exact .grouping ih

end Lox.Grammar
