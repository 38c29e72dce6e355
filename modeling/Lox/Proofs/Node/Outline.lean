import Lox.Node.Text
import Lox.Proofs.Text.Cut

/-!
How the outline of a tree is cut into lines. A line starts with the indentation and the label of a
node, and it shows where it ends, if what stands in its parentheses does: `outlineLine_cut`. The
lines of the parts of a node go on up to a line that is indented less than they are.
-/
namespace Lox

namespace Text

variable {rest behind : List Char}

/-- A text that shows where it ends, if a closing parenthesis is behind it. -/
inductive Delimited : List Char → Prop where
  | bare {text : List Char} : (∀ c ∈ text, c ≠ ')' ∧ c ≠ '\x22') → Delimited text
  | quoted {inner : List Char} : '\x22' ∉ inner → Delimited ('\x22' :: (inner ++ ['\x22']))

theorem bare_not_quoted {text inner : List Char} (plain : ∀ c ∈ text, c ≠ ')' ∧ c ≠ '\x22') :
    text ++ ')' :: rest ≠ '\x22' :: inner := by
  intro same
  cases text with
  | nil => exact absurd (List.cons.inj same).1 (by decide)
  | cons c more => exact (plain c List.mem_cons_self).2 (List.cons.inj same).1

theorem Delimited.cut {text other : List Char} (delimited : Delimited text)
    (also : Delimited other) (same : text ++ ')' :: rest = other ++ ')' :: behind) :
    text = other ∧ rest = behind := by
  cases delimited with
  | bare plain =>
    cases also with
    | bare alsoPlain =>
      obtain ⟨inner, after⟩ := @cut_unique (')' :: rest) (')' :: behind) (· != ')') text other
        (fun c member => by simpa using (plain c member).1)
        (fun c member => by simpa using (alsoPlain c member).1) (by simp) (by simp) same
      exact ⟨inner, (List.cons.inj after).2⟩
    | quoted => exact absurd same (bare_not_quoted plain)
  | @quoted inner unquoted =>
    cases also with
    | bare alsoPlain => exact absurd same.symm (bare_not_quoted alsoPlain)
    | @quoted others alsoUnquoted =>
      simp only [List.cons_append, List.append_assoc, List.nil_append, List.cons.injEq,
        true_and] at same
      obtain ⟨rfl, after⟩ := @cut_unique ('\x22' :: ')' :: rest) ('\x22' :: ')' :: behind)
        (· != '\x22') inner others
        (fun c member => by simpa using ne_of_mem_of_not_mem member unquoted)
        (fun c member => by simpa using ne_of_mem_of_not_mem member alsoUnquoted)
        (by simp) (by simp) same
      simp only [List.cons.injEq, true_and] at after
      exact ⟨rfl, after⟩

end Text

namespace Node

open Text

def inscription : Node → Option String
  | literal value => some value.source
  | identifier name | assign name _ | declare name _ => some name
  | unary operator _ | binary _ operator _ | logical _ operator _ => some operator.symbol
  | _ => none

def lineEnd (node : Node) : List Char :=
  match node.inscription with
  | some text => '(' :: (text.toList ++ [')', '\n'])
  | none => ['\n']

theorem toList_outlineLine (indent : Nat) (node : Node) : (outlineLine indent node).toList =
    List.replicate (2 * indent) ' ' ++ (node.label.toList ++ node.lineEnd) := by
  have ended : node.detail.toList ++ "\n".toList = node.lineEnd := by
    cases node <;> simp [detail, lineEnd, inscription, String.toList_append]
  rw [outlineLine, String.toList_append, String.toList_append, String.toList_append,
    String.toList_ofList, List.append_assoc, List.append_assoc, ended]

theorem label_letters (node : Node) : ∀ c ∈ node.label.toList, c.isAlpha = true := by
  cases node <;> simp [label]

theorem exists_label (node : Node) :
    ∃ c more, node.label.toList = c :: more ∧ c.isAlpha = true := by
  cases spelled : node.label.toList with
  | nil => cases node <;> simp [label] at spelled
  | cons c more =>
    have first : c ∈ node.label.toList := spelled ▸ List.mem_cons_self
    exact ⟨c, more, rfl, node.label_letters c first⟩

theorem lineEnd_ends (node : Node) (rest : List Char) :
    ∀ c ∈ (node.lineEnd ++ rest).head?, c.isAlpha = false := by
  rw [lineEnd]
  split <;> simp

section
variable {node other : Node} {rest behind : List Char}

theorem lineEnd_cut (own : ∀ text ∈ node.inscription, Delimited text.toList)
    (also : ∀ text ∈ other.inscription, Delimited text.toList)
    (same : node.lineEnd ++ rest = other.lineEnd ++ behind) :
    node.inscription = other.inscription ∧ rest = behind := by
  rw [lineEnd, lineEnd] at same
  cases first : node.inscription with
  | none =>
    cases second : other.inscription with
    | none =>
      rw [first, second] at same
      exact ⟨rfl, (List.cons.inj same).2⟩
    | some text =>
      rw [first, second] at same
      exact absurd (List.cons.inj same).1 (by decide)
  | some text =>
    cases second : other.inscription with
    | none =>
      rw [first, second] at same
      exact absurd (List.cons.inj same).1 (by decide)
    | some content =>
      simp only [first, second, List.cons_append, List.append_assoc, List.nil_append,
        List.cons.injEq, true_and] at same
      obtain ⟨inside, after⟩ := (own text first).cut (also content second) same
      exact ⟨congrArg some (String.toList_injective inside), (List.cons.inj after).2⟩

theorem outlineLine_cut {indent : Nat} (own : ∀ text ∈ node.inscription, Delimited text.toList)
    (also : ∀ text ∈ other.inscription, Delimited text.toList)
    (same : (outlineLine indent node).toList ++ rest = (outlineLine indent other).toList ++ behind) :
    node.label = other.label ∧ node.inscription = other.inscription ∧ rest = behind := by
  rw [toList_outlineLine, toList_outlineLine, List.append_assoc, List.append_assoc,
    List.append_assoc, List.append_assoc, List.append_cancel_left_eq] at same
  obtain ⟨labels, after⟩ := cut_unique node.label_letters other.label_letters
    (node.lineEnd_ends rest) (other.lineEnd_ends behind) same
  obtain ⟨inscriptions, after⟩ := lineEnd_cut own also after
  exact ⟨String.toList_injective labels, inscriptions, after⟩

end

theorem outline_eq (indent : Nat) (node : Node) :
    node.outline indent = outlineLine indent node ++ outlines (indent + 1) node.children := by
  cases node with
  | declare _ optional | choice _ _ optional =>
    cases optional <;> simp [outline, outlines, children, String.append_assoc]
  | _ => simp [outline, outlines, children, String.append_assoc]

theorem outlines_eq_join (indent : Nat) (nodes : List Node) :
    outlines indent nodes = String.join (nodes.map (outline indent)) := by
  induction nodes with
  | nil => rfl
  | cons node rest ih => rw [outlines, ih, List.map_cons, String.join_cons]

def Outdented (indent : Nat) (rest : List Char) : Prop :=
  rest = [] ∨ ¬ List.replicate (2 * indent) ' ' <+: rest

section
variable {indent : Nat} {rest : List Char}

theorem exists_outline (indent : Nat) (node : Node) : ∃ c more, c.isAlpha = true ∧
    (node.outline indent).toList = List.replicate (2 * indent) ' ' ++ c :: more := by
  obtain ⟨c, letters, label, letter⟩ := node.exists_label
  rw [outline_eq, String.toList_append, toList_outlineLine, label, List.append_assoc]
  exact ⟨c, _, letter, rfl⟩

theorem not_outdented (indent : Nat) (node : Node) (more : List Node) (rest : List Char) :
    ¬ Outdented indent ((outlines indent (node :: more)).toList ++ rest) := by
  obtain ⟨c, letters, -, text⟩ := exists_outline indent node
  rw [outlines, String.toList_append, text, List.append_assoc, List.append_assoc]
  rintro (none | other)
  · simp at none
  · exact other (List.prefix_append _ _)

/-- Outlines at one level, and a text that leaves the level, do not go on one level deeper. -/
theorem outdented_outlines (nodes : List Node) (leaves : Outdented indent rest) :
    Outdented (indent + 1) ((outlines indent nodes).toList ++ rest) := by
  have deeper : List.replicate (2 * (indent + 1)) ' ' =
      List.replicate (2 * indent) ' ' ++ [' ', ' '] :=
    List.replicate_append_replicate.symm
  cases nodes with
  | nil =>
    rcases leaves with none | other
    · exact .inl none
    · right
      intro front
      rw [deeper] at front
      exact other ((List.prefix_append _ _).trans front)
  | cons node more =>
    obtain ⟨c, letters, letter, text⟩ := exists_outline indent node
    right
    intro front
    rw [outlines, String.toList_append, text, deeper, List.append_assoc, List.append_assoc,
      List.prefix_append_right_inj, List.cons_append, List.cons_prefix_cons] at front
    rw [← front.1] at letter
    exact absurd letter (by decide)

end
end Node
end Lox
