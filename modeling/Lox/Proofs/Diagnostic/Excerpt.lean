import Lox.Diagnostic
import Lox.Proofs.Number.Written
import Lox.Proofs.Text.Lines
import Mathlib.Data.List.Intervals

namespace Lox

namespace Diagnostic

def lineAt (source : List Char) (number : Nat) : List Char :=
  ((Text.lines source)[number - 1]?).getD []

def numbered (source : List Char) (numbers : List Nat) : List (List Char) :=
  numbers.map fun number => lineLabel number ++ lineAt source number

def shownAt (source : List Char) (line column around : Int) (number : Nat) : List (List Char) :=
  if line - around ≤ number ∧ number ≤ line + around then
    (lineLabel number ++ lineAt source number) ::
      if number = line ∧ 0 < column then [caretLine column] else []
  else []

def shown (source : List Char) (line column around : Int) : List (List Char) :=
  (List.Ico 1 ((Text.lines source).length + 1)).flatMap (shownAt source line column around)

section
variable {source text : List Char} {number : Nat}

theorem zipIdx_lines (source : List Char) : (Text.lines source).zipIdx 1 =
    (List.Ico 1 ((Text.lines source).length + 1)).map fun number =>
      (lineAt source number, number) := by
  apply List.ext_getElem
  · simp
  · intro place inside _
    rw [List.length_zipIdx] at inside
    simp [List.Ico, lineAt, Nat.add_comm 1, List.getElem?_eq_getElem inside]

theorem excerpt_eq (source : List Char) (line column around : Int) :
    excerpt source line column around =
      String.ofList (List.intercalate ['\n'] (shown source line column around)) := by
  rw [excerpt, zipIdx_lines, List.flatMap_map]
  rfl

theorem length_lineLabel (number : Nat) :
    (lineLabel number).length = max 4 (digits number).length + 2 := by
  simp [lineLabel]
  omega

theorem plain_lineLabel (number : Nat) : '\n' ∉ lineLabel number := by
  have each : ∀ digit < 10, '\n' ≠ digitChar digit := by decide
  have written := @digits_all (fun c => '\n' ≠ c) each number
  intro member
  simp only [lineLabel, List.mem_append, List.mem_replicate] at member
  rcases member with (⟨-, blank⟩ | digit) | mark
  · exact absurd blank (by decide)
  · exact written _ digit rfl
  · exact absurd mark (by decide)

theorem plain_lineAt (source : List Char) (number : Nat) : '\n' ∉ lineAt source number := by
  rw [lineAt]
  cases found : (Text.lines source)[number - 1]? with
  | none => exact List.not_mem_nil
  | some text => exact Text.plain_of_mem_lines (List.mem_of_getElem? found)

theorem plain_caretLine (column : Int) : '\n' ∉ caretLine column := by
  intro member
  rcases List.mem_append.mp member with blank | mark
  · exact absurd (List.eq_of_mem_replicate blank) (by decide)
  · exact absurd mark (by decide)

variable {line column around : Int}

theorem shown_cases (member : text ∈ shown source line column around) :
    (∃ number, text = lineLabel number ++ lineAt source number) ∨
      0 < column ∧ text = caretLine column := by
  obtain ⟨number, -, listed⟩ := List.mem_flatMap.mp member
  rw [shownAt] at listed
  split at listed
  · rcases List.mem_cons.mp listed with rfl | marked
    · exact .inl ⟨number, rfl⟩
    · split at marked
      · next here => exact .inr ⟨here.2, List.mem_singleton.mp marked⟩
      · cases marked
  · cases listed

theorem lines_excerpt (source : List Char) (line column around : Int) :
    Text.lines (excerpt source line column around).toList =
      if (shown source line column around).isEmpty then [[]]
      else shown source line column around := by
  rw [excerpt_eq, String.toList_ofList]
  cases listed : shown source line column around with
  | nil => rfl
  | cons first others =>
    refine Text.lines_intercalate (List.cons_ne_nil first others) fun text member => ?_
    rw [← listed] at member
    rcases shown_cases member with ⟨number, rfl⟩ | ⟨-, rfl⟩
    · simp [plain_lineLabel, plain_lineAt]
    · exact plain_caretLine column

end

section
variable {source : List Char} {line around number : Nat} {column : Int}

theorem shownAt_far (far : number < line - around ∨ line + around < number) :
    shownAt source line column around number = [] :=
  if_neg (by omega)

theorem shownAt_near (near : line - around ≤ number ∧ number ≤ line + around) :
    shownAt source line column around number =
      (lineLabel number ++ lineAt source number) ::
        if number = line ∧ 0 < column then [caretLine column] else [] := by
  rw [shownAt, if_pos (by omega)]
  simp only [Nat.cast_inj]

theorem flatMap_far {first next : Nat}
    (far : ∀ number, first ≤ number → number < next →
      number < line - around ∨ line + around < number) :
    (List.Ico first next).flatMap (shownAt source line column around) = [] := by
  refine List.flatMap_eq_nil_iff.mpr fun number member => ?_
  obtain ⟨from_first, to_next⟩ := List.Ico.mem.mp member
  exact shownAt_far (far number from_first to_next)

theorem flatMap_beside {first next : Nat}
    (beside : ∀ number, first ≤ number → number < next →
      line - around ≤ number ∧ number ≤ line + around ∧ number ≠ line) :
    (List.Ico first next).flatMap (shownAt source line column around) =
      numbered source (List.Ico first next) := by
  rw [numbered, List.map_eq_flatMap]
  refine List.flatMap_congr fun number member => ?_
  obtain ⟨from_first, to_next⟩ := List.Ico.mem.mp member
  obtain ⟨above, below, other⟩ := beside number from_first to_next
  rw [shownAt_near ⟨above, below⟩, if_neg fun here => other here.1]

theorem shown_eq (positive : 1 ≤ line) (within : line ≤ (Text.lines source).length)
    (marked : 0 < column) :
    shown source line column around =
      numbered source (List.Ico (max 1 (line - around)) (line + 1)) ++
        caretLine column :: numbered source
          (List.Ico (line + 1) (min (Text.lines source).length (line + around) + 1)) := by
  rw [shown]
  generalize (Text.lines source).length = count at *
  have low : 1 ≤ max 1 (line - around) := le_max_left _ _
  have top : max 1 (line - around) ≤ line := by omega
  have high : line + 1 ≤ min count (line + around) + 1 := by omega
  have last : min count (line + around) + 1 ≤ count + 1 := by omega
  -- far lines, lines before, the line itself, lines behind, far lines
  have split : List.Ico 1 (count + 1) =
      List.Ico 1 (max 1 (line - around)) ++ (List.Ico (max 1 (line - around)) line ++
        (line :: (List.Ico (line + 1) (min count (line + around) + 1) ++
          List.Ico (min count (line + around) + 1) (count + 1)))) := by
    rw [List.Ico.append_consecutive high last, ← List.Ico.eq_cons (by omega),
      List.Ico.append_consecutive top (by omega), List.Ico.append_consecutive low (by omega)]
  rw [split, List.flatMap_append, List.flatMap_append, List.flatMap_cons, List.flatMap_append,
    List.Ico.succ_top top]
  have above : (List.Ico 1 (max 1 (line - around))).flatMap
      (shownAt source line column around) = [] :=
    flatMap_far fun number _ _ => by omega
  have before : (List.Ico (max 1 (line - around)) line).flatMap
      (shownAt source line column around) = numbered source _ :=
    flatMap_beside fun number _ _ => by omega
  have behind : (List.Ico (line + 1) (min count (line + around) + 1)).flatMap
      (shownAt source line column around) = numbered source _ :=
    flatMap_beside fun number _ _ => by omega
  have below : (List.Ico (min count (line + around) + 1) (count + 1)).flatMap
      (shownAt source line column around) = [] :=
    flatMap_far fun number _ _ => by omega
  have here : shownAt source line column around line =
      [lineLabel line ++ lineAt source line, caretLine column] := by
    rw [shownAt_near (by omega), if_pos ⟨rfl, marked⟩]
  rw [above, before, here, behind, below]
  simp [numbered]

end
end Diagnostic
end Lox
