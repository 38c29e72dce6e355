import Lox.Text.Line
import Mathlib.Data.List.TakeWhile

namespace Lox.Text

variable {rest behind : List Char} {property : Char → Bool} {front other : List Char}

theorem split_at_end (holds : ∀ c ∈ front, property c = true)
    (ends : ∀ c ∈ rest.head?, property c = false) :
    (front ++ rest).takeWhile property = front ∧ (front ++ rest).dropWhile property = rest := by
  rw [List.takeWhile_append_of_pos holds, List.dropWhile_append_of_pos holds]
  cases rest with
  | nil => simp
  | cons c rest => simp [ends c rfl]

theorem cut_unique (holds : ∀ c ∈ front, property c = true) (also : ∀ c ∈ other, property c = true)
    (ends : ∀ c ∈ rest.head?, property c = false) (alsoEnds : ∀ c ∈ behind.head?, property c = false)
    (same : front ++ rest = other ++ behind) : front = other ∧ rest = behind := by
  obtain ⟨before, after⟩ := split_at_end holds ends
  obtain ⟨alsoBefore, alsoAfter⟩ := split_at_end also alsoEnds
  rw [same] at before after
  exact ⟨before.symm.trans alsoBefore, after.symm.trans alsoAfter⟩

structure FirstAt (sought text : List Char) (offset : Nat) : Prop where
  occurs : sought <+: text.drop offset
  first : ∀ earlier < offset, ¬ sought <+: text.drop earlier

theorem FirstAt.cons {sought rest : List Char} {c : Char} {offset : Nat}
    (elsewhere : ¬ sought <+: c :: rest) (found : FirstAt sought rest offset) :
    FirstAt sought (c :: rest) (offset + 1) where
  occurs := found.occurs
  first earlier before := by
    cases earlier with
    | zero => exact elsewhere
    | succ earlier => exact found.first earlier (by omega)

theorem firstAt_of_find? {sought text : List Char} {offset : Nat}
    (found : find? sought text = some offset) : FirstAt sought text offset := by
  induction text generalizing offset with
  | nil =>
    rw [find?] at found
    split at found
    · next none =>
      cases found
      exact ⟨by simp [List.isEmpty_iff.mp none], fun earlier before => by omega⟩
    · cases found
  | cons c rest ih =>
    rw [find?] at found
    split at found
    · next front =>
      cases found
      exact ⟨List.isPrefixOf_iff_prefix.mp front, fun earlier before => by omega⟩
    · next other =>
      obtain ⟨later, further, rfl⟩ := Option.map_eq_some_iff.mp found
      exact (ih further).cons fun front => other (List.isPrefixOf_iff_prefix.mpr front)

end Lox.Text
