import Mathlib.Data.List.SplitOn

/-!
This module contains texts of fields that are joined by two separators in a row, and what a reader finds that
splits them at every single separator: between any two fields there is an empty one.
-/

namespace Fields

variable {α : Type} {p : α → Bool} {a b : α}

theorem splitOnP_intercalate (ha : p a = true) (hb : p b = true) {fields : List (List α)}
    (hfields : ∀ field ∈ fields, ∀ x ∈ field, p x = false) (hne : fields ≠ [])
    : ([a, b].intercalate fields).splitOnP p = fields.intersperse [] := by
  induction fields with
  | nil => exact absurd rfl hne
  | cons field fields ih =>
    rw [List.forall_mem_cons] at hfields
    cases fields with
    | nil =>
      rw [List.intercalate_singleton, List.splitOnP_eq_singleton hfields.1, List.intersperse_singleton]
    | cons field' fields =>
      rw [List.intercalate_cons_cons, List.append_assoc, List.cons_append, List.cons_append, List.nil_append,
        List.splitOnP_append_cons_of_forall_mem hfields.1 a ha, List.splitOnP_cons_eq_if_modifyHead, if_pos hb,
        ih hfields.2 (by simp), List.intersperse_cons_cons]

theorem find?_intersperse {q : α → Bool} {sep : α} (hsep : q sep = false) (xs : List α)
    : (xs.intersperse sep).find? q = xs.find? q := by
  induction xs with
  | nil => rfl
  | cons x xs ih =>
    cases xs with
    | nil => rfl
    | cons x' xs =>
      rw [List.intersperse_cons_cons, List.find?_cons, List.find?_cons, List.find?_cons, hsep, ih,
        List.find?_cons]

theorem find?_splitOnP_intercalate (ha : p a = true) (hb : p b = true) {fields : List (List α)}
    (hfields : ∀ field ∈ fields, ∀ x ∈ field, p x = false) {q : List α → Bool} (hq : q [] = false)
    : (([a, b].intercalate fields).splitOnP p).find? q = fields.find? q := by
  cases fields with
  | nil => simp [hq]
  | cons field fields => rw [splitOnP_intercalate ha hb hfields (by simp), find?_intersperse hq]

end Fields
