import Mathlib.Data.List.Basic

/-!
This module contains lists into which a piece is inserted, behind some of the elements that allow it or behind
all of them. Whether an element allows it depends on what stands up to it and on what stands behind it.
-/

namespace Insertion

variable {α : Type u} {place : List α → List α → Prop} {piece : List α}

/-- The third list is the second one, of which the first is in front, with the piece at some of its places. -/
inductive Inserted (place : List α → List α → Prop) (piece : List α) : List α → List α → List α → Prop where
  | nil (before : List α) : Inserted place piece before [] []
  | keep {before s t : List α} {a : α} (h : Inserted place piece (before ++ [a]) s t)
      : Inserted place piece before (a :: s) (a :: t)
  | insert {before s t : List α} {a : α} (hplace : place (before ++ [a]) s)
      (h : Inserted place piece (before ++ [a]) s t)
      : Inserted place piece before (a :: s) (a :: (piece ++ t))

open Classical in
noncomputable def insertAll (place : List α → List α → Prop) (piece before : List α) : List α → List α
  | [] => []
  | a :: s =>
    a :: ((if place (before ++ [a]) s then piece else []) ++ insertAll place piece (before ++ [a]) s)

theorem insertAll_cons_of_place {before s : List α} {a : α} (h : place (before ++ [a]) s)
    : insertAll place piece before (a :: s) = a :: (piece ++ insertAll place piece (before ++ [a]) s) := by
  rw [insertAll, if_pos h]

theorem insertAll_cons_of_not_place {before s : List α} {a : α} (h : ¬place (before ++ [a]) s)
    : insertAll place piece before (a :: s) = a :: insertAll place piece (before ++ [a]) s := by
  rw [insertAll, if_neg h, List.nil_append]

theorem inserted_insertAll (before s : List α)
    : Inserted place piece before s (insertAll place piece before s) := by
  induction s generalizing before with
  | nil => exact .nil before
  | cons a s ih =>
    by_cases h : place (before ++ [a]) s
    . rw [insertAll_cons_of_place h]
      exact .insert h (ih (before ++ [a]))
    . rw [insertAll_cons_of_not_place h]
      exact .keep (ih (before ++ [a]))

theorem Inserted.length_le {before s t : List α} (h : Inserted place piece before s t)
    : t.length ≤ (insertAll place piece before s).length := by
  induction h with
  | nil before => exact Nat.le_refl _
  | @keep before s t a h ih =>
    rw [insertAll, List.length_cons, List.length_cons, List.length_append]
    omega
  | @insert before s t a hplace h ih =>
    rw [insertAll_cons_of_place hplace]
    simp only [List.length_cons, List.length_append]
    omega

theorem insertAll_append {before s rest : List α}
    (h : ∀ front a back, s = front ++ a :: back → ¬place (before ++ (front ++ [a])) (back ++ rest))
    : insertAll place piece before (s ++ rest) = s ++ insertAll place piece (before ++ s) rest := by
  induction s generalizing before with
  | nil => rw [List.nil_append, List.nil_append, List.append_nil]
  | cons a s ih =>
    have hfirst : ¬place (before ++ [a]) (s ++ rest) := by
      have := h [] a s rfl
      rwa [List.nil_append] at this
    rw [List.cons_append, insertAll_cons_of_not_place hfirst, ih, List.append_assoc, List.singleton_append,
      List.cons_append]
    intro front a' back heq
    have := h (a :: front) a' back (by rw [heq, List.cons_append])
    rwa [List.cons_append, ← List.singleton_append, ← List.append_assoc] at this

theorem insertAll_of_no_place {before s : List α}
    (h : ∀ front a back, s = front ++ a :: back → ¬place (before ++ (front ++ [a])) back)
    : insertAll place piece before s = s := by
  have happend := @insertAll_append α place piece before s []
    (fun front a back heq => by simpa using h front a back heq)
  rwa [List.append_nil, insertAll, List.append_nil] at happend

end Insertion
