import Mathlib.Data.List.Infix
import Mathlib.Order.Lattice

/-!
This module contains the scan of a list for an element of the highest rank, as a loop does it that keeps
the best element so far and replaces it only by a better one.
-/

namespace Champion

variable {α : Type u} {γ : Type v} [LinearOrder γ]

def keep (rank : α → γ) : Option α → α → Option α
  | none, a => some a
  | some m, a => if rank m < rank a then some a else some m

def champion? (rank : α → γ) (l : List α) : Option α :=
  l.foldl (keep rank) none

@[simp]
theorem champion?_nil (rank : α → γ) : champion? rank [] = none := rfl

theorem champion?_concat (rank : α → γ) (l : List α) (a : α)
    : champion? rank (l ++ [a]) = keep rank (champion? rank l) a := by
  rw [champion?, List.foldl_append]
  rfl

theorem champion?_eq_none_iff {rank : α → γ} {l : List α} : champion? rank l = none ↔ l = [] := by
  cases l using List.reverseRecOn with
  | nil => simp
  | append_singleton l a =>
    rw [champion?_concat]
    cases champion? rank l with
    | none => simp [keep]
    | some m =>
      rw [keep]
      split <;> simp

theorem champion?_mem {rank : α → γ} {l : List α} {m : α} (h : champion? rank l = some m) : m ∈ l := by
  induction l using List.reverseRecOn generalizing m with
  | nil => simp at h
  | append_singleton l a ih =>
    rw [champion?_concat] at h
    cases hm : champion? rank l with
    | none =>
      rw [hm, keep, Option.some.injEq] at h
      simp [h]
    | some m' =>
      rw [hm, keep] at h
      split at h
      . simp_all
      . simp_all

theorem champion?_eq_some [LinearOrder α] {rank : α → γ} {l : List α} (hsorted : l.Pairwise (· < ·))
    {m : α} (h : champion? rank l = some m)
    : m ∈ l ∧ ∀ a ∈ l, a ≠ m → rank a < rank m ∨ rank a = rank m ∧ m < a := by
  refine ⟨champion?_mem h, ?_⟩
  induction l using List.reverseRecOn generalizing m with
  | nil => simp
  | append_singleton l b ih =>
    rw [List.pairwise_append] at hsorted
    rcases hsorted with ⟨hsorted, -, hlast⟩
    rw [champion?_concat] at h
    cases hm : champion? rank l with
    | none =>
      rw [hm, keep, Option.some.injEq] at h
      rw [champion?_eq_none_iff] at hm
      subst hm h
      simp
    | some m' =>
      have hmem := champion?_mem hm
      have hbest := ih hsorted hm
      rw [hm, keep] at h
      split at h
      -- the new element outranks the champion so far, and so all the others
      next hlt =>
        rw [Option.some.injEq] at h
        subst h
        intro a ha hne
        rcases List.mem_append.mp ha with ha | ha
        . left
          by_cases heq : a = m'
          . exact heq ▸ hlt
          . rcases hbest a ha heq with hless | ⟨heq, -⟩
            . exact hless.trans hlt
            . exact heq ▸ hlt
        . exact absurd (List.mem_singleton.mp ha) hne
      -- the champion stays, also on equal rank, where it is less than the new element
      next hge =>
        rw [Option.some.injEq] at h
        subst h
        intro a ha hne
        rcases List.mem_append.mp ha with ha | ha
        . exact hbest a ha hne
        . rw [List.mem_singleton] at ha
          subst ha
          rcases lt_or_eq_of_le (not_lt.mp hge) with hless | heq
          . exact .inl hless
          . exact .inr ⟨heq, hlast m' hmem a (by simp)⟩

end Champion
