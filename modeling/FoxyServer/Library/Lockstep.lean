import FoxyServer.Library.Scanner

/-!
This module contains pairs of inputs that a scanner cannot tell apart: where they differ, the scanner is in a
state in which the difference does not matter to it.
-/

namespace Scanner

variable {σ : Type u} {α : Type v}

/-- From states that `R` relates, elements that `P` relates lead to the same verdict and to related states. -/
def Lockstep (m : Scanner σ α) (R : σ → σ → Prop) (P : σ → α → α → Prop) : Prop :=
  ∀ {s s' a a'}, R s s' → P s a a' →
    (m.step s a).1 = (m.step s' a').1 ∧ R (m.step s a).2 (m.step s' a').2

/-- As far as the scanner reads the first input, the second one differs from it only as `P` allows. -/
def Alike (m : Scanner σ α) (P : σ → α → α → Prop) (s : σ) : List α → List α → Prop
  | [], [] => True
  | a :: l, a' :: l' => P s a a' ∧ ((m.step s a).1 = .more → m.Alike P (m.step s a).2 l l')
  | _, _ => False

variable {m : Scanner σ α} {R : σ → σ → Prop} {P : σ → α → α → Prop}

theorem alike_refl (hrefl : ∀ s a, P s a a) (s : σ) (l : List α) : m.Alike P s l l := by
  induction l generalizing s with
  | nil => trivial
  | cons a l ih => exact ⟨hrefl s a, fun _ => ih _⟩

theorem Alike.take {s : σ} {l l' : List α} (h : m.Alike P s l l') (k : Nat)
    : m.Alike P s (l.take k) (l'.take k) := by
  induction l generalizing s l' k with
  | nil =>
    cases l' with
    | nil => simpa only [List.take_nil] using h
    | cons a' l' => exact h.elim
  | cons a l ih =>
    cases l' with
    | nil => exact h.elim
    | cons a' l' =>
      cases k with
      | zero => trivial
      | succ k => exact ⟨h.1, fun hmore => ih (h.2 hmore) k⟩

theorem Alike.append {s : σ} {l l' r r' : List α} (h : m.Alike P s l l')
    (hrest : ∀ rest s1, m.scan s l = (.more, rest, s1) → m.Alike P s1 r r')
    : m.Alike P s (l ++ r) (l' ++ r') := by
  induction l generalizing s l' with
  | nil =>
    cases l' with
    | nil => exact hrest _ _ rfl
    | cons a' l' => exact h.elim
  | cons a l ih =>
    cases l' with
    | nil => exact h.elim
    | cons a' l' =>
      refine ⟨h.1, fun hmore => ih (h.2 hmore) (fun rest s1 hscan => hrest rest s1 ?_)⟩
      rw [scan]
      rcases hstep : m.step s a with ⟨verdict, s1⟩
      rw [hstep] at hmore hscan
      cases hmore
      exact hscan

theorem scan_alike (hlock : m.Lockstep R P) {s s' : σ} (hR : R s s') {l l' : List α}
    (hlength : l.length = l'.length) (h : m.Alike P s l l')
    : (m.scan s l).1 = (m.scan s' l').1 ∧ (m.scan s l).2.1.length = (m.scan s' l').2.1.length
        ∧ R (m.scan s l).2.2 (m.scan s' l').2.2 := by
  induction l generalizing s s' l' with
  | nil =>
    cases l' with
    | nil => exact ⟨rfl, rfl, hR⟩
    | cons a' l' => exact h.elim
  | cons a l ih =>
    cases l' with
    | nil => exact h.elim
    | cons a' l' =>
      simp only [List.length_cons, Nat.add_right_cancel_iff] at hlength
      rcases hlock hR h.1 with ⟨hverdict, hnext⟩
      have hmore := h.2
      rw [scan, scan]
      rcases hstep : m.step s a with ⟨verdict, s1⟩
      rcases hstep' : m.step s' a' with ⟨verdict', s1'⟩
      rw [hstep, hstep'] at hverdict hnext
      rw [hstep] at hmore
      cases hverdict
      cases verdict with
      | more => exact ih hnext hlength (hmore rfl)
      | good => exact ⟨rfl, hlength, hnext⟩
      | bad => exact ⟨rfl, hlength, hnext⟩

end Scanner
