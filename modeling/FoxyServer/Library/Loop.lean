import FoxyServer.Library.Outcome

/-!
This module contains `while (true)` loops: a body that either goes around again with a new state or
leaves the loop, run with a bound on the number of passes. A measure that every further pass decreases
shows that some bound is enough.
-/

inductive Pass (σ : Type u) (β : Type u) where
  | again (s : σ)
  | leave (b : β)
  deriving DecidableEq, Repr

namespace Pass

variable {σ β : Type u}

/--
Run the loop for at most `fuel` passes. The result is `none` if it has not ended by then.
-/
def loop (body : σ → Outcome (Pass σ β)) : Nat → σ → Option (Outcome β)
  | 0, _ => none
  | fuel + 1, s =>
    match body s with
    | .ok (.again s') => loop body fuel s'
    | .ok (.leave b) => some (.ok b)
    | .throws e => some (.throws e)
    | .undefined => some .undefined

variable {body : σ → Outcome (Pass σ β)} {fuel : Nat} {s s' : σ}

theorem loop_mono {fuel' : Nat} {r : Outcome β} (h : loop body fuel s = some r) (hle : fuel ≤ fuel')
    : loop body fuel' s = some r := by
  induction fuel generalizing s fuel' with
  | zero => cases h
  | succ fuel ih =>
    cases fuel' with
    | zero => omega
    | succ fuel' =>
      rw [loop] at h ⊢
      split at h
      . exact ih h (by omega)
      . exact h
      . exact h
      . exact h

/--
If every further pass decreases `μ`, then the loop ends within `μ s + 1` passes.
-/
theorem loop_ends (μ : σ → Nat) (hμ : ∀ s s', body s = .ok (.again s') → μ s' < μ s) (s : σ)
    : ∃ r, ∀ fuel, μ s < fuel → loop body fuel s = some r := by
  have hends : ∀ n s, μ s < n → ∃ r, loop body n s = some r := by
    intro n
    induction n with
    | zero => omega
    | succ n ih =>
      intro s hs
      rw [loop]
      split
      next s' h =>
        have := hμ s s' h
        exact ih s' (by omega)
      . exact ⟨_, rfl⟩
      . exact ⟨_, rfl⟩
      . exact ⟨_, rfl⟩
  rcases hends (μ s + 1) s (by omega) with ⟨r, hr⟩
  exact ⟨r, fun fuel hfuel => loop_mono hr hfuel⟩

theorem loop_keeps {I : σ → Prop} {p : β → Prop} (hagain : ∀ s s', I s → body s = .ok (.again s') → I s')
    (hleave : ∀ s b, I s → body s = .ok (.leave b) → p b) {b : β} (hs : I s)
    (h : loop body fuel s = some (.ok b)) : p b := by
  induction fuel generalizing s with
  | zero => cases h
  | succ fuel ih =>
    rw [loop] at h
    split at h
    next s' hbody => exact ih (hagain s s' hs hbody) h
    next b' hbody =>
      cases h
      exact hleave s b hs hbody
    next => cases h
    next => cases h

end Pass
