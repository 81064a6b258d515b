import FoxyServer.Library.Machine
import Mathlib.Data.List.Forall2

/-!
This module contains machines that are part of another one, and machines that carry out another one. What a part
shows while other events come in between is what it shows by itself, if no other event reaches it.
-/

namespace Machine

variable {σ ε α τ δ β : Type u}

def only (m : Machine σ ε α) (selected : ε → Bool) : Machine σ ε α where
  step s e := do
    let (s, actions) ← m.step s e
    return (s, if selected e then actions else [])

variable {m : Machine σ ε α} {n : Machine τ δ β} {s s' : σ} {t : τ} {actions : List α}

theorem only_step_eq_ok {selected : ε → Bool} {e : ε} {shown : List α}
    : (m.only selected).step s e = .ok (s', shown)
        ↔
      ∃ actions, m.step s e = .ok (s', actions) ∧ shown = if selected e then actions else [] := by
  simp only [only, Outcome.bind_eq_ok, Outcome.pure_eq_ok, Outcome.ok.injEq, Prod.mk.injEq]
  constructor
  . rintro ⟨⟨s1, actions⟩, hstep, rfl, rfl⟩
    exact ⟨actions, hstep, rfl⟩
  . rintro ⟨actions, hstep, rfl⟩
    exact ⟨(s', actions), hstep, rfl, rfl⟩

/--
The machine `n` is a part of `m`: the events that `event` selects are taken by the part as they would be if it
were alone, and no other event reaches it.
-/
structure HasPart (m : Machine σ ε α) (n : Machine τ δ β) (event : ε → Option δ) (R : σ → τ → Prop)
    (A : α → β → Prop) : Prop where
  own : ∀ {s t e d s' actions}, R s t → event e = some d → m.step s e = .ok (s', actions) →
    ∃ t' actions', n.step t d = .ok (t', actions') ∧ List.Forall₂ A actions actions' ∧ R s' t'
  other : ∀ {s t e s' actions}, R s t → event e = none → m.step s e = .ok (s', actions) → R s' t

variable {event : ε → Option δ} {R : σ → τ → Prop} {A : α → β → Prop}

/-- In every run the part does what it does when it is given its own events one after another. -/
theorem HasPart.run (h : m.HasPart n event R A) (hR : R s t) {es : List ε}
    (hrun : (m.only (fun e => (event e).isSome)).run s es = .ok (s', actions))
    : ∃ t' actions', n.run t (es.filterMap event) = .ok (t', actions') ∧ List.Forall₂ A actions actions'
        ∧ R s' t' := by
  induction es generalizing s t actions with
  | nil =>
    simp only [run_nil, Outcome.ok.injEq, Prod.mk.injEq] at hrun
    rcases hrun with ⟨rfl, rfl⟩
    exact ⟨t, [], rfl, .nil, hR⟩
  | cons e es ih =>
    rw [Machine.run] at hrun
    rcases Outcome.bind_eq_ok.mp hrun with ⟨⟨s1, shown1⟩, hstep, hrun⟩
    rcases Outcome.bind_eq_ok.mp hrun with ⟨⟨s2, shown2⟩, hrest, hrun⟩
    simp only [Outcome.pure_eq_ok, Outcome.ok.injEq, Prod.mk.injEq] at hrun
    rcases hrun with ⟨rfl, rfl⟩
    rcases only_step_eq_ok.mp hstep with ⟨actions1, hown, rfl⟩
    cases hevent : event e with
    | none =>
      rw [List.filterMap_cons_none hevent, Option.isSome_none, if_neg (by decide), List.nil_append]
      exact ih (h.other hR hevent hown) hrest
    | some d =>
      rcases h.own hR hevent hown with ⟨t1, actions1', hstep', hactions1, hR1⟩
      rcases ih hR1 hrest with ⟨t', actions', hrun', hactions, hR'⟩
      rw [List.filterMap_cons_some hevent, Option.isSome_some, if_pos rfl]
      refine ⟨t', actions1' ++ actions', ?_, List.rel_append hactions1 hactions, hR'⟩
      rw [run_cons_of_step hstep', hrun', Outcome.ok_bind]

/--
If the machine `n` can follow every step of `m` by events that `T` makes of it, and act alike, then it can
follow every run.
-/
theorem run_follows {n : Machine τ δ α} {R : σ → τ → Prop} {T : ε → List δ → Prop}
    (hstep : ∀ {s t e s' actions}, R s t → m.step s e = .ok (s', actions) →
      ∃ t' ds, T e ds ∧ n.run t ds = .ok (t', actions) ∧ R s' t')
    (hR : R s t) {es : List ε} (hrun : m.run s es = .ok (s', actions))
    : ∃ t' dss, List.Forall₂ T es dss ∧ n.run t dss.flatten = .ok (t', actions) ∧ R s' t' := by
  induction es generalizing s t actions with
  | nil =>
    simp only [run_nil, Outcome.ok.injEq, Prod.mk.injEq] at hrun
    rcases hrun with ⟨rfl, rfl⟩
    exact ⟨t, [], .nil, rfl, hR⟩
  | cons e es ih =>
    rw [Machine.run] at hrun
    rcases Outcome.bind_eq_ok.mp hrun with ⟨⟨s1, actions1⟩, hfirst, hrun⟩
    rcases Outcome.bind_eq_ok.mp hrun with ⟨⟨s2, actions2⟩, hrest, hrun⟩
    simp only [Outcome.pure_eq_ok, Outcome.ok.injEq, Prod.mk.injEq] at hrun
    rcases hrun with ⟨rfl, rfl⟩
    rcases hstep hR hfirst with ⟨t1, ds, hds, hrun1, hR1⟩
    rcases ih hR1 hrest with ⟨t', dss, hdss, hrun', hR'⟩
    exact ⟨t', ds :: dss, .cons hds hdss, run_append_of_run hrun1 hrun', hR'⟩

end Machine
