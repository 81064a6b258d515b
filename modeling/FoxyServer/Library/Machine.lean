import FoxyServer.Library.Outcome

/-!
This module contains machines that take one event after another, change their state and act. A run is
cut into jobs, each a sequence of events; if every job leaves the machine ready for the next one, then a
run acts as its jobs do, one after another.
-/

structure Machine (σ ε α : Type u) where
  step : σ → ε → Outcome (σ × List α)

namespace Machine

variable {σ ε α δ : Type u} (m : Machine σ ε α)

def run (s : σ) : List ε → Outcome (σ × List α)
  | [] => .ok (s, [])
  | e :: es => do
    let (s, actions) ← m.step s e
    let (s, more) ← run s es
    return (s, actions ++ more)

variable {m} {s s' : σ} {es es' : List ε} {actions actions' : List α}

@[simp]
theorem run_nil : m.run s [] = .ok (s, []) := rfl

theorem run_singleton (e : ε) : m.run s [e] = m.step s e := by
  rw [run]
  rcases m.step s e with ⟨s', actions⟩ | _ | _
  . simp
  . rfl
  . rfl

theorem run_cons_of_step {e : ε} (hstep : m.step s e = .ok (s', actions))
    : m.run s (e :: es) = m.run s' es >>= fun (s, more) => .ok (s, actions ++ more) := by
  simp only [run, hstep, Outcome.ok_bind, Outcome.pure_eq_ok]

theorem run_append (h : m.run s es = .ok (s', actions))
    : m.run s (es ++ es') = m.run s' es' >>= fun (s, more) => .ok (s, actions ++ more) := by
  induction es generalizing s actions with
  | nil =>
    simp only [run_nil, Outcome.ok.injEq, Prod.mk.injEq] at h
    rcases h with ⟨rfl, rfl⟩
    rcases hrun : m.run s es' with ⟨s', more⟩ | _ | _ <;> simp [hrun]
  | cons e es ih =>
    rw [run] at h
    rcases Outcome.bind_eq_ok.mp h with ⟨⟨s1, actions1⟩, hstep, h⟩
    rcases Outcome.bind_eq_ok.mp h with ⟨⟨s2, actions2⟩, hrun, h⟩
    simp only [Outcome.pure_eq_ok, Outcome.ok.injEq, Prod.mk.injEq] at h
    rcases h with ⟨rfl, rfl⟩
    rw [List.cons_append, run_cons_of_step hstep, ih hrun]
    rcases m.run s2 es' with ⟨s3, more⟩ | _ | _ <;> simp

theorem run_append_of_run (h : m.run s es = .ok (s', actions)) {s'' : σ}
    (h' : m.run s' es' = .ok (s'', actions')) : m.run s (es ++ es') = .ok (s'', actions ++ actions') := by
  rw [run_append h, h', Outcome.ok_bind]

theorem run_of_prefix (h : m.run s es = .ok (s', actions)) (hpre : es' <+: es)
    : ∃ s'' actions', m.run s es' = .ok (s'', actions') ∧ actions' <+: actions := by
  induction es' generalizing s s' es actions with
  | nil => exact ⟨s, [], rfl, List.nil_prefix⟩
  | cons e es' ih =>
    cases es with
    | nil => simp at hpre
    | cons e1 es =>
      rcases List.cons_prefix_cons.mp hpre with ⟨rfl, htail⟩
      rw [run] at h
      rcases Outcome.bind_eq_ok.mp h with ⟨⟨s1, actions1⟩, hstep, h⟩
      rcases Outcome.bind_eq_ok.mp h with ⟨⟨s2, actions2⟩, hrun, h⟩
      simp only [Outcome.pure_eq_ok, Outcome.ok.injEq, Prod.mk.injEq] at h
      rcases ih hrun htail with ⟨s'', actions', hrun', hactions⟩
      refine ⟨s'', actions1 ++ actions', ?_, ?_⟩
      . rw [run_cons_of_step hstep, hrun', Outcome.ok_bind]
      . rw [← h.2]
        exact (List.prefix_append_right_inj actions1).mpr hactions

/-! ## Jobs -/

variable (m) (events : δ → List ε)

def Meets (P : σ → δ → Prop) (s : σ) : List δ → Prop
  | [] => True
  | d :: ds => P s d ∧ ∀ s' actions, m.run s (events d) = .ok (s', actions) → Meets P s' ds

variable {m events} {P Q : σ → δ → Prop}

theorem Meets.mono (himp : ∀ s d, P s d → Q s d) {ds : List δ} (h : m.Meets events P s ds)
    : m.Meets events Q s ds := by
  induction ds generalizing s with
  | nil => trivial
  | cons d ds ih => exact ⟨himp s d h.1, fun s' actions hrun => ih (h.2 s' actions hrun)⟩

theorem meets_of_forall {ds : List δ} (h : ∀ d ∈ ds, ∀ s, P s d) (s : σ) : m.Meets events P s ds := by
  induction ds generalizing s with
  | nil => trivial
  | cons d ds ih =>
    exact ⟨h d List.mem_cons_self s, fun s' _ _ => ih (fun d' hd' => h d' (List.mem_cons_of_mem d hd')) s'⟩

theorem meets_true (s : σ) (ds : List δ) : m.Meets events (fun _ _ => True) s ds := by
  induction ds generalizing s with
  | nil => trivial
  | cons d ds ih => exact ⟨trivial, fun s' _ _ => ih s'⟩

/--
What holds of a state and of all that has been done up to it, and is kept by every step that meets the
condition, holds after every run of such steps.
-/
theorem run_invariant {I : σ → List α → Prop} {R : σ → ε → Prop}
    (hstep : ∀ {s e s' done actions}, I s done → R s e → m.step s e = .ok (s', actions) →
      I s' (done ++ actions))
    {done : List α} (h : I s done) (hmeets : m.Meets (fun e => [e]) R s es)
    (hrun : m.run s es = .ok (s', actions)) : I s' (done ++ actions) := by
  induction es generalizing s done actions with
  | nil =>
    simp only [run_nil, Outcome.ok.injEq, Prod.mk.injEq] at hrun
    rw [← hrun.1, ← hrun.2, List.append_nil]
    exact h
  | cons e es ih =>
    rw [run] at hrun
    rcases Outcome.bind_eq_ok.mp hrun with ⟨⟨s1, actions1⟩, hfirst, hrun⟩
    rcases Outcome.bind_eq_ok.mp hrun with ⟨⟨s2, actions2⟩, hrest, hrun⟩
    simp only [Outcome.pure_eq_ok, Outcome.ok.injEq, Prod.mk.injEq] at hrun
    rcases hrun with ⟨rfl, rfl⟩
    rw [← List.append_assoc]
    exact ih (hstep h hmeets.1 hfirst) (hmeets.2 s1 actions1 (by rw [run_singleton, hfirst])) hrest

theorem run_keeps {I : σ → Prop} {R : σ → ε → Prop}
    (hstep : ∀ {s e s' actions}, I s → R s e → m.step s e = .ok (s', actions) → I s') (h : I s)
    (hmeets : m.Meets (fun e => [e]) R s es) (hrun : m.run s es = .ok (s', actions)) : I s' :=
  @run_invariant _ _ _ m s s' es actions (fun s _ => I s) R (fun h hmeets hs => hstep h hmeets hs) [] h
    hmeets hrun

variable {β : Type u} {view : α → Option β} {output : δ → List β}
  {Ready : σ → Prop}

/--
If from a ready state every job that meets the condition shows what it should and leaves the machine ready,
then so does every sequence of jobs that meet it.
-/
theorem run_jobs
    (hjob : ∀ s d, Ready s → P s d → ∃ s' actions, m.run s (events d) = .ok (s', actions)
      ∧ actions.filterMap view = output d ∧ Ready s')
    {ds : List δ} (hready : Ready s) (hmeets : m.Meets events P s ds)
    : ∃ s' actions, m.run s (ds.flatMap events) = .ok (s', actions)
        ∧ actions.filterMap view = ds.flatMap output ∧ Ready s' := by
  induction ds generalizing s with
  | nil => exact ⟨s, [], rfl, rfl, hready⟩
  | cons d ds ih =>
    rcases hjob s d hready hmeets.1 with ⟨s1, actions1, hrun1, hview1, hready1⟩
    rcases ih hready1 (hmeets.2 s1 _ hrun1) with ⟨s', actions', hrun', hview', hready'⟩
    refine ⟨s', actions1 ++ actions', run_append_of_run hrun1 hrun', ?_, hready'⟩
    rw [List.filterMap_append, hview1, hview', List.flatMap_cons]

end Machine
