import FoxyServer.Session.Exceptions

/-!
This module contains the ownership of sessions. A session belongs to the operation that is under way for it:
the callback of that operation starts another one or deletes the session, and nobody else could. A callback
that an exception leaves does neither.
-/

namespace Foxy

namespace Connection

variable {σ ω : Type}

/--
One operation is under way for a session that lives, and none for one that has deleted itself. A read inside
a callback counts as the operation of the callback that waits for it.
-/
def Owned (conn : Connection σ) : Prop :=
  conn.pending.length = if conn.destroyed then 0 else 1

instance (conn : Connection σ) : Decidable conn.Owned :=
  inferInstanceAs (Decidable (_ = _))

theorem owned_started (operation : Operation) (data buffer : Buffer) (beyond : Bytes) (own : σ)
    : (started operation data buffer beyond own).Owned := rfl

theorem owned_of_pending {conn : Connection σ} {operation : Operation} (hpending : conn.pending = [operation])
    (halive : conn.destroyed = false) : conn.Owned := by
  rw [Owned, hpending, halive]
  rfl

theorem alone_of_owned {conn : Connection σ} {operation : Operation} {pending : List Operation}
    (h : conn.Owned) (hpending : conn.pending = operation :: pending) : conn.destroyed = false ∧ pending = [] := by
  cases hdestroyed : conn.destroyed with
  | true => simp [Owned, hpending, hdestroyed] at h
  | false => simpa [Owned, hpending, hdestroyed] using h

def ClosesOwned (close : Connection σ → Connection σ) : Prop :=
  ∀ conn : Connection σ, conn.pending = [] → conn.destroyed = false → (close conn).Owned

def ClosesDisowned (close : Connection σ → Connection σ) : Prop :=
  ∀ conn : Connection σ, conn.pending = [] → conn.destroyed = false → ¬(close conn).Owned

/-- The read inside a callback does not fail, nor does a write if `writesToo`. -/
def Undisturbed (writesToo : Bool) (state : Connection σ × Shared ω) (completion : Completion) : Prop :=
  completion.error = true → ∀ operation ∈ state.1.pending,
    (∀ stale, operation ≠ .reread stale) ∧ (writesToo → operation ≠ .write)

theorem step_owned {cls : SessionClass σ ω} {writesToo : Bool} (hclose : ClosesOwned cls.close)
    (habort : writesToo = false → ClosesOwned cls.abort) {state state' : Connection σ × Shared ω}
    {completion : Completion} {actions : List Action} (h : state.1.Owned)
    (hundisturbed : Undisturbed writesToo state completion)
    (hstep : (machine cls).step state completion = .ok (state', actions)) : state'.1.Owned := by
  rcases state with ⟨conn, shared⟩
  cases hpending : conn.pending with
  | nil =>
    simp only [machine, step, hpending, Outcome.ok.injEq, Prod.mk.injEq] at hstep
    rw [← hstep.1]
    exact h
  | cons operation pending =>
    rcases step_ended kept_true hpending trivial hstep with ⟨halive, hended⟩
    have hnone : pending = [] := (alone_of_owned h hpending).2
    subst hnone
    have hmem : operation ∈ conn.pending := by
      rw [hpending]
      exact List.mem_cons_self
    cases hended with
    | scheduled next hpending halive _ => exact owned_of_pending hpending halive
    | deleted hpending hdestroyed _ =>
      rw [Owned, hpending, hdestroyed]
      rfl
    | abandoned stale hoperation herror _ _ _ =>
      exact absurd hoperation ((hundisturbed herror operation hmem).1 stale)
    | answered _ hpending halive _ => exact owned_of_pending hpending halive
    | refused hpending halive _ => exact owned_of_pending hpending halive
    | closed _ hpending halive _ => exact hclose _ hpending halive
    | aborted hoperation herror hpending halive _ =>
      refine habort ?_ _ hpending halive
      cases hwrites : writesToo with
      | false => rfl
      | true => exact absurd hoperation ((hundisturbed herror operation hmem).2 hwrites)

theorem handleReread_error {cls : SessionClass σ ω} {conn : Connection σ} {shared : Shared ω}
    {bytesTransferred : Nat} {out : (Connection σ × Shared ω) × List Action}
    (h : conn.handleReread cls shared true bytesTransferred = .ok out)
    : out.1.1.pending = conn.pending ∧ out.1.1.destroyed = conn.destroyed := by
  rcases Outcome.bind_eq_ok.mp h with ⟨⟨result, parser, request⟩, -, h⟩
  rw [← Outcome.ok.inj h]
  exact ⟨rfl, rfl⟩

theorem step_disowned {cls : SessionClass σ ω} {writesToo : Bool}
    (habort : writesToo = true → ClosesDisowned cls.abort) {state state' : Connection σ × Shared ω}
    {completion : Completion} {actions : List Action} (h : state.1.Owned)
    (hdisturbed : ¬Undisturbed writesToo state completion)
    (hstep : (machine cls).step state completion = .ok (state', actions)) : ¬state'.1.Owned := by
  rcases state with ⟨conn, shared⟩
  simp only [Undisturbed, Classical.not_imp, not_forall, not_and_or, not_not] at hdisturbed
  rcases hdisturbed with ⟨herror, operation, hmem, hoperation⟩
  rcases List.exists_cons_of_ne_nil (List.ne_nil_of_mem hmem) with ⟨operation', pending, hpending⟩
  rcases alone_of_owned h hpending with ⟨halive, rfl⟩
  have halive : conn.destroyed = false := halive
  have hmem : operation ∈ conn.pending := hmem
  rw [hpending, List.mem_singleton] at hmem
  subst hmem
  simp only [machine, step, hpending, halive, Bool.false_eq_true, if_false] at hstep
  rcases hoperation with ⟨stale, rfl⟩ | ⟨hwrites, rfl⟩
  . rw [herror] at hstep
    rcases handleReread_error hstep with ⟨hnone, halive'⟩
    rw [Owned, hnone, halive']
    exact Nat.zero_ne_one
  . have hout := ((handleWrite_eq_ok cls).mp hstep).2
    rw [herror] at hout
    rw [← (Prod.mk.inj hout).1]
    exact habort hwrites _ rfl rfl

/-! ## Exceptions -/

/-- Once an exception has left a callback, its operation is over and no other has been started. -/
def forsaken (conn : Connection σ) : Connection σ :=
  { conn with pending := conn.pending.tail }

/--
A session as the process goes on after an exception. What else the callback has done to it does not matter,
since no other callback of it follows.
-/
def lasting (cls : SessionClass σ ω) : Machine (Connection σ × Shared ω) Completion Action where
  step state completion :=
    match step cls state completion with
    | .throws _ => .ok ((state.1.forsaken, state.2), [])
    | out => out

/-- Nothing goes wrong: no disturbance and no exception. -/
def Untroubled (cls : SessionClass σ ω) (writesToo : Bool) (state : Connection σ × Shared ω)
    (completion : Completion) : Prop :=
  Undisturbed writesToo state completion ∧ NothingThrown cls state completion

theorem nothingThrown_iff {cls : SessionClass σ ω} {state : Connection σ × Shared ω} {completion : Completion}
    (h : state.1.Owned)
    : NothingThrown cls state completion ↔ ¬(step cls state completion).Throws := by
  rcases state with ⟨conn, shared⟩
  cases hpending : conn.pending with
  | nil => simp [nothingThrown_nil hpending, step, hpending]
  | cons operation pending => rw [step_throws_iff hpending (alone_of_owned h hpending).1, not_not]

theorem forsaken_disowned {cls : SessionClass σ ω} {state : Connection σ × Shared ω} {completion : Completion}
    (h : state.1.Owned) (hthrows : (step cls state completion).Throws) : ¬state.1.forsaken.Owned := by
  rcases state with ⟨conn, shared⟩
  cases hpending : conn.pending with
  | nil => simp [step, hpending] at hthrows
  | cons operation pending =>
    rcases alone_of_owned h hpending with ⟨halive, rfl⟩
    have halive : conn.destroyed = false := halive
    simp [Owned, forsaken, hpending, halive]

theorem lasting_owned_iff {cls : SessionClass σ ω} {writesToo : Bool} (hclose : ClosesOwned cls.close)
    (hsafe : writesToo = false → ClosesOwned cls.abort) (hdisowned : writesToo = true → ClosesDisowned cls.abort)
    {state state' : Connection σ × Shared ω} {completion : Completion} {actions : List Action}
    (h : state.1.Owned) (hstep : (lasting cls).step state completion = .ok (state', actions))
    : state'.1.Owned ↔ Untroubled cls writesToo state completion := by
  rw [Untroubled, nothingThrown_iff h]
  simp only [lasting] at hstep
  split at hstep
  next e hthrows =>
    cases hstep
    exact iff_of_false (forsaken_disowned h ⟨e, hthrows⟩) (fun htrouble => htrouble.2 ⟨e, hthrows⟩)
  next hreturns =>
    have hquiet : ¬(step cls state completion).Throws := fun ⟨e, he⟩ => hreturns e he
    constructor
    . intro howned
      refine ⟨?_, hquiet⟩
      by_contra hdisturbed
      exact step_disowned hdisowned h hdisturbed hstep howned
    . intro huntroubled
      exact step_owned hclose hsafe h huntroubled.1 hstep

/--
Every run without trouble ends with a session that is owned, and the next completion leaves it so exactly if
it brings no trouble either.
-/
def OwnedUntilDisturbed (cls : SessionClass σ ω) (writesToo : Bool) (start : Connection σ × Shared ω) : Prop :=
  ∀ (completions : List Completion) (state : Connection σ × Shared ω) (actions : List Action),
    (lasting cls).Meets (fun completion => [completion]) (Untroubled cls writesToo) start completions →
    (lasting cls).run start completions = .ok (state, actions) →
    state.1.Owned
      ∧ ∀ completion state' actions', (lasting cls).step state completion = .ok (state', actions') →
          (state'.1.Owned ↔ Untroubled cls writesToo state completion)

theorem ownedUntilDisturbed {cls : SessionClass σ ω} {writesToo : Bool} {start : Connection σ × Shared ω}
    (hclose : ClosesOwned cls.close) (hsafe : writesToo = false → ClosesOwned cls.abort)
    (hdisowned : writesToo = true → ClosesDisowned cls.abort) (h : start.1.Owned)
    : OwnedUntilDisturbed cls writesToo start := by
  intro completions state actions huntroubled hrun
  have howned : state.1.Owned :=
    Machine.run_keeps (I := fun state => state.1.Owned)
      (fun h huntroubled hstep => (lasting_owned_iff hclose hsafe hdisowned h hstep).mpr huntroubled) h
      huntroubled hrun
  exact ⟨howned, fun completion state' actions' hstep => lasting_owned_iff hclose hsafe hdisowned howned hstep⟩

end Connection

variable {ω : Type}

theorem Session.closesOwned : Connection.ClosesOwned Session.closeSocket :=
  fun conn hpending halive =>
    Connection.owned_of_pending (by rw [Session.closeSocket, Connection.await, hpending, List.nil_append]) halive

theorem Session.abort_disowned (handlers : Handlers ω) : Connection.ClosesDisowned (Session.cls handlers).abort := by
  intro conn hpending _ howned
  simp [Connection.Owned, Session.cls, Session.closeSocket, Connection.await, Connection.delete, hpending]
    at howned

theorem Connection.closesOwned_delete {σ : Type} : Connection.ClosesOwned (Connection.delete (σ := σ)) := by
  intro conn hpending _
  rw [Owned, delete, hpending]
  rfl

/--
As long as no read inside a callback fails, no exception leaves a callback and, in a `Session`, no write
fails, a session is under way exactly once until it deletes itself, and not at all from then on.
-/
theorem sessions_owned
    : (∀ (handlers : Handlers ω) (data buffer : Buffer) (beyond : Bytes)
          (generator : RequestHandlerGenerator) (shared : Shared ω),
        Connection.OwnedUntilDisturbed (Session.cls handlers) true
          (Session.start data buffer beyond generator, shared))
        ∧ ∀ (data buffer : Buffer) (beyond hostname : Bytes) (shared : Shared ω),
          Connection.OwnedUntilDisturbed HttpSession.cls false
            (HttpSession.start data buffer beyond hostname, shared) := by
  constructor
  . intro handlers data buffer beyond generator shared
    exact Connection.ownedUntilDisturbed Session.closesOwned (fun h => by cases h)
      (fun _ => Session.abort_disowned handlers) (Connection.owned_started ..)
  . intro data buffer beyond hostname shared
    exact Connection.ownedUntilDisturbed Connection.closesOwned_delete
      (fun _ => Connection.closesOwned_delete) (fun h => by cases h) (Connection.owned_started ..)

/-- A session is owned when its redirect is under way, and one whose handshake fails is not under way at all. -/
theorem sessions_owned_redirected
    : (∀ state actions, (Connection.lasting HttpSession.cls).run
          (HttpSession.start .zeroed .zeroed [] [], ({ world := () } : Shared Unit))
          [{ read := ⟨Bytes.lit "GET / HTTP/1.1\r\n\r\n", by decide⟩ }] = .ok (state, actions) → state.1.Owned)
        ∧ ∀ state actions, (Connection.lasting (Session.cls refuseAll)).run
          (Session.start .zeroed .zeroed [] {}, { world := () }) [{ error := true }] = .ok (state, actions) →
            state.1.Owned := by
  constructor
  . intro state actions hrun
    refine (sessions_owned.2 .zeroed .zeroed [] [] { world := () } _ state actions ?_ hrun).1
    refine ⟨⟨Bool.noConfusion, (Connection.nothingThrown_read rfl).mpr ⟨rfl, fun _ => ⟨?_, ?_⟩⟩⟩,
      fun _ _ _ => trivial⟩
    . exact .inl (by decide +kernel)
    . exact fun _ _ _ => Outcome.not_throws_ok _
  . intro state actions hrun
    refine (sessions_owned.1 refuseAll .zeroed .zeroed [] {} { world := () } _ state actions ?_ hrun).1
    refine ⟨⟨fun _ operation hmem => ?_, ?_⟩, fun _ _ _ => trivial⟩
    . rw [List.mem_singleton.mp hmem]
      exact ⟨fun _ => Operation.noConfusion, fun _ => Operation.noConfusion⟩
    . exact (Connection.nothingThrown_other rfl Operation.noConfusion (fun _ => Operation.noConfusion)
        Operation.noConfusion).mpr Operation.noConfusion

/--
A client that goes away in the middle of its request leaves a session behind that nobody will ever delete,
and one that goes away before it has been answered has its session deleted with the shutdown under way.
-/
theorem sessions_not_owned
    : (¬∀ (data buffer : Buffer) (beyond hostname : Bytes) (shared : Shared Unit)
          (completions : List Completion) (state : Connection Bytes × Shared Unit) (actions : List Action),
          (Connection.lasting HttpSession.cls).run (HttpSession.start data buffer beyond hostname, shared)
            completions = .ok (state, actions) → state.1.Owned)
        ∧ ¬∀ (handlers : Handlers Unit) (data buffer : Buffer) (beyond : Bytes)
            (generator : RequestHandlerGenerator) (shared : Shared Unit) (completions : List Completion)
            (state : Connection RequestHandlerGenerator × Shared Unit) (actions : List Action),
          (Connection.lasting (Session.cls handlers)).run (Session.start data buffer beyond generator, shared)
            completions = .ok (state, actions) → state.1.Owned := by
  constructor
  . have hleak : ((Connection.lasting HttpSession.cls).run
        (HttpSession.start .zeroed .zeroed [] [], ({ world := () } : Shared Unit))
        [{ read := ⟨Bytes.lit "GET", by decide⟩ }, { error := true }]).Yields
          (fun out => out.1.1.pending = [] ∧ out.1.1.destroyed = false) := by
      decide +kernel
    rcases hleak with ⟨⟨state, actions⟩, hrun, hpending, halive⟩
    intro h
    have howned := h .zeroed .zeroed [] [] { world := () } _ state actions hrun
    rw [Connection.Owned, hpending, halive] at howned
    cases howned
  . have hdeleted : ((Connection.lasting (Session.cls refuseAll)).run
        (Session.start .zeroed .zeroed [] {}, { world := () })
        [{}, { read := ⟨Bytes.lit "(", by decide⟩ }, { error := true }]).Yields
          (fun out => out.1.1.pending = [.shutdown] ∧ out.1.1.destroyed = true) := by
      decide +kernel
    rcases hdeleted with ⟨⟨state, actions⟩, hrun, hpending, hdestroyed⟩
    intro h
    have howned := h refuseAll .zeroed .zeroed [] {} { world := () } _ state actions hrun
    rw [Connection.Owned, hpending, hdestroyed] at howned
    cases howned

end Foxy
