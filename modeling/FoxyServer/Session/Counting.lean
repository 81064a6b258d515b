import FoxyServer.Library.Tally
import FoxyServer.Session.Callbacks
import FoxyServer.Session.Process

/-!
This module contains the counters of the status page. Whatever the sessions do and in whatever order, the
table counts the responses that have been handed out for writing.
-/

namespace Foxy

def statusString.sentCode (code : Response.StatusCode) : Bytes :=
  (((statusString.toBuffer code).dropWhile (· ≠ ' '.toUInt8)).drop 1).takeWhile (· ≠ ' '.toUInt8)

theorem DataCollector.mapStatusToString_eq (code : Response.StatusCode)
    : mapStatusToString code = statusString.sentCode code := by
  cases code <;> rfl

def Action.written : Action → Option (Bytes × Bytes)
  | .handleRequest _ => none
  | .asyncWrite request response => some (request.uri, statusString.sentCode response.code)

def writes (actions : List Action) : List (Bytes × Bytes) :=
  actions.filterMap Action.written

theorem writes_append (actions actions' : List Action)
    : writes (actions ++ actions') = writes actions ++ writes actions' :=
  List.filterMap_append

theorem DataCollector.statusMap_incrementRequest (collector : DataCollector) (uri : Bytes)
    (code : Response.StatusCode)
    : (collector.incrementRequest uri code).statusMap
        = Tally.increment collector.statusMap uri (statusString.sentCode code) := by
  rw [← mapStatusToString_eq, incrementRequest, Tally.increment]
  dsimp only
  cases ((collector.statusMap.find? uri).getD .empty).find? (mapStatusToString code) with
  | none => rfl
  | some times => rfl

def Counted {ω : Type} (shared : Shared ω) (done : List Action) : Prop :=
  Tally.Counts shared.collector.statusMap (writes done)

namespace Connection

variable {σ ω : Type}

def LeavesCounters (cls : SessionClass σ ω) : Prop :=
  ∀ own shared request response own' shared',
    cls.handleRequest own shared request = .ok (response, own', shared') →
    shared'.collector.statusMap = shared.collector.statusMap

theorem counted_step {cls : SessionClass σ ω} (hcls : LeavesCounters cls)
    {state state' : Connection σ × Shared ω} {completion : Completion} {done actions : List Action}
    (h : Counted state.2 done) (hstep : (machine cls).step state completion = .ok (state', actions))
    : Counted state'.2 (done ++ actions) := by
  rcases state with ⟨conn, shared⟩
  cases hpending : conn.pending with
  | nil =>
    simp only [machine, step, hpending, Outcome.ok.injEq, Prod.mk.injEq] at hstep
    rw [← hstep.1, ← hstep.2, List.append_nil]
    exact h
  | cons operation pending =>
    rw [Counted, writes_append]
    have hidle : Tally.Counts shared.collector.statusMap (writes done ++ []) := by
      rw [List.append_nil]
      exact h
    cases (step_ended kept_true hpending trivial hstep).2 with
    | scheduled => exact hidle
    | deleted => exact hidle
    | abandoned => exact hidle
    | closed => exact hidle
    | aborted => exact hidle
    | refused =>
      rw [DataCollector.statusMap_incrementRequest]
      exact h.increment _ _
    | answered hhandle =>
      rw [DataCollector.statusMap_incrementRequest, hcls _ _ _ _ _ _ hhandle]
      exact h.increment _ _

theorem counted_wrapped {cls : SessionClass σ ω} (hcls : LeavesCounters cls) {S : Type} {wrap : Connection σ → S}
    {conn : Connection σ} {shared shared' : Shared ω} {completion : Completion} {session : S}
    {done actions : List Action} (h : Counted shared done)
    (hstep : ((machine cls).step (conn, shared) completion >>= fun out => pure ((wrap out.1.1, out.1.2), out.2))
      = Outcome.ok ((session, shared'), actions))
    : Counted shared' (done ++ actions) := by
  rcases Outcome.bind_eq_ok.mp hstep with ⟨⟨⟨conn', shared1⟩, actions1⟩, hconn, hstep⟩
  simp only [Outcome.pure_eq_ok, Outcome.ok.injEq, Prod.mk.injEq] at hstep
  rw [← hstep.1.2, ← hstep.2]
  have h : Counted (conn, shared).2 done := h
  exact counted_step hcls h hconn

end Connection

theorem RequestHandler.handlers_collector {outside : Nat → Outside} {requestHandler : RequestHandler}
    {shared shared' : Shared World} {request : Request} {response : Response}
    (h : handlers outside requestHandler shared request = .ok (response, shared'))
    : shared'.collector = shared.collector := by
  rcases Outcome.bind_eq_ok.mp h with ⟨handled, -, h⟩
  rw [← (Prod.mk.inj (Outcome.ok.inj h)).2]

theorem Session.leavesCounters (outside : Nat → Outside)
    : Connection.LeavesCounters (Session.cls (handlers outside)) := by
  intro own shared request response own' shared' h
  simp only [Session.cls, Session.handleRequest] at h
  split at h
  . cases h
  . rcases Outcome.bind_eq_ok.mp h with ⟨⟨response1, shared1⟩, hhandle, h⟩
    simp only [Outcome.pure_eq_ok, Outcome.ok.injEq, Prod.mk.injEq] at h
    rw [← h.2.2, RequestHandler.handlers_collector hhandle]

theorem HttpSession.leavesCounters {ω : Type} : Connection.LeavesCounters (HttpSession.cls (ω := ω)) := by
  intro own shared request response own' shared' h
  simp only [HttpSession.cls, Outcome.ok.injEq, Prod.mk.injEq] at h
  rw [← h.2.2]

theorem AnySession.counted_step {outside : Nat → Outside} {session session' : AnySession}
    {shared shared' : Shared World} {completion : Completion} {done actions : List Action}
    (h : Counted shared done)
    (hstep : session.step outside shared completion = .ok ((session', shared'), actions))
    : Counted shared' (done ++ actions) := by
  cases session with
  | https conn => exact Connection.counted_wrapped (Session.leavesCounters outside) h hstep
  | http conn => exact Connection.counted_wrapped HttpSession.leavesCounters h hstep

namespace Process

theorem counted_step {outside : Nat → Outside} {process process' : Process} {event : Event}
    {done actions : List Action} (h : Counted process.shared done)
    (hstep : (machine outside).step process event = .ok (process', actions))
    : Counted process'.shared (done ++ actions) := by
  have hidle : Counted process.shared (done ++ []) := by
    rw [List.append_nil]
    exact h
  cases event with
  | acceptHttps data buffer beyond generator =>
    simp only [machine, step, Outcome.ok.injEq, Prod.mk.injEq] at hstep
    rw [← hstep.1, ← hstep.2]
    exact hidle
  | acceptHttp data buffer beyond hostname =>
    simp only [machine, step, Outcome.ok.injEq, Prod.mk.injEq] at hstep
    rw [← hstep.1, ← hstep.2]
    exact hidle
  | complete index completion =>
    simp only [machine, step] at hstep
    split at hstep
    next =>
      simp only [Outcome.ok.injEq, Prod.mk.injEq] at hstep
      rw [← hstep.1, ← hstep.2]
      exact hidle
    next session _ =>
      rcases Outcome.bind_eq_ok.mp hstep with ⟨⟨⟨session', shared'⟩, actions'⟩, hsession, hstep⟩
      simp only [Outcome.pure_eq_ok, Outcome.ok.injEq, Prod.mk.injEq] at hstep
      rw [← hstep.1, ← hstep.2]
      exact AnySession.counted_step h hsession

def started (uriRequestHandler : OrdMap Bytes Bytes) (world : World) : Process where
  shared := { collector := { uriRequestHandler }, world }

/--
Whatever sessions there are and in whatever order their callbacks run, the table says of every uri and code
how many responses with that code have been handed out for that uri, and of nothing else. So it is the same
for any two runs in which the same responses have been handed out.
-/
theorem statusMap_counts {outside : Nat → Outside} {uriRequestHandler : OrdMap Bytes Bytes} {world : World}
    {events : List Event} {process : Process} {actions : List Action}
    (hrun : (machine outside).run (started uriRequestHandler world) events = .ok (process, actions))
    : Tally.Counts process.shared.collector.statusMap (writes actions)
        ∧ ∀ (outside' : Nat → Outside) (uriRequestHandler' : OrdMap Bytes Bytes) (world' : World)
            (events' : List Event) (process' : Process) (actions' : List Action),
          (machine outside').run (started uriRequestHandler' world') events' = .ok (process', actions') →
          (writes actions).Perm (writes actions') →
          process.shared.collector.statusMap = process'.shared.collector.statusMap := by
  have hcounts : ∀ {outside uriRequestHandler world events process actions},
      (machine outside).run (started uriRequestHandler world) events = .ok (process, actions) →
      Tally.Counts process.shared.collector.statusMap (writes actions) := by
    intro outside uriRequestHandler world events process actions hrun
    have hstart : Counted (started uriRequestHandler world).shared [] := Tally.counts_empty
    exact Machine.run_invariant (I := fun process done => Counted process.shared done)
      (fun h _ hstep => counted_step h hstep) hstart (Machine.meets_true _ _) hrun
  refine ⟨hcounts hrun, ?_⟩
  intro outside' uriRequestHandler' world' events' process' actions' hrun' hperm
  exact (hcounts hrun).eq_of_perm (hcounts hrun') hperm

def twoClients : List Event :=
  [.acceptHttp .zeroed .zeroed [] [], .acceptHttp .zeroed .zeroed [] []]

def first : Event :=
  .complete 0 { read := ⟨Bytes.lit "GET /a HTTP/1.1\r\n\r\n", by decide⟩ }

def second : Event :=
  .complete 1 { read := ⟨Bytes.lit "GET b HTTP/1.1\r\n\r\n", by decide⟩ }

theorem statusMap_counts_swapped
    : ∃ process actions process' actions',
        (machine fun _ => deserted).run (started .empty { table := .empty }) (twoClients ++ [first, second])
            = .ok (process, actions)
          ∧ (machine fun _ => deserted).run (started .empty { table := .empty }) (twoClients ++ [second, first])
            = .ok (process', actions')
          ∧ Tally.Counts process.shared.collector.statusMap (writes actions)
          ∧ process.shared.collector.statusMap = process'.shared.collector.statusMap := by
  have hrun : ((machine fun _ => deserted).run (started .empty { table := .empty })
      (twoClients ++ [first, second])).Yields (fun out => writes out.2
        = [(Bytes.lit "/a", Bytes.lit "302"), (Bytes.lit "b", Bytes.lit "400")]) := by
    decide +kernel
  have hrun' : ((machine fun _ => deserted).run (started .empty { table := .empty })
      (twoClients ++ [second, first])).Yields (fun out => writes out.2
        = [(Bytes.lit "b", Bytes.lit "400"), (Bytes.lit "/a", Bytes.lit "302")]) := by
    decide +kernel
  rcases hrun with ⟨⟨process, actions⟩, hrun, hwrites⟩
  rcases hrun' with ⟨⟨process', actions'⟩, hrun', hwrites'⟩
  have hcounts := statusMap_counts hrun
  refine ⟨process, actions, process', actions', hrun, hrun', hcounts.1, hcounts.2 _ _ _ _ _ _ hrun' ?_⟩
  rw [hwrites, hwrites']
  exact .swap _ _ []

end Process

end Foxy
