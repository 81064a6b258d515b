import FoxyServer.RequestParser.ParseData
import FoxyServer.Session.Connection

/-!
This module contains all the ways in which a callback can end, said once for every invariant of a session:
what it has started, whether it has deleted the session, and what it has answered.
-/

namespace Foxy

open RequestParser

namespace Connection

variable {σ ω : Type}

structure Kept (I : RequestParser → Request → Prop) : Prop where
  fresh : ∀ {parser request}, I parser request → I parser {}
  reset : ∀ {parser request}, I parser request → I parser.reset request
  parseData : ∀ {parser request data n result parser' request'}, I parser request →
    parser.parseData request data n = .ok (result, parser', request') → I parser' request'
  body : ∀ {parser request} body, I parser request → I parser { request with body }
  header : ∀ {parser request name},
    name ∈ [Bytes.lit "Content-Length", Bytes.lit "Connection", Bytes.lit "connection"] →
    I parser request → I parser { request with headers := request.headers.insert name [] }

theorem kept_true : Kept (fun _ _ => True) where
  fresh := fun _ => trivial
  reset := fun _ => trivial
  parseData := fun _ _ => trivial
  body := fun _ _ => trivial
  header := fun _ _ => trivial

/-! ## What a callback comes down to -/

/--
What comes of a completion: nothing as long as no operation is under way; or its callback goes on with what
has been parsed, hands over a request whose body has arrived, goes on after a write, or does none of these.
-/
inductive CameTo (cls : SessionClass σ ω) (conn : Connection σ) (shared : Shared ω)
    : (Connection σ × Shared ω) × List Action → Prop where
  | idle (hpending : conn.pending = []) : CameTo cls conn shared ((conn, shared), [])
  | parsed {conn' : Connection σ} {result : ResultType} {k : Nat} {out : (Connection σ × Shared ω) × List Action}
    (hown : conn'.own = conn.own) (hpending : conn'.pending = conn.pending.tail)
    (hread : conn'.readOn cls result k shared = .ok out)
    : CameTo cls conn shared out
  | arrived {conn' conn1 : Connection σ} {shared1 : Shared ω} {actions : List Action}
    (hown : conn'.own = conn.own) (hrespond : conn'.respond cls shared = .ok ((conn1, shared1), actions))
    : CameTo cls conn shared (({ conn1 with data := .zeroed, buffer := .zeroed }, shared1), actions)
  | written {conn' : Connection σ} {error : Bool} (hown : conn'.own = conn.own)
    (hpending : conn'.pending = conn.pending.tail)
    : CameTo cls conn shared ((conn'.afterWrite cls error, shared), [])
  | other {conn' : Connection σ} (hown : conn'.own = conn.own)
    (hpending : conn'.pending = conn.pending.tail ∨ conn'.pending = conn.pending.tail ++ [.read])
    : CameTo cls conn shared ((conn', shared), [])

theorem step_cameTo {cls : SessionClass σ ω} {conn : Connection σ} {shared : Shared ω} {completion : Completion}
    {out : (Connection σ × Shared ω) × List Action} (h : step cls (conn, shared) completion = .ok out)
    : CameTo cls conn shared out := by
  cases hpending : conn.pending with
  | nil =>
    simp only [step, hpending, Outcome.ok.injEq] at h
    rw [← h]
    exact .idle hpending
  | cons operation pending =>
    have htail : pending = conn.pending.tail := by rw [hpending, List.tail_cons]
    simp only [step, hpending] at h
    split at h
    next => cases h
    next =>
      cases operation with
      | handshake =>
        cases h
        rw [handleHandshake]
        split
        . exact .other rfl (.inr (by rw [← htail]; rfl))
        . exact .other rfl (.inl htail)
      | read =>
        rw [handleRead, remoteEndpoint_bind] at h
        replace h := h.2
        split at h
        next =>
          rcases Outcome.bind_eq_ok.mp h with ⟨⟨result, parser, request⟩, -, h⟩
          refine .parsed ?_ ?_ h
          . rfl
          . exact htail
        next =>
          cases h
          exact .other rfl (.inl htail)
      | reread stale =>
        rcases Outcome.bind_eq_ok.mp h with ⟨⟨result, parser, request⟩, -, h⟩
        dsimp only at h
        split at h
        next =>
          cases h
          exact .other rfl (.inl htail)
        next =>
          refine .parsed ?_ ?_ h
          . rfl
          . exact htail
      | finalRead =>
        rw [handleFinalRead, remoteEndpoint_bind] at h
        rcases Outcome.bind_eq_ok.mp h.2 with ⟨⟨⟨conn1, shared1⟩, actions⟩, hrespond, h⟩
        cases h
        refine .arrived ?_ hrespond
        rfl
      | write =>
        rw [← ((handleWrite_eq_ok cls).mp h).2]
        exact .written rfl htail
      | shutdown =>
        cases h
        exact .other rfl (.inl htail)

/-! ## How a callback can end -/

variable (cls : SessionClass σ ω) (I : RequestParser → Request → Prop)

/--
How the callback of an operation can end, if the operations in `pending` were under way besides it:
it has started another operation, deleted the session, or given up on it without doing either; it has
answered a request, refused one, or closed the connection after a write, in good order or not.
-/
inductive Ended (operation : Operation) (pending : List Operation) (error : Bool) (shared : Shared ω)
    : (Connection σ × Shared ω) × List Action → Prop where
  | scheduled {conn : Connection σ} (next : Operation) (hpending : conn.pending = pending ++ [next])
    (halive : conn.destroyed = false) (hkept : I conn.requestParser conn.request)
    : Ended operation pending error shared ((conn, shared), [])
  | deleted {conn : Connection σ} (hpending : conn.pending = pending) (hdestroyed : conn.destroyed = true)
    (hkept : I conn.requestParser conn.request)
    : Ended operation pending error shared ((conn, shared), [])
  | abandoned {conn : Connection σ} (stale : Nat) (hoperation : operation = .reread stale)
    (herror : error = true) (hpending : conn.pending = pending) (halive : conn.destroyed = false)
    (hkept : I conn.requestParser conn.request)
    : Ended operation pending error shared ((conn, shared), [])
  | answered {conn : Connection σ} {shared' : Shared ω} {own own' : σ} {response : Response}
    (hhandle : cls.handleRequest own shared conn.request = .ok (response, own', shared'))
    (hpending : conn.pending = pending ++ [.write]) (halive : conn.destroyed = false)
    (hkept : I conn.requestParser conn.request)
    : Ended operation pending error shared
        ((conn, { shared' with
            collector := shared'.collector.incrementRequest conn.request.uri response.code }),
          [.handleRequest conn.request, .asyncWrite conn.request response])
  | refused {conn : Connection σ} (hpending : conn.pending = pending ++ [.write])
    (halive : conn.destroyed = false) (hkept : I conn.requestParser conn.request)
    : Ended operation pending error shared
        ((conn, { shared with
            collector := shared.collector.incrementRequest conn.request.uri .badRequest }),
          [.asyncWrite conn.request (ResponseGenerator.stockResponse .badRequest)])
  | closed {conn : Connection σ} (hoperation : operation = .write) (hpending : conn.pending = pending)
    (halive : conn.destroyed = false) (hkept : I conn.requestParser conn.request)
    : Ended operation pending error shared ((cls.close conn, shared), [])
  | aborted {conn : Connection σ} (hoperation : operation = .write) (herror : error = true)
    (hpending : conn.pending = pending) (halive : conn.destroyed = false)
    (hkept : I conn.requestParser conn.request)
    : Ended operation pending error shared ((cls.abort conn, shared), [])

theorem respond_eq_ok {conn : Connection σ} {shared : Shared ω}
    {out : (Connection σ × Shared ω) × List Action} (h : conn.respond cls shared = .ok out)
    : ∃ response own shared', cls.handleRequest conn.own shared conn.request = .ok (response, own, shared')
        ∧ out =
          (({ conn with own, responseGenerator := response, pending := conn.pending ++ [.write] },
            { shared' with
              collector := shared'.collector.incrementRequest conn.request.uri response.code }),
            [.handleRequest conn.request, .asyncWrite conn.request response]) := by
  rcases Outcome.bind_eq_ok.mp h with ⟨⟨response, own, shared'⟩, hhandle, h⟩
  simp only [Outcome.pure_eq_ok, Outcome.ok.injEq] at h
  exact ⟨response, own, shared', hhandle, h.symm⟩

variable {cls I} (hI : Kept I)

include hI

theorem finishRead_ended {operation : Operation} {pending : List Operation} {error : Bool}
    {result : ResultType} {conn : Connection σ} {shared : Shared ω}
    {out : (Connection σ × Shared ω) × List Action} (hresult : result ≠ .indeterminate)
    (hpending : conn.pending = pending) (halive : conn.destroyed = false)
    (hkept : I conn.requestParser conn.request) (h : conn.finishRead cls result shared = .ok out)
    : Ended cls I operation pending error shared out := by
  subst hpending
  have hreset := hI.reset hkept
  cases result with
  | indeterminate => exact absurd rfl hresult
  | good =>
    rcases Outcome.bind_eq_ok.mp h with ⟨⟨⟨conn', shared'⟩, actions⟩, hrespond, h⟩
    rcases respond_eq_ok cls hrespond with ⟨response, own, shared1, hhandle, hout⟩
    simp only [Prod.mk.injEq] at hout
    rcases hout with ⟨⟨rfl, rfl⟩, rfl⟩
    simp only [ne_eq, reduceCtorEq, not_false_eq_true, if_true, Outcome.pure_eq_ok, Outcome.ok.injEq] at h
    rw [← h]
    exact .answered hhandle rfl halive hreset
  | bad =>
    simp only [finishRead, handleBadRequest, await, Outcome.ok_bind, ne_eq, reduceCtorEq,
      not_false_eq_true, if_true, Outcome.pure_eq_ok, Outcome.ok.injEq] at h
    rw [← h]
    exact .refused rfl halive hreset
  | missingData =>
    rcases Outcome.bind_eq_ok.mp h with ⟨⟨c, request⟩, hlength, h⟩
    rw [(utility.getContentLength_eq_ok.mp hlength).1] at h
    simp only [Outcome.pure_eq_ok, Outcome.ok.injEq] at h
    rw [← h]
    exact .scheduled .finalRead rfl halive (hI.header List.mem_cons_self hreset)

theorem readOn_ended {operation : Operation} {pending : List Operation} {error : Bool}
    {result : ResultType} {k : Nat} {conn : Connection σ} {shared : Shared ω}
    {out : (Connection σ × Shared ω) × List Action} (hpending : conn.pending = pending)
    (halive : conn.destroyed = false) (hkept : I conn.requestParser conn.request)
    (h : conn.readOn cls result k shared = .ok out) : Ended cls I operation pending error shared out := by
  rw [readOn] at h
  split at h
  . simp only [Outcome.ok.injEq] at h
    rw [← h]
    exact .scheduled (.reread k) (by rw [await, hpending]) halive hkept
  next hresult => exact finishRead_ended hI hresult hpending halive hkept h

theorem afterWrite_ended {pending : List Operation} {error : Bool} {conn : Connection σ}
    (shared : Shared ω) (hpending : conn.pending = pending) (halive : conn.destroyed = false)
    (hkept : I conn.requestParser conn.request)
    : Ended cls I .write pending error shared ((conn.afterWrite cls error, shared), []) := by
  subst hpending
  cases error with
  | true => exact .aborted rfl rfl rfl halive hkept
  | false =>
    have hupper : I conn.requestParser
        { conn.request with headers := (conn.request.headers.index (Bytes.lit "Connection")).2 } :=
      hI.header (List.mem_cons_of_mem _ List.mem_cons_self) hkept
    have hlower := hI.header (List.mem_cons_of_mem _ (List.mem_cons_of_mem _ List.mem_cons_self)) hupper
    simp only [afterWrite, Bool.not_false, if_true]
    split_ifs
    . exact .closed rfl rfl halive hupper
    . exact .closed rfl rfl halive hlower
    . exact .scheduled .read rfl halive hlower

/-- All that the completion of an operation can lead to. -/
theorem step_ended {conn : Connection σ} {shared : Shared ω} {completion : Completion}
    {operation : Operation} {pending : List Operation} {out : (Connection σ × Shared ω) × List Action}
    (hpending : conn.pending = operation :: pending) (hkept : I conn.requestParser conn.request)
    (h : step cls (conn, shared) completion = .ok out)
    : conn.destroyed = false ∧ Ended cls I operation pending completion.error shared out := by
  simp only [step, hpending] at h
  split at h
  next => cases h
  next halive =>
    simp only [Bool.not_eq_true] at halive
    refine ⟨halive, ?_⟩
    cases operation with
    | handshake =>
      simp only [handleHandshake, Outcome.ok.injEq] at h
      rw [← h]
      split_ifs
      . exact .scheduled .read rfl halive hkept
      . exact .deleted rfl rfl hkept
    | read =>
      rw [handleRead, remoteEndpoint_bind] at h
      replace h := h.2
      split at h
      next =>
        rcases Outcome.bind_eq_ok.mp h with ⟨⟨result, parser, request⟩, hdata, h⟩
        refine readOn_ended hI ?_ ?_ ?_ h
        . rfl
        . exact halive
        . exact hI.parseData (hI.fresh hkept) hdata
      next =>
        simp only [Outcome.ok.injEq] at h
        rw [← h]
        exact .deleted rfl rfl hkept
    | reread stale =>
      -- the bytes are parsed before the error is looked at
      rcases Outcome.bind_eq_ok.mp h with ⟨⟨result, parser, request⟩, hdata, h⟩
      have hparsed := hI.reset (hI.parseData hkept hdata)
      dsimp only at h
      split at h
      next herror =>
        simp only [Outcome.pure_eq_ok, Outcome.ok.injEq] at h
        rw [← h]
        -- the callback returns with nothing started
        exact .abandoned stale rfl herror rfl halive hparsed
      next =>
        refine readOn_ended hI ?_ ?_ ?_ h
        . rfl
        . exact halive
        . exact hparsed
    | finalRead =>
      rw [handleFinalRead, remoteEndpoint_bind] at h
      rcases Outcome.bind_eq_ok.mp h.2 with ⟨⟨⟨conn', shared'⟩, actions⟩, hrespond, h⟩
      rcases respond_eq_ok cls hrespond with ⟨response, own, shared1, hhandle, hout⟩
      simp only [Prod.mk.injEq] at hout
      rcases hout with ⟨⟨rfl, rfl⟩, rfl⟩
      simp only [Outcome.pure_eq_ok, Outcome.ok.injEq] at h
      rw [← h]
      exact .answered hhandle rfl halive (hI.body _ hkept)
    | write =>
      rw [← ((handleWrite_eq_ok cls).mp h).2]
      exact afterWrite_ended hI shared rfl halive hkept
    | shutdown =>
      simp only [Outcome.ok.injEq] at h
      rw [← h]
      exact .deleted rfl rfl hkept

end Connection

end Foxy
