import FoxyServer.Handlers.Requests
import FoxyServer.Session.Classes

/-!
This module contains the server at work: any number of sessions of both classes, whose callbacks run in any
order, and the handlers that they share.
-/

namespace Foxy

/--
What the handlers share besides the counters. The requests are numbered, because what is outside the process
may be different for each of them.
-/
structure World where
  handled : Nat := 0
  table : AuthTable

def handlers (outside : Nat → Outside) : Handlers World :=
  fun requestHandler shared request => do
    let handled ← requestHandler.handleRequest (outside shared.world.handled) shared.collector
      shared.world.table request
    return (handled.response,
      { shared with world := { handled := shared.world.handled + 1, table := handled.table } })

inductive AnySession where
  | https (conn : Connection RequestHandlerGenerator)
  | http (conn : Connection Bytes)

def AnySession.step (outside : Nat → Outside) (shared : Shared World) (completion : Completion)
    : AnySession → Outcome ((AnySession × Shared World) × List Action)
  | .https conn => do
    let ((conn, shared), actions) ← (Session.machine (handlers outside)).step (conn, shared) completion
    return ((.https conn, shared), actions)
  | .http conn => do
    let ((conn, shared), actions) ← HttpSession.machine.step (conn, shared) completion
    return ((.http conn, shared), actions)

inductive Event where
  | acceptHttps (data buffer : Buffer) (beyond : Bytes) (generator : RequestHandlerGenerator)
  | acceptHttp (data buffer : Buffer) (beyond hostname : Bytes)
  | complete (index : Nat) (completion : Completion)

structure Process where
  sessions : List AnySession := []
  shared : Shared World

namespace Process

/-- Callbacks run one at a time as far as their effects on what is shared go. -/
def step (outside : Nat → Outside) (process : Process) : Event → Outcome (Process × List Action)
  | .acceptHttps data buffer beyond generator =>
    let session := .https (Session.start data buffer beyond generator)
    .ok ({ process with sessions := process.sessions ++ [session] }, [])
  | .acceptHttp data buffer beyond hostname =>
    let session := .http (HttpSession.start data buffer beyond hostname)
    .ok ({ process with sessions := process.sessions ++ [session] }, [])
  | .complete index completion =>
    match process.sessions[index]? with
    | none => .ok (process, [])
    | some session => do
      let ((session, shared), actions) ← session.step outside process.shared completion
      return ({ sessions := process.sessions.set index session, shared }, actions)

def machine (outside : Nat → Outside) : Machine Process Event Action where
  step := step outside

end Process

end Foxy
