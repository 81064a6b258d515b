import FoxyServer.Handlers.Registries
import FoxyServer.Library.Isolation
import FoxyServer.Server.Fallback
import FoxyServer.Session.Authentication
import FoxyServer.Session.Closing
import FoxyServer.Session.Lifetime

/-!
This module contains the loops in which the servers accept their clients. Whatever becomes of the accepts and in
whatever order the callbacks run, the servers do what the sessions do that they have started, with the handlers
that the config has registered.
-/

namespace Foxy

/-! ## Servers -/

structure Memory where
  data : Buffer := .zeroed
  buffer : Buffer := .zeroed
  beyond : Bytes := []

def PortServer.newSession (memory : Memory) : PortServer → AnySession
  | .https _ generator _ =>
    .https
      { data := memory.data, buffer := memory.buffer, beyond := memory.beyond, own := generator, pending := [] }
  | .http _ _ hostname =>
    .http
      { data := memory.data, buffer := memory.buffer, beyond := memory.beyond, own := hostname, pending := [] }

def AnySession.start : AnySession → AnySession
  | .https conn => .https (conn.await .handshake)
  | .http conn => .http (conn.await .read)

/-- A server, and the sessions of the accepts that are under way for it. -/
structure Acceptor where
  server : PortServer
  accepting : List AnySession := []

namespace Acceptor

def startAccept (acceptor : Acceptor) (memory : Memory) : Acceptor :=
  { acceptor with accepting := acceptor.accepting ++ [acceptor.server.newSession memory] }

/-- The session is started, or deleted because of an error; either way the server accepts the next one. -/
def handleAccept (acceptor : Acceptor) (newSession : AnySession) (error : Bool) (memory : Memory)
    : Acceptor × Option AnySession :=
  let started := if !error then some newSession.start else none
  (acceptor.startAccept memory, started)

def Ready (acceptor : Acceptor) : Prop :=
  ∃ memory, acceptor.accepting = [acceptor.server.newSession memory]

theorem ready_startAccept {acceptor : Acceptor} (h : acceptor.accepting = []) (memory : Memory)
    : (acceptor.startAccept memory).Ready := by
  rw [Ready, startAccept, h]
  exact ⟨memory, rfl⟩

end Acceptor

/-! ## Servers at work -/

structure Serving where
  acceptors : List Acceptor
  process : Process

inductive ServingEvent where
  | accept (number : Nat) (error : Bool) (memory : Memory)
  | complete (index : Nat) (completion : Completion)

namespace Serving

def create (servers : List PortServer) (memory : Nat → Memory) (process : Process) : Serving where
  acceptors := servers.mapIdx fun number server => { server : Acceptor }.startAccept (memory number)
  process

def step (outside : Nat → Outside) (serving : Serving) : ServingEvent → Outcome (Serving × List Action)
  | .accept number error memory =>
    match serving.acceptors[number]? with
    | none => .ok (serving, [])
    | some acceptor =>
      match acceptor.accepting with
      | [] => .ok (serving, [])
      | newSession :: accepting =>
        let (acceptor, started) := { acceptor with accepting }.handleAccept newSession error memory
        let process :=
          { serving.process with sessions := serving.process.sessions ++ started.toList }
        .ok ({ acceptors := serving.acceptors.set number acceptor, process }, [])
  | .complete index completion => do
    let (process, actions) ← Process.step outside serving.process (.complete index completion)
    return ({ serving with process }, actions)

def machine (outside : Nat → Outside) : Machine Serving ServingEvent Action where
  step := step outside

def Accepts (servers : List PortServer) (serving : Serving) : Prop :=
  serving.acceptors.map Acceptor.server = servers ∧ ∀ acceptor ∈ serving.acceptors, acceptor.Ready

theorem accepts_create (servers : List PortServer) (memory : Nat → Memory) (process : Process)
    : (create servers memory process).Accepts servers := by
  constructor
  . apply List.ext_getElem
    . simp [create]
    . simp [create, Acceptor.startAccept]
  . intro acceptor hacceptor
    rcases List.mem_mapIdx.mp hacceptor with ⟨number, hnumber, rfl⟩
    exact Acceptor.ready_startAccept rfl _

inductive Tells (servers : List PortServer) : ServingEvent → List Event → Prop where
  | complete (index : Nat) (completion : Completion)
    : Tells servers (.complete index completion) [.complete index completion]
  | https {number : Nat} {port : Int} {generator : RequestHandlerGenerator} {threads : Int}
    (memory used : Memory) (hserver : servers[number]? = some (.https port generator threads))
    : Tells servers (.accept number false memory)
        [.acceptHttps used.data used.buffer used.beyond generator]
  | http {number : Nat} {port threads : Int} {hostname : Bytes} (memory used : Memory)
    (hserver : servers[number]? = some (.http port threads hostname))
    : Tells servers (.accept number false memory) [.acceptHttp used.data used.buffer used.beyond hostname]
  | failed (number : Nat) (memory : Memory) : Tells servers (.accept number true memory) []
  | nobody {number : Nat} (error : Bool) (memory : Memory) (hserver : servers[number]? = none)
    : Tells servers (.accept number error memory) []

variable {outside : Nat → Outside} {servers : List PortServer}

theorem accepts_set {serving : Serving} {number : Nat} {acceptor : Acceptor}
    (h : serving.Accepts servers) (hacceptor : serving.acceptors[number]? = some acceptor) (memory : Memory)
    (process : Process)
    : Accepts servers
        { acceptors := serving.acceptors.set number ({ acceptor with accepting := [] }.startAccept memory)
          process } := by
  constructor
  . rcases List.getElem?_eq_some_iff.mp hacceptor with ⟨hnumber, rfl⟩
    rw [← h.1, List.map_set]
    apply List.ext_getElem
    . simp
    . intro i hi hi'
      rw [List.getElem_set]
      split
      next heq =>
        subst heq
        rw [List.getElem_map]
        rfl
      next => rfl
  . intro acceptor' hmem
    rcases List.mem_or_eq_of_mem_set hmem with hmem | rfl
    . exact h.2 acceptor' hmem
    . exact Acceptor.ready_startAccept rfl memory

theorem step_accept {serving : Serving} {number : Nat} {error : Bool} {memory : Memory} {acceptor : Acceptor}
    (h : serving.Accepts servers) (hacceptor : serving.acceptors[number]? = some acceptor)
    : ∃ used, step outside serving (.accept number error memory)
        = .ok ({ acceptors := serving.acceptors.set number
                   ({ acceptor with accepting := [] }.startAccept memory)
                 process := { serving.process with
                   sessions := serving.process.sessions
                     ++ if error then [] else [(acceptor.server.newSession used).start] } }, []) := by
  rcases h.2 acceptor (List.mem_of_getElem? hacceptor) with ⟨used, haccepting⟩
  refine ⟨used, ?_⟩
  simp only [step, hacceptor, haccepting, Acceptor.handleAccept]
  cases error <;> rfl

theorem step_tells {serving serving' : Serving} {event : ServingEvent} {actions : List Action}
    (h : serving.Accepts servers) (hstep : step outside serving event = .ok (serving', actions))
    : serving'.Accepts servers ∧ ∃ events, Tells servers event events
        ∧ (Process.machine outside).run serving.process events = .ok (serving'.process, actions) := by
  cases event with
  | complete index completion =>
    rcases Outcome.bind_eq_ok.mp hstep with ⟨⟨process, actions'⟩, hprocess, hstep⟩
    cases hstep
    refine ⟨h, _, .complete index completion, ?_⟩
    rw [Machine.run_singleton]
    exact hprocess
  | accept number error memory =>
    cases hacceptor : serving.acceptors[number]? with
    | none =>
      simp only [step, hacceptor, Outcome.ok.injEq, Prod.mk.injEq] at hstep
      rcases hstep with ⟨rfl, rfl⟩
      refine ⟨h, [], .nobody error memory ?_, rfl⟩
      rw [← h.1, List.getElem?_map, hacceptor, Option.map_none]
    | some acceptor =>
      rcases @step_accept outside _ _ _ error memory _ h hacceptor with ⟨used, haccept⟩
      rw [haccept, Outcome.ok.injEq, Prod.mk.injEq] at hstep
      rcases hstep with ⟨rfl, rfl⟩
      refine ⟨accepts_set h hacceptor memory _, ?_⟩
      have hserver : servers[number]? = some acceptor.server := by
        rw [← h.1, List.getElem?_map, hacceptor, Option.map_some]
      cases error with
      -- the accept has failed, and its session is deleted without having been started
      | true => exact ⟨[], .failed number memory, by simp⟩
      | false =>
        cases hkind : acceptor.server with
        | https port generator threads =>
          refine ⟨_, .https memory used (hkind ▸ hserver), ?_⟩
          rw [Machine.run_singleton]
          rfl
        | http port threads hostname =>
          refine ⟨_, .http memory used (hkind ▸ hserver), ?_⟩
          rw [Machine.run_singleton]
          rfl

theorem run_tells {serving serving' : Serving} {events : List ServingEvent} {actions : List Action}
    (h : serving.Accepts servers) (hrun : (machine outside).run serving events = .ok (serving', actions))
    : serving'.Accepts servers ∧ ∃ told, List.Forall₂ (Tells servers) events told
        ∧ (Process.machine outside).run serving.process told.flatten = .ok (serving'.process, actions) := by
  have hfollows : ∀ {serving process event serving' actions},
      serving.Accepts servers ∧ serving.process = process →
      step outside serving event = .ok (serving', actions) →
      ∃ process' told, Tells servers event told
        ∧ (Process.machine outside).run process told = .ok (process', actions)
        ∧ serving'.Accepts servers ∧ serving'.process = process' := by
    rintro serving process event serving' actions ⟨haccepts, rfl⟩ hstep
    rcases step_tells haccepts hstep with ⟨haccepts', told, htells, htold⟩
    exact ⟨_, told, htells, htold, haccepts', rfl⟩
  rcases Machine.run_follows (m := machine outside)
    (R := fun serving process => serving.Accepts servers ∧ serving.process = process)
    (fun hR hstep => hfollows hR hstep) ⟨h, rfl⟩ hrun with ⟨process', told, htold, hrun', haccepts', rfl⟩
  exact ⟨haccepts', told, htold, hrun'⟩

end Serving

/-! ## The sessions that have been started -/

def AnySession.Owned : AnySession → Prop
  | .https conn => conn.Owned
  | .http conn => conn.Owned

/-- No read fails inside a callback of the session, nor a write if the session is a `Session`. -/
def AnySession.Undisturbed (shared : Shared World) (completion : Completion) : AnySession → Prop
  | .https conn => Connection.Undisturbed true (conn, shared) completion
  | .http conn => Connection.Undisturbed false (conn, shared) completion

theorem AnySession.step_owned {outside : Nat → Outside} {shared : Shared World} {completion : Completion}
    {session : AnySession} {out : (AnySession × Shared World) × List Action} (h : session.Owned)
    (hundisturbed : session.Undisturbed shared completion)
    (hstep : session.step outside shared completion = .ok out) : out.1.1.Owned := by
  cases session with
  | https conn =>
    rcases Outcome.bind_eq_ok.mp hstep with ⟨⟨⟨conn', shared'⟩, actions⟩, hconn, hstep⟩
    cases hstep
    have howned : (conn, shared).1.Owned := h
    exact Connection.step_owned Session.closesOwned (fun h => by cases h) howned hundisturbed hconn
  | http conn =>
    rcases Outcome.bind_eq_ok.mp hstep with ⟨⟨⟨conn', shared'⟩, actions⟩, hconn, hstep⟩
    cases hstep
    have howned : (conn, shared).1.Owned := h
    exact Connection.step_owned Connection.closesOwned_delete (fun _ => Connection.closesOwned_delete) howned
      hundisturbed hconn

theorem AnySession.owned_start (server : PortServer) (memory : Memory)
    : (server.newSession memory).start.Owned := by
  cases server <;> rfl

namespace Serving

variable {outside : Nat → Outside} {servers : List PortServer}

def Undisturbed (serving : Serving) : ServingEvent → Prop
  | .accept _ _ _ => True
  | .complete index completion => ∀ session, serving.process.sessions[index]? = some session →
      session.Undisturbed serving.process.shared completion

theorem step_sessions {I : AnySession → Prop} {serving serving' : Serving} {event : ServingEvent}
    {actions : List Action} (haccepts : serving.Accepts servers)
    (hstart : ∀ server ∈ servers, ∀ memory, I (server.newSession memory).start)
    (hcallback : ∀ {index completion session out}, event = .complete index completion →
      serving.process.sessions[index]? = some session → I session →
      session.step outside serving.process.shared completion = .ok out → I out.1.1)
    (h : ∀ session ∈ serving.process.sessions, I session)
    (hstep : step outside serving event = .ok (serving', actions))
    : ∀ session ∈ serving'.process.sessions, I session := by
  cases event with
  | accept number error memory =>
    cases hacceptor : serving.acceptors[number]? with
    | none =>
      simp only [step, hacceptor, Outcome.ok.injEq, Prod.mk.injEq] at hstep
      rcases hstep with ⟨rfl, rfl⟩
      exact h
    | some acceptor =>
      rcases @step_accept outside _ _ _ error memory _ haccepts hacceptor with ⟨used, haccept⟩
      rw [haccept, Outcome.ok.injEq, Prod.mk.injEq] at hstep
      rcases hstep with ⟨rfl, rfl⟩
      intro session hsession
      rcases List.mem_append.mp hsession with hsession | hsession
      . exact h session hsession
      . cases error with
        | true => cases hsession
        | false =>
          rw [List.mem_singleton.mp hsession]
          refine hstart acceptor.server ?_ used
          rw [← haccepts.1]
          exact List.mem_map_of_mem (List.mem_of_getElem? hacceptor)
  | complete index completion =>
    rcases Outcome.bind_eq_ok.mp hstep with ⟨⟨process, actions'⟩, hprocess, hstep⟩
    cases hstep
    simp only [Process.step] at hprocess
    split at hprocess
    next =>
      cases hprocess
      exact h
    next session hsession =>
      rcases Outcome.bind_eq_ok.mp hprocess with ⟨⟨⟨session', shared⟩, actions'⟩, hany, hprocess⟩
      cases hprocess
      intro session1 hsession1
      rcases List.mem_or_eq_of_mem_set hsession1 with hsession1 | rfl
      . exact h session1 hsession1
      -- the session that the operation belongs to
      . exact hcallback rfl hsession (h session (List.mem_of_getElem? hsession)) hany

theorem step_owned {serving serving' : Serving} {event : ServingEvent} {actions : List Action}
    (haccepts : serving.Accepts servers) (h : ∀ session ∈ serving.process.sessions, session.Owned)
    (hundisturbed : serving.Undisturbed event) (hstep : step outside serving event = .ok (serving', actions))
    : ∀ session ∈ serving'.process.sessions, session.Owned := by
  refine step_sessions haccepts (fun server _ memory => AnySession.owned_start server memory) ?_ h hstep
  rintro index completion session out rfl hsession howned hany
  exact AnySession.step_owned howned (hundisturbed session hsession) hany

/--
Whatever becomes of the accepts and of the operations of the sessions, and in whatever order, each server
accepts one client, with a session that is as it has been constructed, and the sessions that have been started
do what they do in a process that is told of the clients that have been accepted. Unless one of them is
disturbed, each of them is under way exactly once until it deletes itself.
-/
theorem servers_accept (outside : Nat → Outside) (servers : List PortServer) (memory : Nat → Memory)
    (process : Process) (hnew : process.sessions = []) (events : List ServingEvent) (serving : Serving)
    (actions : List Action)
    (hrun : (machine outside).run (create servers memory process) events = .ok (serving, actions))
    : serving.Accepts servers
        ∧ (∃ told, List.Forall₂ (Tells servers) events told
            ∧ (Process.machine outside).run process told.flatten = .ok (serving.process, actions))
        ∧ ((machine outside).Meets (fun event => [event]) Undisturbed (create servers memory process) events →
            ∀ session ∈ serving.process.sessions, session.Owned) := by
  have haccepts := accepts_create servers memory process
  have htold := run_tells haccepts hrun
  refine ⟨htold.1, htold.2, fun hundisturbed => ?_⟩
  have hnobody : ∀ session ∈ (create servers memory process).process.sessions, session.Owned := by
    rw [create, hnew]
    exact fun session h => by cases h
  have hkeeps := Machine.run_keeps
    (I := fun serving : Serving => serving.Accepts servers
      ∧ ∀ session ∈ serving.process.sessions, session.Owned)
    (fun h hundisturbed hstep => ⟨(step_tells h.1 hstep).1, step_owned h.1 h.2 hundisturbed hstep⟩)
    ⟨haccepts, hnobody⟩ hundisturbed hrun
  exact hkeeps.2

theorem servers_accept_one
    : ∃ serving actions, (machine fun _ => deserted).run
            (create [.https 443 {} 4, .http 80 4 []] (fun _ => {})
              { shared := { world := { table := .empty } } })
            [.accept 0 true {}, .accept 1 false {}, .complete 0 {}] = .ok (serving, actions)
        ∧ serving.acceptors.map Acceptor.server = [.https 443 {} 4, .http 80 4 []]
        ∧ serving.process.sessions.length = 1 ∧ ∀ session ∈ serving.process.sessions, session.Owned := by
  have hrun : ((machine fun _ => deserted).run
      (create [.https 443 {} 4, .http 80 4 []] (fun _ => {}) { shared := { world := { table := .empty } } })
      [.accept 0 true {}, .accept 1 false {}, .complete 0 {}]).Yields
        (fun out => out.1.process.sessions.length = 1) := by
    decide +kernel
  rcases hrun with ⟨⟨serving, actions⟩, hrun, hlength⟩
  rcases servers_accept _ _ (fun _ => {}) { shared := { world := { table := .empty } } } rfl _ serving actions
    hrun with ⟨haccepts, -, howned⟩
  refine ⟨serving, actions, hrun, haccepts.1, hlength, howned ?_⟩
  refine ⟨trivial, fun _ _ _ => ⟨trivial, fun _ _ _ => ⟨?_, fun _ _ _ => trivial⟩⟩⟩
  intro session _
  cases session with
  | https conn => exact fun herror => by cases herror
  | http conn => exact fun herror => by cases herror

/-! ## The handlers of the sessions -/

def HasGenerator (generator : RequestHandlerGenerator) : AnySession → Prop
  | .https conn => conn.own = generator
  | .http _ => True

theorem handlersKeep_generator {ω : Type} (handlers : Handlers ω) (generator : RequestHandlerGenerator)
    : Connection.HandlersKeep (Session.cls handlers) (· = generator) := by
  rintro own shared request response own' shared' rfl hhandle
  simp only [Session.cls, Session.handleRequest] at hhandle
  split at hhandle
  next => cases hhandle
  next ptr hptr =>
    rcases Outcome.bind_eq_ok.mp hhandle with ⟨⟨response1, shared1⟩, -, hhandle⟩
    cases hhandle
    exact RequestHandlerGenerator.dispatchHandler_snd
      (OrdMap.mem_keys_iff.mpr ⟨_, RequestHandlerGenerator.find?_of_dispatchHandler hptr⟩)

theorem hasGenerator_step {generator : RequestHandlerGenerator} {shared : Shared World}
    {completion : Completion} {session : AnySession} {out : (AnySession × Shared World) × List Action}
    (h : HasGenerator generator session) (hstep : session.step outside shared completion = .ok out)
    : HasGenerator generator out.1.1 := by
  cases session with
  | https conn =>
    rcases Outcome.bind_eq_ok.mp hstep with ⟨⟨⟨conn', shared'⟩, actions⟩, hconn, hstep⟩
    cases hstep
    have hown : conn.own = generator := h
    exact Connection.step_keeps_own (handlersKeep_generator (handlers outside) generator) (fun _ => rfl)
      (fun _ => rfl) hown hconn
  | http conn =>
    rcases Outcome.bind_eq_ok.mp hstep with ⟨⟨⟨conn', shared'⟩, actions⟩, hconn, hstep⟩
    cases hstep
    trivial

theorem hasGenerator_createServers {starts : Nat → Bool} {generator : RequestHandlerGenerator} {threads : Int}
    {hostname : Bytes} {number : Nat} {portTypes : List (Int × Bytes)} {servers : List PortServer}
    (h : createServers starts generator threads hostname number portTypes = .ok servers)
    : ∀ server ∈ servers, ∀ memory, HasGenerator generator (server.newSession memory).start := by
  induction portTypes generalizing number servers with
  | nil =>
    cases h
    exact fun server hserver => by cases hserver
  | cons portType portTypes ih =>
    rcases portType with ⟨port, type⟩
    rw [createServers] at h
    rcases Outcome.bind_eq_ok.mp h with ⟨first, hfirst, h⟩
    rcases Outcome.bind_eq_ok.mp h with ⟨later, hlater, h⟩
    cases h
    intro server hserver memory
    rcases List.mem_append.mp hserver with hserver | hserver
    . split at hfirst
      . split at hfirst
        . cases hfirst
          rw [List.mem_singleton.mp hserver]
          rfl
        . cases hfirst
      . split at hfirst
        . split at hfirst
          . cases hfirst
          . split at hfirst
            . cases hfirst
              rw [List.mem_singleton.mp hserver]
              trivial
            . cases hfirst
        . cases hfirst
          cases hserver
    . exact ih hlater server hserver memory

theorem run_sessions {I : AnySession → Prop}
    (hstart : ∀ server ∈ servers, ∀ memory, I (server.newSession memory).start)
    (hcallback : ∀ {shared completion session out}, I session →
      AnySession.step outside shared completion session = .ok out → I out.1.1)
    {memory : Nat → Memory} {process : Process} (hnew : process.sessions = []) {events : List ServingEvent}
    {serving : Serving} {actions : List Action}
    (hrun : (machine outside).run (create servers memory process) events = .ok (serving, actions))
    : serving.Accepts servers ∧ ∀ session ∈ serving.process.sessions, I session := by
  have hnobody : ∀ session ∈ (create servers memory process).process.sessions, I session := by
    rw [create, hnew]
    exact fun session h => by cases h
  exact Machine.run_keeps (R := fun _ _ => True)
    (I := fun serving : Serving => serving.Accepts servers ∧ ∀ session ∈ serving.process.sessions, I session)
    (fun h _ hstep => ⟨(step_tells h.1 hstep).1, step_sessions h.1 hstart
      (fun _ _ hsession hany => hcallback hsession hany) h.2 hstep⟩)
    ⟨accepts_create servers memory process, hnobody⟩ (Machine.meets_true _ events) hrun

theorem run_hasGenerator {generator : RequestHandlerGenerator}
    (hservers : ∀ server ∈ servers, ∀ memory, HasGenerator generator (server.newSession memory).start)
    {memory : Nat → Memory} {process : Process} (hnew : process.sessions = []) {events : List ServingEvent}
    {serving : Serving} {actions : List Action}
    (hrun : (machine outside).run (create servers memory process) events = .ok (serving, actions))
    : serving.Accepts servers ∧ ∀ session ∈ serving.process.sessions, HasGenerator generator session :=
  run_sessions hservers hasGenerator_step hnew hrun

theorem createServers_of_startUp {starts : Nat → Bool} {config : NginxConfig} {served : Served}
    (h : startUp starts true config = .ok (some served))
    : ∃ threads hostname portTypes,
        createServers starts served.generator threads hostname 0 portTypes = .ok served.servers := by
  rw [startUp] at h
  rcases Outcome.bind_eq_ok.mp h with ⟨⟨getPort, portTypes⟩, -, h⟩
  rcases Outcome.bind_eq_ok.mp h with ⟨⟨getDir, dir⟩, -, h⟩
  rcases Outcome.bind_eq_ok.mp h with ⟨⟨getThreads, threads⟩, -, h⟩
  rcases Outcome.bind_eq_ok.mp h with ⟨⟨getHostname, hostname⟩, -, h⟩
  rcases Outcome.bind_eq_ok.mp h with ⟨⟨getMap, generator, startup⟩, -, h⟩
  dsimp only at h
  split at h
  next =>
    rcases Outcome.bind_eq_ok.mp h with ⟨servers, hservers, h⟩
    cases h
    exact ⟨_, _, _, hservers⟩
  next => cases h

open RequestHandlerGenerator in
theorem className_of_getMap {config : NginxConfig} {generator : RequestHandlerGenerator} {startup : Startup}
    (h : getMap {} config {} = .ok (true, generator, startup)) {path : Bytes} {ptr : HandlerPtr}
    (hfind : generator.map.find? path = some (some ptr))
    : (classesAt path config).head? = some ptr.object.className := by
  rcases registeredIn_getMapFrom h with ⟨registered, hnames, hregistered⟩
  rw [hregistered.find?_map] at hfind
  rcases Option.map_eq_some_iff.mp hfind with ⟨ptr', hhead, hptr⟩
  cases hptr
  rw [classesAt, ← hnames, OrdMap.valuesAt_map, List.head?_map, hhead, Option.map_some]

/-- If the handler returns, the request is answered with what it returns, and otherwise it is not answered. -/
structure AnsweredBy (outside : Nat → Outside) (process : Process) (index : Nat) (completion : Completion)
    (handler : RequestHandler) (request : Request) : Prop where
  answered : ∀ handled,
    handler.handleRequest (outside process.shared.world.handled) process.shared.collector
        process.shared.world.table request = .ok handled →
    ∃ process', Process.step outside process (.complete index completion)
      = .ok (process', [.handleRequest request, .asyncWrite request handled.response])
  only : ∀ process' actions, Process.step outside process (.complete index completion) = .ok (process', actions) →
    ∃ handled, handler.handleRequest (outside process.shared.world.handled) process.shared.collector
          process.shared.world.table request = .ok handled
      ∧ actions = [.handleRequest request, .asyncWrite request handled.response]

def Single : AnySession → Prop
  | .https conn => conn.Single
  | .http _ => True

theorem single_step {shared : Shared World} {completion : Completion} {session : AnySession}
    {out : (AnySession × Shared World) × List Action} (h : Single session)
    (hstep : session.step outside shared completion = .ok out) : Single out.1.1 := by
  cases session with
  | https conn =>
    rcases Outcome.bind_eq_ok.mp hstep with ⟨⟨⟨conn', shared'⟩, actions⟩, hconn, hstep⟩
    cases hstep
    have hsingle : (conn, shared).1.Single := h
    exact Connection.step_single Session.endsClosing_closeSocket (Session.endsClosing_abort _) hsingle hconn
  | http conn =>
    rcases Outcome.bind_eq_ok.mp hstep with ⟨⟨⟨conn', shared'⟩, actions⟩, hconn, hstep⟩
    cases hstep
    trivial

theorem single_start (server : PortServer) (memory : Memory) : Single (server.newSession memory).start := by
  cases server with
  | https port generator threads => exact Connection.single_of_alive rfl rfl
  | http port threads hostname => trivial

theorem alive_of_hands {conn : Connection RequestHandlerGenerator} {completion : Completion} {request : Request}
    (h : conn.Single) (hands : conn.Hands completion request) : conn.destroyed = false := by
  by_contra hdestroyed
  rw [Bool.not_eq_false] at hdestroyed
  rcases h with hnone | ⟨operation, hone, hshutdown⟩
  . cases hands with
    | read pending parser request hpending => exact absurd (hpending.symm.trans hnone) (List.cons_ne_nil _ _)
    | reread pending stale parser request hpending => exact absurd (hpending.symm.trans hnone) (List.cons_ne_nil _ _)
    | finalRead pending hpending => exact absurd (hpending.symm.trans hnone) (List.cons_ne_nil _ _)
  . rw [hshutdown hdestroyed] at hone
    cases hands with
    | read pending parser request hpending => cases hpending.symm.trans hone
    | reread pending stale parser request hpending => cases hpending.symm.trans hone
    | finalRead pending hpending => cases hpending.symm.trans hone

/--
Once `main` has started the servers for a config with a location for the root, whatever a session hands over goes
to the handler of the location that is chosen for it, which is of the class that the config names there first, and
is answered with what this handler returns, if it does.
-/
theorem servers_dispatch {starts : Nat → Bool} {config : NginxConfig} {served : Served}
    (hserves : startUp starts true config = .ok (some served)) (hroot : RegistersRoot config)
    (outside : Nat → Outside) (memory : Nat → Memory) (process : Process) (hnew : process.sessions = [])
    (events : List ServingEvent) (serving : Serving) (actions : List Action)
    (hrun : (machine outside).run (create served.servers memory process) events = .ok (serving, actions))
    (index : Nat) (conn : Connection RequestHandlerGenerator) (completion : Completion) (request : Request)
    (hsession : serving.process.sessions[index]? = some (.https conn)) (hands : conn.Hands completion request)
    : ∃ ptr location, location = (served.generator.chosen request.uri).getD (Bytes.lit "/")
        ∧ served.generator.map.find? location = some (some ptr)
        ∧ (RequestHandlerGenerator.classesAt location config).head? = some ptr.object.className
        ∧ AnsweredBy outside serving.process index completion ptr.object request := by
  have hmap := getMap_of_startUp hserves
  rcases RequestHandlerGenerator.registered_getMap hmap with ⟨allocated, hregistered⟩
  have hkey : Bytes.lit "/" ∈ served.generator.map.keys :=
    (RequestHandlerGenerator.mem_keys_getMap hmap).mpr hroot
  rcases createServers_of_startUp hserves with ⟨threads, hostname, portTypes, hservers⟩
  have hkeeps := run_hasGenerator (hasGenerator_createServers hservers) hnew hrun
  have hsingle := (run_sessions (fun server _ memory => single_start server memory) single_step hnew hrun).2
  have hown : conn.own = served.generator := hkeeps.2 _ (List.mem_of_getElem? hsession)
  cases hptr : (served.generator.dispatchHandler request.uri).1 with
  | none =>
    rw [RequestHandlerGenerator.dispatchHandler_eq_none_iff hregistered] at hptr
    exact absurd (RequestHandlerGenerator.mem_keys_of_root hkey request.uri) hptr
  | some ptr =>
    have hfind := RequestHandlerGenerator.find?_of_dispatchHandler hptr
    refine ⟨ptr, _, rfl, hfind, className_of_getMap hmap hfind, ?_⟩
    have hptr : (conn.own.dispatchHandler request.uri).1 = some ptr := by rw [hown, hptr]
    have halive := alive_of_hands (hsingle _ (List.mem_of_getElem? hsession)) hands
    exact ⟨fun handled hhandled => Process.step_of_handled hsession halive hands hptr hhandled,
      fun process' actions' hstep => Process.handled_of_hands hsession hands hptr hstep⟩

def echoServed : Served :=
  match startUp (fun _ => true) true (echoServer "/") with
  | .ok (some served) => served
  | _ => ⟨[], [], {}, {}, []⟩

theorem startUp_echoServer : startUp (fun _ => true) true (echoServer "/") = .ok (some echoServed) := by
  have hserves : (startUp (fun _ => true) true (echoServer "/")).Yields
      (fun served => served.isSome = true) := by
    decide +kernel
  rcases hserves with ⟨served, hserves, hsome⟩
  rcases Option.isSome_iff_exists.mp hsome with ⟨served, rfl⟩
  rw [echoServed, hserves]

def clientsForTest : List ServingEvent :=
  [.accept 0 false {}, .accept 0 false {}, .complete 0 {}]

def getForTest : Completion where
  read := ⟨Bytes.lit "GET /fox HTTP/1.1\r\n\r\n", by decide⟩

theorem servers_dispatch_echo
    : ∃ serving request, (machine fun _ => deserted).run
            (create echoServed.servers (fun _ => {}) { shared := { world := { table := .empty } } })
            clientsForTest = .ok (serving, [])
        ∧ request.uri = Bytes.lit "/fox"
        ∧ ∃ ptr : HandlerPtr, ptr.object.className = Bytes.lit "EchoHandler"
            ∧ AnsweredBy (fun _ => deserted) serving.process 0 getForTest ptr.object request := by
  have hservers : echoServed.servers = [.https 443 echoServed.generator 4] := rfl
  have hrun : (machine fun _ => deserted).run
      (create echoServed.servers (fun _ => {}) { shared := { world := { table := .empty } } }) clientsForTest
        = .ok ({ acceptors := [Acceptor.startAccept ⟨.https 443 echoServed.generator 4, []⟩ {}]
                 process := { sessions := [.https (Session.opened .zeroed .zeroed [] echoServed.generator),
                                .https (Session.start .zeroed .zeroed [] echoServed.generator)]
                              shared := { world := { table := .empty } } } }, []) := by
    rw [hservers]
    rfl
  have hparse : (RequestParser.parseData {} {}
      { Session.opened .zeroed .zeroed [] echoServed.generator with
        pending := [], data := Buffer.zeroed.fill getForTest.read }.dataMemory
      getForTest.read.bytes.length).Yields (fun out => out.1 = .good ∧ out.2.2.uri = Bytes.lit "/fox") := by
    decide +kernel
  rcases hparse with ⟨⟨result, parser, request⟩, hparse, hgood, huri⟩
  dsimp only at hgood huri
  subst hgood
  have hroot : RegistersRoot (echoServer "/") :=
    ⟨_, List.mem_cons_of_mem _ List.mem_cons_self, .inr rfl, _, rfl, rfl⟩
  rcases servers_dispatch startUp_echoServer hroot _ _ _ rfl _ _ _ hrun 0 _ getForTest request rfl
    (.read [] parser request rfl rfl rfl hparse) with ⟨ptr, location, hlocation, -, hclass, hanswered⟩
  refine ⟨_, request, hrun, huri, ptr, ?_, hanswered⟩
  have hchosen : (echoServed.generator.chosen (Bytes.lit "/fox")).getD (Bytes.lit "/") = Bytes.lit "/" := by
    decide +kernel
  rw [hlocation, huri, hchosen] at hclass
  exact (Option.some.inj hclass).symm

end Serving

end Foxy
