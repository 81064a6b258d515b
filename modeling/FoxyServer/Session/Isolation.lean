import FoxyServer.Handlers.Dispatch
import FoxyServer.Library.Isolation
import FoxyServer.Session.Counting

/-!
This module contains what the sessions of a process have to do with each other. A session does with the bytes of
its client what it would do if it were alone, whatever happens in the other sessions and in between.
-/

namespace Foxy

inductive Action.Alike (Q : Response → Response → Prop) : Action → Action → Prop where
  | handleRequest (request : Request) : Alike Q (.handleRequest request) (.handleRequest request)
  | asyncWrite (request : Request) {response response' : Response} (h : Q response response')
    : Alike Q (.asyncWrite request response) (.asyncWrite request response')

theorem Action.alike_eq {actions actions' : List Action} (h : List.Forall₂ (Alike Eq) actions actions')
    : actions = actions' := by
  induction h with
  | nil => rfl
  | cons h _ ih =>
    cases h with
    | handleRequest request => rw [ih]
    | asyncWrite request h => rw [ih, h]

def Action.unanswered : Action → Action
  | .handleRequest request => .handleRequest request
  | .asyncWrite request _ => .asyncWrite request {}

theorem Action.map_unanswered_of_alike {Q : Response → Response → Prop} {actions actions' : List Action}
    (h : List.Forall₂ (Alike Q) actions actions') : actions.map unanswered = actions'.map unanswered := by
  induction h with
  | nil => rfl
  | cons h _ ih =>
    cases h with
    | handleRequest request => rw [List.map_cons, List.map_cons, ih]
    | asyncWrite request h => exact congrArg (_ :: ·) ih

namespace Connection

variable {σ ω ω' : Type}

inductive Alike (Q : Response → Response → Prop) (J : σ → Prop) (conn : Connection σ)
    : Connection σ → Prop where
  | mk (response : Response) (hresponse : Q conn.responseGenerator response) (hown : J conn.own)
    : Alike Q J conn { conn with responseGenerator := response }

theorem Alike.of {Q : Response → Response → Prop} {J : σ → Prop} {conn conn' : Connection σ}
    (hsame : conn' = { conn with responseGenerator := conn'.responseGenerator })
    (hresponse : Q conn.responseGenerator conn'.responseGenerator) (hown : J conn.own)
    : Alike Q J conn conn' := by
  rw [hsame]
  exact .mk _ hresponse hown

def OutAlike (Q : Response → Response → Prop) (J : σ → Prop)
    (out : (Connection σ × Shared ω) × List Action) (out' : (Connection σ × Shared ω') × List Action) : Prop :=
  Alike Q J out.1.1 out'.1.1 ∧ List.Forall₂ (Action.Alike Q) out.2 out'.2

/--
The two classes answer alike, whatever the sessions share, as long as what one of them has on its own satisfies
`J`.
-/
structure AnswersAlike (cls : SessionClass σ ω) (cls' : SessionClass σ ω') (Q : Response → Response → Prop)
    (J : σ → Prop) : Prop where
  handleRequest : ∀ {own shared request response own1 shared1} (shared' : Shared ω'), J own →
    cls.handleRequest own shared request = .ok (response, own1, shared1) →
    J own1 ∧ ∃ response' shared1', cls'.handleRequest own shared' request = .ok (response', own1, shared1')
      ∧ Q response response'
  badRequest : Q (ResponseGenerator.stockResponse .badRequest) (ResponseGenerator.stockResponse .badRequest)
  close : ∀ {conn conn'}, Alike Q J conn conn' → Alike Q J (cls.close conn) (cls'.close conn')
  abort : ∀ {conn conn'}, Alike Q J conn conn' → Alike Q J (cls.abort conn) (cls'.abort conn')

variable {cls : SessionClass σ ω} {cls' : SessionClass σ ω'} {Q : Response → Response → Prop} {J : σ → Prop}
  {conn conn' : Connection σ} {shared : Shared ω} {out : (Connection σ × Shared ω) × List Action}
  (hcls : AnswersAlike cls cls' Q J)

include hcls

theorem respond_alike (h : Alike Q J conn conn') (shared' : Shared ω')
    (hrespond : conn.respond cls shared = .ok out)
    : ∃ out', conn'.respond cls' shared' = .ok out' ∧ OutAlike Q J out out' := by
  cases h with
  | mk response hresponse hown =>
    rcases respond_eq_ok cls hrespond with ⟨response1, own1, shared1, hhandle, rfl⟩
    rcases hcls.handleRequest shared' hown hhandle with ⟨hown1, response1', shared1', hhandle', hQ⟩
    refine ⟨_, by rw [respond, hhandle', Outcome.ok_bind]; rfl, ?_, ?_⟩
    . exact .of rfl hQ hown1
    . exact .cons (.handleRequest _) (.cons (.asyncWrite _ hQ) .nil)

theorem finishRead_alike (h : Alike Q J conn conn') (shared' : Shared ω') {result : RequestParser.ResultType}
    (hfinish : conn.finishRead cls result shared = .ok out)
    : ∃ out', conn'.finishRead cls' result shared' = .ok out' ∧ OutAlike Q J out out' := by
  cases h with
  | mk response hresponse hown =>
    cases result with
    | good =>
      rcases Outcome.bind_eq_ok.mp hfinish with ⟨⟨⟨conn1, shared1⟩, actions⟩, hrespond, hfinish⟩
      cases hfinish
      have hreset : Alike Q J { conn with requestParser := conn.requestParser.reset }
          { conn with requestParser := conn.requestParser.reset, responseGenerator := response } :=
        .of rfl hresponse hown
      rcases respond_alike hcls hreset shared' hrespond
        with ⟨⟨⟨conn1', shared1'⟩, actions'⟩, hrespond', h1, hactions⟩
      refine ⟨(({ conn1' with data := .zeroed }, shared1'), actions'), ?_, ?_, hactions⟩
      . exact Outcome.bind_eq_ok.mpr ⟨_, hrespond', rfl⟩
      cases h1 with
      | mk response1 hresponse1 hown1 => exact .of rfl hresponse1 hown1
    | missingData =>
      rcases Outcome.bind_eq_ok.mp hfinish with ⟨⟨c, request⟩, hlength, hfinish⟩
      cases hfinish
      refine ⟨_, Outcome.bind_eq_ok.mpr ⟨_, hlength, rfl⟩, ?_, .nil⟩
      exact .of rfl hresponse hown
    | bad =>
      cases hfinish
      exact ⟨_, rfl, .of rfl hcls.badRequest hown, .cons (.asyncWrite _ hcls.badRequest) .nil⟩
    | indeterminate =>
      cases hfinish
      exact ⟨_, rfl, .of rfl hresponse hown, .nil⟩

theorem readOn_alike (h : Alike Q J conn conn') (shared' : Shared ω') {result : RequestParser.ResultType}
    {k : Nat} (hread : conn.readOn cls result k shared = .ok out)
    : ∃ out', conn'.readOn cls' result k shared' = .ok out' ∧ OutAlike Q J out out' := by
  rw [readOn] at hread
  rw [readOn]
  split at hread
  next hresult =>
    cases h with
    | mk response hresponse hown =>
      cases hread
      rw [if_pos hresult]
      exact ⟨_, rfl, .of rfl hresponse hown, .nil⟩
  next hresult =>
    rw [if_neg hresult]
    exact finishRead_alike hcls h shared' hread

theorem handleFinalRead_alike (h : Alike Q J conn conn') (shared' : Shared ω')
    {connected : Bool} (hread : conn.handleFinalRead cls shared connected = .ok out)
    : ∃ out', conn'.handleFinalRead cls' shared' connected = .ok out' ∧ OutAlike Q J out out' := by
  cases h with
  | mk response hresponse hown =>
    rw [handleFinalRead, remoteEndpoint_bind] at hread
    rcases hread with ⟨rfl, hread⟩
    rcases Outcome.bind_eq_ok.mp hread with ⟨⟨⟨conn1, shared1⟩, actions⟩, hrespond, hread⟩
    cases hread
    have hbody : Alike Q J
        { conn with request := { conn.request with body := Bytes.cStr conn.bufferMemory } }
        { conn with
          request := { conn.request with body := Bytes.cStr conn.bufferMemory }
          responseGenerator := response } :=
      .of rfl hresponse hown
    rcases respond_alike hcls hbody shared' hrespond
      with ⟨⟨⟨conn1', shared1'⟩, actions'⟩, hrespond', h1, hactions⟩
    rw [handleFinalRead, remoteEndpoint_true, Outcome.ok_bind]
    refine Outcome.exists_bind hrespond' ⟨_, rfl, ?_, hactions⟩
    cases h1 with
    | mk response1 hresponse1 hown1 => exact .of rfl hresponse1 hown1

theorem afterWrite_alike (h : Alike Q J conn conn') (error : Bool)
    : Alike Q J (conn.afterWrite cls error) (conn'.afterWrite cls' error) := by
  cases error with
  | true => exact hcls.abort h
  | false =>
    cases h with
    | mk response hresponse hown =>
      simp only [afterWrite, Bool.not_false, if_true]
      split_ifs
      . exact hcls.close (.of rfl hresponse hown)
      . exact hcls.close (.of rfl hresponse hown)
      . exact .of rfl hresponse hown

theorem step_alike (h : Alike Q J conn conn') (shared' : Shared ω') {completion : Completion}
    (hstep : step cls (conn, shared) completion = .ok out)
    : ∃ out', step cls' (conn', shared') completion = .ok out' ∧ OutAlike Q J out out' := by
  cases h with
  | mk response hresponse hown =>
    simp only [step] at hstep ⊢
    split at hstep
    next hpending =>
      cases hstep
      -- nothing is under way, and a completion changes nothing
      rw [hpending]
      exact ⟨_, rfl, .of (by rw [hpending]) hresponse hown, .nil⟩
    next operation pending hpending =>
      split at hstep
      next => cases hstep
      next halive =>
        rw [if_neg halive]
        cases operation with
        | handshake =>
          cases hstep
          refine ⟨_, rfl, ?_, .nil⟩
          simp only [handleHandshake]
          split_ifs
          . exact .of rfl hresponse hown
          . exact .of rfl hresponse hown
        | read =>
          rw [handleRead, remoteEndpoint_bind] at hstep
          rcases hstep with ⟨hconnected, hstep⟩
          simp only [handleRead, hconnected, remoteEndpoint_true, Outcome.ok_bind]
          split at hstep
          next herror =>
            rw [if_pos herror]
            rcases Outcome.bind_eq_ok.mp hstep with ⟨⟨result, parser, request⟩, hdata, hstep⟩
            refine Outcome.exists_bind hdata (readOn_alike hcls ?_ shared' hstep)
            exact .of rfl hresponse hown
          next herror =>
            rw [if_neg herror]
            cases hstep
            exact ⟨_, rfl, .of rfl hresponse hown, .nil⟩
        | reread stale =>
          rcases Outcome.bind_eq_ok.mp hstep with ⟨⟨result, parser, request⟩, hdata, hstep⟩
          refine Outcome.exists_bind hdata ?_
          dsimp only at hstep ⊢
          split at hstep
          next herror =>
            cases hstep
            rw [if_pos herror]
            exact ⟨_, rfl, .of rfl hresponse hown, .nil⟩
          next herror =>
            rw [if_neg herror]
            refine readOn_alike hcls ?_ shared' hstep
            exact .of rfl hresponse hown
        | finalRead =>
          refine handleFinalRead_alike hcls ?_ shared' hstep
          exact .of rfl hresponse hown
        | write =>
          rcases (handleWrite_eq_ok cls).mp hstep with ⟨hconnected, rfl⟩
          refine ⟨_, (handleWrite_eq_ok cls').mpr ⟨hconnected, rfl⟩,
            afterWrite_alike hcls ?_ completion.error, .nil⟩
          exact .of rfl hresponse hown
        | shutdown =>
          cases hstep
          exact ⟨_, rfl, .of rfl hresponse hown, .nil⟩

end Connection

/-! ## Handlers that share nothing -/

def RequestHandler.Unshared : RequestHandler → Prop
  | .static handler => handler.authPath = []
  | .echo | .notFound | .health => True
  | .status | .proxy _ | .login _ => False

theorem RequestHandler.handleRequest_unshared {handler : RequestHandler} (h : handler.Unshared)
    {outside outside' : Outside} (hfiles : outside.login.files = outside'.login.files)
    {collector collector' : DataCollector} {table table' : AuthTable} {request : Request} {handled : Handled}
    (hhandle : handler.handleRequest outside collector table request = .ok handled)
    : ∃ handled', handler.handleRequest outside' collector' table' request = .ok handled'
        ∧ handled'.response = handled.response := by
  cases handler with
  | static handler =>
    cases hhandle
    refine ⟨_, rfl, ?_⟩
    have hopen : handler.authPath = [] := h
    simp only [StaticRequestHandler.handleRequest, hopen, hfiles]
    simp
  | echo =>
    cases hhandle
    exact ⟨_, rfl, rfl⟩
  | notFound =>
    cases hhandle
    exact ⟨_, rfl, rfl⟩
  | health =>
    cases hhandle
    exact ⟨_, rfl, rfl⟩
  | status => exact h.elim
  | proxy handler => exact h.elim
  | login handler => exact h.elim

def RequestHandlerGenerator.Registers (generator : RequestHandlerGenerator) (P : RequestHandler → Prop) : Prop :=
  ∀ location ptr, generator.map.find? location = some (some ptr) → P ptr.object

theorem RequestHandlerGenerator.Registers.dispatchHandler {generator : RequestHandlerGenerator}
    {P : RequestHandler → Prop} (h : generator.Registers P) (uri : Bytes)
    : (generator.dispatchHandler uri).2.Registers P := by
  intro location ptr hfind
  rw [dispatchHandler_eq] at hfind
  rcases OrdMap.find?_insert_eq_some hfind with hfind | ⟨-, hnull⟩
  . exact h location ptr hfind
  . cases hnull

def filesOnly (files : FileSystem) (_ : Nat) : Outside :=
  { deserted with login := { deserted.login with files } }

theorem Session.answersAlike {ω ω' : Type} {handlers : Handlers ω} {handlers' : Handlers ω'}
    {Q : Response → Response → Prop} {J : RequestHandlerGenerator → Prop}
    (hbad : Q (ResponseGenerator.stockResponse .badRequest) (ResponseGenerator.stockResponse .badRequest))
    (hdispatch : ∀ {generator : RequestHandlerGenerator} (uri : Bytes), J generator →
      J (generator.dispatchHandler uri).2)
    (hhandlers : ∀ {generator uri ptr shared request response shared1} (shared' : Shared ω'), J generator →
      (generator.dispatchHandler uri).1 = some ptr →
      handlers ptr.object shared request = .ok (response, shared1) →
      ∃ response' shared1', handlers' ptr.object shared' request = .ok (response', shared1')
        ∧ Q response response')
    : Connection.AnswersAlike (cls handlers) (cls handlers') Q J where
  handleRequest := by
    intro own shared request response own1 shared1 shared' hown hhandle
    simp only [cls, handleRequest] at hhandle ⊢
    cases hptr : (own.dispatchHandler request.uri).1 with
    | none =>
      rw [hptr] at hhandle
      cases hhandle
    | some ptr =>
      rw [hptr] at hhandle
      rcases Outcome.bind_eq_ok.mp hhandle with ⟨⟨response1, shared2⟩, hobject, hhandle⟩
      cases hhandle
      rcases hhandlers shared' hown hptr hobject with ⟨response', shared1', hobject', hQ⟩
      exact ⟨hdispatch _ hown, response', shared1', Outcome.bind_eq_ok.mpr ⟨_, hobject', rfl⟩, hQ⟩
  badRequest := hbad
  close := by
    rintro conn conn' ⟨response, hresponse, hown⟩
    exact .of rfl hresponse hown
  abort := by
    rintro conn conn' ⟨response, hresponse, hown⟩
    exact .of rfl hresponse hown

theorem HttpSession.answersAlike {ω ω' : Type}
    : Connection.AnswersAlike (@cls ω) (@cls ω') Eq (fun _ => True) where
  handleRequest := by
    intro own shared request response own1 shared1 shared' hown hhandle
    cases hhandle
    exact ⟨trivial, _, _, rfl, rfl⟩
  badRequest := rfl
  close := by
    rintro conn conn' ⟨response, hresponse, hown⟩
    exact .of rfl hresponse hown
  abort := by
    rintro conn conn' ⟨response, hresponse, hown⟩
    exact .of rfl hresponse hown

/-! ## The process -/

def Event.completion? (index : Nat) : Event → Option Completion
  | .complete number completion => if number = index then some completion else none
  | _ => none

namespace Process

variable {outside : Nat → Outside} {process process' : Process} {index : Nat} {actions : List Action}

theorem step_own {event : Event} {completion : Completion} {session : AnySession}
    (hevent : event.completion? index = some completion) (hsession : process.sessions[index]? = some session)
    (hstep : (machine outside).step process event = .ok (process', actions))
    : ∃ session', session.step outside process.shared completion = .ok ((session', process'.shared), actions)
        ∧ process'.sessions[index]? = some session' := by
  cases event with
  | acceptHttps => cases hevent
  | acceptHttp => cases hevent
  | complete number completion' =>
    simp only [Event.completion?] at hevent
    split at hevent
    next heq =>
      cases hevent
      subst heq
      simp only [machine, step, hsession] at hstep
      rcases Outcome.bind_eq_ok.mp hstep with ⟨⟨⟨session', shared⟩, actions'⟩, hany, hstep⟩
      cases hstep
      refine ⟨session', hany, ?_⟩
      rw [List.getElem?_set_self (List.getElem?_eq_some_iff.mp hsession).1]
    next => cases hevent

theorem step_other {event : Event} {session : AnySession} (hevent : event.completion? index = none)
    (hsession : process.sessions[index]? = some session)
    (hstep : (machine outside).step process event = .ok (process', actions))
    : process'.sessions[index]? = some session := by
  cases event with
  | acceptHttps =>
    cases hstep
    rw [List.getElem?_append_left (List.getElem?_eq_some_iff.mp hsession).1]
    exact hsession
  | acceptHttp =>
    cases hstep
    rw [List.getElem?_append_left (List.getElem?_eq_some_iff.mp hsession).1]
    exact hsession
  | complete number completion =>
    have hne : number ≠ index := by
      rintro rfl
      simp [Event.completion?] at hevent
    simp only [machine, step] at hstep
    split at hstep
    next =>
      cases hstep
      exact hsession
    next =>
      rcases Outcome.bind_eq_ok.mp hstep with ⟨⟨⟨session', shared⟩, actions'⟩, -, hstep⟩
      cases hstep
      rw [List.getElem?_set_ne hne]
      exact hsession

theorem hasPart_https {ω : Type} {handlers' : Handlers ω} {Q : Response → Response → Prop}
    {J : RequestHandlerGenerator → Prop}
    (hcls : Connection.AnswersAlike (Session.cls (handlers outside)) (Session.cls handlers') Q J)
    : (machine outside).HasPart (Session.machine handlers') (Event.completion? index)
        (fun process state => ∃ conn, process.sessions[index]? = some (.https conn)
          ∧ Connection.Alike Q J conn state.1) (Action.Alike Q) where
  own := by
    rintro process ⟨conn', shared'⟩ event completion process' actions ⟨conn, hsession, halike⟩ hevent hstep
    rcases step_own hevent hsession hstep with ⟨session', hany, hsession'⟩
    rcases Outcome.bind_eq_ok.mp hany with ⟨⟨⟨conn1, shared1⟩, actions1⟩, hconn, hany⟩
    cases hany
    rcases Connection.step_alike hcls halike shared' hconn
      with ⟨⟨⟨conn1', shared1'⟩, actions1'⟩, hconn', h1, hactions⟩
    exact ⟨_, _, hconn', hactions, conn1, hsession', h1⟩
  other := by
    rintro process ⟨conn', shared'⟩ event process' actions ⟨conn, hsession, halike⟩ hevent hstep
    exact ⟨conn, step_other hevent hsession hstep, halike⟩

theorem hasPart_http {ω : Type}
    : (machine outside).HasPart (@HttpSession.machine ω) (Event.completion? index)
        (fun process state => ∃ conn, process.sessions[index]? = some (.http conn)
          ∧ Connection.Alike Eq (fun _ => True) conn state.1) (Action.Alike Eq) where
  own := by
    rintro process ⟨conn', shared'⟩ event completion process' actions ⟨conn, hsession, halike⟩ hevent hstep
    rcases step_own hevent hsession hstep with ⟨session', hany, hsession'⟩
    rcases Outcome.bind_eq_ok.mp hany with ⟨⟨⟨conn1, shared1⟩, actions1⟩, hconn, hany⟩
    cases hany
    rcases Connection.step_alike HttpSession.answersAlike halike shared' hconn
      with ⟨⟨⟨conn1', shared1'⟩, actions1'⟩, hconn', h1, hactions⟩
    exact ⟨_, _, hconn', hactions, conn1, hsession', h1⟩
  other := by
    rintro process ⟨conn', shared'⟩ event process' actions ⟨conn, hsession, halike⟩ hevent hstep
    exact ⟨conn, step_other hevent hsession hstep, halike⟩

def shownTo (outside : Nat → Outside) (index : Nat) : Machine Process Event Action :=
  (machine outside).only fun event => (event.completion? index).isSome

/--
What the process shows to the client of a session is what the session does by itself with the completions of its
own operations. Only the responses may depend on the rest, and they do not if no handler looks at more than the
files, nor if the session redirects to https.
-/
structure Isolated (outside : Nat → Outside) (index : Nat) (process process' : Process) (events : List Event)
    (shown : List Action) : Prop where
  requests : ∀ conn, process.sessions[index]? = some (.https conn) →
    ∃ conn' response shared actions, process'.sessions[index]? = some (.https conn')
      ∧ (Session.machine refuseAll).run (conn, { world := () }) (events.filterMap (Event.completion? index))
          = .ok (({ conn' with responseGenerator := response }, shared), actions)
      ∧ shown.map Action.unanswered = actions.map Action.unanswered
  responses : ∀ conn files, process.sessions[index]? = some (.https conn) →
    conn.own.Registers RequestHandler.Unshared → (∀ n, (outside n).login.files = files) →
    ∃ conn' shared, process'.sessions[index]? = some (.https conn')
      ∧ (Session.machine (handlers (filesOnly files))).run (conn, { world := { table := .empty } })
            (events.filterMap (Event.completion? index))
          = .ok ((conn', shared), shown)
  redirects : ∀ conn, process.sessions[index]? = some (.http conn) →
    ∃ conn' shared, process'.sessions[index]? = some (.http conn')
      ∧ HttpSession.machine.run (conn, { world := () }) (events.filterMap (Event.completion? index))
          = .ok ((conn', shared), shown)

theorem answersAlike_refuseAll
    : Connection.AnswersAlike (Session.cls (handlers outside)) (Session.cls refuseAll) (fun _ _ => True)
        (fun _ => True) :=
  Session.answersAlike trivial (fun _ _ => trivial) fun _ _ _ _ => ⟨_, _, rfl, trivial⟩

theorem answersAlike_filesOnly {files : FileSystem} (hfiles : ∀ n, (outside n).login.files = files)
    : Connection.AnswersAlike (Session.cls (handlers outside)) (Session.cls (handlers (filesOnly files))) Eq
        (fun generator => generator.Registers RequestHandler.Unshared) := by
  refine Session.answersAlike rfl (fun uri h => h.dispatchHandler uri) ?_
  intro generator uri ptr shared request response shared1 shared' hunshared hptr hhandle
  have hobject : ptr.object.Unshared :=
    hunshared _ ptr (RequestHandlerGenerator.find?_of_dispatchHandler hptr)
  rcases Outcome.bind_eq_ok.mp hhandle with ⟨handled, hhandled, hhandle⟩
  cases hhandle
  have hsame : (outside shared.world.handled).login.files
      = (filesOnly files shared'.world.handled).login.files :=
    hfiles _
  rcases RequestHandler.handleRequest_unshared hobject hsame hhandled with ⟨handled', hhandled', hresponse⟩
  exact ⟨_, _, Outcome.bind_eq_ok.mpr ⟨_, hhandled', rfl⟩, hresponse.symm⟩

/--
Whatever the other sessions do, in whatever order and whatever they share, a session hands over the requests
that it would hand over alone, answers as many of them and is left in the same state.
-/
theorem sessions_isolated (outside : Nat → Outside) (index : Nat) (process process' : Process)
    (events : List Event) (shown : List Action)
    (hrun : (shownTo outside index).run process events = .ok (process', shown))
    : Isolated outside index process process' events shown where
  requests := by
    intro conn hsession
    rcases (hasPart_https answersAlike_refuseAll).run (t := (conn, { world := () }))
      ⟨conn, hsession, .of rfl trivial trivial⟩ hrun
      with ⟨⟨alone, shared⟩, actions, halone, hactions, conn', hsession', halike⟩
    cases halike with
    | mk response hresponse hown =>
      exact ⟨conn', response, shared, actions, hsession', halone, Action.map_unanswered_of_alike hactions⟩
  responses := by
    intro conn files hsession hunshared hfiles
    rcases (hasPart_https (answersAlike_filesOnly hfiles)).run (t := (conn, { world := { table := .empty } }))
      ⟨conn, hsession, .of rfl rfl hunshared⟩ hrun
      with ⟨⟨alone, shared⟩, actions, halone, hactions, conn', hsession', halike⟩
    cases halike with
    | mk response hresponse hown =>
      subst hresponse
      rw [Action.alike_eq hactions]
      exact ⟨conn', shared, hsession', halone⟩
  redirects := by
    intro conn hsession
    rcases hasPart_http.run (t := (conn, ({ world := () } : Shared Unit)))
      ⟨conn, hsession, .of rfl rfl trivial⟩ hrun
      with ⟨⟨alone, shared⟩, actions, halone, hactions, conn', hsession', halike⟩
    cases halike with
    | mk response hresponse hown =>
      subst hresponse
      rw [Action.alike_eq hactions]
      exact ⟨conn', shared, hsession', halone⟩

theorem sessions_isolated_second
    : ∃ process process' shown, (machine fun _ => deserted).run (started .empty { table := .empty }) twoClients
          = .ok (process, [])
        ∧ (shownTo (fun _ => deserted) 1).run process [first, second] = .ok (process', shown)
        ∧ shown.length = 2 ∧ Isolated (fun _ => deserted) 1 process process' [first, second] shown := by
  have hrun : ((shownTo (fun _ => deserted) 1).run
      ⟨[.http (HttpSession.start .zeroed .zeroed [] []), .http (HttpSession.start .zeroed .zeroed [] [])],
        { world := { table := .empty } }⟩ [first, second]).Yields (fun out => out.2.length = 2) := by
    decide +kernel
  rcases hrun with ⟨⟨process', shown⟩, hrun, hshown⟩
  exact ⟨_, process', shown, rfl, hrun, hshown, sessions_isolated _ 1 _ process' _ shown hrun⟩

end Process

end Foxy
