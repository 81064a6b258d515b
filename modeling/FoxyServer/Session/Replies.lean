import FoxyServer.Session.Authentication
import FoxyServer.Session.Dispatching
import FoxyServer.Session.Heads
import FoxyServer.Session.Isolation
import FoxyServer.Session.Reply
import FoxyServer.Session.Upstreams

/-!
This module contains what a client reads off a connection: the responses that have been written, in their order and
nothing else, if no auth path has a line end in it and the proxies forward to servers of this kind.
-/

namespace Foxy

/-! ## The handlers -/

theorem HttpSession.courteous_handleRequest {hostname : Bytes} (hhostname : hostname.OneLine) {request : Request}
    (hclean : request.Clean) : (HttpSession.handleRequest hostname request).Courteous := by
  rw [handleRequest]
  split_ifs
  . exact .stockResponse .badRequest (by decide)
  . refine .redirect ?_
    simp only [Bytes.oneLine_append]
    exact ⟨⟨by decide +kernel, hhostname⟩, hclean.uriCtlFree.oneLine⟩

theorem mimeTypes.oneLine_extensionToType (extension : Bytes) : (extensionToType extension).OneLine := by
  rw [extensionToType]
  split
  next mapping hmapping =>
    have hall : ∀ mapping ∈ mappings, mapping.2.OneLine := by decide +kernel
    exact hall mapping (List.mem_of_find?_eq_some hmapping)
  next => decide +kernel

theorem StaticRequestHandler.courteous_handleRequest {handler : StaticRequestHandler}
    (hauthPath : handler.authPath.OneLine) (files : FileSystem) (verifyCookie : Bytes → Bool) (request : Request)
    : (handler.handleRequest files verifyCookie request).1.Courteous := by
  rw [handleRequest]
  dsimp only
  split
  . exact .redirect hauthPath
  . split
    . exact .stockResponse .badRequest (by decide)
    . split
      . exact .stockResponse .internalServerError (by decide)
      . split
        . exact .stockResponse .notFound (by decide)
        . exact .page .ok _ (mimeTypes.oneLine_extensionToType _) (by decide)

namespace LoginRequestHandler

theorem courteous_prepareHtmlResponse (handler : LoginRequestHandler) (files : FileSystem) (file : Bytes)
    : (handler.prepareHtmlResponse files file).Courteous := by
  rw [prepareHtmlResponse]
  split
  . exact .stockResponse .notFound (by decide)
  . exact .page .ok _ (by decide +kernel) (by decide)

theorem courteous_handleRequest (handler : LoginRequestHandler) {env : LoginEnv}
    (hcookies : ∀ username, (env.generateCookie username).OneLine) (table : AuthTable) (request : Request)
    : (handler.handleRequest env table request).1.Courteous := by
  have hpage := handler.courteous_prepareHtmlResponse env.files
  rw [handleRequest]
  split
  . split_ifs
    . exact hpage _
    . exact hpage _
  . dsimp only
    split_ifs
    . exact hpage _
    . exact hpage _
    . refine (hpage _).set (by decide) (by decide +kernel) ?_
      simp only [Bytes.oneLine_append]
      exact ⟨⟨by decide +kernel, hcookies _⟩, by decide +kernel⟩
    . exact hpage _
  . exact .stockResponse .badRequest (by decide)

end LoginRequestHandler

/-- The config has no line end where a response would have it too, and the servers of a proxy are courteous. -/
def RequestHandler.WellBehaved (upstreams : Nat → Upstream) : RequestHandler → Prop
  | .static handler => handler.authPath.OneLine
  | .proxy handler =>
    ∀ n loopCount rawReq, (upstreams n handler.root handler.port loopCount rawReq).Courteous
  | _ => True

theorem RequestHandler.WellBehaved.courteous {handler : RequestHandler} {outside : Nat → Outside} {n : Nat}
    (h : handler.WellBehaved fun n => (outside n).upstream)
    (hcookies : ∀ username, ((outside n).login.generateCookie username).OneLine) {collector : DataCollector}
    {table : AuthTable} {request : Request} {handled : Handled}
    (hhandle : handler.handleRequest (outside n) collector table request = .ok handled)
    : handled.response.Courteous := by
  cases handler with
  | static handler =>
    cases hhandle
    exact handler.courteous_handleRequest h _ _ request
  | echo =>
    cases hhandle
    exact .page .ok _ (by decide +kernel) (by decide)
  | status =>
    cases hhandle
    exact .page .ok _ (by decide +kernel) (by decide)
  | notFound =>
    cases hhandle
    exact .stockResponse .notFound (by decide)
  | proxy handler =>
    rcases Outcome.bind_eq_ok.mp hhandle with ⟨⟨response, exchanges⟩, hrun, hhandle⟩
    cases hhandle
    exact ProxyRequestHandler.courteous_handleRequest (h n) hrun
  | health =>
    cases hhandle
    exact .page .ok _ (by decide +kernel) (by decide)
  | login handler =>
    cases hhandle
    exact handler.courteous_handleRequest hcookies table request

/-! ## The sessions -/

def Action.response? : Action → Option Response
  | .handleRequest _ => none
  | .asyncWrite _ response => some response

def written (actions : List Action) : List Response :=
  actions.filterMap Action.response?

def sent (actions : List Action) : Bytes :=
  (written actions).flatMap ResponseGenerator.serialise

namespace Connection

variable {σ ω : Type} {cls : SessionClass σ ω}

inductive Wrote (cls : SessionClass σ ω) (own : σ) (shared : Shared ω) : List Action → Prop where
  | nothing : Wrote cls own shared []
  | refused (request : Request)
    : Wrote cls own shared [.asyncWrite request (ResponseGenerator.stockResponse .badRequest)]
  | answered {request : Request} {response : Response} {own' : σ} {shared' : Shared ω}
    (hhandle : cls.handleRequest own shared request = .ok (response, own', shared'))
    : Wrote cls own shared [.handleRequest request, .asyncWrite request response]

theorem respond_wrote {conn : Connection σ} {shared : Shared ω} {out : (Connection σ × Shared ω) × List Action}
    (h : conn.respond cls shared = .ok out) : Wrote cls conn.own shared out.2 := by
  rcases respond_eq_ok cls h with ⟨response, own, shared', hhandle, rfl⟩
  exact .answered hhandle

theorem readOn_wrote {conn : Connection σ} {shared : Shared ω} {result : RequestParser.ResultType} {k : Nat}
    {out : (Connection σ × Shared ω) × List Action} (h : conn.readOn cls result k shared = .ok out)
    : Wrote cls conn.own shared out.2 := by
  rw [readOn] at h
  split at h
  next =>
    cases h
    exact .nothing
  next =>
    cases result with
    | good =>
      rcases Outcome.bind_eq_ok.mp h with ⟨⟨⟨conn1, shared1⟩, actions⟩, hrespond, h⟩
      cases h
      have hwrote := respond_wrote hrespond
      exact hwrote
    | missingData =>
      rcases Outcome.bind_eq_ok.mp h with ⟨⟨c, request⟩, -, h⟩
      cases h
      exact .nothing
    | bad =>
      cases h
      exact .refused _
    | indeterminate =>
      cases h
      exact .nothing

theorem step_wrote {conn : Connection σ} {shared : Shared ω} {completion : Completion}
    {out : (Connection σ × Shared ω) × List Action} (h : step cls (conn, shared) completion = .ok out)
    : Wrote cls conn.own shared out.2 := by
  cases step_cameTo h with
  | idle => exact .nothing
  | parsed hown _ hread => exact hown ▸ readOn_wrote hread
  | arrived hown hrespond =>
    have hwrote := respond_wrote hrespond
    exact hown ▸ hwrote
  | written _ _ => exact .nothing
  | other _ _ => exact .nothing

theorem Wrote.forall_written {own : σ} {shared : Shared ω} {actions : List Action} (h : Wrote cls own shared actions)
    {P : Response → Prop} (hrefused : P (ResponseGenerator.stockResponse .badRequest))
    (hanswered : ∀ request response own' shared', .handleRequest request ∈ actions →
      cls.handleRequest own shared request = .ok (response, own', shared') → P response)
    : ∀ response ∈ written actions, P response := by
  cases h with
  | nothing => simp [written]
  | refused request => simpa [written, Action.response?] using hrefused
  | answered hhandle => simpa [written, Action.response?] using hanswered _ _ _ _ List.mem_cons_self hhandle

end Connection

theorem Session.handleRequest_registers {P : RequestHandler → Prop} {handlers : Handlers ω}
    : Connection.HandlersKeep (cls handlers) (fun generator => generator.Registers P) := by
  intro own shared request response own' shared' hown hhandle
  simp only [cls, handleRequest] at hhandle
  split at hhandle
  next => cases hhandle
  next =>
    rcases Outcome.bind_eq_ok.mp hhandle with ⟨⟨response1, shared1⟩, -, hhandle⟩
    cases hhandle
    exact hown.dispatchHandler _

theorem Session.handleRequest_courteous {outside : Nat → Outside}
    (hcookies : ∀ n username, ((outside n).login.generateCookie username).OneLine)
    {generator generator' : RequestHandlerGenerator}
    (h : generator.Registers (RequestHandler.WellBehaved fun n => (outside n).upstream))
    {shared shared' : Shared World} {request : Request} {response : Response}
    (hhandle : handleRequest (handlers outside) generator shared request = .ok (response, generator', shared'))
    : response.Courteous := by
  simp only [handleRequest] at hhandle
  split at hhandle
  next => cases hhandle
  next ptr hptr =>
    rcases Outcome.bind_eq_ok.mp hhandle with ⟨⟨response1, shared1⟩, hhandlers, hhandle⟩
    rcases Outcome.bind_eq_ok.mp hhandlers with ⟨handled, hhandled, hhandlers⟩
    cases hhandlers
    cases hhandle
    have hwell := h _ ptr (RequestHandlerGenerator.find?_of_dispatchHandler hptr)
    exact hwell.courteous (hcookies _) hhandled

def AnySession.WellBehaved (upstreams : Nat → Upstream) : AnySession → Prop
  | .https conn => conn.own.Registers (RequestHandler.WellBehaved upstreams)
  | .http conn => conn.own.OneLine ∧ RequestParser.CleanState conn.requestParser conn.request

inductive AnySession.StartedWell (upstreams : Nat → Upstream) : AnySession → Prop where
  | https (data buffer : Buffer) (beyond : Bytes) {generator : RequestHandlerGenerator}
    (hgenerator : generator.Registers (RequestHandler.WellBehaved upstreams))
    : StartedWell upstreams (.https (Session.start data buffer beyond generator))
  | http (data buffer : Buffer) (beyond : Bytes) {hostname : Bytes} (hhostname : hostname.OneLine)
    : StartedWell upstreams (.http (HttpSession.start data buffer beyond hostname))

theorem AnySession.StartedWell.wellBehaved {upstreams : Nat → Upstream} {session : AnySession}
    (h : session.StartedWell upstreams) : session.WellBehaved upstreams := by
  cases h with
  | https data buffer beyond hgenerator => exact hgenerator
  | http data buffer beyond hhostname =>
    exact ⟨hhostname, ctlFree_nil, Request.clean_empty⟩

theorem AnySession.WellBehaved.step {outside : Nat → Outside}
    (hcookies : ∀ n username, ((outside n).login.generateCookie username).OneLine)
    {session session' : AnySession} (h : session.WellBehaved fun n => (outside n).upstream)
    {shared shared' : Shared World} {completion : Completion} {actions : List Action}
    (hstep : session.step outside shared completion = .ok ((session', shared'), actions))
    : (session'.WellBehaved fun n => (outside n).upstream)
        ∧ ∀ response ∈ written actions, response.Courteous := by
  cases session with
  | https conn =>
    rcases Outcome.bind_eq_ok.mp hstep with ⟨⟨⟨conn', shared1⟩, actions1⟩, hconn, hstep⟩
    cases hstep
    constructor
    . exact Connection.step_keeps_own
        (J := fun generator => generator.Registers (RequestHandler.WellBehaved fun n => (outside n).upstream))
        Session.handleRequest_registers (fun _ => rfl) (fun _ => rfl) h hconn
    . refine (Connection.step_wrote hconn).forall_written (.stockResponse .badRequest (by decide)) ?_
      intro request response own' shared' _ hhandle
      exact Session.handleRequest_courteous hcookies h hhandle
  | http conn =>
    rcases Outcome.bind_eq_ok.mp hstep with ⟨⟨⟨conn', shared1⟩, actions1⟩, hconn, hstep⟩
    cases hstep
    have hstart : Connection.KeptRun RequestParser.CleanState Request.Clean (conn, shared) [] :=
      ⟨h.2, by simp⟩
    have hkept := Connection.keptRun_step Connection.kept_cleanState (fun h => h.request)
      HttpSession.leavesRequest hstart hconn
    have hkeep : Connection.HandlersKeep (@HttpSession.cls World) Bytes.OneLine := by
      intro own shared request response own' shared' hown hhandle
      cases hhandle
      exact hown
    refine ⟨⟨Connection.step_keeps_own hkeep (fun _ => rfl) (fun _ => rfl) h.1 hconn, hkept.1⟩, ?_⟩
    refine (Connection.step_wrote hconn).forall_written (.stockResponse .badRequest (by decide)) ?_
    intro request response own' shared' hrequest hhandle
    cases hhandle
    exact HttpSession.courteous_handleRequest h.1 (hkept.2 request hrequest)

/-! ## The process -/

namespace Process

variable {outside : Nat → Outside} {index : Nat}

def Courteous (outside : Nat → Outside) (index : Nat) (process : Process) (shown : List Action) : Prop :=
  (∃ session, process.sessions[index]? = some session ∧ session.WellBehaved fun n => (outside n).upstream)
    ∧ ∀ response ∈ written shown, response.Courteous

theorem Courteous.step (hcookies : ∀ n username, ((outside n).login.generateCookie username).OneLine)
    {process process' : Process} {done shown : List Action} {event : Event} (h : Courteous outside index process done)
    (hstep : (shownTo outside index).step process event = .ok (process', shown))
    : Courteous outside index process' (done ++ shown) := by
  rcases h with ⟨⟨session, hsession, hwell⟩, hdone⟩
  rcases Machine.only_step_eq_ok.mp hstep with ⟨actions, hmachine, rfl⟩
  cases hevent : event.completion? index with
  | none =>
    rw [Option.isSome_none, if_neg (by decide), List.append_nil]
    exact ⟨⟨session, step_other hevent hsession hmachine, hwell⟩, hdone⟩
  | some completion =>
    rcases step_own hevent hsession hmachine with ⟨session', hany, hsession'⟩
    rcases hwell.step hcookies hany with ⟨hwell', hwritten⟩
    rw [Option.isSome_some, if_pos rfl]
    refine ⟨⟨session', hsession', hwell'⟩, ?_⟩
    intro response hresponse
    rw [written, List.filterMap_append, List.mem_append] at hresponse
    rcases hresponse with hresponse | hresponse
    . exact hdone response hresponse
    . exact hwritten response hresponse

theorem courteous_of_run (hcookies : ∀ n username, ((outside n).login.generateCookie username).OneLine)
    {process process' : Process} {shown : List Action} {events : List Event} {session : AnySession}
    (hsession : process.sessions[index]? = some session) (hwell : session.WellBehaved fun n => (outside n).upstream)
    (hrun : (shownTo outside index).run process events = .ok (process', shown))
    : ∀ response ∈ written shown, response.Courteous := by
  have hstart : Courteous outside index process [] := ⟨⟨session, hsession, hwell⟩, by simp [written]⟩
  have h := Machine.run_invariant (fun h _ hstep => Courteous.step hcookies h hstep) hstart
    (Machine.meets_true _ _) hrun
  exact h.2

theorem frames_written {actions : List Action} (h : ∀ response ∈ written actions, response.Readable)
    : List.Forall₂ Reply.framing.Frames ((written actions).map Reply.ofResponse)
        ((written actions).map ResponseGenerator.serialise) := by
  rw [List.forall₂_map_left_iff, List.forall₂_map_right_iff, List.forall₂_same]
  exact fun response hresponse => Reply.frames_serialise (h response hresponse)

/--
Whatever the other sessions do and in whatever pieces the bytes arrive, a client that has received a part of what
its session has sent has read the responses that are complete in it, one after another, and has the beginning of
the next one left. When all has arrived, it has read all of them and there is nothing left. The responses are as
courteous as those of the servers that the proxies forward to, so that a proxy may forward to this server too.
-/
theorem client_reads_responses (hmac : Bytes → Bytes → Bytes) (doubles : Doubles) (clock : Clock)
    (outside : Nat → Outside) (index : Nat) (process process' : Process) (session : AnySession)
    (events : List Event) (shown : List Action) (pieces : List Bytes)
    (hsession : process.sessions[index]? = some session)
    (hstarted : session.StartedWell fun n => (outside n).upstream)
    (hrun : (shownTo (withCookies hmac doubles clock outside) index).run process events = .ok (process', shown))
    (hpieces : pieces.flatten <+: sent shown)
    : (∃ k rest, Framing.CutAt ((written shown).map ResponseGenerator.serialise) k rest pieces.flatten
          ∧ Reply.framing.receiver.run [] pieces
              = .ok (rest, ((written shown).map Reply.ofResponse).take k))
        ∧ (pieces.flatten = sent shown →
            Reply.framing.receiver.run [] pieces = .ok ([], (written shown).map Reply.ofResponse))
        ∧ ∀ response ∈ written shown, response.Courteous := by
  have hcookies : ∀ n username,
      ((withCookies hmac doubles clock outside n).login.generateCookie username).OneLine :=
    fun n username => jwt.oneLine_sign hmac doubles _ _
  have hcourteous := courteous_of_run hcookies hsession hstarted.wellBehaved hrun
  have hframes := frames_written fun response hresponse => (hcourteous response hresponse).readable
  have hsent : sent shown = ((written shown).map ResponseGenerator.serialise).flatten :=
    List.flatMap_def
  rw [hsent] at hpieces ⊢
  exact ⟨Framing.receive_prefix hframes hpieces, fun hall => Framing.receive_all hframes hall, hcourteous⟩

def foxSource : Source where
  chunks :=
    [(ResponseGenerator.serialise (textResponse (Bytes.lit "fox") "text/plain")).take 20,
      (ResponseGenerator.serialise (textResponse (Bytes.lit "fox") "text/plain")).drop 20]
  nonempty := by decide +kernel

def besideFox (_ : Nat) : Outside :=
  { deserted with upstream := fun _ _ _ _ => .answered foxSource }

def generatorOfProxy : RequestHandlerGenerator where
  map := OrdMap.empty.set (Bytes.lit "/") (some ⟨0, .proxy ProxyRequestHandler.rootProxy⟩)

theorem registers_generatorOfProxy
    : generatorOfProxy.Registers (RequestHandler.WellBehaved fun n => (besideFox n).upstream) := by
  intro location ptr hfind
  rw [generatorOfProxy, OrdMap.find?_set] at hfind
  split at hfind
  next =>
    cases hfind
    exact fun _ _ _ => ⟨foxSource, textResponse (Bytes.lit "fox") "text/plain", rfl, by decide +kernel,
      .page .ok (Bytes.lit "fox") (by decide +kernel) (by decide)⟩
  next => cases hfind

def forwardedForTest : List Event :=
  [.complete 0 {}, .complete 0 { read := ⟨Bytes.lit "GET /a HTTP/1.1\r\nHost: fox\r\n\r\n", by decide⟩ }]

theorem client_reads_responses_proxy
    : ∃ process' shown,
        (shownTo (withCookies Cookie.hmacForTest Cookie.doublesForTest clockForTest besideFox) 0).run
            ⟨[.https (Session.start .zeroed .zeroed [] generatorOfProxy)], { world := { table := .empty } }⟩
            forwardedForTest = .ok (process', shown)
          ∧ (written shown).length = 1
          ∧ Reply.framing.receiver.run [] [(sent shown).take 20, (sent shown).drop 20]
              = .ok ([], (written shown).map Reply.ofResponse) := by
  have hrun : ((shownTo (withCookies Cookie.hmacForTest Cookie.doublesForTest clockForTest besideFox) 0).run
      ⟨[.https (Session.start .zeroed .zeroed [] generatorOfProxy)], { world := { table := .empty } }⟩
      forwardedForTest).Yields (fun out => (written out.2).length = 1) := by
    decide +kernel
  rcases hrun with ⟨⟨process', shown⟩, hrun, hlength⟩
  have hpieces : [(sent shown).take 20, (sent shown).drop 20].flatten = sent shown := by
    simp [List.take_append_drop]
  have hstarted : (AnySession.https (Session.start .zeroed .zeroed [] generatorOfProxy)).StartedWell
      fun n => (besideFox n).upstream :=
    .https .zeroed .zeroed [] registers_generatorOfProxy
  have hreads := client_reads_responses Cookie.hmacForTest Cookie.doublesForTest clockForTest besideFox 0 _
    process' _ forwardedForTest shown [(sent shown).take 20, (sent shown).drop 20] rfl hstarted hrun
    (by rw [hpieces])
  exact ⟨process', shown, hrun, hlength, hreads.2.1 hpieces⟩

end Process

end Foxy
