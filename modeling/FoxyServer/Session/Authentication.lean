import FoxyServer.Jwt.Validity
import FoxyServer.Session.Counting
import FoxyServer.Session.Dispatching

/-!
This module contains who gets to see what a handler protects: in every run of the process, whoever has logged in
before, or can compute the HMAC under the secret of the server.
-/

namespace Foxy

/-! ## Answers -/

namespace Connection

variable {σ ω : Type} {cls : SessionClass σ ω}

def AnswersWith (cls : SessionClass σ ω) (own : σ) (shared : Shared ω) (request : Request)
    (actions : List Action) : Prop :=
  ∃ response own' shared', cls.handleRequest own shared request = .ok (response, own', shared')
    ∧ actions = [.handleRequest request, .asyncWrite request response]

theorem answersWith_of_respond {conn : Connection σ} {shared : Shared ω}
    {out : (Connection σ × Shared ω) × List Action} (h : conn.respond cls shared = .ok out)
    : AnswersWith cls conn.own shared conn.request out.2 := by
  rcases respond_eq_ok cls h with ⟨response, own, shared', hhandle, rfl⟩
  exact ⟨response, own, shared', hhandle, rfl⟩

theorem answersWith_of_readOn {bytesTransferred : Nat} {conn : Connection σ} {shared : Shared ω}
    {out : (Connection σ × Shared ω) × List Action}
    (h : conn.readOn cls .good bytesTransferred shared = .ok out)
    : AnswersWith cls conn.own shared conn.request out.2 := by
  rw [readOn, if_neg (by decide)] at h
  rcases Outcome.bind_eq_ok.mp h with ⟨⟨⟨conn', shared'⟩, actions⟩, hrespond, h⟩
  have hanswers := answersWith_of_respond hrespond
  dsimp only at h
  rw [if_pos (by decide), Outcome.pure_eq_ok, Outcome.ok.injEq] at h
  rw [← h]
  exact hanswers

theorem answersWith_of_hands {conn : Connection σ} {shared : Shared ω} {completion : Completion}
    {request : Request} {out : (Connection σ × Shared ω) × List Action} (hands : conn.Hands completion request)
    (hstep : step cls (conn, shared) completion = .ok out)
    : AnswersWith cls conn.own shared request out.2 := by
  cases hands with
  | read pending parser request hpending hconnected herror hparse =>
    simp only [step, hpending, hconnected, herror, handleRead, remoteEndpoint_true, Bool.not_false, if_true,
      hparse, Outcome.ok_bind] at hstep
    split at hstep
    next => cases hstep
    next => exact answersWith_of_readOn hstep
  | reread pending stale parser request hpending herror hparse =>
    simp only [step, hpending, herror, handleReread, hparse, Outcome.ok_bind, Bool.false_eq_true,
      if_false] at hstep
    split at hstep
    next => cases hstep
    next => exact answersWith_of_readOn hstep
  | finalRead pending hpending hconnected =>
    simp only [step, hpending, hconnected, handleFinalRead, remoteEndpoint_true, Outcome.ok_bind] at hstep
    split at hstep
    next => cases hstep
    next =>
      rcases Outcome.bind_eq_ok.mp hstep with ⟨⟨⟨conn', shared'⟩, actions⟩, hrespond, hstep⟩
      have hanswers := answersWith_of_respond hrespond
      rw [Outcome.pure_eq_ok, Outcome.ok.injEq] at hstep
      rw [← hstep]
      exact hanswers

theorem step_of_handled {conn : Connection σ} {shared shared' : Shared ω} {completion : Completion}
    {request : Request} {response : Response} {own' : σ} (hands : conn.Hands completion request)
    (halive : conn.destroyed = false)
    (hhandle : cls.handleRequest conn.own shared request = .ok (response, own', shared'))
    : ∃ state, step cls (conn, shared) completion
        = .ok (state, [.handleRequest request, .asyncWrite request response]) := by
  have hlive : ¬conn.destroyed = true := by
    rw [halive]
    decide
  cases hands with
  | read pending parser request hpending hconnected herror hparse =>
    simp only [step, hpending, if_neg hlive, hconnected, herror, handleRead, remoteEndpoint_true, Bool.not_false,
      if_true, if_false, hparse, Outcome.ok_bind, readOn, reduceCtorEq, finishRead, respond, hhandle,
      Outcome.pure_eq_ok, ne_eq, not_false_eq_true]
    exact ⟨_, rfl⟩
  | reread pending stale parser request hpending herror hparse =>
    simp only [step, hpending, if_neg hlive, herror, handleReread, hparse, Outcome.ok_bind, Bool.false_eq_true,
      readOn, reduceCtorEq, if_false, finishRead, respond, hhandle, Outcome.pure_eq_ok, ne_eq, not_false_eq_true,
      if_true]
    exact ⟨_, rfl⟩
  | finalRead pending hpending hconnected =>
    simp only [step, hpending, if_neg hlive, hconnected, handleFinalRead, remoteEndpoint_true, Outcome.ok_bind,
      respond, hhandle, Outcome.pure_eq_ok]
    exact ⟨_, rfl⟩

end Connection

theorem StaticRequestHandler.handleRequest_accepted {handler : StaticRequestHandler} {request : Request}
    {verifyCookie : Bytes → Bool}
    (h : checkCookie verifyCookie ((request.headers.find? (Bytes.lit "Cookie")).getD []) = true)
    (files : FileSystem) (verifyCookie' : Bytes → Bool)
    : handler.handleRequest files verifyCookie request
        =
      { handler with authPath := [] }.handleRequest files verifyCookie' request := by
  have hopen : ∀ path, { handler with authPath := [] }.replacePath path = handler.replacePath path :=
    fun _ => rfl
  simp only [handleRequest, h, hopen]
  simp

/-! ## The process -/

structure Clock where
  verified : Nat → Int
  issued : Nat → Int
  created : Nat → Int
  ticks : ∀ n, jwt.Ticks (issued n) ∧ jwt.Ticks (created n + Cookie.timeToLive * 1000000000)

variable (hmac : Bytes → Bytes → Bytes) (doubles : Doubles) (clock : Clock) (outside : Nat → Outside)

def withCookies (n : Nat) : Outside :=
  { outside n with
    verifyCookie := Cookie.verifyCookie (jwt.library hmac doubles) (clock.verified n)
    login := { (outside n).login with
      generateCookie :=
        Cookie.generateCookie (jwt.library hmac doubles) (clock.issued n) (clock.created n) } }

namespace Process

/-- The event makes a session hand the request to the handler and write the response. -/
def Answers (outside : Nat → Outside) (process : Process) (event : Event) (handler : RequestHandler)
    (request : Request) (response : Response) : Prop :=
  ∃ index completion conn process', event = .complete index completion
    ∧ process.sessions[index]? = some (.https conn) ∧ conn.Hands completion request
    ∧ (conn.own.dispatchHandler request.uri).1.map HandlerPtr.object = some handler
    ∧ (machine outside).step process event
        = .ok (process', [.handleRequest request, .asyncWrite request response])

section

variable {outside : Nat → Outside} {process : Process} {index : Nat} {completion : Completion} {request : Request}

theorem handled_of_hands {process' : Process} {conn : Connection RequestHandlerGenerator} {ptr : HandlerPtr}
    {actions : List Action} (hsession : process.sessions[index]? = some (.https conn))
    (hands : conn.Hands completion request) (hptr : (conn.own.dispatchHandler request.uri).1 = some ptr)
    (hstep : step outside process (.complete index completion) = .ok (process', actions))
    : ∃ handled, ptr.object.handleRequest (outside process.shared.world.handled) process.shared.collector
          process.shared.world.table request = .ok handled
        ∧ actions = [.handleRequest request, .asyncWrite request handled.response] := by
  simp only [step, hsession] at hstep
  rcases Outcome.bind_eq_ok.mp hstep with ⟨⟨⟨session, shared⟩, actions1⟩, hany, hstep⟩
  rcases Outcome.bind_eq_ok.mp hany with ⟨⟨⟨conn', shared'⟩, actions2⟩, hconn, hany⟩
  cases hany
  cases hstep
  rcases Connection.answersWith_of_hands hands hconn with ⟨response, own', shared1, hhandle, hactions⟩
  simp only [Session.cls, Session.handleRequest, hptr] at hhandle
  rcases Outcome.bind_eq_ok.mp hhandle with ⟨⟨response1, shared2⟩, hhandlers, hhandle⟩
  rcases Outcome.bind_eq_ok.mp hhandlers with ⟨handled, hhandled, hhandlers⟩
  cases hhandlers
  cases hhandle
  exact ⟨handled, hhandled, hactions⟩

theorem step_of_handled {conn : Connection RequestHandlerGenerator} {ptr : HandlerPtr} {handled : Handled}
    (hsession : process.sessions[index]? = some (.https conn)) (halive : conn.destroyed = false)
    (hands : conn.Hands completion request) (hptr : (conn.own.dispatchHandler request.uri).1 = some ptr)
    (hhandled : ptr.object.handleRequest (outside process.shared.world.handled) process.shared.collector
      process.shared.world.table request = .ok handled)
    : ∃ process', step outside process (.complete index completion)
        = .ok (process', [.handleRequest request, .asyncWrite request handled.response]) := by
  have hhandle : ∃ own' shared', (Session.cls (handlers outside)).handleRequest conn.own process.shared request
      = .ok (handled.response, own', shared') := by
    simp only [Session.cls, Session.handleRequest, hptr, handlers, hhandled, Outcome.ok_bind, Outcome.pure_eq_ok]
    exact ⟨_, _, rfl⟩
  rcases hhandle with ⟨own', shared', hhandle⟩
  rcases Connection.step_of_handled hands halive hhandle with ⟨⟨conn', shared1⟩, hstep⟩
  simp only [step, hsession, AnySession.step, Session.machine, Connection.machine, hstep, Outcome.ok_bind,
    Outcome.pure_eq_ok]
  exact ⟨_, rfl⟩

theorem answers_of_hands {process' : Process} {conn : Connection RequestHandlerGenerator} {ptr : HandlerPtr}
    {actions : List Action} (hsession : process.sessions[index]? = some (.https conn))
    (hands : conn.Hands completion request) (hptr : (conn.own.dispatchHandler request.uri).1 = some ptr)
    (hstep : step outside process (.complete index completion) = .ok (process', actions))
    : ∃ response, Answers outside process (.complete index completion) ptr.object request response := by
  rcases handled_of_hands hsession hands hptr hstep with ⟨handled, -, rfl⟩
  exact ⟨handled.response, index, completion, conn, process', rfl, hsession, hands, by rw [hptr]; rfl, hstep⟩

end

theorem handleRequest_of_answers {outside : Nat → Outside} {process : Process} {event : Event}
    {handler : RequestHandler} {request : Request} {response : Response}
    (h : Answers outside process event handler request response)
    : ∃ handled, handler.handleRequest (outside process.shared.world.handled) process.shared.collector
        process.shared.world.table request = .ok handled ∧ handled.response = response := by
  rcases h with ⟨index, completion, conn, process', rfl, hsession, hands, hdispatch, hstep⟩
  rcases Option.map_eq_some_iff.mp hdispatch with ⟨ptr, hptr, rfl⟩
  rcases handled_of_hands hsession hands hptr hstep with ⟨handled, hhandled, hactions⟩
  simp only [List.cons.injEq, Action.asyncWrite.injEq, true_and, and_true] at hactions
  exact ⟨handled, hhandled, hactions.symm⟩

/-! ## Logins -/

def Before (outside : Nat → Outside) (start : Process) (events : List Event)
    (p : Process → RequestHandler → Request → Response → Prop) : Prop :=
  ∃ done event process actions handler request response, done ++ [event] <+: events
    ∧ (machine outside).run start done = .ok (process, actions)
    ∧ Answers outside process event handler request response
    ∧ p process handler request response

def LoggedIn (start : Process) (events : List Event) (now : Int) : Prop :=
  Before (withCookies hmac doubles clock outside) start events fun process handler request _ =>
    let n := process.shared.world.handled
    let username := LoginRequestHandler.extractUsername request.body
    (∃ loginHandler, handler = .login loginHandler) ∧ LoginRequestHandler.IsLogin request ∧ username ≠ []
      ∧ LoginRequestHandler.comparePassword (outside n).login process.shared.world.table username
          (LoginRequestHandler.extractPassword request.body) = true
      ∧ Jwt.Unexpired (Cookie.builder (clock.issued n) (clock.created n) username) now

def HandedOut (start : Process) (events : List Event) (text : Bytes) : Prop :=
  Before (withCookies hmac doubles clock outside) start events fun _ handler _ response =>
    (∃ loginHandler, handler = .login loginHandler)
      ∧ response.headers.find? (Bytes.lit "Set-Cookie")
          = some (Bytes.lit "jwt=" ++ (text ++ jwt.dot :: jwt.encode (hmac Cookie.secret text))
            ++ Bytes.lit "; Path=/")

/-- The request comes with the HMAC of a text under the secret of the server that it has not handed out. -/
def Forged (start : Process) (events : List Event) (request : Request) : Prop :=
  ∃ text signature,
    StaticRequestHandler.jwtCookie ((request.headers.find? (Bytes.lit "Cookie")).getD [])
        = text ++ jwt.dot :: signature
      ∧ jwt.decodePart signature = some (hmac Cookie.secret text)
      ∧ ¬HandedOut hmac doubles clock outside start events text

theorem text_eq_of_append {text text' signature signature' : Bytes} (h : jwt.dot ∉ signature)
    (h' : jwt.dot ∉ signature') (heq : text ++ jwt.dot :: signature = text' ++ jwt.dot :: signature')
    : text = text' := by
  have hlast : ∀ {text signature : Bytes}, jwt.dot ∉ signature →
      (text ++ jwt.dot :: signature).reverse.dropWhile (· ≠ jwt.dot) = jwt.dot :: text.reverse := by
    intro text signature hsignature
    rw [List.reverse_append, List.reverse_cons, List.append_assoc, List.dropWhile_append_of_pos]
    . simp
    . intro c hc
      rw [List.mem_reverse] at hc
      exact decide_eq_true (fun heq => hsignature (heq ▸ hc))
  have hreverse := @hlast text signature h
  rw [heq, hlast h', List.cons.injEq] at hreverse
  exact List.reverse_injective hreverse.2.symm

theorem loggedIn_of_handedOut {start : Process} {events : List Event} {text signature : Bytes} {now : Int}
    (h : HandedOut hmac doubles clock outside start events text)
    (hverify : Cookie.verifyCookie (jwt.library hmac doubles) now (text ++ jwt.dot :: signature) = true)
    : LoggedIn hmac doubles clock outside start events now := by
  rcases h with ⟨done, event, process, actions, handler, request, response, hprefix, hrun, hanswers,
    ⟨loginHandler, rfl⟩, hcookie⟩
  rcases handleRequest_of_answers hanswers with ⟨handled, hhandled, rfl⟩
  simp only [RequestHandler.handleRequest, Outcome.ok.injEq] at hhandled
  rw [← hhandled] at hcookie
  rcases LoginEvent.setCookie_iff.mp hcookie with ⟨hlogin, hname, hpassword, htoken⟩
  refine ⟨done, event, process, actions, _, request, _, hprefix, hrun, hanswers, ⟨loginHandler, rfl⟩, hlogin,
    hname, hpassword, ?_⟩
  have htoken' : text ++ jwt.dot :: jwt.encode (hmac Cookie.secret text)
      = jwt.builder.text doubles (Cookie.builder (clock.issued process.shared.world.handled)
            (clock.created process.shared.world.handled) (LoginRequestHandler.extractUsername request.body))
          ++ jwt.dot :: jwt.encode _ :=
    List.append_cancel_left (List.append_cancel_right htoken)
  rw [text_eq_of_append (fun h => (jwt.mem_encode h).1 rfl) (fun h => (jwt.mem_encode h).1 rfl) htoken',
    Cookie.verifyCookie_library] at hverify
  exact ((jwt.accepts_text_iff hmac doubles ⟨Cookie.secret⟩ (Cookie.plain_builder _ _ _) (clock.ticks _).1
    (clock.ticks _).2 signature now).mp hverify).2

def SentBack (start : Process) (events : List Event) (request : Request) (now : Int) : Prop :=
  Before (withCookies hmac doubles clock outside) start events fun process handler login response =>
    let n := process.shared.world.handled
    (∃ loginHandler, handler = .login loginHandler) ∧ ∃ (setCookie : Bytes) (before after : List CookiePair),
      response.headers.find? (Bytes.lit "Set-Cookie") = some setCookie
        ∧ (∀ pair ∈ before, pair.name ≠ Bytes.lit "jwt")
        ∧ request.headers.find? (Bytes.lit "Cookie")
            = some (CookiePair.header (before.map CookiePair.text
                ++ LoginRequestHandler.sentBack setCookie :: after.map CookiePair.text))
        ∧ Jwt.Unexpired (Cookie.builder (clock.issued n) (clock.created n)
            (LoginRequestHandler.extractUsername login.body)) now

theorem checkCookie_of_sentBack {start : Process} {events : List Event} {request : Request} {now : Int}
    (h : SentBack hmac doubles clock outside start events request now)
    : StaticRequestHandler.checkCookie (Cookie.verifyCookie (jwt.library hmac doubles) now)
        ((request.headers.find? (Bytes.lit "Cookie")).getD []) = true := by
  rcases h with ⟨done, event, process, actions, handler, login, response, -, -, hanswers,
    ⟨loginHandler, rfl⟩, setCookie, before, after, hset, hbefore, hcookie, hnow⟩
  rcases handleRequest_of_answers hanswers with ⟨handled, hhandled, rfl⟩
  simp only [RequestHandler.handleRequest, Outcome.ok.injEq] at hhandled
  rw [← hhandled] at hset
  have haccepts := LoginRequestHandler.acceptsLogin (jwt.library_honours hmac doubles ⟨Cookie.secret⟩
    (Cookie.plain_builder (clock.issued process.shared.world.handled)
      (clock.created process.shared.world.handled) (LoginRequestHandler.extractUsername login.body))
    (clock.ticks _).1 (clock.ticks _).2) hnow
  rw [hcookie, Option.getD_some]
  exact (haccepts loginHandler (outside process.shared.world.handled).login process.shared.world.table login
    setCookie before after rfl hset hbefore).2

theorem loggedIn_or_forged {start : Process} {events : List Event} {request : Request} {now : Int}
    (h : StaticRequestHandler.checkCookie (Cookie.verifyCookie (jwt.library hmac doubles) now)
      ((request.headers.find? (Bytes.lit "Cookie")).getD []) = true)
    : LoggedIn hmac doubles clock outside start events now
        ∨ Forged hmac doubles clock outside start events request := by
  have haccepts := h
  rw [StaticRequestHandler.checkCookie, Cookie.verifyCookie_library] at haccepts
  rcases jwt.exists_text_of_accepts hmac doubles haccepts with ⟨text, signature, hcookie, hsignature⟩
  by_cases hout : HandedOut hmac doubles clock outside start events text
  . rw [StaticRequestHandler.checkCookie, hcookie] at h
    exact .inl (loggedIn_of_handedOut hmac doubles clock outside hout h)
  . exact .inr ⟨text, signature, hcookie, hsignature, hout⟩

/-- Whatever the process answers has this property, given what has happened before. -/
def Always (outside : Nat → Outside) (start : Process)
    (p : List Event → Process → RequestHandler → Request → Response → Prop) : Prop :=
  ∀ done event process actions handler request response,
    (machine outside).run start done = .ok (process, actions) →
    Answers outside process event handler request response → p done process handler request response

/--
In every run a handler with an auth path redirects whoever comes without the cookie of a user who has logged in
with the right password, unless the cookie is forged. To whoever sends the cookie of a login back in time it
answers what it would answer without an auth path.
-/
theorem protected_answers (start : Process)
    : Always (withCookies hmac doubles clock outside) start fun done process handler request response =>
        let n := process.shared.world.handled
        ∀ protector : StaticRequestHandler, handler = .static protector → protector.authPath ≠ [] →
          (response = protector.prepareRedirect
            ∨ LoggedIn hmac doubles clock outside start done (clock.verified n)
            ∨ Forged hmac doubles clock outside start done request)
          ∧ (SentBack hmac doubles clock outside start done request (clock.verified n) →
              ∀ verifyCookie, response
                = ({ protector with authPath := [] }.handleRequest (outside n).login.files verifyCookie
                    request).1) := by
  rintro done event process actions handler request response - hanswers n protector rfl hauth
  rcases handleRequest_of_answers hanswers with ⟨handled, hhandled, rfl⟩
  simp only [RequestHandler.handleRequest, Outcome.ok.injEq] at hhandled
  rw [← hhandled]
  constructor
  . by_cases hcheck : StaticRequestHandler.CookiesRejected
      (withCookies hmac doubles clock outside n).verifyCookie request
    . exact .inl (congrArg Prod.fst (StaticRequestHandler.handleRequest_rejected hauth hcheck _))
    . rw [StaticRequestHandler.CookiesRejected, Bool.not_eq_false] at hcheck
      exact .inr (loggedIn_or_forged hmac doubles clock outside hcheck)
  . intro hsent verifyCookie
    have hchecked : StaticRequestHandler.checkCookie
        (withCookies hmac doubles clock outside n).verifyCookie
        ((request.headers.find? (Bytes.lit "Cookie")).getD []) = true :=
      checkCookie_of_sentBack hmac doubles clock outside hsent
    exact congrArg Prod.fst (StaticRequestHandler.handleRequest_accepted hchecked _ verifyCookie)

def httpsOr : Option AnySession → Connection RequestHandlerGenerator
  | some (.https conn) => conn
  | _ => Session.start .zeroed .zeroed [] {}

def isHttps : Option AnySession → Bool
  | some (.https _) => true
  | _ => false

theorem eq_https {session : Option AnySession} (h : isHttps session = true)
    : session = some (.https (httpsOr session)) := by
  rcases session with _ | ⟨conn | conn⟩
  . cases h
  . rfl
  . cases h

def clockForTest : Clock where
  verified := fun _ => 1600003600000000000
  issued := fun _ => 1600000000000000000
  created := fun _ => 1600000000000000000
  ticks := fun _ => ⟨by decide +kernel, by decide +kernel⟩

def everyFile (_ : Nat) : Outside :=
  { deserted with login := { LoginEnv.forTest with files := fun _ => some [] } }

def loginAndPrivate : RequestHandlerGenerator where
  map := OrdMap.ofList [
    (Bytes.lit "/login/", some ⟨0, .login ⟨Bytes.lit "./data/login/", Bytes.lit "/login/"⟩⟩),
    (Bytes.lit "/private/", some ⟨1, .static StaticRequestHandler.privateHandler⟩)]

def loginForTest : Completion where
  read := ⟨Bytes.lit "POST /login/ HTTP/1.1\r\nContent-Length: 24\r\n\r\nusername=foxy&password=a", by decide⟩

def pageForTest (headers : Bytes) : Completion where
  read := ⟨(Bytes.lit "GET /private/a.html HTTP/1.1\r\n" ++ headers ++ Bytes.lit "\r\n").take 1024,
    List.length_take_le _ _⟩

def cookieForTest : Bytes :=
  Bytes.lit "Cookie: jwt=" ++ StaticRequestHandler.tokenForTest ++ Bytes.lit "\r\n"

def foxyLogsIn : List Event :=
  [.acceptHttps .zeroed .zeroed [] loginAndPrivate, .complete 0 {}, .complete 0 loginForTest, .complete 0 {}]

def runForTest (events : List Event) : Outcome (Process × List Action) :=
  (machine (withCookies Cookie.hmacForTest Cookie.doublesForTest clockForTest everyFile)).run
    (started .empty { table := OrdMap.empty.insert (Bytes.lit "foxy") (Bytes.lit "$2b$12$a") }) events

def codesForTest (headers : Bytes) : List Bytes :=
  match runForTest (foxyLogsIn ++ [.complete 0 (pageForTest headers)]) with
  | .ok (_, actions) => (writes actions).map Prod.snd
  | _ => []

example : codesForTest [] = [Bytes.lit "200", Bytes.lit "302"] := by decide +kernel
example : codesForTest cookieForTest = [Bytes.lit "200", Bytes.lit "200"] := by decide +kernel

def afterForTest (events : List Event) : Process :=
  match runForTest events with
  | .ok (process, _) => process
  | _ => started .empty { table := .empty }

theorem runForTest_eq {events : List Event} (h : (runForTest events).Returns)
    : ∃ actions, runForTest events = .ok (afterForTest events, actions) := by
  rcases h with ⟨⟨process, actions⟩, hrun⟩
  exact ⟨actions, by rw [afterForTest, hrun]⟩

theorem answers_read {outside : Nat → Outside} {process : Process} {index : Nat} {completion : Completion}
    {handler : RequestHandler} {p : Request → Prop} (hsession : isHttps process.sessions[index]? = true)
    (hpending : (httpsOr process.sessions[index]?).pending = [.read]) (hconnected : completion.connected = true)
    (herror : completion.error = false)
    (hparse : ((httpsOr process.sessions[index]?).requestParser.parseData {}
        { httpsOr process.sessions[index]? with
          pending := [], data := (httpsOr process.sessions[index]?).data.fill completion.read }.dataMemory
        completion.read.bytes.length).Yields (fun out => out.1 = .good ∧ p out.2.2
          ∧ ((httpsOr process.sessions[index]?).own.dispatchHandler out.2.2.uri).1.map HandlerPtr.object
            = some handler))
    (hstep : (step outside process (.complete index completion)).Returns)
    : ∃ request response, p request
        ∧ Answers outside process (.complete index completion) handler request response := by
  rcases hparse with ⟨⟨result, parser, request⟩, hparse, hgood, hp, hdispatch⟩
  dsimp only at hgood hp hdispatch
  subst hgood
  rcases Option.map_eq_some_iff.mp hdispatch with ⟨ptr, hptr, rfl⟩
  rcases hstep with ⟨⟨process', actions⟩, hstep⟩
  rcases answers_of_hands (eq_https hsession) (.read [] parser request hpending hconnected herror hparse) hptr hstep
    with ⟨response, hanswers⟩
  exact ⟨request, response, hp, hanswers⟩

theorem protected_answers_foxy
    : ∃ request response, Answers (withCookies Cookie.hmacForTest Cookie.doublesForTest clockForTest everyFile)
          (afterForTest foxyLogsIn) (.complete 0 (pageForTest cookieForTest))
          (.static StaticRequestHandler.privateHandler) request response
        ∧ ∀ verifyCookie, response = ({ StaticRequestHandler.privateHandler with authPath := [] }.handleRequest
            (fun _ => some []) verifyCookie request).1 := by
  have hlogin : ∃ login reply, (LoginRequestHandler.IsLogin login
        ∧ login.body = Bytes.lit "username=foxy&password=a")
      ∧ Answers (withCookies Cookie.hmacForTest Cookie.doublesForTest clockForTest everyFile)
          (afterForTest (foxyLogsIn.take 2)) (.complete 0 loginForTest)
          (.login ⟨Bytes.lit "./data/login/", Bytes.lit "/login/"⟩) login reply :=
    answers_read (by decide +kernel) (by decide +kernel) rfl rfl (by decide +kernel) (by decide +kernel)
  have hpage : ∃ request response,
      request.headers.find? (Bytes.lit "Cookie") = some (Bytes.lit "jwt=" ++ StaticRequestHandler.tokenForTest)
      ∧ Answers (withCookies Cookie.hmacForTest Cookie.doublesForTest clockForTest everyFile)
          (afterForTest foxyLogsIn) (.complete 0 (pageForTest cookieForTest))
          (.static StaticRequestHandler.privateHandler) request response :=
    answers_read (by decide +kernel) (by decide +kernel) rfl rfl (by decide +kernel) (by decide +kernel)
  rcases hlogin with ⟨login, reply, ⟨hkind, hbody⟩, hlogin⟩
  rcases hpage with ⟨request, response, hcookie, hpage⟩
  rcases @runForTest_eq (foxyLogsIn.take 2) (by decide +kernel) with ⟨before, hbefore⟩
  rcases @runForTest_eq foxyLogsIn (by decide +kernel) with ⟨actions, hrun⟩
  have hprotected := (protected_answers Cookie.hmacForTest Cookie.doublesForTest clockForTest everyFile
    (started .empty { table := OrdMap.empty.insert (Bytes.lit "foxy") (Bytes.lit "$2b$12$a") }) foxyLogsIn _ _ _ _
    request response hrun hpage _ rfl (by decide)).2
  refine ⟨request, response, hpage, hprotected ?_⟩
  have hname : LoginRequestHandler.extractUsername login.body = Bytes.lit "foxy" := by
    rw [hbody]
    decide +kernel
  rcases handleRequest_of_answers hlogin with ⟨handled, hhandled, hreply⟩
  simp only [RequestHandler.handleRequest, Outcome.ok.injEq] at hhandled
  have hset : reply.headers.find? (Bytes.lit "Set-Cookie")
      = some (Bytes.lit "jwt=" ++ StaticRequestHandler.tokenForTest ++ Bytes.lit "; Path=/") := by
    rw [← hreply, ← hhandled]
    refine LoginEvent.setCookie_iff.mpr ⟨hkind, by rw [hname]; decide, ?_, ?_⟩
    . rw [hbody]
      decide +kernel
    . rw [hname]
      decide +kernel
  refine ⟨foxyLogsIn.take 2, _, _, before, _, login, reply, ⟨[.complete 0 {}], rfl⟩, hbefore, hlogin, ⟨_, rfl⟩, _, [],
    [], hset, (fun _ h => absurd h List.not_mem_nil), ?_, ?_⟩
  . rw [hcookie]
    decide +kernel
  . rw [hname]
    decide +kernel

end Process

end Foxy
