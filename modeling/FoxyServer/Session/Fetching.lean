import FoxyServer.Handlers.PercentEncoding
import FoxyServer.Handlers.Translation
import FoxyServer.Session.Reception
import FoxyServer.Session.Replies

/-!
This module contains that files arrive as they are stored: a client that asks for one file after another over a
connection, each by some percent encoding of its name, reads their contents in the order in which it has asked for
them, whatever else the server does in the meantime.
-/

namespace Foxy

/-! ## Files -/

namespace StaticRequestHandler

def indexed (handler : StaticRequestHandler) (name : Bytes) : Bytes :=
  if (handler.path ++ name).getLast? = some '/'.toUInt8 then name ++ Bytes.lit "index.html" else name

/-- Anybody may ask the handler for the name, and there is such a file below its root. -/
structure Has (handler : StaticRequestHandler) (files : FileSystem) (name content : Bytes) : Prop where
  unprotected : handler.authPath = []
  absolute : handler.path.head? = some '/'.toUInt8
  literal : ∀ c ∈ handler.path, c ≠ '%'.toUInt8 ∧ c ≠ '+'.toUInt8
  inside : (handler.path ++ name).contains (Bytes.lit "..") = false
  noNul : (handler.root ++ handler.indexed name).NoNul
  stored : files (handler.root ++ handler.indexed name) = some content

def fileResponse (handler : StaticRequestHandler) (name content : Bytes) : Response where
  code := .ok
  headers := OrdMap.empty
    |>.set (Bytes.lit "Content-Length") (Bytes.toDecimal content.length)
    |>.set (Bytes.lit "Content-Type")
      (mimeTypes.extensionToType (getExtension (handler.root ++ handler.indexed name)))
  body := content

theorem urlDecode_append {p : Bytes} (hp : ∀ c ∈ p, c ≠ '%'.toUInt8 ∧ c ≠ '+'.toUInt8) {name code : Bytes}
    (h : Encodes name code) : urlDecode (p ++ code) = some (p ++ name) := by
  induction p with
  | nil =>
    simp only [List.nil_append]
    induction h with
    | nil => rfl
    | cons hc _ ih => rw [urlDecode_encodesByte hc, ih, Option.map_some]
  | cons c p ih =>
    rw [List.forall_mem_cons] at hp
    rw [List.cons_append, urlDecode_cons hp.1.1, ih hp.2, if_neg hp.1.2, Option.map_some, List.cons_append]

theorem handleRequest_of_has {handler : StaticRequestHandler} {files : FileSystem} {name content : Bytes}
    (h : handler.Has files name content) {code : Bytes} (hcode : Encodes name code)
    (verifyCookie : Bytes → Bool) {request : Request} (huri : request.uri = handler.path ++ code)
    : (handler.handleRequest files verifyCookie request).1 = handler.fileResponse name content := by
  have hhead : (handler.path ++ name).head? = some '/'.toUInt8 := by
    rw [List.head?_append, h.absolute, Option.some_or]
  have hcheck : checkRequestPath request.uri = some (handler.path ++ handler.indexed name) := by
    simp only [checkRequestPath, huri, urlDecode_append h.literal hcode, Option.bind_eq_bind, Option.bind_some,
      hhead, h.inside]
    rw [if_neg (by simp), indexed]
    split
    . rw [List.append_assoc]
    . rfl
  have hne : handler.path ++ handler.indexed name ≠ [] := by
    intro hnil
    have habsolute := h.absolute
    rw [(List.append_eq_nil_iff.mp hnil).1] at habsolute
    cases habsolute
  have hreplace : handler.replacePath (handler.path ++ handler.indexed name)
      = some (handler.root ++ handler.indexed name) := by
    rw [replacePath, find_of_prefix (List.prefix_append _ _)]
    dsimp only
    rw [List.take_zero, List.nil_append, Nat.zero_add, List.drop_left]
  rw [handleRequest, h.unprotected]
  simp only [List.length_nil, ne_eq, not_true_eq_false, false_and, if_false, hcheck, hne, hreplace,
    Bytes.cStr_of_noNul h.noNul, h.stored]
  rfl

end StaticRequestHandler

open StaticRequestHandler

/--
A request for a file: the location of the handler and behind it one of the encodings of a name, in a text that fits
into one read, from a client that does not ask to close the connection.
-/
structure Fetch (files : FileSystem) where
  request : Request
  handler : StaticRequestHandler
  name : Bytes
  code : Bytes
  content : Bytes
  has : handler.Has files name content
  encodes : Encodes name code
  uri : request.uri = handler.path ++ code
  plain : request.Plain
  noLength : request.headers.find? (Bytes.lit "Content-Length") = none
  noBody : request.body = []
  keptOpen : ¬request.AsksToClose
  fits : (RawRequest.render request.method request.uri request.httpVersion request.headers.entries []).length
    ≤ maxLength

namespace Fetch

variable {files : FileSystem} (fetch : Fetch files)

def RoutedBy (generator : RequestHandlerGenerator) : Prop :=
  (generator.dispatchHandler fetch.request.uri).1.map HandlerPtr.object = some (.static fetch.handler)

def head : Bytes :=
  RawRequest.render fetch.request.method fetch.request.uri fetch.request.httpVersion
    fetch.request.headers.entries []

def completions : List Completion :=
  [{ read := ⟨fetch.head, fetch.fits⟩ }, {}]

def response : Response :=
  fetch.handler.fileResponse fetch.name fetch.content

theorem parse_head : ∃ parser', RequestParser.parse {} {} fetch.head = ⟨.good, [], parser', fetch.request⟩ := by
  rcases @RequestParser.parse_render fetch.request.method _ _ _ fetch.plain.uri fetch.plain.httpVersion
    fetch.plain.headers (OrdMap.nodup_keys _) [] with ⟨parser', hparse⟩
  rw [OrdMap.ofList_entries] at hparse
  refine ⟨parser', hparse.trans ?_⟩
  rw [← fetch.noBody]

def wire : WireRequest where
  head := fetch.head
  body := []
  accepted := by
    rcases fetch.parse_head with ⟨parser', hparse⟩
    rw [hparse]
    exact ⟨rfl, rfl⟩
  framed := by
    rcases fetch.parse_head with ⟨parser', hparse⟩
    rw [hparse]
    refine ⟨_, utility.getContentLength_eq_ok.mpr ⟨rfl, .inl ⟨?_, rfl⟩⟩⟩
    rw [Request.contentLengthStr, fetch.noLength]
    rfl
  keptOpen := by
    rcases fetch.parse_head with ⟨parser', hparse⟩
    rw [hparse]
    exact fetch.keptOpen

theorem uri_received : fetch.wire.received.uri = fetch.request.uri := by
  rcases fetch.parse_head with ⟨parser', hparse⟩
  rw [WireRequest.received, WireRequest.parsed, wire, hparse]
  rfl

end Fetch

/-! ## One exchange -/

namespace Connection

variable {σ ω : Type} {cls : SessionClass σ ω}

theorem Ready.parseData {conn : Connection σ} (hready : conn.Ready) {request : WireRequest}
    (hbody : request.body = []) {x : Read} (hx : x.bytes = request.head)
    : ∃ parser', conn.requestParser.parseData {} (conn.idle.fillData x).dataMemory x.bytes.length
        = .ok (.good, parser', request.received) := by
  rcases hready.fresh.parse_head request [] with ⟨parser', hparse, -⟩
  rw [List.append_nil, ← hx, List.prefix_iff_eq_take.mp (prefix_dataMemory_fillData conn.idle x)] at hparse
  have hlength := request.getContentLength_parsed
  have hdata := RequestParser.parseData_of_fits hparse hlength (by simp [hbody])
  rw [hbody, List.length_nil, Int.toNat_natCast, Nat.sub_zero, Bytes.strlen, List.drop_length] at hdata
  refine ⟨parser', hdata.trans ?_⟩
  rw [WireRequest.received, hbody]

theorem step_write {conn : Connection σ} {request : WireRequest} {actions : List Action}
    (h : Answered request conn actions) (shared : Shared ω)
    : ∃ conn', step cls (conn, shared) {} = .ok ((conn', shared), []) ∧ conn'.Ready ∧ conn'.own = conn.own := by
  have hopen : ¬conn.idle.request.AsksToClose := by
    rw [idle, h.received]
    exact request.not_asksToClose_received
  rcases afterWrite_of_not_asksToClose cls hopen with ⟨request', hwrite⟩
  refine ⟨{ conn with pending := [.read], request := request' }, ?_, ⟨rfl, h.alive, h.fresh⟩, rfl⟩
  rw [step_of_pending cls conn shared h.alive {} h.pending]
  rw [(handleWrite_eq_ok cls).mpr ⟨rfl, rfl⟩, hwrite]
  rfl

theorem run_exchange {conn : Connection σ} {shared shared' : Shared ω} (hready : conn.Ready)
    {request : WireRequest} (hbody : request.body = []) {x : Read} (hx : x.bytes = request.head)
    {response : Response} {own' : σ}
    (hhandle : cls.handleRequest conn.own shared request.received = .ok (response, own', shared'))
    : ∃ state, (machine cls).run (conn, shared) [{ read := x }, {}]
          = .ok (state, [.handleRequest request.received, .asyncWrite request.received response])
        ∧ state.1.Ready ∧ state.1.own = own' := by
  rcases hready.parseData hbody hx with ⟨parser', hdata⟩
  have hanswered : ∃ conn1 shared1, (machine cls).step (conn, shared) { read := x }
        = .ok ((conn1, shared1), [.handleRequest request.received, .asyncWrite request.received response])
      ∧ Answered request conn1 [.handleRequest request.received, .asyncWrite request.received response]
      ∧ conn1.own = own' := by
    have hread := step_read cls conn shared hready.alive x hready.pending
    rw [hdata, Outcome.ok_bind] at hread
    simp only [readOn, reduceCtorEq, if_false, finishRead, respond, fillData, idle, hhandle, Outcome.ok_bind,
      Outcome.pure_eq_ok, await] at hread
    rw [if_pos (by decide)] at hread
    exact ⟨_, _, hread, ⟨rfl, hready.alive, rfl, rfl, rfl⟩, rfl⟩
  rcases hanswered with ⟨conn1, shared1, hread, hanswered, hown⟩
  have hwritten : ∃ conn2, (machine cls).step (conn1, shared1) {} = .ok ((conn2, shared1), [])
      ∧ conn2.Ready ∧ conn2.own = conn1.own :=
    step_write hanswered shared1
  rcases hwritten with ⟨conn2, hwrite, hready2, hown2⟩
  refine ⟨(conn2, shared1), ?_, hready2, hown2.trans hown⟩
  rw [Machine.run_cons_of_step hread, Machine.run_singleton, hwrite]
  rfl

end Connection

/-! ## A session by itself -/

def onlyFiles (files : FileSystem) : Handlers Unit :=
  fun requestHandler shared request =>
    match requestHandler with
    | .static handler =>
      if handler.authPath = [] then
        .ok ((handler.handleRequest files (fun _ => false) request).1, shared)
      else
        .ok (ResponseGenerator.stockResponse .forbidden, shared)
    | _ => .ok (ResponseGenerator.stockResponse .forbidden, shared)

def UnlessForbidden (response response' : Response) : Prop :=
  response'.code = .forbidden ∨ response = response'

theorem answersAlike_onlyFiles {outside : Nat → Outside} {files : FileSystem}
    (hfiles : ∀ n, (outside n).login.files = files)
    : Connection.AnswersAlike (Session.cls (handlers outside)) (Session.cls (onlyFiles files)) UnlessForbidden
        (fun _ => True) := by
  refine Session.answersAlike (.inr rfl) (fun _ _ => trivial) ?_
  intro generator uri ptr shared request response shared1 shared' _ _ hhandle
  rcases Outcome.bind_eq_ok.mp hhandle with ⟨handled, hhandled, hhandle⟩
  cases hhandle
  have hforbidden : ∀ response, UnlessForbidden response (ResponseGenerator.stockResponse .forbidden) :=
    fun _ => .inl rfl
  cases hobject : ptr.object with
  | static handler =>
    rw [hobject] at hhandled
    by_cases hopen : handler.authPath = []
    . refine ⟨_, _, if_pos hopen, .inr ?_⟩
      cases hhandled
      simp only [StaticRequestHandler.handleRequest, hopen, hfiles]
      simp
    . exact ⟨_, _, if_neg hopen, hforbidden _⟩
  | echo => exact ⟨_, _, rfl, hforbidden _⟩
  | status => exact ⟨_, _, rfl, hforbidden _⟩
  | notFound => exact ⟨_, _, rfl, hforbidden _⟩
  | proxy handler => exact ⟨_, _, rfl, hforbidden _⟩
  | health => exact ⟨_, _, rfl, hforbidden _⟩
  | login handler => exact ⟨_, _, rfl, hforbidden _⟩

theorem written_of_unlessForbidden {actions actions' : List Action}
    (h : List.Forall₂ (Action.Alike UnlessForbidden) actions actions')
    (hgranted : ∀ response ∈ written actions', response.code ≠ .forbidden)
    : written actions = written actions' := by
  induction h with
  | nil => rfl
  | @cons action action' actions actions' h _ ih =>
    cases h with
    | handleRequest request =>
      have hrest := ih hgranted
      exact hrest
    | @asyncWrite request response response' h =>
      have hsplit : written (.asyncWrite request response' :: actions') = response' :: written actions' := rfl
      rw [hsplit, List.forall_mem_cons] at hgranted
      have hsame : response = response' := h.resolve_left hgranted.1
      rw [hsplit, ← ih hgranted.2, ← hsame]
      rfl

variable {generator : RequestHandlerGenerator} {files : FileSystem}

def Session.Serves (generator : RequestHandlerGenerator)
    (state : Connection RequestHandlerGenerator × Shared Unit) : Prop :=
  state.1.Ready ∧ state.1.own = generator

theorem Fetch.handleRequest {fetch : Fetch files} (h : fetch.RoutedBy generator) (shared : Shared Unit)
    : Session.handleRequest (onlyFiles files) generator shared fetch.wire.received
        = .ok (fetch.response, generator, shared) := by
  rcases Option.map_eq_some_iff.mp h with ⟨ptr, hptr, hobject⟩
  have hkey : (generator.chosen fetch.request.uri).getD (Bytes.lit "/") ∈ generator.map.keys :=
    OrdMap.mem_keys_iff.mpr ⟨_, RequestHandlerGenerator.find?_of_dispatchHandler hptr⟩
  have hdispatch : generator.dispatchHandler fetch.request.uri = (some ptr, generator) :=
    Prod.ext hptr (RequestHandlerGenerator.dispatchHandler_snd hkey)
  rw [Session.handleRequest, fetch.uri_received, hdispatch]
  dsimp only
  rw [hobject, onlyFiles, if_pos fetch.has.unprotected, handleRequest_of_has fetch.has fetch.encodes _
    (fetch.uri_received.trans fetch.uri)]
  rfl

theorem Fetch.run {fetch : Fetch files} (h : fetch.RoutedBy generator)
    {state : Connection RequestHandlerGenerator × Shared Unit} (hserves : Session.Serves generator state)
    : ∃ state' actions, (Session.machine (onlyFiles files)).run state fetch.completions = .ok (state', actions)
        ∧ actions.filterMap Action.response? = [fetch.response] ∧ Session.Serves generator state' := by
  rcases state with ⟨conn, shared⟩
  rcases hserves with ⟨hready, hown⟩
  have hhandle : (Session.cls (onlyFiles files)).handleRequest conn.own shared fetch.wire.received
      = .ok (fetch.response, generator, shared) := by
    rw [show conn.own = generator from hown]
    exact Fetch.handleRequest h shared
  rcases @Connection.run_exchange _ _ _ _ _ _ hready fetch.wire rfl ⟨fetch.head, fetch.fits⟩ rfl _ _ hhandle
    with ⟨state', hrun, hready', hown'⟩
  exact ⟨state', _, hrun, rfl, hready', hown'⟩

theorem run_fetches {fetches : List (Fetch files)} (h : ∀ fetch ∈ fetches, fetch.RoutedBy generator)
    {state : Connection RequestHandlerGenerator × Shared Unit} (hserves : Session.Serves generator state)
    : ∃ state' actions, (Session.machine (onlyFiles files)).run state (fetches.flatMap Fetch.completions)
          = .ok (state', actions)
        ∧ written actions = fetches.map Fetch.response := by
  have hjob : ∀ (state : Connection RequestHandlerGenerator × Shared Unit) (fetch : Fetch files),
      Session.Serves generator state → fetch.RoutedBy generator → ∃ state' actions,
        (Session.machine (onlyFiles files)).run state fetch.completions = .ok (state', actions)
          ∧ actions.filterMap Action.response? = [fetch.response] ∧ Session.Serves generator state' :=
    fun _ _ hserves hrouted => Fetch.run hrouted hserves
  rcases Machine.run_jobs hjob hserves (Machine.meets_of_forall (fun fetch hmem _ => h fetch hmem) _)
    with ⟨state', actions, hrun, hwritten, -⟩
  exact ⟨state', actions, hrun, hwritten.trans (List.map_eq_flatMap ..).symm⟩

namespace Process

theorem written_of_fetches {outside : Nat → Outside} (hfiles : ∀ n, (outside n).login.files = files) {index : Nat}
    {process process' : Process} {conn : Connection RequestHandlerGenerator}
    (hsession : process.sessions[index]? = some (.https conn)) (hready : conn.Ready)
    (hown : conn.own = generator) {fetches : List (Fetch files)}
    (hrouted : ∀ fetch ∈ fetches, fetch.RoutedBy generator) {events : List Event} {shown : List Action}
    (hevents : events.filterMap (Event.completion? index) = fetches.flatMap Fetch.completions)
    (hrun : (shownTo outside index).run process events = .ok (process', shown))
    : written shown = fetches.map Fetch.response := by
  rcases (hasPart_https (answersAlike_onlyFiles hfiles)).run (t := (conn, { world := () }))
    ⟨conn, hsession, .of rfl (.inr rfl) trivial⟩ hrun with ⟨alone, actions, halone, hactions, -⟩
  rcases run_fetches hrouted (⟨hready, hown⟩ : Session.Serves generator (conn, { world := () }))
    with ⟨state', actions', hfetches, hwritten⟩
  rw [hevents, hfetches, Outcome.ok.injEq, Prod.mk.injEq] at halone
  rw [← hwritten, halone.2]
  apply written_of_unlessForbidden hactions
  intro response hresponse
  rw [← halone.2, hwritten] at hresponse
  rcases List.mem_map.mp hresponse with ⟨fetch, -, rfl⟩
  exact (by decide : Response.StatusCode.ok ≠ .forbidden)

theorem receive_fetches {fetches : List (Fetch files)} {shown : List Action}
    (hwritten : written shown = fetches.map Fetch.response) {pieces : List Bytes}
    (hpieces : pieces.flatten = sent shown)
    : Reply.framing.receiver.run [] pieces
        = .ok ([], fetches.map fun fetch => Reply.ofResponse fetch.response) := by
  have hframes := @frames_written shown fun response hresponse => by
    rw [hwritten] at hresponse
    rcases List.mem_map.mp hresponse with ⟨fetch, -, rfl⟩
    exact .page .ok _ (mimeTypes.oneLine_extensionToType _)
  have hsent : sent shown = ((written shown).map ResponseGenerator.serialise).flatten :=
    List.flatMap_def
  rw [Framing.receive_all hframes (hpieces.trans hsent), hwritten, List.map_map]
  rfl

/--
Whatever the other sessions do and whatever is outside, a client that asks for files over a connection, each when
it has got the response before, reads their contents, one after another and nothing else, in whatever pieces the
bytes arrive.
-/
theorem files_fetched (outside : Nat → Outside) (generator : RequestHandlerGenerator) (files : FileSystem)
    (hfiles : ∀ n, (outside n).login.files = files) (index : Nat) (process process' : Process)
    (conn : Connection RequestHandlerGenerator) (hsession : process.sessions[index]? = some (.https conn))
    (hready : conn.Ready) (hown : conn.own = generator) (fetches : List (Fetch files))
    (hrouted : ∀ fetch ∈ fetches, fetch.RoutedBy generator) (events : List Event) (shown : List Action)
    (hevents : events.filterMap (Event.completion? index) = fetches.flatMap Fetch.completions)
    (hrun : (shownTo outside index).run process events = .ok (process', shown)) (pieces : List Bytes)
    (hpieces : pieces.flatten = sent shown)
    : Reply.framing.receiver.run [] pieces
        = .ok ([], fetches.map fun fetch => Reply.ofResponse fetch.response) :=
  receive_fetches (written_of_fetches hfiles hsession hready hown hrouted hevents hrun) hpieces

def filesForTest : FileSystem :=
  fun path => if path = Bytes.lit "./data/a b" then some (Bytes.lit "fox") else none

def staticForTest : StaticRequestHandler :=
  { root := Bytes.lit "./data/", path := Bytes.lit "/static/" }

def generatorForTest : RequestHandlerGenerator where
  map := OrdMap.empty.set (Bytes.lit "/static/") (some ⟨0, .static staticForTest⟩)

def fetchForTest : Fetch filesForTest where
  request := { method := .get, uri := Bytes.lit "/static/a%20b", httpVersion := Bytes.lit "1.1" }
  handler := staticForTest
  name := Bytes.lit "a b"
  code := Bytes.lit "a%20b"
  content := Bytes.lit "fox"
  has := ⟨rfl, rfl, by decide +kernel, by decide +kernel, by decide +kernel, by decide +kernel⟩
  encodes := by
    refine @Encodes.cons _ _ (Bytes.lit "a") _ (.literal (by decide) (by decide)) ?_
    refine @Encodes.cons _ _ (Bytes.lit "%20") _ (.escape rfl rfl rfl) ?_
    exact @Encodes.cons _ _ (Bytes.lit "b") _ (.literal (by decide) (by decide)) .nil
  uri := by decide +kernel
  plain := ⟨by decide +kernel, RequestParser.isVersion_one (by decide), by decide +kernel⟩
  noLength := rfl
  noBody := rfl
  keptOpen := by decide +kernel
  fits := by decide +kernel

def eventsForTest : List Event :=
  fetchForTest.completions.map (.complete 0) ++ .acceptHttp .zeroed .zeroed [] []
    :: fetchForTest.completions.map (.complete 0)

theorem files_fetched_twice
    : ∃ process' shown, (shownTo (filesOnly filesForTest) 0).run
            ⟨[.https (Session.opened .zeroed .zeroed [] generatorForTest)], { world := { table := .empty } }⟩
            eventsForTest = .ok (process', shown)
        ∧ Reply.framing.receiver.run [] [(sent shown).take 30, (sent shown).drop 30]
            = .ok ([], [Reply.ofResponse fetchForTest.response, Reply.ofResponse fetchForTest.response]) := by
  have hrun : ((shownTo (filesOnly filesForTest) 0).run
      ⟨[.https (Session.opened .zeroed .zeroed [] generatorForTest)], { world := { table := .empty } }⟩
      eventsForTest).Returns := by
    decide +kernel
  rcases hrun with ⟨⟨process', shown⟩, hrun⟩
  have hpieces : [(sent shown).take 30, (sent shown).drop 30].flatten = sent shown := by
    simp [List.take_append_drop]
  have hready : (Session.opened .zeroed .zeroed [] generatorForTest).Ready := ⟨rfl, rfl, rfl⟩
  have hrouted : ∀ fetch ∈ [fetchForTest, fetchForTest], fetch.RoutedBy generatorForTest := by
    have hone : fetchForTest.RoutedBy generatorForTest := by
      unfold Fetch.RoutedBy
      decide +kernel
    simpa using hone
  exact ⟨process', shown, hrun, files_fetched _ generatorForTest filesForTest (fun _ => rfl) 0 _ process' _ rfl
    hready rfl [fetchForTest, fetchForTest] hrouted _ shown rfl hrun _ hpieces⟩

end Process

end Foxy
