import FoxyServer.Handlers.RedirectTargets
import FoxyServer.Handlers.Targets
import FoxyServer.Session.Closing
import FoxyServer.Session.Replies

/-!
This module contains what comes of a proxy location that leads to the plain port of a server of this kind. The
handler and the session at the other end go on sending each other the same request and the same redirect, until
the handler gives up or finds that the redirect is meant for the client.
-/

namespace Foxy

/-! ## A request that is the last one of its connection -/

namespace RequestParser

variable {method : Request.MethodEnum} {uri version : Bytes} {headers : List (Bytes × Bytes)} {body : Bytes}

theorem parseData_render (huri : ∀ b ∈ uri, Grammar.UriChar b) (hversion : IsVersion version)
    (hheaders : ∀ header ∈ headers, PlainHeader header) (hnodup : (headers.map Prod.fst).Nodup)
    (hbody : body.NoNul) {request : Request}
    (hrequest : request = { method, uri, httpVersion := version, headers := OrdMap.ofList headers })
    (hlength : ∃ request', utility.getContentLength request = .ok (body.length, request'))
    (hfits : (RawRequest.render method uri version headers body).length ≤ maxLength) {mem : Bytes}
    (hmem : RawRequest.render method uri version headers body <+: mem)
    : ∃ parser' found, parseData {} {} mem (RawRequest.render method uri version headers body).length
        = .ok (.good, parser', request.leftByParseData found) := by
  rcases hlength with ⟨request', hlength⟩
  rw [(utility.getContentLength_eq_ok.mp hlength).1] at hlength
  rcases @parse_render method uri version headers huri hversion hheaders hnodup body with ⟨parser', hparse⟩
  rw [← hrequest] at hparse
  have hcount : parser'.nCharParsed
      = countOn 0 ((RawRequest.render method uri version headers body).length - body.length) := by
    have hcount := parse_nCharParsed {} {} (RawRequest.render method uri version headers body)
    rw [hparse] at hcount
    exact hcount
  rw [List.prefix_iff_eq_take.mp hmem] at hparse
  refine ⟨parser', _, parseData_of_fits hparse hlength ?_⟩
  by_cases hempty : body = []
  . exact .inl (by rw [hempty]; rfl)
  -- there is no end of a string in the text, so the string goes on at least to its end
  have hnul : (RawRequest.render method uri version headers body).NoNul := by
    have hhead : (RawRequest.render method uri version headers []).NoNul := by
      rcases @parse_render method uri version headers huri hversion hheaders hnodup [] with ⟨parser0, hparse0⟩
      refine parse_noNul ?_ (congrArg Parsed.rest hparse0)
      rw [hparse0]
      exact (by decide : ResultType.good ≠ .bad)
    have hsplit : RawRequest.render method uri version headers body
        = RawRequest.render method uri version headers [] ++ body := by
      simp only [RawRequest.render, List.append_nil]
    rw [hsplit, Bytes.noNul_append]
    exact ⟨hhead, hbody⟩
  have hstrlen : (RawRequest.render method uri version headers body).length ≤ Bytes.strlen mem := by
    rcases hmem with ⟨more, rfl⟩
    rw [Bytes.strlen, Bytes.cStr_append_of_noNul hnul, List.length_append]
    omega
  have hlonger : body.length ≤ (RawRequest.render method uri version headers body).length := by
    simp only [RawRequest.render, List.length_append]
    omega
  have hpos := List.length_pos_iff.mpr hempty
  have hmax : maxLength = 1024 := rfl
  rw [countOn_eq (by omega)] at hcount
  omega

end RequestParser

namespace Connection

variable {σ ω : Type} {cls : SessionClass σ ω}

theorem run_last {conn : Connection σ} {shared shared' : Shared ω} (hpending : conn.pending = [.read])
    (halive : conn.destroyed = false) {x : Read} {parser' : RequestParser} {request : Request}
    (hdata : conn.requestParser.parseData {} (conn.idle.fillData x).dataMemory x.bytes.length
      = .ok (.good, parser', request))
    (hclose : request.AsksToClose) {response : Response} {own' : σ}
    (hhandle : cls.handleRequest conn.own shared request = .ok (response, own', shared'))
    : ∃ conn' shared', (machine cls).run (conn, shared) [{ read := x }, {}]
        = .ok ((cls.close conn', shared'), [.handleRequest request, .asyncWrite request response]) := by
  have hread := step_read cls conn shared halive x hpending
  rw [hdata, Outcome.ok_bind] at hread
  simp only [readOn, reduceCtorEq, if_false, finishRead, respond, fillData, idle, hhandle, Outcome.ok_bind,
    Outcome.pure_eq_ok, await] at hread
  rw [if_pos (by decide)] at hread
  have hanswered : ∃ conn1 shared1, (machine cls).step (conn, shared) { read := x }
        = .ok ((conn1, shared1), [.handleRequest request, .asyncWrite request response])
      ∧ conn1.pending = [.write] ∧ conn1.destroyed = false ∧ conn1.request = request :=
    ⟨_, _, hread, rfl, halive, rfl⟩
  rcases hanswered with ⟨conn1, shared1, hread, hpending1, halive1, hrequest⟩
  have hclose1 : conn1.idle.request.AsksToClose := by
    rw [idle, hrequest]
    exact hclose
  rcases afterWrite_of_asksToClose cls hclose1 with ⟨request', hwrite⟩
  have hwritten : (machine cls).step (conn1, shared1) {}
      = .ok ((cls.close { conn1.idle with request := request' }, shared1), []) := by
    have hstep := step_of_pending cls conn1 shared1 halive1 {} hpending1
    rw [(handleWrite_eq_ok cls).mpr ⟨rfl, rfl⟩, hwrite] at hstep
    exact hstep
  refine ⟨{ conn1.idle with request := request' }, shared1, ?_⟩
  rw [Machine.run_cons_of_step hread, Machine.run_singleton, hwritten]
  rfl

end Connection

/-! ## The plain port -/

namespace HttpSession

theorem handleRequest_of_slash {request : Request} (h : request.uri.head? = some '/'.toUInt8) (hostname : Bytes)
    : handleRequest hostname request
        =
      { code := .movedTemporarily
        headers := (((OrdMap.empty.set (Bytes.lit "Content-Length") (Bytes.toDecimal 0)).set
          (Bytes.lit "Content-Type") (Bytes.lit "text/plain")).set (Bytes.lit "Connection")
            (Bytes.lit "close")).set (Bytes.lit "Location") (Bytes.lit "https://" ++ hostname ++ request.uri)
        body := [] } := by
  rw [handleRequest, if_neg (not_not.mpr h)]
  rfl

/--
What comes of sending a text to the plain port, if it arrives in one read: whoever has sent it gets what the
session writes, in some pieces, and then the end of the connection.
-/
inductive Exchanges (hostname text : Bytes) : Exchange → Prop where
  | closed (data buffer : Buffer) (beyond : Bytes) (shared : Shared World) {x : Read} (hx : x.bytes = text)
    {state : Connection Bytes × Shared World} {actions : List Action}
    (hrun : machine.run (start data buffer beyond hostname, shared) [{ read := x }, {}] = .ok (state, actions))
    (hclosed : state.1.destroyed = true) {source : Source} (hsource : source.chunks.flatten = sent actions)
    : Exchanges hostname text (.answered source)

theorem Exchanges.of_closing {hostname text : Bytes} {exchange : Exchange} (h : Exchanges hostname text exchange)
    {request : Request} (hclose : request.AsksToClose)
    (hparse : ∀ mem, text <+: mem → text.length ≤ maxLength → ∃ parser' found,
      RequestParser.parseData {} {} mem text.length = .ok (.good, parser', request.leftByParseData found))
    : ∃ source, exchange = .answered source
        ∧ source.chunks.flatten = ResponseGenerator.serialise (handleRequest hostname request) := by
  cases h with
  | @closed data buffer beyond shared x hx state actions hrun hclosed source hsource =>
    refine ⟨source, rfl, ?_⟩
    have hprefix : x.bytes <+: ((start data buffer beyond hostname).idle.fillData x).dataMemory :=
      Connection.prefix_dataMemory_fillData _ x
    subst hx
    rcases hparse _ hprefix x.fits with ⟨parser', found, hdata⟩
    have hasks := (Request.asksToClose_leftByParseData request found).mpr hclose
    rcases @Connection.run_last _ _ cls (start data buffer beyond hostname) shared shared rfl rfl x parser' _
      hdata hasks _ _ rfl with ⟨conn', shared', hlast⟩
    rw [machine, hlast, Outcome.ok.injEq, Prod.mk.injEq] at hrun
    rw [hsource, ← hrun.2]
    exact List.append_nil _

end HttpSession

/-! ## The proxy in front of it -/

namespace ProxyRequestHandler

theorem asksToClose_forwarded (request : Request) (uri : Bytes)
    : ({ request with
        uri
        httpVersion := Bytes.lit "1.0"
        headers := OrdMap.ofList (forwardedHeaders request)
        body := [] } : Request).AsksToClose := by
  refine ⟨Bytes.lit "Connection", List.mem_cons_self, ?_⟩
  rw [ofList_forwardedHeaders, OrdMap.find?_set, if_pos rfl]

theorem contentLengthStr_forwarded (request : Request) (uri : Bytes)
    : ({ request with
        uri
        httpVersion := Bytes.lit "1.0"
        headers := OrdMap.ofList (forwardedHeaders request)
        body := [] } : Request).contentLengthStr = request.contentLengthStr := by
  simp only [Request.contentLengthStr]
  rw [ofList_forwardedHeaders, OrdMap.find?_set, if_neg (by decide), OrdMap.find?_filter]
  cases request.headers.find? (Bytes.lit "Content-Length") with
  | none => rfl
  | some value =>
    by_cases hvalue : value = []
    . rw [hvalue]
      rfl
    . rw [Option.filter_some_pos]
      simp [survives, hvalue]
      decide

theorem uriChar_forwardedUri {handler : ProxyRequestHandler} {uri : Bytes} (h : ∀ b ∈ uri, Grammar.UriChar b)
    : ∀ b ∈ handler.forwardedUri uri, Grammar.UriChar b := by
  have hcut : ∀ b ∈ uri.drop (handler.path.length - 1), Grammar.UriChar b :=
    fun b hb => h b (List.mem_of_mem_drop hb)
  rw [forwardedUri]
  split
  . rw [List.forall_mem_append]
    exact ⟨by decide +kernel, hcut⟩
  . exact hcut

/-! ### Passes that come back to where they have been -/

structure TakenOver (redirect : Response) (place : Bytes) : Prop where
  code : redirect.code = .movedTemporarily
  body : redirect.body = []
  location : redirect.headers.find? (Bytes.lit "Location") = some place
  contentType : ∃ contentType, redirect.headers.find? (Bytes.lit "Content-Type") = some contentType
    ∧ isHtml contentType = false
  contentLength : redirect.headers.find? (Bytes.lit "Content-Length") = some (Bytes.toDecimal 0)

def Unchanged (redirect response : Response) : Prop :=
  response.body = [] ∧ (response.headers = .empty ∨ response.headers = redirect.headers)

variable {handler : ProxyRequestHandler} {clientRequest : Request} {redirect response : Response} {place : Bytes}

theorem TakenOver.headed (h : TakenOver redirect place) (hresponse : Unchanged redirect response)
    : headed response 302 redirect.headers = redirect := by
  have hheaders : response.headers.overlay redirect.headers = redirect.headers := by
    rcases hresponse.2 with hempty | hsame
    . rw [hempty, OrdMap.empty_overlay]
    . rw [hsame, OrdMap.overlay_self]
  rw [ProxyRequestHandler.headed, overlaid, hheaders]
  rcases redirect with ⟨code, headers, body⟩
  have hcode : code = .movedTemporarily := h.code
  have hbody : body = [] := h.body
  rw [hcode, hbody, hresponse.1]
  rfl

theorem TakenOver.insert_location (h : TakenOver redirect place)
    : redirect.headers.insert (Bytes.lit "Location") [] = redirect.headers :=
  OrdMap.insert_eq_self (OrdMap.mem_keys_iff.mpr ⟨_, h.location⟩) []

theorem TakenOver.passed (h : TakenOver redirect place) (hresponse : Unchanged redirect response)
    : passed response (.complete 302 redirect.headers []) = redirect := by
  simp only [ProxyRequestHandler.passed, h.headed hresponse, h.insert_location]

theorem TakenOver.settled (h : TakenOver redirect place) (hresponse : Unchanged redirect response)
    : handler.settled response (.complete 302 redirect.headers []) = .ok redirect := by
  rcases h.contentType with ⟨contentType, htype, hhtml⟩
  have hindex : redirect.headers.index (Bytes.lit "Content-Type") = (contentType, redirect.headers) := by
    rw [OrdMap.index, htype, OrdMap.insert_eq_self (OrdMap.mem_keys_iff.mpr ⟨_, htype⟩)]
    rfl
  have hredirect : Reading.isRedirect 302 := .inr rfl
  have hsame : ({ redirect with headers := redirect.headers, body := [] } : Response) = redirect := by
    rw [← h.body]
  rw [ProxyRequestHandler.settled, if_pos hredirect, h.headed hresponse, h.insert_location, delivered]
  simp only [hindex, hhtml, Bool.false_eq_true, if_false, Outcome.ok_bind, List.length_nil,
    OrdMap.set_eq_self h.contentLength, Outcome.pure_eq_ok, hsame]

theorem TakenOver.follows_iff (h : TakenOver redirect place) (hresponse : Unchanged redirect response)
    : Follows clientRequest response (.complete 302 redirect.headers [])
        ↔ place.contains (serverAddr clientRequest) := by
  have hlocation : ProxyRequestHandler.location redirect = place := by
    rw [ProxyRequestHandler.location, h.location, Option.getD_some]
  rw [Follows, h.headed hresponse, hlocation]
  exact and_iff_right (.inr rfl)

theorem TakenOver.unchanged (h : TakenOver redirect place) : Unchanged redirect redirect :=
  ⟨h.body, .inr rfl⟩

section

variable {upstream : Upstream} {rawReq : Bytes} (h : TakenOver redirect place)
  (hreading : ∀ n, (upstream handler.root handler.port n rawReq).reading
    = .ok (.complete 302 redirect.headers []))
  (hagain : RawRequest.render clientRequest.method (fromSlash (trimmed (behindScheme place))) (Bytes.lit "1.0")
    (forwardedHeaders clientRequest) clientRequest.body = rawReq)

include h hreading hagain

theorem followFrom_succ_takenOver (hresponse : Unchanged redirect response) (loopCount passes : Nat)
    : handler.followFrom upstream clientRequest loopCount rawReq response (passes + 1)
        =
      if place.contains (serverAddr clientRequest) then
        handler.followFrom upstream clientRequest (loopCount + 1) rawReq redirect passes >>= fun out =>
          .ok (out.1, upstream handler.root handler.port loopCount rawReq :: out.2)
      else
        .ok (redirect, [upstream handler.root handler.port loopCount rawReq]) := by
  rw [followFrom]
  have hfollows := @TakenOver.follows_iff clientRequest _ _ _ h hresponse
  by_cases hself : place.contains (serverAddr clientRequest) = true
  . have hpass := @exchangePass_follows handler _ _ _ _ hresponse.1 (hreading loopCount) (hfollows.mpr hself)
    rw [h.passed hresponse, location, h.location, Option.getD_some, hagain] at hpass
    rw [if_pos hself, hpass]
    rfl
  . have hpass : handler.exchangePass clientRequest response
        (upstream handler.root handler.port loopCount rawReq) = .ok (.leave redirect) := by
      rw [exchangePass_eq hresponse.1, hreading, Outcome.ok_bind, finish, if_neg (hfollows.not.mpr hself),
        h.settled hresponse]
      rfl
    rw [if_neg hself, hpass]
    rfl

theorem followFrom_takenOver (hself : place.contains (serverAddr clientRequest) = true) (loopCount passes : Nat)
    : ∃ exchanges, handler.followFrom upstream clientRequest loopCount rawReq redirect passes
          = .ok (redirect, exchanges)
        ∧ exchanges.length = passes := by
  induction passes generalizing loopCount with
  | zero => exact ⟨[], rfl, rfl⟩
  | succ passes ih =>
    rcases ih (loopCount + 1) with ⟨exchanges, hrest, hlength⟩
    refine ⟨upstream handler.root handler.port loopCount rawReq :: exchanges, ?_, ?_⟩
    . rw [followFrom_succ_takenOver h hreading hagain h.unchanged, if_pos hself, hrest]
      rfl
    . rw [List.length_cons, hlength]

theorem followFrom_unchanged (hresponse : Unchanged redirect response) (loopCount passes : Nat)
    : ∃ exchanges, handler.followFrom upstream clientRequest loopCount rawReq response (passes + 1)
          = .ok (redirect, exchanges)
        ∧ exchanges.length = if place.contains (serverAddr clientRequest) then passes + 1 else 1 := by
  rw [followFrom_succ_takenOver h hreading hagain hresponse]
  by_cases hself : place.contains (serverAddr clientRequest) = true
  . rcases followFrom_takenOver h hreading hagain hself (loopCount + 1) passes
      with ⟨exchanges, hrest, hlength⟩
    refine ⟨upstream handler.root handler.port loopCount rawReq :: exchanges, ?_, ?_⟩
    . rw [if_pos hself, hrest]
      rfl
    . rw [if_pos hself, List.length_cons, hlength]
  . exact ⟨[upstream handler.root handler.port loopCount rawReq], if_neg hself, (if_neg hself).symm⟩

end

/-! ### The redirects of the plain port -/

theorem takenOver_plainPort (hostname : Bytes) {uri : Bytes} (huri : uri.head? = some '/'.toUInt8)
    : TakenOver (HttpSession.handleRequest hostname { uri }) (Bytes.lit "https://" ++ hostname ++ uri) := by
  rw [HttpSession.handleRequest_of_slash huri]
  refine ⟨rfl, rfl, ?_, ⟨Bytes.lit "text/plain", ?_, by decide +kernel⟩, ?_⟩
  . rw [OrdMap.find?_set, if_pos rfl]
  . rw [OrdMap.find?_set, if_neg (by decide), OrdMap.find?_set, if_neg (by decide), OrdMap.find?_set, if_pos rfl]
  . rw [OrdMap.find?_set, if_neg (by decide), OrdMap.find?_set, if_neg (by decide), OrdMap.find?_set,
      if_neg (by decide), OrdMap.find?_set, if_pos rfl]

theorem fromSlash_plainPort {hostname uri : Bytes} (hhostname : '/'.toUInt8 ∉ hostname ∧ hostname.OneLine)
    (huri : ∀ b ∈ uri, Grammar.UriChar b) (hslash : uri.head? = some '/'.toUInt8)
    : fromSlash (trimmed (behindScheme (Bytes.lit "https://" ++ hostname ++ uri))) = uri := by
  have hscheme : Bytes.lit "https://" ++ hostname ++ uri
      = Bytes.lit "https" ++ Bytes.lit "://" ++ (hostname ++ uri) := by
    rw [List.append_assoc]
    rfl
  have hcr : '\r'.toUInt8 ∉ hostname ++ uri := by
    rw [List.mem_append, not_or]
    exact ⟨fun hmem => (hhostname.2 _ hmem).1 rfl, fun hmem => not_cr_of_uriChar (huri _ hmem) rfl⟩
  rw [hscheme, behindScheme_origin (by decide), trimmed_eq, if_neg hcr, fromSlash_append hhostname.1,
    fromSlash_of_head hslash]

theorem reading_plainPort {hostname uri : Bytes} (hhostname : hostname.OneLine)
    (huri : ∀ b ∈ uri, Grammar.UriChar b) (hslash : uri.head? = some '/'.toUInt8) {source : Source}
    (hsource : source.chunks.flatten = ResponseGenerator.serialise (HttpSession.handleRequest hostname { uri }))
    : (Exchange.answered source).reading
        = .ok (.complete 302 (HttpSession.handleRequest hostname { uri }).headers []) := by
  have htaken := takenOver_plainPort hostname hslash
  have hcourteous : (HttpSession.handleRequest hostname { uri }).Courteous := by
    rw [HttpSession.handleRequest_of_slash hslash]
    refine .redirect ?_
    simp only [Bytes.oneLine_append]
    refine ⟨⟨by decide +kernel, hhostname⟩, fun b hb => ⟨not_cr_of_uriChar (huri b hb), ?_⟩⟩
    rintro rfl
    exact absurd (huri _ hb) (by decide)
  have hentries : (HttpSession.handleRequest hostname { uri }).headers.entries ≠ [] := by
    intro hnil
    have hlocation := htaken.location
    rw [OrdMap.find?, hnil] at hlocation
    cases hlocation
  rw [reading_of_lines hentries (fun header hheader => hcourteous.readable.onLines.mem_entries hheader) hsource,
    htaken.code, htaken.body]
  rfl

theorem exchange_plainPort {hostname : Bytes} {request : Request} (hplain : request.Plain)
    (hlength : ∃ request', utility.getContentLength request = .ok (request.body.length, request'))
    (hbody : request.body.NoNul) {exchange : Exchange}
    (hexchange : HttpSession.Exchanges hostname (RawRequest.render request.method
      (handler.forwardedUri request.uri) (Bytes.lit "1.0") (forwardedHeaders request) request.body) exchange)
    : ∃ source, exchange = .answered source
        ∧ source.chunks.flatten = ResponseGenerator.serialise
            (HttpSession.handleRequest hostname { uri := handler.forwardedUri request.uri }) := by
  have hheaders : ∀ header ∈ forwardedHeaders request, RequestParser.PlainHeader header := by
    intro header hheader
    rcases mem_forwardedHeaders.mp hheader with rfl | ⟨hentry, -, -⟩
    . exact ⟨by decide, by decide +kernel, by decide +kernel⟩
    . exact hplain.headers header hentry
  have hversion : RequestParser.IsVersion (Bytes.lit "1.0") :=
    @RequestParser.isVersion_one '0'.toUInt8 (by decide)
  have hcontent : ∃ request', utility.getContentLength ({ request with
      uri := handler.forwardedUri request.uri
      httpVersion := Bytes.lit "1.0"
      headers := OrdMap.ofList (forwardedHeaders request)
      body := [] } : Request) = .ok (request.body.length, request') := by
    rcases hlength with ⟨request', hlength⟩
    refine ⟨_, utility.getContentLength_eq_ok.mpr ⟨rfl, ?_⟩⟩
    rw [contentLengthStr_forwarded]
    exact (utility.getContentLength_eq_ok.mp hlength).2
  have hanswered := hexchange.of_closing (asksToClose_forwarded request (handler.forwardedUri request.uri))
    fun mem hmem hfits => RequestParser.parseData_render (uriChar_forwardedUri hplain.uri) hversion hheaders
      (nodup_forwardedHeaders request) hbody rfl hcontent hfits hmem
  exact hanswered

/--
A proxy in front of the plain port of a server of this kind is such a port itself, for what is left of the uri:
its client is redirected to https. The handler comes to that after one exchange if the redirect does not name the
host that the client has asked, and otherwise it sends the same request five times.
-/
theorem handleRequest_plainPort (handler : ProxyRequestHandler) (hostname : Bytes)
    (hhostname : '/'.toUInt8 ∉ hostname ∧ hostname.OneLine) (upstream : Upstream) (request : Request)
    (hplain : request.Plain)
    (hlength : ∃ request', utility.getContentLength request = .ok (request.body.length, request'))
    (hbody : request.body.NoNul) (rawReq : Bytes) (hraw : handler.convertToRawbody request false = .ok rawReq)
    (hupstream : ∀ n, HttpSession.Exchanges hostname rawReq (upstream handler.root handler.port n rawReq))
    : ∃ exchanges, handler.handleRequest upstream request
          = .ok (HttpSession.handleRequest hostname { uri := handler.forwardedUri request.uri }, exchanges)
        ∧ exchanges.length
            =
          if (Bytes.lit "https://" ++ hostname ++ handler.forwardedUri request.uri).contains
              (serverAddr request) then
            5
          else
            1 := by
  have hslash := head?_forwardedUri handler request.uri
  have huri := @uriChar_forwardedUri handler _ hplain.uri
  rw [handleRequest, hraw, Outcome.ok_bind]
  have hrender := (convertToRawbody_eq_ok.mp hraw).2
  have hreading : ∀ n, (upstream handler.root handler.port n rawReq).reading = .ok (.complete 302
      (HttpSession.handleRequest hostname { uri := handler.forwardedUri request.uri }).headers []) := by
    intro n
    have hexchange := hupstream n
    nth_rewrite 1 [hrender] at hexchange
    rcases exchange_plainPort hplain hlength hbody hexchange with ⟨source, hsource, hflatten⟩
    rw [hsource]
    exact reading_plainPort hhostname.2 huri hslash hflatten
  have hagain : RawRequest.render request.method (fromSlash (trimmed (behindScheme
      (Bytes.lit "https://" ++ hostname ++ handler.forwardedUri request.uri)))) (Bytes.lit "1.0")
        (forwardedHeaders request) request.body = rawReq := by
    rw [fromSlash_plainPort hhostname huri hslash]
    exact hrender.symm
  exact followFrom_unchanged (takenOver_plainPort hostname hslash) hreading hagain ⟨rfl, .inl rfl⟩ 0 4

def proxyForTest : ProxyRequestHandler :=
  { root := Bytes.lit "fox", path := Bytes.lit "/p/", port := 80 }

def askedForTest : Request where
  uri := Bytes.lit "/p/a"
  httpVersion := Bytes.lit "1.1"
  headers := OrdMap.ofList [(Bytes.lit "Host", Bytes.lit "fox:443")]

def forwardedForTest : Read :=
  ⟨Bytes.lit "GET /a HTTP/1.0\r\nHost: fox:443\r\nConnection: close\r\n\r\n", by decide⟩

def redirectForTest : Source where
  chunks := [ResponseGenerator.serialise
    (HttpSession.handleRequest (Bytes.lit "fox") { uri := Bytes.lit "/a" })]
  nonempty := by decide +kernel

def plainPortForTest : Upstream :=
  fun _ _ _ _ => .answered redirectForTest

theorem handleRequest_plainPort_fox
    : ∃ exchanges, proxyForTest.handleRequest plainPortForTest askedForTest
          = .ok (HttpSession.handleRequest (Bytes.lit "fox")
              { uri := proxyForTest.forwardedUri (Bytes.lit "/p/a") }, exchanges)
        ∧ exchanges.length = 5 := by
  have hexchanges : HttpSession.Exchanges (Bytes.lit "fox") forwardedForTest.bytes
      (.answered redirectForTest) := by
    have hrun : (HttpSession.machine.run (HttpSession.start .zeroed .zeroed [] (Bytes.lit "fox"),
        ({ world := { table := .empty } } : Shared World)) [{ read := forwardedForTest }, {}]).Yields (fun out =>
          out.1.1.destroyed = true ∧ redirectForTest.chunks.flatten = sent out.2) := by
      decide +kernel
    rcases hrun with ⟨⟨state, actions⟩, hrun, hclosed, hsent⟩
    exact .closed .zeroed .zeroed [] _ rfl hrun hclosed hsent
  rcases handleRequest_plainPort proxyForTest (Bytes.lit "fox") (by decide +kernel) plainPortForTest askedForTest
    ⟨by decide +kernel, RequestParser.isVersion_one (by decide), by decide +kernel⟩
    ⟨_, utility.getContentLength_eq_ok.mpr ⟨rfl, .inl ⟨rfl, rfl⟩⟩⟩ (by decide +kernel)
    forwardedForTest.bytes (by decide +kernel) (fun _ => hexchanges) with ⟨exchanges, hhandle, hcount⟩
  refine ⟨exchanges, hhandle, hcount.trans (if_pos ?_)⟩
  decide +kernel

end ProxyRequestHandler

end Foxy
