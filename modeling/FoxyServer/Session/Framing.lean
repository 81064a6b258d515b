import FoxyServer.Handlers.Redirects
import FoxyServer.Handlers.Requests
import FoxyServer.Session.Classes

/-!
This module contains the headers by which a client finds the end of a response, and which handlers set them
in all their responses.
-/

namespace Foxy

def Response.Framed (response : Response) : Prop :=
  (response.headers.find? (Bytes.lit "Content-Type")).isSome
    ∧ response.headers.find? (Bytes.lit "Content-Length") = some (Bytes.toDecimal response.body.length)

instance (response : Response) : Decidable response.Framed :=
  inferInstanceAs (Decidable (_ ∧ _))

theorem framed_page (code : Response.StatusCode) (body contentType : Bytes)
    : ({ code
         headers := (OrdMap.empty.set (Bytes.lit "Content-Length") (Bytes.toDecimal body.length)).set
           (Bytes.lit "Content-Type") contentType
         body } : Response).Framed := by
  constructor
  . rw [OrdMap.find?_set, if_pos rfl]
    rfl
  . rw [OrdMap.find?_set, if_neg (by decide), OrdMap.find?_set, if_pos rfl]

theorem Response.Framed.set {response : Response} (h : response.Framed) {name : Bytes}
    (hname : name ≠ Bytes.lit "Content-Length") (value : Bytes)
    : ({ response with headers := response.headers.set name value } : Response).Framed := by
  constructor
  . rw [OrdMap.find?_set]
    split_ifs
    . rfl
    . exact h.1
  . rw [OrdMap.find?_set, if_neg hname]
    exact h.2

theorem framed_stockResponse (code : Response.StatusCode) : (ResponseGenerator.stockResponse code).Framed :=
  framed_page code _ _

theorem HttpSession.framed_handleRequest (hostname : Bytes) (request : Request)
    : (HttpSession.handleRequest hostname request).Framed := by
  rw [handleRequest]
  split_ifs
  . exact framed_stockResponse .badRequest
  . have hpage := framed_page .movedTemporarily [] (Bytes.lit "text/plain")
    exact (hpage.set (by decide) (Bytes.lit "close")).set (by decide)
      (Bytes.lit "https://" ++ hostname ++ request.uri)

theorem StaticRequestHandler.framed_handleRequest (handler : StaticRequestHandler) (files : FileSystem)
    (verifyCookie : Bytes → Bool) (request : Request)
    : (handler.handleRequest files verifyCookie request).1.Framed := by
  rw [handleRequest]
  dsimp only
  split
  . have hpage := framed_page .movedTemporarily [] (Bytes.lit "text/plain")
    exact (hpage.set (by decide) (Bytes.lit "close")).set (by decide) handler.authPath
  . split
    . exact framed_stockResponse .badRequest
    . split
      . exact framed_stockResponse .internalServerError
      . split
        . exact framed_stockResponse .notFound
        . exact framed_page .ok _ _

namespace LoginRequestHandler

theorem framed_prepareHtmlResponse (handler : LoginRequestHandler) (files : FileSystem) (file : Bytes)
    : (handler.prepareHtmlResponse files file).Framed := by
  rw [prepareHtmlResponse]
  split
  . exact framed_stockResponse .notFound
  . exact framed_page .ok _ _

theorem framed_handleRequest (handler : LoginRequestHandler) (env : LoginEnv) (table : AuthTable)
    (request : Request) : (handler.handleRequest env table request).1.Framed := by
  have hpage := handler.framed_prepareHtmlResponse env.files
  rw [handleRequest]
  split
  . split_ifs
    . exact hpage _
    . exact hpage _
  . dsimp only
    split_ifs
    . exact hpage _
    . exact hpage _
    . exact (hpage _).set (by decide) _
    . exact hpage _
  . exact framed_stockResponse .badRequest

end LoginRequestHandler

namespace ProxyRequestHandler

/-- A body that is empty is announced as such, by headers that other servers have sent. -/
def AnnouncesEmpty (headers : OrdMap Bytes Bytes) : Prop :=
  (headers.find? (Bytes.lit "Content-Type")).isSome
    ∧ headers.find? (Bytes.lit "Content-Length") = some (Bytes.lit "0")

/--
The last exchange ends in a way in which the handler puts the two headers in: with a complete answer that
is passed on or with a stock response. In all others it is left to the servers to have sent them.
-/
def Delimits (clientRequest : Request) (response : Response) (reading : Reading) : Prop :=
  (∃ code, reading = .stock code)
    ∨ (∃ statusCode headers body, reading = .complete statusCode headers body)
      ∧ ¬Follows clientRequest response reading
    ∨ AnnouncesEmpty (response.headers.overlay reading.headers)

theorem framed_iff_announcesEmpty {response : Response} (hbody : response.body = [])
    : response.Framed ↔ AnnouncesEmpty response.headers := by
  rw [Response.Framed, AnnouncesEmpty, hbody]
  rfl

theorem framed_answer_iff {handler : ProxyRequestHandler} {clientRequest : Request}
    {response out : Response} {reading : Reading} (hbody : response.body = [])
    (h : handler.answer clientRequest response reading = .ok out)
    : out.Framed ↔ Delimits clientRequest response reading := by
  cases reading with
  | lost =>
    rw [← Outcome.ok.inj h, framed_iff_announcesEmpty hbody]
    simp [Delimits, Reading.headers]
  | stock code =>
    rw [← Outcome.ok.inj h]
    exact iff_of_true (framed_stockResponse code) (.inl ⟨code, rfl⟩)
  | cut code =>
    rw [← Outcome.ok.inj h, framed_iff_announcesEmpty]
    . simp [Delimits, Reading.headers]
    . exact hbody
  | thrown code headers =>
    rw [← Outcome.ok.inj h, framed_iff_announcesEmpty]
    . simp [Delimits, Reading.headers, overlaid]
    . exact hbody
  | complete statusCode headers body =>
    by_cases hfollows : Follows clientRequest response (.complete statusCode headers body)
    -- all that following a redirect puts in is an empty location, if there is none
    . have hheaders : AnnouncesEmpty (arrived response statusCode headers true)
          ↔ AnnouncesEmpty (response.headers.overlay headers) := by
        rw [AnnouncesEmpty, AnnouncesEmpty, arrived, emptied, if_pos hfollows.1, OrdMap.find?_insertAll,
          OrdMap.find?_insertAll, if_neg (by decide), if_neg (by decide)]
      rw [answer_of_follows hfollows] at h
      rw [← Outcome.ok.inj h, framed_iff_announcesEmpty]
      . rw [hheaders, Delimits]
        simp [hfollows, Reading.headers]
      . exact hbody
    . rw [answer_of_not_follows hfollows] at h
      rcases Outcome.bind_eq_ok.mp h with ⟨content, -, h⟩
      have hcontentType : Bytes.lit "Content-Type" ∈ emptied statusCode false :=
        List.mem_append_right _ List.mem_cons_self
      refine iff_of_true ?_ (.inr (.inl ⟨⟨statusCode, headers, body, rfl⟩, hfollows⟩))
      rw [← Outcome.ok.inj h]
      constructor
      . rw [OrdMap.find?_set, if_neg (by decide), arrived, OrdMap.find?_insertAll, if_pos hcontentType]
        rfl
      . rw [OrdMap.find?_set, if_pos rfl]

end ProxyRequestHandler

namespace RequestHandler

/-- Only the proxy handler can fail to set the headers. -/
def Delimits (request : Request) (exchanges : List Exchange) : RequestHandler → Prop
  | .proxy _ => ∀ chain final reading, exchanges = chain ++ [final] → final.reading = .ok reading
    → ProxyRequestHandler.Delimits request (ProxyRequestHandler.left chain) reading
  | _ => True

theorem framed_handleRequest_iff {handler : RequestHandler} {outside : Outside} {collector : DataCollector}
    {table : AuthTable} {request : Request} {handled : Handled}
    (h : handler.handleRequest outside collector table request = .ok handled)
    : handled.response.Framed ↔ handler.Delimits request handled.exchanges := by
  cases handler with
  | static handler =>
    rw [← Outcome.ok.inj h]
    exact iff_of_true (handler.framed_handleRequest _ _ request) trivial
  | echo =>
    rw [← Outcome.ok.inj h]
    exact iff_of_true (framed_page .ok _ _) trivial
  | status =>
    rw [← Outcome.ok.inj h]
    exact iff_of_true (framed_page .ok _ _) trivial
  | notFound =>
    rw [← Outcome.ok.inj h]
    exact iff_of_true (framed_stockResponse .notFound) trivial
  | proxy handler =>
    rcases Outcome.bind_eq_ok.mp h with ⟨⟨response, exchanges⟩, hrun, h⟩
    rw [← Outcome.ok.inj h]
    rcases ProxyRequestHandler.handleRequest_eq_ok hrun with
      ⟨chain, final, reading, rfl, hreading, hanswer⟩
    rw [ProxyRequestHandler.framed_answer_iff (ProxyRequestHandler.left_body chain) hanswer]
    constructor
    . intro hdelimits chain' final' reading' hexchanges hreading'
      rcases List.append_inj' hexchanges rfl with ⟨rfl, hfinal⟩
      rw [← List.singleton_inj.mp hfinal, hreading] at hreading'
      rwa [← Outcome.ok.inj hreading']
    . exact fun hdelimits => hdelimits chain final reading rfl hreading
  | health =>
    rw [← Outcome.ok.inj h]
    exact iff_of_true (framed_page .ok _ _) trivial
  | login handler =>
    rw [← Outcome.ok.inj h]
    exact iff_of_true (handler.framed_handleRequest outside.login table request) trivial

end RequestHandler

/--
The redirector and all handlers but the proxy frame every response. The proxy does so exactly if its last
exchange lets it.
-/
theorem framed_iff_delimits (hostname : Bytes) (request : Request)
    : (HttpSession.handleRequest hostname request).Framed
        ∧ ∀ (handler : RequestHandler) (outside : Outside) (collector : DataCollector) (table : AuthTable)
            (handled : Handled),
            handler.handleRequest outside collector table request = .ok handled
              → (handled.response.Framed ↔ handler.Delimits request handled.exchanges) :=
  ⟨HttpSession.framed_handleRequest hostname request,
    fun _ _ _ _ _ h => RequestHandler.framed_handleRequest_iff h⟩

theorem framed_iff_delimits_deserted
    : (HttpSession.handleRequest [] ProxyRequestHandler.toLocalhost).Framed
        ∧ (({ code := .notFound } : Response).Framed
          ↔
        (RequestHandler.proxy ProxyRequestHandler.rootProxy).Delimits ProxyRequestHandler.toLocalhost [.refused]) :=
  ⟨(framed_iff_delimits [] ProxyRequestHandler.toLocalhost).1,
    (framed_iff_delimits [] ProxyRequestHandler.toLocalhost).2 (.proxy ProxyRequestHandler.rootProxy) deserted {}
      .empty ⟨{ code := .notFound }, [.refused], .empty⟩ rfl⟩

/-- A proxy that gets no connection answers without any headers. -/
theorem not_framed_deserted
    : ¬((∀ hostname request, (HttpSession.handleRequest hostname request).Framed)
        ∧ ∀ (handler : RequestHandler) (outside : Outside) (collector : DataCollector) (table : AuthTable)
            (request : Request) (handled : Handled),
            handler.handleRequest outside collector table request = .ok handled
              → handled.response.Framed) := by
  intro h
  have hframed := h.2 (.proxy ProxyRequestHandler.rootProxy) deserted {} .empty ProxyRequestHandler.toLocalhost
    ⟨{ code := .notFound }, [.refused], .empty⟩ rfl
  exact absurd hframed (by decide)

end Foxy
