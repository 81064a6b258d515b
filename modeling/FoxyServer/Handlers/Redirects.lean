import FoxyServer.Handlers.Forwarding
import FoxyServer.Handlers.Reading

/-!
This module contains the runs of the proxy handler over a chain of redirects: what the chain leaves in the
response, and how much of that is to be seen in what the client gets.
-/

namespace Foxy

namespace ProxyRequestHandler

/-! ## Runs -/

def passedBy (response : Response) (exchange : Exchange) : Response :=
  match exchange.reading with
  | .ok reading => passed response reading
  | _ => response

def left (chain : List Exchange) : Response :=
  chain.foldl passedBy { code := .notFound }

def answer (handler : ProxyRequestHandler) (clientRequest : Request) (response : Response)
    (reading : Reading) : Outcome Response :=
  if Follows clientRequest response reading then
    .ok (passed response reading)
  else
    handler.settled response reading

theorem passed_body (response : Response) (reading : Reading)
    : (passed response reading).body = response.body := by
  cases reading <;> rfl

theorem exchangePass_eq_ok {handler : ProxyRequestHandler} {clientRequest : Request} {response : Response}
    {exchange : Exchange} {pass : Pass (Bytes × Response) Response} (hbody : response.body = [])
    (h : handler.exchangePass clientRequest response exchange = .ok pass)
    : ∃ reading, exchange.reading = .ok reading
        ∧ ((∃ rawReq, pass = .again (rawReq, passed response reading))
            ∧ handler.answer clientRequest response reading = .ok (passed response reading)
          ∨ ∃ response', pass = .leave response'
            ∧ handler.answer clientRequest response reading = .ok response') := by
  rw [exchangePass_eq hbody] at h
  rcases Outcome.bind_eq_ok.mp h with ⟨reading, hreading, h⟩
  refine ⟨reading, hreading, ?_⟩
  rw [finish] at h
  rw [answer]
  split_ifs at h ⊢
  . rcases Outcome.bind_eq_ok.mp h with ⟨rawReq, -, h⟩
    simp only [Outcome.pure_eq_ok, Outcome.ok.injEq] at h
    exact .inl ⟨⟨rawReq, h.symm⟩, rfl⟩
  . rcases Outcome.bind_eq_ok.mp h with ⟨response', hsettled, h⟩
    simp only [Outcome.pure_eq_ok, Outcome.ok.injEq] at h
    exact .inr ⟨response', h.symm, hsettled⟩

theorem followFrom_succ_eq_ok {handler : ProxyRequestHandler} {upstream : Upstream} {clientRequest : Request}
    {loopCount passes : Nat} {rawReq : Bytes} {response response' : Response} {exchanges : List Exchange}
    (hbody : response.body = [])
    (h : handler.followFrom upstream clientRequest loopCount rawReq response (passes + 1)
      = .ok (response', exchanges))
    : ∃ exchange reading, exchange.reading = .ok reading
        ∧ (exchanges = [exchange] ∧ handler.answer clientRequest response reading = .ok response'
          ∨ handler.answer clientRequest response reading = .ok (passed response reading)
            ∧ ∃ rawReq' later, exchanges = exchange :: later
              ∧ handler.followFrom upstream clientRequest (loopCount + 1) rawReq' (passed response reading)
                passes = .ok (response', later)) := by
  rw [followFrom] at h
  rcases Outcome.bind_eq_ok.mp h with ⟨pass, hpass, h⟩
  rcases exchangePass_eq_ok hbody hpass with
    ⟨reading, hreading, ⟨⟨rawReq', rfl⟩, hanswer⟩ | ⟨r, rfl, hanswer⟩⟩
  . rcases Outcome.bind_eq_ok.mp h with ⟨⟨r, later⟩, hfollow, h⟩
    simp only [Outcome.pure_eq_ok, Outcome.ok.injEq, Prod.mk.injEq] at h
    rw [← h.1]
    exact ⟨_, reading, hreading, .inr ⟨hanswer, rawReq', later, h.2.symm, hfollow⟩⟩
  . simp only [Outcome.pure_eq_ok, Outcome.ok.injEq, Prod.mk.injEq] at h
    rw [← h.1]
    exact ⟨_, reading, hreading, .inl ⟨h.2.symm, hanswer⟩⟩

theorem followFrom_eq_ok {handler : ProxyRequestHandler} {upstream : Upstream} {clientRequest : Request}
    {loopCount passes : Nat} {rawReq : Bytes} {response response' : Response} {exchanges : List Exchange}
    (hbody : response.body = [])
    (h : handler.followFrom upstream clientRequest loopCount rawReq response (passes + 1)
      = .ok (response', exchanges))
    : ∃ chain final reading, exchanges = chain ++ [final] ∧ final.reading = .ok reading
        ∧ handler.answer clientRequest (chain.foldl passedBy response) reading = .ok response' := by
  induction passes generalizing loopCount rawReq response response' exchanges with
  | zero =>
    rcases followFrom_succ_eq_ok hbody h with
      ⟨exchange, reading, hreading, ⟨rfl, hanswer⟩ | ⟨hanswer, rawReq', later, rfl, hfollow⟩⟩
    . exact ⟨[], exchange, reading, rfl, hreading, hanswer⟩
    . -- the handler has followed enough redirects, and gives back what it has
      simp only [followFrom, Outcome.ok.injEq, Prod.mk.injEq] at hfollow
      rw [← hfollow.1, ← hfollow.2]
      exact ⟨[], exchange, reading, rfl, hreading, hanswer⟩
  | succ passes ih =>
    rcases followFrom_succ_eq_ok hbody h with
      ⟨exchange, reading, hreading, ⟨rfl, hanswer⟩ | ⟨-, rawReq', later, rfl, hfollow⟩⟩
    . exact ⟨[], exchange, reading, rfl, hreading, hanswer⟩
    . rcases ih ((passed_body response reading).trans hbody) hfollow with
        ⟨chain, final, reading', rfl, hreading', hanswer⟩
      refine ⟨exchange :: chain, final, reading', rfl, hreading', ?_⟩
      rw [List.foldl_cons, passedBy, hreading]
      exact hanswer

theorem handleRequest_eq_ok {handler : ProxyRequestHandler} {upstream : Upstream} {clientRequest : Request}
    {response : Response} {exchanges : List Exchange}
    (h : handler.handleRequest upstream clientRequest = .ok (response, exchanges))
    : ∃ chain final reading, exchanges = chain ++ [final] ∧ final.reading = .ok reading
        ∧ handler.answer clientRequest (left chain) reading = .ok response := by
  rcases Outcome.bind_eq_ok.mp h with ⟨rawReq, -, h⟩
  exact followFrom_eq_ok rfl h

theorem handleRequest_append_eq_ok {handler : ProxyRequestHandler} {upstream : Upstream}
    {clientRequest : Request} {response : Response} {chain : List Exchange} {final : Exchange}
    (h : handler.handleRequest upstream clientRequest = .ok (response, chain ++ [final]))
    : ∃ reading, final.reading = .ok reading
        ∧ handler.answer clientRequest (left chain) reading = .ok response := by
  rcases handleRequest_eq_ok h with ⟨chain', final', reading, hexchanges, hreading, hanswer⟩
  rcases List.append_inj' hexchanges rfl with ⟨rfl, hfinal⟩
  rw [List.singleton_inj.mp hfinal]
  exact ⟨reading, hreading, hanswer⟩

/-! ## What is to be seen of a chain -/

def emptied (statusCode : Nat) (follows : Bool) : List Bytes :=
  (if Reading.isRedirect statusCode then [Bytes.lit "Location"] else [])
    ++ if follows then [] else [Bytes.lit "Content-Type"]

def overwritten (follows : Bool) : List Bytes :=
  if follows then [] else [Bytes.lit "Content-Length"]

/--
Nothing of the difference between two responses that chains of redirects have left is to be seen after an
answer: where the answer does not bring a header itself, they have the same.
-/
def Indistinct (clientRequest : Request) (response response' : Response) : Reading → Prop
  | .lost => response = response'
  | .stock _ => True
  | .cut _ => response.headers = response'.headers
  | .thrown _ headers => ∀ name, headers.find? name = none
    → response.headers.find? name = response'.headers.find? name
  | .complete statusCode headers body =>
    let follows := decide (Follows clientRequest response (.complete statusCode headers body))
    ∀ name, headers.find? name = none → name ∉ overwritten follows
      → (response.headers.insertAll (emptied statusCode follows) []).find? name
          = (response'.headers.insertAll (emptied statusCode follows) []).find? name

def arrived (response : Response) (statusCode : Nat) (headers : OrdMap Bytes Bytes) (follows : Bool)
    : OrdMap Bytes Bytes :=
  (response.headers.overlay headers).insertAll (emptied statusCode follows) []

def page (handler : ProxyRequestHandler) (headers : OrdMap Bytes Bytes) (body : Bytes) : Outcome Bytes :=
  if isHtml ((headers.find? (Bytes.lit "Content-Type")).getD []) then handler.cleanHtml body else .ok body

section

variable {handler : ProxyRequestHandler} {clientRequest : Request} {response response' : Response}
  {statusCode : Nat} {headers : OrdMap Bytes Bytes} {body : Bytes}

theorem arrived_eq_iff {follows : Bool}
    : (∀ name, name ∉ overwritten follows → (arrived response statusCode headers follows).find? name
        = (arrived response' statusCode headers follows).find? name)
        ↔
      ∀ name, headers.find? name = none → name ∉ overwritten follows
        → (response.headers.insertAll (emptied statusCode follows) []).find? name
            = (response'.headers.insertAll (emptied statusCode follows) []).find? name := by
  simp only [arrived, OrdMap.find?_insertAll_overlay]
  constructor
  . intro h name hname hover
    simpa only [hname, Option.none_or] using h name hover
  . intro h name hover
    cases hname : headers.find? name with
    | some value => rfl
    | none => exact h name hname hover

theorem find?_location_arrived (hredirect : Reading.isRedirect statusCode) (follows : Bool)
    : (arrived response statusCode headers follows).find? (Bytes.lit "Location")
        = some (location (headed response statusCode headers)) := by
  have hmem : Bytes.lit "Location" ∈ emptied statusCode follows := by
    rw [emptied, if_pos hredirect]
    exact List.mem_append_left _ List.mem_cons_self
  rw [arrived, OrdMap.find?_insertAll, if_pos hmem]
  rfl

theorem answer_of_follows (hfollows : Follows clientRequest response (.complete statusCode headers body))
    : handler.answer clientRequest response (.complete statusCode headers body)
        = .ok { response with
            code := Response.StatusCode.ofValue statusCode
            headers := arrived response statusCode headers true } := by
  rw [answer, if_pos hfollows, arrived, emptied, if_pos hfollows.1]
  rfl

theorem delivered_eq (handler : ProxyRequestHandler) (response : Response)
    : handler.delivered response
        = (handler.page (response.headers.insert (Bytes.lit "Content-Type") []) response.body >>= fun content =>
            .ok { response with
              headers := (response.headers.insert (Bytes.lit "Content-Type") []).set
                (Bytes.lit "Content-Length") (Bytes.toDecimal content.length)
              body := content }) := by
  rw [page, OrdMap.find?_insert, if_pos rfl]
  rfl

theorem answer_of_not_follows
    (hfollows : ¬Follows clientRequest response (.complete statusCode headers body))
    : handler.answer clientRequest response (.complete statusCode headers body)
        = (handler.page (arrived response statusCode headers false) body >>= fun content =>
            .ok { code := Response.StatusCode.ofValue statusCode
                  headers := (arrived response statusCode headers false).set (Bytes.lit "Content-Length")
                    (Bytes.toDecimal content.length)
                  body := content }) := by
  rw [answer, if_neg hfollows, settled, arrived, emptied]
  by_cases hredirect : Reading.isRedirect statusCode
  . rw [if_pos hredirect, if_pos hredirect, delivered_eq]
    rfl
  . rw [if_neg hredirect, if_neg hredirect, delivered_eq]
    rfl

theorem follows_iff_of_location {response' : Response}
    (h : Reading.isRedirect statusCode →
      location (headed response statusCode headers) = location (headed response' statusCode headers))
    : Follows clientRequest response (.complete statusCode headers body)
        ↔
      Follows clientRequest response' (.complete statusCode headers body) := by
  constructor
  . rintro ⟨hredirect, hself⟩
    exact ⟨hredirect, by rwa [← h hredirect]⟩
  . rintro ⟨hredirect, hself⟩
    exact ⟨hredirect, by rwa [h hredirect]⟩

theorem find?_location_answer {out : Response} (hredirect : Reading.isRedirect statusCode)
    (h : handler.answer clientRequest response (.complete statusCode headers body) = .ok out)
    : out.headers.find? (Bytes.lit "Location") = some (location (headed response statusCode headers)) := by
  by_cases hfollows : Follows clientRequest response (.complete statusCode headers body)
  . rw [answer_of_follows hfollows] at h
    rw [← Outcome.ok.inj h]
    exact find?_location_arrived hredirect true
  . rw [answer_of_not_follows hfollows] at h
    rcases Outcome.bind_eq_ok.mp h with ⟨content, -, h⟩
    rw [← Outcome.ok.inj h, OrdMap.find?_set, if_neg (by decide)]
    exact find?_location_arrived hredirect false

theorem answer_complete_eq_iff {out out' : Response} (hbody : response.body = response'.body)
    (h : handler.answer clientRequest response (.complete statusCode headers body) = .ok out)
    (h' : handler.answer clientRequest response' (.complete statusCode headers body) = .ok out')
    : out = out' ↔ Indistinct clientRequest response response' (.complete statusCode headers body) := by
  -- the two runs go the same way as soon as the responses have the same location
  have hway : ∀ follows, (Reading.isRedirect statusCode →
        (arrived response statusCode headers follows).find? (Bytes.lit "Location")
          = (arrived response' statusCode headers follows).find? (Bytes.lit "Location"))
      → (Follows clientRequest response (.complete statusCode headers body)
        ↔ Follows clientRequest response' (.complete statusCode headers body)) := by
    intro follows hlocation
    apply follows_iff_of_location
    intro hredirect
    have hlocation := hlocation hredirect
    rw [find?_location_arrived hredirect, find?_location_arrived hredirect] at hlocation
    exact Option.some.inj hlocation
  have hsame : out = out' → (Follows clientRequest response (.complete statusCode headers body)
      ↔ Follows clientRequest response' (.complete statusCode headers body)) := by
    intro hout
    apply follows_iff_of_location
    intro hredirect
    have hlocation := find?_location_answer hredirect h
    rw [hout, find?_location_answer hredirect h'] at hlocation
    exact (Option.some.inj hlocation).symm
  rw [Indistinct]
  by_cases hfollows : Follows clientRequest response (.complete statusCode headers body)
  . simp only [decide_eq_true hfollows, ← arrived_eq_iff]
    rw [answer_of_follows hfollows] at h
    constructor
    . intro hout name _
      rw [answer_of_follows ((hsame hout).mp hfollows), ← hout, ← Outcome.ok.inj h] at h'
      rw [(Response.mk.inj (Outcome.ok.inj h')).2.1]
    . intro hagree
      rw [answer_of_follows ((hway true fun _ => hagree _ List.not_mem_nil).mp hfollows)] at h'
      have harrived : arrived response statusCode headers true = arrived response' statusCode headers true :=
        OrdMap.ext_find? fun name => hagree name List.not_mem_nil
      rw [← Outcome.ok.inj h, ← Outcome.ok.inj h', harrived, hbody]
  . simp only [decide_eq_false hfollows, ← arrived_eq_iff]
    have hover : ∀ name, name ∉ overwritten false ↔ name ≠ Bytes.lit "Content-Length" :=
      fun name => by simp [overwritten]
    simp only [hover]
    rw [answer_of_not_follows hfollows] at h
    rcases Outcome.bind_eq_ok.mp h with ⟨content, hpage, h⟩
    constructor
    . intro hout
      rw [answer_of_not_follows (fun h => hfollows ((hsame hout).mpr h))] at h'
      rcases Outcome.bind_eq_ok.mp h' with ⟨content', hpage', h'⟩
      have hfields := Response.mk.inj (Outcome.ok.inj (h.trans ((congrArg Outcome.ok hout).trans h'.symm)))
      have hheaders := hfields.2.1
      rw [hfields.2.2] at hheaders
      exact OrdMap.set_eq_set_iff.mp hheaders
    . intro hagree
      have hway := hway false fun _ => hagree _ (by decide)
      rw [answer_of_not_follows (fun h => hfollows (hway.mpr h)), page, ← hagree _ (by decide), ← page] at h'
      rcases Outcome.bind_eq_ok.mp h' with ⟨content', hpage', h'⟩
      rw [hpage] at hpage'
      rw [← Outcome.ok.inj h, ← Outcome.ok.inj h', ← Outcome.ok.inj hpage', OrdMap.set_eq_set_iff.mpr hagree]

theorem answer_eq_iff {reading : Reading} {out out' : Response} (hbody : response.body = response'.body)
    (h : handler.answer clientRequest response reading = .ok out)
    (h' : handler.answer clientRequest response' reading = .ok out')
    : out = out' ↔ Indistinct clientRequest response response' reading := by
  cases reading with
  | lost =>
    rw [← Outcome.ok.inj h, ← Outcome.ok.inj h', Indistinct]
  | stock code =>
    rw [← Outcome.ok.inj h, ← Outcome.ok.inj h', Indistinct]
    exact iff_of_true rfl trivial
  | cut code =>
    rw [← Outcome.ok.inj h, ← Outcome.ok.inj h', Indistinct, Response.mk.injEq]
    simp only [hbody, and_true, true_and]
  | thrown code headers =>
    rw [← Outcome.ok.inj h, ← Outcome.ok.inj h', Indistinct, overlaid, overlaid, Response.mk.injEq]
    simp only [hbody, and_true, true_and]
    constructor
    . intro hheaders name hname
      have hfind := congrArg (fun headers => headers.find? name) hheaders
      simpa only [OrdMap.find?_overlay, hname, Option.none_or] using hfind
    . intro hagree
      apply OrdMap.ext_find?
      intro name
      rw [OrdMap.find?_overlay, OrdMap.find?_overlay]
      cases hname : headers.find? name with
      | some value => rfl
      | none => exact hagree name hname
  | complete statusCode headers body => exact answer_complete_eq_iff hbody h h'

end

theorem left_body (chain : List Exchange) : (left chain).body = [] := by
  have hfold : ∀ response : Response, (chain.foldl passedBy response).body = response.body := by
    induction chain with
    | nil => exact fun _ => rfl
    | cons exchange chain ih =>
      intro response
      rw [List.foldl_cons, ih, passedBy]
      split
      . exact passed_body response _
      . rfl
  exact hfold _

/--
Two runs that end with the same exchange give the same response exactly if what their redirects have left
is not to be seen after it.
-/
theorem handleRequest_eq_iff {handler : ProxyRequestHandler} {upstream upstream' : Upstream}
    {clientRequest : Request} {response response' : Response} {chain chain' : List Exchange}
    {final : Exchange}
    (hrun : handler.handleRequest upstream clientRequest = .ok (response, chain ++ [final]))
    (hrun' : handler.handleRequest upstream' clientRequest = .ok (response', chain' ++ [final]))
    : response = response'
        ↔
      ∀ reading, final.reading = .ok reading
        → Indistinct clientRequest (left chain) (left chain') reading := by
  rcases handleRequest_append_eq_ok hrun with ⟨reading, hreading, hanswer⟩
  rcases handleRequest_append_eq_ok hrun' with ⟨reading', hreading', hanswer'⟩
  have hsame : reading = reading' := Outcome.ok.inj (hreading.symm.trans hreading')
  subst hsame
  rw [answer_eq_iff ((left_body chain).trans (left_body chain').symm) hanswer hanswer']
  constructor
  . intro h reading' hreading'
    rwa [← Outcome.ok.inj (hreading.symm.trans hreading')]
  . exact fun h => h reading hreading

def rootProxy : ProxyRequestHandler :=
  { root := Bytes.lit "host", path := Bytes.lit "/", port := 80 }

def toLocalhost : Request :=
  { uri := Bytes.lit "/"
    headers := OrdMap.ofList [(Bytes.lit "Host", Bytes.lit "localhost")] }

def cookieRedirect : Exchange :=
  .answered ⟨[Bytes.lit "HTTP/1.0 302 Found\r\nLocation: //localhost/a\r\nSet-Cookie: b\r\n\r\n"],
    by decide +kernel⟩

def textAnswer : Exchange :=
  .answered ⟨[Bytes.lit "HTTP/1.0 200 OK\r\nContent-Type: text/plain\r\n\r\nfox"], by decide +kernel⟩

def textHeaders : OrdMap Bytes Bytes :=
  OrdMap.ofList [(Bytes.lit "Content-Length", Bytes.lit "3"), (Bytes.lit "Content-Type", Bytes.lit "text/plain")]

def cookieHeaders : OrdMap Bytes Bytes :=
  textHeaders
    |>.set (Bytes.lit "Location") (Bytes.lit "//localhost/a")
    |>.set (Bytes.lit "Set-Cookie") (Bytes.lit "b")

theorem handleRequest_text
    : rootProxy.handleRequest (fun _ _ _ _ => textAnswer) toLocalhost
        = .ok ({ code := .ok, headers := textHeaders, body := Bytes.lit "fox" }, [] ++ [textAnswer]) := by
  rfl

theorem handleRequest_cookie
    : rootProxy.handleRequest (fun _ _ loopCount _ => if loopCount = 0 then cookieRedirect else textAnswer)
          toLocalhost
        = .ok ({ code := .ok, headers := cookieHeaders, body := Bytes.lit "fox" },
            [cookieRedirect] ++ [textAnswer]) := by
  rfl

theorem handleRequest_eq_iff_cookie
    : ({ code := .ok, headers := textHeaders, body := Bytes.lit "fox" } : Response)
          = { code := .ok, headers := cookieHeaders, body := Bytes.lit "fox" }
        ↔
      ∀ reading, textAnswer.reading = .ok reading
        → Indistinct toLocalhost (left []) (left [cookieRedirect]) reading :=
  handleRequest_eq_iff handleRequest_text handleRequest_cookie

/-- The cookie of a redirect that was followed comes with the answer. -/
theorem handleRequest_not_determined
    : ¬∀ (handler : ProxyRequestHandler) (upstream upstream' : Upstream) (clientRequest : Request)
        (response response' : Response) (chain chain' : List Exchange) (final : Exchange),
        handler.handleRequest upstream clientRequest = .ok (response, chain ++ [final])
          → handler.handleRequest upstream' clientRequest = .ok (response', chain' ++ [final])
          → response = response' := by
  intro h
  have heq := h rootProxy _ _ toLocalhost _ _ [] [cookieRedirect] textAnswer handleRequest_text
    handleRequest_cookie
  exact absurd heq (by decide +kernel)

end ProxyRequestHandler

end Foxy
