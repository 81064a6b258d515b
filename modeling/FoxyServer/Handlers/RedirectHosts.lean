import FoxyServer.Handlers.Insertions
import FoxyServer.Handlers.RedirectTargets

/-!
This module contains which redirects the proxy handler follows: those whose location has the text of the
client's host somewhere in it, which need not be where the host of the location stands.
-/

namespace Foxy

namespace ProxyRequestHandler

/-! ## Hosts -/

def withoutPort (hostPort : Bytes) : Bytes :=
  if hostPort.head? = some '['.toUInt8 then
    hostPort.takeWhile (· ≠ ']'.toUInt8) ++ Bytes.lit "]"
  else
    hostPort.takeWhile (· ≠ ':'.toUInt8)

def withoutUserinfo (authority : Bytes) : Bytes :=
  match Bytes.find (Bytes.lit "@") authority with
  | some pos => authority.drop (pos + 1)
  | none => authority

def endsAuthority (c : UInt8) : Bool :=
  c = '/'.toUInt8 || c = '?'.toUInt8 || c = '#'.toUInt8

/-- The host that a location names: one with two slashes at its front or behind its scheme. -/
def locationHost (location : Bytes) : Option Bytes :=
  match Bytes.find (Bytes.lit "//") location with
  | none => none
  | some pos =>
    let scheme := location.take pos
    if scheme = [] ∨ scheme.getLast? = some ':'.toUInt8 ∧ !scheme.any endsAuthority then
      some (withoutPort (withoutUserinfo ((location.drop (pos + 2)).takeWhile (!endsAuthority ·))))
    else
      none

def clientHost (clientRequest : Request) : Option Bytes :=
  (clientRequest.headers.find? (Bytes.lit "Host")).map withoutPort

def NamesClientHost (clientRequest : Request) (headers : OrdMap Bytes Bytes) : Prop :=
  ∃ location host, headers.find? (Bytes.lit "Location") = some location
    ∧ locationHost location = some host ∧ clientHost clientRequest = some host

/-! ## Runs -/

inductive ComesTo (handler : ProxyRequestHandler) (upstream : Upstream) (clientRequest : Request)
    : Nat → Bytes → Response → Prop where
  | start {rawReq : Bytes} (hraw : handler.convertToRawbody clientRequest false = .ok rawReq)
      : ComesTo handler upstream clientRequest 0 rawReq { code := .notFound }
  | again {loopCount : Nat} {rawReq rawReq' : Bytes} {response response' : Response}
      (h : ComesTo handler upstream clientRequest loopCount rawReq response) (hleft : loopCount < 4)
      (hpass : handler.exchangePass clientRequest response
        (upstream handler.root handler.port loopCount rawReq) = .ok (.again (rawReq', response')))
      : ComesTo handler upstream clientRequest (loopCount + 1) rawReq' response'

def Returns (handler : ProxyRequestHandler) (upstream : Upstream) (clientRequest : Request) (loopCount : Nat)
    (statusCode : Nat) (headers : OrdMap Bytes Bytes) : Prop :=
  ∃ response exchanges, handler.handleRequest upstream clientRequest = .ok (response, exchanges)
    ∧ exchanges.length = loopCount + 1
    ∧ response.code = Response.StatusCode.ofValue statusCode
    ∧ response.headers.find? (Bytes.lit "Location") = headers.find? (Bytes.lit "Location")

section

variable {handler : ProxyRequestHandler} {upstream : Upstream} {clientRequest : Request} {loopCount : Nat}
  {rawReq : Bytes} {response : Response}

theorem exchangePass_again_body {exchange : Exchange} {rawReq' : Bytes} {response' : Response}
    (hbody : response.body = [])
    (h : handler.exchangePass clientRequest response exchange = .ok (.again (rawReq', response')))
    : response'.body = [] := by
  rcases exchangePass_eq_ok hbody h with ⟨reading, -, ⟨⟨_, hpass⟩, -⟩ | ⟨_, hpass, -⟩⟩
  . rw [Pass.again.injEq, Prod.mk.injEq] at hpass
    rw [hpass.2, passed_body, hbody]
  . cases hpass

theorem ComesTo.body (h : ComesTo handler upstream clientRequest loopCount rawReq response)
    : response.body = [] := by
  induction h with
  | start hraw => rfl
  | again h hleft hpass ih => exact exchangePass_again_body ih hpass

theorem ComesTo.loopCount_le (h : ComesTo handler upstream clientRequest loopCount rawReq response)
    : loopCount ≤ 4 := by
  cases h with
  | start hraw => omega
  | again h hleft hpass => omega

theorem ComesTo.path_ne_nil (h : ComesTo handler upstream clientRequest loopCount rawReq response)
    : handler.path ≠ [] := by
  induction h with
  | start hraw => exact (convertToRawbody_eq_ok.mp hraw).1.1
  | again h hleft hpass ih => exact ih

theorem ComesTo.handleRequest_eq (h : ComesTo handler upstream clientRequest loopCount rawReq response)
    : ∃ chain : List Exchange, chain.length = loopCount
        ∧ handler.handleRequest upstream clientRequest
          = (handler.followFrom upstream clientRequest loopCount rawReq response (5 - loopCount) >>= fun out =>
              .ok (out.1, chain ++ out.2)) := by
  induction h with
  | @start rawReq hraw =>
    refine ⟨[], rfl, ?_⟩
    rw [handleRequest, hraw, Outcome.ok_bind]
    cases handler.followFrom upstream clientRequest 0 rawReq { code := .notFound } 5 <;> rfl
  | @again loopCount rawReq rawReq' response response' h hleft hpass ih =>
    rcases ih with ⟨chain, hlength, hrun⟩
    refine ⟨chain ++ [upstream handler.root handler.port loopCount rawReq], by simp [hlength], ?_⟩
    have hpasses : 5 - loopCount = 5 - (loopCount + 1) + 1 := by omega
    rw [hrun, hpasses, followFrom, hpass, Outcome.ok_bind]
    dsimp only
    cases handler.followFrom upstream clientRequest (loopCount + 1) rawReq' response' (5 - (loopCount + 1)) with
    | ok out => simp
    | throws e => rfl
    | undefined => rfl

theorem followFrom_exchanges_ne_nil {passes : Nat} {out : Response × List Exchange}
    (h : handler.followFrom upstream clientRequest loopCount rawReq response (passes + 1) = .ok out) : out.2 ≠ [] := by
  rw [followFrom] at h
  rcases Outcome.bind_eq_ok.mp h with ⟨pass, -, h⟩
  cases pass with
  | leave response' =>
    rw [← Outcome.ok.inj h]
    exact List.cons_ne_nil _ _
  | again next =>
    rcases Outcome.bind_eq_ok.mp h with ⟨out', -, h⟩
    rw [← Outcome.ok.inj h]
    exact List.cons_ne_nil _ _

theorem location_headed_of_find? {statusCode : Nat} {headers : OrdMap Bytes Bytes} {value : Bytes}
    (h : headers.find? (Bytes.lit "Location") = some value)
    : location (headed response statusCode headers) = value := by
  rw [location, headed, overlaid, OrdMap.find?_overlay, h]
  rfl

theorem location_headed_iff {statusCode : Nat} {headers : OrdMap Bytes Bytes}
    : some (location (headed response statusCode headers)) = headers.find? (Bytes.lit "Location")
        ↔
      ∃ value, headers.find? (Bytes.lit "Location") = some value := by
  constructor
  . intro h
    exact ⟨_, h.symm⟩
  . rintro ⟨value, hvalue⟩
    rw [location_headed_of_find? hvalue, hvalue]

theorem answer_returns (hpath : handler.path ≠ []) {statusCode : Nat} {headers : OrdMap Bytes Bytes} {body : Bytes}
    : ∃ out, handler.answer clientRequest response (.complete statusCode headers body) = .ok out
        ∧ out.code = Response.StatusCode.ofValue statusCode := by
  by_cases hfollows : Follows clientRequest response (.complete statusCode headers body)
  . exact ⟨_, answer_of_follows hfollows, rfl⟩
  . rw [answer_of_not_follows hfollows, page]
    split_ifs
    . rw [cleanHtml_eq hpath]
      exact ⟨_, rfl, rfl⟩
    . exact ⟨_, rfl, rfl⟩

theorem ComesTo.returns_iff (h : ComesTo handler upstream clientRequest loopCount rawReq response)
    {statusCode : Nat} {headers : OrdMap Bytes Bytes} {body : Bytes}
    (hreading : (upstream handler.root handler.port loopCount rawReq).reading
      = .ok (.complete statusCode headers body))
    (hredirect : Reading.isRedirect statusCode)
    : Returns handler upstream clientRequest loopCount statusCode headers
        ↔
      ∃ value, headers.find? (Bytes.lit "Location") = some value
        ∧ (value.contains (serverAddr clientRequest) → loopCount = 4) := by
  rcases h.handleRequest_eq with ⟨chain, hlength, hrun⟩
  rcases @answer_returns handler clientRequest response h.path_ne_nil statusCode headers body
    with ⟨out, hanswer, hcode⟩
  have hlocation := find?_location_answer hredirect hanswer
  have hle := h.loopCount_le
  -- if the run ends here, it gives back the answer
  have hends : handler.handleRequest upstream clientRequest
        = .ok (out, chain ++ [upstream handler.root handler.port loopCount rawReq])
      → (Returns handler upstream clientRequest loopCount statusCode headers
        ↔ ∃ value, headers.find? (Bytes.lit "Location") = some value) := by
    intro hend
    rw [← @location_headed_iff response statusCode, ← hlocation]
    constructor
    . rintro ⟨out', exchanges, hout', -, -, hvalue⟩
      rw [hend, Outcome.ok.injEq, Prod.mk.injEq] at hout'
      rw [hout'.1, hvalue]
    . intro hvalue
      exact ⟨out, _, hend, by simp [hlength], hcode, hvalue⟩
  have hpasses : 5 - loopCount = 4 - loopCount + 1 := by omega
  by_cases hfollows : Follows clientRequest response (.complete statusCode headers body)
  . rw [answer, if_pos hfollows, Outcome.ok.injEq] at hanswer
    rw [hpasses, followFrom, exchangePass_follows h.body hreading hfollows, Outcome.ok_bind, hanswer] at hrun
    dsimp only at hrun
    by_cases hfifth : loopCount = 4
    . rw [hfifth] at hrun
      rw [hends (by rw [hrun, hfifth]; rfl)]
      simp [hfifth]
    . refine iff_of_false ?_ ?_
      . rintro ⟨out', exchanges, hout', hexchanges, -⟩
        have hmore : 4 - loopCount = 3 - loopCount + 1 := by omega
        rw [hrun, hmore] at hout'
        rcases Outcome.bind_eq_ok.mp hout' with ⟨_, hpass, hout'⟩
        rcases Outcome.bind_eq_ok.mp hpass with ⟨later, hlater, hpass⟩
        have hpos := List.length_pos_of_ne_nil (followFrom_exchanges_ne_nil hlater)
        rw [← Outcome.ok.inj hpass, Outcome.ok.injEq, Prod.mk.injEq] at hout'
        rw [← hout'.2, List.length_append, List.length_cons] at hexchanges
        omega
      . rintro ⟨value, hvalue, himp⟩
        apply hfifth
        apply himp
        have hcontains := hfollows.2
        rwa [location_headed_of_find? hvalue] at hcontains
  . have hpass : handler.exchangePass clientRequest response (upstream handler.root handler.port loopCount rawReq)
        = .ok (.leave out) := by
      rw [exchangePass_eq h.body, hreading, Outcome.ok_bind, finish, if_neg hfollows]
      rw [answer, if_neg hfollows] at hanswer
      rw [hanswer]
      rfl
    rw [hpasses, followFrom, hpass] at hrun
    rw [hends (by rw [hrun]; rfl)]
    constructor
    . rintro ⟨value, hvalue⟩
      refine ⟨value, hvalue, ?_⟩
      intro hcontains
      exfalso
      apply hfollows
      exact ⟨hredirect, by rwa [location_headed_of_find? hvalue]⟩
    . rintro ⟨value, hvalue, -⟩
      exact ⟨value, hvalue⟩

end

/-! ## The redirects that are followed -/

/-- Every redirect that a run comes to, except those to the host that the client has named, is its result. -/
def FollowsOnlyOwn (handler : ProxyRequestHandler) (upstream : Upstream) (clientRequest : Request) : Prop :=
  ∀ loopCount rawReq response statusCode headers body,
    ComesTo handler upstream clientRequest loopCount rawReq response
      → (upstream handler.root handler.port loopCount rawReq).reading = .ok (.complete statusCode headers body)
      → Reading.isRedirect statusCode → ¬NamesClientHost clientRequest headers
      → Returns handler upstream clientRequest loopCount statusCode headers

/--
Every redirect to another host has a location, and the text of the client's host is nowhere in it, or the
handler has followed four redirects by then.
-/
def ForeignHostsDiffer (handler : ProxyRequestHandler) (upstream : Upstream) (clientRequest : Request) : Prop :=
  ∀ loopCount rawReq response statusCode headers body,
    ComesTo handler upstream clientRequest loopCount rawReq response
      → (upstream handler.root handler.port loopCount rawReq).reading = .ok (.complete statusCode headers body)
      → Reading.isRedirect statusCode → ¬NamesClientHost clientRequest headers
      → ∃ value, headers.find? (Bytes.lit "Location") = some value
        ∧ (value.contains (serverAddr clientRequest) → loopCount = 4)

/-- The handler follows no redirect but those to the host of the client exactly if the other hosts differ. -/
theorem followsOnlyOwn_iff {handler : ProxyRequestHandler} {upstream : Upstream} {clientRequest : Request}
    : FollowsOnlyOwn handler upstream clientRequest ↔ ForeignHostsDiffer handler upstream clientRequest := by
  constructor
  . intro h loopCount rawReq response statusCode headers body hcomes hreading hredirect hforeign
    exact (hcomes.returns_iff hreading hredirect).mp (h _ _ _ _ _ _ hcomes hreading hredirect hforeign)
  . intro h loopCount rawReq response statusCode headers body hcomes hreading hredirect hforeign
    exact (hcomes.returns_iff hreading hredirect).mpr (h _ _ _ _ _ _ hcomes hreading hredirect hforeign)

/-- A redirect to another host that has the name of this one in its query is followed. -/
theorem followsOnlyOwn_query
    : ¬FollowsOnlyOwn rootProxy (fun _ _ _ _ => redirectTo (Bytes.lit "http://other/?q=localhost")) toLocalhost := by
  intro h
  have hcomes : ComesTo rootProxy (fun _ _ _ _ => redirectTo (Bytes.lit "http://other/?q=localhost")) toLocalhost 0
      (Bytes.lit "GET / HTTP/1.0\r\nHost: localhost\r\nConnection: close\r\n\r\n") { code := .notFound } :=
    .start rfl
  have hforeign : ¬NamesClientHost toLocalhost
      (OrdMap.ofList [(Bytes.lit "Location", Bytes.lit "http://other/?q=localhost")]) := by
    rintro ⟨location, host, hlocation, hhost, hclient⟩
    have hvalue : location = Bytes.lit "http://other/?q=localhost" := (Option.some.inj hlocation).symm
    have hother : host = Bytes.lit "other" := by
      rw [hvalue] at hhost
      exact (Option.some.inj hhost).symm
    rw [hother] at hclient
    revert hclient
    decide +kernel
  rcases (hcomes.returns_iff rfl (.inr rfl)).mp (h _ _ _ 302 _ [] hcomes rfl (.inr rfl) hforeign)
    with ⟨value, hvalue, himp⟩
  have hvalue : value = Bytes.lit "http://other/?q=localhost" := (Option.some.inj hvalue).symm
  have hfour := himp (by rw [hvalue]; decide +kernel)
  exact absurd hfour (by decide)

end ProxyRequestHandler

end Foxy
