import FoxyServer.Handlers.Answers
import FoxyServer.Session.Reply

/-!
This module contains what a proxy passes on from servers of this kind: if they send responses that can be read, and
redirects without a body, then a client can read what comes of them, however many redirects there are.
-/

namespace Foxy

/-! ## Exchanges with servers of this kind -/

def Response.Redirects (response : Response) : Prop :=
  Reading.isRedirect (statusString.number response.code)

instance (response : Response) : Decidable response.Redirects :=
  inferInstanceAs (Decidable (Reading.isRedirect _))

structure Response.Courteous (response : Response) : Prop where
  readable : response.Readable
  bodiless : response.Redirects → response.body = []

namespace Response.Courteous

theorem page (code : Response.StatusCode) (body : Bytes) {contentType : Bytes} (h : contentType.OneLine)
    (hcode : ¬Reading.isRedirect (statusString.number code))
    : ({ code
         headers := (OrdMap.empty.set (Bytes.lit "Content-Length") (Bytes.toDecimal body.length)).set
           (Bytes.lit "Content-Type") contentType
         body } : Response).Courteous where
  readable := .page code body h
  bodiless := fun hredirects => absurd hredirects hcode

theorem stockResponse (code : Response.StatusCode) (hcode : ¬Reading.isRedirect (statusString.number code))
    : (ResponseGenerator.stockResponse code).Courteous :=
  page code _ (by decide +kernel) hcode

theorem set {response : Response} (h : response.Courteous) {name value : Bytes}
    (hlength : name ≠ Bytes.lit "Content-Length") (hname : ':'.toUInt8 ∉ name ∧ name.OneLine)
    (hvalue : value.OneLine)
    : ({ response with headers := response.headers.set name value } : Response).Courteous where
  readable := h.readable.set hlength hname hvalue
  bodiless := h.bodiless

theorem redirect {location : Bytes} (h : location.OneLine)
    : ({ code := .movedTemporarily
         headers := (((OrdMap.empty.set (Bytes.lit "Content-Length") (Bytes.toDecimal 0)).set
           (Bytes.lit "Content-Type") (Bytes.lit "text/plain")).set (Bytes.lit "Connection")
             (Bytes.lit "close")).set (Bytes.lit "Location") location
         body := [] } : Response).Courteous where
  readable := by
    have hpage := @Response.Readable.page .movedTemporarily [] (Bytes.lit "text/plain") (by decide +kernel)
    exact (hpage.set (by decide) (by decide +kernel) (by decide +kernel)).set (by decide) (by decide +kernel) h
  bodiless := fun _ => rfl

end Response.Courteous

def Exchange.Courteous (exchange : Exchange) : Prop :=
  ∃ source response, exchange = .answered source ∧ source.chunks.flatten = ResponseGenerator.serialise response
    ∧ response.Courteous

inductive Reading.Courteous : Reading → Prop where
  | stock (code : Response.StatusCode) (hcode : ¬isRedirect (statusString.number code)) : Courteous (.stock code)
  | complete (statusCode : Nat) {response : Response} (hreadable : response.Readable)
    (hstatus : statusCode = 200 ∨ isRedirect statusCode) (hbody : isRedirect statusCode → response.body = [])
    : Courteous (.complete statusCode response.headers response.body)

theorem statusString.number_ofValue_number (code : Response.StatusCode)
    : number (Response.StatusCode.ofValue (number code)) = number code := by
  cases code <;> rfl

theorem Exchange.Courteous.reading {exchange : Exchange} (h : exchange.Courteous) {reading : Reading}
    (hreading : exchange.reading = .ok reading) : reading.Courteous := by
  rcases h with ⟨source, response, rfl, hsource, hreadable, hbody⟩
  have hentries : response.headers.entries ≠ [] := by
    intro hnil
    have hlength := hreadable.framed.2
    rw [OrdMap.find?, hnil] at hlength
    cases hlength
  have hlines := ProxyRequestHandler.reading_of_lines hentries
    (fun header hheader => hreadable.onLines.mem_entries hheader) hsource
  rw [hlines, Outcome.ok.injEq] at hreading
  subst hreading
  split
  next hstatus => exact .complete _ hreadable hstatus hbody
  next hstatus =>
    refine .stock _ ?_
    rw [statusString.number_ofValue_number]
    exact fun hredirect => hstatus (.inr hredirect)

namespace ProxyRequestHandler

/-! ## The end of a chain of redirects -/

variable {handler : ProxyRequestHandler} {clientRequest : Request} {response : Response} {reading : Reading}

theorem onLines_emptied (statusCode : Nat) (follows : Bool)
    : ∀ name ∈ emptied statusCode follows, ':'.toUInt8 ∉ name ∧ name.OneLine := by
  have hboth : ∀ name ∈ [Bytes.lit "Location", Bytes.lit "Content-Type"],
      ':'.toUInt8 ∉ name ∧ name.OneLine := by
    decide +kernel
  intro name hname
  apply hboth
  rw [emptied, List.mem_append] at hname
  split_ifs at hname
  all_goals simp_all

theorem onLines_arrived (h : HeadersOnLines response.headers) {headers : OrdMap Bytes Bytes}
    (hheaders : HeadersOnLines headers) (statusCode : Nat) (follows : Bool)
    : HeadersOnLines (arrived response statusCode headers follows) :=
  (h.overlay hheaders).insertAll (onLines_emptied statusCode follows) (List.forall_mem_nil _)

theorem onLines_passed (h : HeadersOnLines response.headers) (hreading : reading.Courteous)
    : HeadersOnLines (passed response reading).headers := by
  cases hreading with
  | stock code => exact h
  | complete statusCode hreadable hstatus hbody =>
    have hinsert := (h.overlay hreadable.onLines).insertAll
      (@List.forall_mem_singleton _ _ (Bytes.lit "Location") |>.mpr (by decide +kernel))
      (List.forall_mem_nil _ : Bytes.OneLine [])
    exact hinsert

theorem onLines_left {chain : List Exchange} (h : ∀ exchange ∈ chain, exchange.Courteous)
    : HeadersOnLines (left chain).headers := by
  have hfold : ∀ response : Response, HeadersOnLines response.headers →
      HeadersOnLines (chain.foldl passedBy response).headers := by
    induction chain with
    | nil => exact fun _ hresponse => hresponse
    | cons exchange chain ih =>
      rw [List.forall_mem_cons] at h
      intro response hresponse
      refine ih h.2 _ ?_
      rw [passedBy]
      split
      next reading hreading => exact onLines_passed hresponse (h.1.reading hreading)
      next => exact hresponse
  exact hfold _ .empty

theorem framed_of_answer (hbody : response.body = []) (hreading : reading.Courteous) {out : Response}
    (hanswer : handler.answer clientRequest response reading = .ok out) : out.Framed := by
  rw [framed_answer_iff hbody hanswer]
  cases hreading with
  | stock code => exact .inl ⟨code, rfl⟩
  | @complete statusCode answer hreadable hstatus hempty =>
    by_cases hfollows : Follows clientRequest response (.complete statusCode answer.headers answer.body)
    . have hannounced := (framed_iff_announcesEmpty (hempty hfollows.1)).mp hreadable.framed
      refine .inr (.inr ⟨?_, ?_⟩)
      . rw [Reading.headers, OrdMap.find?_overlay, Option.isSome_or, hannounced.1, Bool.true_or]
      . rw [Reading.headers, OrdMap.find?_overlay, hannounced.2, Option.some_or]
    . exact .inr (.inl ⟨⟨statusCode, _, _, rfl⟩, hfollows⟩)

theorem page_nil {headers : OrdMap Bytes Bytes} {content : Bytes} (h : handler.page headers [] = .ok content)
    : content = [] := by
  rw [page] at h
  split at h
  next =>
    rw [cleanHtml] at h
    split at h
    next => cases h
    next =>
      rw [cleanHtmlFrom] at h
      exact (Outcome.ok.inj h).symm
  next => exact (Outcome.ok.inj h).symm

theorem courteous_answer (h : HeadersOnLines response.headers) (hbody : response.body = [])
    (hreading : reading.Courteous) {out : Response}
    (hanswer : handler.answer clientRequest response reading = .ok out) : out.Courteous := by
  have hframed := framed_of_answer hbody hreading hanswer
  cases hreading with
  | stock code hcode =>
    cases hanswer
    exact .stockResponse code hcode
  | @complete statusCode answer hreadable hstatus hempty =>
    by_cases hfollows : Follows clientRequest response (.complete statusCode answer.headers answer.body)
    . rw [answer_of_follows hfollows] at hanswer
      cases hanswer
      exact ⟨⟨hframed, onLines_arrived h hreadable.onLines statusCode true⟩, fun _ => hbody⟩
    . rw [answer_of_not_follows hfollows] at hanswer
      rcases Outcome.bind_eq_ok.mp hanswer with ⟨content, hcontent, hanswer⟩
      cases hanswer
      refine ⟨⟨hframed, ?_⟩, ?_⟩
      . exact (onLines_arrived h hreadable.onLines statusCode false).set (by decide +kernel)
          (Response.Readable.oneLine_toDecimal _)
      . intro hredirects
        have hredirect : Reading.isRedirect statusCode := by
          rcases hstatus with rfl | hredirect
          . exact absurd hredirects (by decide : ¬Reading.isRedirect 200)
          . exact hredirect
        rw [hempty hredirect] at hcontent
        exact page_nil hcontent

/-! ## Runs -/

theorem forall_exchanges {P : Exchange → Prop} {upstream : Upstream}
    (h : ∀ loopCount rawReq, P (upstream handler.root handler.port loopCount rawReq)) {passes loopCount : Nat}
    {rawReq : Bytes} {out : Response} {exchanges : List Exchange}
    (hfollow : handler.followFrom upstream clientRequest loopCount rawReq response passes = .ok (out, exchanges))
    : ∀ exchange ∈ exchanges, P exchange := by
  induction passes generalizing loopCount rawReq response exchanges with
  | zero =>
    rw [followFrom, Outcome.ok.injEq, Prod.mk.injEq] at hfollow
    rw [← hfollow.2]
    exact fun exchange hexchange => by cases hexchange
  | succ passes ih =>
    rw [followFrom] at hfollow
    rcases Outcome.bind_eq_ok.mp hfollow with ⟨pass, -, hfollow⟩
    cases pass with
    | leave response' =>
      cases hfollow
      exact List.forall_mem_singleton.mpr (h loopCount rawReq)
    | again next =>
      rcases Outcome.bind_eq_ok.mp hfollow with ⟨⟨response', later⟩, hlater, hfollow⟩
      cases hfollow
      exact List.forall_mem_cons.mpr ⟨h loopCount rawReq, ih hlater⟩

theorem courteous_handleRequest {upstream : Upstream}
    (h : ∀ loopCount rawReq, (upstream handler.root handler.port loopCount rawReq).Courteous) {out : Response}
    {exchanges : List Exchange} (hhandle : handler.handleRequest upstream clientRequest = .ok (out, exchanges))
    : out.Courteous := by
  have hcourteous : ∀ exchange ∈ exchanges, exchange.Courteous := by
    rcases Outcome.bind_eq_ok.mp hhandle with ⟨rawReq, -, hfollow⟩
    exact forall_exchanges h hfollow
  rcases handleRequest_eq_ok hhandle with ⟨chain, final, reading, rfl, hreading, hanswer⟩
  rw [List.forall_mem_append, List.forall_mem_singleton] at hcourteous
  exact courteous_answer (onLines_left hcourteous.1) (left_body chain) (hcourteous.2.reading hreading) hanswer

end ProxyRequestHandler

end Foxy
