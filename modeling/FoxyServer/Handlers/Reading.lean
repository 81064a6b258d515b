import FoxyServer.Handlers.Proxy

/-!
This module contains what an exchange with another server says on its own, and what the proxy handler makes
of it: the two halves of a pass of its loop. The first does not see the response that the passes before have
left, the second does not see how the answer has arrived.
-/

namespace Foxy

inductive Reading where
  /-- There is no status line. -/
  | lost
  /-- The handler answers in place of the server. -/
  | stock (code : Response.StatusCode)
  /-- The connection ends between the status line and the end of the headers. -/
  | cut (code : Response.StatusCode)
  /-- A header line ends at its colon, and the exception leaves the loop over the lines. -/
  | thrown (code : Response.StatusCode) (headers : OrdMap Bytes Bytes)
  | complete (statusCode : Nat) (headers : OrdMap Bytes Bytes) (body : Bytes)
  deriving DecidableEq

namespace Reading

def headers : Reading → OrdMap Bytes Bytes
  | .thrown _ headers => headers
  | .complete _ headers _ => headers
  | _ => .empty

def isRedirect (statusCode : Nat) : Prop :=
  statusCode = 301 ∨ statusCode = 302

instance (statusCode : Nat) : Decidable (isRedirect statusCode) :=
  inferInstanceAs (Decidable (_ ∨ _))

end Reading

def Exchange.reading : Exchange → Outcome Reading
  | .refused => .ok .lost
  | .answered source =>
    match Source.readUntil Bytes.crlf [] source.chunks with
    | none => .ok .lost
    | some (buffer, chunks) =>
      let (httpVersion, statusLineStream) := IStream.word { buffer }
      let (statusCode, statusLineStream) := statusLineStream.unsigned
      let (_, statusLineStream) := statusLineStream.line
      let statusCode := statusCode.getD 0
      let code := Response.StatusCode.ofValue statusCode
      if statusLineStream.fail ∨ httpVersion.take 5 ≠ Bytes.lit "HTTP/" then
        .ok (.stock .internalServerError)
      else if statusCode ≠ 200 ∧ statusCode ≠ 301 ∧ statusCode ≠ 302 then
        .ok (.stock code)
      else
        match Source.readUntil (Bytes.crlf ++ Bytes.crlf) statusLineStream.buffer chunks with
        | none => .ok (.cut code)
        | some (buffer, chunks) => do
          match ← ProxyRequestHandler.readHeaders buffer {} with
          | .malformed => return .stock .internalServerError
          | .thrown response => return .thrown code response.headers
          | .read response buffer =>
            return .complete statusCode response.headers (buffer ++ chunks.flatten)

namespace ProxyRequestHandler

/-! ## Headers -/

def overlaid (response : Response) (headers : OrdMap Bytes Bytes) : Response :=
  { response with headers := response.headers.overlay headers }

def HeadersRead.overlaid (response : Response) : HeadersRead → HeadersRead
  | .read alone rest => .read (ProxyRequestHandler.overlaid response alone.headers) rest
  | .malformed => .malformed
  | .thrown alone => .thrown (ProxyRequestHandler.overlaid response alone.headers)

theorem parseHeader_overlaid (header : Bytes) (response alone : Response)
    : parseHeader header (overlaid response alone.headers)
        = (parseHeader header alone >>= fun alone => .ok (alone.map fun alone => overlaid response alone.headers)) := by
  rw [parseHeader, parseHeader]
  cases Bytes.find (Bytes.lit ":") header with
  | none => rfl
  | some pos =>
    dsimp only
    cases Bytes.substr header (pos + 2 : Nat) with
    | throws e => rfl
    | undefined => rfl
    | ok value =>
      simp only [Outcome.ok_bind]
      split_ifs
      . rfl
      . simp only [Outcome.pure_eq_ok, Outcome.ok_bind, Option.map_some, overlaid, OrdMap.overlay_set]

theorem readHeadersFrom_overlaid (s header : Bytes) (response alone : Response)
    : readHeadersFrom header (overlaid response alone.headers) s
        = (readHeadersFrom header alone s >>= fun out => .ok (out.overlaid response)) := by
  have hnext : ∀ header alone more more',
      (∀ alone, more (overlaid response alone.headers) = (more' alone >>= fun out => .ok (out.overlaid response)))
      → readHeadersFrom.next header (overlaid response alone.headers) more
        = (readHeadersFrom.next header alone more' >>= fun out => .ok (out.overlaid response)) := by
    intro header alone more more' hmore
    rw [readHeadersFrom.next, readHeadersFrom.next, parseHeader_overlaid]
    rcases parseHeader header alone with (_ | alone') | _ | _
    . rfl
    . exact hmore alone'
    . rfl
    . rfl
  induction s generalizing header alone with
  | nil =>
    rw [readHeadersFrom, readHeadersFrom]
    split_ifs
    . rfl
    . exact hnext header alone _ _ (fun alone => rfl)
  | cons c rest ih =>
    rw [readHeadersFrom, readHeadersFrom]
    split_ifs
    . rfl
    . exact hnext header alone _ _ (fun alone => ih [] alone)
    . exact ih (header ++ [c]) alone

theorem readHeaders_overlaid (buffer : Bytes) (response : Response)
    : readHeaders buffer response = (readHeaders buffer {} >>= fun out => .ok (out.overlaid response)) :=
  readHeadersFrom_overlaid buffer [] response {}

/-! ## Passes -/

def headed (response : Response) (statusCode : Nat) (headers : OrdMap Bytes Bytes) : Response :=
  overlaid { response with code := Response.StatusCode.ofValue statusCode } headers

def location (response : Response) : Bytes :=
  (response.headers.find? (Bytes.lit "Location")).getD []

/-- The answer sends the client back to this server, so the handler goes there itself. -/
def Follows (clientRequest : Request) (response : Response) : Reading → Prop
  | .complete statusCode headers _ => Reading.isRedirect statusCode
      ∧ (location (headed response statusCode headers)).contains (serverAddr clientRequest)
  | _ => False

instance (clientRequest : Request) (response : Response) (reading : Reading)
    : Decidable (Follows clientRequest response reading) :=
  match reading with
  | .complete _ _ _ => inferInstanceAs (Decidable (_ ∧ _))
  | .lost | .stock _ | .cut _ | .thrown _ _ => .isFalse id

def passed (response : Response) : Reading → Response
  | .complete statusCode headers _ =>
    let response := headed response statusCode headers
    { response with headers := response.headers.insert (Bytes.lit "Location") [] }
  | _ => response

def isHtml (contentType : Bytes) : Bool :=
  contentType.contains (Bytes.lit "html")

def delivered (handler : ProxyRequestHandler) (response : Response) : Outcome Response := do
  let (contentType, headers) := response.headers.index (Bytes.lit "Content-Type")
  let body ← (if isHtml contentType then handler.cleanHtml response.body else .ok response.body)
  return { response with
    headers := headers.set (Bytes.lit "Content-Length") (Bytes.toDecimal body.length), body }

def settled (handler : ProxyRequestHandler) (response : Response) : Reading → Outcome Response
  | .lost => .ok response
  | .stock code => .ok (ResponseGenerator.stockResponse code)
  | .cut code => .ok { response with code }
  | .thrown code headers => .ok (overlaid { response with code } headers)
  | .complete statusCode headers body =>
    let response := headed response statusCode headers
    if Reading.isRedirect statusCode then
      handler.delivered
        { response with headers := response.headers.insert (Bytes.lit "Location") [], body }
    else
      handler.delivered { response with body }

def finish (handler : ProxyRequestHandler) (clientRequest : Request) (response : Response)
    (reading : Reading) : Outcome (Pass (Bytes × Response) Response) :=
  if Follows clientRequest response reading then do
    let newRoot := location (passed response reading)
    let newRoot :=
      match Bytes.find (Bytes.lit "//") newRoot with
      | some pos => newRoot.drop (pos + 2)
      | none => newRoot
    let rawReq ← handler.redirectRequest newRoot clientRequest
    return .again (rawReq, passed response reading)
  else do
    return .leave (← handler.settled response reading)

theorem readBody_eq {response : Response} (hbody : response.body = []) (handler : ProxyRequestHandler)
    (buffer : Bytes) (chunks : List Bytes)
    : handler.readBody buffer chunks response
        = handler.delivered { response with body := buffer ++ chunks.flatten } := by
  cases buffer with
  | nil =>
    rw [readBody, if_neg (by simp), hbody]
    rfl
  | cons b buffer => rfl

theorem location_passed (response : Response) (statusCode : Nat) (headers : OrdMap Bytes Bytes) (body : Bytes)
    : location (passed response (.complete statusCode headers body))
        = location (headed response statusCode headers) := by
  simp only [location, passed, OrdMap.find?_insert, if_true, Option.getD_some]

theorem exchangePass_eq {response : Response} (hbody : response.body = []) (handler : ProxyRequestHandler)
    (clientRequest : Request) (exchange : Exchange)
    : handler.exchangePass clientRequest response exchange
        = (exchange.reading >>= handler.finish clientRequest response) := by
  cases exchange with
  | refused => rfl
  | answered source =>
    simp only [exchangePass, Exchange.reading]
    cases Source.readUntil Bytes.crlf [] source.chunks with
    | none => rfl
    | some read =>
      rcases read with ⟨buffer, chunks⟩
      dsimp only
      generalize (IStream.word { buffer }).1 = httpVersion
      generalize (IStream.word { buffer }).2.unsigned.1.getD 0 = statusCode
      generalize (IStream.word { buffer }).2.unsigned.2.line.2 = stream
      -- the status line first, then the headers, and the body only of what is not followed
      by_cases hfail : stream.fail = true ∨ httpVersion.take 5 ≠ Bytes.lit "HTTP/"
      . rw [if_pos hfail, if_pos hfail]
        rfl
      rw [if_neg hfail, if_neg hfail]
      by_cases hcode : statusCode ≠ 200 ∧ statusCode ≠ 301 ∧ statusCode ≠ 302
      . rw [if_pos hcode, if_pos hcode]
        rfl
      rw [if_neg hcode, if_neg hcode]
      cases Source.readUntil (Bytes.crlf ++ Bytes.crlf) stream.buffer chunks with
      | none => rfl
      | some read =>
        rcases read with ⟨buffer, chunks⟩
        dsimp only
        rw [readHeaders_overlaid]
        rcases readHeaders buffer {} with (⟨alone, rest⟩ | _ | alone) | _ | _
        . simp only [Outcome.ok_bind, HeadersRead.overlaid, Outcome.pure_eq_ok]
          rw [finish]
          by_cases hfollows : Follows clientRequest response
              (.complete statusCode alone.headers (rest ++ chunks.flatten))
          . have hredirect : statusCode = 301 ∨ statusCode = 302 := hfollows.1
            rw [if_pos hfollows, if_pos hredirect, location_passed]
            exact if_pos hfollows.2
          . rw [if_neg hfollows, settled]
            by_cases hredirect : Reading.isRedirect statusCode
            . rw [if_pos hredirect]
              refine (if_pos hredirect).trans ((if_neg fun hself => hfollows ⟨hredirect, hself⟩).trans ?_)
              rw [readBody_eq]
              . rfl
              . exact hbody
            . rw [if_neg hredirect]
              refine (if_neg hredirect).trans ?_
              rw [readBody_eq]
              . rfl
              . exact hbody
        . rfl
        . rfl
        . rfl
        . rfl

end ProxyRequestHandler

end Foxy
