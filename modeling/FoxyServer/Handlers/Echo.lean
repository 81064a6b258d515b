import FoxyServer.Http.Response
import FoxyServer.RequestParser.ReadBack

/-!
This module contains the handler that sends a request back as text.
-/

namespace Foxy

namespace EchoRequestHandler

def echoedHeader (header : Bytes × Bytes) : Bytes :=
  if header.2 ≠ [] then header.1 ++ Bytes.lit ": " ++ header.2 ++ Bytes.crlf else []

def convertToRawbody (request : Request) : Bytes :=
  request.method.toBytes ++ Bytes.lit " " ++ request.uri ++ Bytes.lit " HTTP" ++ Bytes.lit "/"
    ++ request.httpVersion ++ Bytes.crlf ++ request.headers.entries.flatMap echoedHeader ++ Bytes.crlf
    ++ request.body

def handleRequest (request : Request) : Response :=
  let body := convertToRawbody request
  let headers := OrdMap.empty
    |>.set (Bytes.lit "Content-Length") (Bytes.toDecimal body.length)
    |>.set (Bytes.lit "Content-Type") (Bytes.lit "text/plain")
  { code := .ok, headers, body }

/-! ## Reading the text back -/

def hasValue (header : Bytes × Bytes) : Bool :=
  header.2 ≠ []

theorem convertToRawbody_eq (request : Request)
    : convertToRawbody request
        =
      RawRequest.render request.method request.uri request.httpVersion
        (request.headers.filter hasValue).entries request.body := by
  have hheaders : ∀ entries : List (Bytes × Bytes), entries.flatMap echoedHeader
      = Bytes.unlines ((entries.filter hasValue).map RawRequest.headerLine) := by
    intro entries
    induction entries with
    | nil => rfl
    | cons header entries ih =>
      rw [List.flatMap_cons, ih, echoedHeader]
      by_cases hvalue : header.2 = []
      . rw [List.filter_cons_of_neg (by simp [hasValue, hvalue]), if_neg (not_not.mpr hvalue),
          List.nil_append]
      . rw [List.filter_cons_of_pos (by simp [hasValue, hvalue]), if_pos hvalue, List.map_cons,
          Bytes.unlines_cons, RawRequest.headerLine]
  rw [convertToRawbody, hheaders, RawRequest.render, RawRequest.lines, Bytes.unlines_cons,
    RawRequest.requestLine, OrdMap.filter]

/--
A request without continuation lines is read back from its echo, without the headers that have no value.
-/
theorem parse_echo {request : Request} (hrequest : request.Plain)
    : ∃ parser', RequestParser.parse {} {} (convertToRawbody request)
        = ⟨.good, request.body, parser',
            { method := request.method
              uri := request.uri
              httpVersion := request.httpVersion
              headers := request.headers.filter hasValue }⟩ := by
  have hheaders : ∀ header ∈ (request.headers.filter hasValue).entries, RequestParser.PlainHeader header :=
    fun header hheader => hrequest.headers header (List.mem_filter.mp hheader).1
  have hparse := @RequestParser.parse_render request.method _ _ _ hrequest.uri hrequest.httpVersion
    hheaders (OrdMap.nodup_keys _) request.body
  rwa [OrdMap.ofList_entries, ← convertToRawbody_eq] at hparse

def cookieRequest : Request :=
  { method := .unknown
    httpVersion := Bytes.lit "1.1"
    headers := OrdMap.ofList [(Bytes.lit "Cookie", Bytes.lit "a=b; c"), (Bytes.lit "Via", [])]
    body := Bytes.lit "\r\n\r\n" }

theorem parse_echo_cookie
    : ∃ parser', RequestParser.parse {} {} (convertToRawbody cookieRequest)
        = ⟨.good, Bytes.lit "\r\n\r\n", parser',
            { method := .unknown
              httpVersion := Bytes.lit "1.1"
              headers := cookieRequest.headers.filter hasValue }⟩ :=
  @parse_echo cookieRequest
    ⟨by decide +kernel, RequestParser.isVersion_one (by decide),
      by decide +kernel⟩

end EchoRequestHandler

end Foxy
