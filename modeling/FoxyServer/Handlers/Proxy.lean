import FoxyServer.Handlers.Generator
import FoxyServer.Http.RawRequest
import FoxyServer.Library.Loop
import FoxyServer.Library.Stream

/-!
This module contains the handler that forwards requests to another server: the request it sends, the way it
reads the answer, and the redirects it follows on its own.
-/

namespace Foxy

/-- What comes of sending a request to a host: no connection, or a connection to read the answer from. -/
inductive Exchange where
  | refused
  | answered (source : Source)

abbrev Upstream := Bytes → Int → Nat → Bytes → Exchange

namespace ProxyRequestHandler

/-! ## The request that is sent -/

def forwardedHeader (header : Bytes × Bytes) : Bytes :=
  if header.1 = Bytes.lit "Accept-Encoding" then
    []
  else if header.2 ≠ [] then
    header.1 ++ Bytes.lit ": "
      ++ (if header.1 = Bytes.lit "Connection" then Bytes.lit "close" else header.2) ++ Bytes.crlf
  else
    []

def sendsConnection (header : Bytes × Bytes) : Bool :=
  header.2 ≠ [] && header.1 = Bytes.lit "Connection"

def convertToRawbody (handler : ProxyRequestHandler) (request : Request) (isRedirect : Bool)
    : Outcome Bytes := do
  let uri ←
    (if isRedirect then
      .ok request.uri
    else do
      let uri ← Bytes.substr request.uri (handler.path.length - 1)
      return if uri.head? ≠ some '/'.toUInt8 then Bytes.lit "/" ++ uri else uri)
  let connection := request.headers.entries.any sendsConnection
  return request.method.toBytes ++ Bytes.lit " " ++ uri ++ Bytes.lit " HTTP" ++ Bytes.lit "/"
    ++ Bytes.lit "1.0" ++ Bytes.crlf ++ request.headers.entries.flatMap forwardedHeader
    ++ (if !connection then Bytes.lit "Connection: close\r\n" else []) ++ Bytes.crlf ++ request.body

def redirectRequest (handler : ProxyRequestHandler) (newRoot : Bytes) (clientRequest : Request)
    : Outcome Bytes :=
  let newRoot := if newRoot.contains (Bytes.lit "\r") then newRoot.dropLast else newRoot
  handler.convertToRawbody { clientRequest with uri := newRoot.dropWhile (· ≠ '/'.toUInt8) } true

/-! ## The answer that is read -/

/--
The response with the header in it, or nothing if there is no colon. Taking the last character off an empty
string is undefined.
-/
def parseHeader (header : Bytes) (response : Response) : Outcome (Option Response) :=
  match Bytes.find (Bytes.lit ":") header with
  | none => .ok none
  | some pos => do
    let value ← Bytes.substr header (pos + 2 : Nat)
    if value = [] then
      .undefined
    else
      return some { response with headers := response.headers.set (header.take pos) value.dropLast }

inductive HeadersRead where
  | read (response : Response) (rest : Bytes)
  | malformed
  | thrown (response : Response)
  deriving DecidableEq

def readHeadersFrom (header : Bytes) (response : Response) : Bytes → Outcome HeadersRead
  | [] =>
    -- the last line may end with the buffer, but an empty one is no line
    if header = [] ∨ header = Bytes.lit "\r" then
      .ok (.read response [])
    else
      next header response (fun response => .ok (.read response []))
  | c :: rest =>
    if c = '\n'.toUInt8 then
      if header = Bytes.lit "\r" then
        .ok (.read response rest)
      else
        next header response (fun response => readHeadersFrom [] response rest)
    else
      readHeadersFrom (header ++ [c]) response rest
where
  next (header : Bytes) (response : Response) (more : Response → Outcome HeadersRead)
      : Outcome HeadersRead :=
    match parseHeader header response with
    | .ok (some response) => more response
    | .ok none => .ok .malformed
    | .throws _ => .ok (.thrown response)
    | .undefined => .undefined

def readHeaders (buffer : Bytes) (response : Response) : Outcome HeadersRead :=
  readHeadersFrom [] response buffer

/-! ## Absolute paths in a page -/

def nextLink? (body : Bytes) : Option Nat :=
  match Bytes.find (Bytes.lit "href") body, Bytes.find (Bytes.lit "src") body with
  | none, none => none
  | none, some src => some (src + 3)
  | some href, none => some (href + 4)
  | some href, some src => if href < src then some (href + 4) else some (src + 3)

/-- The loop of `clean_html`. When it breaks, the body is appended a second time. -/
def cleanHtmlFrom (path cleanedBody body : Bytes) : Bytes :=
  match nextLink? body with
  | none => cleanedBody ++ body
  | some link =>
    let j := link + ((body.drop link).takeWhile (· ≠ '\x22'.toUInt8)).length
    if j + 1 ≥ body.length then
      cleanedBody ++ body ++ body
    else
      let cleanedBody := cleanedBody ++ body.take (j + 1)
      let cleanedBody := if body[j + 1]? ≠ some '/'.toUInt8 then cleanedBody else cleanedBody ++ path
      cleanHtmlFrom path cleanedBody (body.drop (j + 1))
termination_by body.length
decreasing_by
  rw [List.length_drop]
  omega

/-- Looking at the last character of an empty path is undefined. -/
def cleanHtml (handler : ProxyRequestHandler) (body : Bytes) : Outcome Bytes :=
  match handler.path.getLast? with
  | none => .undefined
  | some c =>
    .ok (cleanHtmlFrom (if c = '/'.toUInt8 then handler.path.dropLast else handler.path) [] body)

/-! ## Requests -/

def serverAddr (clientRequest : Request) : Bytes :=
  match clientRequest.headers.find? (Bytes.lit "Host") with
  | none => []
  | some host =>
    match Bytes.find (Bytes.lit ":") host with
    | some tempPos => host.take tempPos
    | none => host

def readBody (handler : ProxyRequestHandler) (buffer : Bytes) (chunks : List Bytes) (response : Response)
    : Outcome Response := do
  let response := if buffer.length > 0 then { response with body := buffer } else response
  let response := { response with body := response.body ++ chunks.flatten }
  let (contentType, headers) := response.headers.index (Bytes.lit "Content-Type")
  let response := { response with headers }
  let body ←
    (if contentType.contains (Bytes.lit "html") then handler.cleanHtml response.body
    else .ok response.body)
  let headers := response.headers.set (Bytes.lit "Content-Length") (Bytes.toDecimal body.length)
  return { response with headers, body }

/--
One pass of the loop: what comes of an exchange when the response is what the passes before have made of
it. The handler returns, or goes on with another request. What is thrown inside is caught, and so is the
error that ends a connection in the middle of a body.
-/
def exchangePass (handler : ProxyRequestHandler) (clientRequest : Request) (response : Response)
    : Exchange → Outcome (Pass (Bytes × Response) Response)
  | .refused => .ok (.leave response)
  | .answered source =>
    match Source.readUntil Bytes.crlf [] source.chunks with
    | none => .ok (.leave response)
    | some (buffer, chunks) =>
      let (httpVersion, statusLineStream) := IStream.word { buffer }
      let (statusCode, statusLineStream) := statusLineStream.unsigned
      let (_, statusLineStream) := statusLineStream.line
      -- a status code that has not been read is not initialised, but then the stream has failed
      let statusCode := statusCode.getD 0
      let response := { response with code := Response.StatusCode.ofValue statusCode }
      if statusLineStream.fail ∨ httpVersion.take 5 ≠ Bytes.lit "HTTP/" then
        .ok (.leave (ResponseGenerator.stockResponse .internalServerError))
      else if statusCode ≠ 200 ∧ statusCode ≠ 301 ∧ statusCode ≠ 302 then
        .ok (.leave (ResponseGenerator.stockResponse response.code))
      else
        match Source.readUntil (Bytes.crlf ++ Bytes.crlf) statusLineStream.buffer chunks with
        | none => .ok (.leave response)
        | some (buffer, chunks) => do
          match ← readHeaders buffer response with
          | .malformed => return .leave (ResponseGenerator.stockResponse .internalServerError)
          | .thrown response => return .leave response
          | .read response buffer =>
            if statusCode = 301 ∨ statusCode = 302 then
              let (newRoot, headers) := response.headers.index (Bytes.lit "Location")
              let response := { response with headers }
              if newRoot.contains (serverAddr clientRequest) then
                let newRoot :=
                  match Bytes.find (Bytes.lit "//") newRoot with
                  | some pos => newRoot.drop (pos + 2)
                  | none => newRoot
                let rawReq ← handler.redirectRequest newRoot clientRequest
                return .again (rawReq, response)
              else
                return .leave (← handler.readBody buffer chunks response)
            else
              return .leave (← handler.readBody buffer chunks response)

/--
The loop, with the number of passes that are left and the number of those behind it. Returns the response,
and the exchanges on the way to it.
-/
def followFrom (handler : ProxyRequestHandler) (upstream : Upstream) (clientRequest : Request)
    (loopCount : Nat) (rawReq : Bytes) (response : Response) : Nat → Outcome (Response × List Exchange)
  | 0 => .ok (response, [])
  | left + 1 => do
    let exchange := upstream handler.root handler.port loopCount rawReq
    match ← handler.exchangePass clientRequest response exchange with
    | .leave response => return (response, [exchange])
    | .again (rawReq, response) => do
      let (response, exchanges) ←
        followFrom handler upstream clientRequest (loopCount + 1) rawReq response left
      return (response, exchange :: exchanges)

def handleRequest (handler : ProxyRequestHandler) (upstream : Upstream) (clientRequest : Request)
    : Outcome (Response × List Exchange) := do
  let rawReq ← handler.convertToRawbody clientRequest false
  handler.followFrom upstream clientRequest 0 rawReq { code := .notFound } 5

end ProxyRequestHandler

end Foxy
