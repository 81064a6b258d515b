import FoxyServer.Library.Lines
import FoxyServer.Library.OrdMap

/-!
This module contains responses, the stock responses of the `ResponseGenerator` and the bytes that it turns
a response into.
-/

namespace Foxy

/--
The status of a reply. The enumeration is not closed: a `status_code` can hold any number, such as the
zero of a value-initialised `Response()`.
-/
inductive Response.StatusCode where
  | ok
  | created
  | accepted
  | noContent
  | multipleChoices
  | movedPermanently
  | movedTemporarily
  | notModified
  | badRequest
  | unauthorized
  | forbidden
  | notFound
  | internalServerError
  | notImplemented
  | badGateway
  | serviceUnavailable
  | other (value : Int)
  deriving DecidableEq, Repr

def Response.StatusCode.ofValue (value : Nat) : Response.StatusCode :=
  match value with
  | 200 => .ok
  | 201 => .created
  | 202 => .accepted
  | 204 => .noContent
  | 300 => .multipleChoices
  | 301 => .movedPermanently
  | 302 => .movedTemporarily
  | 304 => .notModified
  | 400 => .badRequest
  | 401 => .unauthorized
  | 403 => .forbidden
  | 404 => .notFound
  | 500 => .internalServerError
  | 501 => .notImplemented
  | 502 => .badGateway
  | 503 => .serviceUnavailable
  | value => .other value

structure Response where
  code : Response.StatusCode := .other 0
  headers : OrdMap Bytes Bytes := .empty
  body : Bytes := []
  deriving DecidableEq

namespace ResponseGenerator

def stockPage (title heading : String) : Bytes :=
  Bytes.lit ("<html><head><title>" ++ title ++ "</title></head><body><h1>" ++ heading
    ++ "</h1></body></html>")

def stockReply : Response.StatusCode → Bytes
  | .ok => []
  | .created => stockPage "Created" "201 Created"
  | .accepted => stockPage "Accepted" "202 Accepted"
  | .noContent => stockPage "No Content" "204 Content"
  | .multipleChoices => stockPage "Multiple Choices" "300 Multiple Choices"
  | .movedPermanently => stockPage "Moved Permanently" "301 Moved Permanently"
  | .movedTemporarily => stockPage "Moved Temporarily" "302 Moved Temporarily"
  | .notModified => stockPage "Not Modified" "304 Not Modified"
  | .badRequest => stockPage "Bad Request" "400 Bad Request"
  | .unauthorized => stockPage "Unauthorized" "401 Unauthorized"
  | .forbidden => stockPage "Forbidden" "403 Forbidden"
  | .notFound => stockPage "Not Found" "404 Not Found"
  | .internalServerError => stockPage "Internal Server Error" "500 Internal Server Error"
  | .notImplemented => stockPage "Not Implemented" "501 Not Implemented"
  | .badGateway => stockPage "Bad Gateway" "502 Bad Gateway"
  | .serviceUnavailable => stockPage "Service Unavailable" "503 Service Unavailable"
  | .other _ => stockPage "Internal Server Error" "500 Internal Server Error"

def stockResponse (status : Response.StatusCode) : Response :=
  let body := stockReply status
  let headers := OrdMap.empty
    |>.set (Bytes.lit "Content-Length") (Bytes.toDecimal body.length)
    |>.set (Bytes.lit "Content-Type") (Bytes.lit "text/html")
  { code := status, headers, body }

end ResponseGenerator

/-! ## On the wire -/

def statusString.toBuffer : Response.StatusCode → Bytes
  | .ok => Bytes.lit "HTTP/1.1 200 OK\r\n"
  | .created => Bytes.lit "HTTP/1.0 201 Created\r\n"
  | .accepted => Bytes.lit "HTTP/1.0 202 Accepted\r\n"
  | .noContent => Bytes.lit "HTTP/1.0 204 No Content\r\n"
  | .multipleChoices => Bytes.lit "HTTP/1.0 300 Multiple Choices\r\n"
  | .movedPermanently => Bytes.lit "HTTP/1.0 301 Moved Permanently\r\n"
  | .movedTemporarily => Bytes.lit "HTTP/1.0 302 Moved Temporarily\r\n"
  | .notModified => Bytes.lit "HTTP/1.0 304 Not Modified\r\n"
  | .badRequest => Bytes.lit "HTTP/1.1 400 Bad Request\r\n"
  | .unauthorized => Bytes.lit "HTTP/1.0 401 Unauthorized\r\n"
  | .forbidden => Bytes.lit "HTTP/1.0 403 Forbidden\r\n"
  | .notFound => Bytes.lit "HTTP/1.0 404 Not Found\r\n"
  | .internalServerError => Bytes.lit "HTTP/1.0 500 Internal Server Error\r\n"
  | .notImplemented => Bytes.lit "HTTP/1.0 501 Not Implemented\r\n"
  | .badGateway => Bytes.lit "HTTP/1.0 502 Bad Gateway\r\n"
  | .serviceUnavailable => Bytes.lit "HTTP/1.0 503 Service Unavailable\r\n"
  | .other _ => Bytes.lit "HTTP/1.0 500 Internal Server Error\r\n"

namespace ResponseGenerator

def init (response : Response) : Response :=
  { response with headers := OrdMap.ofList response.headers.entries }

def headerBuffers (header : Bytes × Bytes) : List Bytes :=
  [header.1, Bytes.lit ": ", header.2, Bytes.crlf]

def toBuffers (generator : Response) : List Bytes :=
  [statusString.toBuffer generator.code] ++ generator.headers.entries.flatMap headerBuffers
    ++ [Bytes.crlf, generator.body]

def serialise (response : Response) : Bytes :=
  (toBuffers (init response)).flatten

end ResponseGenerator

end Foxy
