import FoxyServer.Library.Bytes
import FoxyServer.Library.OrdMap

namespace Foxy

inductive Request.MethodEnum where
  | get
  | put
  | post
  | unknown
  deriving DecidableEq, Repr

/--
A request received from a client. The default values are those of a value-initialised `Request()`.
-/
structure Request where
  method : Request.MethodEnum := .get
  uri : Bytes := []
  httpVersion : Bytes := []
  headers : OrdMap Bytes Bytes := .empty
  body : Bytes := []
  deriving DecidableEq

namespace utility

/--
Reading the header with `operator[]` leaves an empty entry behind where there was none. `std::stoi` is
not guarded, so its exceptions leave this function.
-/
def getContentLength (request : Request) : Outcome (Int × Request) := do
  let (contentLengthStr, headers) := request.headers.index (Bytes.lit "Content-Length")
  let request := { request with headers }
  if contentLengthStr ≠ [] then
    let contentLength ← Bytes.stoi contentLengthStr
    return (contentLength, request)
  else
    return (0, request)

end utility

end Foxy
