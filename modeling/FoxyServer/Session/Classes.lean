import FoxyServer.Handlers.Generator
import FoxyServer.Session.Connection

/-!
This module contains the two classes of sessions: `Session` hands requests to the registered handlers,
`HttpSession` redirects them to https.
-/

namespace Foxy

abbrev Handlers (ω : Type) := RequestHandler → Shared ω → Request → Outcome (Response × Shared ω)

def refuseAll : Handlers Unit :=
  fun _ shared _ => .ok (ResponseGenerator.stockResponse .forbidden, shared)

variable {ω : Type}

namespace Session

/--
Dispatch on the session's own copy of the generator. Calling a handler through a null pointer is undefined.
-/
def handleRequest (handlers : Handlers ω) (generator : RequestHandlerGenerator) (shared : Shared ω)
    (request : Request) : Outcome (Response × RequestHandlerGenerator × Shared ω) :=
  let (requestHandler, generator) := generator.dispatchHandler request.uri
  match requestHandler with
  | none => .undefined
  | some requestHandler => do
    let (response, shared) ← handlers requestHandler.object shared request
    return (response, generator, shared)

/-- Nothing that `cancel` could cancel is pending where this is called. -/
def closeSocket (conn : Connection RequestHandlerGenerator) : Connection RequestHandlerGenerator :=
  conn.await .shutdown

def start (data buffer : Buffer) (beyond : Bytes) (generator : RequestHandlerGenerator) :=
  Connection.started .handshake data buffer beyond generator

def opened (data buffer : Buffer) (beyond : Bytes) (generator : RequestHandlerGenerator) :=
  Connection.started .read data buffer beyond generator

def cls (handlers : Handlers ω) : SessionClass RequestHandlerGenerator ω where
  handleRequest := handleRequest handlers
  close := closeSocket
  abort := fun conn => (closeSocket conn).delete

def handleRead (handlers : Handlers ω) := Connection.handleRead (cls handlers)
def handleFinalRead (handlers : Handlers ω) := Connection.handleFinalRead (cls handlers)
def handleWrite (handlers : Handlers ω) := Connection.handleWrite (cls handlers)
def machine (handlers : Handlers ω) := Connection.machine (cls handlers)

theorem step_start (handlers : Handlers ω) (data buffer : Buffer) (beyond : Bytes)
    (generator : RequestHandlerGenerator) (shared : Shared ω)
    : (machine handlers).step (start data buffer beyond generator, shared) {}
        = .ok ((opened data buffer beyond generator, shared), []) := rfl

end Session

namespace HttpSession

def handleRequest (hostname : Bytes) (request : Request) : Response :=
  let location := Bytes.lit "https://" ++ hostname ++ request.uri
  if request.uri.head? ≠ some '/'.toUInt8 then
    ResponseGenerator.stockResponse .badRequest
  else
    let body := []
    let headers := OrdMap.empty
      |>.set (Bytes.lit "Content-Length") (Bytes.toDecimal body.length)
      |>.set (Bytes.lit "Content-Type") (Bytes.lit "text/plain")
      |>.set (Bytes.lit "Connection") (Bytes.lit "close")
      |>.set (Bytes.lit "Location") location
    { code := .movedTemporarily, headers, body }

def start (data buffer : Buffer) (beyond hostname : Bytes) :=
  Connection.started .read data buffer beyond hostname

def cls : SessionClass Bytes ω where
  handleRequest := fun hostname shared request => .ok (handleRequest hostname request, hostname, shared)
  close := Connection.delete
  abort := Connection.delete

def handleRead := Connection.handleRead (cls (ω := ω))
def handleFinalRead := Connection.handleFinalRead (cls (ω := ω))
def handleWrite := Connection.handleWrite (cls (ω := ω))
def machine := Connection.machine (cls (ω := ω))

end HttpSession

end Foxy
