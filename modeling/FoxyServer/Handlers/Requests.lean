import FoxyServer.Handlers.Echo
import FoxyServer.Handlers.Proxy

/-!
This module contains the handlers without members, and the handling of a request by whichever handler it
is given to.
-/

namespace Foxy

namespace statusResponse

def requestLine (uri : Bytes) (counter : Bytes × Int) : Bytes :=
  Bytes.lit "<p>Number of request received from URI " ++ uri ++ Bytes.lit " with status code " ++ counter.1
    ++ Bytes.lit " : " ++ Bytes.ofInt counter.2 ++ Bytes.lit "</p>"

def handlerLine (handler : Bytes × Bytes) : Bytes :=
  Bytes.lit "<p>URI prefix for " ++ handler.2 ++ Bytes.lit " : " ++ handler.1 ++ Bytes.lit "</p>"

def createBody (collector : DataCollector) : Bytes :=
  Bytes.lit "<!DOCTYPE html><html><body>" ++ Bytes.lit "<head><title>Server Status</title></head>"
    ++ Bytes.lit "<h1>Count for server's request and response</h1>"
    ++ collector.statusMap.entries.flatMap (fun (uri, counters) => counters.entries.flatMap (requestLine uri))
    ++ Bytes.lit "<h1>Path to RequestHandler</h1>"
    ++ collector.uriRequestHandler.entries.flatMap handlerLine
    ++ Bytes.lit "</body></html>"

end statusResponse

def textResponse (body : Bytes) (contentType : String) : Response :=
  let headers := OrdMap.empty
    |>.set (Bytes.lit "Content-Length") (Bytes.toDecimal body.length)
    |>.set (Bytes.lit "Content-Type") (Bytes.lit contentType)
  { code := .ok, headers, body }

def StatusRequestHandler.handleRequest (collector : DataCollector) : Response :=
  textResponse (statusResponse.createBody collector) "text/html"

def HealthRequestHandler.handleRequest : Response :=
  textResponse (Bytes.lit "OK") "text/plain"

def NotFoundRequestHandler.handleRequest : Response :=
  ResponseGenerator.stockResponse .notFound

/-- What a request runs into outside the process. -/
structure Outside where
  login : LoginEnv
  verifyCookie : Bytes → Bool
  upstream : Upstream

def deserted : Outside where
  login :=
    { files := fun _ => none
      generateHash := id
      checkpw := fun _ _ => 0
      sqlite := .reliable
      generateCookie := id }
  verifyCookie := fun _ => true
  upstream := fun _ _ _ _ => .refused

structure Handled where
  response : Response
  exchanges : List Exchange := []
  table : AuthTable

namespace RequestHandler

def handleRequest (outside : Outside) (collector : DataCollector) (table : AuthTable) (request : Request)
    : RequestHandler → Outcome Handled
  | .static handler =>
    .ok { response := (handler.handleRequest outside.login.files outside.verifyCookie request).1, table }
  | .echo => .ok { response := EchoRequestHandler.handleRequest request, table }
  | .status => .ok { response := StatusRequestHandler.handleRequest collector, table }
  | .notFound => .ok { response := NotFoundRequestHandler.handleRequest, table }
  | .proxy handler => do
    let (response, exchanges) ← handler.handleRequest outside.upstream request
    return { response, exchanges, table }
  | .health => .ok { response := HealthRequestHandler.handleRequest, table }
  | .login handler =>
    let (response, table) := handler.handleRequest outside.login table request
    .ok { response, table }

end RequestHandler

end Foxy
