import FoxyServer.Http.Response

namespace Foxy

/--
The counters and the handler names shown on the status page: `(uri, (status code, times))` and
`(path, handler name)`.
-/
structure DataCollector where
  statusMap : OrdMap Bytes (OrdMap Bytes Int) := .empty
  uriRequestHandler : OrdMap Bytes Bytes := .empty

namespace DataCollector

def mapStatusToString : Response.StatusCode → Bytes
  | .ok => Bytes.lit "200"
  | .created => Bytes.lit "201"
  | .accepted => Bytes.lit "202"
  | .noContent => Bytes.lit "204"
  | .multipleChoices => Bytes.lit "300"
  | .movedPermanently => Bytes.lit "301"
  | .movedTemporarily => Bytes.lit "302"
  | .notModified => Bytes.lit "304"
  | .badRequest => Bytes.lit "400"
  | .unauthorized => Bytes.lit "401"
  | .forbidden => Bytes.lit "403"
  | .notFound => Bytes.lit "404"
  | .internalServerError => Bytes.lit "500"
  | .notImplemented => Bytes.lit "501"
  | .badGateway => Bytes.lit "502"
  | .serviceUnavailable => Bytes.lit "503"
  | .other _ => Bytes.lit "500"

def incrementRequest (collector : DataCollector) (uri : Bytes) (statusCode : Response.StatusCode)
    : DataCollector :=
  let status := mapStatusToString statusCode
  let counters := (collector.statusMap.find? uri).getD .empty
  let counters :=
    match counters.find? status with
    | some times => counters.set status (times + 1)
    | none => counters.set status 1
  { collector with statusMap := collector.statusMap.set uri counters }

def addHandler (collector : DataCollector) (path handlerName : Bytes) : DataCollector :=
  { collector with uriRequestHandler := collector.uriRequestHandler.set path handlerName }

end DataCollector

end Foxy
