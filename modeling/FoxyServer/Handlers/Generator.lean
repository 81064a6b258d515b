import FoxyServer.Handlers.Login

/-!
This module contains the registration of handlers from the config and the dispatch of a uri to one of
them.
-/

namespace Foxy

structure ProxyRequestHandler where
  root : Bytes := []
  path : Bytes := []
  port : Int := 0
  deriving DecidableEq

namespace ProxyRequestHandler

def init.go (root : Bytes) (port : Int) : NginxConfig → Outcome (Bytes × Int)
  | [] => .ok (root, port)
  | s :: statements => do
    let host ← operandOf (Bytes.lit "host") s.tokens
    let portString ← operandOf (Bytes.lit "port") s.tokens
    match portString with
    | some portString => do
      let port ← Bytes.stoi portString
      go (host.getD root) port statements
    | none => go (host.getD root) port statements

def init (locationPath : Bytes) (config : NginxConfig) (collector : DataCollector)
    : Outcome (Option ProxyRequestHandler × DataCollector) := do
  let collector := collector.addHandler locationPath (Bytes.lit "Proxy Request Handler")
  let (root, port) ← init.go [] 0 config
  let (rootIsQuoted, root) ← utility.isQuoted root
  if !rootIsQuoted then
    return (none, collector)
  return (some { root := root.dropLast, path := locationPath, port }, collector)

end ProxyRequestHandler

inductive RequestHandler where
  | static (handler : StaticRequestHandler)
  | echo
  | status
  | notFound
  | proxy (handler : ProxyRequestHandler)
  | health
  | login (handler : LoginRequestHandler)
  deriving DecidableEq

structure HandlerPtr where
  address : Nat
  object : RequestHandler
  deriving DecidableEq

structure Startup where
  allocated : Nat := 0
  collector : DataCollector := {}

def Startup.new (startup : Startup) (object : RequestHandler) : HandlerPtr × Startup :=
  (⟨startup.allocated, object⟩, { startup with allocated := startup.allocated + 1 })

def initPlain (object : RequestHandler) (name : String) (path : Bytes) (startup : Startup)
    : Outcome (Option HandlerPtr × Startup) :=
  let (rh, startup) := startup.new object
  .ok (some rh, { startup with collector := startup.collector.addHandler path (Bytes.lit name) })

def EchoRequestHandler.init := initPlain .echo "Echo Request Handler"
def StatusRequestHandler.init := initPlain .status "Status Request Handler"
def NotFoundRequestHandler.init := initPlain .notFound "404 Not Found Request Handler"
def HealthRequestHandler.init := initPlain .health "Health Request Handler"

structure RequestHandlerGenerator where
  map : OrdMap Bytes (Option HandlerPtr) := .empty

namespace RequestHandlerGenerator

/-! ## Registration -/

def allocate {H : Type} (object : H → RequestHandler) (startup : Startup)
    (built : Outcome (Option H × DataCollector)) : Outcome (Option HandlerPtr × Startup) := do
  let (handler, collector) ← built
  let startup := { startup with collector }
  match handler with
  | none => return (none, startup)
  | some handler => return ((startup.new (object handler)).1, (startup.new (object handler)).2)

def createHandler (path method : Bytes) (config : NginxConfig) (startup : Startup)
    : Outcome (Option HandlerPtr × Startup) :=
  if method = Bytes.lit "StaticHandler" then
    allocate .static startup (StaticRequestHandler.init path config startup.collector)
  else if method = Bytes.lit "EchoHandler" then
    EchoRequestHandler.init path startup
  else if method = Bytes.lit "StatusHandler" then
    StatusRequestHandler.init path startup
  else if method = Bytes.lit "NotFoundHandler" then
    NotFoundRequestHandler.init path startup
  else if method = Bytes.lit "ProxyHandler" then
    allocate .proxy startup (ProxyRequestHandler.init path config startup.collector)
  else if method = Bytes.lit "HealthHandler" then
    HealthRequestHandler.init path startup
  else if method = Bytes.lit "LoginHandler" then
    allocate .login startup (LoginRequestHandler.init path config startup.collector)
  else
    .ok (none, startup)

def invalidConfig (statement : NginxConfigStatement) : Bool :=
  statement.tokens.length ≠ 3 && statement.childBlock.isSome

/--
The loop of `get_map`. A statement without tokens is taken for a location, because the iterator that finds
no keyword in it is the one it begins with. Reading a token that is not there and dereferencing a missing
block are undefined.
-/
def getMapFrom (generator : RequestHandlerGenerator) (startup : Startup)
    : NginxConfig → Outcome (Bool × RequestHandlerGenerator × Startup)
  | [] => .ok (true, generator, startup)
  | statement :: statements =>
    if statement.tokens = [] ∨ statement.tokens.head? = some (Bytes.lit "location") then
      if invalidConfig statement then
        .ok (false, generator, startup)
      else
        match statement.tokens[2]?, statement.tokens[1]? with
        | some method, some path => do
          let (pathIsQuoted, path) ← utility.isQuoted path
          if !pathIsQuoted then
            .ok (false, generator, startup)
          else
            match statement.childBlock with
            | none => .undefined
            | some childBlock => do
              let (rh, startup) ← createHandler path method childBlock startup
              match rh with
              | none => .ok (false, generator, startup)
              | some rh =>
                getMapFrom { generator with map := generator.map.insert path (some rh) } startup
                  statements
        | _, _ => .undefined
    else
      getMapFrom generator startup statements

def getMap (generator : RequestHandlerGenerator) (config : NginxConfig) (startup : Startup)
    : Outcome (Bool × RequestHandlerGenerator × Startup) :=
  getMapFrom generator startup config

/-! ## Dispatch -/

/-- The loop that cuts a path at the slashes; `x` is the component being read. -/
def cutFrom (x : Bytes) : Bytes → List Bytes
  | [] => if x ≠ [] then [x] else []
  | c :: s =>
    if c = '/'.toUInt8 then
      if x ≠ [] then x :: cutFrom [] s else cutFrom [] s
    else
      cutFrom (x ++ [c]) s

def countEqual : List Bytes → List Bytes → Nat
  | x :: v1, y :: v2 => if y = x then countEqual v1 v2 + 1 else countEqual v1 v2
  | _, _ => 0

/-- The strings are copied with `strcpy`, which stops at a NUL byte. -/
def commonPrefixLength (a b : Bytes) : Nat :=
  countEqual (cutFrom [] (Bytes.cStr a)) (cutFrom [] (Bytes.cStr b))

def scanLocation (uri : Bytes) (longest : Nat × Bytes) (path : Bytes) : Nat × Bytes :=
  let currentLength := commonPrefixLength uri path
  if currentLength = 0 then
    longest
  else
    let longest := if longest.1 < currentLength then (currentLength, path) else longest
    if longest.1 = currentLength ∧ path.length < longest.2.length then
      (currentLength, path)
    else
      longest

/-- The handler, and the generator, in which a missing entry has been created by the lookup. -/
def dispatchHandler (generator : RequestHandlerGenerator) (uri : Bytes)
    : Option HandlerPtr × RequestHandlerGenerator :=
  let longest := generator.map.keys.foldl (scanLocation uri) (0, [])
  let location := if longest.1 = 0 then Bytes.lit "/" else longest.2
  ((generator.map.index location).1, { generator with map := (generator.map.index location).2 })

end RequestHandlerGenerator

end Foxy
