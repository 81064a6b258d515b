import FoxyServer.DataCollector
import FoxyServer.Library.Machine
import FoxyServer.RequestParser.Basic

/-!
This module contains the state of a connection and the callbacks that drive it. `Session` and `HttpSession`
are the same state machine; what differs between the two classes is a parameter.
-/

namespace Foxy

/-! ## Buffers -/

def maxLength : Nat := 1024

/-- The bytes that a read brings in, which are no more than a buffer holds. -/
structure Read where
  bytes : Bytes
  fits : bytes.length ≤ maxLength
  deriving DecidableEq

def Read.nothing : Read := ⟨[], by decide⟩

/-- A member of type `char[max_length]`. -/
structure Buffer where
  bytes : Bytes
  length_eq : bytes.length = maxLength

namespace Buffer

def zeroed : Buffer := ⟨List.replicate maxLength 0, List.length_replicate⟩

def fill (buffer : Buffer) (read : Read) : Buffer where
  bytes := read.bytes ++ buffer.bytes.drop read.bytes.length
  length_eq := by
    have hfits := read.fits
    have hlength := buffer.length_eq
    simp only [List.length_append, List.length_drop]
    omega

end Buffer

/-! ## State -/

/--
An operation that has been started. `reread` is the blocking read inside `handle_read`, with the argument
`bytes_transferred` of the callback it blocks.
-/
inductive Operation where
  | handshake
  | read
  | reread (bytesTransferred : Nat)
  | finalRead
  | write
  | shutdown
  deriving DecidableEq

/--
How an operation ended, and whether the peer's address can still be told when its callback runs. Only reads
transfer bytes.
-/
structure Completion where
  error : Bool := false
  read : Read := .nothing
  connected : Bool := true

/-- `socket().remote_endpoint()`, which throws once the connection has been reset. -/
def remoteEndpoint (connected : Bool) : Outcome Unit :=
  if connected then .ok () else .throws .systemError

@[simp]
theorem remoteEndpoint_true : remoteEndpoint true = .ok () := rfl

theorem remoteEndpoint_bind {α : Type} {connected : Bool} {x : Outcome α} {a : α}
    : (remoteEndpoint connected >>= fun _ => x) = .ok a ↔ connected = true ∧ x = .ok a := by
  cases connected <;> simp [remoteEndpoint]

inductive Action where
  | handleRequest (request : Request)
  | asyncWrite (request : Request) (response : Response)
  deriving DecidableEq

/-- What all the connections of the process share: the counters, and whatever else the handlers use. -/
structure Shared (ω : Type) where
  collector : DataCollector := {}
  world : ω

/--
The members of a session. `beyond` is the memory behind the two buffers, `own` is what only one of the two
classes has, `pending` are the operations started and not completed, and `destroyed` says that the session
has deleted itself.
-/
structure Connection (σ : Type) where
  requestParser : RequestParser := {}
  responseGenerator : Response := {}
  request : Request := {}
  data : Buffer
  buffer : Buffer
  beyond : Bytes
  own : σ
  pending : List Operation
  destroyed : Bool := false

/-- What differs between `Session` and `HttpSession`. -/
structure SessionClass (σ ω : Type) where
  handleRequest : σ → Shared ω → Request → Outcome (Response × σ × Shared ω)
  close : Connection σ → Connection σ
  abort : Connection σ → Connection σ

namespace Connection

variable {σ ω : Type}

def dataMemory (conn : Connection σ) : Bytes :=
  conn.data.bytes ++ (conn.buffer.bytes ++ conn.beyond)

def bufferMemory (conn : Connection σ) : Bytes :=
  conn.buffer.bytes ++ conn.beyond

def await (conn : Connection σ) (operation : Operation) : Connection σ :=
  { conn with pending := conn.pending ++ [operation] }

def delete (conn : Connection σ) : Connection σ :=
  { conn with destroyed := true }

def started (operation : Operation) (data buffer : Buffer) (beyond : Bytes) (own : σ) : Connection σ :=
  { data, buffer, beyond, own, pending := [operation] }

def handleHandshake (conn : Connection σ) (error : Bool) : Connection σ :=
  if !error then conn.await .read else conn.delete

def handleBadRequest (conn : Connection σ) (shared : Shared ω) : Connection σ × Shared ω :=
  let response := ResponseGenerator.stockResponse .badRequest
  ({ conn with responseGenerator := response },
    { shared with collector := shared.collector.incrementRequest conn.request.uri response.code })

variable (cls : SessionClass σ ω)

def respond (conn : Connection σ) (shared : Shared ω)
    : Outcome ((Connection σ × Shared ω) × List Action) := do
  let (response, own, shared) ← cls.handleRequest conn.own shared conn.request
  let conn := { conn with own, responseGenerator := response }
  let shared :=
    { shared with collector := shared.collector.incrementRequest conn.request.uri response.code }
  return ((conn.await .write, shared),
    [.handleRequest conn.request, .asyncWrite conn.request response])

/-- An error is not looked at, nor how many bytes have been transferred. -/
def handleFinalRead (conn : Connection σ) (shared : Shared ω) (connected : Bool)
    : Outcome ((Connection σ × Shared ω) × List Action) := do
  remoteEndpoint connected
  let conn := { conn with request := { conn.request with body := Bytes.cStr conn.bufferMemory } }
  let ((conn, shared), actions) ← conn.respond cls shared
  return (({ conn with data := .zeroed, buffer := .zeroed }, shared), actions)

/-- The end of `handle_read`, from the second `reset` on. -/
def finishRead (result : RequestParser.ResultType) (conn : Connection σ) (shared : Shared ω)
    : Outcome ((Connection σ × Shared ω) × List Action) := do
  let conn := { conn with requestParser := conn.requestParser.reset }
  let ((conn, shared), actions) ←
    match result with
    | .good => conn.respond cls shared
    | .missingData => do
      let (_, request) ← utility.getContentLength conn.request
      return (({ conn with request }.await .finalRead, shared), [])
    | .bad =>
      let (conn, shared) := conn.handleBadRequest shared
      .ok ((conn.await .write, shared), [.asyncWrite conn.request conn.responseGenerator])
    | .indeterminate => .ok ((conn, shared), [])
  if result ≠ .missingData then
    return (({ conn with data := .zeroed }, shared), actions)
  else
    return ((conn, shared), actions)

def readOn (result : RequestParser.ResultType) (bytesTransferred : Nat) (conn : Connection σ)
    (shared : Shared ω) : Outcome ((Connection σ × Shared ω) × List Action) :=
  if result = .indeterminate then
    .ok ((conn.await (.reread bytesTransferred), shared), [])
  else
    conn.finishRead cls result shared

def handleRead (conn : Connection σ) (shared : Shared ω) (connected error : Bool) (bytesTransferred : Nat)
    : Outcome ((Connection σ × Shared ω) × List Action) := do
  remoteEndpoint connected
  if !error then
    let (result, requestParser, request) ←
      conn.requestParser.parseData {} conn.dataMemory bytesTransferred
    readOn cls result bytesTransferred { conn with requestParser, request } shared
  else
    .ok ((conn.delete, shared), [])

/--
The body of the loop, after its read. The bytes are parsed whether or not there was an error; with one the
callback returns without starting anything.
-/
def handleReread (conn : Connection σ) (shared : Shared ω) (error : Bool) (bytesTransferred : Nat)
    : Outcome ((Connection σ × Shared ω) × List Action) := do
  let (result, requestParser, request) ←
    conn.requestParser.parseData conn.request conn.dataMemory bytesTransferred
  let conn := { conn with requestParser := requestParser.reset, request }
  if error then
    return ((conn, shared), [])
  else
    readOn cls result bytesTransferred conn shared

/-- What `handle_write` does with the connection, once it has asked for the peer's address. -/
def afterWrite (conn : Connection σ) (error : Bool) : Connection σ :=
  if !error then
    let (upper, headers) := conn.request.headers.index (Bytes.lit "Connection")
    let conn := { conn with request := { conn.request with headers } }
    if upper = Bytes.lit "close" then
      cls.close conn
    else
      let (lower, headers) := conn.request.headers.index (Bytes.lit "connection")
      let conn := { conn with request := { conn.request with headers } }
      if lower = Bytes.lit "close" then cls.close conn else conn.await .read
  else
    cls.abort conn

def handleWrite (conn : Connection σ) (shared : Shared ω) (connected error : Bool)
    : Outcome ((Connection σ × Shared ω) × List Action) := do
  remoteEndpoint connected
  return ((conn.afterWrite cls error, shared), [])

theorem handleWrite_eq_ok {conn : Connection σ} {shared : Shared ω} {connected error : Bool}
    {out : (Connection σ × Shared ω) × List Action}
    : conn.handleWrite cls shared connected error = .ok out
        ↔
      connected = true ∧ ((conn.afterWrite cls error, shared), []) = out := by
  rw [handleWrite, remoteEndpoint_bind, Outcome.pure_eq_ok, Outcome.ok.injEq]

/--
Run the callback of the operation that has completed. The callbacks are bound to the session, so after
`delete this` there is nothing to run them on.
-/
def step (state : Connection σ × Shared ω) (completion : Completion)
    : Outcome ((Connection σ × Shared ω) × List Action) :=
  let (conn, shared) := state
  match conn.pending with
  | [] => .ok ((conn, shared), [])
  | operation :: pending =>
    if conn.destroyed then
      .undefined
    else
      let conn := { conn with pending }
      let bytesTransferred := completion.read.bytes.length
      match operation with
      | .handshake => .ok ((conn.handleHandshake completion.error, shared), [])
      | .read =>
        { conn with data := conn.data.fill completion.read }.handleRead cls shared completion.connected
          completion.error bytesTransferred
      | .reread stale =>
        { conn with data := conn.data.fill completion.read }.handleReread cls shared completion.error
          stale
      | .finalRead =>
        { conn with buffer := conn.buffer.fill completion.read }.handleFinalRead cls shared
          completion.connected
      | .write => conn.handleWrite cls shared completion.connected completion.error
      | .shutdown => .ok ((conn.delete, shared), [])

def machine : Machine (Connection σ × Shared ω) Completion Action where
  step := step cls

end Connection

end Foxy
