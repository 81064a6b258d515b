import FoxyServer.Handlers.Locations
import FoxyServer.Session.Callbacks
import FoxyServer.Session.Classes

/-!
This module contains the requests that the callbacks of a session hand to handlers, and the proof that all
of them find one exactly if there is one for the root.
-/

namespace Foxy

namespace Connection

variable {σ ω : Type}

/-- The completion makes the callback hand this request to a handler. -/
inductive Hands (conn : Connection σ) (completion : Completion) : Request → Prop where
  | read (pending : List Operation) (parser : RequestParser) (request : Request)
    (hpending : conn.pending = .read :: pending) (hconnected : completion.connected = true)
    (herror : completion.error = false)
    (hparse : conn.requestParser.parseData {}
        { conn with pending, data := conn.data.fill completion.read }.dataMemory completion.read.bytes.length
      = .ok (.good, parser, request))
    : Hands conn completion request
  | reread (pending : List Operation) (stale : Nat) (parser : RequestParser) (request : Request)
    (hpending : conn.pending = .reread stale :: pending) (herror : completion.error = false)
    (hparse : conn.requestParser.parseData conn.request
        { conn with pending, data := conn.data.fill completion.read }.dataMemory stale
      = .ok (.good, parser, request))
    : Hands conn completion request
  | finalRead (pending : List Operation) (hpending : conn.pending = .finalRead :: pending)
    (hconnected : completion.connected = true)
    : Hands conn completion
        { conn.request with
          body := Bytes.cStr { conn with pending, buffer := conn.buffer.fill completion.read }.bufferMemory }

theorem step_of_hands {cls : SessionClass σ ω} {conn : Connection σ} {shared : Shared ω}
    {completion : Completion} {request : Request} (h : Hands conn completion request)
    (hundefined : cls.handleRequest conn.own shared request = .undefined)
    : step cls (conn, shared) completion = .undefined := by
  cases h with
  | read pending parser request hpending hconnected herror hparse =>
    simp only [step, hpending, hconnected, herror, handleRead, remoteEndpoint_true, Bool.not_false, if_true,
      hparse, Outcome.ok_bind, readOn, reduceCtorEq, if_false, finishRead, respond, hundefined,
      Outcome.undefined_bind, ite_self]
  | reread pending stale parser request hpending herror hparse =>
    simp only [step, hpending, herror, handleReread, hparse, Outcome.ok_bind, Bool.false_eq_true, readOn,
      reduceCtorEq, if_false, finishRead, respond, hundefined, Outcome.undefined_bind, ite_self]
  | finalRead pending hpending hconnected =>
    simp only [step, hpending, hconnected, handleFinalRead, remoteEndpoint_true, Outcome.ok_bind, respond,
      hundefined, Outcome.undefined_bind, ite_self]

/-! ## What only one class has -/

variable {cls : SessionClass σ ω} {J : σ → Prop}

def HandlersKeep (cls : SessionClass σ ω) (J : σ → Prop) : Prop :=
  ∀ own shared request response own' shared', J own →
    cls.handleRequest own shared request = .ok (response, own', shared') → J own'

theorem respond_keeps_own (hhandle : HandlersKeep cls J) {conn : Connection σ} {shared : Shared ω}
    {out : (Connection σ × Shared ω) × List Action} (h : J conn.own)
    (hrespond : conn.respond cls shared = .ok out) : J out.1.1.own := by
  rcases respond_eq_ok cls hrespond with ⟨response, own, shared', hrequest, rfl⟩
  exact hhandle _ _ _ _ _ _ h hrequest

theorem finishRead_keeps_own (hhandle : HandlersKeep cls J) {result : RequestParser.ResultType}
    {conn : Connection σ} {shared : Shared ω} {out : (Connection σ × Shared ω) × List Action} (h : J conn.own)
    (hfinish : conn.finishRead cls result shared = .ok out) : J out.1.1.own := by
  cases result with
  | good =>
    rcases Outcome.bind_eq_ok.mp hfinish with ⟨⟨⟨conn', shared'⟩, actions⟩, hrespond, hfinish⟩
    cases hfinish
    have hown : J conn'.own := by
      refine respond_keeps_own hhandle ?_ hrespond
      exact h
    exact hown
  | missingData =>
    rcases Outcome.bind_eq_ok.mp hfinish with ⟨⟨c, request⟩, -, hfinish⟩
    cases hfinish
    exact h
  | bad =>
    cases hfinish
    exact h
  | indeterminate =>
    cases hfinish
    exact h

theorem readOn_keeps_own (hhandle : HandlersKeep cls J) {result : RequestParser.ResultType} {k : Nat}
    {conn : Connection σ} {shared : Shared ω} {out : (Connection σ × Shared ω) × List Action} (h : J conn.own)
    (hread : conn.readOn cls result k shared = .ok out) : J out.1.1.own := by
  rw [readOn] at hread
  split at hread
  . cases hread
    exact h
  . exact finishRead_keeps_own hhandle h hread

theorem afterWrite_own (hclose : ∀ conn, (cls.close conn).own = conn.own)
    (habort : ∀ conn, (cls.abort conn).own = conn.own) (conn : Connection σ) (error : Bool)
    : (conn.afterWrite cls error).own = conn.own := by
  cases error with
  | true => exact habort conn
  | false =>
    simp only [afterWrite, Bool.not_false, if_true]
    split_ifs
    . exact hclose _
    . exact hclose _
    . rfl

theorem step_keeps_own (hhandle : HandlersKeep cls J) (hclose : ∀ conn, (cls.close conn).own = conn.own)
    (habort : ∀ conn, (cls.abort conn).own = conn.own) {conn : Connection σ} {shared : Shared ω}
    {completion : Completion} {out : (Connection σ × Shared ω) × List Action} (h : J conn.own)
    (hstep : step cls (conn, shared) completion = .ok out) : J out.1.1.own := by
  cases step_cameTo hstep with
  | idle => exact h
  | parsed hown _ hread => exact readOn_keeps_own hhandle (hown ▸ h) hread
  | arrived hown hrespond =>
    have hkeeps := respond_keeps_own hhandle (hown ▸ h) hrespond
    exact hkeeps
  | @written conn' error hown _ =>
    have hkeeps := (afterWrite_own hclose habort conn' error).trans hown
    rw [← hkeeps] at h
    exact h
  | other hown _ => exact hown ▸ h

end Connection

namespace Session

variable {ω : Type} (handlers : Handlers ω)

theorem step_of_null {conn : Connection RequestHandlerGenerator} {shared : Shared ω} {completion : Completion}
    {request : Request} (hands : conn.Hands completion request)
    (hnull : (conn.own.dispatchHandler request.uri).1 = none)
    : (machine handlers).step (conn, shared) completion = .undefined := by
  apply Connection.step_of_hands hands
  simp only [cls, handleRequest, hnull]

inductive Asks (conn : Connection RequestHandlerGenerator) : Bytes → Prop where
  | accepted (input : Bytes) (hgood : (RequestParser.parse {} {} input).result = .good)
    : Asks conn (RequestParser.parse {} {} input).request.uri
  | handed (completion : Completion) (request : Request) (hands : conn.Hands completion request)
    : Asks conn request.uri

/--
Whatever a session is asked for in a state that it can reach, there is a handler for it, and the locations
are those that have been registered, before and after the dispatch.
-/
def AlwaysDispatches (generator : RequestHandlerGenerator) (shared : Shared ω) : Prop :=
  ∀ (data buffer : Buffer) (beyond : Bytes) (completions : List Completion)
    (state : Connection RequestHandlerGenerator × Shared ω) (actions : List Action),
    (machine handlers).run (start data buffer beyond generator, shared) completions = .ok (state, actions) →
    state.1.own.map.keys = generator.map.keys
      ∧ ∀ uri, Asks state.1 uri → (state.1.own.dispatchHandler uri).1 ≠ none
          ∧ (state.1.own.dispatchHandler uri).2.map.keys = generator.map.keys

theorem handleRequest_keeps {generator : RequestHandlerGenerator} (hroot : Bytes.lit "/" ∈ generator.map.keys)
    : Connection.HandlersKeep (cls handlers) (· = generator) := by
  rintro own shared request response own' shared' rfl hhandle
  simp only [cls, handleRequest] at hhandle
  split at hhandle
  next => cases hhandle
  next requestHandler hrequest =>
    rcases Outcome.bind_eq_ok.mp hhandle with ⟨⟨response1, shared1⟩, -, hhandle⟩
    cases hhandle
    exact RequestHandlerGenerator.dispatchHandler_snd (RequestHandlerGenerator.mem_keys_of_root hroot _)

theorem run_keeps_generator {generator : RequestHandlerGenerator} (hroot : Bytes.lit "/" ∈ generator.map.keys)
    {data buffer : Buffer} {beyond : Bytes} {shared : Shared ω} {completions : List Completion}
    {state : Connection RequestHandlerGenerator × Shared ω} {actions : List Action}
    (hrun : (machine handlers).run (start data buffer beyond generator, shared) completions
      = .ok (state, actions)) : state.1.own = generator := by
  apply Machine.run_keeps (I := fun state => state.1.own = generator) _ _
    (Machine.meets_true _ completions) hrun
  . rintro ⟨conn, shared⟩ completion state' actions h - hstep
    exact Connection.step_keeps_own (handleRequest_keeps handlers hroot) (fun _ => rfl) (fun _ => rfl) h hstep
  . rfl

theorem alwaysDispatches_iff_root {generator : RequestHandlerGenerator} {allocated : Nat}
    (h : generator.Registered allocated) {shared : Shared ω}
    : AlwaysDispatches handlers generator shared ↔ Bytes.lit "/" ∈ generator.map.keys := by
  constructor
  . intro hdispatches
    have hgood : (RequestParser.parse {} {} (Bytes.lit "GET / HTTP/1.1\r\n\r\n")).result = .good := by decide
    have huri : (RequestParser.parse {} {} (Bytes.lit "GET / HTTP/1.1\r\n\r\n")).request.uri
        = Bytes.lit "/" := by
      decide
    have hfound := ((hdispatches .zeroed .zeroed [] [] _ [] rfl).2 _ (.accepted _ hgood)).1
    rw [huri] at hfound
    by_contra hroot
    apply hfound
    apply (RequestHandlerGenerator.dispatchHandler_eq_none_iff h).mpr
    rwa [RequestHandlerGenerator.chosen_root]
  . intro hroot data buffer beyond completions state actions hrun
    rw [run_keeps_generator handlers hroot hrun]
    refine ⟨rfl, fun uri _ => ⟨?_, ?_⟩⟩
    . rw [Ne, RequestHandlerGenerator.dispatchHandler_eq_none_iff h, not_not]
      exact RequestHandlerGenerator.mem_keys_of_root hroot uri
    . rw [RequestHandlerGenerator.dispatchHandler_snd (RequestHandlerGenerator.mem_keys_of_root hroot uri)]

end Session

end Foxy
