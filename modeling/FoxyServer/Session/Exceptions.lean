import FoxyServer.Session.Dispatching

/-!
This module contains when an exception leaves a callback of a session: the peer's address can no longer be
told, `parse_data` cannot work with a Content-Length, or a handler throws.
-/

namespace Foxy

open RequestParser

namespace Connection

variable {σ ω : Type}

def parseInput (conn : Connection σ) (completion : Completion) : Option (Request × Bytes × Nat) :=
  let data := { conn with data := conn.data.fill completion.read }.dataMemory
  match conn.pending.head? with
  | some .read => if completion.error then none else some ({}, data, completion.read.bytes.length)
  | some (.reread stale) => some (conn.request, data, stale)
  | _ => none

def asksAddress : List Operation := [.read, .finalRead, .write]

/--
None of the reasons for an exception is there: the peer's address is known where it is asked for, the
Content-Length of the head is one that `parse_data` can work with, and a handler that gets the request does
not throw.
-/
structure NothingThrown (cls : SessionClass σ ω) (state : Connection σ × Shared ω) (completion : Completion)
    : Prop where
  connected : ∀ operation, state.1.pending.head? = some operation → operation ∈ asksAddress →
    completion.connected = true
  contentLength : ∀ request data n, state.1.parseInput completion = some (request, data, n) →
    ContentLengthFits (state.1.requestParser.parse request (data.take n)).request.contentLengthStr
      (state.1.requestParser.parse request (data.take n)).parser.nCharParsed (Bytes.strlen data)
  handlers : ∀ request, state.1.Hands completion request →
    ¬(cls.handleRequest state.1.own state.2 request).Throws

variable {cls : SessionClass σ ω} {conn : Connection σ} {shared : Shared ω}

theorem respond_throws_iff
    : (conn.respond cls shared).Throws ↔ (cls.handleRequest conn.own shared conn.request).Throws := by
  rw [respond, Outcome.bind_throws_iff]
  simp

theorem finishRead_throws_iff {result : ResultType}
    (hlength : (utility.getContentLength conn.request).Returns)
    : (conn.finishRead cls result shared).Throws
        ↔
      result = .good ∧ (cls.handleRequest conn.own shared conn.request).Throws := by
  cases result with
  | good =>
    simp only [finishRead, Outcome.bind_throws_iff, respond_throws_iff]
    simp
  | missingData =>
    rcases hlength with ⟨out, hlength⟩
    simp [finishRead, hlength]
  | bad => simp [finishRead]
  | indeterminate => simp [finishRead]

theorem readOn_throws_iff {result : ResultType} {k : Nat}
    (hlength : (utility.getContentLength conn.request).Returns)
    : (conn.readOn cls result k shared).Throws
        ↔
      result = .good ∧ (cls.handleRequest conn.own shared conn.request).Throws := by
  rw [readOn]
  split
  next hresult => simp [hresult]
  next => exact finishRead_throws_iff hlength

theorem parseData_readOn_throws_iff (cls : SessionClass σ ω) (conn : Connection σ) (shared : Shared ω)
    (next : RequestParser → RequestParser) (request : Request) (n k : Nat)
    : (conn.requestParser.parseData request conn.dataMemory n >>= fun (result, requestParser, request) =>
          readOn cls result k { conn with requestParser := next requestParser, request } shared).Throws
        ↔
      ¬ContentLengthFits (conn.requestParser.parse request (conn.dataMemory.take n)).request.contentLengthStr
          (conn.requestParser.parse request (conn.dataMemory.take n)).parser.nCharParsed
          (Bytes.strlen conn.dataMemory)
        ∨ ∃ parser request', conn.requestParser.parseData request conn.dataMemory n = .ok (.good, parser, request')
            ∧ (cls.handleRequest conn.own shared request').Throws := by
  rw [Outcome.bind_throws_iff, parseData_throws_iff]
  apply or_congr_right
  constructor
  . rintro ⟨⟨result, parser, request'⟩, hdata, hthrows⟩
    rcases (readOn_throws_iff (getContentLength_of_parseData hdata)).mp hthrows with ⟨rfl, hhandler⟩
    exact ⟨parser, request', hdata, hhandler⟩
  . rintro ⟨parser, request', hdata, hthrows⟩
    exact ⟨_, hdata, (readOn_throws_iff (getContentLength_of_parseData hdata)).mpr ⟨rfl, hthrows⟩⟩

theorem remoteEndpoint_bind_throws_iff {α : Type} {connected : Bool} {x : Outcome α}
    : (remoteEndpoint connected >>= fun _ => x).Throws ↔ connected = false ∨ x.Throws := by
  cases connected <;> simp [remoteEndpoint]

variable {completion : Completion} {pending : List Operation}

theorem hands_read_iff (hpending : conn.pending = .read :: pending) {request : Request}
    : conn.Hands completion request
        ↔
      completion.connected = true ∧ completion.error = false
        ∧ ∃ parser, conn.requestParser.parseData {}
            { conn with pending, data := conn.data.fill completion.read }.dataMemory
            completion.read.bytes.length
          = .ok (.good, parser, request) := by
  constructor
  . intro h
    cases h with
    | read _ parser _ _ hconnected herror hparse => exact ⟨hconnected, herror, parser, hparse⟩
    | reread _ _ _ _ hother _ _ | finalRead _ hother _ =>
      rw [hpending] at hother
      cases hother
  . rintro ⟨hconnected, herror, parser, hparse⟩
    exact .read pending parser request hpending hconnected herror hparse

theorem hands_reread_iff {stale : Nat} (hpending : conn.pending = .reread stale :: pending) {request : Request}
    : conn.Hands completion request
        ↔
      completion.error = false
        ∧ ∃ parser, conn.requestParser.parseData conn.request
            { conn with pending, data := conn.data.fill completion.read }.dataMemory stale
          = .ok (.good, parser, request) := by
  constructor
  . intro h
    cases h with
    | reread _ _ parser _ hsame herror hparse =>
      rw [hpending] at hsame
      cases hsame
      exact ⟨herror, parser, hparse⟩
    | read _ _ _ hother _ _ _ | finalRead _ hother _ =>
      rw [hpending] at hother
      cases hother
  . rintro ⟨herror, parser, hparse⟩
    exact .reread pending stale parser request hpending herror hparse

theorem hands_finalRead_iff (hpending : conn.pending = .finalRead :: pending) {request : Request}
    : conn.Hands completion request
        ↔
      completion.connected = true ∧ request = { conn.request with
        body := Bytes.cStr { conn with pending, buffer := conn.buffer.fill completion.read }.bufferMemory } := by
  constructor
  . intro h
    cases h with
    | finalRead _ _ hconnected => exact ⟨hconnected, rfl⟩
    | read _ _ _ hother _ _ _ | reread _ _ _ _ hother _ _ =>
      rw [hpending] at hother
      cases hother
  . rintro ⟨hconnected, rfl⟩
    exact .finalRead pending hpending hconnected

theorem Hands.awaits {request : Request} (h : conn.Hands completion request)
    : ∃ operation, conn.pending.head? = some operation
        ∧ (operation = .read ∨ (∃ stale, operation = .reread stale) ∨ operation = .finalRead) := by
  cases h with
  | read _ _ _ hpending _ _ _ => exact ⟨.read, by rw [hpending]; rfl, .inl rfl⟩
  | reread _ stale _ _ hpending _ _ => exact ⟨.reread stale, by rw [hpending]; rfl, .inr (.inl ⟨stale, rfl⟩)⟩
  | finalRead _ hpending _ => exact ⟨.finalRead, by rw [hpending]; rfl, .inr (.inr rfl)⟩

theorem nothingThrown_read (hpending : conn.pending = .read :: pending)
    : NothingThrown cls (conn, shared) completion
        ↔
      completion.connected = true ∧ (completion.error = false →
        let filled := { conn with pending, data := conn.data.fill completion.read }
        let parsed := conn.requestParser.parse {} (filled.dataMemory.take completion.read.bytes.length)
        ContentLengthFits parsed.request.contentLengthStr parsed.parser.nCharParsed
            (Bytes.strlen filled.dataMemory)
          ∧ ∀ parser request, conn.requestParser.parseData {} filled.dataMemory completion.read.bytes.length
              = .ok (.good, parser, request) → ¬(cls.handleRequest conn.own shared request).Throws) := by
  constructor
  . intro h
    have hconnected := h.connected .read (by rw [hpending]; rfl) (by simp [asksAddress])
    refine ⟨hconnected, fun herror => ⟨?_, ?_⟩⟩
    . apply h.contentLength
      simp only [parseInput, hpending, List.head?_cons, herror]
      rfl
    . intro parser request hdata
      exact h.handlers request ((hands_read_iff hpending).mpr ⟨hconnected, herror, parser, hdata⟩)
  . rintro ⟨hconnected, hreads⟩
    constructor
    . exact fun _ _ _ => hconnected
    . intro request data n hinput
      simp only [parseInput, hpending, List.head?_cons] at hinput
      split at hinput
      next => cases hinput
      next herror =>
        cases hinput
        exact (hreads (by simpa using herror)).1
    . intro request hands
      rcases (hands_read_iff hpending).mp hands with ⟨-, herror, parser, hdata⟩
      exact (hreads herror).2 parser request hdata

theorem nothingThrown_reread {stale : Nat} (hpending : conn.pending = .reread stale :: pending)
    : NothingThrown cls (conn, shared) completion
        ↔
      let filled := { conn with pending, data := conn.data.fill completion.read }
      let parsed := conn.requestParser.parse conn.request (filled.dataMemory.take stale)
      ContentLengthFits parsed.request.contentLengthStr parsed.parser.nCharParsed
          (Bytes.strlen filled.dataMemory)
        ∧ (completion.error = false →
            ∀ parser request, conn.requestParser.parseData conn.request filled.dataMemory stale
              = .ok (.good, parser, request) → ¬(cls.handleRequest conn.own shared request).Throws) := by
  constructor
  . intro h
    refine ⟨?_, fun herror parser request hdata => ?_⟩
    . apply h.contentLength
      simp only [parseInput, hpending, List.head?_cons]
      rfl
    . exact h.handlers request ((hands_reread_iff hpending).mpr ⟨herror, parser, hdata⟩)
  . rintro ⟨hfits, hhandlers⟩
    constructor
    . intro operation hhead hasks
      simp only [hpending, List.head?_cons, Option.some.injEq] at hhead
      rw [← hhead] at hasks
      simp [asksAddress] at hasks
    . intro request data n hinput
      simp only [parseInput, hpending, List.head?_cons, Option.some.injEq] at hinput
      cases hinput
      exact hfits
    . intro request hands
      rcases (hands_reread_iff hpending).mp hands with ⟨herror, parser, hdata⟩
      exact hhandlers herror parser request hdata

theorem nothingThrown_finalRead (hpending : conn.pending = .finalRead :: pending)
    : NothingThrown cls (conn, shared) completion
        ↔
      completion.connected = true
        ∧ ¬(cls.handleRequest conn.own shared
            { conn.request with
              body := Bytes.cStr
                { conn with pending, buffer := conn.buffer.fill completion.read }.bufferMemory }).Throws := by
  constructor
  . intro h
    have hconnected := h.connected .finalRead (by rw [hpending]; rfl) (by simp [asksAddress])
    exact ⟨hconnected, h.handlers _ ((hands_finalRead_iff hpending).mpr ⟨hconnected, rfl⟩)⟩
  . rintro ⟨hconnected, hhandler⟩
    constructor
    . exact fun _ _ _ => hconnected
    . intro request data n hinput
      simp only [parseInput, hpending, List.head?_cons] at hinput
      cases hinput
    . intro request hands
      rw [((hands_finalRead_iff hpending).mp hands).2]
      exact hhandler

theorem nothingThrown_other {operation : Operation} (hpending : conn.pending = operation :: pending)
    (hread : operation ≠ .read) (hreread : ∀ stale, operation ≠ .reread stale)
    (hfinal : operation ≠ .finalRead)
    : NothingThrown cls (conn, shared) completion ↔ (operation = .write → completion.connected = true) := by
  constructor
  . intro h hwrite
    exact h.connected operation (by rw [hpending]; rfl) (by simp [asksAddress, hwrite])
  . intro hconnected
    constructor
    . intro operation' hhead hasks
      simp only [hpending, List.head?_cons, Option.some.injEq] at hhead
      rw [← hhead] at hasks
      simp only [asksAddress, List.mem_cons, List.not_mem_nil, or_false, hread, hfinal, false_or] at hasks
      exact hconnected hasks
    . intro request data n hinput
      simp only [parseInput, hpending, List.head?_cons] at hinput
      cases operation with
      | read => exact absurd rfl hread
      | reread stale => exact absurd rfl (hreread stale)
      | finalRead => cases hinput
      | handshake => cases hinput
      | write => cases hinput
      | shutdown => cases hinput
    . intro request hands
      rcases hands.awaits with ⟨operation', hhead, hkind⟩
      rw [hpending, List.head?_cons, Option.some.injEq] at hhead
      subst hhead
      rcases hkind with heq | ⟨stale, heq⟩ | heq
      . exact absurd heq hread
      . exact absurd heq (hreread stale)
      . exact absurd heq hfinal

theorem nothingThrown_nil (hpending : conn.pending = []) : NothingThrown cls (conn, shared) completion := by
  constructor
  . intro operation hhead
    simp only [hpending, List.head?_nil, reduceCtorEq] at hhead
  . intro request data n hinput
    simp only [parseInput, hpending, List.head?_nil, reduceCtorEq] at hinput
  . intro request hands
    rcases hands.awaits with ⟨operation, hhead, -⟩
    rw [hpending] at hhead
    cases hhead

/-- An exception leaves a callback exactly if one of the reasons for it is there. -/
theorem step_throws_iff {operation : Operation} (hpending : conn.pending = operation :: pending)
    (halive : conn.destroyed = false)
    : (step cls (conn, shared) completion).Throws ↔ ¬NothingThrown cls (conn, shared) completion := by
  simp only [step, hpending]
  rw [if_neg (by simp [halive])]
  cases operation with
  | handshake => simp [nothingThrown_other hpending]
  | shutdown => simp [nothingThrown_other hpending]
  | write =>
    rw [nothingThrown_other hpending (by simp) (by simp) (by simp), handleWrite, remoteEndpoint_bind_throws_iff]
    simp
  | finalRead =>
    rw [nothingThrown_finalRead hpending, handleFinalRead, remoteEndpoint_bind_throws_iff]
    dsimp only
    rw [Outcome.bind_throws_iff, respond_throws_iff, not_and_or, not_not, Bool.not_eq_true]
    simp
  | read =>
    rw [nothingThrown_read hpending, handleRead, remoteEndpoint_bind_throws_iff, not_and_or, Bool.not_eq_true]
    apply or_congr_right
    cases completion.error with
    | true => simp
    | false =>
      simp only [Bool.not_false, if_true, forall_const, not_and_or, not_forall, not_not, exists_prop]
      exact parseData_readOn_throws_iff cls { conn with pending, data := conn.data.fill completion.read } shared
        id {} _ _
  | reread stale =>
    rw [nothingThrown_reread hpending, not_and_or]
    simp only [handleReread]
    cases completion.error with
    | true => simp [Outcome.bind_throws_iff, parseData_throws_iff]
    | false =>
      simp only [Bool.false_eq_true, if_false, forall_const, not_forall, not_not, exists_prop]
      exact parseData_readOn_throws_iff cls { conn with pending, data := conn.data.fill completion.read } shared
        RequestParser.reset conn.request stale stale

end Connection

end Foxy
