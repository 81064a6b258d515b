import FoxyServer.Session.Delivery

/-!
This module contains what a session does with a request that arrives in reads of its own.
-/

namespace Foxy

open RequestParser

namespace Connection

variable {σ ω : Type} (cls : SessionClass σ ω)

def receive (state : Connection σ × Shared ω) (read : Read)
    : Outcome ((Connection σ × Shared ω) × List Action) := do
  let (state, actions) ← step cls state { read }
  if state.1.pending = [.write] then
    let (state, more) ← step cls state {}
    return (state, actions ++ more)
  else
    return (state, actions)

def reader : Machine (Connection σ × Shared ω) Read Action where
  step := receive cls

def handed? : Action → Option Request
  | .handleRequest request => some request
  | .asyncWrite _ _ => none

theorem exists_run_of_receive {state state' : Connection σ × Shared ω} {read : Read}
    {actions : List Action} (h : receive cls state read = .ok (state', actions))
    : ∃ completions, (machine cls).run state completions = .ok (state', actions)
        ∧ (∀ completion ∈ completions, completion.error = false)
        ∧ completions.flatMap (·.read.bytes) = read.bytes := by
  rw [receive] at h
  rcases Outcome.bind_eq_ok.mp h with ⟨⟨state1, actions1⟩, hstep, h⟩
  have hread : (machine cls).step state { read } = .ok (state1, actions1) := hstep
  dsimp only at h
  split at h
  . rcases Outcome.bind_eq_ok.mp h with ⟨⟨state2, actions2⟩, hwrite, h⟩
    have hdone : (machine cls).step state1 {} = .ok (state2, actions2) := hwrite
    refine ⟨[{ read }, {}], ?_, by simp, by simp [Read.nothing]⟩
    rw [Machine.run_cons_of_step hread, Machine.run_singleton, hdone]
    exact h
  . refine ⟨[{ read }], ?_, by simp, by simp⟩
    rw [Machine.run_singleton, hread]
    exact h

/-- What the client sees is a run of callbacks without errors, with the same bytes. -/
theorem exists_run_of_reader {state state' : Connection σ × Shared ω} {reads : List Read}
    {actions : List Action} (h : (reader cls).run state reads = .ok (state', actions))
    : ∃ completions, (machine cls).run state completions = .ok (state', actions)
        ∧ (∀ completion ∈ completions, completion.error = false)
        ∧ completions.flatMap (·.read.bytes) = reads.flatMap Read.bytes := by
  induction reads generalizing state actions with
  | nil => exact ⟨[], h, by simp, rfl⟩
  | cons read reads ih =>
    rw [Machine.run] at h
    rcases Outcome.bind_eq_ok.mp h with ⟨⟨state1, actions1⟩, hreceive, h⟩
    rcases Outcome.bind_eq_ok.mp h with ⟨⟨state2, actions2⟩, hrun, h⟩
    simp only [Outcome.pure_eq_ok, Outcome.ok.injEq, Prod.mk.injEq] at h
    rcases h with ⟨rfl, rfl⟩
    rcases exists_run_of_receive cls hreceive with ⟨first, hfirst, herror, hbytes⟩
    rcases ih hrun with ⟨more, hmore, herror', hbytes'⟩
    refine ⟨first ++ more, Machine.run_append_of_run hfirst hmore, ?_, ?_⟩
    . intro completion hmem
      rcases List.mem_append.mp hmem with hmem | hmem
      . exact herror completion hmem
      . exact herror' completion hmem
    . rw [List.flatMap_append, hbytes, hbytes', List.flatMap_cons]

/-! ## One step -/

/-! What the completion of each operation runs, on a session that has not deleted itself. -/

section Step

variable (conn : Connection σ) (shared : Shared ω) (halive : conn.destroyed = false)

include halive

theorem step_of_pending (completion : Completion) {operation : Operation}
    (hpending : conn.pending = [operation])
    : step cls (conn, shared) completion
        =
      match operation with
      | .handshake => .ok ((conn.idle.handleHandshake completion.error, shared), [])
      | .read =>
        (conn.idle.fillData completion.read).handleRead cls shared completion.connected completion.error
          completion.read.bytes.length
      | .reread stale =>
        (conn.idle.fillData completion.read).handleReread cls shared completion.error stale
      | .finalRead =>
        (conn.idle.fillBuffer completion.read).handleFinalRead cls shared completion.connected
      | .write => conn.idle.handleWrite cls shared completion.connected completion.error
      | .shutdown => .ok ((conn.idle.delete, shared), []) := by
  rcases conn with ⟨parser, generator, request, data, buffer, beyond, own, pending, destroyed⟩
  simp only at halive hpending
  subst halive hpending
  cases operation <;> rfl

theorem step_read (x : Read) (hpending : conn.pending = [.read])
    : step cls (conn, shared) { read := x }
        =
      conn.requestParser.parseData {} (conn.idle.fillData x).dataMemory x.bytes.length >>=
        fun (result, requestParser, request) => readOn cls result x.bytes.length
          { conn.idle.fillData x with requestParser := id requestParser, request } shared := by
  rw [step_of_pending cls conn shared halive { read := x } hpending]
  rfl

theorem step_reread (y : Read) {stale : Nat} (hpending : conn.pending = [.reread stale])
    : step cls (conn, shared) { read := y }
        =
      conn.requestParser.parseData conn.request (conn.idle.fillData y).dataMemory stale >>=
        fun (result, requestParser, request) => readOn cls result stale
          { conn.idle.fillData y with requestParser := requestParser.reset, request } shared := by
  rw [step_of_pending cls conn shared halive { read := y } hpending]
  rfl

end Step

theorem index_ne_close {headers : OrdMap Bytes Bytes} {name : Bytes}
    (h : headers.find? name ≠ some (Bytes.lit "close"))
    : (headers.index name).1 ≠ Bytes.lit "close" := by
  simp only [OrdMap.index]
  cases hfind : headers.find? name with
  | none => decide
  | some value =>
    rintro rfl
    exact h hfind

theorem afterWrite_of_not_asksToClose {conn : Connection σ} (h : ¬conn.request.AsksToClose)
    : ∃ request, conn.afterWrite cls false = { conn with request }.await .read := by
  have hname : ∀ name ∈ [Bytes.lit "Connection", Bytes.lit "connection"],
      conn.request.headers.find? name ≠ some (Bytes.lit "close") :=
    fun name hname hclose => h ⟨name, hname, hclose⟩
  have hupper := hname (Bytes.lit "Connection") List.mem_cons_self
  have hlower : (conn.request.headers.index (Bytes.lit "Connection")).2.find? (Bytes.lit "connection")
      ≠ some (Bytes.lit "close") := by
    rw [OrdMap.index, OrdMap.find?_insert, if_neg (by decide)]
    exact hname _ (List.mem_cons_of_mem _ List.mem_cons_self)
  simp only [afterWrite, Bool.not_false, if_true]
  rw [if_neg (index_ne_close hupper), if_neg (index_ne_close hlower)]
  exact ⟨_, rfl⟩

structure Answered (request : WireRequest) (conn : Connection σ) (actions : List Action) : Prop where
  pending : conn.pending = [.write]
  alive : conn.destroyed = false
  fresh : conn.requestParser.Fresh
  received : conn.request = request.received
  handed : actions.filterMap handed? = [request.received]

variable (request : WireRequest)

theorem exists_respond (conn : Connection σ) (shared : Shared ω) (hpending : conn.pending = [])
    (halive : conn.destroyed = false) (hfresh : conn.requestParser.Fresh)
    (hreceived : conn.request = request.received)
    (hreturns : (cls.handleRequest conn.own shared request.received).Returns)
    : ∃ conn' shared' actions, conn.respond cls shared = .ok ((conn', shared'), actions)
        ∧ Answered request conn' actions := by
  rcases hreturns with ⟨⟨response, own, shared'⟩, hhandle⟩
  rw [← hreceived] at hhandle
  simp only [respond, hhandle, Outcome.ok_bind, Outcome.pure_eq_ok]
  refine ⟨_, _, _, rfl, ?_⟩
  constructor
  . simp [await, hpending]
  . exact halive
  . exact hfresh
  . exact hreceived
  . simp [handed?, hreceived]

variable {cls request}

theorem receive_of_answered {state : Connection σ × Shared ω} {conn : Connection σ} {shared : Shared ω}
    {read : Read} {actions : List Action}
    (hstep : step cls state { read } = .ok ((conn, shared), actions)) (h : Answered request conn actions)
    : ∃ state', receive cls state read = .ok (state', actions) ∧ state'.1.Ready := by
  have hopen : ¬conn.idle.request.AsksToClose := by
    rw [idle, h.received]
    exact request.not_asksToClose_received
  rcases afterWrite_of_not_asksToClose cls hopen with ⟨request', hwrite⟩
  have hdone : step cls (conn, shared) {}
      = .ok (({ conn with pending := [.read], request := request' }, shared), []) := by
    rw [step_of_pending cls conn shared h.alive {} h.pending]
    rw [(handleWrite_eq_ok cls).mpr ⟨rfl, rfl⟩, hwrite]
    rfl
  refine ⟨({ conn with pending := [.read], request := request' }, shared), ?_, rfl, h.alive, h.fresh⟩
  rw [receive, hstep, Outcome.ok_bind]
  dsimp only
  rw [if_pos h.pending, hdone]
  simp

/-! ## The body -/

variable {state : Connection σ × Shared ω} {x final : Read} {conn : Connection σ} {shared : Shared ω}
  {k : Nat}

theorem receive_good (hstep : step cls state { read := x } = conn.readOn cls .good k shared)
    (hpending : conn.pending = []) (halive : conn.destroyed = false)
    (hreceived : conn.request = request.received)
    (hreturns : (cls.handleRequest conn.own shared request.received).Returns)
    : ∃ state' actions, receive cls state x = .ok (state', actions)
        ∧ actions.filterMap handed? = [request.received] ∧ state'.1.Ready := by
  rcases exists_respond cls request { conn with requestParser := conn.requestParser.reset } shared
      hpending halive rfl hreceived hreturns
    with ⟨conn', shared', actions, hrespond, h⟩
  have hanswered : Answered request { conn' with data := .zeroed } actions :=
    ⟨h.pending, h.alive, h.fresh, h.received, h.handed⟩
  have hfinish : step cls state { read := x }
      = .ok (({ conn' with data := .zeroed }, shared'), actions) := by
    rw [hstep, readOn, if_neg (by decide), finishRead]
    simp only [hrespond, Outcome.ok_bind]
    rfl
  rcases receive_of_answered hfinish hanswered with ⟨state', hreceive, hready⟩
  exact ⟨state', actions, hreceive, h.handed, hready⟩

structure AwaitsBody (request : WireRequest) (conn waiting : Connection σ) : Prop where
  pending : waiting.pending = [.finalRead]
  alive : waiting.destroyed = false
  fresh : waiting.requestParser.Fresh
  received : { waiting.request with body := request.body } = request.received
  own : waiting.own = conn.own
  buffer : ∀ final, (waiting.fillBuffer final).bufferMemory = (conn.fillBuffer final).bufferMemory

theorem receive_missing (hstep : step cls state { read := x } = conn.readOn cls .missingData k shared)
    (hpending : conn.pending = []) (halive : conn.destroyed = false)
    (hleft : conn.request.leftByParseData request.body = request.received)
    : ∃ waiting, receive cls state x = .ok ((waiting, shared), []) ∧ AwaitsBody request conn waiting := by
  refine ⟨{ conn with
    requestParser := conn.requestParser.reset
    request := conn.request.touchContentLength
    pending := [.finalRead] }, ?_, rfl, halive, rfl, hleft, rfl, fun _ => rfl⟩
  rw [receive, hstep, readOn, if_neg (by decide), finishRead]
  simp only [request.getContentLength_of_leftByParseData hleft, Outcome.ok_bind, Outcome.pure_eq_ok, await,
    hpending]
  rfl

theorem handleFinalRead_of_respond {conn' : Connection σ} {shared' : Shared ω} {actions : List Action}
    (h : { conn with request := { conn.request with body := Bytes.cStr conn.bufferMemory } }.respond cls
      shared = .ok ((conn', shared'), actions))
    : conn.handleFinalRead cls shared true
        = .ok (({ conn' with data := .zeroed, buffer := .zeroed }, shared'), actions) := by
  rw [handleFinalRead, remoteEndpoint_true, Outcome.ok_bind]
  dsimp only
  rw [h]
  rfl

theorem receive_final (hpending : conn.pending = [.finalRead]) (halive : conn.destroyed = false)
    (hfresh : conn.requestParser.Fresh)
    (hbody : Bytes.cStr (conn.fillBuffer final).bufferMemory = request.body)
    (hreceived : { conn.request with body := request.body } = request.received)
    (hreturns : (cls.handleRequest conn.own shared request.received).Returns)
    : ∃ state' actions, receive cls (conn, shared) final = .ok (state', actions)
        ∧ actions.filterMap handed? = [request.received] ∧ state'.1.Ready := by
  rcases exists_respond cls request
      { conn.idle.fillBuffer final with request := { conn.request with body := request.body } }
      shared rfl halive hfresh hreceived hreturns
    with ⟨conn', shared', actions, hrespond, h⟩
  have hanswered : Answered request { conn' with data := .zeroed, buffer := .zeroed } actions :=
    ⟨h.pending, h.alive, h.fresh, h.received, h.handed⟩
  have hfinal : step cls (conn, shared) { read := final }
      = .ok (({ conn' with data := .zeroed, buffer := .zeroed }, shared'), actions) := by
    rw [← hbody] at hrespond
    rw [step_of_pending cls conn shared halive { read := final } hpending]
    exact handleFinalRead_of_respond hrespond
  rcases receive_of_answered hfinal hanswered with ⟨state', hreceive, hready⟩
  exact ⟨state', actions, hreceive, h.handed, hready⟩

theorem run_body {parser parser' : RequestParser} {request1 request2 : Request} {n : Nat} {chars : Int}
    {front inRead more : Bytes} {reads : List Read} (after : RequestParser → RequestParser)
    (hstep : step cls state { read := x }
      = parser.parseData request1 conn.dataMemory n >>= fun (result, requestParser, request) =>
          readOn cls result k { conn with requestParser := after requestParser, request } shared)
    (hparse : parser.parse request1 (conn.dataMemory.take n) = ⟨.good, more, parser', request2⟩)
    (hchars : parser'.nCharParsed = chars)
    (hleft : request2.leftByParseData request.body = request.received)
    (hfront : front <+: conn.dataMemory) (hnul : front.NoNul)
    (hbody : conn.BodyArrives request chars front inRead reads)
    (hpending : conn.pending = []) (halive : conn.destroyed = false)
    (hreturns : (cls.handleRequest conn.own shared request.received).Returns)
    : ∃ state' actions, (reader cls).run state (x :: reads) = .ok (state', actions)
        ∧ actions.filterMap handed? = [request.received] ∧ state'.1.Ready := by
  have hlength := request.getContentLength_of_leftByParseData hleft
  rcases hfront with ⟨mem, hmem⟩
  have hstr : Bytes.cStr conn.dataMemory = front ++ Bytes.cStr (conn.dataMemory.drop front.length) := by
    rw [← hmem, List.drop_left, Bytes.cStr_append_of_noNul hnul]
  -- the body is in the buffer behind the head, or a read of its own brings it
  match reads, hbody with
  | [], ⟨_, hwith⟩ =>
    have hsuffix : request.body <:+ Bytes.cStr conn.dataMemory := by
      rcases hwith with hempty | ⟨hsuffix, -⟩
      . rw [hempty]
        exact List.nil_suffix
      . rw [hstr]
        exact hsuffix.trans (List.suffix_append _ _)
    have hle := hsuffix.length_le
    have hdata := parseData_of_fits hparse hlength (by
      rcases hwith with hempty | ⟨-, hchars'⟩
      . simp [hempty]
      . rw [Bytes.strlen]
        rw [Bytes.strlen] at hchars'
        omega)
    rw [Int.toNat_natCast, Bytes.strlen, ← List.suffix_iff_eq_drop.mp hsuffix, hleft] at hdata
    rw [hdata, Outcome.ok_bind] at hstep
    rw [Machine.run_singleton]
    exact receive_good hstep hpending halive rfl hreturns
  | [final], ⟨_, _, hne, hmissing, hfill⟩ =>
    have hdata := parseData_of_missing hparse hlength
      (by exact_mod_cast List.length_pos_iff.mpr hne) (hchars.trans hmissing)
    rw [hdata, Outcome.ok_bind] at hstep
    rw [← Request.leftByParseData_touchContentLength] at hleft
    rcases receive_missing hstep hpending halive hleft with ⟨waiting, hreceive, hwaiting⟩
    have hfill' : Bytes.cStr (waiting.fillBuffer final).bufferMemory = request.body :=
      (congrArg Bytes.cStr (hwaiting.buffer final)).trans hfill
    have hown : waiting.own = conn.own := hwaiting.own
    rw [← hown] at hreturns
    rcases receive_final hwaiting.pending hwaiting.alive hwaiting.fresh hfill' hwaiting.received hreturns
      with ⟨state', actions, hreceive', hhanded, hready⟩
    refine ⟨state', actions, ?_, hhanded, hready⟩
    have hfirst : (reader cls).step state x = .ok ((waiting, shared), []) := hreceive
    have hlast : (reader cls).step (waiting, shared) final = .ok (state', actions) := hreceive'
    rw [Machine.run_cons_of_step hfirst, Machine.run_singleton, hlast]
    rfl

/-! ## One request -/

theorem prefix_dataMemory_fillData (conn : Connection σ) (x : Read)
    : x.bytes <+: (conn.fillData x).dataMemory := by
  simp only [dataMemory, fillData, Buffer.fill, List.append_assoc]
  exact List.prefix_append _ _

theorem leftOpen_fits {chars : Int} {x : Bytes} (h : conn.LeavesOpen chars x)
    : ∃ c, utility.getContentLength (RequestParser.parse {} {} x).request
          = .ok (c, (RequestParser.parse {} {} x).request.touchContentLength)
        ∧ (c = 0 ∨ 0 < c ∧ c ≤ Bytes.strlen conn.dataMemory ∧ chars ≠ Bytes.strlen conn.dataMemory) := by
  rcases h with hempty | ⟨c, hc, hfits⟩
  . exact ⟨0, utility.getContentLength_eq_ok.mpr ⟨rfl, .inl ⟨hempty, rfl⟩⟩, .inl rfl⟩
  . refine ⟨c, utility.getContentLength_eq_ok.mpr ⟨rfl, .inr ⟨?_, hc⟩⟩, hfits⟩
    intro hempty
    rw [hempty] at hc
    cases hc

structure AwaitsHead (conn : Connection σ) (x : Read) (body : Bytes) (waiting : Connection σ) : Prop where
  pending : waiting.pending = [.reread x.bytes.length]
  alive : waiting.destroyed = false
  parser : waiting.requestParser = (conn.requestParser.parse {} x.bytes).parser
  request : waiting.request = (conn.requestParser.parse {} x.bytes).request.leftByParseData body
  own : waiting.own = conn.own
  data : waiting.data = (conn.fillData x).data
  buffer : waiting.buffer = conn.buffer
  beyond : waiting.beyond = conn.beyond

theorem AwaitsHead.bodyArrives {waiting : Connection σ} {y : Read} {body front inRead : Bytes} {chars : Int}
    {reads : List Read} (h : AwaitsHead conn x body waiting)
    (hbody : ((conn.fillData x).fillData y).BodyArrives request chars front inRead reads)
    : (waiting.idle.fillData y).BodyArrives request chars front inRead reads := by
  have hdata : (waiting.idle.fillData y).dataMemory = ((conn.fillData x).fillData y).dataMemory := by
    simp only [dataMemory, fillData, idle, h.data, h.buffer, h.beyond]
  have hbuffer : ∀ final, ((waiting.idle.fillData y).fillBuffer final).bufferMemory
      = (((conn.fillData x).fillData y).fillBuffer final).bufferMemory := by
    intro final
    simp only [bufferMemory, fillBuffer, fillData, idle, h.buffer, h.beyond]
  match reads, hbody with
  | [], hbody => simpa only [BodyArrives, hdata] using hbody
  | [final], hbody => simpa only [BodyArrives, hdata, hbuffer] using hbody

theorem receive_open {tail : Bytes} (hready : conn.Ready) (hhead : request.head = x.bytes ++ tail)
    (htail : tail ≠ []) (hopen : (conn.fillData x).LeavesOpen (conn.charsAfter x.bytes.length) x.bytes)
    : ∃ body waiting, receive cls (conn, shared) x = .ok ((waiting, shared), [])
        ∧ AwaitsHead conn x body waiting := by
  rcases hready.fresh.parse_split request hhead htail [] [] with ⟨hresult, hchars, -⟩
  have hrest := parse_rest_of_indeterminate hresult
  have hrequest := (hready.fresh.parse_eq x.bytes).2.2
  rcases leftOpen_fits hopen with ⟨c, hlength, hfits⟩
  rw [← hrequest] at hlength
  rw [charsAfter, ← hchars] at hfits
  have hpre := List.prefix_iff_eq_take.mp (prefix_dataMemory_fillData conn x)
  have hparse : conn.requestParser.parse {} ((conn.fillData x).dataMemory.take x.bytes.length)
      = ⟨.indeterminate, [], (conn.requestParser.parse {} x.bytes).parser,
          (conn.requestParser.parse {} x.bytes).request⟩ := by
    rw [← hpre]
    rcases hparsed : conn.requestParser.parse {} x.bytes with ⟨result, rest, parser', request'⟩
    rw [hparsed] at hresult hrest
    simp only at hresult hrest
    rw [hresult, hrest]
  have hdata : ∃ body, conn.requestParser.parseData {} (conn.fillData x).dataMemory x.bytes.length
      = .ok (.indeterminate, (conn.requestParser.parse {} x.bytes).parser,
        (conn.requestParser.parse {} x.bytes).request.leftByParseData body) :=
    ⟨_, parseData_of_fits hparse hlength hfits⟩
  rcases hdata with ⟨body, hdata⟩
  have hstep := step_read cls conn shared hready.alive x hready.pending
  rw [show (conn.idle.fillData x).dataMemory = (conn.fillData x).dataMemory from rfl, hdata,
    Outcome.ok_bind] at hstep
  refine ⟨body, { conn.fillData x with
    requestParser := (conn.requestParser.parse {} x.bytes).parser
    request := (conn.requestParser.parse {} x.bytes).request.leftByParseData body
    pending := [.reread x.bytes.length] }, ?_, rfl, hready.alive, rfl, rfl, rfl, rfl, rfl, rfl⟩
  rw [receive, hstep]
  rfl

/--
A request that arrives as it may is handed over once, as it should be, and the session is ready for the next
one.
-/
theorem run_arrives {reads : List Read} (hready : conn.Ready) (h : conn.Arrives request reads)
    (hreturns : (cls.handleRequest conn.own shared request.received).Returns)
    : ∃ state' actions, (reader cls).run (conn, shared) reads = .ok (state', actions)
        ∧ actions.filterMap handed? = [request.received] ∧ state'.1.Ready := by
  cases h with
  | @whole x reads inRead hx hbody =>
    rcases hready.fresh.parse_head request inRead with ⟨parser', hparse, hchars⟩
    rw [← hx] at hparse
    have hpre := prefix_dataMemory_fillData conn x
    rw [List.prefix_iff_eq_take] at hpre
    rw [hpre] at hparse
    have hfront : request.head <+: (conn.fillData x).dataMemory :=
      (hx ▸ List.prefix_append request.head inRead : request.head <+: x.bytes).trans
        (prefix_dataMemory_fillData conn x)
    exact run_body id (step_read cls conn shared hready.alive x hready.pending) hparse hchars rfl hfront
      request.noNul_head hbody rfl hready.alive hreturns
  | @split x y reads tail inRead hhead htail hstale hopen hy hbody =>
    -- the head is not complete in the first read, so the callback blocks for another
    rcases receive_open hready hhead htail hopen with ⟨body, waiting, hreceive, hwaiting⟩
    -- the callback goes on with the number of bytes of the first read, which reach over the rest of the head
    have htailY : tail <+: y.bytes := hy ▸ List.prefix_append tail inRead
    have hfront : tail <+: (waiting.idle.fillData y).dataMemory :=
      htailY.trans (prefix_dataMemory_fillData waiting.idle y)
    have htake : (waiting.idle.fillData y).dataMemory.take x.bytes.length
        = tail ++ ((waiting.idle.fillData y).dataMemory.drop tail.length).take
          (x.bytes.length - tail.length) := by
      rcases hfront with ⟨mem, hmem⟩
      rw [← hmem, List.take_append, List.drop_left, List.take_of_length_le hstale]
    rcases (hready.fresh.parse_split request hhead htail body _).2.2 with ⟨parser', hparse, hchars⟩
    rw [← hwaiting.parser, ← hwaiting.request, ← htake] at hparse
    have hleft : (request.parsed.leftByParseData body).leftByParseData request.body = request.received :=
      Request.leftByParseData_leftByParseData _ _ _
    have hnul : tail.NoNul := (Bytes.noNul_append.mp (hhead ▸ request.noNul_head)).2
    have hbody' : (waiting.idle.fillData y).BodyArrives request (conn.charsAfter request.head.length) tail
        inRead reads := hwaiting.bodyArrives hbody
    have hreturns' : (cls.handleRequest (waiting.idle.fillData y).own shared request.received).Returns := by
      rw [show (waiting.idle.fillData y).own = conn.own from hwaiting.own]
      exact hreturns
    rcases run_body RequestParser.reset
      (step_reread cls waiting shared hwaiting.alive y hwaiting.pending) hparse hchars hleft hfront hnul
      hbody' rfl hwaiting.alive hreturns' with ⟨state', actions, hrun, hhanded, hready'⟩
    refine ⟨state', actions, ?_, hhanded, hready'⟩
    have hfirst : (reader cls).step (conn, shared) x = .ok ((waiting, shared), []) := hreceive
    rw [Machine.run_cons_of_step hfirst, hrun]
    rfl

end Connection

end Foxy
