import FoxyServer.Session.Reception

/-!
This module contains what a session makes of requests that are sent back to back: those that arrive in reads
of their own are handed over in order, and a head that is cut before its middle is lost.
-/

namespace Foxy

structure Delivery where
  request : WireRequest
  reads : List Read

namespace Connection

variable {σ ω : Type}

theorem Arrives.flatten {conn : Connection σ} {request : WireRequest} {reads : List Read}
    (h : conn.Arrives request reads) : reads.flatMap Read.bytes = request.bytes := by
  have hbody {conn : Connection σ} {chars : Int} {front inRead : Bytes} {reads : List Read}
      (hbody : conn.BodyArrives request chars front inRead reads)
      : inRead ++ reads.flatMap Read.bytes = request.body := by
    match reads, hbody with
    | [], ⟨hinRead, _⟩ => simp [hinRead]
    | [final], ⟨hinRead, hfinal, _⟩ => simp [hinRead, hfinal]
  cases h with
  | whole inRead hx harrives =>
    rw [List.flatMap_cons, hx, List.append_assoc, hbody harrives, WireRequest.bytes]
  | split tail inRead hhead htail hstale hopen hy harrives =>
    rw [List.flatMap_cons, List.flatMap_cons, hy, List.append_assoc, hbody harrives, WireRequest.bytes, hhead,
      List.append_assoc]

theorem ready_started (data buffer : Buffer) (beyond : Bytes) (own : σ)
    : (started .read data buffer beyond own).Ready :=
  ⟨rfl, rfl, rfl⟩

variable (cls : SessionClass σ ω)

def handedOver (state : Connection σ × Shared ω) (reads : List Read) : Option (List Request) :=
  match (reader cls).run state reads with
  | .ok (_, actions) => some (actions.filterMap handed?)
  | _ => none

/-- The session hands over the requests, in order, each with its body, and nothing else. -/
def HandsOver (state : Connection σ × Shared ω) (requests : List WireRequest) (reads : List Read) : Prop :=
  handedOver cls state reads = some (requests.map WireRequest.received)
    ∧ ∀ earlier, earlier <+: reads → ∃ handed, handedOver cls state earlier = some handed
        ∧ handed <+: requests.map WireRequest.received

def Suits (state : Connection σ × Shared ω) (delivery : Delivery) : Prop :=
  state.1.Arrives delivery.request delivery.reads
    ∧ (cls.handleRequest state.1.own state.2 delivery.request.received).Returns

variable {cls}

theorem handsOver_of_meets {conn : Connection σ} {shared : Shared ω} (hready : conn.Ready)
    {deliveries : List Delivery}
    (hmeets : (reader cls).Meets Delivery.reads (Suits cls) (conn, shared) deliveries)
    : HandsOver cls (conn, shared) (deliveries.map Delivery.request) (deliveries.flatMap Delivery.reads) := by
  have hjob : ∀ (state : Connection σ × Shared ω) (delivery : Delivery), state.1.Ready →
      Suits cls state delivery → ∃ state' actions,
        (reader cls).run state delivery.reads = .ok (state', actions)
          ∧ actions.filterMap handed? = [delivery.request.received] ∧ state'.1.Ready :=
    fun state delivery hready hsuits => run_arrives hready hsuits.1 hsuits.2
  rcases Machine.run_jobs hjob hready hmeets with ⟨state', actions, hrun, hhanded, -⟩
  have hmap : actions.filterMap handed? = (deliveries.map Delivery.request).map WireRequest.received := by
    rw [hhanded, List.map_map]
    exact (List.map_eq_flatMap ..).symm
  constructor
  . rw [handedOver, hrun, ← hmap]
  . intro earlier hearlier
    rcases Machine.run_of_prefix hrun hearlier with ⟨state'', actions', hrun', hpre⟩
    refine ⟨actions'.filterMap handed?, by rw [handedOver, hrun'], ?_⟩
    rw [← hmap]
    exact hpre.filterMap handed?

end Connection

/-! ## Both classes -/

variable {ω : Type}

/--
A `Session` whose handshake has succeeded and an `HttpSession` that has been started hand over, in order and
each with its own body, all requests that arrive in reads of their own.
-/
theorem sessions_hand_over
    : (∀ (handlers : Handlers ω) (data buffer : Buffer) (beyond : Bytes)
          (generator : RequestHandlerGenerator) (shared : Shared ω) (deliveries : List Delivery),
        (Connection.reader (Session.cls handlers)).Meets Delivery.reads
          (Connection.Suits (Session.cls handlers))
          (Session.opened data buffer beyond generator, shared) deliveries →
        Connection.HandsOver (Session.cls handlers) (Session.opened data buffer beyond generator, shared)
          (deliveries.map Delivery.request) (deliveries.flatMap Delivery.reads))
      ∧ ∀ (data buffer : Buffer) (beyond hostname : Bytes) (shared : Shared ω)
          (deliveries : List Delivery),
        (Connection.reader HttpSession.cls).Meets Delivery.reads
          (fun state delivery => state.1.Arrives delivery.request delivery.reads)
          (HttpSession.start data buffer beyond hostname, shared) deliveries →
        Connection.HandsOver HttpSession.cls (HttpSession.start data buffer beyond hostname, shared)
          (deliveries.map Delivery.request) (deliveries.flatMap Delivery.reads) := by
  constructor
  . intro handlers data buffer beyond generator shared deliveries hmeets
    exact Connection.handsOver_of_meets (Connection.ready_started ..) hmeets
  . intro data buffer beyond hostname shared deliveries hmeets
    exact Connection.handsOver_of_meets (Connection.ready_started ..)
      (hmeets.mono fun state delivery harrives => ⟨harrives, Outcome.returns_ok _⟩)

def getRoot : WireRequest where
  head := Bytes.lit "GET / HTTP/1.1\r\n\r\n"
  body := []
  accepted := by decide +kernel
  framed := ⟨_, (utility.getContentLength_eq_ok (c := 0)).mpr ⟨rfl, .inl ⟨by decide +kernel, rfl⟩⟩⟩
  keptOpen := by decide +kernel

def postFox : WireRequest where
  head := Bytes.lit "POST /login HTTP/1.1\r\nContent-Length: 3\r\n\r\n"
  body := Bytes.lit "fox"
  accepted := by decide +kernel
  framed := ⟨_, (utility.getContentLength_eq_ok (c := 3)).mpr
    ⟨rfl, .inr ⟨by decide +kernel, by decide +kernel⟩⟩⟩
  keptOpen := by decide +kernel

def answerOk : Handlers Unit :=
  fun _ shared _ => .ok (ResponseGenerator.stockResponse .ok, shared)

def echoSession : Connection RequestHandlerGenerator × Shared Unit :=
  (Session.opened .zeroed .zeroed [] { map := OrdMap.empty.set (Bytes.lit "/") (some ⟨0, .echo⟩) },
    { world := () })

def redirectSession : Connection Bytes × Shared Unit :=
  (HttpSession.start .zeroed .zeroed [] (Bytes.lit "foxy"), { world := () })

theorem sessions_hand_over_get_post
    : Connection.HandsOver (Session.cls answerOk) echoSession [getRoot]
          [⟨Bytes.lit "GET / HTTP/", by decide⟩, ⟨Bytes.lit "1.1\r\n\r\n", by decide⟩]
        ∧ Connection.HandsOver HttpSession.cls redirectSession [postFox, getRoot]
          [⟨postFox.head, by decide⟩, ⟨postFox.body, by decide⟩, ⟨getRoot.head, by decide⟩] := by
  constructor
  . apply sessions_hand_over.1 answerOk _ _ _ _ _
      [⟨getRoot, [⟨Bytes.lit "GET / HTTP/", by decide⟩, ⟨Bytes.lit "1.1\r\n\r\n", by decide⟩]⟩]
    refine ⟨⟨?_, by decide +kernel⟩, fun _ _ _ => trivial⟩
    exact .split (Bytes.lit "1.1\r\n\r\n") [] (by decide +kernel) (by decide) (by decide)
      (.inl (by decide +kernel)) rfl ⟨rfl, .inl rfl⟩
  . apply sessions_hand_over.2 _ _ _ _ _
      [⟨postFox, [⟨postFox.head, by decide⟩, ⟨postFox.body, by decide⟩]⟩,
        ⟨getRoot, [⟨getRoot.head, by decide⟩]⟩]
    refine ⟨?_, fun _ _ _ => ⟨.whole [] (by decide) ⟨rfl, .inl rfl⟩, fun _ _ _ => trivial⟩⟩
    exact .whole [] (by decide) ⟨rfl, rfl, by decide, by decide +kernel, by decide +kernel⟩

/--
A head that is cut before its middle is not handed over by either class, although the client has sent all of
it; and of two requests that arrive in one read, the second is lost.
-/
theorem sessions_lose_requests
    : [Bytes.lit "GET / HT", Bytes.lit "TP/1.1\r\n\r\n"].flatten = getRoot.bytes
        ∧ ¬Connection.HandsOver (Session.cls answerOk) echoSession [getRoot]
            [⟨Bytes.lit "GET / HT", by decide⟩, ⟨Bytes.lit "TP/1.1\r\n\r\n", by decide⟩]
        ∧ ¬Connection.HandsOver HttpSession.cls redirectSession [getRoot]
            [⟨Bytes.lit "GET / HT", by decide⟩, ⟨Bytes.lit "TP/1.1\r\n\r\n", by decide⟩]
        ∧ ¬Connection.HandsOver (Session.cls answerOk) echoSession [getRoot, getRoot]
            [⟨getRoot.bytes ++ getRoot.bytes, by decide⟩] := by
  refine ⟨by decide, fun h => ?_, fun h => ?_, fun h => ?_⟩
  . exact absurd h.1 (by decide +kernel)
  . exact absurd h.1 (by decide +kernel)
  . exact absurd h.1 (by decide +kernel)

end Foxy
