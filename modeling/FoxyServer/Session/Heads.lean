import FoxyServer.Handlers.Forwarding
import FoxyServer.Handlers.RedirectTargets
import FoxyServer.RequestParser.Names
import FoxyServer.Session.Callbacks
import FoxyServer.Session.Classes

/-!
This module contains the proof that what a client sends cannot end a line of what is sent on: neither in the
redirect that goes back to it, nor in the request that is forwarded.
-/

namespace Foxy

open Grammar RequestParser

/-! ## What is handed to the handlers -/

namespace Connection

variable {σ ω : Type}

theorem kept_cleanState : Kept CleanState where
  fresh := fun h => ⟨h.headerHelper, Request.clean_empty⟩
  reset := CleanState.reset
  parseData := CleanState.parseData
  body := CleanState.withBody
  header := by
    intro parser request name hname h
    have hfree : ∀ name ∈ [Bytes.lit "Content-Length", Bytes.lit "Connection", Bytes.lit "connection"],
        CtlFree name := by
      decide +kernel
    exact ⟨h.headerHelper, h.request.uri, h.request.headers.insert (hfree name hname)⟩

theorem kept_namedState : Kept NamedState where
  fresh := fun h => ⟨h.helper, named_empty⟩
  reset := NamedState.reset
  parseData := NamedState.parseData
  body := NamedState.withBody
  header := by
    intro parser request name hname h
    have htoken : ∀ name ∈ [Bytes.lit "Content-Length", Bytes.lit "Connection", Bytes.lit "connection"],
        TokenName name := by
      decide +kernel
    exact h.insert (.inl (htoken name hname))

structure LeavesRequest (cls : SessionClass σ ω) : Prop where
  close : ∀ conn : Connection σ, (cls.close conn).requestParser = conn.requestParser
    ∧ (cls.close conn).request = conn.request
  abort : ∀ conn : Connection σ, (cls.abort conn).requestParser = conn.requestParser
    ∧ (cls.abort conn).request = conn.request

def KeptRun (I : RequestParser → Request → Prop) (P : Request → Prop) (state : Connection σ × Shared ω)
    (actions : List Action) : Prop :=
  I state.1.requestParser state.1.request ∧ ∀ request, .handleRequest request ∈ actions → P request

variable {I : RequestParser → Request → Prop} {P : Request → Prop}

theorem keptRun_step (hI : Kept I) (hP : ∀ {parser request}, I parser request → P request)
    {cls : SessionClass σ ω} (hcls : LeavesRequest cls)
    {state state' : Connection σ × Shared ω} {completion : Completion} {done actions : List Action}
    (h : KeptRun I P state done) (hstep : (machine cls).step state completion = .ok (state', actions))
    : KeptRun I P state' (done ++ actions) := by
  rcases state with ⟨conn, shared⟩
  rcases h with ⟨hstate, hdone⟩
  cases hpending : conn.pending with
  | nil =>
    simp only [machine, step, hpending, Outcome.ok.injEq, Prod.mk.injEq] at hstep
    rw [← hstep.1, ← hstep.2, List.append_nil]
    exact ⟨hstate, hdone⟩
  | cons operation pending =>
    rcases step_ended hI hpending hstate hstep with ⟨-, hended⟩
    cases hended with
    | scheduled next hpending halive hkept => exact ⟨hkept, by simpa using hdone⟩
    | deleted hpending hdestroyed hkept => exact ⟨hkept, by simpa using hdone⟩
    | abandoned stale hoperation herror hpending halive hkept => exact ⟨hkept, by simpa using hdone⟩
    | answered hhandle hpending halive hkept =>
      refine ⟨hkept, fun request hrequest => ?_⟩
      rcases List.mem_append.mp hrequest with hrequest | hrequest
      . exact hdone request hrequest
      . simp only [List.mem_cons, Action.handleRequest.injEq, reduceCtorEq, List.not_mem_nil, or_false]
          at hrequest
        rw [hrequest]
        exact hP hkept
    | refused hpending halive hkept =>
      refine ⟨hkept, fun request hrequest => hdone request ?_⟩
      simpa using hrequest
    | @closed conn1 hoperation hpending halive hkept =>
      refine ⟨?_, by simpa using hdone⟩
      rw [(hcls.close conn1).1, (hcls.close conn1).2]
      exact hkept
    | @aborted conn1 hoperation herror hpending halive hkept =>
      refine ⟨?_, by simpa using hdone⟩
      rw [(hcls.abort conn1).1, (hcls.abort conn1).2]
      exact hkept

theorem handed_of_run (hI : Kept I) (hP : ∀ {parser request}, I parser request → P request) (hempty : I {} {})
    {cls : SessionClass σ ω} (hcls : LeavesRequest cls) {operation : Operation} {data buffer : Buffer}
    {beyond : Bytes} {own : σ} {shared : Shared ω} {completions : List Completion}
    {state : Connection σ × Shared ω} {actions : List Action}
    (hrun : (machine cls).run (started operation data buffer beyond own, shared) completions
      = .ok (state, actions))
    {request : Request} (hrequest : .handleRequest request ∈ actions) : P request := by
  have hstart : KeptRun I P (started operation data buffer beyond own, shared) [] := ⟨hempty, by simp⟩
  have h := Machine.run_invariant (fun h _ hstep => keptRun_step hI hP hcls h hstep) hstart
    (Machine.meets_true _ _) hrun
  exact h.2 request (by simpa using hrequest)

variable {cls : SessionClass σ ω} (hcls : LeavesRequest cls) {operation : Operation} {data buffer : Buffer}
  {beyond : Bytes} {own : σ} {shared : Shared ω} {completions : List Completion}
  {state : Connection σ × Shared ω} {actions : List Action}
  (hrun : (machine cls).run (started operation data buffer beyond own, shared) completions = .ok (state, actions))
  {request : Request} (hrequest : .handleRequest request ∈ actions)

include hcls hrun hrequest

theorem clean_of_run : request.Clean :=
  handed_of_run kept_cleanState (fun h => h.request) ⟨ctlFree_nil, Request.clean_empty⟩ hcls hrun hrequest

theorem named_of_run : request.Named :=
  handed_of_run kept_namedState (fun h => h.request) ⟨rfl, named_empty⟩ hcls hrun hrequest

end Connection

variable {ω : Type}

theorem Session.leavesRequest (handlers : Handlers ω) : Connection.LeavesRequest (Session.cls handlers) :=
  ⟨fun _ => ⟨rfl, rfl⟩, fun _ => ⟨rfl, rfl⟩⟩

theorem HttpSession.leavesRequest : Connection.LeavesRequest (HttpSession.cls (ω := ω)) :=
  ⟨fun _ => ⟨rfl, rfl⟩, fun _ => ⟨rfl, rfl⟩⟩

section

open ProxyRequestHandler

/--
Whatever request a session hands over, a redirect is followed to what its location names exactly if the location
is one that the proxy reads right, and the names of the headers that it forwards are tokens.
-/
theorem Session.sendsTo_of_run_iff (handlers : Handlers ω) {data buffer : Buffer} {beyond : Bytes}
    {generator : RequestHandlerGenerator} {shared : Shared ω} {completions : List Completion}
    {state : Connection RequestHandlerGenerator × Shared ω} {actions : List Action}
    (hrun : (Session.machine handlers).run (Session.start data buffer beyond generator, shared) completions
      = .ok (state, actions)) {request : Request} (hrequest : .handleRequest request ∈ actions)
    {handler : ProxyRequestHandler} {response : Response} (hbody : response.body = []) {exchange : Exchange}
    {reading : Reading} (hreading : exchange.reading = .ok reading)
    (hfollows : Follows request response reading) {place : Location}
    (hplace : location (passed response reading) = place.render)
    : (handler.exchangePass request response exchange).Yields (fun pass =>
          ∃ raw response', pass = .again (raw, response')
            ∧ SendsTo request place.target raw)
        ↔
      Reached place
        ∧ ∀ header ∈ forwardedHeaders request, TokenName header.1 := by
  have hnamed : request.Named := Connection.named_of_run (Session.leavesRequest handlers) hrun hrequest
  rw [exchangePass_follows hbody hreading hfollows, yields_again_iff, hplace]
  exact sendsTo_place_iff hnamed place

end

/-! ## What is sent on -/

def HttpSession.redirectLines (hostname uri : Bytes) : List Bytes :=
  [Bytes.lit "HTTP/1.0 302 Moved Temporarily", Bytes.lit "Connection: close",
    Bytes.lit "Content-Length: 0", Bytes.lit "Content-Type: text/plain",
    Bytes.lit "Location: https://" ++ hostname ++ uri]

theorem HttpSession.serialise_handleRequest {hostname : Bytes} {request : Request}
    (habsolute : request.uri.head? = some '/'.toUInt8)
    : ResponseGenerator.serialise (HttpSession.handleRequest hostname request)
        = Bytes.unlines (redirectLines hostname request.uri) ++ Bytes.crlf ++ [] := by
  rw [handleRequest, if_neg (not_not.mpr habsolute), ResponseGenerator.serialise_eq]
  rfl

theorem Request.Clean.redirect_splitsInto {request : Request} (h : request.Clean) {hostname : Bytes}
    (hhostname : hostname.OneLine) (habsolute : request.uri.head? = some '/'.toUInt8)
    : (ResponseGenerator.serialise (HttpSession.handleRequest hostname request)).SplitsInto
        (HttpSession.redirectLines hostname request.uri) [] := by
  rw [HttpSession.serialise_handleRequest habsolute]
  apply Bytes.splitsInto_unlines
  have hlocation : (Bytes.lit "Location: https://" ++ hostname ++ request.uri).OneLine := by
    simp only [Bytes.oneLine_append]
    exact ⟨⟨by decide +kernel, hhostname⟩, h.uriCtlFree.oneLine⟩
  intro line hline
  simp only [HttpSession.redirectLines, List.mem_cons, List.not_mem_nil, or_false] at hline
  rcases hline with rfl | rfl | rfl | rfl | rfl
  . decide +kernel
  . decide +kernel
  . decide +kernel
  . decide +kernel
  . exact ⟨by simp [Bytes.lit], hlocation⟩

theorem Request.Clean.forward_splitsInto {request : Request} (h : request.Clean)
    {handler : ProxyRequestHandler} {raw : Bytes} (hraw : handler.convertToRawbody request false = .ok raw)
    : raw.SplitsInto (RawRequest.lines request.method (handler.forwardedUri request.uri) (Bytes.lit "1.0")
        (ProxyRequestHandler.forwardedHeaders request)) request.body := by
  rw [(ProxyRequestHandler.convertToRawbody_eq_ok.mp hraw).2]
  apply RawRequest.render_splitsInto
  . have hcut : Bytes.OneLine (request.uri.drop (handler.path.length - 1)) :=
      fun b hb => h.uriCtlFree.oneLine b (List.mem_of_mem_drop hb)
    rw [ProxyRequestHandler.forwardedUri]
    split_ifs
    . exact Bytes.oneLine_append.mpr ⟨by decide +kernel, hcut⟩
    . exact hcut
  . decide +kernel
  . rintro ⟨name, value⟩ hheader
    rcases ProxyRequestHandler.mem_forwardedHeaders.mp hheader with heq | ⟨hentry, -, -⟩
    . simp only [Prod.mk.injEq] at heq
      rw [heq.1, heq.2]
      decide +kernel
    . have hclean := h.headers name value (OrdMap.find?_eq_some_iff.mpr hentry)
      exact ⟨hclean.1.oneLine, hclean.2.oneLine⟩

/--
Whatever a client sends and however far the parser gets with it, no control byte gets into the uri or into a
header, and no space into the uri; the same goes for every request that a session hands over in any run. So
a redirect has its status line, its four header lines and an empty line, and a request that is forwarded has
its request line, a line for each header and an empty line.
-/
theorem heads_not_split
    : (∀ parser : RequestParser, parser = {} ∨ (∃ old, parser = reset old) → ∀ s : Bytes,
          (parser.parse {} s).request.Clean)
        ∧ (∀ (handlers : Handlers ω) (data buffer : Buffer) (beyond : Bytes)
            (generator : RequestHandlerGenerator) (shared : Shared ω) (completions : List Completion)
            (state : Connection RequestHandlerGenerator × Shared ω) (actions : List Action),
          (Session.machine handlers).run (Session.start data buffer beyond generator, shared) completions
            = .ok (state, actions) →
          ∀ request, .handleRequest request ∈ actions → request.Clean)
        ∧ (∀ (data buffer : Buffer) (beyond hostname : Bytes) (shared : Shared ω)
            (completions : List Completion) (state : Connection Bytes × Shared ω) (actions : List Action),
          HttpSession.machine.run (HttpSession.start data buffer beyond hostname, shared) completions
            = .ok (state, actions) →
          ∀ request, .handleRequest request ∈ actions → request.Clean)
        ∧ ∀ request : Request, request.Clean →
          (∀ hostname : Bytes, hostname.OneLine → request.uri.head? = some '/'.toUInt8 →
              (ResponseGenerator.serialise (HttpSession.handleRequest hostname request)).SplitsInto
                (HttpSession.redirectLines hostname request.uri) [])
            ∧ ∀ (handler : ProxyRequestHandler) (raw : Bytes),
                handler.convertToRawbody request false = .ok raw →
                raw.SplitsInto (RawRequest.lines request.method (handler.forwardedUri request.uri)
                  (Bytes.lit "1.0") (ProxyRequestHandler.forwardedHeaders request)) request.body := by
  refine ⟨fun parser hfresh s => clean_parse hfresh s, ?_, ?_, ?_⟩
  . intro handlers data buffer beyond generator shared completions state actions hrun request hrequest
    exact Connection.clean_of_run (Session.leavesRequest handlers) hrun hrequest
  . intro data buffer beyond hostname shared completions state actions hrun request hrequest
    exact Connection.clean_of_run HttpSession.leavesRequest hrun hrequest
  . intro request hclean
    refine ⟨fun hostname hhostname habsolute => hclean.redirect_splitsInto hhostname habsolute, ?_⟩
    intro handler raw hraw
    exact hclean.forward_splitsInto hraw

theorem heads_not_split_get
    : (∃ state actions,
          HttpSession.machine.run (HttpSession.start .zeroed .zeroed [] (Bytes.lit "foxy"), { world := () })
              [{ read := ⟨Bytes.lit "GET /a HTTP/1.1\r\nA: b\r\n\r\n", by decide⟩ }] = .ok (state, actions)
            ∧ ∀ request, .handleRequest request ∈ actions → request.Clean)
        ∧ (ResponseGenerator.serialise (HttpSession.handleRequest (Bytes.lit "foxy")
            (RequestParser.parse {} {} (Bytes.lit "GET /a HTTP/1.1\r\nA: b\r\n\r\n")).request)).SplitsInto
              (HttpSession.redirectLines (Bytes.lit "foxy") (Bytes.lit "/a")) []
        ∧ (Bytes.lit "GET /a HTTP/1.0\r\nA: b\r\nConnection: close\r\n\r\n").SplitsInto
            [Bytes.lit "GET /a HTTP/1.0", Bytes.lit "A: b", Bytes.lit "Connection: close"] [] := by
  have hclean := (heads_not_split (ω := Unit)).1 {} (.inl rfl)
    (Bytes.lit "GET /a HTTP/1.1\r\nA: b\r\n\r\n")
  refine ⟨?_, ?_, ?_⟩
  . have hreturns : (HttpSession.machine.run
        (HttpSession.start .zeroed .zeroed [] (Bytes.lit "foxy"), ({ world := () } : Shared Unit))
        [{ read := ⟨Bytes.lit "GET /a HTTP/1.1\r\nA: b\r\n\r\n", by decide⟩ }]).Returns := by
      decide +kernel
    rcases hreturns with ⟨⟨state, actions⟩, hrun⟩
    exact ⟨state, actions, hrun, heads_not_split.2.2.1 _ _ _ _ _ _ _ _ hrun⟩
  . exact (heads_not_split (ω := Unit).2.2.2 _ hclean).1 _ (by decide +kernel) (by decide +kernel)
  . exact (heads_not_split (ω := Unit).2.2.2 _ hclean).2
      { root := Bytes.lit "host", path := Bytes.lit "/", port := 80 } _ (by decide +kernel)

end Foxy
