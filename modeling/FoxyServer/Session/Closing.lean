import FoxyServer.Session.Callbacks
import FoxyServer.Session.Reception

/-!
This module contains what becomes of a connection after a response that says that it will be closed: whether
it is closed does not depend on the response, but on what the request has asked for.
-/

namespace Foxy

namespace Connection

variable {σ ω : Type}

/-! ## Sessions that come to nothing more -/

def Closing (conn : Connection σ) : Prop :=
  conn.pending = [] ∧ conn.destroyed = true ∨ conn.pending = [.shutdown]

instance (conn : Connection σ) : Decidable conn.Closing :=
  inferInstanceAs (Decidable (_ ∨ _))

theorem closing_delete {conn : Connection σ} (h : conn.pending = []) : conn.delete.Closing :=
  .inl ⟨h, rfl⟩

theorem not_closing_read {conn : Connection σ} (h : conn.pending = [.read]) : ¬conn.Closing := by
  unfold Closing
  rw [h]
  intro hclosing
  cases hclosing with
  | inl hclosed => cases hclosed.1
  | inr hshutdown => cases hshutdown

theorem step_closing {cls : SessionClass σ ω} {state state' : Connection σ × Shared ω}
    {completion : Completion} {actions : List Action} (h : state.1.Closing)
    (hstep : (machine cls).step state completion = .ok (state', actions))
    : state'.1.Closing ∧ actions = [] := by
  rcases state with ⟨conn, shared⟩
  cases h with
  | inl hclosed =>
    have hpending : conn.pending = [] := hclosed.1
    simp only [machine, step, hpending, Outcome.ok.injEq, Prod.mk.injEq] at hstep
    rw [← hstep.1, ← hstep.2]
    exact ⟨.inl hclosed, rfl⟩
  | inr hshutdown =>
    have hpending : conn.pending = [.shutdown] := hshutdown
    simp only [machine, step, hpending] at hstep
    split at hstep
    . cases hstep
    . simp only [Outcome.ok.injEq, Prod.mk.injEq] at hstep
      rw [← hstep.1, ← hstep.2]
      exact ⟨closing_delete rfl, rfl⟩

theorem run_closing {cls : SessionClass σ ω} {state state' : Connection σ × Shared ω}
    {completions : List Completion} {actions : List Action} (h : state.1.Closing)
    (hrun : (machine cls).run state completions = .ok (state', actions))
    : state'.1.Closing ∧ actions = [] := by
  have hkept := @Machine.run_invariant _ _ _ (machine cls) state state' completions actions
    (fun state done => state.1.Closing ∧ done = []) (fun _ _ => True)
    (fun h _ hstep => by
      have hclosing := step_closing h.1 hstep
      exact ⟨hclosing.1, by rw [h.2, hclosing.2, List.nil_append]⟩)
    [] ⟨h, rfl⟩ (Machine.meets_true state completions) hrun
  exact hkept

/-! ## The write under way -/

def ShowsWrite (conn : Connection σ) (done : List Action) : Prop :=
  conn.pending.head? = some .write →
    done.getLast? = some (.asyncWrite conn.request conn.responseGenerator)

theorem showsWrite_of_none {conn : Connection σ} {done : List Action} (h : conn.pending = [])
    : conn.ShowsWrite done := by
  intro hhead
  rw [h] at hhead
  cases hhead

theorem showsWrite_of_other {conn : Connection σ} {operation : Operation} {done : List Action}
    (h : conn.pending = [operation]) (hother : operation ≠ .write) : conn.ShowsWrite done := by
  intro hhead
  rw [h] at hhead
  exact absurd (Option.some.inj hhead) hother

theorem showsWrite_of_closing {conn : Connection σ} {done : List Action} (h : conn.Closing)
    : conn.ShowsWrite done := by
  cases h with
  | inl hclosed => exact showsWrite_of_none hclosed.1
  | inr hshutdown => exact showsWrite_of_other hshutdown Operation.noConfusion

variable {cls : SessionClass σ ω} {conn : Connection σ} {shared : Shared ω}
  {out : (Connection σ × Shared ω) × List Action}

theorem respond_showsWrite (h : conn.respond cls shared = .ok out) : out.1.1.ShowsWrite out.2 := by
  rcases respond_eq_ok cls h with ⟨response, own, shared', -, hout⟩
  rw [hout]
  intro _
  rfl

theorem finishRead_showsWrite {result : RequestParser.ResultType} (hpending : conn.pending = [])
    (h : conn.finishRead cls result shared = .ok out) : out.1.1.ShowsWrite out.2 := by
  cases result with
  | good =>
    rcases Outcome.bind_eq_ok.mp h with ⟨⟨⟨conn', shared'⟩, actions⟩, hrespond, h⟩
    have hshows : conn'.ShowsWrite actions := respond_showsWrite hrespond
    simp only [ne_eq, reduceCtorEq, not_false_eq_true, if_true, Outcome.pure_eq_ok, Outcome.ok.injEq] at h
    rw [← h]
    exact hshows
  | missingData =>
    rcases Outcome.bind_eq_ok.mp h with ⟨⟨c, request⟩, -, h⟩
    simp only [Outcome.pure_eq_ok, Outcome.ok.injEq] at h
    rw [← h]
    apply showsWrite_of_other
    . rw [await, hpending, List.nil_append]
    . exact Operation.noConfusion
  | bad =>
    simp only [finishRead, handleBadRequest, await, Outcome.ok_bind, ne_eq, reduceCtorEq,
      not_false_eq_true, if_true, Outcome.pure_eq_ok, Outcome.ok.injEq] at h
    rw [← h]
    intro _
    rfl
  | indeterminate =>
    simp only [finishRead, Outcome.ok_bind, ne_eq, reduceCtorEq, not_false_eq_true, if_true,
      Outcome.pure_eq_ok, Outcome.ok.injEq] at h
    rw [← h]
    exact showsWrite_of_none hpending

theorem readOn_showsWrite {result : RequestParser.ResultType} {k : Nat} (hpending : conn.pending = [])
    (h : conn.readOn cls result k shared = .ok out) : out.1.1.ShowsWrite out.2 := by
  unfold readOn at h
  split at h
  . simp only [Outcome.ok.injEq] at h
    rw [← h]
    apply showsWrite_of_other
    . rw [await, hpending, List.nil_append]
    . exact Operation.noConfusion
  . exact finishRead_showsWrite hpending h

def EndsClosing (close : Connection σ → Connection σ) : Prop :=
  ∀ conn : Connection σ, conn.pending = [] → (close conn).Closing

theorem afterWrite_showsWrite {error : Bool} {done : List Action} (hclose : EndsClosing cls.close)
    (habort : EndsClosing cls.abort) (hpending : conn.pending = [])
    : (conn.afterWrite cls error).ShowsWrite done := by
  unfold afterWrite
  split
  . dsimp only
    split_ifs
    . exact showsWrite_of_closing (hclose _ hpending)
    . exact showsWrite_of_closing (hclose _ hpending)
    . apply showsWrite_of_other
      . rw [await, hpending, List.nil_append]
      . exact Operation.noConfusion
  . exact showsWrite_of_closing (habort _ hpending)

theorem step_showsWrite {completion : Completion} {operation : Operation} (hclose : EndsClosing cls.close)
    (habort : EndsClosing cls.abort) (hpending : conn.pending = [operation])
    (h : step cls (conn, shared) completion = .ok out) : out.1.1.ShowsWrite out.2 := by
  -- nothing is under way besides the operation, so what is under way then has just been started
  have htail : conn.pending.tail = [] := by rw [hpending, List.tail_cons]
  cases step_cameTo h with
  | idle hnone => exact showsWrite_of_none hnone
  | parsed _ hrest hread => exact readOn_showsWrite (hrest.trans htail) hread
  | arrived _ hrespond =>
    have hshows := respond_showsWrite hrespond
    exact hshows
  | written _ hrest => exact afterWrite_showsWrite hclose habort (hrest.trans htail)
  | other _ hrest =>
    rcases hrest with hrest | hrest
    . exact showsWrite_of_none (hrest.trans htail)
    . rw [htail, List.nil_append] at hrest
      exact showsWrite_of_other hrest Operation.noConfusion

def Single (conn : Connection σ) : Prop :=
  conn.pending = []
    ∨ ∃ operation, conn.pending = [operation] ∧ (conn.destroyed = true → operation = .shutdown)

theorem single_of_alive {operation : Operation} (hpending : conn.pending = [operation])
    (halive : conn.destroyed = false) : conn.Single :=
  .inr ⟨operation, hpending, fun hdestroyed => by rw [halive] at hdestroyed; cases hdestroyed⟩

theorem single_of_closing (h : conn.Closing) : conn.Single := by
  cases h with
  | inl hclosed => exact .inl hclosed.1
  | inr hshutdown => exact .inr ⟨.shutdown, hshutdown, fun _ => rfl⟩

theorem step_single (hclose : EndsClosing cls.close) (habort : EndsClosing cls.abort)
    {state state' : Connection σ × Shared ω} {completion : Completion} {actions : List Action} (h : state.1.Single)
    (hstep : (machine cls).step state completion = .ok (state', actions)) : state'.1.Single := by
  rcases state with ⟨conn, shared⟩
  rcases h with hnone | ⟨operation, hpending, -⟩
  . have hpending : conn.pending = [] := hnone
    simp only [machine, step, hpending, Outcome.ok.injEq, Prod.mk.injEq] at hstep
    rw [← hstep.1]
    exact .inl hpending
  . cases (step_ended kept_true hpending trivial hstep).2 with
    | scheduled next hpending halive _ => exact single_of_alive hpending halive
    | deleted hpending _ _ => exact .inl hpending
    | abandoned _ _ _ hpending _ _ => exact .inl hpending
    | answered _ hpending halive _ => exact single_of_alive hpending halive
    | refused hpending halive _ => exact single_of_alive hpending halive
    | closed _ hpending _ _ => exact single_of_closing (hclose _ hpending)
    | aborted _ _ hpending _ _ => exact single_of_closing (habort _ hpending)

structure Writing (conn : Connection σ) (done : List Action) : Prop where
  single : conn.Single
  shows : conn.ShowsWrite done

theorem step_writing (hclose : EndsClosing cls.close) (habort : EndsClosing cls.abort)
    {state state' : Connection σ × Shared ω} {completion : Completion} {done actions : List Action}
    (h : Writing state.1 done) (hstep : (machine cls).step state completion = .ok (state', actions))
    : Writing state'.1 (done ++ actions) := by
  refine ⟨step_single hclose habort h.single hstep, ?_⟩
  rcases state with ⟨conn, shared⟩
  rcases h.single with hnone | ⟨operation, hpending, -⟩
  . have hpending : conn.pending = [] := hnone
    simp only [machine, step, hpending, Outcome.ok.injEq, Prod.mk.injEq] at hstep
    rw [← hstep.1]
    exact showsWrite_of_none hpending
  . intro hwrites
    have hlast := step_showsWrite hclose habort hpending hstep hwrites
    rw [List.getLast?_append, hlast]
    rfl

theorem run_writing (hclose : EndsClosing cls.close) (habort : EndsClosing cls.abort)
    {state state' : Connection σ × Shared ω} {completions : List Completion} {done actions : List Action}
    (h : Writing state.1 done) (hrun : (machine cls).run state completions = .ok (state', actions))
    : Writing state'.1 (done ++ actions) :=
  Machine.run_invariant (I := fun state done => Writing state.1 done) (R := fun _ _ => True)
    (fun h _ hstep => step_writing hclose habort h hstep) h (Machine.meets_true state completions) hrun

/-! ## Responses that announce the end -/

def AnnouncesClose (response : Response) : Prop :=
  response.headers.find? (Bytes.lit "Connection") = some (Bytes.lit "close")

structure Written (state : Connection σ × Shared ω) (done : List Action) (completion : Completion)
    (request : Request) (response : Response) : Prop where
  writes : state.1.pending.head? = some .write
  succeeds : completion.error = false
  last : done.getLast? = some (.asyncWrite request response)

/--
In every run that begins so, once a response that announces it has been written, the callback of the write
returns, and the session closes the connection and takes and answers no other request.
-/
def ClosesAsSaid (cls : SessionClass σ ω) (start : Connection σ × Shared ω) (completions : List Completion)
    : Prop :=
  ∀ before written after state done request response state' more, before ++ written :: after <+: completions
    → (machine cls).run start before = .ok (state, done) → Written state done written request response
    → AnnouncesClose response → ((machine cls).step state written).Returns
      ∧ ((machine cls).run state (written :: after) = .ok (state', more) → state'.1.Closing ∧ more = [])

/--
Every request that is answered so asks itself to close the connection, which has not been reset in the
meantime.
-/
def AsksAsSaid (cls : SessionClass σ ω) (start : Connection σ × Shared ω) (completions : List Completion)
    : Prop :=
  ∀ before written after state done request response, before ++ written :: after <+: completions
    → (machine cls).run start before = .ok (state, done) → Written state done written request response
    → AnnouncesClose response → request.AsksToClose ∧ written.connected = true

theorem index_eq_close {headers : OrdMap Bytes Bytes} {name : Bytes}
    (h : headers.find? name = some (Bytes.lit "close")) : (headers.index name).1 = Bytes.lit "close" := by
  simp only [OrdMap.index, h, Option.getD_some]

theorem afterWrite_of_asksToClose (cls : SessionClass σ ω) (h : conn.request.AsksToClose)
    : ∃ request, conn.afterWrite cls false = cls.close { conn with request } := by
  simp only [afterWrite, Bool.not_false, if_true]
  split_ifs with hupper hlower
  . exact ⟨_, rfl⟩
  . exact ⟨_, rfl⟩
  . exfalso
    rcases h with ⟨name, hname, hclose⟩
    rcases List.mem_cons.mp hname with rfl | hname
    . exact hupper (index_eq_close hclose)
    . rw [List.mem_singleton.mp hname] at hclose
      apply hlower
      apply index_eq_close
      rwa [OrdMap.index, OrdMap.find?_insert, if_neg (by decide)]

theorem closing_afterWrite_iff (hclose : EndsClosing cls.close) (hpending : conn.pending = [])
    : (conn.afterWrite cls false).Closing ↔ conn.request.AsksToClose := by
  constructor
  . intro hclosing
    by_contra hasks
    rcases afterWrite_of_not_asksToClose cls hasks with ⟨request, hread⟩
    rw [hread] at hclosing
    refine not_closing_read ?_ hclosing
    rw [await, hpending, List.nil_append]
  . intro hasks
    rcases afterWrite_of_asksToClose cls hasks with ⟨request, hends⟩
    rw [hends]
    exact hclose _ hpending

theorem step_written {state : Connection σ × Shared ω} {done : List Action} {completion : Completion}
    {request : Request} {response : Response} (h : Writing state.1 done)
    (hwritten : Written state done completion request response)
    : state.1.request = request ∧ (machine cls).step state completion
        = { state.1 with pending := [] }.handleWrite cls state.2 completion.connected false := by
  rcases state with ⟨conn, shared⟩
  have hwrites : conn.pending.head? = some .write := hwritten.writes
  have hshows := h.shows hwrites
  rw [hwritten.last] at hshows
  simp only [Option.some.injEq, Action.asyncWrite.injEq] at hshows
  refine ⟨hshows.1.symm, ?_⟩
  cases h.single with
  | inl hnone =>
    have hpending : conn.pending = [] := hnone
    rw [hpending] at hwrites
    cases hwrites
  | inr hone =>
    rcases hone with ⟨operation, hpending, hdestroyed⟩
    have hpending : conn.pending = [operation] := hpending
    rw [hpending, List.head?_cons, Option.some.injEq] at hwrites
    rw [hwrites] at hpending hdestroyed
    have halive : ¬(conn.destroyed = true) := fun h => Operation.noConfusion (hdestroyed h)
    simp only [machine, step, hpending, hwritten.succeeds]
    rw [if_neg halive]

theorem closesAsSaid_iff (hclose : EndsClosing cls.close) (habort : EndsClosing cls.abort)
    {start : Connection σ × Shared ω} (hstart : Writing start.1 []) (completions : List Completion)
    : ClosesAsSaid cls start completions ↔ AsksAsSaid cls start completions := by
  constructor
  . intro h before written after state done request response hbegins hrun hwritten hannounces
    have hwriting : Writing state.1 done := run_writing hclose habort hstart hrun
    rcases @step_written _ _ cls _ _ _ _ _ hwriting hwritten with ⟨hrequest, hstep⟩
    have hfirst : before ++ [written] <+: completions :=
      ((List.prefix_append_right_inj before).mpr ⟨after, rfl⟩).trans hbegins
    have hcloses := h before written [] state done request response
    rcases (hcloses state [] hfirst hrun hwritten hannounces).1 with ⟨⟨state', more⟩, hreturns⟩
    have hclosing := ((hcloses state' more hfirst hrun hwritten hannounces).2
      (by rw [Machine.run_singleton, hreturns])).1
    rw [hstep] at hreturns
    rcases (handleWrite_eq_ok cls).mp hreturns with ⟨hconnected, hout⟩
    rw [← (Prod.mk.inj hout).1, closing_afterWrite_iff hclose rfl] at hclosing
    exact ⟨hrequest ▸ hclosing, hconnected⟩
  . intro h before written after state done request response state' more hbegins hrun hwritten hannounces
    rcases h before written after state done request response hbegins hrun hwritten hannounces
      with ⟨hasks, hconnected⟩
    have hwriting : Writing state.1 done := run_writing hclose habort hstart hrun
    rcases @step_written _ _ cls _ _ _ _ _ hwriting hwritten with ⟨hrequest, hstep⟩
    rw [hconnected] at hstep
    rw [← hrequest] at hasks
    have hclosing := (@closing_afterWrite_iff _ _ cls { state.1 with pending := [] } hclose rfl).mpr hasks
    have hreturns := hstep.trans ((handleWrite_eq_ok cls).mpr ⟨rfl, rfl⟩)
    refine ⟨⟨_, hreturns⟩, fun hafter => ?_⟩
    rw [Machine.run_cons_of_step hreturns] at hafter
    rcases Outcome.bind_eq_ok.mp hafter with ⟨⟨later, further⟩, hlater, hafter⟩
    have hended := run_closing hclosing hlater
    simp only [Outcome.ok.injEq, Prod.mk.injEq, List.nil_append] at hafter
    rw [← hafter.1, ← hafter.2]
    exact hended

theorem writing_started {operation : Operation} (hother : operation ≠ .write) (data buffer : Buffer)
    (beyond : Bytes) (own : σ) : Writing (started operation data buffer beyond own) [] where
  single := single_of_alive rfl rfl
  shows := showsWrite_of_other rfl hother

theorem endsClosing_delete : EndsClosing (delete (σ := σ)) := fun _ hpending => closing_delete hpending

end Connection

open Connection

variable {ω : Type}

theorem Session.endsClosing_closeSocket : EndsClosing Session.closeSocket := by
  intro conn hpending
  right
  rw [closeSocket, await, hpending, List.nil_append]

theorem Session.endsClosing_abort (handlers : Handlers ω) : EndsClosing (Session.cls handlers).abort := by
  intro conn hpending
  right
  simp only [cls, delete, closeSocket, await, hpending, List.nil_append]

theorem HttpSession.announcesClose_handleRequest (hostname : Bytes) {request : Request}
    (h : request.uri.head? = some '/'.toUInt8)
    : AnnouncesClose (HttpSession.handleRequest hostname request) := by
  unfold handleRequest
  rw [if_neg (not_not.mpr h), AnnouncesClose, OrdMap.find?_set, if_neg (by decide), OrdMap.find?_set,
    if_pos rfl]

theorem StaticRequestHandler.announcesClose_prepareRedirect (handler : StaticRequestHandler)
    : AnnouncesClose handler.prepareRedirect := by
  rw [AnnouncesClose, prepareRedirect, OrdMap.find?_set, if_neg (by decide), OrdMap.find?_set, if_pos rfl]

/--
The sessions of both classes close their connections as their responses say in exactly the runs in which
each request answered so asks for it and no write completes on a connection that has been reset.
-/
theorem sessions_close_iff
    : (∀ (handlers : Handlers ω) (data buffer : Buffer) (beyond : Bytes)
          (generator : RequestHandlerGenerator) (shared : Shared ω) (completions : List Completion),
        ClosesAsSaid (Session.cls handlers) (Session.start data buffer beyond generator, shared) completions
          ↔ AsksAsSaid (Session.cls handlers) (Session.start data buffer beyond generator, shared)
            completions)
        ∧ ∀ (data buffer : Buffer) (beyond hostname : Bytes) (shared : Shared ω)
            (completions : List Completion),
          ClosesAsSaid HttpSession.cls (HttpSession.start data buffer beyond hostname, shared) completions
            ↔ AsksAsSaid HttpSession.cls (HttpSession.start data buffer beyond hostname, shared)
              completions := by
  constructor
  . intro handlers data buffer beyond generator shared completions
    apply closesAsSaid_iff Session.endsClosing_closeSocket (Session.endsClosing_abort handlers)
    exact writing_started Operation.noConfusion ..
  . intro data buffer beyond hostname shared completions
    apply closesAsSaid_iff endsClosing_delete endsClosing_delete
    exact writing_started Operation.noConfusion ..

def HttpSession.rootRequest : Request where
  uri := Bytes.lit "/"
  httpVersion := Bytes.lit "1.1"
  headers := OrdMap.empty.insert (Bytes.lit "Content-Length") []

/-- A client that has been redirected to https goes on on the same connection. -/
theorem sessions_not_close
    : ¬∀ (data buffer : Buffer) (beyond hostname : Bytes) (shared : Shared Unit)
        (completions : List Completion),
      ClosesAsSaid HttpSession.cls (HttpSession.start data buffer beyond hostname, shared) completions := by
  intro h
  have hanswers : (HttpSession.machine.run (HttpSession.start .zeroed .zeroed [] [], { world := () })
      [{ read := ⟨Bytes.lit "GET / HTTP/1.1\r\n\r\n", by decide⟩ }]).Yields (fun out =>
        out.1.1.pending.head? = some .write
          ∧ out.2.getLast? = some (.asyncWrite HttpSession.rootRequest
            (HttpSession.handleRequest [] HttpSession.rootRequest))
          ∧ (HttpSession.machine.run out.1 [{}]).Yields (fun later => later.1.1.pending = [.read])) := by
    decide +kernel
  rcases hanswers with ⟨⟨state, done⟩, hrun, hwrites, hlast, ⟨state', more⟩, hlater, hread⟩
  have hclosing := h .zeroed .zeroed [] [] { world := () } _ _ {} [] state done HttpSession.rootRequest
    (HttpSession.handleRequest [] HttpSession.rootRequest) state' more (List.prefix_refl _) hrun
    ⟨hwrites, rfl, hlast⟩ (HttpSession.announcesClose_handleRequest [] rfl)
  exact not_closing_read hread (hclosing.2 hlater).1

end Foxy
