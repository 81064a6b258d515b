import FoxyServer.RequestParser.NameCase
import FoxyServer.Session.Closing

/-!
This module contains what the letter case of header names decides: how much of a request is its body, and
whether the connection is closed after the response.
-/

namespace Foxy

open RequestParser

namespace Connection

variable {σ ω : Type} {cls : SessionClass σ ω}

/-- Once the two requests have been answered, any session of the class closes or keeps its connection alike. -/
def DecidesAlike (cls : SessionClass σ ω) (request request' : Request) : Prop :=
  ∀ conn : Connection σ, conn.pending = [] →
    (({ conn with request }.afterWrite cls false).Closing
      ↔ ({ conn with request := request' }.afterWrite cls false).Closing)

theorem decidesAlike_iff (hclose : EndsClosing cls.close) (data buffer : Buffer) (own : σ)
    (request request' : Request)
    : DecidesAlike cls request request' ↔ (request.AsksToClose ↔ request'.AsksToClose) := by
  constructor
  . intro h
    have hdecides := h { data, buffer, beyond := [], own, pending := [] } rfl
    rwa [closing_afterWrite_iff hclose, closing_afterWrite_iff hclose] at hdecides
    all_goals rfl
  . intro h conn hpending
    rw [closing_afterWrite_iff hclose, closing_afterWrite_iff hclose]
    . exact h
    . exact hpending
    . exact hpending

end Connection

open Connection

variable {ω : Type}

/--
Of the first `k` bytes of the two requests, `parseData` makes the same, and what it makes of them leads to the
same decision about the connection.
-/
structure TreatedAlike (handlers : Handlers ω) (n : Int) (s t : Bytes) (k : Nat) : Prop where
  parsed : resultAndBody n s k = resultAndBody n t k
  decided : ∀ {result parser request result' parser' request'},
    parseData { nCharParsed := n } {} s k = .ok (result, parser, request) →
    parseData { nCharParsed := n } {} t k = .ok (result', parser', request') →
    DecidesAlike (Session.cls handlers) request request'
      ∧ DecidesAlike (@HttpSession.cls ω) request request'

/-- The lines that are spelled exactly `Connection`, or those that are spelled `connection`, say to close. -/
def SaysClose (lines : List HeadLine) : Prop :=
  ∃ name ∈ [Bytes.lit "Connection", Bytes.lit "connection"], (lineValues name lines).flatten = Bytes.lit "close"

theorem asksToClose_parse_iff (n : Int) (text : Bytes)
    : (parse { nCharParsed := n } {} text).request.AsksToClose ↔ SaysClose (headerLines text) := by
  apply exists_congr
  intro name
  apply and_congr_right
  intro hname
  have hlength : ∀ name ∈ [Bytes.lit "Connection", Bytes.lit "connection"], name.length ≠ 1 := by decide
  rw [find?_headerLines n text (hlength name hname)]
  split_ifs with hempty
  . rw [hempty]
    exact iff_of_false (fun h => by cases h) (by decide)
  . rw [Option.some.injEq]

/--
The lines with the spellings that are looked up say the same: how much of the request is its body, and, if
`parseData` can work with that, whether to close the connection.
-/
structure SpelledAlike (n : Int) (s t : Bytes) (k : Nat) : Prop where
  body : BodyAlike n s t k
  close : ContentLengthFits (contentLengthOn (headerLines (s.take k)))
      (parse { nCharParsed := n } {} (s.take k)).parser.nCharParsed (Bytes.strlen s) →
    (SaysClose (headerLines (s.take k)) ↔ SaysClose (headerLines (t.take k)))

theorem asksToClose_of_parseData {n : Int} {data : Bytes} {k : Nat} {result : ResultType}
    {parser : RequestParser} {request : Request}
    (h : parseData { nCharParsed := n } {} data k = .ok (result, parser, request))
    : request.AsksToClose ↔ (parse { nCharParsed := n } {} (data.take k)).request.AsksToClose := by
  rw [parseData_eq_bodyCut] at h
  rcases Outcome.bind_eq_ok.mp h with ⟨cut, -, hout⟩
  cases cut with
  | none =>
    cases hout
    apply Request.asksToClose_touchContentLength
  | some c =>
    cases hout
    apply Request.asksToClose_leftByParseData

theorem parseData_returns_iff_cutFrom (n : Int) (data : Bytes) (k : Nat)
    : (parseData { nCharParsed := n } {} data k).Returns ↔ (cutFrom n data k).Returns := by
  rw [parseData_eq_bodyCut, Outcome.returns_bind, ← cutFrom]
  simp only [Outcome.returns_ok, and_true]
  rfl

theorem treatedAlike_iff (handlers : Handlers ω) {s t : Bytes} (h : Recased s t) (n : Int) (k : Nat)
    : TreatedAlike handlers n s t k ↔ SpelledAlike n s t k := by
  have hreturns := parseData_returns_iff { nCharParsed := n } {} s k
  rw [contentLengthStr_parse] at hreturns
  constructor
  . intro halike
    have hcut := (resultAndBody_eq_iff h n k).mp halike.parsed
    refine ⟨(cutAlike_iff h n k).mp hcut, fun hfits => ?_⟩
    have hfits := hreturns.mpr hfits
    have hfits' := (parseData_returns_iff_cutFrom n s k).mp hfits
    rw [hcut.length, ← parseData_returns_iff_cutFrom] at hfits'
    rcases hfits with ⟨⟨result, parser, request⟩, hdata⟩
    rcases hfits' with ⟨⟨result', parser', request'⟩, hdata'⟩
    have hdecides := (halike.decided hdata hdata').2
    rw [decidesAlike_iff endsClosing_delete .zeroed .zeroed [], asksToClose_of_parseData hdata,
      asksToClose_of_parseData hdata', asksToClose_parse_iff, asksToClose_parse_iff] at hdecides
    exact hdecides
  . intro halike
    refine ⟨(resultAndBody_eq_iff h n k).mpr ((cutAlike_iff h n k).mpr halike.body), ?_⟩
    intro result parser request result' parser' request' hdata hdata'
    have hasks := halike.close (hreturns.mp ⟨_, hdata⟩)
    rw [← asksToClose_parse_iff n, ← asksToClose_parse_iff n, ← asksToClose_of_parseData hdata,
      ← asksToClose_of_parseData hdata'] at hasks
    constructor
    . rw [decidesAlike_iff Session.endsClosing_closeSocket .zeroed .zeroed {}]
      exact hasks
    . rw [decidesAlike_iff endsClosing_delete .zeroed .zeroed []]
      exact hasks

/--
Requests that differ only in the letter case of their header names are treated alike exactly if their lines
with the spellings that are looked up say the same. The lines of a head that is accepted are those it is
written of.
-/
theorem recased_treatedAlike_iff
    : (∀ (handlers : Handlers ω) (n : Int) (s t : Bytes) (k : Nat), Recased s t →
          (TreatedAlike handlers n s t k ↔ SpelledAlike n s t k))
        ∧ ∀ (head : Head) (rest : Bytes) (k : Nat), head.render.length ≤ k →
          headerLines ((head.render ++ rest).take k) = head.lines := by
  refine ⟨fun handlers n s t k h => treatedAlike_iff handlers h n k, fun head rest k hk => ?_⟩
  rw [List.take_append, List.take_of_length_le hk]
  exact headerLines_head head _

theorem recased_one {first name name' value rest : Bytes} (hfirst : ¬Bytes.crlf <:+: first)
    (hname : ∀ b ∈ name, Grammar.TokenChar b) (hsame : name.map lowered = name'.map lowered)
    (hvalue : ¬Bytes.crlf <:+: value)
    : Recased (first ++ Bytes.crlf ++ (name ++ (Bytes.lit ":" ++ value ++ Bytes.crlf ++ rest)))
        (first ++ Bytes.crlf ++ (name' ++ (Bytes.lit ":" ++ value ++ Bytes.crlf ++ rest))) :=
  .request hfirst (.header hname hsame hvalue (.same rest))

def upperHost : Head :=
  .root [.header (Bytes.lit "Host") (Bytes.lit "a")] (by decide +kernel) (by decide +kernel)

theorem recased_treatedAlike_host
    : (TreatedAlike refuseAll 0 (Bytes.lit "GET / HTTP/1.1\r\nHost: a\r\n\r\n")
          (Bytes.lit "GET / HTTP/1.1\r\nhost: a\r\n\r\n") 27
        ↔ SpelledAlike 0 (Bytes.lit "GET / HTTP/1.1\r\nHost: a\r\n\r\n")
          (Bytes.lit "GET / HTTP/1.1\r\nhost: a\r\n\r\n") 27)
        ∧ headerLines ((upperHost.render ++ []).take 27) = upperHost.lines := by
  constructor
  . apply recased_treatedAlike_iff.1
    exact @recased_one (Bytes.lit "GET / HTTP/1.1") (Bytes.lit "Host") (Bytes.lit "host") (Bytes.lit " a")
      Bytes.crlf (by decide) (by decide +kernel) (by decide) (by decide)
  . exact (@recased_treatedAlike_iff Unit).2 upperHost [] 27 (by decide)

/-- A client that spells the content length in lower case loses its body. -/
theorem recased_not_treatedAlike
    : ¬∀ (handlers : Handlers Unit) (n : Int) (s t : Bytes) (k : Nat), Recased s t →
        TreatedAlike handlers n s t k := by
  intro h
  have hrecased := @recased_one (Bytes.lit "POST / HTTP/1.1") (Bytes.lit "Content-Length")
    (Bytes.lit "content-length") (Bytes.lit " 2") (Bytes.lit "\r\nab") (by decide) (by decide +kernel)
    (by decide) (by decide)
  have hparsed := (h refuseAll 0 _ _ 40 hrecased).parsed
  revert hparsed
  decide +kernel

end Foxy
