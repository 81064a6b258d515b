import FoxyServer.Library.Lines
import FoxyServer.RequestParser.ParseData

/-!
This module contains what no client can get into a request: a space in the uri, or a control byte in the
uri, a header name or a header value. It holds of everything that the parser has taken over at any time.
-/

namespace Foxy

open Grammar

def CtlFree (s : Bytes) : Prop :=
  ∀ b ∈ s, ¬Ctl b

instance (s : Bytes) : Decidable (CtlFree s) :=
  inferInstanceAs (Decidable (∀ b ∈ s, _))

theorem ctlFree_nil : CtlFree [] := by simp [CtlFree]

theorem ctlFree_append {s t : Bytes} : CtlFree (s ++ t) ↔ CtlFree s ∧ CtlFree t :=
  List.forall_mem_append

theorem ctlFree_concat {s : Bytes} {b : UInt8} (hs : CtlFree s) (hb : ¬Ctl b) : CtlFree (s ++ [b]) :=
  ctlFree_append.mpr ⟨hs, by simpa [CtlFree] using hb⟩

theorem CtlFree.oneLine {s : Bytes} (h : CtlFree s) : s.OneLine := by
  intro b hb
  constructor <;> rintro rfl <;> exact h _ hb (by decide)

def CleanHeaders (headers : OrdMap Bytes Bytes) : Prop :=
  ∀ name value, headers.find? name = some value → CtlFree name ∧ CtlFree value

theorem CleanHeaders.alter {headers : OrdMap Bytes Bytes} (h : CleanHeaders headers) {name : Bytes}
    (hname : CtlFree name) {f : Option Bytes → Bytes}
    (hf : ∀ old, (∀ value, old = some value → CtlFree value) → CtlFree (f old))
    : CleanHeaders (headers.alter name f) := by
  intro name' value hfind
  rw [OrdMap.find?_alter] at hfind
  split at hfind
  next heq =>
    simp only [Option.some.injEq] at hfind
    rw [← heq, ← hfind]
    exact ⟨hname, hf _ fun value hvalue => (h name value hvalue).2⟩
  next => exact h name' value hfind

theorem CleanHeaders.insert {headers : OrdMap Bytes Bytes} (h : CleanHeaders headers) {name : Bytes}
    (hname : CtlFree name) : CleanHeaders (headers.insert name []) := by
  apply h.alter hname
  intro old hold
  cases old with
  | none => exact ctlFree_nil
  | some value => exact hold value rfl

namespace Request

structure Clean (request : Request) : Prop where
  uri : ∀ b ∈ request.uri, UriChar b
  headers : CleanHeaders request.headers

theorem clean_empty : ({} : Request).Clean where
  uri := by simp
  headers := by
    intro name value hfind
    cases hfind

theorem Clean.uriCtlFree {request : Request} (h : request.Clean) : CtlFree request.uri :=
  fun b hb => (h.uri b hb).2

end Request

namespace RequestParser

structure CleanState (parser : RequestParser) (request : Request) : Prop where
  headerHelper : CtlFree parser.headerHelper
  request : request.Clean

theorem not_ctl_of_tokenChar {b : UInt8} (h : TokenChar b) : ¬Ctl b :=
  h.2.1

theorem CleanState.consume {parser : RequestParser} {req : Request} (h : CleanState parser req)
    (b : UInt8) : CleanState (parser.consume req b).2.1 (parser.consume req b).2.2 := by
  rcases parser with ⟨state, methodHelper, headerHelper, n⟩
  rcases h with ⟨hheader, hreq⟩
  simp only at hheader
  cases state with
  | uri =>
    simp only [RequestParser.consume, isCtl_charToInt]
    split_ifs with hspace hctl
    . exact ⟨hheader, hreq⟩
    . exact ⟨hheader, hreq⟩
    -- the byte goes to the uri, and is neither a blank nor a control byte
    . refine ⟨hheader, ?_, hreq.headers⟩
      intro b' hb'
      rcases List.mem_append.mp hb' with hb' | hb'
      . exact hreq.uri b' hb'
      . rw [List.mem_singleton.mp hb']
        exact ⟨hspace, hctl⟩
  | headerLineStart =>
    simp only [RequestParser.consume, notToken_charToInt]
    split_ifs with hcr hlws htoken
    . exact ⟨hheader, hreq⟩
    . exact ⟨hheader, hreq⟩
    . exact ⟨ctlFree_concat hheader (not_ctl_of_tokenChar htoken), hreq⟩
    . exact ⟨hheader, hreq⟩
  | headerLws =>
    simp only [RequestParser.consume, isCtl_charToInt]
    split_ifs with hcr hlws hctl
    . exact ⟨hheader, hreq⟩
    . exact ⟨hheader, hreq⟩
    . exact ⟨hheader, hreq⟩
    . exact ⟨ctlFree_concat hheader hctl, hreq⟩
  | headerName =>
    simp only [RequestParser.consume, notToken_charToInt]
    split_ifs with hcolon htoken
    . exact ⟨hheader, hreq⟩
    . exact ⟨ctlFree_concat hheader (not_ctl_of_tokenChar htoken), hreq⟩
    . exact ⟨hheader, hreq⟩
  -- the name is complete and its header is there from now on
  | spaceBeforeHeaderValue =>
    simp only [RequestParser.consume]
    split_ifs
    . exact ⟨hheader, hreq.uri, hreq.headers.insert hheader⟩
    . exact ⟨hheader, hreq⟩
  | headerValue =>
    simp only [RequestParser.consume, isCtl_charToInt]
    split_ifs with hcr hctl
    . exact ⟨ctlFree_nil, hreq⟩
    . exact ⟨hheader, hreq⟩
    . refine ⟨hheader, hreq.uri, hreq.headers.alter hheader ?_⟩
      intro old hold
      cases old with
      | none => exact ctlFree_concat ctlFree_nil hctl
      | some value => exact ctlFree_concat (hold value rfl) hctl
  | _ =>
    simp only [RequestParser.consume, RequestParser.consume.expect]
    split_ifs <;> exact ⟨hheader, hreq.uri, hreq.headers⟩

theorem CleanState.recount {parser : RequestParser} {req : Request} (n : Int) (h : CleanState parser req)
    : CleanState { parser with nCharParsed := n } req :=
  ⟨h.headerHelper, h.request⟩

theorem CleanState.parse {parser : RequestParser} {req : Request} (h : CleanState parser req)
    (s : Bytes) : CleanState (parser.parse req s).parser (parser.parse req s).request :=
  @parse_keeps CleanState (fun b h => h.consume b) (fun n h => h.recount n) parser req h s

theorem CleanState.reset {parser : RequestParser} {req : Request} (h : CleanState parser req)
    : CleanState parser.reset req :=
  ⟨ctlFree_nil, h.request⟩

theorem CleanState.touch {parser : RequestParser} {req : Request} (h : CleanState parser req)
    : CleanState parser req.touchContentLength :=
  ⟨h.headerHelper, h.request.uri, h.request.headers.insert (by decide +kernel)⟩

theorem CleanState.withBody {parser : RequestParser} {req : Request} (body : Bytes) (h : CleanState parser req)
    : CleanState parser { req with body } :=
  ⟨h.headerHelper, h.request.uri, h.request.headers⟩

theorem CleanState.parseData {parser parser' : RequestParser} {req req' : Request} {data : Bytes} {n : Nat}
    {result : ResultType} (h : CleanState parser req)
    (hdata : parser.parseData req data n = .ok (result, parser', req')) : CleanState parser' req' :=
  @parseData_keeps CleanState (fun b h => h.consume b) (fun n h => h.recount n) (fun h => h.touch)
    (fun body h => h.withBody body) _ _ _ _ _ _ _ h hdata

theorem clean_parse {parser : RequestParser} (hfresh : parser = {} ∨ ∃ old, parser = RequestParser.reset old)
    (s : Bytes) : (parser.parse {} s).request.Clean := by
  have hstate : CleanState parser {} := by
    rcases hfresh with rfl | ⟨old, rfl⟩ <;> exact ⟨ctlFree_nil, Request.clean_empty⟩
  exact (hstate.parse s).request

end RequestParser

end Foxy
