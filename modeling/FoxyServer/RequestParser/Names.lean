import FoxyServer.RequestParser.Clean
import FoxyServer.RequestParser.ReadBack

/-!
This module contains the header names that the parser makes up: a token, or the first byte behind the white
space of a line that begins with white space. A request with such a byte for a name is not read back.
-/

namespace Foxy

open Grammar

def TokenName (name : Bytes) : Prop :=
  name ≠ [] ∧ ∀ b ∈ name, TokenChar b

instance (name : Bytes) : Decidable (TokenName name) :=
  inferInstanceAs (Decidable (name ≠ [] ∧ ∀ b ∈ name, _))

def HeaderName (name : Bytes) : Prop :=
  TokenName name ∨ ∃ b, name = [b] ∧ ¬Lws b ∧ ¬Ctl b

def Request.Named (request : Request) : Prop :=
  ∀ name value, request.headers.find? name = some value → HeaderName name ∧ CtlFree value

theorem Request.Named.alter {request : Request} (h : request.Named) {name : Bytes} (hname : HeaderName name)
    {f : Option Bytes → Bytes} (hf : ∀ old, (∀ value, old = some value → CtlFree value) → CtlFree (f old))
    : Request.Named { request with headers := request.headers.alter name f } := by
  intro name' value hfind
  rw [OrdMap.find?_alter] at hfind
  split at hfind
  next heq =>
    rw [← heq, ← Option.some.inj hfind]
    exact ⟨hname, hf _ fun value hvalue => (h name value hvalue).2⟩
  next => exact h name' value hfind

theorem named_of_tokens {request : Request}
    (h : ∀ header ∈ request.headers.entries, TokenName header.1 ∧ CtlFree header.2) : request.Named := by
  intro name value hfind
  have hentry := h _ (OrdMap.find?_eq_some_iff.mp hfind)
  exact ⟨.inl hentry.1, hentry.2⟩

theorem tokenName_concat {name : Bytes} (hname : ∀ b ∈ name, TokenChar b) {b : UInt8} (hb : TokenChar b)
    : TokenName (name ++ [b]) := by
  constructor
  . simp
  . exact List.forall_mem_append.mpr ⟨hname, by simpa using hb⟩

namespace RequestParser

/-! ## The invariant -/

def HelperFits : State → Bytes → Prop
  | .headerName, helper => TokenName helper
  | .spaceBeforeHeaderValue, helper => TokenName helper
  | .headerValue, helper => HeaderName helper
  | _, helper => helper = []

structure NamedState (parser : RequestParser) (request : Request) : Prop where
  helper : HelperFits parser.state parser.headerHelper
  request : request.Named

theorem NamedState.consume {parser : RequestParser} {req : Request} (h : NamedState parser req) (b : UInt8)
    : NamedState (parser.consume req b).2.1 (parser.consume req b).2.2 := by
  rcases parser with ⟨state, methodHelper, headerHelper, n⟩
  rcases h with ⟨hhelper, hreq⟩
  cases state with
  | headerLineStart =>
    have hhelper : headerHelper = [] := hhelper
    subst hhelper
    simp only [RequestParser.consume, notToken_charToInt]
    split_ifs with hcr hlws htoken
    . exact ⟨rfl, hreq⟩
    . exact ⟨rfl, hreq⟩
    . exact ⟨tokenName_concat (by simp) htoken, hreq⟩
    . exact ⟨rfl, hreq⟩
  | headerLws =>
    have hhelper : headerHelper = [] := hhelper
    subst hhelper
    simp only [RequestParser.consume, isCtl_charToInt]
    split_ifs with hcr hlws hctl
    . exact ⟨rfl, hreq⟩
    . exact ⟨rfl, hreq⟩
    . exact ⟨rfl, hreq⟩
    -- the byte behind the white space becomes a name of its own
    . refine ⟨.inr ⟨b, rfl, ?_, hctl⟩, hreq⟩
      simpa [Lws] using hlws
  | headerName =>
    simp only [RequestParser.consume, notToken_charToInt]
    split_ifs with hcolon htoken
    . exact ⟨hhelper, hreq⟩
    . exact ⟨tokenName_concat hhelper.2 htoken, hreq⟩
    . exact ⟨hhelper, hreq⟩
  | spaceBeforeHeaderValue =>
    simp only [RequestParser.consume]
    split_ifs
    . refine ⟨.inl hhelper, hreq.alter (.inl hhelper) ?_⟩
      intro old hold
      cases old with
      | none => exact ctlFree_nil
      | some value => exact hold value rfl
    . exact ⟨hhelper, hreq⟩
  | headerValue =>
    simp only [RequestParser.consume, isCtl_charToInt]
    split_ifs with hcr hctl
    . exact ⟨rfl, hreq⟩
    . exact ⟨hhelper, hreq⟩
    . refine ⟨hhelper, hreq.alter hhelper ?_⟩
      intro old hold
      cases old with
      | none => exact ctlFree_concat ctlFree_nil hctl
      | some value => exact ctlFree_concat (hold value rfl) hctl
  | _ =>
    simp only [RequestParser.consume, RequestParser.consume.expect]
    split_ifs <;> exact ⟨hhelper, hreq⟩

theorem NamedState.recount {parser : RequestParser} {req : Request} (n : Int) (h : NamedState parser req)
    : NamedState { parser with nCharParsed := n } req :=
  ⟨h.helper, h.request⟩

theorem NamedState.reset {parser : RequestParser} {req : Request} (h : NamedState parser req)
    : NamedState parser.reset req :=
  ⟨rfl, h.request⟩

theorem named_empty : ({} : Request).Named :=
  fun _ _ hfind => by cases hfind

theorem NamedState.insert {parser : RequestParser} {req : Request} {name : Bytes} (hname : HeaderName name)
    (h : NamedState parser req) : NamedState parser { req with headers := req.headers.insert name [] } := by
  refine ⟨h.helper, h.request.alter hname ?_⟩
  intro old hold
  cases old with
  | none => exact ctlFree_nil
  | some value => exact hold value rfl

theorem NamedState.withBody {parser : RequestParser} {req : Request} (body : Bytes) (h : NamedState parser req)
    : NamedState parser { req with body } :=
  ⟨h.helper, h.request⟩

theorem NamedState.parseData {parser parser' : RequestParser} {req req' : Request} {data : Bytes} {n : Nat}
    {result : ResultType} (h : NamedState parser req)
    (hdata : parser.parseData req data n = .ok (result, parser', req')) : NamedState parser' req' :=
  @parseData_keeps NamedState (fun b h => h.consume b) (fun n h => h.recount n)
    (fun h => h.insert (.inl (by decide +kernel))) (fun body h => h.withBody body) _ _ _ _ _ _ _ h hdata

/-! ## Reading such headers back -/

theorem parse_headers_bad {headers : List (Bytes × Bytes)}
    (hheaders : ∀ header ∈ headers, HeaderName header.1 ∧ CtlFree header.2)
    (hnodup : (headers.map Prod.fst).Nodup) (hbad : ¬∀ header ∈ headers, TokenName header.1)
    (m : Bytes) {req : Request} (hnew : ∀ header ∈ headers, req.headers.find? header.1 = none) (n : Int)
    (t : Bytes)
    : (parse ⟨.headerLineStart, m, [], n⟩ req (Bytes.unlines (headers.map RawRequest.headerLine) ++ t)).result
        = .bad := by
  induction headers generalizing req n with
  | nil => exact absurd (by simp) hbad
  | cons header headers ih =>
    have hfirst := hheaders header List.mem_cons_self
    rw [List.map_cons, List.nodup_cons] at hnodup
    rw [List.map_cons, Bytes.unlines_cons, List.append_assoc]
    by_cases htoken : TokenName header.1
    . rcases reads_headerLine m 0 ⟨htoken.1, htoken.2, hfirst.2⟩ (hnew header List.mem_cons_self) n
        (Bytes.unlines (headers.map RawRequest.headerLine) ++ t) with ⟨n', hparse⟩
      rw [hparse]
      apply ih (fun other hother => hheaders other (List.mem_cons_of_mem _ hother)) hnodup.2
      . intro hall
        exact hbad (List.forall_mem_cons.mpr ⟨htoken, hall⟩)
      . intro other hother
        have hne : header.1 ≠ other.1 := by
          intro heq
          rw [heq] at hnodup
          exact hnodup.1 (List.mem_map_of_mem hother)
        rw [OrdMap.find?_set, if_neg hne]
        exact hnew other (List.mem_cons_of_mem _ hother)
    -- the first name that is no token is a single byte, which no header line begins with
    . rcases hfirst.1.resolve_left htoken with ⟨b, hname, hlws, hctl⟩
      have hnotToken : ¬TokenChar b := by
        intro hb
        apply htoken
        rw [hname]
        exact ⟨List.cons_ne_nil _ _, by simpa using hb⟩
      have hcr : b ≠ '\r'.toUInt8 := by
        rintro rfl
        exact hctl (by decide)
      have hspace : ¬(!req.headers.isEmpty && (b = ' '.toUInt8 || b = '\t'.toUInt8)) = true := by
        intro h
        simp only [Bool.and_eq_true, Bool.or_eq_true, decide_eq_true_eq] at h
        exact hlws h.2
      simp only [RawRequest.headerLine, hname, List.cons_append, parse, consume, notToken_charToInt,
        if_neg hcr, if_neg hspace, if_pos hnotToken, or_true, if_true]

theorem parse_render_good_iff {method : Request.MethodEnum} {uri version : Bytes}
    {headers : List (Bytes × Bytes)} (huri : ∀ b ∈ uri, UriChar b) (hversion : IsVersion version)
    (hheaders : ∀ header ∈ headers, HeaderName header.1 ∧ CtlFree header.2)
    (hnodup : (headers.map Prod.fst).Nodup) (body : Bytes)
    : (parse {} {} (RawRequest.render method uri version headers body)).result = .good
        ↔
      ∀ header ∈ headers, TokenName header.1 := by
  constructor
  . intro hgood
    by_contra hbad
    rcases (@reads_requestLine method _ _ huri hversion) 0
      (Bytes.unlines (headers.map RawRequest.headerLine) ++ (Bytes.crlf ++ body)) with ⟨n, hparse⟩
    have hresult := @parse_headers_bad headers hheaders hnodup hbad method.toBytes
      { method, uri, httpVersion := version } (fun _ _ => rfl) n (Bytes.crlf ++ body)
    rw [← hparse] at hresult
    have htext : RawRequest.render method uri version headers body
        = RawRequest.requestLine method uri version ++ Bytes.crlf
          ++ (Bytes.unlines (headers.map RawRequest.headerLine) ++ (Bytes.crlf ++ body)) := by
      rw [RawRequest.render, RawRequest.lines, Bytes.unlines_cons]
      simp only [List.append_assoc]
    rw [htext] at hgood
    exact absurd (hgood.symm.trans hresult) (by decide)
  . intro hall
    rcases @parse_render method _ _ _ huri hversion
      (fun header hheader => ⟨(hall header hheader).1, (hall header hheader).2, (hheaders header hheader).2⟩)
      hnodup body with ⟨parser', hparse⟩
    rw [hparse]

end RequestParser

end Foxy
