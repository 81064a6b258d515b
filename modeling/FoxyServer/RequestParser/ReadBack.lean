import FoxyServer.Http.RawRequest
import FoxyServer.RequestParser.Resume

/-!
This module contains how the parser reads a request back that has been written out as text: one piece after
another, each from the state that the piece before has led to.
-/

namespace Foxy

open Grammar

namespace RequestParser

/-! ## Pieces -/

def Reads (parser : RequestParser) (req : Request) (s : Bytes) (parser' : RequestParser) (req' : Request)
    : Prop :=
  ∀ n t, ∃ n', parse { parser with nCharParsed := n } req (s ++ t)
    = parse { parser' with nCharParsed := n' } req' t

variable {parser parser1 parser' : RequestParser} {req req1 req' : Request} {s t : Bytes}

theorem Reads.nil (parser : RequestParser) (req : Request) : Reads parser req [] parser req :=
  fun n _ => ⟨n, rfl⟩

theorem Reads.append (h : Reads parser req s parser1 req1) (h' : Reads parser1 req1 t parser' req')
    : Reads parser req (s ++ t) parser' req' := by
  intro n t'
  rcases h n (t ++ t') with ⟨n1, hfirst⟩
  rcases h' n1 t' with ⟨n', hsecond⟩
  exact ⟨n', by rw [List.append_assoc, hfirst, hsecond]⟩

theorem Reads.cons {b : UInt8} (hconsume : parser.consume req b = (.indeterminate, parser1, req1))
    (h : Reads parser1 req1 s parser' req') : Reads parser req (b :: s) parser' req' := by
  intro n t
  rw [List.cons_append, parse, consume_withCount, hconsume]
  exact h _ t

theorem Reads.single {b : UInt8} (hconsume : parser.consume req b = (.indeterminate, parser', req'))
    : Reads parser req [b] parser' req' :=
  .cons hconsume (.nil parser' req')

theorem Reads.run {p : UInt8 → Prop} (state : Bytes → RequestParser × Request)
    (hstep : ∀ w b, p b →
      (state w).1.consume (state w).2 b = (.indeterminate, (state (w ++ [b])).1, (state (w ++ [b])).2))
    {s : Bytes} (hs : ∀ b ∈ s, p b) (w : Bytes)
    : Reads (state w).1 (state w).2 s (state (w ++ s)).1 (state (w ++ s)).2 := by
  induction s generalizing w with
  | nil =>
    rw [List.append_nil]
    exact .nil _ _
  | cons b s ih =>
    have ih := ih (fun b hb => hs b (List.mem_cons_of_mem _ hb)) (w ++ [b])
    rw [List.append_assoc, List.singleton_append] at ih
    exact .cons (hstep w b (hs b List.mem_cons_self)) ih

/-! ## The request line -/

variable (m h : Bytes) (n : Int)

theorem reads_method (method : Request.MethodEnum) (req : Request)
    : Reads {} req (method.toBytes ++ Bytes.lit " ")
        ⟨.uri, method.toBytes, [], 0⟩ { req with method } := by
  cases method with
  | get => exact .cons rfl (.cons rfl (.cons rfl (.single rfl)))
  | post => exact .cons rfl (.cons rfl (.cons rfl (.cons rfl (.single rfl))))
  | put => exact .cons rfl (.cons rfl (.cons rfl (.single rfl)))
  | unknown =>
    exact .cons rfl (.cons rfl (.cons rfl (.cons rfl (.cons rfl (.cons rfl (.cons rfl (.single rfl)))))))

theorem reads_uri {uri : Bytes} (huri : ∀ b ∈ uri, UriChar b) (req : Request)
    : Reads ⟨.uri, m, h, n⟩ req (uri ++ Bytes.lit " ")
        ⟨.httpVersionH, m, h, n⟩ { req with uri := req.uri ++ uri } := by
  have hrun := Reads.run (fun w => (⟨.uri, m, h, n⟩, { req with uri := req.uri ++ w }))
    (fun w b (hb : UriChar b) => by
      simp only [consume, isCtl_charToInt, if_neg hb.1, if_neg hb.2, List.append_assoc])
    huri []
  rw [List.append_nil] at hrun
  exact hrun.append (.single rfl)

theorem reads_http (req : Request)
    : Reads ⟨.httpVersionH, m, h, n⟩ req (Bytes.lit "HTTP" ++ Bytes.lit "/")
        ⟨.httpVersionMajorStart, m, h, n⟩ { req with httpVersion := [] } :=
  .cons rfl (.cons rfl (.cons rfl (.cons rfl (.single rfl))))

theorem not_dot_of_digit {b : UInt8} (hb : Digit b) : b ≠ '.'.toUInt8 := by
  rintro rfl
  exact absurd hb (by decide)

theorem not_cr_of_digit {b : UInt8} (hb : Digit b) : b ≠ '\r'.toUInt8 := by
  rintro rfl
  exact absurd hb (by decide)

def IsVersion (version : Bytes) : Prop :=
  ∃ major minor, version = major ++ Bytes.lit "." ++ minor ∧ major ≠ [] ∧ minor ≠ []
    ∧ (∀ b ∈ major, Digit b) ∧ ∀ b ∈ minor, Digit b

theorem isVersion_one {minor : UInt8} (hminor : Digit minor) : IsVersion (Bytes.lit "1." ++ [minor]) :=
  ⟨Bytes.lit "1", [minor], rfl, by decide, List.cons_ne_nil _ _, by decide +kernel, by simpa using hminor⟩

theorem reads_major {major : Bytes} (hne : major ≠ []) (hmajor : ∀ b ∈ major, Digit b) (req : Request)
    : Reads ⟨.httpVersionMajorStart, m, h, n⟩ req (major ++ Bytes.lit ".")
        ⟨.httpVersionMinorStart, m, h, n⟩ { req with httpVersion := req.httpVersion ++ major ++ Bytes.lit "." } := by
  rcases List.exists_cons_of_ne_nil hne with ⟨b, rest, rfl⟩
  have hrun := Reads.run (fun w => (⟨.httpVersionMajor, m, h, n⟩, { req with httpVersion := req.httpVersion ++ w }))
    (fun w b (hb : Digit b) => by
      simp only [consume, isDigit_charToInt, if_neg (not_dot_of_digit hb), if_pos hb, List.append_assoc])
    (fun b hb => hmajor b (List.mem_cons_of_mem _ hb)) [b]
  refine Reads.cons ?_ (hrun.append (.single rfl))
  simp only [consume, isDigit_charToInt, if_pos (hmajor b List.mem_cons_self)]

theorem reads_minor {minor : Bytes} (hne : minor ≠ []) (hminor : ∀ b ∈ minor, Digit b) (req : Request)
    : Reads ⟨.httpVersionMinorStart, m, h, n⟩ req (minor ++ Bytes.crlf)
        ⟨.headerLineStart, m, h, n⟩ { req with httpVersion := req.httpVersion ++ minor } := by
  rcases List.exists_cons_of_ne_nil hne with ⟨b, rest, rfl⟩
  have hrun := Reads.run (fun w => (⟨.httpVersionMinor, m, h, n⟩, { req with httpVersion := req.httpVersion ++ w }))
    (fun w b (hb : Digit b) => by
      simp only [consume, isDigit_charToInt, if_neg (not_cr_of_digit hb), if_pos hb, List.append_assoc])
    (fun b hb => hminor b (List.mem_cons_of_mem _ hb)) [b]
  refine Reads.cons ?_ (hrun.append (.cons rfl (.single rfl)))
  simp only [consume, isDigit_charToInt, if_pos (hminor b List.mem_cons_self)]

theorem reads_requestLine {method : Request.MethodEnum} {uri version : Bytes}
    (huri : ∀ b ∈ uri, UriChar b) (hversion : IsVersion version)
    : Reads {} {} (RawRequest.requestLine method uri version ++ Bytes.crlf)
        ⟨.headerLineStart, method.toBytes, [], 0⟩ { method, uri, httpVersion := version } := by
  rcases hversion with ⟨major, minor, rfl, hmajor, hminor, hmajorDigits, hminorDigits⟩
  have hline := (((reads_method method {}).append (reads_uri _ _ _ huri _)).append (reads_http _ _ _ _)).append
    ((reads_major _ _ _ hmajor hmajorDigits _).append (reads_minor _ _ _ hminor hminorDigits _))
  have hspace : Bytes.lit " HTTP" = Bytes.lit " " ++ Bytes.lit "HTTP" := rfl
  rw [RawRequest.requestLine, hspace]
  simpa only [List.append_assoc, List.nil_append] using hline

/-! ## Header lines -/

structure PlainHeader (header : Bytes × Bytes) : Prop where
  name_ne_nil : header.1 ≠ []
  name : ∀ b ∈ header.1, TokenChar b
  value : ∀ b ∈ header.2, ValueChar b

instance (header : Bytes × Bytes) : Decidable (PlainHeader header) :=
  decidable_of_iff
    (header.1 ≠ [] ∧ header.1.all (fun b => decide (TokenChar b)) ∧ header.2.all (fun b => decide (ValueChar b)))
    (by
      simp only [List.all_eq_true, decide_eq_true_eq]
      exact ⟨fun h => ⟨h.1, h.2.1, h.2.2⟩, fun h => ⟨h.name_ne_nil, h.name, h.value⟩⟩)

theorem not_colon_of_tokenChar {b : UInt8} (hb : TokenChar b) : b ≠ ':'.toUInt8 := by
  rintro rfl
  exact absurd hb (by decide)

theorem not_cr_of_tokenChar {b : UInt8} (hb : TokenChar b) : b ≠ '\r'.toUInt8 := by
  rintro rfl
  exact absurd hb (by decide)

theorem not_cr_of_valueChar {b : UInt8} (hb : ValueChar b) : b ≠ '\r'.toUInt8 := by
  rintro rfl
  exact absurd hb (by decide)

theorem not_lws_of_tokenChar {b : UInt8} (hb : TokenChar b) : ¬Lws b :=
  fun hlws => not_tokenChar_of_lws hlws hb

theorem reads_nameChars {name : Bytes} (hne : name ≠ []) (hname : ∀ b ∈ name, TokenChar b) (req : Request)
    : Reads ⟨.headerLineStart, m, [], n⟩ req name ⟨.headerName, m, name, n⟩ req := by
  rcases List.exists_cons_of_ne_nil hne with ⟨b, rest, rfl⟩
  have hb := hname b List.mem_cons_self
  have hrun := Reads.run (fun w => (⟨.headerName, m, w, n⟩, req))
    (fun w b (hb : TokenChar b) => by
      simp only [consume, notToken_charToInt, if_neg (not_colon_of_tokenChar hb), if_neg (not_not.mpr hb)])
    (fun b hb => hname b (List.mem_cons_of_mem _ hb)) [b]
  have hlws : ¬(!req.headers.isEmpty && (b = ' '.toUInt8 || b = '\t'.toUInt8)) = true := by
    intro hlws
    simp only [Bool.and_eq_true, Bool.or_eq_true, decide_eq_true_eq] at hlws
    exact not_lws_of_tokenChar hb hlws.2
  refine Reads.cons ?_ hrun
  simp only [consume, notToken_charToInt, if_neg (not_cr_of_tokenChar hb), if_neg hlws,
    if_neg (not_not.mpr hb), List.nil_append]

theorem reads_name {name : Bytes} (hne : name ≠ []) (hname : ∀ b ∈ name, TokenChar b) (req : Request)
    : Reads ⟨.headerLineStart, m, [], n⟩ req (name ++ Bytes.lit ": ")
        ⟨.headerValue, m, name, n⟩ { req with headers := req.headers.insert name [] } :=
  (reads_nameChars m n hne hname req).append (.cons rfl (.single rfl))

theorem reads_value {name value : Bytes} (hvalue : ∀ b ∈ value, ValueChar b) {req : Request}
    (hnew : req.headers.find? name = none)
    : Reads ⟨.headerValue, m, name, n⟩ { req with headers := req.headers.insert name [] }
        (value ++ Bytes.crlf) ⟨.headerLineStart, m, [], n⟩
        { req with headers := req.headers.set name value } := by
  have hrun := Reads.run (fun w => (⟨.headerValue, m, name, n⟩, { req with headers := req.headers.set name w }))
    (fun w b (hb : ValueChar b) => by
      simp only [consume, isCtl_charToInt, if_neg (not_cr_of_valueChar hb), if_neg hb, OrdMap.alter_set,
        Option.getD_some])
    hvalue []
  rw [OrdMap.insert_eq_set hnew]
  exact hrun.append (.cons rfl (.single rfl))

theorem reads_headerLine {header : Bytes × Bytes} (hheader : PlainHeader header) {req : Request}
    (hnew : req.headers.find? header.1 = none)
    : Reads ⟨.headerLineStart, m, [], n⟩ req (RawRequest.headerLine header ++ Bytes.crlf)
        ⟨.headerLineStart, m, [], n⟩ { req with headers := req.headers.set header.1 header.2 } := by
  rw [RawRequest.headerLine, List.append_assoc]
  exact (reads_name m n hheader.name_ne_nil hheader.name req).append (reads_value m n hheader.value hnew)

theorem reads_headers {headers : List (Bytes × Bytes)} (hheaders : ∀ header ∈ headers, PlainHeader header)
    (hnodup : (headers.map Prod.fst).Nodup) {req : Request}
    (hnew : ∀ header ∈ headers, req.headers.find? header.1 = none)
    : Reads ⟨.headerLineStart, m, [], n⟩ req (Bytes.unlines (headers.map RawRequest.headerLine))
        ⟨.headerLineStart, m, [], n⟩ { req with headers := req.headers.setAll headers } := by
  induction headers generalizing req with
  | nil => exact .nil _ _
  | cons header headers ih =>
    rw [List.map_cons, List.nodup_cons] at hnodup
    refine (reads_headerLine m n (hheaders header List.mem_cons_self) (hnew header List.mem_cons_self)).append
      (ih (fun other hother => hheaders other (List.mem_cons_of_mem _ hother)) hnodup.2 ?_)
    intro other hother
    have hne : header.1 ≠ other.1 := by
      intro heq
      rw [heq] at hnodup
      exact hnodup.1 (List.mem_map_of_mem hother)
    rw [OrdMap.find?_set, if_neg hne]
    exact hnew other (List.mem_cons_of_mem _ hother)

/-! ## The whole text -/

/--
A text of plain parts is read back as it was written, up to the body, which is left.
-/
theorem parse_render {method : Request.MethodEnum} {uri version : Bytes} {headers : List (Bytes × Bytes)}
    (huri : ∀ b ∈ uri, UriChar b) (hversion : IsVersion version)
    (hheaders : ∀ header ∈ headers, PlainHeader header) (hnodup : (headers.map Prod.fst).Nodup)
    (body : Bytes)
    : ∃ parser', parse {} {} (RawRequest.render method uri version headers body)
        = ⟨.good, body, parser',
            { method, uri, httpVersion := version, headers := OrdMap.ofList headers }⟩ := by
  have hlines := (@reads_requestLine method _ _ huri hversion).append
    (reads_headers method.toBytes 0 hheaders hnodup (by simp))
  rcases hlines 0 (Bytes.crlf ++ body) with ⟨n, hparse⟩
  rw [RawRequest.render, RawRequest.lines, Bytes.unlines_cons, List.append_assoc]
  exact ⟨⟨.expectingNewline3, method.toBytes, [], intSucc (intSucc n)⟩, hparse⟩

end RequestParser

/-- A request of the kind that the parser makes of a head without continuation lines. -/
structure Request.Plain (request : Request) : Prop where
  uri : ∀ b ∈ request.uri, UriChar b
  httpVersion : RequestParser.IsVersion request.httpVersion
  headers : ∀ header ∈ request.headers.entries, RequestParser.PlainHeader header

end Foxy
