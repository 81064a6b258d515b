import FoxyServer.Handlers.HeaderLines
import FoxyServer.Handlers.Reading

/-!
This module contains what the proxy handler makes of an answer that a server of this kind has sent: a
response that was written out is read back, whatever pieces it arrives in.
-/

namespace Foxy

def statusString.number : Response.StatusCode → Nat
  | .ok => 200
  | .created => 201
  | .accepted => 202
  | .noContent => 204
  | .multipleChoices => 300
  | .movedPermanently => 301
  | .movedTemporarily => 302
  | .notModified => 304
  | .badRequest => 400
  | .unauthorized => 401
  | .forbidden => 403
  | .notFound => 404
  | .internalServerError => 500
  | .notImplemented => 501
  | .badGateway => 502
  | .serviceUnavailable => 503
  | .other _ => 500

namespace ProxyRequestHandler

/-! ## Header lines -/

theorem parseHeader_headerLine {header : Bytes × Bytes} (hname : ':'.toUInt8 ∉ header.1)
    (response : Response)
    : parseHeader (RawRequest.headerLine header ++ Bytes.lit "\r") response
        = .ok (some { response with headers := response.headers.set header.1 header.2 }) := by
  rcases header with ⟨name, value⟩
  have hline : RawRequest.headerLine (name, value) ++ Bytes.lit "\r" = receivedLine name (' '.toUInt8 :: value) := by
    simp [RawRequest.headerLine, receivedLine, Bytes.lit]
  rw [hline, parseHeader_receivedLine hname, if_neg (List.cons_ne_nil _ _), List.tail_cons]

theorem readHeadersFrom_line {s : Bytes} (hs : '\n'.toUInt8 ∉ s) (header : Bytes) (response : Response)
    (rest : Bytes)
    : readHeadersFrom header response (s ++ '\n'.toUInt8 :: rest)
        =
      if header ++ s = Bytes.lit "\r" then
        .ok (.read response rest)
      else
        readHeadersFrom.next (header ++ s) response (fun response => readHeadersFrom [] response rest) := by
  induction s generalizing header with
  | nil => rw [List.nil_append, readHeadersFrom, if_pos rfl, List.append_nil]
  | cons c s ih =>
    rw [List.mem_cons, not_or] at hs
    rw [List.cons_append, readHeadersFrom, if_neg (Ne.symm hs.1), ih hs.2, List.append_assoc,
      List.singleton_append]

theorem readHeaders_unlines {headers : List (Bytes × Bytes)}
    (hheaders : ∀ header ∈ headers, ':'.toUInt8 ∉ header.1 ∧ header.1.OneLine ∧ header.2.OneLine)
    (response : Response) (rest : Bytes)
    : readHeaders (Bytes.unlines (headers.map RawRequest.headerLine) ++ Bytes.crlf ++ rest) response
        = .ok (.read { response with headers := response.headers.setAll headers } rest) := by
  induction headers generalizing response with
  | nil => rfl
  | cons header headers ih =>
    rcases hheaders header List.mem_cons_self with ⟨hcolon, hname, hvalue⟩
    have ih := ih (fun header hheader => hheaders header (List.mem_cons_of_mem _ hheader))
    have hlf : '\n'.toUInt8 ∉ RawRequest.headerLine header ++ Bytes.lit "\r" := by
      intro hlf
      rcases List.mem_append.mp hlf with hlf | hlf
      . exact (RawRequest.oneLine_headerLine hname hvalue _ hlf).2 rfl
      . exact absurd hlf (by decide)
    have hline : RawRequest.headerLine header ++ Bytes.lit "\r" ≠ Bytes.lit "\r" :=
      fun h => RawRequest.headerLine_ne_nil header (List.append_left_eq_self.mp h)
    have hbytes : Bytes.unlines ((header :: headers).map RawRequest.headerLine) ++ Bytes.crlf ++ rest
        = (RawRequest.headerLine header ++ Bytes.lit "\r")
            ++ '\n'.toUInt8 :: (Bytes.unlines (headers.map RawRequest.headerLine) ++ Bytes.crlf ++ rest) := by
      simp [Bytes.unlines_cons, Bytes.crlf, Bytes.lit]
    rw [readHeaders, hbytes, readHeadersFrom_line hlf, List.nil_append, if_neg hline, readHeadersFrom.next,
      parseHeader_headerLine hcolon]
    exact ih _

/-! ## Status lines, read from a buffer that may hold more -/

theorem statusLine_word (code : Response.StatusCode) (seen : Bytes)
    : IStream.word { buffer := statusString.line code ++ Bytes.crlf ++ seen }
        =
      ((statusString.line code).take 8, { buffer := (statusString.line code).drop 8 ++ Bytes.crlf ++ seen }) := by
  cases code <;> rfl

theorem statusLine_unsigned (code : Response.StatusCode) (seen : Bytes)
    : IStream.unsigned { buffer := (statusString.line code).drop 8 ++ Bytes.crlf ++ seen }
        =
      (some (statusString.number code),
        { buffer := (statusString.line code).drop 12 ++ Bytes.crlf ++ seen }) := by
  cases code <;> rfl

theorem statusLine_rest (code : Response.StatusCode) (seen : Bytes)
    : (IStream.line { buffer := (statusString.line code).drop 12 ++ Bytes.crlf ++ seen }).2
        = { buffer := seen } := by
  cases code <;> rfl

theorem statusLine_version (code : Response.StatusCode)
    : ((statusString.line code).take 8).take 5 = Bytes.lit "HTTP/" := by
  cases code <;> rfl

/-! ## Whole answers -/

/-- A good answer that can be written out line by line, and in which nothing is rewritten. -/
structure Readable (response : Response) : Prop where
  code : response.code = .ok
  headers : response.headers.entries ≠ []
  lines : ∀ header ∈ response.headers.entries,
    ':'.toUInt8 ∉ header.1 ∧ header.1.OneLine ∧ header.2.OneLine
  contentType : ∀ contentType,
    response.headers.find? (Bytes.lit "Content-Type") = some contentType → isHtml contentType = false

theorem reading_of_lines {response : Response} (hentries : response.headers.entries ≠ [])
    (hlines : ∀ header ∈ response.headers.entries,
      ':'.toUInt8 ∉ header.1 ∧ header.1.OneLine ∧ header.2.OneLine)
    {source : Source} (hsource : source.chunks.flatten = ResponseGenerator.serialise response)
    : (Exchange.answered source).reading
        = .ok
          (if statusString.number response.code = 200 ∨ Reading.isRedirect (statusString.number response.code) then
            .complete (statusString.number response.code) response.headers response.body
          else
            .stock (Response.StatusCode.ofValue (statusString.number response.code))) := by
  let headerLines := response.headers.entries.map RawRequest.headerLine
  let head := Bytes.unlines headerLines ++ Bytes.crlf ++ response.body
  have hsource : source.chunks.flatten = statusString.line response.code ++ Bytes.crlf ++ head := by
    rw [hsource, ResponseGenerator.serialise_eq, Bytes.unlines_cons]
    simp only [head, headerLines, List.append_assoc]
  -- the status line, and what has arrived with it
  have hstatus : Bytes.crlf <:+: [] ++ source.chunks.flatten := by
    rw [hsource]
    exact List.infix_append _ _ _
  rcases Source.exists_readUntil hstatus with ⟨buffer, chunks, hread⟩
  rcases Source.readUntil_eq_some hread with ⟨hcrlf, hbytes⟩
  rw [List.nil_append, hsource] at hbytes
  rcases (statusString.oneLine_line response.code).2.of_crlf hbytes hcrlf with ⟨seen, rfl, hhead⟩
  -- the headers, and what has arrived with them
  have hheadEnd : Bytes.crlf ++ Bytes.crlf <:+: seen ++ chunks.flatten := by
    rw [← hhead]
    exact Bytes.crlf_crlf_infix_unlines (by simpa [headerLines] using hentries) response.body
  rcases Source.exists_readUntil hheadEnd with ⟨buffer', chunks', hread'⟩
  rcases Source.readUntil_eq_some hread' with ⟨hcrlf', hbytes'⟩
  have hsplits : (buffer' ++ chunks'.flatten).SplitsInto headerLines response.body := by
    rw [hbytes', ← hhead]
    apply Bytes.splitsInto_unlines
    intro line hline
    rcases List.mem_map.mp hline with ⟨header, hheader, rfl⟩
    exact ⟨RawRequest.headerLine_ne_nil header,
      RawRequest.oneLine_headerLine (hlines header hheader).2.1 (hlines header hheader).2.2⟩
  rcases hsplits.of_crlf_crlf hcrlf' with ⟨seen', rfl, hbody⟩
  have hheaders := readHeaders_unlines hlines {} seen'
  rw [← OrdMap.ofList, OrdMap.ofList_entries] at hheaders
  simp only [Exchange.reading, hread, statusLine_word, statusLine_unsigned, statusLine_rest,
    statusLine_version, Option.getD_some, hread']
  rw [if_neg (by simp)]
  by_cases hcomplete : statusString.number response.code = 200
      ∨ Reading.isRedirect (statusString.number response.code)
  . have hgood : ¬(statusString.number response.code ≠ 200 ∧ statusString.number response.code ≠ 301
        ∧ statusString.number response.code ≠ 302) := by
      rw [Reading.isRedirect] at hcomplete
      omega
    rw [if_neg hgood, if_pos hcomplete, hheaders, Outcome.ok_bind, hbody]
    rfl
  . have hstock : statusString.number response.code ≠ 200 ∧ statusString.number response.code ≠ 301
        ∧ statusString.number response.code ≠ 302 := by
      rw [Reading.isRedirect] at hcomplete
      omega
    rw [if_pos hstock, if_neg hcomplete]

theorem reading_serialise {response : Response} (hresponse : Readable response) {source : Source}
    (hsource : source.chunks.flatten = ResponseGenerator.serialise response)
    : (Exchange.answered source).reading = .ok (.complete 200 response.headers response.body) := by
  have hreading := reading_of_lines hresponse.headers hresponse.lines hsource
  rw [hresponse.code] at hreading
  exact hreading

def received (response : Response) : Response :=
  { response with
    headers := (response.headers.insert (Bytes.lit "Content-Type") []).set (Bytes.lit "Content-Length")
      (Bytes.toDecimal response.body.length) }

theorem delivered_eq_received {response : Response}
    (hcontentType : ∀ contentType,
      response.headers.find? (Bytes.lit "Content-Type") = some contentType → isHtml contentType = false)
    (handler : ProxyRequestHandler) : handler.delivered response = .ok (received response) := by
  have hhtml : isHtml ((response.headers.find? (Bytes.lit "Content-Type")).getD default) = false := by
    cases hfind : response.headers.find? (Bytes.lit "Content-Type") with
    | none => rfl
    | some contentType => exact hcontentType contentType hfind
  rw [delivered, OrdMap.index]
  simp only [hhtml, Bool.false_eq_true, if_false, Outcome.ok_bind, Outcome.pure_eq_ok]
  rfl

theorem exchangePass_serialise (handler : ProxyRequestHandler) (clientRequest : Request)
    {response : Response} (hresponse : Readable response) {source : Source}
    (hsource : source.chunks.flatten = ResponseGenerator.serialise response)
    : handler.exchangePass clientRequest { code := .notFound } (.answered source)
        = .ok (.leave (received response)) := by
  have hredirect : ¬Reading.isRedirect 200 := by decide
  have hheaded : headed { code := .notFound } 200 response.headers = { response with body := [] } := by
    rw [headed, overlaid, OrdMap.empty_overlay, hresponse.code]
    rfl
  rw [exchangePass_eq rfl, reading_serialise hresponse hsource, Outcome.ok_bind, finish,
    if_neg (fun hfollows => hredirect hfollows.1), settled, if_neg hredirect, hheaded,
    delivered_eq_received hresponse.contentType]
  rfl

/--
A response that was written out by a server of this kind comes back as it was, but for the length that is
put in and, if there was no content type, an empty one.
-/
theorem handleRequest_serialise {handler : ProxyRequestHandler} {upstream : Upstream}
    {clientRequest : Request} {rawReq : Bytes} {source : Source} {response : Response}
    (hresponse : Readable response)
    (hrawReq : handler.convertToRawbody clientRequest false = .ok rawReq)
    (hanswer : upstream handler.root handler.port 0 rawReq = .answered source)
    (hsource : source.chunks.flatten = ResponseGenerator.serialise response)
    : ∃ response', handler.handleRequest upstream clientRequest = .ok (response', [.answered source])
        ∧ response'.code = .ok
        ∧ response'.body = response.body
        ∧ ∀ header ∈ response.headers.entries, header.1 ≠ Bytes.lit "Content-Length"
          → response'.headers.find? header.1 = some header.2 := by
  refine ⟨received response, ?_, hresponse.code, rfl, ?_⟩
  . rw [handleRequest, hrawReq, Outcome.ok_bind, followFrom, hanswer]
    simp only [exchangePass_serialise handler clientRequest hresponse hsource, Outcome.ok_bind,
      Outcome.pure_eq_ok]
  . intro header hheader hlength
    have hfind : response.headers.find? header.1 = some header.2 := OrdMap.find?_eq_some_iff.mpr hheader
    rw [received, OrdMap.find?_set, if_neg (Ne.symm hlength), OrdMap.find?_insert, hfind]
    split_ifs with hcontentType
    . rw [hcontentType, hfind, Option.getD_some]
    . rfl

def textResponse : Response :=
  { code := .ok
    headers := OrdMap.ofList [(Bytes.lit "Content-Type", Bytes.lit "text/plain"), (Bytes.lit "Via", [])]
    body := Bytes.lit "fox\r\n\r\n" }

def textSource : Source where
  chunks :=
    [Bytes.lit "HTTP/1.1 200 OK\r\nContent-Type: text/plain\r\nVia: \r\n\r", Bytes.lit "\nfox\r",
      Bytes.lit "\n\r\n"]
  nonempty := by decide +kernel

theorem handleRequest_serialise_text
    : ∃ response', (ProxyRequestHandler.mk (Bytes.lit "host") (Bytes.lit "/") 80).handleRequest
          (fun _ _ _ _ => .answered textSource) { uri := Bytes.lit "/" } = .ok (response', [.answered textSource])
        ∧ response'.code = .ok
        ∧ response'.body = Bytes.lit "fox\r\n\r\n"
        ∧ ∀ header ∈ textResponse.headers.entries, header.1 ≠ Bytes.lit "Content-Length"
          → response'.headers.find? header.1 = some header.2 :=
  @handleRequest_serialise _ _ _ _ textSource textResponse
    ⟨rfl, by decide, by decide +kernel, by
      intro contentType hfind
      rw [← Option.some.inj hfind]
      decide⟩
    rfl rfl (by decide +kernel)

end ProxyRequestHandler

end Foxy
