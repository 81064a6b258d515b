import FoxyServer.Http.RawRequest
import FoxyServer.Library.Decimals
import FoxyServer.Library.Framing
import FoxyServer.Session.Framing

/-!
This module contains the other end of a connection: a client that takes the bytes it receives for a head of lines
and a body whose length the head says, and the responses that it can read.
-/

namespace Foxy

structure Reply where
  statusLine : Bytes
  headers : List (Bytes × Bytes)
  body : Bytes
  deriving DecidableEq

namespace Reply

def ofResponse (response : Response) : Reply where
  statusLine := statusString.line response.code
  headers := response.headers.entries
  body := response.body

def readHeader (line : Bytes) : Option (Bytes × Bytes) :=
  match line.dropWhile (· ≠ ':'.toUInt8) with
  | _ :: space :: value =>
    if space = ' '.toUInt8 then some (line.takeWhile (· ≠ ':'.toUInt8), value) else none
  | _ => none

/-- Without a number in it there is no telling where the body ends. -/
def contentLength (headers : List (Bytes × Bytes)) : Option Nat :=
  match headers.lookup (Bytes.lit "Content-Length") with
  | none => none
  | some value => if value ≠ [] ∧ value.all Bytes.isDigit then some (Bytes.decimalValue value) else none

def read (s : Bytes) : Option (Reply × Bytes) :=
  match Bytes.readHead s with
  | some (statusLine :: lines, rest) =>
    match lines.mapM readHeader with
    | none => none
    | some headers =>
      match contentLength headers with
      | none => none
      | some n =>
        if n ≤ rest.length then
          some ({ statusLine, headers, body := rest.take n }, rest.drop n)
        else
          none
  | _ => none

theorem read_eq_some_iff {s rest : Bytes} {reply : Reply}
    : read s = some (reply, rest)
        ↔
      ∃ lines behind, Bytes.readHead s = some (reply.statusLine :: lines, behind)
        ∧ lines.mapM readHeader = some reply.headers
        ∧ ∃ n, contentLength reply.headers = some n ∧ n ≤ behind.length
          ∧ reply.body = behind.take n ∧ rest = behind.drop n := by
  constructor
  . intro h
    rw [read] at h
    split at h
    next statusLine lines behind hhead =>
      split at h
      next => cases h
      next headers hheaders =>
        split at h
        next => cases h
        next n hlength =>
          split at h
          next hfits =>
            simp only [Option.some.injEq, Prod.mk.injEq] at h
            rcases h with ⟨rfl, rfl⟩
            exact ⟨lines, behind, hhead, hheaders, n, hlength, hfits, rfl, rfl⟩
          next => cases h
    next => cases h
  . rintro ⟨lines, behind, hhead, hheaders, n, hlength, hfits, hbody, rfl⟩
    simp only [read, hhead, hheaders, hlength, if_pos hfits, ← hbody]

def framing : Framing Reply UInt8 where
  read := read
  shorter := by
    intro s reply rest h
    rcases read_eq_some_iff.mp h with ⟨lines, behind, hhead, -, n, -, -, -, rfl⟩
    have hs : s = Bytes.unlines (reply.statusLine :: lines) ++ Bytes.crlf ++ behind := by
      simpa using Bytes.readHeadFrom_eq_some hhead
    have hcrlf : Bytes.crlf.length = 2 := rfl
    rw [hs]
    simp only [List.length_append, List.length_drop]
    omega
  extend := by
    intro s reply rest more h
    rcases read_eq_some_iff.mp h with ⟨lines, behind, hhead, hheaders, n, hlength, hfits, hbody, rfl⟩
    refine read_eq_some_iff.mpr ⟨lines, behind ++ more, Bytes.readHeadFrom_append hhead, hheaders, n, hlength, ?_⟩
    refine ⟨?_, ?_, ?_⟩
    . rw [List.length_append]
      omega
    . rw [hbody, List.take_append_of_le_length hfits]
    . rw [List.drop_append_of_le_length hfits]

end Reply

/-! ## Responses that can be read -/

def HeadersOnLines (headers : OrdMap Bytes Bytes) : Prop :=
  ∀ name value, headers.find? name = some value → ':'.toUInt8 ∉ name ∧ name.OneLine ∧ value.OneLine

namespace HeadersOnLines

theorem empty : HeadersOnLines .empty := by
  intro name value hfind
  cases hfind

variable {headers headers' : OrdMap Bytes Bytes}

theorem set (h : HeadersOnLines headers) {name value : Bytes} (hname : ':'.toUInt8 ∉ name ∧ name.OneLine)
    (hvalue : value.OneLine) : HeadersOnLines (headers.set name value) := by
  intro name' value' hfind
  rw [OrdMap.find?_set] at hfind
  split at hfind
  next heq =>
    rw [← heq, ← Option.some.inj hfind]
    exact ⟨hname.1, hname.2, hvalue⟩
  next => exact h name' value' hfind

theorem overlay (h : HeadersOnLines headers) (h' : HeadersOnLines headers')
    : HeadersOnLines (headers.overlay headers') := by
  intro name value hfind
  rw [OrdMap.find?_overlay, Option.or_eq_some_iff] at hfind
  rcases hfind with hfind | ⟨-, hfind⟩
  . exact h' name value hfind
  . exact h name value hfind

theorem insertAll (h : HeadersOnLines headers) {names : List Bytes}
    (hnames : ∀ name ∈ names, ':'.toUInt8 ∉ name ∧ name.OneLine) {value : Bytes} (hvalue : value.OneLine)
    : HeadersOnLines (headers.insertAll names value) := by
  intro name value' hfind
  rw [OrdMap.find?_insertAll] at hfind
  split at hfind
  next hmem =>
    cases hold : headers.find? name with
    | none =>
      rw [hold, Option.getD_none, Option.some.injEq] at hfind
      rw [← hfind]
      exact ⟨(hnames name hmem).1, (hnames name hmem).2, hvalue⟩
    | some old =>
      rw [hold, Option.getD_some, Option.some.injEq] at hfind
      rw [← hfind]
      exact h name old hold
  next => exact h name value' hfind

theorem mem_entries (h : HeadersOnLines headers) {header : Bytes × Bytes} (hheader : header ∈ headers.entries)
    : ':'.toUInt8 ∉ header.1 ∧ header.1.OneLine ∧ header.2.OneLine :=
  h header.1 header.2 (OrdMap.find?_eq_some_iff.mpr hheader)

end HeadersOnLines

/-- The response says how long it is, and its headers can be written line by line. -/
structure Response.Readable (response : Response) : Prop where
  framed : response.Framed
  onLines : HeadersOnLines response.headers

namespace Reply

theorem readHeader_headerLine {header : Bytes × Bytes} (hname : ':'.toUInt8 ∉ header.1)
    : readHeader (RawRequest.headerLine header) = some header := by
  have hline : RawRequest.headerLine header = header.1 ++ (':'.toUInt8 :: ' '.toUInt8 :: header.2) := by
    simp [RawRequest.headerLine, Bytes.lit]
  have hfree : ∀ c ∈ header.1, decide (c ≠ ':'.toUInt8) = true := by
    intro c hc
    rw [decide_eq_true_eq]
    rintro rfl
    exact hname hc
  rw [readHeader, hline, List.dropWhile_append_of_pos hfree, List.dropWhile_cons_of_neg (by decide),
    List.takeWhile_append_of_pos hfree, List.takeWhile_cons_of_neg (by decide), List.append_nil]
  rfl

theorem mapM_readHeader {entries : List (Bytes × Bytes)} (h : ∀ header ∈ entries, ':'.toUInt8 ∉ header.1)
    : (entries.map RawRequest.headerLine).mapM readHeader = some entries := by
  induction entries with
  | nil => rfl
  | cons header entries ih =>
    rw [List.forall_mem_cons] at h
    rw [List.map_cons, List.mapM_cons, readHeader_headerLine h.1, ih h.2]
    rfl

theorem lookup_entries (headers : OrdMap Bytes Bytes) (name : Bytes)
    : headers.entries.lookup name = headers.find? name := by
  rw [OrdMap.find?]
  induction headers.entries with
  | nil => rfl
  | cons header entries ih =>
    rw [List.lookup_cons, OrdMap.find?.go]
    by_cases hname : header.1 = name
    . rw [if_pos hname, hname, beq_self_eq_true]
    . have hne : (name == header.1) = false := beq_eq_false_iff_ne.mpr (Ne.symm hname)
      rw [if_neg hname, hne]
      exact ih

theorem contentLength_entries {response : Response} (h : response.Framed)
    : contentLength response.headers.entries = some response.body.length := by
  rw [contentLength, lookup_entries, h.2]
  dsimp only
  rw [if_pos, Bytes.decimalValue_toDecimal]
  exact ⟨Bytes.toDecimal_ne_nil _, List.all_eq_true.mpr fun b hb => Bytes.isDigit_toDecimal hb⟩

theorem frames_serialise {response : Response} (h : response.Readable)
    : framing.Frames (ofResponse response) (ResponseGenerator.serialise response) := by
  have hsplits : (ResponseGenerator.serialise response).SplitsInto
      (statusString.line response.code :: response.headers.entries.map RawRequest.headerLine)
      response.body := by
    rw [ResponseGenerator.serialise_eq]
    apply Bytes.splitsInto_unlines
    intro line hline
    rcases List.mem_cons.mp hline with rfl | hline
    . exact statusString.oneLine_line response.code
    . rcases List.mem_map.mp hline with ⟨header, hheader, rfl⟩
      have hheader := h.onLines.mem_entries hheader
      exact ⟨RawRequest.headerLine_ne_nil header, RawRequest.oneLine_headerLine hheader.2.1 hheader.2.2⟩
  refine read_eq_some_iff.mpr ⟨_, response.body, hsplits.1, ?_, ?_⟩
  . exact mapM_readHeader fun header hheader => (h.onLines.mem_entries hheader).1
  . refine ⟨response.body.length, contentLength_entries h.framed, le_rfl, ?_, ?_⟩
    . exact (List.take_length).symm
    . rw [List.drop_length]

end Reply

namespace Response.Readable

theorem oneLine_toDecimal (n : Nat) : (Bytes.toDecimal n).OneLine := by
  intro b hb
  have hdigit := Bytes.isDigit_toDecimal hb
  constructor
  . rintro rfl
    exact absurd hdigit (by decide)
  . rintro rfl
    exact absurd hdigit (by decide)

theorem page (code : Response.StatusCode) (body : Bytes) {contentType : Bytes} (h : contentType.OneLine)
    : ({ code
         headers := (OrdMap.empty.set (Bytes.lit "Content-Length") (Bytes.toDecimal body.length)).set
           (Bytes.lit "Content-Type") contentType
         body } : Response).Readable where
  framed := framed_page code body contentType
  onLines := (HeadersOnLines.empty.set (by decide +kernel) (oneLine_toDecimal _)).set (by decide +kernel) h

theorem set {response : Response} (h : response.Readable) {name value : Bytes}
    (hlength : name ≠ Bytes.lit "Content-Length") (hname : ':'.toUInt8 ∉ name ∧ name.OneLine)
    (hvalue : value.OneLine)
    : ({ response with headers := response.headers.set name value } : Response).Readable where
  framed := h.framed.set hlength value
  onLines := h.onLines.set hname hvalue

theorem stockResponse (code : Response.StatusCode) : (ResponseGenerator.stockResponse code).Readable :=
  page code _ (by decide +kernel)

end Response.Readable

end Foxy
