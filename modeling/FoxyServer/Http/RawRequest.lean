import FoxyServer.Http.Request
import FoxyServer.Http.Response

/-!
This module contains requests written out as text again: a request line, header lines, an empty line and
the body. Two handlers write such texts, each with its own choice of version and headers. A response that is
sent has the same form.
-/

namespace Foxy

def Request.MethodEnum.toBytes : Request.MethodEnum → Bytes
  | .get => Bytes.lit "GET"
  | .post => Bytes.lit "POST"
  | .put => Bytes.lit "PUT"
  | .unknown => Bytes.lit "UNKNOWN"

namespace RawRequest

def requestLine (method : Request.MethodEnum) (uri version : Bytes) : Bytes :=
  method.toBytes ++ Bytes.lit " " ++ uri ++ Bytes.lit " HTTP" ++ Bytes.lit "/" ++ version

def headerLine (header : Bytes × Bytes) : Bytes :=
  header.1 ++ Bytes.lit ": " ++ header.2

def lines (method : Request.MethodEnum) (uri version : Bytes) (headers : List (Bytes × Bytes))
    : List Bytes :=
  requestLine method uri version :: headers.map headerLine

def render (method : Request.MethodEnum) (uri version : Bytes) (headers : List (Bytes × Bytes))
    (body : Bytes) : Bytes :=
  Bytes.unlines (lines method uri version headers) ++ Bytes.crlf ++ body

theorem requestLine_ne_nil (method : Request.MethodEnum) (uri version : Bytes)
    : requestLine method uri version ≠ [] := by
  cases method <;> simp [requestLine, Request.MethodEnum.toBytes, Bytes.lit]

theorem headerLine_ne_nil (header : Bytes × Bytes) : headerLine header ≠ [] := by
  simp [headerLine, Bytes.lit]

theorem oneLine_requestLine {method : Request.MethodEnum} {uri version : Bytes} (huri : uri.OneLine)
    (hversion : version.OneLine) : (requestLine method uri version).OneLine := by
  simp only [requestLine, Bytes.oneLine_append]
  refine ⟨⟨⟨⟨⟨?_, by decide +kernel⟩, huri⟩, by decide +kernel⟩, by decide +kernel⟩, hversion⟩
  cases method <;> decide +kernel

theorem oneLine_headerLine {header : Bytes × Bytes} (hname : header.1.OneLine) (hvalue : header.2.OneLine)
    : (headerLine header).OneLine := by
  simp only [headerLine, Bytes.oneLine_append]
  exact ⟨⟨hname, by decide +kernel⟩, hvalue⟩

theorem render_splitsInto {method : Request.MethodEnum} {uri version : Bytes}
    {headers : List (Bytes × Bytes)} (huri : uri.OneLine) (hversion : version.OneLine)
    (hheaders : ∀ header ∈ headers, header.1.OneLine ∧ header.2.OneLine) (body : Bytes)
    : (render method uri version headers body).SplitsInto (lines method uri version headers) body := by
  apply Bytes.splitsInto_unlines
  intro line hline
  rcases List.mem_cons.mp hline with rfl | hline
  . exact ⟨requestLine_ne_nil method uri version, oneLine_requestLine huri hversion⟩
  . rcases List.mem_map.mp hline with ⟨header, hheader, rfl⟩
    exact ⟨headerLine_ne_nil header,
      oneLine_headerLine (hheaders header hheader).1 (hheaders header hheader).2⟩

end RawRequest

def statusString.line (code : Response.StatusCode) : Bytes :=
  (statusString.toBuffer code).takeWhile (· ≠ '\r'.toUInt8)

theorem statusString.toBuffer_eq (code : Response.StatusCode)
    : statusString.toBuffer code = statusString.line code ++ Bytes.crlf := by
  cases code <;> rfl

theorem statusString.oneLine_line (code : Response.StatusCode)
    : line code ≠ [] ∧ (line code).OneLine := by
  cases code with
  | other value =>
    have hzero : line (.other 0) ≠ [] ∧ (line (.other 0)).OneLine := by
      decide +kernel
    exact hzero
  | _ => decide +kernel

theorem ResponseGenerator.serialise_eq (response : Response)
    : serialise response
        =
      Bytes.unlines (statusString.line response.code :: response.headers.entries.map RawRequest.headerLine)
        ++ Bytes.crlf ++ response.body := by
  have hheaders : ∀ entries : List (Bytes × Bytes), (entries.flatMap headerBuffers).flatten
      = Bytes.unlines (entries.map RawRequest.headerLine) := by
    intro entries
    induction entries with
    | nil => rfl
    | cons header entries ih =>
      rw [List.flatMap_cons, List.flatten_append, ih, List.map_cons, Bytes.unlines_cons,
        RawRequest.headerLine, headerBuffers]
      simp only [List.flatten_cons, List.flatten_nil, List.append_nil, List.append_assoc]
  rw [serialise, init, OrdMap.ofList_entries, toBuffers, statusString.toBuffer_eq, Bytes.unlines_cons]
  simp only [List.flatten_append, hheaders, List.flatten_cons, List.flatten_nil, List.append_nil,
    List.append_assoc]

end Foxy
