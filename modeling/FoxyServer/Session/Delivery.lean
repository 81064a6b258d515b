import FoxyServer.RequestParser.Resume
import FoxyServer.Session.Classes

/-!
This module contains the ways for a request to arrive in reads of its own from which a session can put it
together again.
-/

namespace Foxy

open RequestParser

/-! ## Requests on the wire -/

def Request.AsksToClose (request : Request) : Prop :=
  ∃ name ∈ [Bytes.lit "Connection", Bytes.lit "connection"],
    request.headers.find? name = some (Bytes.lit "close")

instance (request : Request) : Decidable request.AsksToClose :=
  inferInstanceAs (Decidable (∃ name ∈ [Bytes.lit "Connection", Bytes.lit "connection"],
    request.headers.find? name = some (Bytes.lit "close")))

theorem Request.asksToClose_touchContentLength (request : Request)
    : request.touchContentLength.AsksToClose ↔ request.AsksToClose := by
  have hne : ∀ name ∈ [Bytes.lit "Connection", Bytes.lit "connection"],
      Bytes.lit "Content-Length" ≠ name := by
    decide
  unfold AsksToClose
  apply exists_congr
  intro name
  apply and_congr_right
  intro hname
  rw [touchContentLength, OrdMap.find?_insert, if_neg (hne name hname)]

theorem Request.asksToClose_leftByParseData (request : Request) (body : Bytes)
    : (request.leftByParseData body).AsksToClose ↔ request.AsksToClose :=
  request.asksToClose_touchContentLength

/--
A head that the parser accepts and as many bytes as its content length says, from a client that does not ask
to close the connection.
-/
structure WireRequest where
  head : Bytes
  body : Bytes
  accepted : (RequestParser.parse {} {} head).result = .good ∧ (RequestParser.parse {} {} head).rest = []
  framed : ∃ request,
    utility.getContentLength (RequestParser.parse {} {} head).request = .ok (body.length, request)
  keptOpen : ¬(RequestParser.parse {} {} head).request.AsksToClose

namespace WireRequest

variable (request : WireRequest)

def bytes : Bytes := request.head ++ request.body

def parsed : Request := (RequestParser.parse {} {} request.head).request

def received : Request := request.parsed.leftByParseData request.body

theorem getContentLength_parsed
    : utility.getContentLength request.parsed
        = .ok (request.body.length, request.parsed.touchContentLength) := by
  rcases request.framed with ⟨other, hother⟩
  rw [parsed, hother, (utility.getContentLength_eq_ok.mp hother).1]

theorem getContentLength_of_leftByParseData {other : Request}
    (h : other.leftByParseData request.body = request.received)
    : utility.getContentLength other = .ok (request.body.length, other.touchContentLength) := by
  have hstr : other.contentLengthStr = request.parsed.contentLengthStr := by
    rw [← Request.contentLengthStr_leftByParseData other request.body, h, received,
      Request.contentLengthStr_leftByParseData]
  rw [utility.getContentLength_eq_ok, hstr]
  exact ⟨rfl, (utility.getContentLength_eq_ok.mp request.getContentLength_parsed).2⟩

theorem not_asksToClose_received : ¬request.received.AsksToClose := by
  rw [received, Request.asksToClose_leftByParseData]
  exact request.keptOpen

theorem noNul_head : request.head.NoNul :=
  parse_noNul (by simp [request.accepted.1]) request.accepted.2

end WireRequest

namespace RequestParser

def Fresh (parser : RequestParser) : Prop :=
  parser = { ({} : RequestParser) with nCharParsed := parser.nCharParsed }

variable {parser : RequestParser} (hfresh : parser.Fresh) (request : WireRequest)

include hfresh

theorem Fresh.parse_eq (s : Bytes)
    : (parser.parse {} s).result = (RequestParser.parse {} {} s).result
        ∧ (parser.parse {} s).rest = (RequestParser.parse {} {} s).rest
        ∧ (parser.parse {} s).request = (RequestParser.parse {} {} s).request := by
  rcases parse_withCount {} {} s parser.nCharParsed with ⟨n, hparse⟩
  rw [hfresh, hparse]
  exact ⟨rfl, rfl, rfl⟩

theorem Fresh.parse_head (more : Bytes)
    : ∃ parser', parser.parse {} (request.head ++ more) = ⟨.good, more, parser', request.parsed⟩
        ∧ parser'.nCharParsed = countOn parser.nCharParsed request.head.length := by
  rcases hfresh.parse_eq request.head with ⟨hresult, hrest, hrequest⟩
  rw [request.accepted.1] at hresult
  rw [request.accepted.2] at hrest
  refine ⟨(parser.parse {} request.head).parser, ?_, ?_⟩
  . rw [parse_append_of_verdict (by simp [hresult])]
    simp only [hresult, hrest, hrequest, List.nil_append]
    rfl
  . rw [parse_nCharParsed, hrest]
    rfl

theorem Fresh.parse_split {x tail : Bytes} (hhead : request.head = x ++ tail) (htail : tail ≠ [])
    (body more : Bytes)
    : (parser.parse {} x).result = .indeterminate
        ∧ (parser.parse {} x).parser.nCharParsed = countOn parser.nCharParsed x.length
        ∧ ∃ parser',
            (parser.parse {} x).parser.parse ((parser.parse {} x).request.leftByParseData body) (tail ++ more)
                = ⟨.good, more, parser', request.parsed.leftByParseData body⟩
              ∧ parser'.nCharParsed = countOn parser.nCharParsed request.head.length := by
  rcases hfresh.parse_head request more with ⟨parser', hparse, hcount⟩
  have hresult : (parser.parse {} x).result = .indeterminate := by
    by_contra hverdict
    rcases hfresh.parse_head request [] with ⟨parser1, hwhole, -⟩
    rw [List.append_nil, hhead, parse_append_of_verdict hverdict] at hwhole
    have hrest := congrArg Parsed.rest hwhole
    exact htail (List.append_eq_nil_iff.mp hrest).2
  rw [hhead, List.append_assoc, parse_append_of_indeterminate hresult] at hparse
  refine ⟨hresult, ?_, parser', ?_, hcount⟩
  . rw [parse_nCharParsed, parse_rest_of_indeterminate hresult]
    rfl
  . rw [parse_leftByParseData (by simp [hparse]), hparse]

end RequestParser

/-! ## Arrival -/

namespace Connection

variable {σ ω : Type} (conn : Connection σ) (request : WireRequest)

/-- Between two requests: the next read is awaited, and the parser is fresh. -/
structure Ready : Prop where
  pending : conn.pending = [.read]
  alive : conn.destroyed = false
  fresh : conn.requestParser.Fresh

def charsAfter (k : Nat) : Int :=
  countOn conn.requestParser.nCharParsed k

def fillData (read : Read) : Connection σ :=
  { conn with data := conn.data.fill read }

def idle : Connection σ :=
  { conn with pending := [] }

def fillBuffer (read : Read) : Connection σ :=
  { conn with buffer := conn.buffer.fill read }

/--
How the body may arrive once the head has ended in `data_`, behind its part `front`: either with the head,
with no byte missing in the string that is there, nor the parser at its end; or in one more read, if the
parser is at the end of the string.
-/
def BodyArrives (chars : Int) (front inRead : Bytes) : List Read → Prop
  | [] => inRead = request.body ∧ (request.body = []
      ∨ request.body <:+ Bytes.cStr (conn.dataMemory.drop front.length)
        ∧ chars ≠ Bytes.strlen conn.dataMemory)
  | [final] => inRead = [] ∧ final.bytes = request.body ∧ request.body ≠ []
      ∧ chars = Bytes.strlen conn.dataMemory
      ∧ Bytes.cStr (conn.fillBuffer final).bufferMemory = request.body
  | _ => False

def LeavesOpen (chars : Int) (x : Bytes) : Prop :=
  (RequestParser.parse {} {} x).request.contentLengthStr = []
    ∨ ∃ c, Bytes.stoi (RequestParser.parse {} {} x).request.contentLengthStr = .ok c
        ∧ (c = 0 ∨ 0 < c ∧ c ≤ Bytes.strlen conn.dataMemory ∧ chars ≠ Bytes.strlen conn.dataMemory)

/--
The request arrives in reads of its own. Its head is in the first of them; or it is cut in two, and then the
second part is no longer than the first, because the parser is told to read as many bytes again.
-/
inductive Arrives : List Read → Prop where
  | whole {x : Read} {reads : List Read} (inRead : Bytes)
      (hx : x.bytes = request.head ++ inRead)
      (hbody : (conn.fillData x).BodyArrives request (conn.charsAfter request.head.length) request.head
        inRead reads)
      : Arrives (x :: reads)
  | split {x y : Read} {reads : List Read} (tail inRead : Bytes)
      (hhead : request.head = x.bytes ++ tail)
      (htail : tail ≠ [])
      (hstale : tail.length ≤ x.bytes.length)
      (hopen : (conn.fillData x).LeavesOpen (conn.charsAfter x.bytes.length) x.bytes)
      (hy : y.bytes = tail ++ inRead)
      (hbody : ((conn.fillData x).fillData y).BodyArrives request (conn.charsAfter request.head.length)
        tail inRead reads)
      : Arrives (x :: y :: reads)

end Connection

end Foxy
