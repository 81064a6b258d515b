import FoxyServer.RequestParser.Correct

/-!
This module contains what `parseData` does with the result of `parse`: when it returns, and what it
returns then.
-/

namespace Foxy

namespace Request

def contentLengthStr (request : Request) : Bytes :=
  (request.headers.find? (Bytes.lit "Content-Length")).getD []

def touchContentLength (request : Request) : Request :=
  { request with headers := request.headers.insert (Bytes.lit "Content-Length") [] }

theorem contentLengthStr_touchContentLength (request : Request)
    : request.touchContentLength.contentLengthStr = request.contentLengthStr := by
  simp [contentLengthStr, touchContentLength, OrdMap.find?_insert]

end Request

namespace utility

theorem getContentLength_eq (request : Request)
    : getContentLength request
        =
      if request.contentLengthStr = [] then
        .ok (0, request.touchContentLength)
      else
        Bytes.stoi request.contentLengthStr >>= fun c => .ok (c, request.touchContentLength) := by
  have hindex : request.headers.index (Bytes.lit "Content-Length")
      = (request.contentLengthStr, request.touchContentLength.headers) := rfl
  simp only [getContentLength, hindex, Outcome.pure_eq_ok, ne_eq, ite_not]
  rfl

theorem getContentLength_eq_ok {request request' : Request} {c : Int}
    : getContentLength request = .ok (c, request')
        ↔
      request' = request.touchContentLength
        ∧ (request.contentLengthStr = [] ∧ c = 0
            ∨ request.contentLengthStr ≠ [] ∧ Bytes.stoi request.contentLengthStr = .ok c) := by
  rw [getContentLength_eq]
  split_ifs with h
  . simp [h, eq_comm, and_comm]
  . rw [Outcome.bind_eq_ok]
    simp only [Outcome.ok.injEq, Prod.mk.injEq, h, false_and, false_or, ne_eq, not_false_eq_true,
      true_and]
    constructor
    . rintro ⟨c', hc, rfl, rfl⟩
      exact ⟨rfl, hc⟩
    . rintro ⟨rfl, hc⟩
      exact ⟨c, hc, rfl, rfl⟩

theorem getContentLength_ne_undefined (request : Request) : getContentLength request ≠ .undefined := by
  rw [getContentLength_eq]
  split
  . exact fun h => by cases h
  . rw [Ne, Outcome.bind_eq_undefined]
    rintro (h | ⟨c, -, h⟩)
    . exact Bytes.stoi_ne_undefined _ h
    . cases h

theorem getContentLength_returns_congr {request request' : Request}
    (h : request'.contentLengthStr = request.contentLengthStr) (hreturns : (getContentLength request).Returns)
    : (getContentLength request').Returns := by
  rcases hreturns with ⟨⟨c, touched⟩, hc⟩
  have hvalue := (getContentLength_eq_ok.mp hc).2
  rw [← h] at hvalue
  exact ⟨_, getContentLength_eq_ok.mpr ⟨rfl, hvalue⟩⟩

end utility

namespace RequestParser

/--
A Content-Length value that `parseData` can work with, when `charAmount` characters have been parsed so
far and `length` bytes are in the buffer: it is absent, or a number that fits an `int` and is zero, or
positive and not beyond the buffer unless the parser stands exactly at its end.
-/
def ContentLengthFits (contentLengthStr : Bytes) (charAmount : Int) (length : Nat) : Prop :=
  contentLengthStr = []
    ∨ ∃ c, Bytes.stoi contentLengthStr = .ok c ∧ (c = 0 ∨ 0 < c ∧ (charAmount = length ∨ c ≤ length))

theorem parseData_of_contentLength {parser : RequestParser} {request request' : Request} {data : Bytes}
    {n : Nat} {c : Int}
    (h : utility.getContentLength (parser.parse request (data.take n)).request = .ok (c, request'))
    : parser.parseData request data n
        =
      if c > 0 ∧ (parser.parse request (data.take n)).parser.nCharParsed = Bytes.strlen data then
        .ok (.missingData, (parser.parse request (data.take n)).parser, request')
      else
        Bytes.substr (Bytes.cStr data) (Bytes.strlen data - c) >>= fun body =>
          .ok ((parser.parse request (data.take n)).result, (parser.parse request (data.take n)).parser,
            { request' with body }) := by
  simp only [parseData, h, Outcome.ok_bind, getCharAmount]
  rfl

theorem returns_substr_bind_iff {s : Bytes} {pos : Int} {α : Type} {f : Bytes → α}
    : (Bytes.substr s pos >>= fun body => Outcome.ok (f body)).Returns ↔ 0 ≤ pos ∧ pos ≤ s.length := by
  rw [Bytes.substr]
  split_ifs with h <;> simp [h]

theorem contentLengthFits_iff {request : Request} {c charAmount : Int} {length : Nat}
    (h : utility.getContentLength request = .ok (c, request.touchContentLength))
    : ContentLengthFits request.contentLengthStr charAmount length
        ↔
      c = 0 ∨ 0 < c ∧ (charAmount = length ∨ c ≤ length) := by
  rcases (utility.getContentLength_eq_ok.mp h).2 with ⟨hempty, rfl⟩ | ⟨hne, hc⟩
  . simp [ContentLengthFits, hempty]
  . simp [ContentLengthFits, hne, hc]

/--
`parseData` returns exactly on the Content-Length values it can work with; on every other value an
exception leaves it.
-/
theorem parseData_returns_iff (parser : RequestParser) (request : Request) (data : Bytes) (n : Nat)
    : (parser.parseData request data n).Returns
        ↔
      ContentLengthFits (parser.parse request (data.take n)).request.contentLengthStr
        (parser.parse request (data.take n)).parser.nCharParsed (Bytes.strlen data) := by
  set parsed := parser.parse request (data.take n) with hparsed
  by_cases hreads : ∃ c, utility.getContentLength parsed.request
      = .ok (c, parsed.request.touchContentLength)
  . rcases hreads with ⟨c, hc⟩
    rw [parseData_of_contentLength hc, ← hparsed, contentLengthFits_iff hc]
    split_ifs with hmissing
    . simp [hmissing]
    . rw [returns_substr_bind_iff, ← Bytes.strlen]
      omega
  . constructor
    . rintro ⟨out, hout⟩
      rcases Outcome.bind_eq_ok.mp hout with ⟨⟨c, request'⟩, hc, -⟩
      rw [(utility.getContentLength_eq_ok.mp hc).1] at hc
      exact absurd ⟨c, hc⟩ hreads
    . rintro (hempty | ⟨c, hc, -⟩)
      . exact absurd ⟨0, utility.getContentLength_eq_ok.mpr ⟨rfl, .inl ⟨hempty, rfl⟩⟩⟩ hreads
      . refine absurd ⟨c, utility.getContentLength_eq_ok.mpr ⟨rfl, .inr ⟨?_, hc⟩⟩⟩ hreads
        intro hempty
        rw [hempty] at hc
        cases hc

theorem parseData_ne_undefined (parser : RequestParser) (request : Request) (data : Bytes) (n : Nat)
    : parser.parseData request data n ≠ .undefined := by
  rw [parseData, Ne, Outcome.bind_eq_undefined]
  rintro (h | ⟨⟨c, request'⟩, -, h⟩)
  . exact utility.getContentLength_ne_undefined _ h
  . dsimp only at h
    split at h
    . cases h
    . rcases Outcome.bind_eq_undefined.mp h with h | ⟨body, -, h⟩
      . rw [Bytes.substr] at h
        split at h <;> cases h
      . cases h

theorem parseData_throws_iff (parser : RequestParser) (request : Request) (data : Bytes) (n : Nat)
    : (parser.parseData request data n).Throws
        ↔
      ¬ContentLengthFits (parser.parse request (data.take n)).request.contentLengthStr
        (parser.parse request (data.take n)).parser.nCharParsed (Bytes.strlen data) := by
  rw [Outcome.throws_iff_not_returns (parseData_ne_undefined parser request data n), parseData_returns_iff]

theorem getContentLength_of_parseData {parser parser' : RequestParser} {request request' : Request}
    {data : Bytes} {n : Nat} {result : ResultType}
    (h : parser.parseData request data n = .ok (result, parser', request'))
    : (utility.getContentLength request').Returns := by
  rw [parseData] at h
  rcases Outcome.bind_eq_ok.mp h with ⟨⟨c, touched⟩, hlength, h⟩
  have htouched := (utility.getContentLength_eq_ok.mp hlength).1
  have hstr := Request.contentLengthStr_touchContentLength (parser.parse request (data.take n)).request
  refine utility.getContentLength_returns_congr ?_ ⟨_, hlength⟩
  rw [← hstr, ← htouched]
  dsimp only at h
  split at h
  . cases h
    rfl
  . rcases Outcome.bind_eq_ok.mp h with ⟨body, -, h⟩
    cases h
    rfl

/-! ## What all of it keeps -/

section Keeps

variable {I : RequestParser → Request → Prop}
  (hconsume : ∀ {parser req} b, I parser req → I (parser.consume req b).2.1 (parser.consume req b).2.2)
  (hcount : ∀ {parser req} n, I parser req → I { parser with nCharParsed := n } req)

include hconsume hcount

theorem parse_keeps {parser : RequestParser} {req : Request} (h : I parser req) (s : Bytes)
    : I (parser.parse req s).parser (parser.parse req s).request := by
  induction s generalizing parser req with
  | nil => exact h
  | cons b s ih =>
    have hnext := hcount (intSucc (parser.consume req b).2.1.nCharParsed) (hconsume b h)
    rw [parse]
    dsimp only
    split
    . exact hnext
    . exact ih hnext

theorem parseData_keeps (htouch : ∀ {parser req}, I parser req → I parser req.touchContentLength)
    (hbody : ∀ {parser req} body, I parser req → I parser { req with body })
    {parser parser' : RequestParser} {req req' : Request} {data : Bytes} {n : Nat} {result : ResultType}
    (h : I parser req) (hdata : parser.parseData req data n = .ok (result, parser', req')) : I parser' req' := by
  have htouched := htouch (parse_keeps hconsume hcount h (data.take n))
  rw [parseData] at hdata
  rcases Outcome.bind_eq_ok.mp hdata with ⟨⟨c, request⟩, hlength, hdata⟩
  rw [(utility.getContentLength_eq_ok.mp hlength).1] at hdata
  dsimp only at hdata
  split at hdata
  . simp only [Outcome.pure_eq_ok, Outcome.ok.injEq, Prod.mk.injEq] at hdata
    rw [← hdata.2.1, ← hdata.2.2]
    exact htouched
  . rcases Outcome.bind_eq_ok.mp hdata with ⟨body, -, hdata⟩
    simp only [Outcome.pure_eq_ok, Outcome.ok.injEq, Prod.mk.injEq] at hdata
    rw [← hdata.2.1, ← hdata.2.2]
    exact hbody body htouched

end Keeps

theorem parseData_raises
    : ¬(parseData {} {} (Bytes.lit "GET / HTTP/1.1\r\nContent-Length: x\r\n\r\n") 37).Returns
        ∧ ¬(parseData {} {} (Bytes.lit "GET / HTTP/1.1\r\nContent-Length: -1\r\n\r\n") 38).Returns
        ∧ ¬(parseData {} {} (Bytes.lit "GET / HTTP/1.1\r\nContent-Length: 2147483648\r\n\r\n") 46).Returns
        ∧ ¬(parseData {} {} (Bytes.lit "GET / HTTP/1.1\r\nContent-Length: 99\r\n\r\nabc") 41).Returns := by
  decide

end RequestParser

end Foxy
