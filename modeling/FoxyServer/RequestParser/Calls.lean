import FoxyServer.RequestParser.Resume

/-!
This module contains rows of calls on one parser: of `parse` on the pieces of an input, and of any calls
before and after a `reset`.
-/

namespace Foxy

namespace RequestParser

def consumed (parser : RequestParser) (req : Request) (s : Bytes) : Nat :=
  s.length - (parser.parse req s).rest.length

/-! ## An input in pieces -/

structure ParsedChunks where
  result : ResultType
  consumed : Nat
  parser : RequestParser
  request : Request
  deriving DecidableEq

/-- The calls stop at the first one that returns good or bad. -/
def parseChunks (parser : RequestParser) (req : Request) : List Bytes → ParsedChunks
  | [] => ⟨.indeterminate, 0, parser, req⟩
  | chunk :: chunks =>
    let parsed := parser.parse req chunk
    if parsed.result = .good ∨ parsed.result = .bad then
      ⟨parsed.result, parser.consumed req chunk, parsed.parser, parsed.request⟩
    else
      let later := parsed.parser.parseChunks parsed.request chunks
      { later with consumed := parser.consumed req chunk + later.consumed }

theorem verdict_of_ne_indeterminate {parser : RequestParser} {req : Request} {s : Bytes}
    (h : (parser.parse req s).result ≠ .indeterminate)
    : (parser.parse req s).result = .good ∨ (parser.parse req s).result = .bad := by
  have hne := parse_result_ne_missingData parser req s
  cases hresult : (parser.parse req s).result <;> simp_all

theorem consumed_of_indeterminate {parser : RequestParser} {req : Request} {s : Bytes}
    (h : (parser.parse req s).result = .indeterminate) : parser.consumed req s = s.length := by
  rw [consumed, parse_rest_of_indeterminate h, List.length_nil, Nat.sub_zero]

theorem consumed_append_of_indeterminate {parser : RequestParser} {req : Request} {s : Bytes}
    (h : (parser.parse req s).result = .indeterminate) (t : Bytes)
    : parser.consumed req (s ++ t)
        =
      parser.consumed req s + (parser.parse req s).parser.consumed (parser.parse req s).request t := by
  have hle := (parse_rest_suffix (parser.parse req s).parser (parser.parse req s).request t).length_le
  rw [consumed_of_indeterminate h, consumed, consumed, parse_append_of_indeterminate h, List.length_append,
    Nat.add_sub_assoc hle]

theorem consumed_append_of_verdict {parser : RequestParser} {req : Request} {s : Bytes}
    (h : (parser.parse req s).result ≠ .indeterminate) (t : Bytes)
    : parser.consumed req (s ++ t) = parser.consumed req s := by
  rw [consumed, consumed, parse_append_of_verdict h]
  simp only [List.length_append, Nat.add_sub_add_right]

/--
Parsing the pieces of an input in turn is parsing the input, whatever state the parser is in.
-/
theorem parseChunks_eq_parse (parser : RequestParser) (req : Request) (chunks : List Bytes)
    : parser.parseChunks req chunks
        =
      ⟨(parser.parse req chunks.flatten).result,
        parser.consumed req chunks.flatten,
        (parser.parse req chunks.flatten).parser,
        (parser.parse req chunks.flatten).request⟩ := by
  induction chunks generalizing parser req with
  | nil => rfl
  | cons chunk chunks ih =>
    rw [List.flatten_cons, parseChunks]
    by_cases h : (parser.parse req chunk).result = .indeterminate
    . rw [if_neg (by simp [h]), ih, consumed_append_of_indeterminate h, parse_append_of_indeterminate h]
    . rw [if_pos (verdict_of_ne_indeterminate h), consumed_append_of_verdict h, parse_append_of_verdict h]

example : parseChunks {} {} [Bytes.lit "GET", [], Bytes.lit " / HTTP/1.1\r", Bytes.lit "\n\r\nab"]
    = parseChunks {} {} [Bytes.lit "GET / HTTP/1.1\r\n\r\nab"] := by decide +kernel

/-! ## The parser after a row of calls -/

inductive Call where
  | parse (req : Request) (s : Bytes)
  | parseData (req : Request) (data : Bytes) (bytesTransferred : Nat)
  | reset
  deriving DecidableEq

/-- `parse_data` parses before anything else, so that the parser is the same if an exception leaves it. -/
def Call.after (parser : RequestParser) : Call → RequestParser
  | .parse req s => (parser.parse req s).parser
  | .parseData req data bytesTransferred => (parser.parse req (data.take bytesTransferred)).parser
  | .reset => parser.reset

def Call.consumed (parser : RequestParser) : Call → Nat
  | .parse req s => parser.consumed req s
  | .parseData req data bytesTransferred => parser.consumed req (data.take bytesTransferred)
  | .reset => 0

theorem after_parseData {parser parser' : RequestParser} {req req' : Request} {data : Bytes} {n : Nat}
    {result : ResultType} (h : parser.parseData req data n = .ok (result, parser', req'))
    : parser' = (Call.parseData req data n).after parser := by
  unfold parseData at h
  rcases Outcome.bind_eq_ok.mp h with ⟨⟨c, request⟩, -, h⟩
  dsimp only at h
  split at h
  . simp only [Outcome.pure_eq_ok, Outcome.ok.injEq, Prod.mk.injEq] at h
    exact h.2.1.symm
  . rcases Outcome.bind_eq_ok.mp h with ⟨body, -, h⟩
    simp only [Outcome.pure_eq_ok, Outcome.ok.injEq, Prod.mk.injEq] at h
    exact h.2.1.symm

def afterCalls (parser : RequestParser) (calls : List Call) : RequestParser :=
  calls.foldl Call.after parser

def consumedByCalls (parser : RequestParser) : List Call → Nat
  | [] => 0
  | call :: calls => call.consumed parser + (call.after parser).consumedByCalls calls

theorem after_nCharParsed (parser : RequestParser) (call : Call)
    : (call.after parser).nCharParsed = countOn parser.nCharParsed (call.consumed parser) := by
  cases call with
  | parse req s => exact parse_nCharParsed parser req s
  | parseData req data n => exact parse_nCharParsed parser req (data.take n)
  | reset => rfl

theorem afterCalls_nCharParsed (parser : RequestParser) (calls : List Call)
    : (parser.afterCalls calls).nCharParsed = countOn parser.nCharParsed (parser.consumedByCalls calls) := by
  induction calls generalizing parser with
  | nil => rfl
  | cons call calls ih =>
    rw [afterCalls, List.foldl_cons, ← afterCalls, ih, after_nCharParsed, countOn_countOn, consumedByCalls]

theorem reset_eq (parser : RequestParser)
    : parser.reset = { ({} : RequestParser) with nCharParsed := parser.nCharParsed } := rfl

def dataResults (parser : RequestParser) : List (Request × Bytes × Nat) → List (Outcome (ResultType × Request))
  | [] => []
  | (req, data, n) :: calls =>
    (do
      let (result, _, req) ← parser.parseData req data n
      return (result, req))
      :: ((Call.parseData req data n).after parser).dataResults calls

def waitingHead : Bytes :=
  Bytes.lit "POST / HTTP/1.1\r\nContent-Length: 1\r\n\r\n"

theorem parse_waitingHead
    : (parse {} {} waitingHead).result = .good ∧ (parse {} {} waitingHead).rest = []
        ∧ utility.getContentLength (parse {} {} waitingHead).request
            = .ok (1, (parse {} {} waitingHead).request.touchContentLength) := by
  decide +kernel

theorem parseData_waitingHead_iff {n : Int} (hn : -2147483648 ≤ n ∧ n ≤ 2147483647)
    : (parseData { ({} : RequestParser) with nCharParsed := n } {} waitingHead 38).Yields
        (·.1 = .missingData)
        ↔
      n = 0 := by
  rcases parse_waitingHead with ⟨hresult, hrest, hlength⟩
  rcases parse_withCount {} {} waitingHead n with ⟨n', hparse⟩
  have hcount := parse_nCharParsed { ({} : RequestParser) with nCharParsed := n } {} waitingHead
  rw [hparse, hrest] at hcount
  have htake : waitingHead.take 38 = waitingHead := rfl
  have hmissing : n' = 38 ↔ n = 0 := by
    rw [show n' = countOn n 38 from hcount, countOn_eq hn]
    omega
  rw [← hmissing, parseData_of_contentLength (by rw [htake, hparse]; exact hlength), htake, hparse]
  by_cases h : n' = 38
  . rw [if_pos ⟨by decide, h⟩]
    exact iff_of_true ⟨_, rfl, rfl⟩ h
  . rw [if_neg (fun hboth => h hboth.2)]
    refine iff_of_false ?_ h
    rintro ⟨out, hout, hmissing⟩
    rcases Outcome.bind_eq_ok.mp hout with ⟨body, -, hout⟩
    simp only [Outcome.ok.injEq] at hout
    rw [← hout] at hmissing
    simp [hresult] at hmissing

/--
After a `reset` the parser behaves like a new one exactly if it has counted nothing before, or has counted
all the way around.
-/
theorem reset_like_new_iff (history : List Call)
    : (∀ calls, (afterCalls {} history).reset.dataResults calls = dataResults {} calls)
        ↔
      4294967296 ∣ consumedByCalls {} history := by
  have hcount : (afterCalls {} history).nCharParsed = countOn 0 (consumedByCalls {} history) :=
    afterCalls_nCharParsed {} history
  have hrange := countOn_range (n := 0) (by decide) (consumedByCalls {} history)
  have hzero : countOn 0 (consumedByCalls {} history) = 0 ↔ 4294967296 ∣ consumedByCalls {} history := by
    rw [countOn_eq (by decide)]
    omega
  rw [reset_eq, hcount, ← hzero]
  constructor
  . intro h
    rw [← parseData_waitingHead_iff hrange]
    have hfresh := (parseData_waitingHead_iff (n := 0) (by decide)).mpr rfl
    have hanswer := h [({}, waitingHead, 38)]
    simp only [dataResults, List.cons.injEq, and_true] at hanswer
    have hsame := congrArg (fun out => out.Yields (·.1 = .missingData)) hanswer
    simp only [Outcome.yields_bind, Outcome.pure_eq_ok, Outcome.yields_ok] at hsame
    rwa [hsame]
  . intro h calls
    rw [h]

/-- The second of two requests is not waited for, but gets the end of its own head for a body. -/
theorem reset_not_like_new
    : ¬∀ (history : List Call) (calls : List (Request × Bytes × Nat)),
        (afterCalls {} history).reset.dataResults calls = dataResults {} calls := by
  intro h
  have hsecond := h [.parseData {} (Bytes.lit "GET / HTTP/1.1\r\n\r\n") 18] [({}, waitingHead, 38)]
  revert hsecond
  decide +kernel

end RequestParser

end Foxy
