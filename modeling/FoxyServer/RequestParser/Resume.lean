import FoxyServer.RequestParser.ParseData
import Mathlib.Logic.Function.Iterate

/-!
This module contains how `parse` goes on where it stopped: over the rest of a head that arrives in two
pieces, after `parseData` has touched the request in between, and with a counter that was never reset.
-/

open Scanner

namespace Foxy

namespace Request

def leftByParseData (request : Request) (body : Bytes) : Request :=
  { request.touchContentLength with body }

theorem leftByParseData_leftByParseData (request : Request) (body body' : Bytes)
    : (request.leftByParseData body).leftByParseData body' = request.leftByParseData body' := by
  simp only [leftByParseData, touchContentLength, OrdMap.insert_insert]

theorem leftByParseData_touchContentLength (request : Request) (body : Bytes)
    : request.touchContentLength.leftByParseData body = request.leftByParseData body := by
  simp only [leftByParseData, touchContentLength, OrdMap.insert_insert]

theorem contentLengthStr_leftByParseData (request : Request) (body : Bytes)
    : (request.leftByParseData body).contentLengthStr = request.contentLengthStr := by
  simp [leftByParseData, touchContentLength, contentLengthStr, OrdMap.find?_insert]

end Request

namespace RequestParser

variable {parser parser' : RequestParser} {req req' : Request} {s t rest : Bytes}

/-! ## In pieces -/

theorem parse_eq_of_scan_eq (h : scanner.scan (parser, req) s = scanner.scan (parser', req') t)
    : parser.parse req s = parser'.parse req' t := by
  have hne := parse_result_ne_missingData parser req s
  have hne' := parse_result_ne_missingData parser' req' t
  rw [parse_eq_scan, parse_eq_scan] at h
  rcases hparsed : parser.parse req s with ⟨result, rest, parser1, req1⟩
  rcases hparsed' : parser'.parse req' t with ⟨result', rest', parser1', req1'⟩
  rw [hparsed, hparsed'] at h
  rw [hparsed] at hne
  rw [hparsed'] at hne'
  simp only [Prod.mk.injEq] at h
  rcases h with ⟨hverdict, rfl, rfl, rfl⟩
  cases result <;> cases result' <;> simp_all [ResultType.toVerdict]

theorem parse_append_of_indeterminate (h : (parser.parse req s).result = .indeterminate) (t : Bytes)
    : parser.parse req (s ++ t)
        =
      (parser.parse req s).parser.parse (parser.parse req s).request t := by
  apply parse_eq_of_scan_eq
  apply scan_append_of_more (r := (parser.parse req s).rest)
  rw [parse_eq_scan, h]
  rfl

theorem parse_append_of_verdict (h : (parser.parse req s).result ≠ .indeterminate) (t : Bytes)
    : parser.parse req (s ++ t) = { parser.parse req s with rest := (parser.parse req s).rest ++ t } := by
  have hne := parse_result_ne_missingData parser req s
  have hne' := parse_result_ne_missingData parser req (s ++ t)
  have hscan := scan_append_of_verdict (parse_eq_scan parser req s)
    (by cases hresult : (parser.parse req s).result <;> simp_all [ResultType.toVerdict]) t
  rw [parse_eq_scan] at hscan
  rcases hparsed : parser.parse req (s ++ t) with ⟨result, rest, parser1, req1⟩
  rw [hparsed] at hscan hne'
  simp only [Prod.mk.injEq] at hscan
  rcases hscan with ⟨hverdict, rfl, rfl, rfl⟩
  cases hresult : (parser.parse req s).result <;> cases result <;> simp_all [ResultType.toVerdict]

theorem parse_rest_of_indeterminate (h : (parser.parse req s).result = .indeterminate)
    : (parser.parse req s).rest = [] := by
  induction s generalizing parser req with
  | nil => rfl
  | cons b s ih =>
    rw [parse] at h ⊢
    dsimp only at h ⊢
    split at h
    next hverdict =>
      have hresult : (parser.consume req b).1 = .indeterminate := h
      simp [hresult] at hverdict
    next hverdict =>
      rw [if_neg hverdict]
      exact ih h

/-! ## NUL bytes -/

theorem consume_zero (parser : RequestParser) (req : Request)
    : parser.consume req 0 = (.bad, parser, req) := by
  rcases parser with ⟨state, methodHelper, headerHelper, n⟩
  cases state <;> simp [consume, consume.expect, charToInt, isCtl, isDigit]

theorem parse_noNul (hbad : (parser.parse req s).result ≠ .bad) (hrest : (parser.parse req s).rest = [])
    : s.NoNul := by
  induction s generalizing parser req with
  | nil => simp [Bytes.NoNul]
  | cons b s ih =>
    rw [parse] at hbad hrest
    have hb : b ≠ 0 := by
      rintro rfl
      simp [consume_zero] at hbad
    have hs : Bytes.NoNul s := by
      dsimp only at hbad hrest
      split at hbad
      next hverdict =>
        rw [if_pos hverdict] at hrest
        simp [show s = [] from hrest, Bytes.NoNul]
      next hverdict =>
        rw [if_neg hverdict] at hrest
        exact ih hbad hrest
    simpa [Bytes.NoNul, hb] using hs

/-! ## The counter -/

def countOn (n : Int) (k : Nat) : Int :=
  intSucc^[k] n

theorem countOn_eq {n : Int} (hn : -2147483648 ≤ n ∧ n ≤ 2147483647) (k : Nat)
    : countOn n k = (n + k + 2147483648) % 4294967296 - 2147483648 := by
  induction k generalizing n with
  | zero =>
    rw [countOn, Function.iterate_zero, id]
    omega
  | succ k ih =>
    rw [countOn, Function.iterate_succ_apply, ← countOn, intSucc]
    split
    . rw [ih (by omega)]
      omega
    . rw [ih (by omega)]
      omega

theorem countOn_zero_eq_iff {k n : Nat} (hle : k ≤ n) : countOn 0 k = n ↔ k = n ∧ n ≤ 2147483647 := by
  rw [countOn_eq (by decide)]
  omega

theorem countOn_range {n : Int} (hn : -2147483648 ≤ n ∧ n ≤ 2147483647) (k : Nat)
    : -2147483648 ≤ countOn n k ∧ countOn n k ≤ 2147483647 := by
  rw [countOn_eq hn]
  omega

theorem countOn_countOn (n : Int) (k l : Nat) : countOn (countOn n k) l = countOn n (k + l) := by
  rw [countOn, countOn, countOn, Nat.add_comm, Function.iterate_add_apply]

theorem consume_nCharParsed (parser : RequestParser) (req : Request) (b : UInt8)
    : (parser.consume req b).2.1.nCharParsed = parser.nCharParsed := by
  rcases parser with ⟨state, methodHelper, headerHelper, n⟩
  cases state <;> simp only [consume, consume.expect] <;> split_ifs <;> rfl

theorem parse_nCharParsed (parser : RequestParser) (req : Request) (s : Bytes)
    : (parser.parse req s).parser.nCharParsed
        =
      countOn parser.nCharParsed (s.length - (parser.parse req s).rest.length) := by
  induction s generalizing parser req with
  | nil => rfl
  | cons b s ih =>
    rw [parse]
    dsimp only
    split
    . rw [List.length_cons, Nat.add_sub_cancel_left, countOn, Function.iterate_one,
        consume_nCharParsed]
    . have hsuffix := (parse_rest_suffix
        { (parser.consume req b).2.1 with nCharParsed := intSucc (parser.consume req b).2.1.nCharParsed }
        (parser.consume req b).2.2 s).length_le
      rw [ih, List.length_cons, Nat.succ_sub hsuffix, countOn, countOn, Function.iterate_succ_apply,
        consume_nCharParsed]

theorem consume_withCount (parser : RequestParser) (req : Request) (b : UInt8) (n : Int)
    : consume { parser with nCharParsed := n } req b
        =
      ((parser.consume req b).1, { (parser.consume req b).2.1 with nCharParsed := n },
        (parser.consume req b).2.2) := by
  rcases parser with ⟨state, methodHelper, headerHelper, n'⟩
  cases state <;> simp only [consume, consume.expect] <;> split_ifs <;> rfl

theorem parse_withCount (parser : RequestParser) (req : Request) (s : Bytes) (n : Int)
    : ∃ n', parse { parser with nCharParsed := n } req s
        =
      { parser.parse req s with parser := { (parser.parse req s).parser with nCharParsed := n' } } := by
  induction s generalizing parser req n with
  | nil => exact ⟨n, rfl⟩
  | cons b s ih =>
    rw [parse, parse, consume_withCount]
    dsimp only
    split
    . exact ⟨_, rfl⟩
    . exact ih { (parser.consume req b).2.1 with
        nCharParsed := intSucc (parser.consume req b).2.1.nCharParsed } _ _

/-! ## After `parseData` -/

/--
A header that reading the content length has left behind changes nothing for a head that is accepted: the
parser would have put it there with the same value.
-/
theorem consume_leftByParseData {b : UInt8} (h : (parser.consume req b).1 ≠ .bad) (body : Bytes)
    : parser.consume (req.leftByParseData body) b
        =
      ((parser.consume req b).1, (parser.consume req b).2.1,
        (parser.consume req b).2.2.leftByParseData body) := by
  rcases parser with ⟨state, methodHelper, headerHelper, n⟩
  cases state with
  | headerLineStart =>
    -- the first header line cannot begin with white space, so it does not matter that there are headers
    have hlws : b = ' '.toUInt8 ∨ b = '\t'.toUInt8 → isTspecial (charToInt b) = true := by
      rintro (rfl | rfl) <;> decide
    revert h
    simp only [consume, Request.leftByParseData, Request.touchContentLength, OrdMap.isEmpty_insert]
    split_ifs <;> simp_all
  | spaceBeforeHeaderValue =>
    simp only [consume, Request.leftByParseData, Request.touchContentLength]
    split_ifs
    . rw [OrdMap.insert, OrdMap.alter_insert (by simp)]
      rfl
    . rfl
  | headerValue =>
    simp only [consume, Request.leftByParseData, Request.touchContentLength]
    split_ifs
    . rfl
    . rfl
    . rw [OrdMap.alter_insert (by simp)]
  | _ =>
    simp only [consume, consume.expect, Request.leftByParseData, Request.touchContentLength]
    split_ifs <;> rfl

theorem parse_leftByParseData (h : (parser.parse req s).result ≠ .bad) (body : Bytes)
    : parser.parse (req.leftByParseData body) s
        =
      { parser.parse req s with request := (parser.parse req s).request.leftByParseData body } := by
  induction s generalizing parser req with
  | nil => rfl
  | cons b s ih =>
    have hconsume : (parser.consume req b).1 ≠ .bad := by
      intro hbad
      apply h
      rw [parse]
      simp [hbad]
    rw [parse] at h
    rw [parse, parse, consume_leftByParseData hconsume]
    dsimp only at h ⊢
    split
    . rfl
    next hverdict =>
      rw [if_neg hverdict] at h
      exact ih h

/-! ## `parseData` on a content length it can work with -/

theorem parseData_of_fits {request request' : Request} {result : ResultType} {data : Bytes} {n : Nat} {c : Int}
    (hparse : parser.parse request (data.take n) = ⟨result, rest, parser', request'⟩)
    (hlength : utility.getContentLength request' = .ok (c, request'.touchContentLength))
    (hfits : c = 0 ∨ 0 < c ∧ c ≤ Bytes.strlen data ∧ parser'.nCharParsed ≠ Bytes.strlen data)
    : parser.parseData request data n
        =
      .ok (result, parser',
        request'.leftByParseData ((Bytes.cStr data).drop (Bytes.strlen data - c.toNat))) := by
  rw [parseData_of_contentLength (by rw [hparse]; exact hlength), hparse, if_neg (by dsimp only; omega)]
  have hpos : (Bytes.strlen data : Int) - c = (Bytes.strlen data - c.toNat : Nat) := by omega
  rw [hpos, Bytes.substr_eq_ok (by rw [Bytes.strlen]; omega), Outcome.ok_bind]
  rfl

theorem parseData_of_missing {request request' : Request} {result : ResultType} {data : Bytes} {n : Nat}
    {c : Int} (hparse : parser.parse request (data.take n) = ⟨result, rest, parser', request'⟩)
    (hlength : utility.getContentLength request' = .ok (c, request'.touchContentLength))
    (hpos : 0 < c) (hmissing : parser'.nCharParsed = Bytes.strlen data)
    : parser.parseData request data n = .ok (.missingData, parser', request'.touchContentLength) := by
  rw [parseData_of_contentLength (by rw [hparse]; exact hlength), hparse, if_pos ⟨hpos, hmissing⟩]

end RequestParser

end Foxy
