import FoxyServer.RequestParser.Grammar

/-!
This module contains the proof that the verdict of the parser is decided by the grammar: the parser is
a scanner for it.
-/

open Scanner

namespace Foxy

open Grammar

namespace RequestParser

def ResultType.toVerdict : ResultType → Verdict
  | .good => .good
  | .bad => .bad
  | _ => .more

def scanner : Scanner (RequestParser × Request) UInt8 where
  step := fun (parser, req) input =>
    let (result, parser, req) := parser.consume req input
    (result.toVerdict, ({ parser with nCharParsed := intSucc parser.nCharParsed }, req))

theorem scanner_step (parser : RequestParser) (req : Request) (input : UInt8)
    : scanner.step (parser, req) input
        =
      ((parser.consume req input).1.toVerdict,
        ({ (parser.consume req input).2.1 with
            nCharParsed := intSucc (parser.consume req input).2.1.nCharParsed },
          (parser.consume req input).2.2)) := rfl

theorem headerSeen_consume {parser : RequestParser} {req : Request} {b : UInt8}
    (h : HeaderSeen parser.state req.headers.isEmpty)
    : HeaderSeen (parser.consume req b).2.1.state (parser.consume req b).2.2.headers.isEmpty := by
  rcases parser with ⟨state, methodHelper, headerHelper, n⟩
  cases state <;> simp only [consume, consume.expect] <;> split_ifs <;> simp_all [HeaderSeen]

theorem consume_result_ne_missingData (parser : RequestParser) (req : Request) (b : UInt8)
    : (parser.consume req b).1 ≠ .missingData := by
  rcases parser with ⟨state, methodHelper, headerHelper, n⟩
  cases state <;> simp only [consume, consume.expect] <;> split_ifs <;> simp

theorem scanner_recognises
    : scanner.Recognises (fun s => HeaderSeen s.1.state s.2.headers.isEmpty)
        (fun s => residual s.1.state s.2.headers.isEmpty) where
  invariant := by
    rintro ⟨parser, req⟩ b ⟨parser', req'⟩ hseen hstep
    have := headerSeen_consume (b := b) hseen
    simp only [scanner_step, Prod.mk.injEq] at hstep
    rcases hstep with ⟨-, rfl, rfl⟩
    exact this
  nil := fun _ => nil_notMem_residual _ _
  more := by
    rintro ⟨parser, req⟩ b ⟨parser', req'⟩ w hseen hstep
    rw [cons_mem_residual hseen]
    have hne := consume_result_ne_missingData parser req b
    rcases hconsume : parser.consume req b with ⟨result, parser1, req1⟩
    rw [hconsume] at hne
    simp only [scanner_step, hconsume, Prod.mk.injEq] at hstep
    rcases hstep with ⟨hverdict, rfl, rfl⟩
    cases result <;> simp_all [ResultType.toVerdict, Continues]
  good := by
    rintro ⟨parser, req⟩ b ⟨parser', req'⟩ w hseen hstep
    rw [cons_mem_residual hseen]
    rcases hconsume : parser.consume req b with ⟨result, parser1, req1⟩
    simp only [scanner_step, hconsume, Prod.mk.injEq] at hstep
    cases result <;> simp_all [ResultType.toVerdict, Continues]
  bad := by
    rintro ⟨parser, req⟩ b ⟨parser', req'⟩ w hseen hstep
    rw [cons_mem_residual hseen]
    rcases hconsume : parser.consume req b with ⟨result, parser1, req1⟩
    simp only [scanner_step, hconsume, Prod.mk.injEq] at hstep
    cases result <;> simp_all [ResultType.toVerdict, Continues]
  viable := fun _ => nonempty_residual _ _

theorem parse_eq_scan (parser : RequestParser) (req : Request) (s : Bytes)
    : scanner.scan (parser, req) s
        =
      ((parser.parse req s).result.toVerdict, (parser.parse req s).rest,
        ((parser.parse req s).parser, (parser.parse req s).request)) := by
  induction s generalizing parser req with
  | nil => rfl
  | cons b s ih =>
    have hne := consume_result_ne_missingData parser req b
    rw [parse, scan, scanner_step]
    rcases hconsume : parser.consume req b with ⟨result, parser1, req1⟩
    rw [hconsume] at hne
    cases result with
    | good => rfl
    | bad => rfl
    | indeterminate => exact ih _ _
    | missingData => exact absurd rfl hne

theorem parse_result_ne_missingData (parser : RequestParser) (req : Request) (s : Bytes)
    : (parser.parse req s).result ≠ .missingData := by
  induction s generalizing parser req with
  | nil => simp [parse]
  | cons b s ih =>
    have hne := consume_result_ne_missingData parser req b
    rw [parse]
    rcases hconsume : parser.consume req b with ⟨result, parser1, req1⟩
    rw [hconsume] at hne
    dsimp only
    split_ifs
    . exact hne
    . exact ih _ _

theorem parse_rest_suffix (parser : RequestParser) (req : Request) (s : Bytes)
    : (parser.parse req s).rest <:+ s := by
  simpa [parse_eq_scan] using scanner.scan_rest_suffix (parser, req) s

section Verdict

variable {parser : RequestParser} {req : Request} (hseen : HeaderSeen parser.state req.headers.isEmpty)
  {s rest : Bytes}

include hseen

theorem parse_good_iff
    : (parser.parse req s).result = .good ∧ (parser.parse req s).rest = rest
        ↔
      ∃ w ∈ residual parser.state req.headers.isEmpty, s = w ++ rest := by
  rw [← scanner_recognises.scan_good_iff (s := (parser, req)) hseen, parse_eq_scan]
  cases hresult : (parser.parse req s).result <;> simp [ResultType.toVerdict]

theorem parse_indeterminate_iff
    : (parser.parse req s).result = .indeterminate
        ↔
      ∃ w, w ≠ [] ∧ s ++ w ∈ residual parser.state req.headers.isEmpty := by
  rw [← scanner_recognises.scan_more_iff (s := (parser, req)) hseen, parse_eq_scan]
  have hne := parse_result_ne_missingData parser req s
  cases hresult : (parser.parse req s).result <;> simp_all [ResultType.toVerdict]

theorem parse_bad (hbad : (parser.parse req s).result = .bad)
    : ∃ n ≤ s.length, (parser.parse req s).rest = s.drop n
        ∧ (∀ w, s.take n ++ w ∉ residual parser.state req.headers.isEmpty)
        ∧ ∀ k < n, ∃ w, s.take k ++ w ∈ residual parser.state req.headers.isEmpty := by
  apply scanner_recognises.scan_bad (s := (parser, req)) hseen
  rw [parse_eq_scan, hbad]
  rfl

end Verdict

/--
The verdict on a byte sequence, from a fresh or reset parser and an empty request: good exactly after a
word of the grammar, indeterminate exactly on the proper prefixes of words, and otherwise bad, after the
shortest prefix that no word extends.
-/
theorem parse_verdict {parser : RequestParser} (hfresh : parser = {} ∨ ∃ old, parser = reset old)
    (s : Bytes)
    : (∀ n ≤ s.length,
          (parser.parse {} s).result = .good ∧ (parser.parse {} s).rest = s.drop n ↔ s.take n ∈ head)
        ∧ ((parser.parse {} s).result = .indeterminate ↔ ∃ w, w ≠ [] ∧ s ++ w ∈ head)
        ∧ ((parser.parse {} s).result = .bad
            ↔ (¬∃ n ≤ s.length, s.take n ∈ head) ∧ ¬∃ w, w ≠ [] ∧ s ++ w ∈ head)
        ∧ ((parser.parse {} s).result = .bad →
            ∃ n ≤ s.length, (parser.parse {} s).rest = s.drop n ∧ (∀ w, s.take n ++ w ∉ head)
              ∧ ∀ m < n, ∃ w, s.take m ++ w ∈ head) := by
  have hstate : parser.state = .methodStart := by
    rcases hfresh with rfl | ⟨old, rfl⟩ <;> rfl
  have hresidual : residual parser.state ({} : Request).headers.isEmpty = head := by
    rw [hstate, ← residual_methodStart]
    rfl
  have hseen : HeaderSeen parser.state ({} : Request).headers.isEmpty := by simp [HeaderSeen, hstate]
  have hgood := fun rest => @parse_good_iff _ _ hseen s rest
  have hindet := parse_indeterminate_iff (s := s) hseen
  have hbad := parse_bad (s := s) hseen
  rw [hresidual] at hindet hbad
  simp only [hresidual] at hgood
  have hgoodTake : ∀ n ≤ s.length,
      (parser.parse {} s).result = .good ∧ (parser.parse {} s).rest = s.drop n ↔ s.take n ∈ head := by
    intro n hn
    rw [hgood]
    constructor
    . rintro ⟨w, hw, heq⟩
      have : w = s.take n := by
        have hcancel : w ++ s.drop n = s.take n ++ s.drop n := by
          rw [List.take_append_drop, ← heq]
        exact List.append_cancel_right hcancel
      rwa [← this]
    . intro h
      exact ⟨s.take n, h, (List.take_append_drop n s).symm⟩
  -- whatever the verdict, what is left is an end of the text
  have hrest : ∃ n ≤ s.length, (parser.parse {} s).rest = s.drop n := by
    rcases parse_rest_suffix parser {} s with ⟨u, hu⟩
    refine ⟨u.length, ?_, ?_⟩
    . have hlength := congrArg List.length hu
      rw [List.length_append] at hlength
      omega
    . conv_rhs => rw [← hu, List.drop_left]
  refine ⟨hgoodTake, hindet, ?_, hbad⟩
  rw [← hindet]
  have hne := parse_result_ne_missingData parser {} s
  have hsome : (∃ n ≤ s.length, s.take n ∈ head) ↔ (parser.parse {} s).result = .good := by
    constructor
    . rintro ⟨n, hn, h⟩
      exact ((hgoodTake n hn).mpr h).1
    . intro h
      rcases hrest with ⟨n, hn, hdrop⟩
      exact ⟨n, hn, (hgoodTake n hn).mp ⟨h, hdrop⟩⟩
  rw [hsome]
  cases hresult : (parser.parse {} s).result <;> simp_all

theorem parse_verdict_get
    : Bytes.lit "GET /fox HTTP/1.1\r\nHost: foxy\r\n\r\n" ∈ head := by
  have hverdict := parse_verdict (.inr ⟨{}, rfl⟩ : reset {} = {} ∨ ∃ old, reset {} = reset old)
    (Bytes.lit "GET /fox HTTP/1.1\r\nHost: foxy\r\n\r\nrest")
  exact (hverdict.1 33 (by decide)).mp (by decide)

end RequestParser

end Foxy
