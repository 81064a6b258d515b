import FoxyServer.RequestParser.Resume

/-!
This module contains where `parseData` takes the body from: which bytes of the memory it looks at, and
which of them it takes for the body of a head that has been accepted.
-/

namespace Foxy

namespace Request

def Announces (request : Request) (c : Int) : Prop :=
  utility.getContentLength request = .ok (c, request.touchContentLength)

instance (request : Request) (c : Int) : Decidable (request.Announces c) :=
  inferInstanceAs (Decidable (_ = _))

end Request

namespace RequestParser

variable {parser parser' : RequestParser} {req req' : Request} {data data' : Bytes} {n : Nat} {c : Int}

/-! ## The bytes behind those that have been transferred -/

theorem parseData_congr (htake : data.take n = data'.take n) (hstr : Bytes.cStr data = Bytes.cStr data')
    : parser.parseData req data n = parser.parseData req data' n := by
  unfold parseData Bytes.strlen
  rw [htake, hstr]

theorem parseData_congr_of_announces (htake : data.take n = data'.take n)
    (h : ∀ c, (parser.parse req (data.take n)).request.Announces c →
      parser.parseData req data n = parser.parseData req data' n)
    : parser.parseData req data n = parser.parseData req data' n := by
  by_cases hreads : ∃ c, (parser.parse req (data.take n)).request.Announces c
  . rcases hreads with ⟨c, hc⟩
    exact h c hc
  . unfold parseData
    rw [← htake]
    apply Outcome.bind_congr
    rintro ⟨c, request⟩ hout
    rw [(utility.getContentLength_eq_ok.mp hout).1] at hout
    exact absurd ⟨c, hout⟩ hreads

theorem parseData_of_zero (h : (parser.parse req (data.take n)).request.Announces 0)
    : parser.parseData req data n
        =
      .ok ((parser.parse req (data.take n)).result, (parser.parse req (data.take n)).parser,
        (parser.parse req (data.take n)).request.leftByParseData []) := by
  rw [parseData_of_fits rfl h (.inl rfl)]
  simp [Bytes.strlen]

theorem parseData_of_unfit (h : (parser.parse req (data.take n)).request.Announces c)
    (hunfit : c < 0
      ∨ (Bytes.strlen data : Int) < c ∧ (parser.parse req (data.take n)).parser.nCharParsed ≠ Bytes.strlen data)
    : parser.parseData req data n = .throws .outOfRange := by
  rw [parseData_of_contentLength h, if_neg (by omega), Bytes.substr, if_neg]
  . rfl
  . rw [Bytes.strlen] at hunfit ⊢
    omega

theorem parseData_leftover {s : Bytes} {k : Nat} {b : UInt8} (hs : s.NoNul) (hb : b ≠ 0)
    (hlength : (parser.parse req s).request.Announces c) (hpos : 0 < c) (hk : c ≤ k)
    (hcount : (parser.parse req s).parser.nCharParsed ≠ (s.length + k : Nat))
    : parser.parseData req (s ++ List.replicate k b) s.length
        =
      .ok ((parser.parse req s).result, (parser.parse req s).parser,
        (parser.parse req s).request.leftByParseData (List.replicate c.toNat b)) := by
  have hfill : Bytes.NoNul (List.replicate k b) := by
    intro b' hb'
    rwa [(List.mem_replicate.mp hb').2]
  have hstr : Bytes.cStr (s ++ List.replicate k b) = s ++ List.replicate k b :=
    Bytes.cStr_of_noNul (Bytes.noNul_append.mpr ⟨hs, hfill⟩)
  have hstrlen : Bytes.strlen (s ++ List.replicate k b) = s.length + k := by
    rw [Bytes.strlen, hstr, List.length_append, List.length_replicate]
  have htake : (s ++ List.replicate k b).take s.length = s := List.take_left
  have hdrop : (s ++ List.replicate k b).drop (s.length + k - c.toNat) = List.replicate c.toNat b := by
    rw [show s.length + k - c.toNat = s.length + (k - c.toNat) by omega, List.drop_length_add_append,
      List.drop_replicate]
    congr 1
    omega
  rw [parseData_of_fits (by rw [htake]) hlength (.inr ⟨hpos, by omega, by rwa [hstrlen]⟩), hstr, hstrlen, hdrop]

/--
The bytes behind those that have been transferred play no part exactly if the head announces no body, or the
string ends before them.
-/
theorem parseData_ignores_leftovers_iff (parser : RequestParser) (req : Request) (s : Bytes)
    : (∀ data data', data.take s.length = s → data'.take s.length = s →
          parser.parseData req data s.length = parser.parseData req data' s.length)
        ↔
      (∀ c, (parser.parse req s).request.Announces c → c ≤ 0) ∨ ¬s.NoNul := by
  constructor
  . intro h
    by_contra hnot
    push Not at hnot
    rcases hnot with ⟨⟨c, hlength, hpos⟩, hs⟩
    -- enough bytes for a body, and not just as many as would make the parser wait for it
    have hk : ∃ k : Nat, c ≤ k ∧ (parser.parse req s).parser.nCharParsed ≠ (s.length + k : Nat) := by
      by_cases hcount : (parser.parse req s).parser.nCharParsed = (s.length + c.toNat : Nat)
      . exact ⟨c.toNat + 1, by omega, by omega⟩
      . exact ⟨c.toNat, by omega, hcount⟩
    rcases hk with ⟨k, hk, hcount⟩
    have hsame := h (s ++ List.replicate k 1) (s ++ List.replicate k 2) List.take_left List.take_left
    rw [parseData_leftover hs (by decide) hlength hpos hk hcount,
      parseData_leftover hs (by decide) hlength hpos hk hcount] at hsame
    simp only [Outcome.ok.injEq, Prod.mk.injEq, Request.leftByParseData, Request.mk.injEq, true_and] at hsame
    rw [List.replicate_right_inj (by omega)] at hsame
    exact absurd hsame (by decide)
  . intro h data data' hdata hdata'
    have htake : data.take s.length = data'.take s.length := hdata.trans hdata'.symm
    rcases h with hnone | hnul
    . apply parseData_congr_of_announces htake
      intro c hc
      have hc' := hc
      rw [htake] at hc'
      have hle := hnone c (by rwa [hdata] at hc)
      rcases lt_or_eq_of_le hle with hneg | rfl
      . rw [parseData_of_unfit hc (.inl hneg), parseData_of_unfit hc' (.inl hneg)]
      . rw [parseData_of_zero hc, parseData_of_zero hc', htake]
    . apply parseData_congr htake
      have hsplit := List.take_append_drop s.length data
      have hsplit' := List.take_append_drop s.length data'
      rw [hdata] at hsplit
      rw [hdata'] at hsplit'
      rw [← hsplit, ← hsplit', Bytes.cStr_append_of_nul hnul, Bytes.cStr_append_of_nul hnul]

theorem parseData_reads_leftovers
    : ¬∀ (parser : RequestParser) (req : Request) (data data' : Bytes) (n : Nat),
        n ≤ data.length → n ≤ data'.length → data.take n = data'.take n →
          parser.parseData req data n = parser.parseData req data' n := by
  intro h
  have hsame := h {} {} (Bytes.lit "POST / HTTP/1.1\r\nContent-Length: 2\r\n\r\nabx")
    (Bytes.lit "POST / HTTP/1.1\r\nContent-Length: 2\r\n\r\naby") 40
  revert hsame
  decide +kernel

/-! ## The body of an accepted head -/

structure AcceptsHead (parser : RequestParser) (req : Request) (head : Bytes) (c : Int) : Prop where
  result : (parser.parse req head).result = .good
  rest : (parser.parse req head).rest = []
  announces : (parser.parse req head).request.Announces c

theorem AcceptsHead.parse_append {head : Bytes} (h : AcceptsHead parser req head c) (t : Bytes)
    : parser.parse req (head ++ t)
        =
      ⟨.good, t, (parser.parse req head).parser, (parser.parse req head).request⟩ := by
  rw [parse_append_of_verdict (by simp [h.result])]
  simp only [h.result, h.rest, List.nil_append]

theorem AcceptsHead.nCharParsed {head : Bytes} (h : AcceptsHead parser req head c)
    : (parser.parse req head).parser.nCharParsed = countOn parser.nCharParsed head.length := by
  rw [parse_nCharParsed, h.rest, List.length_nil, Nat.sub_zero]

theorem AcceptsHead.noNul {head : Bytes} (h : AcceptsHead parser req head c) : head.NoNul :=
  parse_noNul (by simp [h.result]) h.rest

/--
The body of a request is what follows its head, as much as the head announces: a request whose body has
arrived gets all of it and nothing else, and one whose body has not is waited for.
-/
def BodyFollows (body : Bytes) (c : Int) (out : Outcome (ResultType × RequestParser × Request)) : Prop :=
  (∀ parser req, out = .ok (.good, parser, req) → c ≤ body.length ∧ req.body = body.take c.toNat)
    ∧ (body.length < c → ∃ parser req, out = .ok (.missingData, parser, req))

theorem bodyFollows_good_iff {body : Bytes}
    : BodyFollows body c (.ok (.good, parser, req)) ↔ c ≤ body.length ∧ req.body = body.take c.toNat := by
  constructor
  . intro h
    exact h.1 parser req rfl
  . intro h
    refine ⟨?_, fun hshort => by omega⟩
    rintro parser' req' heq
    simp only [Outcome.ok.injEq, Prod.mk.injEq, true_and] at heq
    rw [← heq.2]
    exact h

/--
This is so exactly if nothing has arrived behind the head, or enough, and then the last bytes of what has
arrived are the first.
-/
theorem bodyFollows_iff {head body : Bytes} (hhead : AcceptsHead {} req head c) (hpos : 0 < c)
    (hbody : body.NoNul) (tail : Bytes) (hn : head.length ≤ n)
    : BodyFollows body c (parseData {} req (head ++ body ++ 0 :: tail) n)
        ↔
      body = [] ∧ head.length ≤ 2147483647
        ∨ c ≤ body.length ∧ body.drop (body.length - c.toNat) = body.take c.toNat := by
  have hstr : Bytes.cStr (head ++ body ++ 0 :: tail) = head ++ body := by
    rw [Bytes.cStr_append_of_noNul (Bytes.noNul_append.mpr ⟨hhead.noNul, hbody⟩)]
    exact List.append_nil _
  have hstrlen : Bytes.strlen (head ++ body ++ 0 :: tail) = head.length + body.length := by
    rw [Bytes.strlen, hstr, List.length_append]
  have hparse : parse {} req ((head ++ body ++ 0 :: tail).take n)
      = ⟨.good, (body ++ 0 :: tail).take (n - head.length), (parse {} req head).parser,
          (parse {} req head).request⟩ := by
    rw [List.append_assoc, List.take_append, List.take_of_length_le hn, hhead.parse_append]
  have hcount : (parse {} req head).parser.nCharParsed = (head.length + body.length : Nat)
      ↔ body = [] ∧ head.length ≤ 2147483647 := by
    rw [hhead.nCharParsed, countOn_zero_eq_iff (Nat.le_add_right _ _), ← List.length_eq_zero_iff]
    omega
  by_cases hmissing : body = [] ∧ head.length ≤ 2147483647
  . -- the parser waits, and has reason to
    rw [parseData_of_missing hparse hhead.announces hpos (by rw [hstrlen]; exact hcount.mpr hmissing)]
    refine iff_of_true ⟨by simp, fun _ => ⟨_, _, rfl⟩⟩ (.inl hmissing)
  . rw [or_iff_right hmissing]
    have hcounted := hcount.not.mpr hmissing
    by_cases hfits : c ≤ (head.length + body.length : Nat)
    . rw [parseData_of_fits hparse hhead.announces (.inr ⟨hpos, by rwa [hstrlen], by rwa [hstrlen]⟩),
        bodyFollows_good_iff, hstr, hstrlen]
      refine and_congr_right fun hle => ?_
      have hdrop : (head ++ body).drop (head.length + body.length - c.toNat)
          = body.drop (body.length - c.toNat) := by
        rw [show head.length + body.length - c.toNat = head.length + (body.length - c.toNat) by omega,
          List.drop_length_add_append]
      rw [← hdrop]
      rfl
    -- more is announced than there is, and substr throws
    . rw [parseData_of_unfit (c := c) (by rw [hparse]; exact hhead.announces)
        (.inr ⟨by rw [hstrlen]; omega, by rwa [hparse, hstrlen]⟩)]
      refine iff_of_false ?_ (by omega)
      rintro ⟨-, hshort⟩
      rcases hshort (by omega) with ⟨_, _, heq⟩
      cases heq

theorem acceptsHead_post : AcceptsHead {} {} (Bytes.lit "POST / HTTP/1.1\r\nContent-Length: 2\r\n\r\n") 2 :=
  ⟨by decide +kernel, by decide +kernel, by decide +kernel⟩

theorem bodyFollows_arrived
    : BodyFollows (Bytes.lit "ab") 2
        (parseData {} {} (Bytes.lit "POST / HTTP/1.1\r\nContent-Length: 2\r\n\r\nab\x00") 40) := by
  exact (bodyFollows_iff (n := 40) acceptsHead_post (by decide) (by decide +kernel) [] (by decide +kernel)).mpr
    (.inr ⟨by decide +kernel, by decide +kernel⟩)

/-- With half of the body the parser is content, and takes the end of the head for the other half. -/
theorem not_bodyFollows_half
    : ¬∀ (head body tail : Bytes) (c : Int) (n : Nat), AcceptsHead {} {} head c → 0 < c → body.NoNul →
        n = head.length + body.length → BodyFollows body c (parseData {} {} (head ++ body ++ 0 :: tail) n) := by
  intro h
  have hfollows := h _ (Bytes.lit "a") [] 2 39 acceptsHead_post (by decide) (by decide +kernel) (by decide +kernel)
  rcases hfollows.2 (by decide +kernel) with ⟨parser, req, hout⟩
  have hgood : (parseData {} {}
      (Bytes.lit "POST / HTTP/1.1\r\nContent-Length: 2\r\n\r\n" ++ Bytes.lit "a" ++ [0]) 39).Yields
        (·.1 = .good) := by
    decide +kernel
  rw [hout] at hgood
  simp at hgood

/-! ## The verdict of `parse` -/

theorem take_strlen (data : Bytes) : data.take (Bytes.strlen data) = Bytes.cStr data :=
  (List.prefix_iff_eq_take.mp (Bytes.cStr_prefix data)).symm

/--
A verdict of `parse` that is bad or asks for more is passed on, and the parser only waits for the body of a
head that it has accepted.
-/
structure KeepsVerdict (verdict : ResultType) (out : Outcome (ResultType × RequestParser × Request)) : Prop where
  bad : verdict = .bad → out.Yields (·.1 = .bad)
  indeterminate : verdict = .indeterminate → out.Yields (·.1 = .indeterminate)
  missingData : out.Yields (·.1 = .missingData) → verdict = .good

theorem keepsVerdict_good (out : Outcome (ResultType × RequestParser × Request)) : KeepsVerdict .good out :=
  ⟨(fun h => by cases h), (fun h => by cases h), fun _ => rfl⟩

theorem keepsVerdict_iff_yields {verdict : ResultType} {out : Outcome (ResultType × RequestParser × Request)}
    (h : verdict = .bad ∨ verdict = .indeterminate) : KeepsVerdict verdict out ↔ out.Yields (·.1 = verdict) := by
  constructor
  . intro hkeeps
    rcases h with rfl | rfl
    . exact hkeeps.bad rfl
    . exact hkeeps.indeterminate rfl
  . rintro ⟨res, hout, hresult⟩
    refine ⟨?_, ?_, ?_⟩
    . rintro rfl
      exact ⟨res, hout, hresult⟩
    . rintro rfl
      exact ⟨res, hout, hresult⟩
    . rintro ⟨res', hout', hmissing⟩
      rw [hout, Outcome.ok.injEq] at hout'
      rw [← hout', hresult] at hmissing
      rw [hmissing] at h
      simp at h

def Harmless (request : Request) (rest : Bytes) (length : Nat) : Prop :=
  request.Announces 0
    ∨ ∃ c, request.Announces c ∧ 0 < c ∧ c ≤ length ∧ (rest ≠ [] ∨ 2147483647 < length)

theorem nCharParsed_eq_length_iff (req : Request) (s : Bytes)
    : (parse {} req s).parser.nCharParsed = s.length ↔ (parse {} req s).rest = [] ∧ s.length ≤ 2147483647 := by
  have hle := (parse_rest_suffix {} req s).length_le
  rw [parse_nCharParsed, countOn_zero_eq_iff (Nat.sub_le _ _), ← List.length_eq_zero_iff]
  cases s with
  | nil => simp [parse]
  | cons b s =>
    rw [List.length_cons] at hle ⊢
    omega

theorem announces_of_returns (h : (parser.parseData req data n).Returns)
    : ∃ c, (parser.parse req (data.take n)).request.Announces c := by
  rcases h with ⟨out, hout⟩
  rcases Outcome.bind_eq_ok.mp hout with ⟨⟨c, request⟩, hlength, -⟩
  rw [(utility.getContentLength_eq_ok.mp hlength).1] at hlength
  exact ⟨c, hlength⟩

/--
`parse_data` keeps the verdict of `parse` exactly if that is good, or the content length found so far does not
get in the way.
-/
theorem parseData_keeps_verdict_iff (req : Request) (data : Bytes)
    : KeepsVerdict (parse {} req (Bytes.cStr data)).result (parseData {} req data (Bytes.strlen data))
        ↔
      (parse {} req (Bytes.cStr data)).result = .good
        ∨ Harmless (parse {} req (Bytes.cStr data)).request (parse {} req (Bytes.cStr data)).rest
            (Bytes.strlen data) := by
  have hcount := nCharParsed_eq_length_iff req (Bytes.cStr data)
  have hne := parse_result_ne_missingData {} req (Bytes.cStr data)
  rw [← take_strlen] at hcount hne ⊢
  have hlength : (data.take (Bytes.strlen data)).length = Bytes.strlen data := by rw [take_strlen, Bytes.strlen]
  rw [hlength] at hcount
  set parsed := parse {} req (data.take (Bytes.strlen data)) with hparsed
  by_cases hgood : parsed.result = .good
  . rw [hgood]
    exact iff_of_true (keepsVerdict_good _) (.inl rfl)
  . have hverdict : parsed.result = .bad ∨ parsed.result = .indeterminate := by
      cases hresult : parsed.result <;> simp_all
    rw [keepsVerdict_iff_yields hverdict, or_iff_right hgood]
    constructor
    . rintro ⟨out, hout, hresult⟩
      rcases announces_of_returns ⟨out, hout⟩ with ⟨c, hc⟩
      rcases lt_trichotomy c 0 with hneg | rfl | hpos
      . rw [parseData_of_unfit hc (.inl hneg)] at hout
        cases hout
      . exact .inl hc
      . by_cases hmissing : parsed.parser.nCharParsed = Bytes.strlen data
        . rw [parseData_of_missing rfl hc hpos hmissing, Outcome.ok.injEq] at hout
          rw [← hout] at hresult
          exact absurd hresult.symm hne
        . by_cases hfits : c ≤ Bytes.strlen data
          . rw [hcount, not_and_or, not_le] at hmissing
            exact .inr ⟨c, hc, hpos, hfits, hmissing⟩
          . rw [parseData_of_unfit hc (.inr ⟨by omega, hmissing⟩)] at hout
            cases hout
    . rintro (hzero | ⟨c, hc, hpos, hfits, hread⟩)
      -- without a length the verdict is passed on
      . rw [parseData_of_zero hzero]
        exact ⟨_, rfl, rfl⟩
      . rw [← not_le, ← not_and_or, ← hcount] at hread
        rw [parseData_of_fits rfl hc (.inr ⟨hpos, hfits, hread⟩)]
        exact ⟨_, rfl, rfl⟩

/-- The head ends before its blank line, and the parser waits for a body. -/
theorem parseData_masks_verdict
    : ¬∀ data : Bytes, KeepsVerdict (parse {} {} (Bytes.cStr data)).result
        (parseData {} {} data (Bytes.strlen data)) := by
  intro h
  have hkeeps := (h (Bytes.lit "POST / HTTP/1.1\r\nContent-Length: 2\r\n\x00")).missingData (by decide +kernel)
  revert hkeeps
  decide +kernel

end RequestParser

end Foxy
