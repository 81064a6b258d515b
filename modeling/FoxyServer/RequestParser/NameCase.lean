import FoxyServer.Library.Lockstep
import FoxyServer.RequestParser.PartialHeads

/-!
This module contains requests that differ only in the letter case of the names of their headers. The parser
takes the same way through both of them, and differs only in what it has stored under which name.
-/

open Scanner

namespace Foxy

open Grammar

namespace RequestParser

/-! ## The letter case of names -/

def lowered (b : UInt8) : UInt8 :=
  if 'A'.toUInt8 ≤ b ∧ b ≤ 'Z'.toUInt8 then b + 32 else b

/--
Two texts from the beginning of a line on. They differ only in the letter case of names in front of a colon,
and only on lines before the first empty one.
-/
inductive NamesRecased : Bytes → Bytes → Prop where
  | same (rest : Bytes) : NamesRecased rest rest
  | header {name name' value rest rest' : Bytes} (hname : ∀ b ∈ name, TokenChar b)
    (hsame : name.map lowered = name'.map lowered) (hvalue : ¬Bytes.crlf <:+: value)
    (hrest : NamesRecased rest rest')
    : NamesRecased (name ++ (Bytes.lit ":" ++ value ++ Bytes.crlf ++ rest))
        (name' ++ (Bytes.lit ":" ++ value ++ Bytes.crlf ++ rest'))
  | line {text rest rest' : Bytes} (hne : text ≠ []) (htext : ¬Bytes.crlf <:+: text)
    (hrest : NamesRecased rest rest')
    : NamesRecased (text ++ Bytes.crlf ++ rest) (text ++ Bytes.crlf ++ rest')

/-- Two requests that differ only in the letter case of the names of their headers. -/
inductive Recased : Bytes → Bytes → Prop where
  | request {first rest rest' : Bytes} (hfirst : ¬Bytes.crlf <:+: first) (hrest : NamesRecased rest rest')
    : Recased (first ++ Bytes.crlf ++ rest) (first ++ Bytes.crlf ++ rest')

theorem NamesRecased.lowered_eq {s t : Bytes} (h : NamesRecased s t) : s.map lowered = t.map lowered := by
  induction h with
  | same rest => rfl
  | header hname hsame hvalue hrest ih => simp only [List.map_append, hsame, ih]
  | line hne htext hrest ih => simp only [List.map_append, ih]

theorem Recased.lowered_eq {s t : Bytes} (h : Recased s t) : s.map lowered = t.map lowered := by
  cases h with
  | request hfirst hrest => simp only [List.map_append, hrest.lowered_eq]

theorem tokenChar_of_lowered {b b' : UInt8} (h : lowered b = lowered b') (hb : TokenChar b) : TokenChar b' := by
  have hlowered : ∀ b, TokenChar (lowered b) ↔ TokenChar b := forall_byte (by decide +kernel)
  rw [← hlowered, ← h, hlowered]
  exact hb

/-! ## The way through both texts -/

def SameWay (x : RequestParser × Request) (b b' : UInt8) : Prop :=
  b = b' ∨ (x.1.state = .headerLineStart ∨ x.1.state = .headerName) ∧ TokenChar b ∧ TokenChar b'

structure SamePlace (x x' : RequestParser × Request) : Prop where
  state : x.1.state = x'.1.state
  headers : x.2.headers.isEmpty = x'.2.headers.isEmpty
  body : x.2.body = x'.2.body

theorem consume_nameStart {b : UInt8} (hb : TokenChar b) (methodHelper headerHelper : Bytes) (n : Int)
    (req : Request)
    : consume ⟨.headerLineStart, methodHelper, headerHelper, n⟩ req b
        = (.indeterminate, ⟨.headerName, methodHelper, headerHelper ++ [b], n⟩, req) := by
  have hlws : ¬(!req.headers.isEmpty && (b = ' '.toUInt8 || b = '\t'.toUInt8)) = true := by
    intro hlws
    simp only [Bool.and_eq_true, Bool.or_eq_true, decide_eq_true_eq] at hlws
    exact not_lws_of_tokenChar hb hlws.2
  simp only [consume, notToken_charToInt, if_neg (not_cr_of_tokenChar hb), if_neg hlws, if_neg (not_not.mpr hb)]

theorem consume_nameChar {b : UInt8} (hb : TokenChar b) (methodHelper headerHelper : Bytes) (n : Int)
    (req : Request)
    : consume ⟨.headerName, methodHelper, headerHelper, n⟩ req b
        = (.indeterminate, ⟨.headerName, methodHelper, headerHelper ++ [b], n⟩, req) := by
  simp only [consume, notToken_charToInt, if_neg (not_colon_of_tokenChar hb), if_neg (not_not.mpr hb)]

theorem samePlace_consume {parser parser' : RequestParser} {req req' : Request} {b b' : UInt8}
    (hplace : SamePlace (parser, req) (parser', req')) (hway : SameWay (parser, req) b b')
    : (parser.consume req b).1 = (parser'.consume req' b').1
        ∧ SamePlace (parser.consume req b).2 (parser'.consume req' b').2 := by
  rcases parser with ⟨state, methodHelper, headerHelper, n⟩
  rcases parser' with ⟨state', methodHelper', headerHelper', n'⟩
  rcases hplace with ⟨hstate, hheaders, hbody⟩
  dsimp only at hstate hheaders hbody
  subst hstate
  rcases hway with rfl | ⟨hname, hb, hb'⟩
  . cases state <;> simp only [consume, consume.expect, hheaders] <;> split_ifs <;>
      first | exact ⟨rfl, rfl, hheaders, hbody⟩ | exact ⟨rfl, rfl, by simp, hbody⟩
  . dsimp only at hname
    rcases hname with rfl | rfl
    . rw [consume_nameStart hb, consume_nameStart hb']
      exact ⟨rfl, rfl, hheaders, hbody⟩
    . rw [consume_nameChar hb, consume_nameChar hb']
      exact ⟨rfl, rfl, hheaders, hbody⟩

theorem scanner_lockstep : scanner.Lockstep SamePlace SameWay := by
  rintro ⟨parser, req⟩ ⟨parser', req'⟩ b b' hplace hway
  have hnext := samePlace_consume hplace hway
  rw [scanner_step, scanner_step, hnext.1]
  exact ⟨rfl, hnext.2.state, hnext.2.headers, hnext.2.body⟩

theorem alike_name {x : RequestParser × Request}
    (hstate : x.1.state = .headerLineStart ∨ x.1.state = .headerName) {name name' : Bytes}
    (hname : ∀ b ∈ name, TokenChar b) (hsame : name.map lowered = name'.map lowered)
    : scanner.Alike SameWay x name name' := by
  induction name generalizing x name' with
  | nil =>
    rw [List.map_nil, eq_comm, List.map_eq_nil_iff] at hsame
    rw [hsame]
    trivial
  | cons b name ih =>
    cases name' with
    | nil => cases hsame
    | cons b' name' =>
      simp only [List.map_cons, List.cons.injEq] at hsame
      rcases List.forall_mem_cons.mp hname with ⟨hb, hname⟩
      refine ⟨.inr ⟨hstate, hb, tokenChar_of_lowered hsame.1 hb⟩, fun _ => ih (.inr ?_) hname hsame.2⟩
      rcases x with ⟨⟨state, methodHelper, headerHelper, n⟩, req⟩
      rcases hstate with hstate | hstate
      . cases hstate
        rw [scanner_step, consume_nameStart hb]
      . cases hstate
        rw [scanner_step, consume_nameChar hb]

theorem lineStart_of_crlf {x x1 : RequestParser × Request} {rest : Bytes}
    (h : scanner.scan x Bytes.crlf = (.more, rest, x1)) : x1.1.state = .headerLineStart := by
  rcases x with ⟨parser, req⟩
  rw [Bytes.crlf, scan, scanner_step] at h
  rcases consume_cr parser req with hbad | hnewline
  . rw [hbad] at h
    cases h
  . rcases hconsume : parser.consume req '\r'.toUInt8 with ⟨result, ⟨state, m, w, n⟩, req1⟩
    rw [hconsume] at h hnewline
    cases hverdict : result.toVerdict with
    | good =>
      rw [hverdict] at h
      cases h
    | bad =>
      rw [hverdict] at h
      cases h
    | more =>
      rw [hverdict] at h
      dsimp only at h hnewline
      rw [scan, scanner_step] at h
      simp only [List.mem_cons, List.not_mem_nil, or_false] at hnewline
      rcases hnewline with rfl | rfl | rfl
      . cases h
        rfl
      . cases h
        rfl
      . cases h

theorem lineStart_of_line {x x1 : RequestParser × Request} {line rest : Bytes}
    (h : scanner.scan x (line ++ Bytes.crlf) = (.more, rest, x1)) : x1.1.state = .headerLineStart := by
  rcases hscan : scanner.scan x line with ⟨verdict, rest0, x0⟩
  by_cases hmore : verdict = .more
  . rw [hmore] at hscan
    rw [scan_append_of_more hscan] at h
    exact lineStart_of_crlf h
  . rw [scan_append_of_verdict hscan hmore] at h
    exact absurd (Prod.mk.inj h).1 hmore

theorem sameWay_refl (x : RequestParser × Request) (b : UInt8) : SameWay x b b := .inl rfl

theorem NamesRecased.alike {s t : Bytes} (h : NamesRecased s t) {x : RequestParser × Request}
    (hstate : x.1.state = .headerLineStart) : scanner.Alike SameWay x s t := by
  induction h generalizing x with
  | same rest => exact alike_refl sameWay_refl x rest
  | header hname hsame hvalue hrest ih =>
    apply (alike_name (.inl hstate) hname hsame).append
    intro _ x1 _
    apply (alike_refl sameWay_refl x1 _).append
    intro _ x2 hscan
    exact ih (lineStart_of_line hscan)
  | line hne htext hrest ih =>
    apply (alike_refl sameWay_refl x _).append
    intro _ x1 hscan
    exact ih (lineStart_of_line hscan)

theorem Recased.alike {s t : Bytes} (h : Recased s t) (x : RequestParser × Request)
    : scanner.Alike SameWay x s t := by
  cases h with
  | request hfirst hrest =>
    apply (alike_refl sameWay_refl x _).append
    intro _ x1 hscan
    exact hrest.alike (lineStart_of_line hscan)

theorem Recased.parse {s t : Bytes} (h : Recased s t) (parser : RequestParser) (req : Request) (k : Nat)
    : (parser.parse req (s.take k)).result = (parser.parse req (t.take k)).result
        ∧ (parser.parse req (s.take k)).parser.nCharParsed = (parser.parse req (t.take k)).parser.nCharParsed
        ∧ (parser.parse req (s.take k)).request.body = (parser.parse req (t.take k)).request.body := by
  have hlength : (s.take k).length = (t.take k).length := by
    have hlowered := congrArg List.length h.lowered_eq
    rw [List.length_map, List.length_map] at hlowered
    rw [List.length_take, List.length_take, hlowered]
  have hscan := scan_alike scanner_lockstep ⟨rfl, rfl, rfl⟩ hlength ((h.alike (parser, req)).take k)
  rw [parse_eq_scan, parse_eq_scan] at hscan
  rcases hscan with ⟨hverdict, hrest, hplace⟩
  refine ⟨?_, ?_, hplace.body⟩
  . have hne := parse_result_ne_missingData parser req (s.take k)
    have hne' := parse_result_ne_missingData parser req (t.take k)
    revert hverdict hne hne'
    cases (parser.parse req (s.take k)).result <;> cases (parser.parse req (t.take k)).result <;>
      simp [ResultType.toVerdict]
  . dsimp only at hrest
    rw [parse_nCharParsed, parse_nCharParsed, hlength, hrest]

/-! ## Bodies -/

def announcedLength (contentLengthStr : Bytes) : Outcome Int :=
  if contentLengthStr = [] then .ok 0 else Bytes.stoi contentLengthStr

theorem getContentLength_eq_announced (request : Request)
    : utility.getContentLength request
        = announcedLength request.contentLengthStr >>= fun c => .ok (c, request.touchContentLength) := by
  rw [utility.getContentLength_eq, announcedLength]
  split_ifs <;> rfl

/--
What `parseData` cuts off for the body if this stands under `Content-Length`: so many bytes from the end, or
nothing as long as it waits for them.
-/
def bodyCut (contentLengthStr : Bytes) (charAmount : Int) (length : Nat) : Outcome (Option Nat) :=
  announcedLength contentLengthStr >>= fun c =>
    if c > 0 ∧ charAmount = length then
      .ok none
    else if 0 ≤ c ∧ c ≤ length then
      .ok (some c.toNat)
    else
      .throws .outOfRange

def Awaited (contentLengthStr : Bytes) (charAmount : Int) (length : Nat) : Prop :=
  ∃ c, announcedLength contentLengthStr = .ok c ∧ c > 0 ∧ charAmount = length

def CutOff (contentLengthStr : Bytes) (charAmount : Int) (length c : Nat) : Prop :=
  announcedLength contentLengthStr = .ok (c : Int) ∧ ¬(0 < c ∧ charAmount = length) ∧ c ≤ length

def OutOfRange (contentLengthStr : Bytes) (charAmount : Int) (length : Nat) : Prop :=
  announcedLength contentLengthStr = .throws .outOfRange
    ∨ ∃ c, announcedLength contentLengthStr = .ok c ∧ ¬(c > 0 ∧ charAmount = length)
      ∧ ¬(0 ≤ c ∧ c ≤ length)

section

variable {contentLengthStr : Bytes} {charAmount : Int} {length : Nat}

theorem bodyCut_eq_none : bodyCut contentLengthStr charAmount length = .ok none
    ↔ Awaited contentLengthStr charAmount length := by
  rw [bodyCut, Awaited, Outcome.bind_eq_ok]
  apply exists_congr
  intro c
  apply and_congr_right
  intro _
  split_ifs with hmissing <;> simp [hmissing]

theorem bodyCut_eq_some {c : Nat} : bodyCut contentLengthStr charAmount length = .ok (some c)
    ↔ CutOff contentLengthStr charAmount length c := by
  rw [bodyCut, CutOff, Outcome.bind_eq_ok]
  constructor
  . rintro ⟨value, hvalue, h⟩
    split_ifs at h with hmissing hfits
    . cases h
    . cases h
      rw [hvalue, Outcome.ok.injEq]
      omega
  . rintro ⟨hvalue, hmissing, hfits⟩
    refine ⟨c, hvalue, ?_⟩
    rw [if_neg (by omega), if_pos (by omega), Int.toNat_natCast]

theorem bodyCut_eq_outOfRange : bodyCut contentLengthStr charAmount length = .throws .outOfRange
    ↔ OutOfRange contentLengthStr charAmount length := by
  rw [bodyCut, OutOfRange]
  cases hannounced : announcedLength contentLengthStr with
  | ok c =>
    rw [Outcome.ok_bind]
    split_ifs with hmissing hfits
    . simp [hmissing]
    . simp [hfits]
    . exact iff_of_true rfl (.inr ⟨c, rfl, hmissing, hfits⟩)
  | throws e => simp
  | undefined => simp

theorem announcedLength_of_bodyCut {e : Exn} (hne : e ≠ .outOfRange)
    (h : bodyCut contentLengthStr charAmount length = .throws e)
    : announcedLength contentLengthStr = .throws e := by
  rw [bodyCut] at h
  cases hannounced : announcedLength contentLengthStr with
  | ok c =>
    rw [hannounced, Outcome.ok_bind] at h
    split_ifs at h
    cases h
    exact absurd rfl hne
  | throws e' =>
    rw [hannounced] at h
    cases h
    rfl
  | undefined =>
    rw [hannounced] at h
    cases h

theorem announcedLength_ne_undefined (contentLengthStr : Bytes) : announcedLength contentLengthStr ≠ .undefined := by
  rw [announcedLength]
  split_ifs
  . exact fun h => by cases h
  . exact Bytes.stoi_ne_undefined _

theorem bodyCut_ne_undefined : bodyCut contentLengthStr charAmount length ≠ .undefined := by
  rw [bodyCut, Ne, Outcome.bind_eq_undefined]
  rintro (h | ⟨c, -, h⟩)
  . exact announcedLength_ne_undefined _ h
  . split_ifs at h

theorem bodyCut_eq_iff {contentLengthStr' : Bytes}
    : bodyCut contentLengthStr charAmount length = bodyCut contentLengthStr' charAmount length
        ↔
      announcedLength contentLengthStr = announcedLength contentLengthStr'
        ∨ Awaited contentLengthStr charAmount length ∧ Awaited contentLengthStr' charAmount length
        ∨ OutOfRange contentLengthStr charAmount length ∧ OutOfRange contentLengthStr' charAmount length := by
  constructor
  . intro heq
    rcases hcut : bodyCut contentLengthStr charAmount length with (_ | c) | e | _
    . exact .inr (.inl ⟨bodyCut_eq_none.mp hcut, bodyCut_eq_none.mp (heq ▸ hcut)⟩)
    . exact .inl ((bodyCut_eq_some.mp hcut).1.trans (bodyCut_eq_some.mp (heq ▸ hcut)).1.symm)
    . by_cases he : e = .outOfRange
      . subst he
        exact .inr (.inr ⟨bodyCut_eq_outOfRange.mp hcut, bodyCut_eq_outOfRange.mp (heq ▸ hcut)⟩)
      . exact .inl ((announcedLength_of_bodyCut he hcut).trans (announcedLength_of_bodyCut he (heq ▸ hcut)).symm)
    . exact absurd hcut bodyCut_ne_undefined
  . rintro (heq | ⟨h, h'⟩ | ⟨h, h'⟩)
    . rw [bodyCut, heq, ← bodyCut]
    . rw [bodyCut_eq_none.mpr h, bodyCut_eq_none.mpr h']
    . rw [bodyCut_eq_outOfRange.mpr h, bodyCut_eq_outOfRange.mpr h']

theorem le_of_bodyCut {c : Nat} (h : bodyCut contentLengthStr charAmount length = .ok (some c)) : c ≤ length :=
  (bodyCut_eq_some.mp h).2.2

end

def lastBytes (data : Bytes) (c : Nat) : Bytes :=
  (Bytes.cStr data).drop (Bytes.strlen data - c)

theorem length_lastBytes {data : Bytes} {c : Nat} (h : c ≤ Bytes.strlen data)
    : (lastBytes data c).length = c := by
  rw [lastBytes, List.length_drop, ← Bytes.strlen]
  omega

theorem getElem?_cStr {data : Bytes} {i : Nat} (h : i < Bytes.strlen data) : (Bytes.cStr data)[i]? = data[i]? := by
  have hprefix := (Bytes.cStr_prefix data).getElem h
  have hlength := h.trans_le (Bytes.cStr_prefix data).length_le
  rw [List.getElem?_eq_getElem h, List.getElem?_eq_getElem hlength, hprefix]

theorem lastBytes_eq_iff {s t : Bytes} (hlength : Bytes.strlen s = Bytes.strlen t) {c : Nat}
    (hle : c ≤ Bytes.strlen s)
    : lastBytes s c = lastBytes t c ↔ ∀ i < Bytes.strlen s, s[i]? ≠ t[i]? → i + c < Bytes.strlen s := by
  constructor
  . intro h i hi hne
    by_contra hbehind
    have hbyte := congrArg (fun bytes : Bytes => bytes[i - (Bytes.strlen s - c)]?) h
    have hpos : Bytes.strlen s - c + (i - (Bytes.strlen s - c)) = i := by omega
    simp only [lastBytes, List.getElem?_drop, ← hlength, hpos] at hbyte
    rw [getElem?_cStr hi, getElem?_cStr (hlength ▸ hi)] at hbyte
    exact hne hbyte
  . intro h
    apply List.ext_getElem?
    intro i
    rw [lastBytes, lastBytes, List.getElem?_drop, List.getElem?_drop, ← hlength]
    by_cases hi : Bytes.strlen s - c + i < Bytes.strlen s
    . rw [getElem?_cStr hi, getElem?_cStr (hlength ▸ hi)]
      by_contra hne
      have hfront := h _ hi hne
      omega
    . have hlength' : (Bytes.cStr s).length = (Bytes.cStr t).length := hlength
      have hi : ¬Bytes.strlen s - c + i < (Bytes.cStr s).length := hi
      rw [List.getElem?_eq_none (by omega), List.getElem?_eq_none (by omega)]

theorem substr_eq_lastBytes {data : Bytes} {c : Int} (h : 0 ≤ c ∧ c ≤ Bytes.strlen data)
    : Bytes.substr (Bytes.cStr data) (Bytes.strlen data - c) = .ok (lastBytes data c.toNat) := by
  have hpos : 0 ≤ (Bytes.strlen data : Int) - c
      ∧ (Bytes.strlen data : Int) - c ≤ (Bytes.cStr data).length := by
    rw [← Bytes.strlen]
    omega
  have hdrop : ((Bytes.strlen data : Int) - c).toNat = Bytes.strlen data - c.toNat := by omega
  rw [Bytes.substr, if_pos hpos, lastBytes, hdrop]

theorem substr_throws {data : Bytes} {c : Int} (h : ¬(0 ≤ c ∧ c ≤ Bytes.strlen data))
    : Bytes.substr (Bytes.cStr data) (Bytes.strlen data - c) = .throws .outOfRange := by
  have hpos : ¬(0 ≤ (Bytes.strlen data : Int) - c
      ∧ (Bytes.strlen data : Int) - c ≤ (Bytes.cStr data).length) := by
    rw [← Bytes.strlen]
    omega
  rw [Bytes.substr, if_neg hpos]

def Parsed.withBody (parsed : Parsed) (data : Bytes) : Option Nat → ResultType × RequestParser × Request
  | none => (.missingData, parsed.parser, parsed.request.touchContentLength)
  | some c => (parsed.result, parsed.parser, parsed.request.leftByParseData (lastBytes data c))

theorem parseData_eq_bodyCut (parser : RequestParser) (request : Request) (data : Bytes) (n : Nat)
    : parser.parseData request data n
        =
      bodyCut (parser.parse request (data.take n)).request.contentLengthStr
          (parser.parse request (data.take n)).parser.nCharParsed (Bytes.strlen data) >>=
        fun cut => .ok ((parser.parse request (data.take n)).withBody data cut) := by
  have hlength := getContentLength_eq_announced (parser.parse request (data.take n)).request
  rcases hannounced : announcedLength (parser.parse request (data.take n)).request.contentLengthStr with c | e
  . rw [hannounced, Outcome.ok_bind] at hlength
    rw [parseData_of_contentLength hlength, bodyCut, hannounced, Outcome.ok_bind]
    split_ifs with hmissing hfits
    . rfl
    . rw [substr_eq_lastBytes hfits]
      rfl
    . rw [substr_throws hfits]
      rfl
  . rw [bodyCut, hannounced]
    simp only [parseData, hlength, hannounced, Outcome.throws_bind]
  . rw [bodyCut, hannounced]
    simp only [parseData, hlength, hannounced, Outcome.undefined_bind]

theorem strlen_eq_of_lowered {s t : Bytes} (h : s.map lowered = t.map lowered) : Bytes.strlen s = Bytes.strlen t := by
  induction s generalizing t with
  | nil =>
    rw [List.map_nil, eq_comm, List.map_eq_nil_iff] at h
    rw [h]
  | cons b s ih =>
    cases t with
    | nil => cases h
    | cons b' t =>
      simp only [List.map_cons, List.cons.injEq] at h
      have hlowered : ∀ b, lowered b = 0 ↔ b = 0 := forall_byte (by decide +kernel)
      have hnul : b = 0 ↔ b' = 0 := by rw [← hlowered, h.1, hlowered]
      have hrest : (Bytes.cStr s).length = (Bytes.cStr t).length := ih h.2
      simp only [Bytes.strlen, Bytes.cStr, List.takeWhile_cons, decide_not, Bool.not_eq_true'] at hrest ⊢
      by_cases hb : b = 0
      . simp [hb, hnul.mp hb]
      . simp [hb, mt hnul.mpr hb, hrest]

def contentLengthOn (lines : List HeadLine) : Bytes :=
  (lineValues (Bytes.lit "Content-Length") lines).flatten

theorem contentLengthStr_parse (n : Int) (text : Bytes)
    : (parse { nCharParsed := n } {} text).request.contentLengthStr = contentLengthOn (headerLines text) := by
  rw [Request.contentLengthStr, find?_headerLines n text (by decide), contentLengthOn]
  split_ifs with hempty
  . rw [hempty]
    rfl
  . rfl

def cutFrom (n : Int) (data : Bytes) (k : Nat) : Outcome (Option Nat) :=
  bodyCut (parse { nCharParsed := n } {} (data.take k)).request.contentLengthStr
    (parse { nCharParsed := n } {} (data.take k)).parser.nCharParsed (Bytes.strlen data)

theorem cutFrom_eq (n : Int) (data : Bytes) (k : Nat)
    : cutFrom n data k
        = bodyCut (contentLengthOn (headerLines (data.take k)))
            (parse { nCharParsed := n } {} (data.take k)).parser.nCharParsed (Bytes.strlen data) := by
  rw [cutFrom, contentLengthStr_parse]

def resultAndBody (n : Int) (data : Bytes) (k : Nat) : Outcome (ResultType × Bytes) :=
  parseData { nCharParsed := n } {} data k >>= fun (result, _, request) => .ok (result, request.body)

def Parsed.shown (parsed : Parsed) (data : Bytes) : Option Nat → ResultType × Bytes
  | none => (.missingData, parsed.request.body)
  | some c => (parsed.result, lastBytes data c)

theorem resultAndBody_eq (n : Int) (data : Bytes) (k : Nat)
    : resultAndBody n data k
        =
      cutFrom n data k >>= fun cut =>
        .ok ((parse { nCharParsed := n } {} (data.take k)).shown data cut) := by
  rw [resultAndBody, parseData_eq_bodyCut, Outcome.bind_assoc]
  apply Outcome.bind_congr
  intro cut _
  cases cut <;> rfl

structure CutAlike (n : Int) (s t : Bytes) (k : Nat) : Prop where
  length : cutFrom n s k = cutFrom n t k
  bytes : ∀ c, cutFrom n s k = .ok (some c) → lastBytes s c = lastBytes t c

theorem cut_of_shown {parsed parsed' : Parsed} (hne : parsed.result ≠ .missingData)
    (hne' : parsed'.result ≠ .missingData) {s t : Bytes} {cut cut' : Option Nat}
    (hle : ∀ c, cut = some c → c ≤ Bytes.strlen s) (hle' : ∀ c, cut' = some c → c ≤ Bytes.strlen t)
    (h : parsed.shown s cut = parsed'.shown t cut')
    : cut = cut' ∧ ∀ c, cut = some c → lastBytes s c = lastBytes t c := by
  cases cut with
  | none =>
    cases cut' with
    | none => exact ⟨rfl, fun c hc => by cases hc⟩
    | some c' => exact absurd (Prod.mk.inj h).1.symm hne'
  | some c =>
    cases cut' with
    | none => exact absurd (Prod.mk.inj h).1 hne
    | some c' =>
      have hbytes : lastBytes s c = lastBytes t c' := (Prod.mk.inj h).2
      have hlength := congrArg List.length hbytes
      rw [length_lastBytes (hle c rfl), length_lastBytes (hle' c' rfl)] at hlength
      subst hlength
      refine ⟨rfl, fun c1 hc1 => ?_⟩
      cases hc1
      exact hbytes

theorem resultAndBody_eq_iff {s t : Bytes} (h : Recased s t) (n : Int) (k : Nat)
    : resultAndBody n s k = resultAndBody n t k ↔ CutAlike n s t k := by
  rcases h.parse { nCharParsed := n } {} k with ⟨hresult, -, hbody⟩
  have hne := parse_result_ne_missingData { nCharParsed := n } {} (s.take k)
  have hne' := parse_result_ne_missingData { nCharParsed := n } {} (t.take k)
  rw [resultAndBody_eq, resultAndBody_eq]
  constructor
  . intro heq
    rcases Outcome.bind_ok_eq_bind_ok heq with ⟨cut, cut', hcut, hcut', hshown⟩ | ⟨hfails, hsame⟩
    . have hcuts := cut_of_shown hne hne' (fun c hc => le_of_bodyCut (hc ▸ hcut))
        (fun c hc => le_of_bodyCut (hc ▸ hcut')) hshown
      constructor
      . rw [hcut, hcut', hcuts.1]
      . intro c hc
        rw [hcut, Outcome.ok.injEq] at hc
        exact hcuts.2 c hc
    . exact ⟨hsame, fun c hc => absurd ⟨_, hc⟩ hfails⟩
  . intro halike
    rw [← halike.length]
    apply Outcome.bind_congr
    intro cut hcut
    cases cut with
    | none => rw [Parsed.shown, Parsed.shown, hbody]
    | some c => rw [Parsed.shown, Parsed.shown, hresult, halike.bytes c hcut]

/--
The lines that are spelled exactly `Content-Length` announce the same body in two requests, or one that is
still to come in both, or one that is out of range in both. What they cut off stands behind all names that are
spelled differently.
-/
structure BodyAlike (n : Int) (s t : Bytes) (k : Nat) : Prop where
  length
    : announcedLength (contentLengthOn (headerLines (s.take k)))
          = announcedLength (contentLengthOn (headerLines (t.take k)))
        ∨ Awaited (contentLengthOn (headerLines (s.take k)))
              (parse { nCharParsed := n } {} (s.take k)).parser.nCharParsed (Bytes.strlen s)
            ∧ Awaited (contentLengthOn (headerLines (t.take k)))
              (parse { nCharParsed := n } {} (s.take k)).parser.nCharParsed (Bytes.strlen s)
        ∨ OutOfRange (contentLengthOn (headerLines (s.take k)))
              (parse { nCharParsed := n } {} (s.take k)).parser.nCharParsed (Bytes.strlen s)
            ∧ OutOfRange (contentLengthOn (headerLines (t.take k)))
              (parse { nCharParsed := n } {} (s.take k)).parser.nCharParsed (Bytes.strlen s)
  place : ∀ c, CutOff (contentLengthOn (headerLines (s.take k)))
      (parse { nCharParsed := n } {} (s.take k)).parser.nCharParsed (Bytes.strlen s) c →
    ∀ i < Bytes.strlen s, s[i]? ≠ t[i]? → i + c < Bytes.strlen s

theorem cutAlike_iff {s t : Bytes} (h : Recased s t) (n : Int) (k : Nat) : CutAlike n s t k ↔ BodyAlike n s t k := by
  have hstrlen := strlen_eq_of_lowered h.lowered_eq
  have hcount := (h.parse { nCharParsed := n } {} k).2.1
  have hcut : cutFrom n t k = bodyCut (contentLengthOn (headerLines (t.take k)))
      (parse { nCharParsed := n } {} (s.take k)).parser.nCharParsed (Bytes.strlen s) := by
    rw [cutFrom_eq, ← hstrlen, ← hcount]
  have hlength := @bodyCut_eq_iff (contentLengthOn (headerLines (s.take k)))
    (parse { nCharParsed := n } {} (s.take k)).parser.nCharParsed (Bytes.strlen s)
    (contentLengthOn (headerLines (t.take k)))
  rw [← cutFrom_eq, ← hcut] at hlength
  have hplace (c : Nat) := @bodyCut_eq_some (contentLengthOn (headerLines (s.take k)))
    (parse { nCharParsed := n } {} (s.take k)).parser.nCharParsed (Bytes.strlen s) c
  simp only [← cutFrom_eq] at hplace
  constructor
  . intro halike
    refine ⟨hlength.mp halike.length, fun c hcut => ?_⟩
    exact (lastBytes_eq_iff hstrlen hcut.2.2).mp (halike.bytes c ((hplace c).mpr hcut))
  . intro halike
    refine ⟨hlength.mpr halike.length, fun c hc => ?_⟩
    have hcut := (hplace c).mp hc
    exact (lastBytes_eq_iff hstrlen hcut.2.2).mpr (halike.place c hcut)

end RequestParser

end Foxy
