import FoxyServer.RequestParser.HeaderValues
import Mathlib.Data.List.TakeWhile

/-!
This module contains the header lines of any text, whether or not it is a head that is accepted: as many
lines as the parser takes for such, the last of them as far as it goes. What the parser stores is what these
lines add.
-/

namespace Foxy

open Grammar

namespace RequestParser

/-! ## The lines of a text -/

def splitLine : Bytes → Option (Bytes × Bytes)
  | [] => none
  | [_] => none
  | c :: d :: text =>
    if c = '\r'.toUInt8 ∧ d = '\n'.toUInt8 then
      some ([], text)
    else
      (splitLine (d :: text)).map (fun (line, rest) => (c :: line, rest))

def isLws (b : UInt8) : Bool := decide (Lws b)
def isTokenChar (b : UInt8) : Bool := decide (TokenChar b)
def isValueChar (b : UInt8) : Bool := decide (ValueChar b)

/--
The line that a text begins with, as far as its bytes belong to it, and the text from there on. White space in
front of the first line does not make it a line.
-/
def lineRead (first : Bool) (text : Bytes) : Option (HeadLine × Bytes) :=
  let space := text.takeWhile isLws
  let name := text.takeWhile isTokenChar
  if first = false ∧ space ≠ [] then
    let rest := text.dropWhile isLws
    some (.spaced space (rest.takeWhile isValueChar), rest.dropWhile isValueChar)
  else if name ≠ [] ∧ (text.dropWhile isTokenChar).take 2 = Bytes.lit ": " then
    let rest := (text.dropWhile isTokenChar).drop 2
    some (.header name (rest.takeWhile isValueChar), rest.dropWhile isValueChar)
  else
    none

def linesRead : Nat → Bool → Bytes → List HeadLine
  | 0, _, _ => []
  | fuel + 1, first, text =>
    match lineRead first text with
    | none => []
    | some (line, rest) =>
      line :: if rest.take 2 = Bytes.crlf then linesRead fuel false (rest.drop 2) else []

/-- The header lines of a text, which has none if the parser does not take its first line. -/
def headerLines (text : Bytes) : List HeadLine :=
  match splitLine text with
  | none => []
  | some (line, rest) =>
    if (parse {} {} (line ++ Bytes.crlf)).result = .indeterminate then
      linesRead rest.length true rest
    else
      []

example : headerLines (Bytes.lit "GET / HTTP/1.1\r\nHost: a\r\n b\r\nCookie: jwt=")
    = [.header (Bytes.lit "Host") (Bytes.lit "a"), .spaced (Bytes.lit " ") (Bytes.lit "b"),
        .header (Bytes.lit "Cookie") (Bytes.lit "jwt=")] := by
  decide +kernel

theorem splitLine_eq_some {text line rest : Bytes} (h : splitLine text = some (line, rest))
    : text = line ++ Bytes.crlf ++ rest ∧ ¬Bytes.crlf <:+: line := by
  fun_induction splitLine text generalizing line rest with
  | case1 => cases h
  | case2 => cases h
  | case3 c d text hcrlf =>
    cases h
    rw [hcrlf.1, hcrlf.2]
    exact ⟨rfl, by decide⟩
  | case4 c d text hcrlf ih =>
    rcases Option.map_eq_some_iff.mp h with ⟨⟨line', rest'⟩, hsplit, heq⟩
    cases heq
    rcases ih hsplit with ⟨htext, hline⟩
    refine ⟨by rw [htext]; rfl, ?_⟩
    intro hinfix
    rcases List.infix_cons_iff.mp hinfix with ⟨t, ht⟩ | hinfix
    . -- the line would end right here
      cases line' with
      | nil => cases ht
      | cons b line' =>
        simp only [Bytes.crlf, List.cons_append, List.nil_append, List.cons.injEq] at ht htext
        exact hcrlf ⟨ht.1.symm, by rw [htext.1, ht.2.1]⟩
    . exact hline hinfix

theorem splitLine_eq_none {text : Bytes} (h : splitLine text = none) : ¬Bytes.crlf <:+: text := by
  fun_induction splitLine text with
  | case1 => decide
  | case2 c => exact fun hinfix => absurd hinfix.length_le (by simp [Bytes.crlf])
  | case3 c d text hcrlf => cases h
  | case4 c d text hcrlf ih =>
    intro hinfix
    rcases List.infix_cons_iff.mp hinfix with ⟨t, ht⟩ | hinfix
    . simp only [Bytes.crlf, List.cons_append, List.nil_append, List.cons.injEq] at ht
      exact hcrlf ⟨ht.1.symm, ht.2.1.symm⟩
    . exact ih (Option.map_eq_none_iff.mp h) hinfix

theorem splitLine_append {line : Bytes} (h : ¬Bytes.crlf <:+: line) (rest : Bytes)
    : splitLine (line ++ Bytes.crlf ++ rest) = some (line, rest) := by
  induction line with
  | nil => rfl
  | cons c line ih =>
    have hrest := ih (fun hinfix => h (List.infix_cons_iff.mpr (.inr hinfix)))
    cases line with
    | nil =>
      have hnext : splitLine (c :: '\r'.toUInt8 :: '\n'.toUInt8 :: rest) = some ([c], rest) := by
        rw [splitLine, if_neg (by rintro ⟨-, hlf⟩; cases hlf)]
        rfl
      exact hnext
    | cons d line =>
      have hcrlf : ¬(c = '\r'.toUInt8 ∧ d = '\n'.toUInt8) := by
        rintro ⟨rfl, rfl⟩
        exact h ⟨[], line, rfl⟩
      have hnext : splitLine (c :: d :: (line ++ Bytes.crlf ++ rest)) = some (c :: d :: line, rest) := by
        have hrest : splitLine (d :: (line ++ Bytes.crlf ++ rest)) = some (d :: line, rest) := hrest
        rw [splitLine, if_neg hcrlf, hrest]
        rfl
      exact hnext

/-! ## The first line -/

structure OnRequestLine (x : RequestParser × Request) : Prop where
  state : x.1.state ∈ [State.methodStart, .method, .uri, .httpVersionH, .httpVersionT1, .httpVersionT2,
    .httpVersionP, .httpVersionSlash, .httpVersionMajorStart, .httpVersionMajor, .httpVersionMinorStart,
    .httpVersionMinor, .expectingNewline1]
  headerHelper : x.1.headerHelper = []
  headers : x.2.headers = .empty

theorem onRequestLine_new (n : Int) : OnRequestLine ({ nCharParsed := n }, {}) := ⟨List.mem_cons_self, rfl, rfl⟩

theorem consume_onRequestLine {parser : RequestParser} {req : Request} (h : OnRequestLine (parser, req))
    {b : UInt8} (hlf : parser.state = .expectingNewline1 → b ≠ '\n'.toUInt8)
    : (parser.consume req b).1 ≠ .good ∧ OnRequestLine (parser.consume req b).2
        ∧ ((parser.consume req b).1 = .indeterminate →
            (parser.consume req b).2.1.state = .expectingNewline1 → b = '\r'.toUInt8) := by
  rcases parser with ⟨state, methodHelper, headerHelper, n⟩
  rcases h with ⟨hstate, hhelper, hheaders⟩
  dsimp only at hstate hhelper hheaders hlf
  subst hhelper
  simp only [List.mem_cons, List.not_mem_nil, or_false] at hstate
  rcases hstate with rfl | rfl | rfl | rfl | rfl | rfl | rfl | rfl | rfl | rfl | rfl | rfl | rfl <;>
    simp only [consume, consume.expect] <;> split_ifs with h1 <;>
    first
    | exact absurd h1 (hlf rfl)
    | exact ⟨by simp, ⟨by simp, rfl, hheaders⟩, fun _ _ => h1⟩
    | exact ⟨by simp, ⟨by simp, rfl, hheaders⟩, by simp⟩

theorem parse_onRequestLine {parser : RequestParser} {req : Request} (h : OnRequestLine (parser, req))
    {line : Bytes} (hlf : parser.state = .expectingNewline1 → line.head? ≠ some '\n'.toUInt8)
    (hline : ¬Bytes.crlf <:+: line)
    : OnRequestLine ((parser.parse req line).parser, (parser.parse req line).request)
        ∧ (parser.parse req line).result ≠ .good := by
  induction line generalizing parser req with
  | nil => exact ⟨h, by simp [parse]⟩
  | cons b line ih =>
    have hconsume := consume_onRequestLine h (b := b) (fun hstate hb => hlf hstate (by rw [hb]; rfl))
    rw [parse]
    rcases hnext : parser.consume req b with ⟨result, ⟨state, m, w, n⟩, req1⟩
    rw [hnext] at hconsume
    rcases hconsume with ⟨hgood, hon, hcr⟩
    dsimp only at hgood hon hcr ⊢
    have hcounted : OnRequestLine (⟨state, m, w, intSucc n⟩, req1) := ⟨hon.state, hon.headerHelper, hon.headers⟩
    split
    next => exact ⟨hcounted, hgood⟩
    next hresult =>
      have hmore : result = .indeterminate := by
        have hne := consume_result_ne_missingData parser req b
        rw [hnext] at hne
        cases result with
        | good => exact absurd rfl hgood
        | bad => exact absurd (.inr rfl) hresult
        | indeterminate => rfl
        | missingData => exact absurd rfl hne
      refine ih hcounted ?_ (fun hinfix => hline (List.infix_cons_iff.mpr (.inr hinfix)))
      intro hstate hhead
      rcases List.head?_eq_some_iff.mp hhead with ⟨rest, rfl⟩
      rw [hcr hmore hstate] at hline
      exact hline ⟨[], rest, rfl⟩

theorem headers_of_line (n : Int) {line : Bytes} (hline : ¬Bytes.crlf <:+: line)
    : (parse { nCharParsed := n } {} line).request.headers = .empty :=
  (parse_onRequestLine (onRequestLine_new n) (fun h => by cases h) hline).1.headers

theorem consume_cr (parser : RequestParser) (req : Request)
    : (parser.consume req '\r'.toUInt8).1 = .bad
        ∨ (parser.consume req '\r'.toUInt8).2.1.state
          ∈ [State.expectingNewline1, .expectingNewline2, .expectingNewline3] := by
  have hctl : isCtl (charToInt '\r'.toUInt8) = true := by decide
  have hdigit : ¬isDigit (charToInt '\r'.toUInt8) = true := by decide
  rcases parser with ⟨state, methodHelper, headerHelper, n⟩
  cases state <;> simp only [consume, consume.expect, hctl, hdigit] <;> simp

theorem parse_line (n : Int) {line : Bytes} (hline : ¬Bytes.crlf <:+: line)
    : (parse { nCharParsed := n } {} (line ++ Bytes.crlf)).request.headers = .empty
        ∧ ((parse { nCharParsed := n } {} (line ++ Bytes.crlf)).result = .indeterminate →
            ∃ m n', (parse { nCharParsed := n } {} (line ++ Bytes.crlf)).parser
              = ⟨.headerLineStart, m, [], n'⟩) := by
  rcases parse_onRequestLine (onRequestLine_new n) (fun h => by cases h) hline with ⟨hon, -⟩
  by_cases hmore : (parse { nCharParsed := n } {} line).result = .indeterminate
  . rw [parse_append_of_indeterminate hmore]
    generalize (parse { nCharParsed := n } {} line).parser = parser at hon ⊢
    generalize (parse { nCharParsed := n } {} line).request = req at hon ⊢
    rcases consume_onRequestLine hon (b := '\r'.toUInt8) (fun _ => by decide) with ⟨hgood, hnext, -⟩
    have hcr := consume_cr parser req
    rw [Bytes.crlf, parse]
    rcases hconsume : parser.consume req '\r'.toUInt8 with ⟨result, ⟨state, m, w, n1⟩, req1⟩
    rw [hconsume] at hgood hnext hcr
    dsimp only at hgood hcr ⊢
    split
    next hresult =>
      refine ⟨hnext.headers, ?_⟩
      rintro rfl
      simp at hresult
    next hresult =>
      have hstate := hnext.state
      have hhelper := hnext.headerHelper
      have hheaders := hnext.headers
      dsimp only at hstate hhelper hheaders
      subst hhelper
      rcases hcr with rfl | hcr
      . exact absurd (.inr rfl) hresult
      . simp only [List.mem_cons, List.not_mem_nil, or_false] at hcr
        rcases hcr with rfl | rfl | rfl
        . exact ⟨hheaders, fun _ => ⟨m, _, rfl⟩⟩
        . simp at hstate
        . simp at hstate
  . rw [parse_append_of_verdict hmore]
    exact ⟨hon.headers, fun h => absurd h hmore⟩

/-! ## A line as far as it goes -/

theorem head?_dropWhile {p : UInt8 → Bool} {s : Bytes} {b : UInt8} (h : b ∈ (s.dropWhile p).head?)
    : p b = false := by
  have hnot := List.head?_dropWhile_not p s
  rw [Option.mem_def.mp h] at hnot
  exact hnot

theorem head?_takeWhile {p : UInt8 → Bool} {s : Bytes} {b : UInt8} (h : b ∈ (s.takeWhile p).head?)
    : b ∈ s.head? := by
  cases s with
  | nil => exact h
  | cons c s =>
    rw [List.takeWhile_cons] at h
    split at h
    . exact h
    . cases h

theorem lineRead_eq_some {first : Bool} {text rest : Bytes} {line : HeadLine}
    (h : lineRead first text = some (line, rest))
    : text = line.render ++ rest ∧ line.Valid ∧ (first = true → line.IsHeader)
        ∧ ∀ b ∈ rest.head?, ¬ValueChar b ∧ ∀ space, line = .spaced space [] → ¬Lws b := by
  have hstops : ∀ (s : Bytes) (b : UInt8), b ∈ (s.dropWhile isValueChar).head? → ¬ValueChar b :=
    fun s b hb => of_decide_eq_false (head?_dropWhile hb)
  have hvalue : ∀ (s : Bytes) (b : UInt8), b ∈ s.takeWhile isValueChar → ValueChar b :=
    fun s b hb => of_decide_eq_true (show isValueChar b = true from List.mem_takeWhile_imp hb)
  simp only [lineRead] at h
  split_ifs at h with hspaced hheader
  . cases h
    refine ⟨?_, ⟨hspaced.2, ?_, hvalue _, ?_⟩, fun hfirst => ?_, fun b hb => ⟨hstops _ b hb, fun space hempty => ?_⟩⟩
    . rw [HeadLine.render, List.append_assoc, List.takeWhile_append_dropWhile, List.takeWhile_append_dropWhile]
    . exact fun b hb => of_decide_eq_true (show isLws b = true from List.mem_takeWhile_imp hb)
    . exact fun b hb => of_decide_eq_false (head?_dropWhile (head?_takeWhile hb))
    . rw [hfirst] at hspaced
      cases hspaced.1
    . -- nothing of the text has been taken, so that it still begins behind the white space
      have htext := List.takeWhile_append_dropWhile (p := isValueChar) (l := text.dropWhile isLws)
      rw [(HeadLine.spaced.inj hempty).2, List.nil_append] at htext
      rw [htext] at hb
      exact of_decide_eq_false (head?_dropWhile hb)
  . cases h
    refine ⟨?_, ⟨hheader.1, ?_, hvalue _⟩, fun _ => trivial,
      fun b hb => ⟨hstops _ b hb, fun _ hspaced => by cases hspaced⟩⟩
    . rw [HeadLine.render, RawRequest.headerLine, List.append_assoc, List.takeWhile_append_dropWhile,
        ← hheader.2, List.append_assoc, List.take_append_drop, List.takeWhile_append_dropWhile]
    . exact fun b hb => of_decide_eq_true (show isTokenChar b = true from List.mem_takeWhile_imp hb)

/-! ## What the parser stores of a text -/

variable (m : Bytes) (n : Int)

theorem parse_inLine {state : State} {name : Bytes} (hin : InLine ⟨state, m, name, n⟩) (req : Request)
    {rest : Bytes} (hstops : ∀ b ∈ rest.head?, ¬ValueChar b ∧ (state = .headerLws → ¬Lws b))
    (hline : rest.take 2 ≠ Bytes.crlf) : (parse ⟨state, m, name, n⟩ req rest).request = req := by
  cases rest with
  | nil => rfl
  | cons b rest =>
    rcases hstops b rfl with ⟨hvalue, hspace⟩
    have hb : isCtl (charToInt b) = true := (isCtl_charToInt b).mpr (not_not.mp hvalue)
    by_cases hcr : b = '\r'.toUInt8
    . have hnewline : ∃ name', consume ⟨state, m, name, n⟩ req b
          = (.indeterminate, ⟨.expectingNewline2, m, name', n⟩, req) := by
        rcases hin with hstate | ⟨hstate, -⟩
        . cases hstate
          exact ⟨[], by simp only [consume, if_pos hcr]⟩
        . cases hstate
          exact ⟨name, by simp only [consume, if_pos hcr]⟩
      rcases hnewline with ⟨name', hnewline⟩
      rw [parse, hnewline]
      cases rest with
      | nil => rfl
      | cons c rest =>
        have hc : c ≠ '\n'.toUInt8 := by
          rintro rfl
          exact hline (by rw [hcr]; rfl)
        simp only [reduceCtorEq, or_self, if_false, parse, consume, consume.expect, if_neg hc, or_true, if_true]
    . have hbad : consume ⟨state, m, name, n⟩ req b = (.bad, ⟨state, m, name, n⟩, req) := by
        rcases hin with hstate | ⟨hstate, -⟩
        . cases hstate
          simp only [consume, if_neg hcr, hb, if_true]
        . cases hstate
          simp only [consume, if_neg hcr, if_neg (lws_iff.not.mpr (hspace rfl)), hb, if_true]
      rw [parse, hbad]
      rfl

theorem parse_of_not_tokenChar {req : Request} {text : Bytes} (hname : ∀ b ∈ text.head?, ¬TokenChar b)
    (hspace : req.headers.isEmpty = false → ∀ b ∈ text.head?, ¬Lws b)
    : (parse ⟨.headerLineStart, m, [], n⟩ req text).request = req := by
  cases text with
  | nil => rfl
  | cons c rest =>
    have hc := hname c rfl
    by_cases hcr : c = '\r'.toUInt8
    . cases rest with
      | nil => simp only [parse, consume, if_pos hcr, reduceCtorEq, or_self, if_false]
      | cons d rest =>
        by_cases hlf : d = '\n'.toUInt8
        . simp only [parse, consume, if_pos hcr, if_pos hlf, reduceCtorEq, or_self, if_false, true_or, if_true]
        . simp only [parse, consume, if_pos hcr, if_neg hlf, reduceCtorEq, or_self, if_false, or_true, if_true]
    . have hlws : ¬(!req.headers.isEmpty && (c = ' '.toUInt8 || c = '\t'.toUInt8)) = true := by
        intro hlws
        simp only [Bool.and_eq_true, Bool.not_eq_true'] at hlws
        exact hspace hlws.1 c rfl (lws_iff.mp hlws.2)
      simp only [parse, consume, notToken_charToInt, if_neg hcr, if_neg hlws, if_pos hc, or_true, if_true]

theorem parse_of_not_colon {name rest : Bytes} (req : Request) (hname : ∀ b ∈ rest.head?, ¬TokenChar b)
    (hcolon : rest.take 2 ≠ Bytes.lit ": ") : (parse ⟨.headerName, m, name, n⟩ req rest).request = req := by
  cases rest with
  | nil => rfl
  | cons c rest =>
    have hc := hname c rfl
    by_cases hcolon' : c = ':'.toUInt8
    . cases rest with
      | nil => simp only [parse, consume, if_pos hcolon', reduceCtorEq, or_self, if_false]
      | cons d rest =>
        have hd : d ≠ ' '.toUInt8 := by
          rintro rfl
          exact hcolon (by rw [hcolon']; rfl)
        simp only [parse, consume, if_pos hcolon', reduceCtorEq, or_self, if_false, if_neg hd, or_true, if_true]
    . simp only [parse, consume, notToken_charToInt, if_neg hcolon', if_pos hc, or_true, if_true]

theorem parse_of_lineRead_none {req : Request} {text : Bytes} (h : lineRead req.headers.isEmpty text = none)
    : (parse ⟨.headerLineStart, m, [], n⟩ req text).request = req := by
  simp only [lineRead] at h
  split_ifs at h with hspaced hheader
  have htext := List.takeWhile_append_dropWhile (p := isTokenChar) (l := text)
  have hname : ∀ b ∈ text.takeWhile isTokenChar, TokenChar b :=
    fun b hb => of_decide_eq_true (show isTokenChar b = true from List.mem_takeWhile_imp hb)
  have hstops : ∀ b ∈ (text.dropWhile isTokenChar).head?, ¬TokenChar b :=
    fun b hb => of_decide_eq_false (head?_dropWhile hb)
  by_cases hempty : text.takeWhile isTokenChar = []
  . rw [hempty, List.nil_append] at htext
    rw [htext] at hstops
    apply parse_of_not_tokenChar m n hstops
    intro hseen b hb hlws
    have hlws : isLws b = true := decide_eq_true hlws
    have hspace : b ∈ (text.takeWhile isLws).head? := by
      rcases List.head?_eq_some_iff.mp hb with ⟨rest, rfl⟩
      rw [List.takeWhile_cons_of_pos hlws]
      rfl
    refine hspaced ⟨hseen, fun hnil => ?_⟩
    rw [hnil] at hspace
    cases hspace
  . rcases reads_nameChars m n hempty hname req n (text.dropWhile isTokenChar) with ⟨n', hparse⟩
    rw [htext] at hparse
    have hparse : parse ⟨.headerLineStart, m, [], n⟩ req text
        = parse ⟨.headerName, m, text.takeWhile isTokenChar, n'⟩ req (text.dropWhile isTokenChar) := hparse
    rw [hparse]
    exact parse_of_not_colon m n' req hstops fun hcolon => hheader ⟨hempty, hcolon⟩

theorem headers_of_linesRead {fuel : Nat} {req : Request} {text : Bytes} (hfuel : text.length ≤ fuel)
    : (parse ⟨.headerLineStart, m, [], n⟩ req text).request.headers
        = req.headers.appendAll
            ((linesRead fuel req.headers.isEmpty text).filterMap HeadLine.added) := by
  induction fuel generalizing n req text with
  | zero =>
    have hnil : text = [] := List.length_eq_zero_iff.mp (by omega)
    rw [hnil]
    rfl
  | succ fuel ih =>
    rw [linesRead]
    cases hread : lineRead req.headers.isEmpty text with
    | none =>
      rw [parse_of_lineRead_none m n hread]
      rfl
    | some read =>
      rcases read with ⟨line, rest⟩
      rcases lineRead_eq_some hread with ⟨htext, hvalid, hfirst, hstops⟩
      rcases reads_render m n hvalid hfirst with ⟨state, name, hin, hspace, hrender⟩
      rcases hrender n rest with ⟨n1, hparse⟩
      have hparse : parse ⟨.headerLineStart, m, [], n⟩ req text
          = parse ⟨state, m, name, n1⟩
              { req with headers := req.headers.appendAll line.added.toList } rest := by
        rw [htext]
        exact hparse
      dsimp only
      rw [hparse, filterMap_added_cons, OrdMap.appendAll_append]
      -- behind the line there is its end and perhaps another line, or the parser stops in it
      by_cases hends : rest.take 2 = Bytes.crlf
      . have hrest : rest = Bytes.crlf ++ rest.drop 2 := by
          rw [← hends, List.take_append_drop]
        have hlength := congrArg List.length htext
        have hlength' := congrArg List.length hrest
        simp only [List.length_append, Bytes.crlf, List.length_cons, List.length_nil] at hlength hlength'
        rcases reads_crlf m n1 hin { req with headers := req.headers.appendAll line.added.toList } n1 (rest.drop 2)
          with ⟨n2, hcrlf⟩
        have hnext := @ih n2 { req with headers := req.headers.appendAll line.added.toList } (rest.drop 2)
          (by omega)
        rw [if_pos hends, hrest, hcrlf]
        dsimp only at hnext
        rw [isEmpty_appendAll_added hfirst] at hnext
        exact hnext
      . rw [if_neg hends, parse_inLine m n1 hin _ ?_ hends]
        . rfl
        . exact fun b hb => ⟨(hstops b hb).1, fun hstate => (hstops b hb).2 _ (hspace hstate).choose_spec⟩

/-- What the parser stores of any text is what its header lines add, in order. -/
theorem headers_of_headerLines (text : Bytes)
    : (parse { nCharParsed := n } {} text).request.headers
        = OrdMap.empty.appendAll ((headerLines text).filterMap HeadLine.added) := by
  rw [headerLines]
  cases hsplit : splitLine text with
  | none => exact headers_of_line n (splitLine_eq_none hsplit)
  | some split =>
    rcases split with ⟨line, rest⟩
    rcases splitLine_eq_some hsplit with ⟨rfl, hline⟩
    rcases parse_line n hline with ⟨hempty, hstart⟩
    rcases parse_withCount {} {} (line ++ Bytes.crlf) n with ⟨n', hcount⟩
    have hresult := congrArg Parsed.result hcount
    dsimp only at hresult ⊢
    by_cases hmore : (parse {} {} (line ++ Bytes.crlf)).result = .indeterminate
    . rw [hmore] at hresult
      rcases hstart hresult with ⟨m, n1, hparser⟩
      rw [parse_append_of_indeterminate hresult, if_pos hmore, hparser,
        headers_of_linesRead m n1 (Nat.le_refl _), hempty]
      rfl
    . rw [parse_append_of_verdict (hresult ▸ hmore), if_neg hmore]
      exact hempty

theorem find?_headerLines (text : Bytes) {name : Bytes} (hname : name.length ≠ 1)
    : (parse { nCharParsed := n } {} text).request.headers.find? name
        =
      if lineValues name (headerLines text) = [] then
        none
      else
        some (lineValues name (headerLines text)).flatten := by
  rw [headers_of_headerLines, OrdMap.find?_appendAll, ← pieces_eq_lineValues_of_length hname]
  rfl

/-! ## The lines of a head that is accepted -/

theorem takeWhile_stop {p : UInt8 → Bool} {s t : Bytes} (hs : ∀ b ∈ s, p b = true)
    (ht : ∀ b ∈ t.head?, p b = false) : (s ++ t).takeWhile p = s ∧ (s ++ t).dropWhile p = t := by
  have hstop : t.takeWhile p = [] ∧ t.dropWhile p = t := by
    cases t with
    | nil => exact ⟨rfl, rfl⟩
    | cons b t =>
      have hb := ht b rfl
      constructor
      . rw [List.takeWhile_cons_of_neg (by simp [hb])]
      . rw [List.dropWhile_cons_of_neg (by simp [hb])]
  rw [List.takeWhile_append_of_pos hs, List.dropWhile_append_of_pos hs, hstop.1, hstop.2, List.append_nil]
  exact ⟨rfl, rfl⟩

theorem takeWhile_isLws_nil {text : Bytes} (h : ∀ b ∈ text.head?, ¬Lws b) : text.takeWhile isLws = [] := by
  have hstop := takeWhile_stop (p := isLws) (s := []) (fun _ hb => by cases hb)
    (fun b hb => decide_eq_false (h b hb))
  exact hstop.1

theorem not_valueChar_of_crlf {rest : Bytes} : ∀ b ∈ (Bytes.crlf ++ rest).head?, isValueChar b = false := by
  intro b hb
  cases hb
  decide

theorem lineRead_header {name value : Bytes} (hheader : PlainHeader (name, value)) (first : Bool) (rest : Bytes)
    : lineRead first (name ++ (Bytes.lit ": " ++ (value ++ (Bytes.crlf ++ rest))))
        = some (.header name value, Bytes.crlf ++ rest) := by
  have hname : ∀ b ∈ name, TokenChar b := hheader.name
  have hne : name ≠ [] := hheader.name_ne_nil
  have htoken := takeWhile_stop (p := isTokenChar) (s := name)
    (t := Bytes.lit ": " ++ (value ++ (Bytes.crlf ++ rest)))
    (fun b hb => decide_eq_true (hname b hb)) (by intro b hb; cases hb; decide)
  have hvalue := takeWhile_stop (p := isValueChar) (s := value)
    (fun b hb => decide_eq_true (hheader.value b hb)) (@not_valueChar_of_crlf rest)
  have hspace : (name ++ (Bytes.lit ": " ++ (value ++ (Bytes.crlf ++ rest)))).takeWhile isLws = [] := by
    apply takeWhile_isLws_nil
    intro b hb
    rcases List.exists_cons_of_ne_nil hne with ⟨c, name', rfl⟩
    cases hb
    exact not_lws_of_tokenChar (hname _ List.mem_cons_self)
  have htail : (Bytes.lit ": " ++ (value ++ (Bytes.crlf ++ rest))).take 2 = Bytes.lit ": " := rfl
  have hdrop : (Bytes.lit ": " ++ (value ++ (Bytes.crlf ++ rest))).drop 2 = value ++ (Bytes.crlf ++ rest) := rfl
  simp only [lineRead, hspace, htoken.1, htoken.2, ne_eq, not_true, and_false, if_false, hne, not_false_eq_true,
    htail, and_self, if_true, hdrop, hvalue.1, hvalue.2]

theorem lineRead_spaced {space text : Bytes} (hspaced : HeadLine.Spaced space text) (rest : Bytes)
    : lineRead false (space ++ (text ++ (Bytes.crlf ++ rest)))
        = some (.spaced space text, Bytes.crlf ++ rest) := by
  have hspace := takeWhile_stop (p := isLws) (s := space) (t := text ++ (Bytes.crlf ++ rest))
    (fun b hb => decide_eq_true (hspaced.space_lws b hb)) (by
      intro b hb
      cases text with
      | nil =>
        cases hb
        decide
      | cons c text =>
        cases hb
        exact decide_eq_false (hspaced.text_head _ rfl))
  have htext := takeWhile_stop (p := isValueChar) (s := text)
    (fun b hb => decide_eq_true (hspaced.text_value b hb)) (@not_valueChar_of_crlf rest)
  simp only [lineRead, hspace.1, hspace.2, true_and, ne_eq, hspaced.space_ne_nil, not_false_eq_true, if_true,
    htext.1, htext.2]

theorem lineRead_render {line : HeadLine} (hvalid : line.Valid) {first : Bool}
    (hfirst : first = true → line.IsHeader) (rest : Bytes)
    : lineRead first (line.render ++ (Bytes.crlf ++ rest)) = some (line, Bytes.crlf ++ rest) := by
  cases line with
  | header name value =>
    have hheader := lineRead_header hvalid first rest
    simpa only [HeadLine.render, RawRequest.headerLine, List.append_assoc] using hheader
  | spaced space text =>
    cases first with
    | false =>
      have hspaced := lineRead_spaced hvalid rest
      simpa only [HeadLine.render, List.append_assoc] using hspaced
    | true => exact (hfirst rfl).elim

theorem lineRead_crlf (first : Bool) (rest : Bytes) : lineRead first (Bytes.crlf ++ rest) = none := by
  have hspace := takeWhile_stop (p := isLws) (s := []) (t := Bytes.crlf ++ rest) (fun _ hb => by cases hb)
    (by intro b hb; cases hb; decide)
  have hname := takeWhile_stop (p := isTokenChar) (s := []) (t := Bytes.crlf ++ rest) (fun _ hb => by cases hb)
    (by intro b hb; cases hb; decide)
  rw [List.nil_append] at hspace hname
  simp only [lineRead, hspace.1, hname.1, ne_eq, not_true, and_false, false_and, if_false]

theorem linesRead_render {lines : List HeadLine} (hvalid : ∀ line ∈ lines, line.Valid) {first : Bool}
    (hfirst : first = true → ∀ line ∈ lines.head?, line.IsHeader) (rest : Bytes) {fuel : Nat}
    (hfuel : (Bytes.unlines (lines.map HeadLine.render) ++ (Bytes.crlf ++ rest)).length ≤ fuel)
    : linesRead fuel first (Bytes.unlines (lines.map HeadLine.render) ++ (Bytes.crlf ++ rest)) = lines := by
  induction lines generalizing first fuel with
  | nil =>
    cases fuel with
    | zero => rfl
    | succ fuel =>
      have hnone := lineRead_crlf first rest
      rw [List.map_nil, Bytes.unlines_nil, List.nil_append, linesRead, hnone]
  | cons line lines ih =>
    rw [List.map_cons, Bytes.unlines_cons] at hfuel ⊢
    cases fuel with
    | zero => simp [Bytes.crlf] at hfuel
    | succ fuel =>
      have hnext := @ih (fun line hline => hvalid line (List.mem_cons_of_mem _ hline)) false
        (fun h => by cases h) fuel (by
          simp only [List.length_append, Bytes.crlf, List.length_cons, List.length_nil] at hfuel ⊢
          omega)
      have hread := lineRead_render (hvalid line List.mem_cons_self) (fun h => hfirst h line rfl)
        (Bytes.unlines (lines.map HeadLine.render) ++ (Bytes.crlf ++ rest))
      have hends (text : Bytes) : (Bytes.crlf ++ text).take 2 = Bytes.crlf := rfl
      rw [List.append_assoc, List.append_assoc, linesRead, hread]
      dsimp only
      rw [if_pos (hends _)]
      exact congrArg (line :: ·) hnext

theorem Head.cr_notMem_requestLine (head : Head) : '\r'.toUInt8 ∉ head.requestLine := by
  rcases head.isVersion with ⟨major, minor, hversion, -, -, hmajor, hminor⟩
  simp only [Head.requestLine, hversion, List.mem_append, not_or]
  have hdigit : ¬Digit '\r'.toUInt8 := by decide
  exact ⟨⟨⟨⟨fun h => not_cr_of_tokenChar (head.method_token _ h) rfl, by decide⟩,
    fun h => absurd (head.uri_chars _ h) (by decide)⟩, by decide⟩,
    ⟨fun h => hdigit (hmajor _ h), by decide⟩, fun h => hdigit (hminor _ h)⟩

theorem Head.splitLine_render (head : Head) (rest : Bytes)
    : splitLine (head.render ++ rest)
        = some (head.requestLine, Bytes.unlines (head.lines.map HeadLine.render) ++ (Bytes.crlf ++ rest)) := by
  have hline : ¬Bytes.crlf <:+: head.requestLine :=
    fun hcrlf => head.cr_notMem_requestLine (hcrlf.subset List.mem_cons_self)
  rw [Head.render, Bytes.unlines_cons, List.append_assoc, List.append_assoc]
  exact splitLine_append hline _

theorem Head.parse_requestLine (head : Head)
    : (parse {} {} (head.requestLine ++ Bytes.crlf)).result = .indeterminate := by
  rcases head.reads_requestLine 0 [] with ⟨n, hparse⟩
  rw [List.append_nil] at hparse
  exact congrArg Parsed.result hparse

/-- The first lines that the parser takes are the request lines of the heads that it accepts. -/
theorem parse_firstLine_iff {line : Bytes} (hline : ¬Bytes.crlf <:+: line)
    : (parse {} {} (line ++ Bytes.crlf)).result = .indeterminate ↔ ∃ head : Head, head.requestLine = line := by
  constructor
  . intro hmore
    rcases (parse_line 0 hline).2 hmore with ⟨m, n, hparser⟩
    have hgood : (parse {} {} (line ++ Bytes.crlf ++ Bytes.crlf)).result = .good := by
      rw [parse_append_of_indeterminate hmore]
      have hparser : (parse {} {} (line ++ Bytes.crlf)).parser = ⟨.headerLineStart, m, [], n⟩ := hparser
      rw [hparser]
      rfl
    rcases (parse_good_iff_head 0 _ _).mp ⟨hgood, rfl⟩ with ⟨head, hhead⟩
    have hsplit := splitLine_append hline Bytes.crlf
    rw [hhead, head.splitLine_render] at hsplit
    exact ⟨head, (Prod.mk.inj (Option.some.inj hsplit)).1⟩
  . rintro ⟨head, rfl⟩
    exact head.parse_requestLine

/-- Of a head that is accepted the lines are read back as they are, whatever stands behind it. -/
theorem headerLines_head (head : Head) (rest : Bytes) : headerLines (head.render ++ rest) = head.lines := by
  rw [headerLines, head.splitLine_render]
  dsimp only
  rw [if_pos head.parse_requestLine, linesRead_render head.valid (fun _ => head.first) rest (Nat.le_refl _)]

end RequestParser

end Foxy
