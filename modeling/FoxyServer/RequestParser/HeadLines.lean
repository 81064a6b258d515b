import FoxyServer.RequestParser.ReadBack

/-!
This module contains the lines of a head and what each of them adds to the headers. Every head that the
parser accepts is the text of such lines, and the headers it makes of them are what the lines add, in order.
-/

namespace Foxy

open Computability Scanner Grammar

namespace RequestParser

inductive HeadLine where
  | header (name value : Bytes)
  | spaced (space text : Bytes)
  deriving DecidableEq

namespace HeadLine

def render : HeadLine → Bytes
  | header name value => RawRequest.headerLine (name, value)
  | spaced space text => space ++ text

def IsHeader : HeadLine → Prop
  | header _ _ => True
  | spaced _ _ => False

instance (line : HeadLine) : Decidable line.IsHeader :=
  match line with
  | header _ _ => .isTrue trivial
  | spaced _ _ => .isFalse id

structure Spaced (space text : Bytes) : Prop where
  space_ne_nil : space ≠ []
  space_lws : ∀ b ∈ space, Lws b
  text_value : ∀ b ∈ text, ValueChar b
  text_head : ∀ b ∈ text.head?, ¬Lws b

def Valid : HeadLine → Prop
  | header name value => PlainHeader (name, value)
  | spaced space text => Spaced space text

instance (space text : Bytes) : Decidable (Spaced space text) :=
  decidable_of_iff
    (space ≠ [] ∧ space.all (fun b => decide (Lws b)) ∧ text.all (fun b => decide (ValueChar b))
      ∧ text.head?.all (fun b => decide (¬Lws b)))
    (by
      simp only [List.all_eq_true, Option.all_eq_true, decide_eq_true_eq]
      exact ⟨fun h => ⟨h.1, h.2.1, h.2.2.1, h.2.2.2⟩,
        fun h => ⟨h.space_ne_nil, h.space_lws, h.text_value, h.text_head⟩⟩)

instance (line : HeadLine) : Decidable line.Valid :=
  match line with
  | header name value => inferInstanceAs (Decidable (PlainHeader (name, value)))
  | spaced space text => inferInstanceAs (Decidable (Spaced space text))

/--
The name under which a line adds something, and what it adds. In a line that begins with white space, the
first byte behind that is taken for a name.
-/
def added : HeadLine → Option (Bytes × Bytes)
  | header name value => some (name, value)
  | spaced _ (c :: d :: text) => some ([c], d :: text)
  | spaced _ _ => none

end HeadLine

structure Head where
  method : Bytes
  uri : Bytes
  version : Bytes
  lines : List HeadLine
  method_ne_nil : method ≠ []
  method_token : ∀ b ∈ method, TokenChar b
  uri_chars : ∀ b ∈ uri, UriChar b
  isVersion : IsVersion version
  valid : ∀ line ∈ lines, line.Valid
  first : ∀ line ∈ lines.head?, line.IsHeader

namespace Head

def root (lines : List HeadLine) (valid : ∀ line ∈ lines, line.Valid)
    (first : ∀ line ∈ lines.head?, line.IsHeader) : Head where
  method := Bytes.lit "GET"
  uri := Bytes.lit "/"
  version := Bytes.lit "1.1"
  lines := lines
  method_ne_nil := by decide
  method_token := by decide +kernel
  uri_chars := by decide +kernel
  isVersion := isVersion_one (by decide)
  valid := valid
  first := first

def requestLine (head : Head) : Bytes :=
  head.method ++ Bytes.lit " " ++ head.uri ++ Bytes.lit " HTTP/" ++ head.version

def render (head : Head) : Bytes :=
  Bytes.unlines (head.requestLine :: head.lines.map HeadLine.render) ++ Bytes.crlf

def headers (head : Head) : OrdMap Bytes Bytes :=
  OrdMap.empty.appendAll (head.lines.filterMap HeadLine.added)

end Head

/-! ## What the parser makes of a line -/

variable (m : Bytes) (n : Int)

theorem reads_appended {name value : Bytes} (hvalue : ∀ b ∈ value, ValueChar b) (w : Bytes) (req : Request)
    : Reads ⟨.headerValue, m, name, n⟩ { req with headers := req.headers.append name w }
        value ⟨.headerValue, m, name, n⟩ { req with headers := req.headers.append name (w ++ value) } :=
  Reads.run (fun w => (⟨.headerValue, m, name, n⟩, { req with headers := req.headers.append name w }))
    (fun w b (hb : ValueChar b) => by
      simp only [consume, isCtl_charToInt, if_neg (not_cr_of_valueChar hb), if_neg hb]
      rw [← OrdMap.append_append]
      rfl)
    hvalue w

theorem reads_header {name value : Bytes} (hheader : PlainHeader (name, value)) (req : Request)
    : Reads ⟨.headerLineStart, m, [], n⟩ req (RawRequest.headerLine (name, value))
        ⟨.headerValue, m, name, n⟩ { req with headers := req.headers.append name value } := by
  have hname := reads_name m n hheader.name_ne_nil hheader.name req
  rw [OrdMap.insert_nil_eq_append] at hname
  exact hname.append (reads_appended m n hheader.value [] req)

theorem not_cr_of_lws {b : UInt8} (hb : Lws b) : b ≠ '\r'.toUInt8 := by
  rintro rfl
  exact absurd hb (by decide)

theorem lws_iff {b : UInt8} : (decide (b = ' '.toUInt8) || decide (b = '\t'.toUInt8)) = true ↔ Lws b := by
  simp only [Bool.or_eq_true, decide_eq_true_eq, Lws]

theorem reads_space {space : Bytes} (hne : space ≠ []) (hspace : ∀ b ∈ space, Lws b) {req : Request}
    (hheaders : req.headers.isEmpty = false)
    : Reads ⟨.headerLineStart, m, [], n⟩ req space ⟨.headerLws, m, [], n⟩ req := by
  rcases List.exists_cons_of_ne_nil hne with ⟨b, rest, rfl⟩
  have hb := hspace b List.mem_cons_self
  have hrun := Reads.run (fun _ => (⟨.headerLws, m, [], n⟩, req))
    (fun _ b (hb : Lws b) => by
      simp only [consume, if_neg (not_cr_of_lws hb), if_pos (lws_iff.mpr hb)])
    (fun b hb => hspace b (List.mem_cons_of_mem _ hb)) []
  refine Reads.cons ?_ hrun
  simp only [consume, if_neg (not_cr_of_lws hb), hheaders, Bool.not_false, Bool.true_and,
    if_pos (lws_iff.mpr hb)]

def InLine (parser : RequestParser) : Prop :=
  parser.state = .headerValue ∨ parser.state = .headerLws ∧ parser.headerHelper = []

theorem reads_text {text : Bytes} (hvalue : ∀ b ∈ text, ValueChar b) (hhead : ∀ b ∈ text.head?, ¬Lws b)
    (space : Bytes) (req : Request)
    : ∃ state name, InLine ⟨state, m, name, n⟩ ∧ (state = .headerLws → text = [])
        ∧ Reads ⟨.headerLws, m, [], n⟩ req text ⟨state, m, name, n⟩
            { req with headers := req.headers.appendAll (HeadLine.spaced space text).added.toList } := by
  match text with
  | [] => exact ⟨.headerLws, [], .inr ⟨rfl, rfl⟩, fun _ => rfl, .nil _ _⟩
  | c :: text =>
    have hc := hvalue c List.mem_cons_self
    have hname : Reads ⟨.headerLws, m, [], n⟩ req [c] ⟨.headerValue, m, [c], n⟩ req := by
      apply Reads.single
      simp only [consume, isCtl_charToInt, if_neg (not_cr_of_valueChar hc), if_neg hc,
        if_neg (lws_iff.not.mpr (hhead c rfl)), List.nil_append]
    refine ⟨.headerValue, [c], .inl rfl, State.noConfusion, ?_⟩
    match text with
    | [] => exact hname
    | d :: text =>
      have hd := hvalue d (List.mem_cons_of_mem _ List.mem_cons_self)
      have hfirst : Reads ⟨.headerValue, m, [c], n⟩ req [d]
          ⟨.headerValue, m, [c], n⟩ { req with headers := req.headers.append [c] [d] } := by
        apply Reads.single
        simp only [consume, isCtl_charToInt, if_neg (not_cr_of_valueChar hd), if_neg hd]
        rfl
      have hrest := @reads_appended m n [c] text
        (fun b hb => hvalue b (List.mem_cons_of_mem _ (List.mem_cons_of_mem _ hb))) [d] req
      exact (hname.append hfirst).append hrest

theorem reads_render {line : HeadLine} (hvalid : line.Valid) {req : Request}
    (hfirst : req.headers.isEmpty = true → line.IsHeader)
    : ∃ state name, InLine ⟨state, m, name, n⟩ ∧ (state = .headerLws → ∃ space, line = .spaced space [])
        ∧ Reads ⟨.headerLineStart, m, [], n⟩ req line.render ⟨state, m, name, n⟩
            { req with headers := req.headers.appendAll line.added.toList } := by
  cases line with
  | header name value => exact ⟨.headerValue, name, .inl rfl, State.noConfusion, reads_header m n hvalid req⟩
  | spaced space text =>
    have hheaders : req.headers.isEmpty = false := by
      by_contra hempty
      exact hfirst (by simpa using hempty)
    rcases reads_text m n hvalid.text_value hvalid.text_head space req with ⟨state, name, hin, hspace, htext⟩
    exact ⟨state, name, hin, fun hstate => ⟨space, by rw [hspace hstate]⟩,
      (reads_space m n hvalid.space_ne_nil hvalid.space_lws hheaders).append htext⟩

theorem reads_crlf {state : State} {name : Bytes} (hin : InLine ⟨state, m, name, n⟩) (req : Request)
    : Reads ⟨state, m, name, n⟩ req Bytes.crlf ⟨.headerLineStart, m, [], n⟩ req := by
  rcases hin with hstate | ⟨hstate, hname⟩
  . cases hstate
    exact .cons rfl (.single rfl)
  . cases hstate
    cases hname
    exact .cons rfl (.single rfl)

theorem reads_line {line : HeadLine} (hvalid : line.Valid) {req : Request}
    (hfirst : req.headers.isEmpty = true → line.IsHeader)
    : Reads ⟨.headerLineStart, m, [], n⟩ req (line.render ++ Bytes.crlf)
        ⟨.headerLineStart, m, [], n⟩ { req with headers := req.headers.appendAll line.added.toList } := by
  rcases reads_render m n hvalid hfirst with ⟨state, name, hin, -, hrender⟩
  exact hrender.append (reads_crlf m n hin _)

theorem isEmpty_appendAll_added {line : HeadLine} {headers : OrdMap Bytes Bytes}
    (hfirst : headers.isEmpty = true → line.IsHeader)
    : (headers.appendAll line.added.toList).isEmpty = false := by
  apply OrdMap.isEmpty_appendAll
  by_cases hempty : headers.isEmpty = true
  . have hheader := hfirst hempty
    cases line with
    | header name value => exact .inr (List.cons_ne_nil _ _)
    | spaced space text => exact hheader.elim
  . exact .inl (by simpa using hempty)

theorem filterMap_added_cons (line : HeadLine) (lines : List HeadLine)
    : (line :: lines).filterMap HeadLine.added = line.added.toList ++ lines.filterMap HeadLine.added := by
  rw [List.filterMap_cons]
  cases line.added <;> rfl

theorem reads_lines {lines : List HeadLine} (hvalid : ∀ line ∈ lines, line.Valid) {req : Request}
    (hfirst : req.headers.isEmpty = true → ∀ line ∈ lines.head?, line.IsHeader)
    : Reads ⟨.headerLineStart, m, [], n⟩ req (Bytes.unlines (lines.map HeadLine.render))
        ⟨.headerLineStart, m, [], n⟩
        { req with headers := req.headers.appendAll (lines.filterMap HeadLine.added) } := by
  induction lines generalizing req with
  | nil => exact .nil _ _
  | cons line lines ih =>
    have hline := reads_line m n (hvalid line List.mem_cons_self) (fun hempty => hfirst hempty line rfl)
    have hnext := isEmpty_appendAll_added (fun hempty => hfirst hempty line rfl)
    rw [filterMap_added_cons, OrdMap.appendAll_append]
    exact hline.append (ih (fun line hline => hvalid line (List.mem_cons_of_mem _ hline)) (by simp [hnext]))

/-! ## Heads -/

def methodOf (methodHelper : Bytes) : Request.MethodEnum :=
  if methodHelper = Bytes.lit "POST" then
    .post
  else if methodHelper = Bytes.lit "PUT" then
    .put
  else if methodHelper = Bytes.lit "GET" then
    .get
  else
    .unknown

theorem not_space_of_tokenChar {b : UInt8} (hb : TokenChar b) : b ≠ ' '.toUInt8 := by
  rintro rfl
  exact absurd hb (by decide)

theorem reads_token {method : Bytes} (hne : method ≠ []) (hmethod : ∀ b ∈ method, TokenChar b) (req : Request)
    : Reads {} req (method ++ Bytes.lit " ") ⟨.uri, method, [], 0⟩ { req with method := methodOf method } := by
  rcases List.exists_cons_of_ne_nil hne with ⟨b, rest, rfl⟩
  have hb := hmethod b List.mem_cons_self
  have hrun := Reads.run (fun w => (⟨.method, w, [], 0⟩, req))
    (fun w b (hb : TokenChar b) => by
      simp only [consume, notToken_charToInt, if_neg (not_space_of_tokenChar hb), if_neg (not_not.mpr hb)])
    (fun b hb => hmethod b (List.mem_cons_of_mem _ hb)) [b]
  refine Reads.cons ?_ (hrun.append (.single rfl))
  simp only [consume, notToken_charToInt, if_neg (not_not.mpr hb), List.nil_append]

def Head.request (head : Head) : Request :=
  { method := methodOf head.method, uri := head.uri, httpVersion := head.version, headers := head.headers }

theorem Head.reads_requestLine (head : Head)
    : Reads {} {} (head.requestLine ++ Bytes.crlf) ⟨.headerLineStart, head.method, [], 0⟩
        { method := methodOf head.method, uri := head.uri, httpVersion := head.version } := by
  rcases head.isVersion with ⟨major, minor, hversion, hmajor, hminor, hmajorDigits, hminorDigits⟩
  have hline := (((reads_token head.method_ne_nil head.method_token {}).append
    (reads_uri _ _ _ head.uri_chars _)).append (reads_http _ _ _ _)).append
    ((reads_major _ _ _ hmajor hmajorDigits _).append (reads_minor _ _ _ hminor hminorDigits _))
  have hhttp : Bytes.lit " HTTP/" = Bytes.lit " " ++ (Bytes.lit "HTTP" ++ Bytes.lit "/") := rfl
  rw [Head.requestLine, hversion, hhttp]
  simpa only [List.append_assoc, List.nil_append] using hline

theorem parse_head (n : Int) (head : Head) (rest : Bytes)
    : ∃ parser', parse { nCharParsed := n } {} (head.render ++ rest) = ⟨.good, rest, parser', head.request⟩ := by
  have hlines := head.reads_requestLine.append
    (reads_lines head.method 0 head.valid (fun _ => head.first))
  rcases hlines n (Bytes.crlf ++ rest) with ⟨n', hparse⟩
  rw [Head.render, Bytes.unlines_cons, List.append_assoc]
  exact ⟨⟨.expectingNewline3, head.method, [], intSucc (intSucc n')⟩, hparse⟩

/-! ## Every accepted head has lines -/

theorem mem_mul_text {L : Language UInt8} {s : String} {w : Bytes}
    : w ∈ L * text s ↔ ∃ u ∈ L, w = u ++ Bytes.lit s := by
  rw [Language.mem_mul]
  constructor
  . rintro ⟨u, hu, v, hv, rfl⟩
    exact ⟨u, hu, by rw [mem_word.mp hv]⟩
  . rintro ⟨u, hu, rfl⟩
    exact ⟨u, hu, _, rfl, rfl⟩

theorem exists_header {w : Bytes} (h : w ∈ headerLine)
    : ∃ name value, PlainHeader (name, value) ∧ w = RawRequest.headerLine (name, value) ++ Bytes.crlf := by
  rcases mem_mul_text.mp h with ⟨_, h1, rfl⟩
  rcases Language.mem_mul.mp h1 with ⟨_, h2, value, hvalue, rfl⟩
  rcases mem_mul_text.mp h2 with ⟨_, h3, rfl⟩
  rcases mem_mul_text.mp h3 with ⟨name, hname, rfl⟩
  rcases mem_cls_mul_star.mp hname with ⟨hne, hname⟩
  refine ⟨name, value, ⟨hne, hname, mem_star_cls.mp hvalue⟩, ?_⟩
  rw [RawRequest.headerLine, List.append_assoc name]
  rfl

theorem exists_lws_append (text : Bytes)
    : ∃ space rest, text = space ++ rest ∧ (∀ b ∈ space, Lws b) ∧ ∀ b ∈ rest.head?, ¬Lws b := by
  induction text with
  | nil => exact ⟨[], [], rfl, by simp, by simp⟩
  | cons b text ih =>
    by_cases hb : Lws b
    . rcases ih with ⟨space, rest, rfl, hspace, hrest⟩
      exact ⟨b :: space, rest, rfl, List.forall_mem_cons.mpr ⟨hb, hspace⟩, hrest⟩
    . exact ⟨[], b :: text, rfl, by simp, by simpa using hb⟩

theorem exists_spaced {w : Bytes} (h : w ∈ continuation)
    : ∃ space text, HeadLine.Spaced space text ∧ w = space ++ text ++ Bytes.crlf := by
  rcases mem_mul_text.mp h with ⟨_, h1, rfl⟩
  rcases Language.mem_mul.mp h1 with ⟨space, hspace, text, htext, rfl⟩
  rcases mem_cls_mul_star.mp hspace with ⟨hne, hspace⟩
  rw [value, mem_star_cls] at htext
  -- the white space at the front of the text belongs to that before it
  rcases exists_lws_append text with ⟨more, rest, rfl, hmore, hrest⟩
  refine ⟨space ++ more, rest, ⟨by simp [hne], List.forall_mem_append.mpr ⟨hspace, hmore⟩, ?_, hrest⟩, ?_⟩
  . exact fun b hb => htext b (List.mem_append_right _ hb)
  . rw [← List.append_assoc space]
    rfl

theorem exists_line {w : Bytes} (h : w ∈ headerLine + continuation)
    : ∃ line : HeadLine, line.Valid ∧ w = line.render ++ Bytes.crlf := by
  rcases (Language.mem_add _ _ _).mp h with h | h
  . rcases exists_header h with ⟨name, value, hvalid, rfl⟩
    exact ⟨.header name value, hvalid, rfl⟩
  . rcases exists_spaced h with ⟨space, text, hvalid, rfl⟩
    exact ⟨.spaced space text, hvalid, rfl⟩

theorem exists_lines_of_star {w : Bytes} (h : w ∈ (headerLine + continuation)∗)
    : ∃ lines : List HeadLine, (∀ line ∈ lines, line.Valid) ∧ w = Bytes.unlines (lines.map HeadLine.render) := by
  rcases Language.mem_kstar.mp h with ⟨words, rfl, hwords⟩
  clear h
  induction words with
  | nil => exact ⟨[], by simp, rfl⟩
  | cons word words ih =>
    rcases exists_line (hwords word List.mem_cons_self) with ⟨line, hline, rfl⟩
    rcases ih (fun word hword => hwords word (List.mem_cons_of_mem _ hword)) with ⟨lines, hlines, heq⟩
    refine ⟨line :: lines, List.forall_mem_cons.mpr ⟨hline, hlines⟩, ?_⟩
    rw [List.flatten_cons, heq, List.map_cons, Bytes.unlines_cons]

theorem exists_lines {w : Bytes} (h : w ∈ Grammar.lines)
    : ∃ lines : List HeadLine, (∀ line ∈ lines, line.Valid) ∧ (∀ line ∈ lines.head?, line.IsHeader)
        ∧ w = Bytes.unlines (lines.map HeadLine.render) := by
  rcases (Language.mem_add _ _ _).mp h with h | h
  . rw [(Language.mem_one _).mp h]
    exact ⟨[], by simp, by simp, rfl⟩
  . rcases Language.mem_mul.mp h with ⟨_, hheader, _, hrest, rfl⟩
    rcases exists_header hheader with ⟨name, value, hvalid, rfl⟩
    rcases exists_lines_of_star hrest with ⟨lines, hlines, rfl⟩
    exact ⟨.header name value :: lines, List.forall_mem_cons.mpr ⟨hvalid, hlines⟩, by simp [HeadLine.IsHeader], rfl⟩

theorem exists_head {w : Bytes} (h : w ∈ Grammar.head) : ∃ head : Head, w = head.render := by
  rcases mem_mul_text.mp h with ⟨_, h1, rfl⟩
  rcases Language.mem_mul.mp h1 with ⟨_, h2, _, hlines, rfl⟩
  rcases exists_lines hlines with ⟨lines, hvalid, hfirst, rfl⟩
  rcases mem_mul_text.mp h2 with ⟨_, h3, rfl⟩
  rcases Language.mem_mul.mp h3 with ⟨_, h4, minor, hminor, rfl⟩
  rcases mem_mul_text.mp h4 with ⟨_, h5, rfl⟩
  rcases Language.mem_mul.mp h5 with ⟨_, h6, major, hmajor, rfl⟩
  rcases mem_mul_text.mp h6 with ⟨_, h7, rfl⟩
  rcases mem_mul_text.mp h7 with ⟨_, h8, rfl⟩
  rcases Language.mem_mul.mp h8 with ⟨_, h9, uri, huri, rfl⟩
  rcases mem_mul_text.mp h9 with ⟨method, hmethod, rfl⟩
  rcases mem_cls_mul_star.mp hmethod with ⟨hmethodNe, hmethod⟩
  rcases mem_cls_mul_star.mp hmajor with ⟨hmajorNe, hmajor⟩
  rcases mem_cls_mul_star.mp hminor with ⟨hminorNe, hminor⟩
  refine ⟨⟨method, uri, major ++ Bytes.lit "." ++ minor, lines, hmethodNe, hmethod, mem_star_cls.mp huri,
    ⟨major, minor, rfl, hmajorNe, hminorNe, hmajor, hminor⟩, hvalid, hfirst⟩, ?_⟩
  have hhttp : Bytes.lit " HTTP/" = Bytes.lit " " ++ Bytes.lit "HTTP/" := rfl
  have hcrlf : Bytes.lit "\r\n" = Bytes.crlf := rfl
  simp only [Head.render, Head.requestLine, Bytes.unlines_cons, hhttp, hcrlf, List.append_assoc]

/-- The heads that the parser accepts are the texts of a request line and lines. -/
theorem parse_good_iff_head (n : Int) (s rest : Bytes)
    : (parse { nCharParsed := n } {} s).result = .good ∧ (parse { nCharParsed := n } {} s).rest = rest
        ↔
      ∃ head : Head, s = head.render ++ rest := by
  constructor
  . intro h
    have hseen : HeaderSeen ({ nCharParsed := n } : RequestParser).state ({} : Request).headers.isEmpty := by
      simp [HeaderSeen]
    rcases (parse_good_iff hseen).mp h with ⟨w, hw, rfl⟩
    have hw : w ∈ residual .methodStart true := hw
    rw [residual_methodStart] at hw
    rcases exists_head hw with ⟨head, rfl⟩
    exact ⟨head, rfl⟩
  . rintro ⟨head, rfl⟩
    rcases parse_head n head rest with ⟨parser', hparse⟩
    rw [hparse]
    exact ⟨rfl, rfl⟩

end RequestParser

end Foxy
