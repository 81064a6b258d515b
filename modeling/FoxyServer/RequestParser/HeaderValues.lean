import FoxyServer.RequestParser.HeadLines
import FoxyServer.RequestParser.ParseData

/-!
This module contains what is stored under a header name that occurs on several lines, and what becomes of
header lines that are moved to the right.
-/

namespace Foxy

open Grammar

namespace RequestParser

/-! ## Strings run together -/

section

variable {α : Type} {l : List (List α)}

theorem flatten_eq_nil_of_filter (h : l.filter (fun w => !w.isEmpty) = []) : l.flatten = [] := by
  rw [List.filter_eq_nil_iff] at h
  rw [List.flatten_eq_nil_iff]
  intro w hw
  simpa using h w hw

theorem flatten_mem_iff (hne : l ≠ []) : l.flatten ∈ l ↔ (l.filter (fun w => !w.isEmpty)).length ≤ 1 := by
  induction l with
  | nil => exact absurd rfl hne
  | cons w l ih =>
    rw [List.flatten_cons, List.filter_cons, List.mem_cons]
    cases w with
    | nil =>
      simp only [List.nil_append, List.isEmpty_nil, Bool.not_true, Bool.false_eq_true, if_false]
      by_cases hl : l = []
      . simp [hl]
      . rw [ih hl, or_iff_right_of_imp]
        intro hnil
        have hfilter : l.filter (fun w => !w.isEmpty) = [] := by
          simpa [List.filter_eq_nil_iff] using List.flatten_eq_nil_iff.mp hnil
        simp [hfilter]
    | cons a w =>
      simp only [List.isEmpty_cons, Bool.not_false, if_true, List.length_cons]
      constructor
      . rintro (hself | hmem)
        . have hnil : l.flatten = [] := by simpa using hself
          have hfilter : l.filter (fun w => !w.isEmpty) = [] := by
            simpa [List.filter_eq_nil_iff] using List.flatten_eq_nil_iff.mp hnil
          simp [hfilter]
        . -- one of the other strings would have to be longer than all of them together
          have hle := (List.sublist_flatten_of_mem hmem).length_le
          rw [List.length_append, List.length_cons] at hle
          omega
      . intro hlength
        have hfilter := List.length_eq_zero_iff.mp (show (l.filter (fun w => !w.isEmpty)).length = 0 by omega)
        rw [flatten_eq_nil_of_filter hfilter, List.append_nil]
        exact .inl rfl

theorem length_flatten_le_intercalate (separator : List α) (l : List (List α))
    : l.flatten.length ≤ (separator.intercalate l).length := by
  match l with
  | [] => simp
  | [w] => simp
  | w :: w' :: l =>
    have ih := length_flatten_le_intercalate separator (w' :: l)
    rw [List.intercalate_cons_cons, List.flatten_cons, List.length_append, List.length_append, List.length_append]
    omega

theorem flatten_ne_intercalate {separator : List α} (hseparator : separator ≠ []) (hl : 2 ≤ l.length)
    : l.flatten ≠ separator.intercalate l := by
  match l with
  | [] => simp at hl
  | [w] => simp at hl
  | w :: w' :: l =>
    intro heq
    have hle := length_flatten_le_intercalate separator (w' :: l)
    have hpos := List.length_pos_iff.mpr hseparator
    have hlength := congrArg List.length heq
    rw [List.intercalate_cons_cons, List.flatten_cons, List.length_append, List.length_append,
      List.length_append] at hlength
    omega

end

/-! ## Names on several lines -/

def HeadLine.valueOf (name : Bytes) : HeadLine → Option Bytes
  | header name' value => if name' = name then some value else none
  | spaced _ _ => none

def lineValues (name : Bytes) (lines : List HeadLine) : List Bytes :=
  lines.filterMap (HeadLine.valueOf name)

/-- All that is added under the name, by header lines and by lines that begin with white space. -/
def pieces (name : Bytes) (lines : List HeadLine) : List Bytes :=
  OrdMap.valuesAt name (lines.filterMap HeadLine.added)

theorem find?_headers (head : Head) (name : Bytes)
    : head.headers.find? name
        =
      if pieces name head.lines = [] then none else some (pieces name head.lines).flatten := by
  rw [Head.headers, OrdMap.find?_appendAll]
  rfl

@[simp]
theorem lineValues_nil (name : Bytes) : lineValues name [] = [] := rfl

@[simp]
theorem pieces_nil (name : Bytes) : pieces name [] = [] := rfl

theorem lineValues_header (name name' value : Bytes) (lines : List HeadLine)
    : lineValues name (.header name' value :: lines)
        =
      if name' = name then value :: lineValues name lines else lineValues name lines := by
  rw [lineValues, List.filterMap_cons, HeadLine.valueOf]
  split_ifs <;> rfl

theorem pieces_header (name name' value : Bytes) (lines : List HeadLine)
    : pieces name (.header name' value :: lines)
        =
      if name' = name then value :: pieces name lines else pieces name lines := by
  have hcons := OrdMap.valuesAt_cons name (name', value) (lines.filterMap HeadLine.added)
  split_ifs at hcons ⊢ <;> exact hcons

theorem lineValues_spaced (name space text : Bytes) (lines : List HeadLine)
    : lineValues name (.spaced space text :: lines) = lineValues name lines := rfl

theorem pieces_spaced (name space text : Bytes) (lines : List HeadLine)
    : pieces name (.spaced space text :: lines) = pieces name lines
        ∨ name.length = 1
          ∧ ∃ piece, piece ≠ [] ∧ pieces name (.spaced space text :: lines) = piece :: pieces name lines := by
  match text with
  | [] => exact .inl rfl
  | [c] => exact .inl rfl
  | c :: d :: text =>
    have hcons := OrdMap.valuesAt_cons name ([c], d :: text) (lines.filterMap HeadLine.added)
    split at hcons
    next hname =>
      refine .inr ⟨by rw [← hname]; rfl, d :: text, List.cons_ne_nil _ _, hcons⟩
    next => exact .inl hcons

theorem length_lineValues_le (name : Bytes) (lines : List HeadLine)
    : (lineValues name lines).flatten.length ≤ (pieces name lines).flatten.length := by
  induction lines with
  | nil => rfl
  | cons line lines ih =>
    cases line with
    | header name' value =>
      rw [lineValues_header, pieces_header]
      split_ifs
      . simpa using ih
      . exact ih
    | spaced space text =>
      rw [lineValues_spaced]
      rcases pieces_spaced name space text lines with heq | ⟨-, piece, -, heq⟩
      . rwa [heq]
      . rw [heq, List.flatten_cons, List.length_append]
        omega

theorem pieces_eq_lineValues {name : Bytes} {lines : List HeadLine}
    (h : (pieces name lines).flatten.length ≤ (lineValues name lines).flatten.length)
    : pieces name lines = lineValues name lines := by
  induction lines with
  | nil => rfl
  | cons line lines ih =>
    cases line with
    | header name' value =>
      rw [lineValues_header, pieces_header] at h ⊢
      split_ifs at h ⊢
      . rw [ih (by simpa using h)]
      . exact ih h
    | spaced space text =>
      rw [lineValues_spaced] at h ⊢
      rcases pieces_spaced name space text lines with heq | ⟨-, piece, hpiece, heq⟩
      . rw [heq] at h ⊢
        exact ih h
      . have hle := length_lineValues_le name lines
        have hpos := List.length_pos_iff.mpr hpiece
        rw [heq, List.flatten_cons, List.length_append] at h
        omega

theorem pieces_eq_lineValues_of_length {name : Bytes} (hname : name.length ≠ 1) (lines : List HeadLine)
    : pieces name lines = lineValues name lines := by
  induction lines with
  | nil => rfl
  | cons line lines ih =>
    cases line with
    | header name' value => rw [lineValues_header, pieces_header, ih]
    | spaced space text =>
      rcases pieces_spaced name space text lines with heq | ⟨hone, -⟩
      . rw [heq, lineValues_spaced, ih]
      . exact absurd hone hname

theorem pieces_ne_nil {name : Bytes} {lines : List HeadLine} (h : lineValues name lines ≠ [])
    : pieces name lines ≠ [] := by
  induction lines with
  | nil => exact absurd rfl h
  | cons line lines ih =>
    cases line with
    | header name' value =>
      rw [lineValues_header] at h
      rw [pieces_header]
      split_ifs at h ⊢
      . simp
      . exact ih h
    | spaced space text =>
      rw [lineValues_spaced] at h
      rcases pieces_spaced name space text lines with heq | ⟨-, piece, -, heq⟩
      . rw [heq]
        exact ih h
      . simp [heq]

/--
What is stored under a name that stands on several lines is the value of one of them, or all their values
with a separator between them. The content length is a value that stands on a line.
-/
structure StoresLineValues (lines : List HeadLine) (request : Request) : Prop where
  repeated : ∀ name, 2 ≤ (lineValues name lines).length →
    ∃ value, request.headers.find? name = some value
      ∧ (value ∈ lineValues name lines
        ∨ ∃ separator, separator ≠ [] ∧ value = separator.intercalate (lineValues name lines))
  contentLength : lineValues (Bytes.lit "Content-Length") lines ≠ [] →
    request.contentLengthStr ∈ lineValues (Bytes.lit "Content-Length") lines

/--
At most one of the lines has a value that is not empty, and nothing else adds to it; or lines that begin with
white space happen to add a separator.
-/
def KeepsApart (name : Bytes) (lines : List HeadLine) : Prop :=
  pieces name lines = lineValues name lines
      ∧ ((lineValues name lines).filter (fun value => !value.isEmpty)).length ≤ 1
    ∨ ∃ separator, separator ≠ [] ∧ (pieces name lines).flatten = separator.intercalate (lineValues name lines)

theorem keepsApart_iff {head : Head} {name : Bytes} (hrepeated : 2 ≤ (lineValues name head.lines).length)
    : KeepsApart name head.lines
        ↔
      ∃ value, head.headers.find? name = some value
        ∧ (value ∈ lineValues name head.lines
          ∨ ∃ separator, separator ≠ [] ∧ value = separator.intercalate (lineValues name head.lines)) := by
  have hne : lineValues name head.lines ≠ [] := by
    rintro heq
    simp [heq] at hrepeated
  rw [find?_headers, if_neg (pieces_ne_nil hne)]
  simp only [Option.some.injEq, exists_eq_left', KeepsApart]
  apply or_congr_left
  constructor
  . rintro ⟨heq, hlength⟩
    rw [heq]
    exact (flatten_mem_iff hne).mpr hlength
  . intro hmem
    have heq := pieces_eq_lineValues (List.sublist_flatten_of_mem hmem).length_le
    rw [heq] at hmem
    exact ⟨heq, (flatten_mem_iff hne).mp hmem⟩

theorem contentLengthStr_mem {head : Head}
    (hkeeps : 2 ≤ (lineValues (Bytes.lit "Content-Length") head.lines).length →
      KeepsApart (Bytes.lit "Content-Length") head.lines)
    (hne : lineValues (Bytes.lit "Content-Length") head.lines ≠ [])
    : head.request.contentLengthStr ∈ lineValues (Bytes.lit "Content-Length") head.lines := by
  have hpieces := @pieces_eq_lineValues_of_length (Bytes.lit "Content-Length") (by decide) head.lines
  have hstored : head.request.contentLengthStr = (lineValues (Bytes.lit "Content-Length") head.lines).flatten := by
    rw [Request.contentLengthStr, Head.request, find?_headers, hpieces, if_neg hne, Option.getD_some]
  rw [hstored, flatten_mem_iff hne]
  by_cases hrepeated : 2 ≤ (lineValues (Bytes.lit "Content-Length") head.lines).length
  . rcases hkeeps hrepeated with ⟨-, hlength⟩ | ⟨separator, hseparator, heq⟩
    . exact hlength
    . rw [hpieces] at heq
      exact absurd heq (flatten_ne_intercalate hseparator hrepeated)
  . exact (List.length_filter_le _ _).trans (by omega)

/--
The headers of a request that is accepted have the values that stand on its lines exactly if the values of
every repeated name are kept apart.
-/
theorem storesLineValues_iff (n : Int) {s : Bytes} (hgood : (parse { nCharParsed := n } {} s).result = .good)
    : (∃ head : Head, s = head.render ++ (parse { nCharParsed := n } {} s).rest)
        ∧ ∀ head : Head, s = head.render ++ (parse { nCharParsed := n } {} s).rest →
          (StoresLineValues head.lines (parse { nCharParsed := n } {} s).request
            ↔
          ∀ name, 2 ≤ (lineValues name head.lines).length → KeepsApart name head.lines) := by
  refine ⟨(parse_good_iff_head n s _).mp ⟨hgood, rfl⟩, ?_⟩
  intro head hs
  have hrequest : (parse { nCharParsed := n } {} s).request = head.request := by
    rcases parse_head n head (parse { nCharParsed := n } {} s).rest with ⟨parser', hparse⟩
    rw [← hs] at hparse
    rw [hparse]
  rw [hrequest]
  constructor
  . intro h name hrepeated
    exact (keepsApart_iff hrepeated).mpr (h.repeated name hrepeated)
  . intro h
    exact ⟨fun name hrepeated => (keepsApart_iff hrepeated).mp (h name hrepeated),
      contentLengthStr_mem (h _)⟩

def sameTwice : Head :=
  .root [.header (Bytes.lit "A") [], .header (Bytes.lit "A") (Bytes.lit "b")] (by decide +kernel) (by decide +kernel)

theorem storesLineValues_sameTwice
    : StoresLineValues sameTwice.lines
        (parse { nCharParsed := 0 } {} (Bytes.lit "GET / HTTP/1.1\r\nA: \r\nA: b\r\n\r\n")).request := by
  have hiff := (storesLineValues_iff 0 (s := Bytes.lit "GET / HTTP/1.1\r\nA: \r\nA: b\r\n\r\n") (by decide +kernel)).2
    sameTwice (by decide +kernel)
  apply hiff.mpr
  intro name hrepeated
  by_cases hname : Bytes.lit "A" = name
  . subst hname
    exact .inl ⟨by decide +kernel, by decide +kernel⟩
  . simp [sameTwice, Head.root, lineValues_header, hname] at hrepeated

def twoLengths : Head :=
  .root [.header (Bytes.lit "Content-Length") (Bytes.lit "1"), .header (Bytes.lit "Content-Length") (Bytes.lit "2")]
    (by decide +kernel) (by decide +kernel)

/-- The length of a body of one or of two bytes becomes twelve. -/
theorem lengths_run_together
    : ¬∀ (s : Bytes) (head : Head), (parse {} {} s).result = .good → s = head.render ++ (parse {} {} s).rest →
        StoresLineValues head.lines (parse {} {} s).request := by
  intro h
  have hstores := h (Bytes.lit "GET / HTTP/1.1\r\nContent-Length: 1\r\nContent-Length: 2\r\n\r\n") twoLengths
    (by decide +kernel) (by decide +kernel)
  have hmem := hstores.contentLength (by decide +kernel)
  revert hmem
  decide +kernel

/-! ## Lines moved to the right -/

def applyEach {α β : Type} (f : β → α → α) : List β → List α → List α
  | b :: bs, a :: l => f b a :: applyEach f bs l
  | _, l => l

def applyBehind {α β : Type} (f : β → α → α) (bs : List β) : List α → List α
  | [] => []
  | a :: l => a :: applyEach f bs l

theorem map_applyEach {α β γ : Type} {f : β → α → α} {g : β → γ → γ} {h : α → γ}
    (hfg : ∀ b a, h (f b a) = g b (h a)) (bs : List β) (l : List α)
    : (applyEach f bs l).map h = applyEach g bs (l.map h) := by
  induction bs generalizing l with
  | nil => cases l <;> rfl
  | cons b bs ih =>
    cases l with
    | nil => rfl
    | cons a l => rw [applyEach, List.map_cons, List.map_cons, applyEach, ih, hfg]

theorem map_applyBehind {α β γ : Type} {f : β → α → α} {g : β → γ → γ} {h : α → γ}
    (hfg : ∀ b a, h (f b a) = g b (h a)) (bs : List β) (l : List α)
    : (applyBehind f bs l).map h = applyBehind g bs (l.map h) := by
  cases l with
  | nil => rfl
  | cons a l => rw [applyBehind, List.map_cons, List.map_cons, applyBehind, map_applyEach hfg]

def Head.renderIndented (head : Head) (spaces : List Bytes) : Bytes :=
  Bytes.unlines (head.requestLine :: applyBehind (· ++ ·) spaces (head.lines.map HeadLine.render)) ++ Bytes.crlf

namespace HeadLine

def indent (space : Bytes) : HeadLine → HeadLine
  | header name value =>
    if space = [] then header name value else spaced space (RawRequest.headerLine (name, value))
  | spaced space' text => spaced (space ++ space') text

theorem render_indent (space : Bytes) (line : HeadLine) : (line.indent space).render = space ++ line.render := by
  cases line with
  | header name value =>
    unfold indent
    split_ifs with hspace
    . rw [hspace, List.nil_append]
    . rfl
  | spaced space' text => exact List.append_assoc ..

theorem valid_indent {space : Bytes} (hspace : ∀ b ∈ space, Lws b) {line : HeadLine} (hvalid : line.Valid)
    : (line.indent space).Valid := by
  cases line with
  | header name value =>
    unfold indent
    split_ifs with hnil
    . exact hvalid
    . refine ⟨hnil, hspace, ?_, ?_⟩
      . unfold RawRequest.headerLine
        refine List.forall_mem_append.mpr ⟨List.forall_mem_append.mpr ⟨?_, by decide +kernel⟩, hvalid.value⟩
        exact fun b hb => (hvalid.name b hb).2.1
      . rcases List.exists_cons_of_ne_nil hvalid.name_ne_nil with ⟨c, rest, hname⟩
        have hc := hvalid.name c (by rw [hname]; exact List.mem_cons_self)
        simp only at hname
        rw [RawRequest.headerLine, hname]
        simpa using not_lws_of_tokenChar hc
  | spaced space' text =>
    exact ⟨by simp [hvalid.space_ne_nil], List.forall_mem_append.mpr ⟨hspace, hvalid.space_lws⟩, hvalid.text_value,
      hvalid.text_head⟩

def weight (line : HeadLine) : Nat :=
  (line.added.map (fun e => e.2.length)).getD 0

theorem weight_spaced (space : Bytes) (c : UInt8) (text : Bytes) : (spaced space (c :: text)).weight = text.length := by
  cases text <;> rfl

theorem added_indent {space : Bytes} {line : HeadLine} (h : line.IsHeader → space = [])
    : (line.indent space).added = line.added := by
  cases line with
  | header name value => rw [indent, if_pos (h trivial)]
  | spaced space' text =>
    match text with
    | [] => rfl
    | [c] => rfl
    | c :: d :: text => rfl

theorem weight_lt_indent {space : Bytes} (hspace : space ≠ []) {line : HeadLine} (hvalid : line.Valid)
    (hheader : line.IsHeader) : line.weight < (line.indent space).weight := by
  cases line with
  | header name value =>
    rcases List.exists_cons_of_ne_nil hvalid.name_ne_nil with ⟨c, rest, hname⟩
    simp only at hname
    have hline : RawRequest.headerLine (name, value) = c :: (rest ++ Bytes.lit ": " ++ value) := by
      rw [RawRequest.headerLine, hname]
      rfl
    rw [indent, if_neg hspace, hline, weight_spaced, List.length_append]
    have hsep : (Bytes.lit ": ").length = 2 := rfl
    rw [List.length_append, hsep]
    have hweight : (header name value).weight = value.length := rfl
    omega
  | spaced space' text => exact hheader.elim

theorem weight_le_indent (space : Bytes) {line : HeadLine} (hvalid : line.Valid)
    : line.weight ≤ (line.indent space).weight := by
  by_cases h : line.IsHeader → space = []
  . rw [weight, weight, added_indent h]
  . push Not at h
    exact (weight_lt_indent h.2 hvalid h.1).le

end HeadLine

def Unmoved (spaces : List Bytes) (lines : List HeadLine) : Prop :=
  ∀ pair ∈ spaces.zip lines, pair.2.IsHeader → pair.1 = []

theorem added_applyEach {spaces : List Bytes} {lines : List HeadLine} (h : Unmoved spaces lines)
    : (applyEach HeadLine.indent spaces lines).filterMap HeadLine.added = lines.filterMap HeadLine.added := by
  induction spaces generalizing lines with
  | nil => cases lines <;> rfl
  | cons space spaces ih =>
    cases lines with
    | nil => rfl
    | cons line lines =>
      rw [Unmoved, List.zip_cons_cons, List.forall_mem_cons] at h
      rw [applyEach, List.filterMap_cons, List.filterMap_cons, HeadLine.added_indent h.1, ih h.2]

theorem sum_weight_le_applyEach (spaces : List Bytes) {lines : List HeadLine} (hvalid : ∀ line ∈ lines, line.Valid)
    : (lines.map HeadLine.weight).sum ≤ ((applyEach HeadLine.indent spaces lines).map HeadLine.weight).sum := by
  induction spaces generalizing lines with
  | nil => cases lines <;> rfl
  | cons space spaces ih =>
    cases lines with
    | nil => rfl
    | cons line lines =>
      rw [List.forall_mem_cons] at hvalid
      have hline := HeadLine.weight_le_indent space hvalid.1
      have hlines := ih hvalid.2
      simp only [applyEach, List.map_cons, List.sum_cons]
      omega

theorem unmoved_of_sum_weight {spaces : List Bytes} {lines : List HeadLine} (hvalid : ∀ line ∈ lines, line.Valid)
    (h : ((applyEach HeadLine.indent spaces lines).map HeadLine.weight).sum ≤ (lines.map HeadLine.weight).sum)
    : Unmoved spaces lines := by
  induction spaces generalizing lines with
  | nil => simp [Unmoved]
  | cons space spaces ih =>
    cases lines with
    | nil => simp [Unmoved]
    | cons line lines =>
      rw [List.forall_mem_cons] at hvalid
      have hline := HeadLine.weight_le_indent space hvalid.1
      have hlines := sum_weight_le_applyEach spaces hvalid.2
      simp only [applyEach, List.map_cons, List.sum_cons] at h
      rw [Unmoved, List.zip_cons_cons, List.forall_mem_cons]
      refine ⟨?_, ih hvalid.2 (by omega)⟩
      intro hheader
      by_contra hspace
      have hlt : line.weight < (line.indent space).weight := HeadLine.weight_lt_indent hspace hvalid.1 hheader
      omega

theorem size_headers (lines : List HeadLine)
    : (OrdMap.empty.appendAll (lines.filterMap HeadLine.added)).size = (lines.map HeadLine.weight).sum := by
  have hsum : ((lines.filterMap HeadLine.added).map (fun e => e.2.length)).sum
      = (lines.map HeadLine.weight).sum := by
    induction lines with
    | nil => rfl
    | cons line lines ih =>
      rw [List.filterMap_cons, List.map_cons, List.sum_cons, ← ih, HeadLine.weight]
      cases line.added with
      | none => simp
      | some e => simp
  rw [OrdMap.size_appendAll, hsum]
  exact Nat.zero_add _

theorem valid_applyEach {spaces : List Bytes} (hspaces : ∀ space ∈ spaces, ∀ b ∈ space, Lws b)
    {lines : List HeadLine} (hvalid : ∀ line ∈ lines, line.Valid)
    : ∀ line ∈ applyEach HeadLine.indent spaces lines, line.Valid := by
  induction spaces generalizing lines with
  | nil => cases lines <;> exact hvalid
  | cons space spaces ih =>
    cases lines with
    | nil => exact hvalid
    | cons line lines =>
      rw [List.forall_mem_cons] at hspaces hvalid
      exact List.forall_mem_cons.mpr ⟨HeadLine.valid_indent hspaces.1 hvalid.1, ih hspaces.2 hvalid.2⟩

theorem valid_applyBehind {spaces : List Bytes} (hspaces : ∀ space ∈ spaces, ∀ b ∈ space, Lws b)
    {lines : List HeadLine} (hvalid : ∀ line ∈ lines, line.Valid)
    : ∀ line ∈ applyBehind HeadLine.indent spaces lines, line.Valid := by
  cases lines with
  | nil => exact hvalid
  | cons line lines =>
    rw [List.forall_mem_cons] at hvalid
    exact List.forall_mem_cons.mpr ⟨hvalid.1, valid_applyEach hspaces hvalid.2⟩

def Head.indent (head : Head) (spaces : List Bytes) (hspaces : ∀ space ∈ spaces, ∀ b ∈ space, Lws b) : Head where
  method := head.method
  uri := head.uri
  version := head.version
  lines := applyBehind HeadLine.indent spaces head.lines
  method_ne_nil := head.method_ne_nil
  method_token := head.method_token
  uri_chars := head.uri_chars
  isVersion := head.isVersion
  valid := valid_applyBehind hspaces head.valid
  first := by
    have hfirst := head.first
    cases hlines : head.lines with
    | nil => simp [applyBehind]
    | cons line lines =>
      rw [hlines] at hfirst
      exact hfirst

theorem Head.render_indent (head : Head) (spaces : List Bytes) (hspaces : ∀ space ∈ spaces, ∀ b ∈ space, Lws b)
    : (head.indent spaces hspaces).render = head.renderIndented spaces := by
  rw [Head.render, Head.renderIndented, Head.indent, map_applyBehind HeadLine.render_indent]
  rfl

theorem headers_indent_iff (head : Head) (spaces : List Bytes) (hspaces : ∀ space ∈ spaces, ∀ b ∈ space, Lws b)
    : (head.indent spaces hspaces).headers = head.headers ↔ Unmoved spaces head.lines.tail := by
  have hvalid := head.valid
  have hlines : (head.indent spaces hspaces).lines = applyBehind HeadLine.indent spaces head.lines := rfl
  rw [Head.headers, Head.headers, hlines]
  cases hhead : head.lines with
  | nil => simp [applyBehind, Unmoved]
  | cons line lines =>
    rw [hhead, List.forall_mem_cons] at hvalid
    rw [applyBehind, List.tail_cons]
    constructor
    . intro heq
      have hsize := congrArg OrdMap.size heq
      rw [size_headers, size_headers, List.map_cons, List.map_cons, List.sum_cons, List.sum_cons] at hsize
      exact unmoved_of_sum_weight hvalid.2 (by omega)
    . intro hunmoved
      rw [List.filterMap_cons, List.filterMap_cons, added_applyEach hunmoved]

/--
With white space in front of the lines behind the first one a request is still accepted, and has the same
headers exactly if none of these lines is a header line.
-/
theorem parse_indented_iff (n : Int) {s : Bytes} (hgood : (parse { nCharParsed := n } {} s).result = .good)
    {spaces : List Bytes} (hspaces : ∀ space ∈ spaces, ∀ b ∈ space, Lws b)
    : (∃ head : Head, s = head.render ++ (parse { nCharParsed := n } {} s).rest)
        ∧ ∀ head : Head, s = head.render ++ (parse { nCharParsed := n } {} s).rest →
          ∀ s', s' = head.renderIndented spaces ++ (parse { nCharParsed := n } {} s).rest →
            ((parse { nCharParsed := n } {} s').result = .good
                ∧ (parse { nCharParsed := n } {} s').request.headers
                  = (parse { nCharParsed := n } {} s).request.headers
              ↔
            Unmoved spaces head.lines.tail) := by
  refine ⟨(parse_good_iff_head n s _).mp ⟨hgood, rfl⟩, ?_⟩
  rintro head hs s' rfl
  rcases parse_head n head (parse { nCharParsed := n } {} s).rest with ⟨parser1, hparse⟩
  rcases parse_head n (head.indent spaces hspaces) (parse { nCharParsed := n } {} s).rest with ⟨parser2, hindented⟩
  rw [← hs] at hparse
  rw [Head.render_indent] at hindented
  rw [hindented, hparse, ← headers_indent_iff head spaces hspaces]
  exact and_iff_right rfl

def twoHeaders : Head :=
  .root [.header (Bytes.lit "A") (Bytes.lit "1"), .header (Bytes.lit "B") (Bytes.lit "2")] (by decide +kernel)
    (by decide +kernel)

theorem parse_indented_unmoved
    : (parse { nCharParsed := 0 } {} (twoHeaders.renderIndented [[]])).result = .good
        ∧ (parse { nCharParsed := 0 } {} (twoHeaders.renderIndented [[]])).request.headers
          = (parse { nCharParsed := 0 } {} twoHeaders.render).request.headers := by
  have hiff := (@parse_indented_iff 0 twoHeaders.render (by decide +kernel) [[]] (by simp)).2
    twoHeaders (by decide +kernel) (twoHeaders.renderIndented [[]]) (by decide +kernel)
  apply hiff.mpr
  simp [Unmoved, twoHeaders, Head.root]

/-- A header that has been moved by one space is gone, and what is left of it is the value of another one. -/
theorem indented_header_lost
    : ¬∀ (head : Head) (spaces : List Bytes), (∀ space ∈ spaces, ∀ b ∈ space, Lws b) →
        (parse {} {} head.render).result = .good →
          (parse {} {} (head.renderIndented spaces)).result = .good
            ∧ (parse {} {} (head.renderIndented spaces)).request.headers
              = (parse {} {} head.render).request.headers := by
  intro h
  have hsame := (h twoHeaders [Bytes.lit " "] (by decide +kernel) (by decide +kernel)).2
  revert hsame
  decide +kernel

end RequestParser

end Foxy
