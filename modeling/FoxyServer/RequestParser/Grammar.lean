import FoxyServer.Library.Scanner
import FoxyServer.RequestParser.Basic

/-!
This module contains the grammar of a request head, as a language over bytes, and the language that is
left to read in each state of the parser.
-/

open Computability Scanner

namespace Foxy

namespace Grammar

def Ctl (b : UInt8) : Prop :=
  b < 32 ∨ b = 127

def Tspecial (b : UInt8) : Prop :=
  b ∈ Bytes.lit "()<>@,;:\\\"/[]?=\x7b\x7d \t"

def TokenChar (b : UInt8) : Prop :=
  b < 128 ∧ ¬Ctl b ∧ ¬Tspecial b

def UriChar (b : UInt8) : Prop :=
  b ≠ ' '.toUInt8 ∧ ¬Ctl b

def Digit (b : UInt8) : Prop :=
  '0'.toUInt8 ≤ b ∧ b ≤ '9'.toUInt8

def ValueChar (b : UInt8) : Prop :=
  ¬Ctl b

def Lws (b : UInt8) : Prop :=
  b = ' '.toUInt8 ∨ b = '\t'.toUInt8

instance (b : UInt8) : Decidable (Ctl b) := inferInstanceAs (Decidable (_ ∨ _))
instance (b : UInt8) : Decidable (Tspecial b) := inferInstanceAs (Decidable (_ ∈ _))
instance (b : UInt8) : Decidable (TokenChar b) := inferInstanceAs (Decidable (_ ∧ _))
instance (b : UInt8) : Decidable (UriChar b) := inferInstanceAs (Decidable (_ ∧ _))
instance (b : UInt8) : Decidable (Digit b) := inferInstanceAs (Decidable (_ ∧ _))
instance (b : UInt8) : Decidable (ValueChar b) := inferInstanceAs (Decidable (¬_))
instance (b : UInt8) : Decidable (Lws b) := inferInstanceAs (Decidable (_ ∨ _))

def text (s : String) : Language UInt8 :=
  word (Bytes.lit s)

def token : Language UInt8 :=
  cls TokenChar * (cls TokenChar)∗

def uri : Language UInt8 :=
  (cls UriChar)∗

def digits : Language UInt8 :=
  cls Digit * (cls Digit)∗

def value : Language UInt8 :=
  (cls ValueChar)∗

def headerLine : Language UInt8 :=
  token * text ":" * text " " * value * text "\r\n"

def continuation : Language UInt8 :=
  cls Lws * (cls Lws)∗ * value * text "\r\n"

def lines : Language UInt8 :=
  1 + headerLine * (headerLine + continuation)∗

def head : Language UInt8 :=
  token * text " " * uri * text " " * text "HTTP/" * digits * text "." * digits * text "\r\n"
    * lines * text "\r\n"

/-! ## What is left to read in each state -/

def chr (c : UInt8) : Language UInt8 :=
  cls (· = c)

def afterLine (noHeader : Bool) : Language UInt8 :=
  if noHeader then lines * text "\r\n" else (headerLine + continuation)∗ * text "\r\n"

def afterValue : Language UInt8 :=
  chr '\r'.toUInt8 * (chr '\n'.toUInt8 * afterLine false)

def residual (state : RequestParser.State) (noHeader : Bool) : Language UInt8 :=
  match state with
  | .methodStart => cls TokenChar * residual .method noHeader
  | .method => (cls TokenChar)∗ * (chr ' '.toUInt8 * residual .uri noHeader)
  | .uri => (cls UriChar)∗ * (chr ' '.toUInt8 * residual .httpVersionH noHeader)
  | .httpVersionH => chr 'H'.toUInt8 * residual .httpVersionT1 noHeader
  | .httpVersionT1 => chr 'T'.toUInt8 * residual .httpVersionT2 noHeader
  | .httpVersionT2 => chr 'T'.toUInt8 * residual .httpVersionP noHeader
  | .httpVersionP => chr 'P'.toUInt8 * residual .httpVersionSlash noHeader
  | .httpVersionSlash => chr '/'.toUInt8 * residual .httpVersionMajorStart noHeader
  | .httpVersionMajorStart => cls Digit * residual .httpVersionMajor noHeader
  | .httpVersionMajor => (cls Digit)∗ * (chr '.'.toUInt8 * residual .httpVersionMinorStart noHeader)
  | .httpVersionMinorStart => cls Digit * residual .httpVersionMinor noHeader
  | .httpVersionMinor => (cls Digit)∗ * (chr '\r'.toUInt8 * residual .expectingNewline1 noHeader)
  | .expectingNewline1 => chr '\n'.toUInt8 * afterLine noHeader
  | .headerLineStart => afterLine noHeader
  | .headerLws => (cls Lws)∗ * ((cls ValueChar)∗ * afterValue)
  | .headerName => (cls TokenChar)∗ * (chr ':'.toUInt8 * residual .spaceBeforeHeaderValue noHeader)
  | .spaceBeforeHeaderValue => chr ' '.toUInt8 * residual .headerValue noHeader
  | .headerValue => (cls ValueChar)∗ * afterValue
  | .expectingNewline2 => chr '\n'.toUInt8 * afterLine false
  | .expectingNewline3 => chr '\n'.toUInt8 * 1
termination_by 20 - state.ctorIdx
decreasing_by all_goals decide

/-! ## The classes of the source and the classes of the grammar -/

theorem charToInt_eq_iff {b t : UInt8} (ht : t.toNat < 128)
    : RequestParser.charToInt b = t.toNat ↔ b = t := by
  have := b.toNat_lt
  rw [RequestParser.charToInt, ← UInt8.toNat_inj]
  split <;> omega

@[simp]
theorem isChar_charToInt (b : UInt8)
    : RequestParser.isChar (RequestParser.charToInt b) = true ↔ b < 128 := by
  have := b.toNat_lt
  simp only [RequestParser.isChar, RequestParser.charToInt, UInt8.lt_iff_toNat_lt]
  split <;> simp <;> omega

@[simp]
theorem isCtl_charToInt (b : UInt8)
    : RequestParser.isCtl (RequestParser.charToInt b) = true ↔ Ctl b := by
  have := b.toNat_lt
  simp only [RequestParser.isCtl, RequestParser.charToInt, Ctl, UInt8.lt_iff_toNat_lt,
    ← UInt8.toNat_inj]
  split <;> simp <;> omega

@[simp]
theorem isDigit_charToInt (b : UInt8)
    : RequestParser.isDigit (RequestParser.charToInt b) = true ↔ Digit b := by
  have := b.toNat_lt
  simp only [RequestParser.isDigit, RequestParser.charToInt, Digit, UInt8.le_iff_toNat_le]
  split <;> simp <;> omega

@[simp]
theorem isTspecial_charToInt (b : UInt8)
    : RequestParser.isTspecial (RequestParser.charToInt b) = true ↔ Tspecial b := by
  have hascii : ∀ t ∈ Bytes.lit "()<>@,;:\\\"/[]?=\x7b\x7d \t", t.toNat < 128 := by
    decide +kernel
  simp only [RequestParser.isTspecial, Tspecial, List.any_eq_true, decide_eq_true_eq]
  constructor
  . rintro ⟨t, ht, heq⟩
    rwa [(charToInt_eq_iff (hascii t ht)).mp heq]
  . intro hb
    exact ⟨b, hb, (charToInt_eq_iff (hascii b hb)).mpr rfl⟩

@[simp]
theorem notToken_charToInt (b : UInt8)
    : (!RequestParser.isChar (RequestParser.charToInt b) || RequestParser.isCtl (RequestParser.charToInt b)
        || RequestParser.isTspecial (RequestParser.charToInt b)) = true ↔ ¬TokenChar b := by
  rw [Bool.or_eq_true, Bool.or_eq_true, isCtl_charToInt, isTspecial_charToInt, TokenChar,
    Bool.not_eq_true', ← Bool.not_eq_true, isChar_charToInt]
  tauto

/-! ## The language after a line, by its first byte -/

theorem text_cr_lf : text "\r\n" = chr '\r'.toUInt8 * (chr '\n'.toUInt8 * 1) := by
  rw [text, show Bytes.lit "\r\n" = ['\r'.toUInt8, '\n'.toUInt8] from rfl, word_cons, word_cons, word_nil]
  rfl

theorem text_singleton {s : String} {c : UInt8} (h : Bytes.lit s = [c]) : text s = chr c := by
  rw [text, h, word_cons, word_nil, mul_one]
  rfl

theorem headerLine_mul_afterLine (noHeader : Bool)
    : headerLine * afterLine false = cls TokenChar * residual .headerName noHeader := by
  rw [residual, residual, residual, headerLine, token, value, text_cr_lf, afterValue,
    text_singleton (c := ':'.toUInt8) rfl, text_singleton (c := ' '.toUInt8) rfl]
  simp only [mul_assoc, one_mul]

theorem continuation_mul_afterLine (noHeader : Bool)
    : continuation * afterLine false = cls Lws * residual .headerLws noHeader := by
  rw [residual, continuation, value, text_cr_lf, afterValue]
  simp only [mul_assoc, one_mul]

theorem afterLine_eq (noHeader : Bool)
    : afterLine noHeader
        =
      chr '\r'.toUInt8 * residual .expectingNewline3 noHeader
        + cls TokenChar * residual .headerName noHeader
        + if noHeader then 0 else cls Lws * residual .headerLws noHeader := by
  have hend : residual .expectingNewline3 noHeader = chr '\n'.toUInt8 * 1 := by rw [residual]
  rw [hend, ← text_cr_lf, ← headerLine_mul_afterLine, ← continuation_mul_afterLine]
  cases noHeader with
  | true =>
    simp only [afterLine, lines, add_mul, mul_assoc, one_mul, add_zero, if_true, Bool.false_eq_true,
      if_false]
  | false =>
    conv_lhs =>
      rw [afterLine, if_neg (by simp), ← Language.one_add_self_mul_kstar_eq_kstar]
    simp only [afterLine, add_mul, mul_assoc, one_mul, add_assoc, Bool.false_eq_true, if_false]

/-! ## Each step of the parser takes the derivative -/

def HeaderSeen (state : RequestParser.State) (noHeader : Bool) : Prop :=
  state = .headerLws ∨ state = .headerValue ∨ state = .expectingNewline2 → noHeader = false

def Continues (w : Bytes) : RequestParser.ResultType × RequestParser × Request → Prop
  | (.indeterminate, parser, req) => w ∈ residual parser.state req.headers.isEmpty
  | (.good, _, _) => w = []
  | (_, _, _) => False

theorem cons_mem_chr_mul {c b : UInt8} {w : Bytes} {K : Language UInt8}
    : b :: w ∈ chr c * K ↔ b = c ∧ w ∈ K :=
  cons_mem_cls_mul

theorem cons_mem_of_eq_star {p : UInt8 → Prop} {c b : UInt8} {w : Bytes} {L K : Language UInt8}
    (h : L = (cls p)∗ * (chr c * K)) : b :: w ∈ L ↔ (b = c ∧ w ∈ K) ∨ (p b ∧ w ∈ L) := by
  subst h
  rw [cons_mem_star_mul, cons_mem_chr_mul]

@[simp] theorem not_tokenChar_space : ¬TokenChar 32 := by decide
@[simp] theorem not_tokenChar_colon : ¬TokenChar 58 := by decide
@[simp] theorem not_tokenChar_cr : ¬TokenChar 13 := by decide
@[simp] theorem not_uriChar_space : ¬UriChar 32 := by decide
@[simp] theorem not_digit_dot : ¬Digit 46 := by decide
@[simp] theorem not_digit_cr : ¬Digit 13 := by decide
@[simp] theorem not_valueChar_cr : ¬ValueChar 13 := by decide
@[simp] theorem not_lws_cr : ¬Lws 13 := by decide

theorem not_tokenChar_of_lws {b : UInt8} (h : Lws b) : ¬TokenChar b := by
  rcases h with rfl | rfl <;> decide

theorem continues_expect {parser : RequestParser} {req : Request} {b c : UInt8} {w : Bytes}
    {next : RequestParser.State}
    : Continues w (RequestParser.consume.expect parser req b c next)
        ↔
      b = c ∧ w ∈ residual next req.headers.isEmpty := by
  rw [RequestParser.consume.expect]
  split
  . next h => simp [h, Continues]
  . next h => simp only [Continues, h, false_and]

theorem cons_mem_residual {parser : RequestParser} {req : Request} {b : UInt8} {w : Bytes}
    (hseen : HeaderSeen parser.state req.headers.isEmpty)
    : b :: w ∈ residual parser.state req.headers.isEmpty ↔ Continues w (parser.consume req b) := by
  rcases parser with ⟨state, methodHelper, headerHelper, n⟩
  cases state with
  | methodStart =>
    rw [residual, cons_mem_cls_mul]
    simp only [RequestParser.consume, notToken_charToInt]
    by_cases htok : TokenChar b <;> simp [htok, Continues]
  | method =>
    rw [cons_mem_of_eq_star (show residual .method _ = _ by rw [residual])]
    simp only [RequestParser.consume, notToken_charToInt]
    by_cases h : b = ' '.toUInt8
    . simp [h, Continues]
    . by_cases htok : TokenChar b <;> simp_all [Continues]
  | uri =>
    rw [cons_mem_of_eq_star (show residual .uri _ = _ by rw [residual])]
    simp only [RequestParser.consume, isCtl_charToInt]
    by_cases h : b = ' '.toUInt8
    . simp [h, Continues]
    . by_cases hctl : Ctl b <;> simp_all [UriChar, Continues]
  | httpVersionH =>
    rw [residual, cons_mem_chr_mul]
    exact continues_expect.symm
  | httpVersionT1 =>
    rw [residual, cons_mem_chr_mul]
    exact continues_expect.symm
  | httpVersionT2 =>
    rw [residual, cons_mem_chr_mul]
    exact continues_expect.symm
  | httpVersionP =>
    rw [residual, cons_mem_chr_mul]
    exact continues_expect.symm
  | httpVersionSlash =>
    rw [residual, cons_mem_chr_mul]
    simp only [RequestParser.consume]
    by_cases h : b = '/'.toUInt8 <;> simp_all [Continues]
  | httpVersionMajorStart =>
    rw [residual, cons_mem_cls_mul]
    simp only [RequestParser.consume, isDigit_charToInt]
    by_cases hdigit : Digit b <;> simp [hdigit, Continues]
  | httpVersionMajor =>
    rw [cons_mem_of_eq_star (show residual .httpVersionMajor _ = _ by rw [residual])]
    simp only [RequestParser.consume, isDigit_charToInt]
    by_cases h : b = '.'.toUInt8
    . simp [h, Continues]
    . by_cases hdigit : Digit b <;> simp_all [Continues]
  | httpVersionMinorStart =>
    rw [residual, cons_mem_cls_mul]
    simp only [RequestParser.consume, isDigit_charToInt]
    by_cases hdigit : Digit b <;> simp [hdigit, Continues]
  | httpVersionMinor =>
    rw [cons_mem_of_eq_star (show residual .httpVersionMinor _ = _ by rw [residual])]
    simp only [RequestParser.consume, isDigit_charToInt]
    by_cases h : b = '\r'.toUInt8
    . simp [h, Continues]
    . by_cases hdigit : Digit b <;> simp_all [Continues]
  | expectingNewline1 =>
    rw [residual, cons_mem_chr_mul, ← residual]
    exact continues_expect.symm
  | headerLineStart =>
    rw [residual, afterLine_eq, Language.mem_add, Language.mem_add, cons_mem_chr_mul, cons_mem_cls_mul]
    simp only [RequestParser.consume, notToken_charToInt]
    by_cases hcr : b = '\r'.toUInt8
    . cases hempty : req.headers.isEmpty <;> simp [hcr, Continues, cons_mem_cls_mul, hempty]
    . cases hempty : req.headers.isEmpty with
      | true => by_cases htok : TokenChar b <;> simp_all [Continues]
      | false =>
        by_cases hlws : Lws b
        . have htok := not_tokenChar_of_lws hlws
          simp_all [Continues, cons_mem_cls_mul, Lws]
        . by_cases htok : TokenChar b <;> simp_all [Continues, cons_mem_cls_mul, Lws]
  | headerLws =>
    rw [residual, cons_mem_star_mul, cons_mem_star_mul, afterValue, cons_mem_chr_mul]
    simp only [RequestParser.consume, isCtl_charToInt]
    by_cases hcr : b = '\r'.toUInt8
    . simp [hcr, Continues, residual]
    . by_cases hlws : Lws b
      . -- a space is also a byte of the value, but the value is part of what is left anyway
        have hstay : b = ' '.toUInt8 ∨ b = '\t'.toUInt8 := hlws
        simp only [hcr, hlws, hstay, false_and, true_and, if_false, if_true, Bool.or_eq_true,
          decide_eq_true_eq, Continues, false_or]
        rw [residual, afterValue, or_iff_right_of_imp]
        exact fun h => mem_star_mul_of_mem h.2
      . by_cases hctl : Ctl b <;> simp_all [Continues, ValueChar, Lws, residual, afterValue]
  | headerName =>
    rw [cons_mem_of_eq_star (show residual .headerName _ = _ by rw [residual])]
    simp only [RequestParser.consume, notToken_charToInt]
    by_cases h : b = ':'.toUInt8
    . simp [h, Continues]
    . by_cases htok : TokenChar b <;> simp_all [Continues]
  | spaceBeforeHeaderValue =>
    rw [residual, cons_mem_chr_mul]
    simp only [RequestParser.consume]
    by_cases h : b = ' '.toUInt8
    . simp [h, Continues, residual]
    . simp_all [Continues]
  | headerValue =>
    have hfalse : req.headers.isEmpty = false := hseen (by simp)
    rw [cons_mem_of_eq_star (show residual .headerValue _ = _ by rw [residual, afterValue])]
    simp only [RequestParser.consume, isCtl_charToInt]
    by_cases hcr : b = '\r'.toUInt8
    . simp [hcr, Continues, residual]
    . by_cases hctl : Ctl b <;> simp_all [Continues, ValueChar, residual]
  | expectingNewline2 =>
    have hfalse : req.headers.isEmpty = false := hseen (by simp)
    rw [residual, cons_mem_chr_mul, ← hfalse, ← residual]
    exact continues_expect.symm
  | expectingNewline3 =>
    rw [residual, cons_mem_chr_mul, Language.mem_one]
    simp only [RequestParser.consume]
    by_cases h : b = '\n'.toUInt8 <;> simp_all [Continues]

theorem nil_notMem_residual (state : RequestParser.State) (noHeader : Bool)
    : [] ∉ residual state noHeader := by
  have hline (noHeader : Bool) : [] ∉ afterLine noHeader := by
    rw [afterLine_eq, Language.mem_add, Language.mem_add]
    cases noHeader <;> simp [chr, nil_notMem_cls_mul]
  cases state <;> rw [residual] <;>
    simp only [nil_mem_star_mul, chr, nil_notMem_cls_mul, afterValue, hline, not_false_eq_true]

/-! ## Every state can still be completed to an accepted head -/

theorem nonempty_cls_mul {p : UInt8 → Prop} (b : UInt8) (hb : p b) {K : Language UInt8}
    (hK : ∃ w, w ∈ K) : ∃ w, w ∈ cls p * K := by
  rcases hK with ⟨w, hw⟩
  exact ⟨b :: w, cons_mem_cls_mul.mpr ⟨hb, hw⟩⟩

theorem nonempty_chr_mul (c : UInt8) {K : Language UInt8} (hK : ∃ w, w ∈ K) : ∃ w, w ∈ chr c * K :=
  nonempty_cls_mul (p := (· = c)) c rfl hK

theorem nonempty_star_mul {p : UInt8 → Prop} {K : Language UInt8} (hK : ∃ w, w ∈ K)
    : ∃ w, w ∈ (cls p)∗ * K := by
  rcases hK with ⟨w, hw⟩
  exact ⟨w, mem_star_mul_of_mem hw⟩

theorem nonempty_afterLine (noHeader : Bool) : ∃ w, w ∈ afterLine noHeader := by
  rcases nonempty_chr_mul '\r'.toUInt8 (nonempty_chr_mul '\n'.toUInt8 ⟨[], Language.nil_mem_one⟩)
    with ⟨w, hw⟩
  refine ⟨w, ?_⟩
  have hend : residual .expectingNewline3 noHeader = chr '\n'.toUInt8 * 1 := by rw [residual]
  rw [afterLine_eq, Language.mem_add, Language.mem_add, hend]
  exact .inl (.inl hw)

theorem nonempty_afterValue : ∃ w, w ∈ afterValue :=
  nonempty_chr_mul _ (nonempty_chr_mul _ (nonempty_afterLine _))

theorem nonempty_residual (state : RequestParser.State) (noHeader : Bool)
    : ∃ w, w ∈ residual state noHeader := by
  fun_induction residual state noHeader with
  | case1 ih => exact nonempty_cls_mul 'G'.toUInt8 (by decide) ih
  | case2 ih => exact nonempty_star_mul (nonempty_chr_mul _ ih)
  | case3 ih => exact nonempty_star_mul (nonempty_chr_mul _ ih)
  | case4 ih => exact nonempty_chr_mul _ ih
  | case5 ih => exact nonempty_chr_mul _ ih
  | case6 ih => exact nonempty_chr_mul _ ih
  | case7 ih => exact nonempty_chr_mul _ ih
  | case8 ih => exact nonempty_chr_mul _ ih
  | case9 ih => exact nonempty_cls_mul '1'.toUInt8 (by decide) ih
  | case10 ih => exact nonempty_star_mul (nonempty_chr_mul _ ih)
  | case11 ih => exact nonempty_cls_mul '1'.toUInt8 (by decide) ih
  | case12 ih => exact nonempty_star_mul (nonempty_chr_mul _ ih)
  | case13 => exact nonempty_chr_mul _ (nonempty_afterLine _)
  | case14 => exact nonempty_afterLine _
  | case15 => exact nonempty_star_mul (nonempty_star_mul nonempty_afterValue)
  | case16 ih => exact nonempty_star_mul (nonempty_chr_mul _ ih)
  | case17 ih => exact nonempty_chr_mul _ ih
  | case18 => exact nonempty_star_mul nonempty_afterValue
  | case19 => exact nonempty_chr_mul _ (nonempty_afterLine _)
  | case20 => exact nonempty_chr_mul _ ⟨[], Language.nil_mem_one⟩

/-! ## The start state -/

theorem text_http_slash {K : Language UInt8}
    : text "HTTP/" * K
        =
      chr 'H'.toUInt8 * (chr 'T'.toUInt8 * (chr 'T'.toUInt8 * (chr 'P'.toUInt8 * (chr '/'.toUInt8 * K)))) := by
  rw [text, show Bytes.lit "HTTP/"
    = ['H'.toUInt8, 'T'.toUInt8, 'T'.toUInt8, 'P'.toUInt8, '/'.toUInt8] from rfl]
  simp only [word_cons, word_nil, mul_assoc, one_mul, chr]

theorem residual_methodStart : residual .methodStart true = head := by
  simp only [residual, head, afterLine, token, uri, digits, if_true, mul_assoc, text_http_slash,
    text_singleton (s := " ") (c := ' '.toUInt8) rfl, text_singleton (s := ".") (c := '.'.toUInt8) rfl]
  simp only [text_cr_lf, mul_assoc, mul_one]

end Grammar

end Foxy
