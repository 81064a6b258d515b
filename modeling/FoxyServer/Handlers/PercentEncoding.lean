import FoxyServer.Handlers.AuthPath

/-!
This module contains the texts that decode to a byte string, with a free choice for each byte, and the texts
that do not decode: those with an escape from which no number can be extracted.
-/

namespace Foxy

namespace StaticRequestHandler

/-! ## Extraction of two bytes -/

theorem hexDigit?_chars {c : UInt8}
    : (hexDigit? c).isSome → Bytes.isSpace c = false ∧ c ≠ '-'.toUInt8 ∧ c ≠ '+'.toUInt8
        ∧ ¬(c = 'x'.toUInt8 ∨ c = 'X'.toUInt8) :=
  @forall_byte (fun c => (hexDigit? c).isSome → Bytes.isSpace c = false ∧ c ≠ '-'.toUInt8 ∧ c ≠ '+'.toUInt8
    ∧ ¬(c = 'x'.toUInt8 ∨ c = 'X'.toUInt8)) (by decide +kernel) c

theorem readHex_single (b : UInt8) : (readHex [b]).isSome = (hexDigit? b).isSome :=
  @forall_byte (fun b => (readHex [b]).isSome = (hexDigit? b).isSome) (by decide +kernel) b

def digits (s : Bytes) : List Nat :=
  (s.takeWhile (fun c => (hexDigit? c).isSome)).filterMap hexDigit?

theorem readHex_sign {a : UInt8} (h : a = '-'.toUInt8 ∨ a = '+'.toUInt8) (b : UInt8)
    : (readHex [a, b]).isSome = (hexDigit? b).isSome := by
  cases h with
  | inl h =>
    rw [h]
    exact @forall_byte (fun b => (readHex ['-'.toUInt8, b]).isSome = (hexDigit? b).isSome) (by decide +kernel) b
  | inr h =>
    rw [h]
    exact @forall_byte (fun b => (readHex ['+'.toUInt8, b]).isSome = (hexDigit? b).isSome) (by decide +kernel) b

theorem readHex_plain {a b : UInt8} (hspace : ¬Bytes.isSpace a = true) (hminus : a ≠ '-'.toUInt8)
    (hplus : a ≠ '+'.toUInt8)
    : readHex [a, b]
        =
      if a = '0'.toUInt8 ∧ (b = 'x'.toUInt8 ∨ b = 'X'.toUInt8) ∨ digits [a, b] = [] then
        none
      else
        some (((digits [a, b]).foldl (fun n d => 16 * n + d) 0 : Nat) : Int) := by
  have hhead : (a :: [b]).head? ≠ some '-'.toUInt8 := by simpa using hminus
  have hhead' : (a :: [b]).head? ≠ some '+'.toUInt8 := by simpa using hplus
  rw [readHex, List.dropWhile_cons_of_neg hspace, if_neg (not_or.mpr ⟨hhead, hhead'⟩)]
  dsimp only
  by_cases hx : a = '0'.toUInt8 ∧ (b = 'x'.toUInt8 ∨ b = 'X'.toUInt8)
  . simp only [hx]
    rfl
  . simp only [if_neg hhead, hx, if_false, false_or]
    rfl

theorem readHex_digits {a b : UInt8} {m n : Nat} (ha : hexDigit? a = some m) (hb : hexDigit? b = some n)
    : readHex [a, b] = some ((16 * m + n : Nat) : Int) := by
  have hfirst := @hexDigit?_chars a (by rw [ha]; rfl)
  have hsecond := @hexDigit?_chars b (by rw [hb]; rfl)
  have hdigits : digits [a, b] = [m, n] := by
    simp [digits, ha, hb]
  rw [readHex_plain (by simp [hfirst.1]) hfirst.2.1 hfirst.2.2.1, hdigits, if_neg]
  . simp
  . rintro (hx | hnil)
    . exact hsecond.2.2.2 hx.2
    . cases hnil

/-! ## Encodings -/

inductive EncodesByte (c : UInt8) : Bytes → Prop where
  | escape {a b : UInt8} {m n : Nat} (ha : hexDigit? a = some m) (hb : hexDigit? b = some n)
      (hc : c.toNat = 16 * m + n) : EncodesByte c ['%'.toUInt8, a, b]
  | plus (hc : c = ' '.toUInt8) : EncodesByte c ['+'.toUInt8]
  | literal (hpercent : c ≠ '%'.toUInt8) (hplus : c ≠ '+'.toUInt8) : EncodesByte c [c]

inductive Encodes : Bytes → Bytes → Prop where
  | nil : Encodes [] []
  | cons {c : UInt8} {s code text : Bytes} (hc : EncodesByte c code) (h : Encodes s text)
      : Encodes (c :: s) (code ++ text)

theorem urlDecode_cons {c : UInt8} (h : c ≠ '%'.toUInt8) (text : Bytes)
    : urlDecode (c :: text) = (urlDecode text).map ((if c = '+'.toUInt8 then ' '.toUInt8 else c) :: ·) := by
  conv => lhs; unfold urlDecode
  rw [if_neg h]
  split_ifs <;> rfl

theorem urlDecode_encodesByte {c : UInt8} {code : Bytes} (h : EncodesByte c code) (text : Bytes)
    : urlDecode (code ++ text) = (urlDecode text).map (c :: ·) := by
  cases h with
  | @escape a b m n ha hb hc =>
    simp only [List.cons_append, List.nil_append, urlDecode, if_true, readHex_digits ha hb, ← hc, toChar_toNat,
      Option.bind_eq_bind, Option.bind_some, Option.pure_def]
    cases urlDecode text <;> rfl
  | plus hc =>
    rw [List.cons_append, List.nil_append, urlDecode_cons (by decide), if_pos rfl, hc]
  | literal hpercent hplus =>
    rw [List.cons_append, List.nil_append, urlDecode_cons hpercent, if_neg hplus]

/-- Every encoding of a byte string is decoded to it. -/
theorem urlDecode_encodes {s text : Bytes} (h : Encodes s text) : urlDecode text = some s := by
  induction h with
  | nil => rfl
  | cons hc h ih => rw [urlDecode_encodesByte hc, ih, Option.map_some]

theorem encodes_urlEncode_bytes : Encodes [0, 32, 255] (Bytes.lit "%00+%fF") := by
  refine @Encodes.cons 0 _ (Bytes.lit "%00") _ (.escape rfl rfl rfl) ?_
  refine @Encodes.cons 32 _ (Bytes.lit "+") _ (.plus rfl) ?_
  exact @Encodes.cons 255 _ (Bytes.lit "%fF") _ (.escape rfl rfl rfl) .nil

theorem urlDecode_encodes_bytes : urlDecode (Bytes.lit "%00+%fF") = some [0, 32, 255] :=
  urlDecode_encodes encodes_urlEncode_bytes

/-! ## Escapes that are refused -/

def escapes : Bytes → List Bytes
  | [] => []
  | c :: rest =>
    if c = '%'.toUInt8 then
      match rest with
      | a :: b :: rest => [a, b] :: escapes rest
      | _ => [rest]
    else
      escapes rest

def TwoHexDigits : Bytes → Prop
  | [a, b] => (hexDigit? a).isSome ∧ (hexDigit? b).isSome
  | _ => False

def Malformed (s : Bytes) : Prop :=
  ∃ code ∈ escapes s, ¬TwoHexDigits code

/-- Two bytes that have a number at their front, or a digit behind a white space or a sign. -/
def Extracted : Bytes → Prop
  | [a, b] => (hexDigit? a).isSome ∧ ¬(a = '0'.toUInt8 ∧ (b = 'x'.toUInt8 ∨ b = 'X'.toUInt8))
    ∨ (Bytes.isSpace a ∨ a = '-'.toUInt8 ∨ a = '+'.toUInt8) ∧ (hexDigit? b).isSome
  | _ => False

theorem readHex_pair (a b : UInt8) : (readHex [a, b]).isSome ↔ Extracted [a, b] := by
  rw [Extracted]
  by_cases hspace : Bytes.isSpace a = true
  . have hdigit : (hexDigit? a).isSome = false := by
      by_contra hdigit
      rw [Bool.not_eq_false] at hdigit
      rw [(hexDigit?_chars hdigit).1] at hspace
      cases hspace
    have hskip : readHex [a, b] = readHex [b] := by
      rw [readHex, readHex, List.dropWhile_cons_of_pos hspace]
    rw [hskip, readHex_single, hdigit]
    simp [hspace]
  . by_cases hsign : a = '-'.toUInt8 ∨ a = '+'.toUInt8
    . have hdigit : (hexDigit? a).isSome = false := by
        cases hsign with
        | inl hsign => rw [hsign]; decide
        | inr hsign => rw [hsign]; decide
      rw [readHex_sign hsign, hdigit]
      simp only [hsign, or_true, true_and, Bool.false_eq_true, false_and, false_or]
    . have hnone : digits [a, b] = [] ↔ ¬(hexDigit? a).isSome := by
        cases ha : hexDigit? a with
        | none => simp [digits, ha]
        | some m => simp [digits, ha]
      rw [not_or] at hsign
      simp only [readHex_plain hspace hsign.1 hsign.2, hnone, hspace, hsign.1, hsign.2, or_self, or_false]
      split_ifs with hrefused
      . simp only [Option.isSome_none, Bool.false_eq_true, false_iff]
        tauto
      . simp only [Option.isSome_some, true_iff]
        tauto

theorem escapes_cons {c : UInt8} (h : c ≠ '%'.toUInt8) (rest : Bytes) : escapes (c :: rest) = escapes rest := by
  conv => lhs; unfold escapes
  rw [if_neg h]

theorem escapes_percent (a b : UInt8) (rest : Bytes)
    : escapes ('%'.toUInt8 :: a :: b :: rest) = [a, b] :: escapes rest := by
  rw [escapes, if_pos rfl]

theorem urlDecode_eq_none_iff {s : Bytes} : urlDecode s = none ↔ ∃ code ∈ escapes s, ¬Extracted code := by
  induction s using escapes.induct with
  | case1 => simp [urlDecode, escapes]
  | case2 a b rest ih =>
    rw [escapes_percent, List.exists_mem_cons_iff, ← ih, ← readHex_pair, urlDecode, if_pos rfl]
    cases readHex [a, b] with
    | none => simp
    | some value => cases urlDecode rest <;> simp
  | case3 rest hshort =>
    have hnone : urlDecode ('%'.toUInt8 :: rest) = none := by
      rw [urlDecode, if_pos rfl]
      exact hshort
    have hescapes : escapes ('%'.toUInt8 :: rest) = [rest] := by
      rw [escapes, if_pos rfl]
      exact hshort
    rw [hnone, hescapes]
    refine iff_of_true rfl ⟨rest, List.mem_singleton_self rest, ?_⟩
    rcases rest with _ | ⟨a, _ | ⟨b, rest⟩⟩
    . exact id
    . exact id
    . exact absurd rfl (hshort a b rest)
  | case4 c rest hc ih => rw [escapes_cons hc, urlDecode_cons hc, Option.map_eq_none_iff, ih]

/-! ## Requests with such escapes -/

def PassesAuth (handler : StaticRequestHandler) (verifyCookie : Bytes → Bool) (request : Request) : Prop :=
  handler.authPath = []
    ∨ checkCookie verifyCookie ((request.headers.find? (Bytes.lit "Cookie")).getD []) = true

/-- The uri is not decoded, and whoever asks for it gets a 400 without a file being opened. -/
def Refuses (uri : Bytes) : Prop :=
  urlDecode uri = none
    ∧ ∀ (handler : StaticRequestHandler) (files : FileSystem) (verifyCookie : Bytes → Bool) (request : Request),
      request.uri = uri → handler.PassesAuth verifyCookie request
        → handler.handleRequest files verifyCookie request = (ResponseGenerator.stockResponse .badRequest, none)

theorem refuses_iff_decode {uri : Bytes} : Refuses uri ↔ urlDecode uri = none := by
  constructor
  . exact And.left
  . intro hdecode
    refine ⟨hdecode, ?_⟩
    intro handler files verifyCookie request huri hauth
    have hopen : ¬(handler.authPath.length ≠ 0
        ∧ (!checkCookie verifyCookie ((request.headers.find? (Bytes.lit "Cookie")).getD [])) = true) := by
      rintro ⟨hpath, hcookie⟩
      cases hauth with
      | inl hauth => exact hpath (by rw [hauth]; rfl)
      | inr hauth => simp [hauth] at hcookie
    have hcheck : checkRequestPath request.uri = none := by
      rw [checkRequestPath, huri, hdecode]
      rfl
    rw [handleRequest]
    dsimp only
    rw [if_neg hopen, hcheck]

/--
A malformed uri is refused exactly if one of its escapes is too short, or is neither a digit in front (except of
`0x`) nor a digit behind a white space or a sign.
-/
theorem refuses_malformed_iff (uri : Bytes)
    : (Malformed uri → Refuses uri)
        ↔
      (Malformed uri → ∃ code ∈ escapes uri, ¬Extracted code) := by
  rw [refuses_iff_decode, urlDecode_eq_none_iff]

/-- One digit is enough. -/
theorem not_refuses_one_digit
    : Malformed (Bytes.lit "/static/%4g")
        ∧ ¬Refuses (Bytes.lit "/static/%4g")
        ∧ (handleRequest { root := Bytes.lit "./data/", path := Bytes.lit "/static/" } (fun _ => some [])
          (fun _ => false) { uri := Bytes.lit "/static/%4g" }).2 = some (Bytes.lit "./data/\x04") := by
  refine ⟨⟨Bytes.lit "4g", by decide +kernel, ?_⟩, ?_, by decide +kernel⟩
  . rintro ⟨-, hdigit⟩
    revert hdigit
    decide
  . rw [refuses_iff_decode]
    decide +kernel

end StaticRequestHandler

end Foxy
