import FoxyServer.Library.Bytes

/-!
This module contains the base64 encoding of jwt-cpp, with the alphabet and the padding as parameters, and that
decoding gives back what has been encoded, with its padding or without.
-/

namespace Foxy

namespace jwt

/-- The digits are different from each other, and the padding starts with something that is not a digit. -/
structure Alphabet where
  data : Vector UInt8 64
  fill : Bytes
  data_nodup : data.toList.Nodup
  fill_start : ∃ c ∉ data.toList, ∃ rest, fill = c :: rest

namespace alphabet

def letters : Bytes :=
  Bytes.lit "ABCDEFGHIJKLMNOPQRSTUVWXYZabcdefghijklmnopqrstuvwxyz0123456789"

def base64 : Alphabet where
  data := ⟨(letters ++ Bytes.lit "+/").toArray, by decide +kernel⟩
  fill := Bytes.lit "="
  data_nodup := by decide +kernel
  fill_start := ⟨'='.toUInt8, by decide +kernel, [], rfl⟩

def base64url : Alphabet where
  data := ⟨(letters ++ Bytes.lit "-_").toArray, by decide +kernel⟩
  fill := Bytes.lit "%3d"
  data_nodup := by decide +kernel
  fill_start := ⟨'%'.toUInt8, by decide +kernel, Bytes.lit "3d", rfl⟩

end alphabet

namespace base

def triple (octetA octetB octetC : UInt8) : Nat :=
  (octetA.toNat <<< 0x10) + (octetB.toNat <<< 0x08) + octetC.toNat

variable (alphabet : Alphabet)

def digit (triple n : Nat) : UInt8 :=
  getElem alphabet.data ((triple >>> (n * 6)) &&& 0x3F) (by
    have := Nat.and_lt_two_pow (triple >>> (n * 6)) (by decide : 0x3F < 2 ^ 6)
    omega)

def encode : Bytes → Bytes
  | octetA :: octetB :: octetC :: bin =>
    let triple := triple octetA octetB octetC
    digit alphabet triple 3 :: digit alphabet triple 2 :: digit alphabet triple 1 :: digit alphabet triple 0
      :: encode bin
  | [octetA, octetB] =>
    let triple := triple octetA octetB 0
    [digit alphabet triple 3, digit alphabet triple 2, digit alphabet triple 1] ++ alphabet.fill
  | [octetA] =>
    let triple := triple octetA 0 0
    [digit alphabet triple 3, digit alphabet triple 2] ++ alphabet.fill ++ alphabet.fill
  | [] => []

def unfill (fill : Bytes) (most : Nat) (base : Bytes) : Option (Bytes × Nat) :=
  if fill.length < base.length ∧ fill <:+ base then
    match most with
    | 0 => none
    | most + 1 => do
      let (base, fillCnt) ← unfill fill most (base.take (base.length - fill.length))
      return (base, fillCnt + 1)
  else
    some (base, 0)

def getSextet (c : UInt8) : Option Nat :=
  alphabet.data.toList.idxOf? c

def octet (triple n : Nat) : UInt8 :=
  UInt8.ofNat ((triple >>> (n * 8)) &&& 0xFF)

/-- By the check of the length, three or two digits are left over where one or two fills were taken off. -/
def decodeSextets : Bytes → Option Bytes
  | a :: b :: c :: d :: base => do
    let triple := ((← getSextet alphabet a) <<< (3 * 6)) + ((← getSextet alphabet b) <<< (2 * 6))
      + ((← getSextet alphabet c) <<< (1 * 6)) + ((← getSextet alphabet d) <<< (0 * 6))
    return octet triple 2 :: octet triple 1 :: octet triple 0 :: (← decodeSextets base)
  | [a, b, c] => do
    let triple := ((← getSextet alphabet a) <<< (3 * 6)) + ((← getSextet alphabet b) <<< (2 * 6))
    let triple := triple ||| ((← getSextet alphabet c) <<< (1 * 6))
    return [octet triple 2, octet triple 1]
  | [a, b] => do
    let triple := ((← getSextet alphabet a) <<< (3 * 6)) + ((← getSextet alphabet b) <<< (2 * 6))
    return [octet triple 2]
  | _ => some []

def decode (base : Bytes) : Option Bytes := do
  let (base, fillCnt) ← unfill alphabet.fill 2 base
  if (base.length + fillCnt) % 4 ≠ 0 then none else decodeSextets alphabet base

def pad (base : Bytes) : Bytes :=
  match base.length % 4 with
  | 1 => base ++ (alphabet.fill ++ alphabet.fill ++ alphabet.fill)
  | 2 => base ++ (alphabet.fill ++ alphabet.fill)
  | 3 => base ++ alphabet.fill
  | _ => base

def trim (base : Bytes) : Bytes :=
  match Bytes.find alphabet.fill base with
  | some pos => base.take pos
  | none => base

/-! ## Groups of digits -/

theorem getSextet_digit (triple n : Nat)
    : getSextet alphabet (digit alphabet triple n) = some ((triple >>> (n * 6)) &&& 0x3F) := by
  have hsize := Nat.and_lt_two_pow (triple >>> (n * 6)) (by decide : 0x3F < 2 ^ 6)
  unfold getSextet digit
  rw [List.idxOf?_eq_some_iff]
  refine ⟨by simpa using hsize, by simp, ?_⟩
  intro j hj heq
  have hdifferent := List.pairwise_iff_getElem.mp alphabet.data_nodup j _ (by simp; omega)
    (by simpa using hsize) hj
  exact hdifferent (by simpa using heq)

theorem digit_mem (triple n : Nat) : digit alphabet triple n ∈ alphabet.data.toList := by
  unfold digit
  rw [Vector.mem_toList_iff]
  apply Vector.getElem_mem

theorem sextets_triple {n : Nat} (h : n < 0x1000000)
    : (((n >>> (3 * 6)) &&& 0x3F) <<< (3 * 6)) + (((n >>> (2 * 6)) &&& 0x3F) <<< (2 * 6))
        + (((n >>> (1 * 6)) &&& 0x3F) <<< (1 * 6)) + (((n >>> (0 * 6)) &&& 0x3F) <<< (0 * 6))
        = n := by
  simp only [Nat.shiftLeft_eq, Nat.shiftRight_eq_div_pow, Nat.and_two_pow_sub_one_eq_mod _ 6]
  omega

theorem or_sextet (a b c : Nat)
    : ((a <<< (3 * 6)) + ((b &&& 0x3F) <<< (2 * 6)) ||| ((c &&& 0x3F) <<< (1 * 6)))
        = (a <<< (3 * 6)) + ((b &&& 0x3F) <<< (2 * 6)) + ((c &&& 0x3F) <<< (1 * 6)) := by
  have hfront : (a <<< (3 * 6)) + ((b &&& 0x3F) <<< (2 * 6)) = (a <<< 6 + (b &&& 0x3F)) <<< 12 := by
    simp only [Nat.shiftLeft_eq]
    omega
  have hback : (c &&& 0x3F) <<< (1 * 6) < 2 ^ 12 := by
    simp only [Nat.shiftLeft_eq, Nat.and_two_pow_sub_one_eq_mod _ 6]
    omega
  rw [hfront, Nat.shiftLeft_add_eq_or_of_lt hback]

theorem triple_lt (a b c : UInt8) : triple a b c < 0x1000000 := by
  have ha := a.toNat_lt
  have hb := b.toNat_lt
  have hc := c.toNat_lt
  simp only [triple, Nat.shiftLeft_eq]
  omega

theorem octet_triple (a b c : UInt8)
    : octet (triple a b c) 2 = a ∧ octet (triple a b c) 1 = b ∧ octet (triple a b c) 0 = c := by
  have ha := a.toNat_lt
  have hb := b.toNat_lt
  have hc := c.toNat_lt
  unfold octet triple
  refine ⟨?_, ?_, ?_⟩
  all_goals
    rw [← UInt8.toNat_inj, UInt8.toNat_ofNat']
    simp only [Nat.shiftLeft_eq, Nat.shiftRight_eq_div_pow, Nat.and_two_pow_sub_one_eq_mod _ 8]
    omega

theorem sextet_triple_zero (a b : UInt8)
    : (triple a b 0 >>> (0 * 6)) &&& 0x3F = 0
        ∧ (triple a 0 0 >>> (1 * 6)) &&& 0x3F = 0 ∧ (triple a 0 0 >>> (0 * 6)) &&& 0x3F = 0 := by
  simp only [triple, UInt8.toNat_zero, Nat.shiftLeft_eq, Nat.shiftRight_eq_div_pow,
    Nat.and_two_pow_sub_one_eq_mod _ 6]
  omega

/-! ## Digits and padding -/

def digits : Bytes → Bytes
  | a :: b :: c :: bin =>
    [digit alphabet (triple a b c) 3, digit alphabet (triple a b c) 2, digit alphabet (triple a b c) 1,
      digit alphabet (triple a b c) 0] ++ digits bin
  | [a, b] => [3, 2, 1].map (digit alphabet (triple a b 0))
  | [a] => [3, 2].map (digit alphabet (triple a 0 0))
  | [] => []

def fillCnt (bin : Bytes) : Nat :=
  (3 - bin.length % 3) % 3

def fills (n : Nat) : Bytes :=
  (List.replicate n alphabet.fill).flatten

theorem encode_eq (bin : Bytes)
    : encode alphabet bin = digits alphabet bin ++ fills alphabet (fillCnt bin) := by
  induction bin using digits.induct with
  | case1 a b c bin ih =>
    have hcnt : fillCnt (a :: b :: c :: bin) = fillCnt bin := by
      simp only [fillCnt, List.length_cons]
      omega
    simp only [encode, digits, hcnt, ih, List.cons_append, List.nil_append]
  | case2 a b => simp [encode, digits, fillCnt, fills]
  | case3 a => simp [encode, digits, fillCnt, fills, List.replicate]
  | case4 => simp [encode, digits, fillCnt, fills]

theorem mem_of_mem_digits {bin : Bytes} {c : UInt8} (h : c ∈ digits alphabet bin)
    : c ∈ alphabet.data.toList := by
  induction bin using digits.induct with
  | case1 a b d bin ih =>
    rw [digits, List.mem_append] at h
    cases h with
    | inl h =>
      simp only [List.mem_cons, List.not_mem_nil, or_false] at h
      rcases h with rfl | rfl | rfl | rfl <;> apply digit_mem
    | inr h => exact ih h
  | case2 a b =>
    rcases List.mem_map.mp h with ⟨n, -, rfl⟩
    apply digit_mem
  | case3 a =>
    rcases List.mem_map.mp h with ⟨n, -, rfl⟩
    apply digit_mem
  | case4 => simp [digits] at h

theorem length_digits_mod (bin : Bytes) : ((digits alphabet bin).length + fillCnt bin) % 4 = 0 := by
  induction bin using digits.induct with
  | case1 a b c bin ih =>
    simp only [fillCnt, digits, List.length_append, List.length_cons, List.length_nil] at ih ⊢
    omega
  | case2 a b => simp [digits, fillCnt]
  | case3 a => simp [digits, fillCnt]
  | case4 => simp [digits, fillCnt]

theorem digits_ne_nil {bin : Bytes} (h : bin ≠ []) : digits alphabet bin ≠ [] := by
  induction bin using digits.induct with
  | case1 a b c bin ih => simp [digits]
  | case2 a b => simp [digits]
  | case3 a => simp [digits]
  | case4 => exact absurd rfl h

theorem decodeSextets_digits (bin : Bytes) : decodeSextets alphabet (digits alphabet bin) = some bin := by
  induction bin using digits.induct with
  | case1 a b c bin ih =>
    rcases octet_triple a b c with ⟨ha, hb, hc⟩
    simp only [digits, List.cons_append, List.nil_append, decodeSextets, getSextet_digit, ih,
      Option.pure_def, Option.bind_eq_bind, Option.bind_some, sextets_triple (triple_lt a b c), ha, hb, hc]
  | case2 a b =>
    have hsum := sextets_triple (triple_lt a b 0)
    rw [(sextet_triple_zero a b).1, Nat.zero_shiftLeft, Nat.add_zero] at hsum
    rcases octet_triple a b 0 with ⟨ha, hb, -⟩
    simp only [digits, List.map_cons, List.map_nil, decodeSextets, getSextet_digit, Option.pure_def,
      Option.bind_eq_bind, Option.bind_some, or_sextet, hsum, ha, hb]
  | case3 a =>
    have hsum := sextets_triple (triple_lt a 0 0)
    rw [(sextet_triple_zero a 0).2.1, (sextet_triple_zero a 0).2.2, Nat.zero_shiftLeft, Nat.zero_shiftLeft,
      Nat.add_zero] at hsum
    simp only [digits, List.map_cons, List.map_nil, decodeSextets, getSextet_digit, Option.pure_def,
      Option.bind_eq_bind, Option.bind_some, hsum, (octet_triple a 0 0).1]
  | case4 => rfl

theorem fill_not_within {base : Bytes} (h : ∀ c ∈ base, c ∈ alphabet.data.toList)
    : ¬alphabet.fill <:+: base := by
  rcases alphabet.fill_start with ⟨c, hc, rest, hfill⟩
  intro hfix
  exact hc (h c (hfix.subset (by simp [hfill])))

theorem unfill_of_not_suffix {fill base : Bytes} (h : ¬fill <:+ base) (most : Nat)
    : unfill fill most base = some (base, 0) := by
  rw [unfill.eq_def, if_neg]
  exact fun hboth => h hboth.2

theorem unfill_append {fill base : Bytes} (h : base ≠ []) (most : Nat)
    : unfill fill (most + 1) (base ++ fill) = (unfill fill most base).map (fun r => (r.1, r.2 + 1)) := by
  have hlength := List.length_pos_iff.mpr h
  have htake : (base ++ fill).take ((base ++ fill).length - fill.length) = base := by
    rw [List.length_append, Nat.add_sub_cancel, List.take_left]
  rw [unfill, if_pos ⟨by rw [List.length_append]; omega, List.suffix_append base fill⟩, htake]
  cases unfill fill most base <;> rfl

theorem unfill_fills {base : Bytes} (hbase : ∀ c ∈ base, c ∈ alphabet.data.toList) (hne : base ≠ [])
    {n most : Nat} (hn : n ≤ most)
    : unfill alphabet.fill most (base ++ fills alphabet n) = some (base, n) := by
  induction n generalizing most with
  | zero =>
    rw [fills, List.replicate_zero, List.flatten_nil, List.append_nil]
    exact unfill_of_not_suffix (fun h => fill_not_within alphabet hbase h.isInfix) most
  | succ n ih =>
    cases most with
    | zero => omega
    | succ most =>
      have hfills : base ++ fills alphabet (n + 1) = base ++ fills alphabet n ++ alphabet.fill := by
        rw [fills, List.replicate_succ', List.flatten_append, List.append_assoc, fills, List.flatten_singleton]
      rw [hfills, unfill_append (by simp [hne]), ih (by omega), Option.map_some]

/-! ## Round trips -/

theorem decode_encode (bin : Bytes) : decode alphabet (encode alphabet bin) = some bin := by
  cases bin with
  | nil =>
    rcases alphabet.fill_start with ⟨c, -, rest, hfill⟩
    rw [decode, encode, unfill_of_not_suffix (by simp [hfill])]
    rfl
  | cons b bin =>
    have hcnt : fillCnt (b :: bin) ≤ 2 := by
      unfold fillCnt
      omega
    rw [decode, encode_eq, unfill_fills alphabet (fun c => mem_of_mem_digits alphabet)
      (digits_ne_nil alphabet (List.cons_ne_nil b bin)) hcnt]
    simp [length_digits_mod, decodeSextets_digits]

theorem trim_encode (bin : Bytes) : trim alphabet (encode alphabet bin) = digits alphabet bin := by
  rcases alphabet.fill_start with ⟨c, hc, rest, hfill⟩
  have hdigits : c ∉ digits alphabet bin := fun h => hc (mem_of_mem_digits alphabet h)
  rw [trim, encode_eq]
  cases hcnt : fillCnt bin with
  | zero =>
    rw [fills, List.replicate_zero, List.flatten_nil, List.append_nil,
      Bytes.find_eq_none.mpr (fill_not_within alphabet (fun c => mem_of_mem_digits alphabet))]
  | succ n =>
    rw [fills, List.replicate_succ, List.flatten_cons, hfill, Bytes.find_behind hdigits]
    simp

theorem pad_digits (bin : Bytes) : pad alphabet (digits alphabet bin) = encode alphabet bin := by
  have hmod := length_digits_mod alphabet bin
  have hcnt : fillCnt bin ≤ 2 := by
    unfold fillCnt
    omega
  rw [pad, encode_eq]
  split
  next h =>
    omega
  next h =>
    have hcnt : fillCnt bin = 2 := by omega
    simp [hcnt, fills, List.replicate]
  next h =>
    have hcnt : fillCnt bin = 1 := by omega
    simp [hcnt, fills]
  next h1 h2 h3 =>
    change ¬_ at h1 h2 h3
    have hcnt : fillCnt bin = 0 := by omega
    simp [hcnt, fills]

theorem decode_pad_trim (bin : Bytes)
    : decode alphabet (pad alphabet (trim alphabet (encode alphabet bin))) = some bin := by
  rw [trim_encode, pad_digits, decode_encode]

end base

end jwt

end Foxy
