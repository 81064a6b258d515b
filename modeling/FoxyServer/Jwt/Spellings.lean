import FoxyServer.Jwt.Validity

/-!
This module contains all the texts that jwt-cpp decodes to given data. Where a group of digits is not full, its last
digit has bits that decoding does not look at, so that there are several texts, and several tokens for one
signature.
-/

namespace Foxy

namespace jwt

namespace base

variable (alphabet : Alphabet)

def spellings : Bytes → List Bytes
  | a :: b :: c :: bin =>
    (spellings bin).map fun ds =>
      [digit alphabet (triple a b c) 3, digit alphabet (triple a b c) 2, digit alphabet (triple a b c) 1,
        digit alphabet (triple a b c) 0] ++ ds
  | [a, b] =>
    (List.range 4).map fun spare =>
      [digit alphabet (triple a b 0) 3, digit alphabet (triple a b 0) 2,
        digit alphabet (triple a b 0 + spare <<< 6) 1]
  | [a] =>
    (List.range 16).map fun spare =>
      [digit alphabet (triple a 0 0) 3, digit alphabet (triple a 0 0 + spare <<< 12) 2]
  | [] => [[]]

/-! ## Digits and numbers -/

variable {alphabet}

theorem getSextet_eq_some_iff {c : UInt8} {n : Nat}
    : getSextet alphabet c = some n ↔ ∃ h : n < 64, alphabet.data[n] = c := by
  unfold getSextet
  rw [List.idxOf?_eq_some_iff]
  constructor
  . rintro ⟨hn, hget, -⟩
    have hn' : n < 64 := by simpa using hn
    exact ⟨hn', by simpa using hget⟩
  . rintro ⟨hn, rfl⟩
    refine ⟨by simpa using hn, by simp, ?_⟩
    intro j hj heq
    have hdifferent := List.pairwise_iff_getElem.mp alphabet.data_nodup j n (by simp; omega) (by simpa using hn) hj
    exact hdifferent (by simpa using heq)

theorem digit_eq {c : UInt8} {s n k : Nat} (hc : getSextet alphabet c = some s)
    (hs : (n >>> (k * 6)) &&& 0x3F = s) : digit alphabet n k = c := by
  rcases getSextet_eq_some_iff.mp hc with ⟨h, hget⟩
  subst hs
  exact hget

theorem getSextet_lt {c : UInt8} {s : Nat} (hc : getSextet alphabet c = some s) : s < 64 :=
  (getSextet_eq_some_iff.mp hc).1

theorem toNat_octet (n k : Nat) : (octet n k).toNat = n / 2 ^ (k * 8) % 256 := by
  rw [octet, UInt8.toNat_ofNat', Nat.shiftRight_eq_div_pow, Nat.and_two_pow_sub_one_eq_mod _ 8]
  omega

theorem triple_octets {n : Nat} (h : n < 0x1000000)
    : triple (octet n 2) (octet n 1) (octet n 0) = n ∧ triple (octet n 2) (octet n 1) 0 = n / 256 * 256
        ∧ triple (octet n 2) 0 0 = n / 65536 * 65536 := by
  simp only [triple, toNat_octet, UInt8.toNat_zero, Nat.shiftLeft_eq]
  omega

theorem sum_lt {s3 s2 s1 s0 : Nat} (h3 : s3 < 64) (h2 : s2 < 64) (h1 : s1 < 64) (h0 : s0 < 64)
    : s3 <<< (3 * 6) + s2 <<< (2 * 6) + s1 <<< (1 * 6) + s0 <<< (0 * 6) < 0x1000000 := by
  simp only [Nat.shiftLeft_eq]
  omega

theorem sextets_sum {s3 s2 s1 s0 n : Nat} (h3 : s3 < 64) (h2 : s2 < 64) (h1 : s1 < 64) (h0 : s0 < 64)
    (hn : n = s3 <<< (3 * 6) + s2 <<< (2 * 6) + s1 <<< (1 * 6) + s0 <<< (0 * 6))
    : (n >>> (3 * 6)) &&& 0x3F = s3 ∧ (n >>> (2 * 6)) &&& 0x3F = s2 ∧ (n >>> (1 * 6)) &&& 0x3F = s1
        ∧ (n >>> (0 * 6)) &&& 0x3F = s0 := by
  simp only [Nat.shiftLeft_eq, Nat.shiftRight_eq_div_pow, Nat.and_two_pow_sub_one_eq_mod _ 6] at hn ⊢
  omega

theorem sextets_kept (n : Nat)
    : ((n / 256 * 256) >>> (3 * 6)) &&& 0x3F = (n >>> (3 * 6)) &&& 0x3F
        ∧ ((n / 256 * 256) >>> (2 * 6)) &&& 0x3F = (n >>> (2 * 6)) &&& 0x3F
        ∧ ((n / 65536 * 65536) >>> (3 * 6)) &&& 0x3F = (n >>> (3 * 6)) &&& 0x3F := by
  simp only [Nat.shiftRight_eq_div_pow, Nat.and_two_pow_sub_one_eq_mod _ 6]
  omega

theorem or_sextet_of_lt (s3 : Nat) {s2 s1 : Nat} (h2 : s2 < 64) (h1 : s1 < 64)
    : (s3 <<< (3 * 6) + s2 <<< (2 * 6) ||| s1 <<< (1 * 6))
        = s3 <<< (3 * 6) + s2 <<< (2 * 6) + s1 <<< (1 * 6) + 0 <<< (0 * 6) := by
  have hmask : ∀ {s : Nat}, s < 64 → s &&& 0x3F = s := by
    intro s hs
    rw [Nat.and_two_pow_sub_one_eq_mod _ 6]
    omega
  have h := or_sextet s3 s2 s1
  rw [hmask h2, hmask h1] at h
  rw [h, Nat.zero_shiftLeft, Nat.add_zero]

theorem octets_spare (a b : UInt8) {spare : Nat} (h : spare < 4)
    : octet (triple a b 0 + spare <<< 6) 2 = a ∧ octet (triple a b 0 + spare <<< 6) 1 = b := by
  have ha := a.toNat_lt
  have hb := b.toNat_lt
  constructor
  all_goals
    rw [← UInt8.toNat_inj, toNat_octet]
    simp only [triple, UInt8.toNat_zero, Nat.shiftLeft_eq]
    omega

theorem octet_spare (a : UInt8) {spare : Nat} (h : spare < 16) : octet (triple a 0 0 + spare <<< 12) 2 = a := by
  have ha := a.toNat_lt
  rw [← UInt8.toNat_inj, toNat_octet]
  simp only [triple, UInt8.toNat_zero, Nat.shiftLeft_eq]
  omega

theorem sum_spare (a b : UInt8) {spare : Nat} (h : spare < 4)
    : ((triple a b 0 >>> (3 * 6)) &&& 0x3F) <<< (3 * 6) + ((triple a b 0 >>> (2 * 6)) &&& 0x3F) <<< (2 * 6)
        + (((triple a b 0 + spare <<< 6) >>> (1 * 6)) &&& 0x3F) <<< (1 * 6) = triple a b 0 + spare <<< 6 := by
  have ha := a.toNat_lt
  have hb := b.toNat_lt
  simp only [triple, UInt8.toNat_zero, Nat.shiftLeft_eq, Nat.shiftRight_eq_div_pow,
    Nat.and_two_pow_sub_one_eq_mod _ 6]
  omega

theorem sum_spare_one (a : UInt8) {spare : Nat} (h : spare < 16)
    : ((triple a 0 0 >>> (3 * 6)) &&& 0x3F) <<< (3 * 6)
        + (((triple a 0 0 + spare <<< 12) >>> (2 * 6)) &&& 0x3F) <<< (2 * 6) = triple a 0 0 + spare <<< 12 := by
  have ha := a.toNat_lt
  simp only [triple, UInt8.toNat_zero, Nat.shiftLeft_eq, Nat.shiftRight_eq_div_pow,
    Nat.and_two_pow_sub_one_eq_mod _ 6]
  omega

/-! ## Spellings -/

variable {ds data : Bytes}

theorem mem_spellings_of_decodeSextets (h : decodeSextets alphabet ds = some data) (hlength : ds.length % 4 ≠ 1)
    : ds ∈ spellings alphabet data := by
  induction ds using decodeSextets.induct generalizing data with
  | case1 a b c d ds ih =>
    simp only [decodeSextets, Option.bind_eq_bind, Option.pure_def, Option.bind_eq_some_iff, Option.some.injEq]
      at h
    rcases h with ⟨s3, h3, s2, h2, s1, h1, s0, h0, rest, hrest, rfl⟩
    have hsmall := sum_lt (getSextet_lt h3) (getSextet_lt h2) (getSextet_lt h1) (getSextet_lt h0)
    rcases sextets_sum (getSextet_lt h3) (getSextet_lt h2) (getSextet_lt h1) (getSextet_lt h0) rfl
      with ⟨hs3, hs2, hs1, hs0⟩
    rw [spellings, (triple_octets hsmall).1, digit_eq h3 hs3, digit_eq h2 hs2, digit_eq h1 hs1, digit_eq h0 hs0]
    refine List.mem_map.mpr ⟨ds, ih hrest ?_, rfl⟩
    simp only [List.length_cons] at hlength
    omega
  | case2 a b c =>
    simp only [decodeSextets, Option.bind_eq_bind, Option.pure_def, Option.bind_eq_some_iff, Option.some.injEq]
      at h
    rcases h with ⟨s3, h3, s2, h2, s1, h1, rfl⟩
    have hsmall := sum_lt (getSextet_lt h3) (getSextet_lt h2) (getSextet_lt h1) (by decide : 0 < 64)
    rcases sextets_sum (getSextet_lt h3) (getSextet_lt h2) (getSextet_lt h1) (by decide : 0 < 64) rfl
      with ⟨hs3, hs2, hs1, -⟩
    have hspare : ∀ n, n = s3 <<< (3 * 6) + s2 <<< (2 * 6) + s1 <<< (1 * 6) + 0 <<< (0 * 6) →
        n / 256 * 256 + (s1 % 4) <<< 6 = n := by
      intro n hn
      simp only [Nat.shiftLeft_eq] at hn ⊢
      omega
    rw [or_sextet_of_lt s3 (getSextet_lt h2) (getSextet_lt h1), spellings, (triple_octets hsmall).2.1]
    -- the two lowest bits of the last digit go nowhere
    refine List.mem_map.mpr ⟨s1 % 4, by simp; omega, ?_⟩
    rw [hspare _ rfl, digit_eq h1 hs1, digit_eq h2 ((sextets_kept _).2.1.trans hs2),
      digit_eq h3 ((sextets_kept _).1.trans hs3)]
  | case3 a b =>
    simp only [decodeSextets, Option.bind_eq_bind, Option.pure_def, Option.bind_eq_some_iff, Option.some.injEq]
      at h
    rcases h with ⟨s3, h3, s2, h2, rfl⟩
    have hsmall := sum_lt (getSextet_lt h3) (getSextet_lt h2) (by decide : 0 < 64) (by decide : 0 < 64)
    rcases sextets_sum (getSextet_lt h3) (getSextet_lt h2) (by decide : 0 < 64) (by decide : 0 < 64) rfl
      with ⟨hs3, hs2, -, -⟩
    have hspare : ∀ n, n = s3 <<< (3 * 6) + s2 <<< (2 * 6) + 0 <<< (1 * 6) + 0 <<< (0 * 6) →
        n / 65536 * 65536 + (s2 % 16) <<< 12 = n := by
      intro n hn
      simp only [Nat.shiftLeft_eq] at hn ⊢
      omega
    have hzeros : s3 <<< (3 * 6) + s2 <<< (2 * 6)
        = s3 <<< (3 * 6) + s2 <<< (2 * 6) + 0 <<< (1 * 6) + 0 <<< (0 * 6) := by
      simp
    rw [hzeros, spellings, (triple_octets hsmall).2.2]
    -- the four lowest bits of the last digit go nowhere
    refine List.mem_map.mpr ⟨s2 % 16, by simp; omega, ?_⟩
    rw [hspare _ rfl, digit_eq h2 hs2, digit_eq h3 ((sextets_kept _).2.2.trans hs3)]
  | case4 ds h1 h2 h3 =>
    have hnil : ds = [] := by
      rcases ds with _ | ⟨a, _ | ⟨b, _ | ⟨c, _ | ⟨d, ds⟩⟩⟩⟩
      . rfl
      . exact absurd rfl hlength
      . exact absurd rfl (h3 a b)
      . exact absurd rfl (h2 a b c)
      . exact absurd rfl (h1 a b c d ds)
    subst hnil
    cases h
    exact List.mem_singleton_self _

theorem decodeSextets_of_mem_spellings (h : ds ∈ spellings alphabet data)
    : decodeSextets alphabet ds = some data := by
  induction data using spellings.induct generalizing ds with
  | case1 a b c bin ih =>
    rcases List.mem_map.mp h with ⟨ds', hds', rfl⟩
    rcases octet_triple a b c with ⟨ha, hb, hc⟩
    simp only [List.cons_append, List.nil_append, decodeSextets, getSextet_digit, ih hds', Option.pure_def,
      Option.bind_eq_bind, Option.bind_some, sextets_triple (triple_lt a b c), ha, hb, hc]
  | case2 a b =>
    rcases List.mem_map.mp h with ⟨spare, hspare, rfl⟩
    rw [List.mem_range] at hspare
    rcases octets_spare a b hspare with ⟨ha, hb⟩
    simp only [decodeSextets, getSextet_digit, Option.pure_def, Option.bind_eq_bind, Option.bind_some, or_sextet,
      sum_spare a b hspare, ha, hb]
  | case3 a =>
    rcases List.mem_map.mp h with ⟨spare, hspare, rfl⟩
    rw [List.mem_range] at hspare
    simp only [decodeSextets, getSextet_digit, Option.pure_def, Option.bind_eq_bind, Option.bind_some,
      sum_spare_one a hspare, octet_spare a hspare]
  | case4 =>
    cases List.mem_singleton.mp h
    rfl

theorem length_of_mem_spellings (h : ds ∈ spellings alphabet data) : (ds.length + fillCnt data) % 4 = 0 := by
  induction data using spellings.induct generalizing ds with
  | case1 a b c bin ih =>
    rcases List.mem_map.mp h with ⟨ds', hds', rfl⟩
    have hrest := ih hds'
    simp only [fillCnt, List.cons_append, List.nil_append, List.length_cons] at hrest ⊢
    omega
  | case2 a b =>
    rcases List.mem_map.mp h with ⟨spare, -, rfl⟩
    simp [fillCnt]
  | case3 a =>
    rcases List.mem_map.mp h with ⟨spare, -, rfl⟩
    simp [fillCnt]
  | case4 =>
    cases List.mem_singleton.mp h
    rfl

theorem mem_alphabet_of_mem_spellings (h : ds ∈ spellings alphabet data) {c : UInt8} (hc : c ∈ ds)
    : c ∈ alphabet.data.toList := by
  induction data using spellings.induct generalizing ds with
  | case1 a b d bin ih =>
    rcases List.mem_map.mp h with ⟨ds', hds', rfl⟩
    rw [List.mem_append] at hc
    cases hc with
    | inl hc =>
      simp only [List.mem_cons, List.not_mem_nil, or_false] at hc
      rcases hc with rfl | rfl | rfl | rfl <;> apply digit_mem
    | inr hc => exact ih hds' hc
  | case2 a b =>
    rcases List.mem_map.mp h with ⟨spare, -, rfl⟩
    simp only [List.mem_cons, List.not_mem_nil, or_false] at hc
    rcases hc with rfl | rfl | rfl <;> apply digit_mem
  | case3 a =>
    rcases List.mem_map.mp h with ⟨spare, -, rfl⟩
    simp only [List.mem_cons, List.not_mem_nil, or_false] at hc
    rcases hc with rfl | rfl <;> apply digit_mem
  | case4 =>
    cases List.mem_singleton.mp h
    cases hc

theorem decodeSextets_eq_some_iff
    : decodeSextets alphabet ds = some data ∧ ds.length % 4 ≠ 1 ↔ ds ∈ spellings alphabet data := by
  constructor
  . exact fun h => mem_spellings_of_decodeSextets h.1 h.2
  . intro h
    have hlength := length_of_mem_spellings h
    refine ⟨decodeSextets_of_mem_spellings h, ?_⟩
    unfold fillCnt at hlength
    omega

/-! ## Texts with padding -/

theorem unfill_eq_some {fill s ds : Bytes} {most n : Nat} (h : unfill fill most s = some (ds, n))
    : n ≤ most ∧ s = ds ++ (List.replicate n fill).flatten := by
  induction most generalizing s n with
  | zero =>
    rw [unfill.eq_def] at h
    split at h
    next => cases h
    next =>
      simp only [Option.some.injEq, Prod.mk.injEq] at h
      rw [← h.1, ← h.2]
      simp
  | succ most ih =>
    rw [unfill.eq_def] at h
    split at h
    next hfill =>
      rcases hfill.2 with ⟨front, rfl⟩
      rw [List.length_append, Nat.add_sub_cancel, List.take_left] at h
      rcases Option.bind_eq_some_iff.mp h with ⟨⟨ds', n'⟩, hfront, h⟩
      simp only [Option.pure_def, Option.some.injEq, Prod.mk.injEq] at h
      rcases h with ⟨rfl, rfl⟩
      rcases ih hfront with ⟨hle, hfront⟩
      refine ⟨by omega, ?_⟩
      rw [List.replicate_succ', List.flatten_append, List.flatten_singleton, ← List.append_assoc, ← hfront]
    next =>
      simp only [Option.some.injEq, Prod.mk.injEq] at h
      rw [← h.1, ← h.2]
      simp

theorem fillCnt_le (data : Bytes) : fillCnt data ≤ 2 := by
  unfold fillCnt
  omega

theorem spellings_nil_iff (h : ds ∈ spellings alphabet data) : ds = [] ↔ data = [] := by
  have hdecode := decodeSextets_of_mem_spellings h
  constructor
  . rintro rfl
    exact (Option.some.inj hdecode).symm
  . rintro rfl
    exact List.mem_singleton.mp h

theorem decode_eq_some_iff {s : Bytes}
    : decode alphabet s = some data ↔ ∃ ds ∈ spellings alphabet data, s = ds ++ fills alphabet (fillCnt data) := by
  have hfills := fillCnt_le data
  constructor
  . intro h
    rcases Option.bind_eq_some_iff.mp h with ⟨⟨ds, n⟩, hunfill, h⟩
    dsimp only at h
    split at h
    next => cases h
    next hmod =>
      rcases unfill_eq_some hunfill with ⟨hn, hs⟩
      have hspells := decodeSextets_eq_some_iff.mp ⟨h, by omega⟩
      have hlength := length_of_mem_spellings hspells
      have hcnt : n = fillCnt data := by omega
      exact ⟨ds, hspells, hcnt ▸ hs⟩
  . rintro ⟨ds, hspells, rfl⟩
    by_cases hnil : data = []
    . subst hnil
      have hds := (spellings_nil_iff hspells).mpr rfl
      subst hds
      exact decode_encode alphabet []
    . have hne : ds ≠ [] := fun h => hnil ((spellings_nil_iff hspells).mp h)
      rw [decode, unfill_fills alphabet (fun c => mem_alphabet_of_mem_spellings hspells) hne hfills]
      simp [length_of_mem_spellings hspells, decodeSextets_of_mem_spellings hspells]

theorem length_spellings (data : Bytes) : (spellings alphabet data).length = 4 ^ fillCnt data := by
  induction data using spellings.induct with
  | case1 a b c bin ih =>
    have hcnt : fillCnt (a :: b :: c :: bin) = fillCnt bin := by
      simp only [fillCnt, List.length_cons]
      omega
    rw [spellings, List.length_map, ih, hcnt]
  | case2 a b => rfl
  | case3 a => rfl
  | case4 => rfl

theorem sextet_eq_of_digit_eq {n m k : Nat} (h : digit alphabet n k = digit alphabet m k)
    : (n >>> (k * 6)) &&& 0x3F = (m >>> (k * 6)) &&& 0x3F := by
  have hsame := congrArg (getSextet alphabet) h
  rw [getSextet_digit, getSextet_digit] at hsame
  exact Option.some.inj hsame

theorem nodup_spellings (data : Bytes) : (spellings alphabet data).Nodup := by
  induction data using spellings.induct with
  | case1 a b c bin ih =>
    refine ih.map ?_
    intro ds ds' h
    exact List.append_cancel_left h
  | case2 a b =>
    refine List.nodup_range.map_on ?_
    intro spare hspare spare' hspare' h
    simp only [List.cons.injEq, and_true, true_and] at h
    rw [List.mem_range] at hspare hspare'
    have hsextet := sextet_eq_of_digit_eq h
    simp only [triple, UInt8.toNat_zero, Nat.shiftLeft_eq, Nat.shiftRight_eq_div_pow,
      Nat.and_two_pow_sub_one_eq_mod _ 6] at hsextet
    omega
  | case3 a =>
    refine List.nodup_range.map_on ?_
    intro spare hspare spare' hspare' h
    simp only [List.cons.injEq, and_true, true_and] at h
    rw [List.mem_range] at hspare hspare'
    have hsextet := sextet_eq_of_digit_eq h
    simp only [triple, UInt8.toNat_zero, Nat.shiftLeft_eq, Nat.shiftRight_eq_div_pow,
      Nat.and_two_pow_sub_one_eq_mod _ 6] at hsextet
    omega
  | case4 => exact List.nodup_singleton []

theorem digits_mem_spellings (data : Bytes) : digits alphabet data ∈ spellings alphabet data := by
  refine decodeSextets_eq_some_iff.mp ⟨decodeSextets_digits alphabet data, ?_⟩
  have hlength := length_digits_mod alphabet data
  have hcnt := fillCnt_le data
  omega

/-! ## Spellings and what is encoded -/

def SameLeadingBits (alphabet : Alphabet) (cnt : Nat) (c c' : UInt8) : Prop :=
  ∃ n n', getSextet alphabet c = some n ∧ getSextet alphabet c' = some n' ∧ n >>> (2 * cnt) = n' >>> (2 * cnt)

/-- The texts with so much padding are the same, or differ in the last digit, and there in bits that are left over. -/
def SameButSpare (alphabet : Alphabet) (cnt : Nat) (s t : Bytes) : Prop :=
  s = t ∨ ∃ front c c', s = front ++ [c] ++ fills alphabet cnt ∧ t = front ++ [c'] ++ fills alphabet cnt
    ∧ SameLeadingBits alphabet cnt c c'

theorem sameLeadingBits_digit_iff {cnt n k : Nat} {c : UInt8}
    : SameLeadingBits alphabet cnt c (digit alphabet n k)
        ↔ ∃ s, getSextet alphabet c = some s ∧ s >>> (2 * cnt) = ((n >>> (k * 6)) &&& 0x3F) >>> (2 * cnt) := by
  rw [SameLeadingBits, getSextet_digit]
  simp only [Option.some.injEq, exists_eq_left', exists_and_left]

theorem sameLeadingBits_zero_iff {n k : Nat} {c : UInt8}
    : SameLeadingBits alphabet 0 c (digit alphabet n k) ↔ c = digit alphabet n k := by
  rw [sameLeadingBits_digit_iff]
  constructor
  . rintro ⟨s, hc, hs⟩
    exact (digit_eq hc hs.symm).symm
  . rintro rfl
    exact ⟨_, getSextet_digit alphabet n k, rfl⟩

theorem sameLeadingBits_spare_iff {cnt n k : Nat} {c : UInt8} (hcnt : cnt = 1 ∨ cnt = 2)
    (hspare : (n >>> (k * 6)) % 4 ^ cnt = 0)
    : SameLeadingBits alphabet cnt c (digit alphabet n k)
        ↔ ∃ spare < 4 ^ cnt, digit alphabet (n + spare <<< (k * 6)) k = c := by
  have hshift : ∀ spare, (n + spare <<< (k * 6)) >>> (k * 6) = n >>> (k * 6) + spare := by
    intro spare
    rw [Nat.shiftRight_eq_div_pow, Nat.shiftRight_eq_div_pow, Nat.shiftLeft_eq,
      Nat.add_mul_div_right _ _ (Nat.two_pow_pos _)]
  rw [sameLeadingBits_digit_iff]
  generalize hq : n >>> (k * 6) = q at hshift hspare
  constructor
  . rintro ⟨s, hc, hs⟩
    have hlt := getSextet_lt hc
    refine ⟨s % 4 ^ cnt, Nat.mod_lt _ (Nat.pow_pos (by decide)), digit_eq hc ?_⟩
    rw [hshift]
    simp only [Nat.shiftRight_eq_div_pow, Nat.and_two_pow_sub_one_eq_mod _ 6] at hs ⊢
    rcases hcnt with rfl | rfl <;> omega
  . rintro ⟨spare, hlt, rfl⟩
    refine ⟨_, getSextet_digit alphabet _ k, ?_⟩
    rw [hshift]
    simp only [Nat.shiftRight_eq_div_pow, Nat.and_two_pow_sub_one_eq_mod _ 6]
    rcases hcnt with rfl | rfl <;> omega

theorem exists_last_digit (hne : data ≠ [])
    : ∃ front c, digits alphabet data = front ++ [c]
        ∧ ∀ ds, ds ∈ spellings alphabet data
            ↔ ∃ c', ds = front ++ [c'] ∧ SameLeadingBits alphabet (fillCnt data) c' c := by
  induction data using spellings.induct with
  | case1 a b d bin ih =>
    have hcnt : fillCnt (a :: b :: d :: bin) = fillCnt bin := by
      simp only [fillCnt, List.length_cons]
      omega
    simp only [digits, spellings, hcnt, List.mem_map]
    by_cases hbin : bin = []
    -- the last group is full, so nothing is left over in its last digit
    . subst hbin
      refine ⟨[digit alphabet (triple a b d) 3, digit alphabet (triple a b d) 2, digit alphabet (triple a b d) 1],
        digit alphabet (triple a b d) 0, rfl, fun ds => ?_⟩
      have hfull : fillCnt [] = 0 := rfl
      simp only [spellings, List.mem_singleton, exists_eq_left, hfull, sameLeadingBits_zero_iff, exists_eq_right]
      exact eq_comm
    . rcases ih hbin with ⟨front, c, hdigits, hspellings⟩
      refine ⟨[digit alphabet (triple a b d) 3, digit alphabet (triple a b d) 2, digit alphabet (triple a b d) 1,
        digit alphabet (triple a b d) 0] ++ front, c, by rw [hdigits, List.append_assoc], fun ds => ?_⟩
      constructor
      . rintro ⟨ds', hds', rfl⟩
        rcases (hspellings ds').mp hds' with ⟨c', rfl, hsame⟩
        exact ⟨c', by rw [List.append_assoc], hsame⟩
      . rintro ⟨c', rfl, hsame⟩
        exact ⟨front ++ [c'], (hspellings _).mpr ⟨c', rfl, hsame⟩, by rw [List.append_assoc]⟩
  | case2 a b =>
    refine ⟨[digit alphabet (triple a b 0) 3, digit alphabet (triple a b 0) 2], digit alphabet (triple a b 0) 1,
      rfl, fun ds => ?_⟩
    have hspare : (triple a b 0 >>> (1 * 6)) % 4 ^ 1 = 0 := by
      simp only [triple, UInt8.toNat_zero, Nat.shiftLeft_eq, Nat.shiftRight_eq_div_pow]
      omega
    have hcnt : fillCnt [a, b] = 1 := rfl
    simp only [hcnt, sameLeadingBits_spare_iff (.inl rfl) hspare, spellings, List.mem_map, List.mem_range]
    constructor
    . rintro ⟨spare, hlt, rfl⟩
      exact ⟨_, rfl, spare, hlt, rfl⟩
    . rintro ⟨c', rfl, spare, hlt, rfl⟩
      exact ⟨spare, hlt, rfl⟩
  | case3 a =>
    refine ⟨[digit alphabet (triple a 0 0) 3], digit alphabet (triple a 0 0) 2, rfl, fun ds => ?_⟩
    have hspare : (triple a 0 0 >>> (2 * 6)) % 4 ^ 2 = 0 := by
      simp only [triple, UInt8.toNat_zero, Nat.shiftLeft_eq, Nat.shiftRight_eq_div_pow]
      omega
    have hcnt : fillCnt [a] = 2 := rfl
    simp only [hcnt, sameLeadingBits_spare_iff (.inr rfl) hspare, spellings, List.mem_map, List.mem_range]
    constructor
    . rintro ⟨spare, hlt, rfl⟩
      exact ⟨_, rfl, spare, hlt, rfl⟩
    . rintro ⟨c', rfl, spare, hlt, rfl⟩
      exact ⟨spare, hlt, rfl⟩
  | case4 => exact absurd rfl hne

theorem decode_eq_some_iff_sameButSpare (s : Bytes)
    : decode alphabet s = some data ↔ SameButSpare alphabet (fillCnt data) s (encode alphabet data) := by
  rw [decode_eq_some_iff, encode_eq]
  by_cases hne : data = []
  . subst hne
    simp only [spellings, digits, List.mem_singleton, exists_eq_left, SameButSpare]
    constructor
    . exact .inl
    . rintro (heq | ⟨front, c, c', -, henc, -⟩)
      . exact heq
      . have hlength := congrArg List.length henc
        simp only [List.length_append, List.length_cons] at hlength
        omega
  . have hlast : ∃ front c, digits alphabet data = front ++ [c]
        ∧ ∀ ds, ds ∈ spellings alphabet data
            ↔ ∃ c', ds = front ++ [c'] ∧ SameLeadingBits alphabet (fillCnt data) c' c :=
      exists_last_digit hne
    rcases hlast with ⟨front, c, hdigits, hspellings⟩
    constructor
    . rintro ⟨ds, hds, rfl⟩
      rcases (hspellings ds).mp hds with ⟨c', rfl, hsame⟩
      exact .inr ⟨front, c', c, rfl, by rw [hdigits], hsame⟩
    . rintro (rfl | ⟨front', c', c1, rfl, henc, hsame⟩)
      . exact ⟨_, digits_mem_spellings data, rfl⟩
      . rw [hdigits] at henc
        rcases List.append_inj' (List.append_cancel_right henc) rfl with ⟨rfl, hlast⟩
        cases hlast
        exact ⟨_, (hspellings _).mpr ⟨c', rfl, hsame⟩, rfl⟩

/--
A text decodes to the data if and only if it is what is written for the data, but for the bits that are left over in
its last digit. There are as many such texts as there are choices of these bits: one, 4 or 16.
-/
theorem decodes_spellings (alphabet : Alphabet) (data : Bytes)
    : (∀ s, decode alphabet s = some data ↔ SameButSpare alphabet (fillCnt data) s (encode alphabet data))
        ∧ ∃ texts : List Bytes, texts.Nodup ∧ texts.length = 4 ^ fillCnt data ∧ encode alphabet data ∈ texts
          ∧ ∀ s, decode alphabet s = some data ↔ s ∈ texts := by
  refine ⟨decode_eq_some_iff_sameButSpare,
    (spellings alphabet data).map (· ++ fills alphabet (fillCnt data)), ?_, ?_, ?_, ?_⟩
  . exact (nodup_spellings data).map fun ds ds' h => List.append_cancel_right h
  . rw [List.length_map, length_spellings]
  . rw [encode_eq]
    exact List.mem_map_of_mem (digits_mem_spellings data)
  . intro s
    rw [decode_eq_some_iff, List.mem_map]
    exact exists_congr fun ds => and_congr_right fun _ => eq_comm

/-! ## Texts without padding -/

variable (alphabet) in
theorem fills_add (m n : Nat) : fills alphabet (m + n) = fills alphabet m ++ fills alphabet n := by
  rw [fills, List.replicate_add, List.flatten_append]
  rfl

variable (alphabet) in
theorem pad_eq (base : Bytes) : pad alphabet base = base ++ fills alphabet ((4 - base.length % 4) % 4) := by
  have hmod := Nat.mod_lt base.length (by decide : 0 < 4)
  rw [pad]
  split
  next h => simp [h, fills, List.replicate]
  next h => simp [h, fills, List.replicate]
  next h => simp [h, fills]
  next h1 h2 h3 =>
    change ¬_ at h1 h2 h3
    have hzero : base.length % 4 = 0 := by omega
    simp [hzero, fills]

theorem eq_append_of_fills (h : ds ∈ spellings alphabet data) {part : Bytes} {m n : Nat}
    (hpart : part ++ fills alphabet n = ds ++ fills alphabet m)
    : n ≤ m ∧ part = ds ++ fills alphabet (m - n) := by
  by_cases hle : n ≤ m
  . refine ⟨hle, ?_⟩
    rw [← Nat.sub_add_cancel hle, fills_add, ← List.append_assoc] at hpart
    exact List.append_cancel_right hpart
  . -- otherwise there would be padding among the digits
    have hds : part ++ fills alphabet (n - m) = ds := by
      rw [← Nat.sub_add_cancel (Nat.le_of_not_le hle), fills_add, ← List.append_assoc] at hpart
      exact List.append_cancel_right hpart
    have hsplit : n - m = 1 + (n - m - 1) := by omega
    have hfill : alphabet.fill <:+: ds := by
      rw [← hds, hsplit, fills_add, fills, List.replicate_one, List.flatten_singleton, ← List.append_assoc]
      exact List.infix_append part alphabet.fill _
    exact absurd hfill (fill_not_within alphabet fun c => mem_alphabet_of_mem_spellings h)

end base

/-! ## Parts of a token -/

open base

theorem length_fills_base64url (n : Nat) : (fills alphabet.base64url n).length = 3 * n := by
  rw [fills, List.length_flatten, List.map_replicate, List.sum_replicate_nat, Nat.mul_comm]
  rfl

theorem decodePart_eq_some_iff {part data : Bytes}
    : decodePart part = some data
        ↔
      ∃ ds ∈ spellings alphabet.base64url data,
        part = ds ∨ fillCnt data = 2 ∧ part = ds ++ fills alphabet.base64url 2 := by
  have hcnt := fillCnt_le data
  rw [decodePart, decode_eq_some_iff, pad_eq]
  apply exists_congr
  intro ds
  apply and_congr_right
  intro hspells
  have hlength := length_of_mem_spellings hspells
  constructor
  . intro hpart
    rcases eq_append_of_fills hspells hpart with ⟨hle, hpart⟩
    have hsum := congrArg List.length hpart
    rw [List.length_append, length_fills_base64url] at hsum
    by_cases hall : (4 - part.length % 4) % 4 = fillCnt data
    . rw [hall, Nat.sub_self, fills, List.replicate_zero, List.flatten_nil, List.append_nil] at hpart
      exact .inl hpart
    . have htwo : fillCnt data = 2 ∧ (4 - part.length % 4) % 4 = 0 := by omega
      rw [htwo.1, htwo.2] at hpart
      exact .inr ⟨htwo.1, hpart⟩
  . rintro (rfl | ⟨htwo, rfl⟩)
    . have hall : (4 - part.length % 4) % 4 = fillCnt data := by omega
      rw [hall]
    . have hnone : (4 - (ds ++ fills alphabet.base64url 2).length % 4) % 4 = 0 := by
        rw [List.length_append, length_fills_base64url]
        omega
      rw [hnone, htwo]
      exact List.append_nil _

/-! ## Tokens -/

variable (hmac : Bytes → Bytes → Bytes)

theorem verify_signature_iff {δ : Type} {v : Jwt.Verifier} {now : Int} {decoded : Decoded δ}
    (h : verifier.verify hmac v now decoded = true) (signature : Bytes)
    : verifier.verify hmac v now { decoded with signature } = true ↔ signature = decoded.signature := by
  rw [verifier.verify] at h ⊢
  split at h
  next => cases h
  next algo halgo =>
    simp only [halgo]
    simp only [Bool.and_eq_true, hs256.verify_iff] at h ⊢
    rcases h with ⟨⟨⟨⟨⟨hname, hsignature⟩, hexp⟩, hiat⟩, hnbf⟩, hissuer⟩
    simp only [hname, hexp, hiat, hnbf, hissuer, hsignature, true_and, and_true]

end jwt

namespace Cookie

open jwt jwt.base

variable (hmac : Bytes → Bytes → Bytes) (doubles : Doubles)

/--
A cookie that verifies does so in four ways to write its signature, and no others: HMAC-SHA256 has 32 bytes, and
the last digit of these has two bits that are left over.
-/
theorem cookie_spellings (hsize : ∀ key text, (hmac key text).length = 32) {now : Int} {cookie : Bytes}
    (h : verifyCookie (library hmac doubles) now cookie = true)
    : ∃ text, ∃ signatures : List Bytes,
        (∃ signature ∈ signatures, dot ∉ signature ∧ cookie = text ++ dot :: signature)
          ∧ signatures.Nodup ∧ signatures.length = 4
          ∧ ∀ signature, verifyCookie (library hmac doubles) now (text ++ dot :: signature) = true
              ↔ signature ∈ signatures := by
  rw [verifyCookie_library] at h
  rcases (Option.any_eq_true _ _).mp h with ⟨decoded, hdecode, hverify⟩
  rcases exists_signature_of_decode doubles hdecode with ⟨signature, hcookie, hsignature, hother⟩
  have hcnt : fillCnt decoded.signature = 1 := by
    rw [fillCnt, signature_of_verify hmac hverify, hs256.sign, hsize]
  have hpart : ∀ {part}, decodePart part = some decoded.signature
      ↔ part ∈ spellings alphabet.base64url decoded.signature := by
    intro part
    rw [decodePart_eq_some_iff, hcnt]
    simp
  have hdot : dot ∉ signature := by
    intro hmem
    exact absurd (mem_alphabet_of_mem_spellings (hpart.mp hsignature) hmem) (by decide +kernel)
  refine ⟨_, spellings alphabet.base64url decoded.signature, ⟨signature, hpart.mp hsignature, hdot, hcookie⟩,
    nodup_spellings _, ?_, ?_⟩
  . rw [length_spellings, hcnt, Nat.pow_one]
  . intro signature
    rw [← hpart, verifyCookie_library, hother]
    cases decodePart signature with
    | none => simp
    | some signature =>
      rw [Option.map_some, Option.any_some, Option.some.injEq]
      exact verify_signature_iff hmac hverify signature

theorem cookie_spellings_foxy
    : ∃ text, ∃ signatures : List Bytes,
        (∃ signature ∈ signatures,
            dot ∉ signature
              ∧ generateCookie (library hmacForTest doublesForTest) 1600000000000000000 1600000000000000000
                  (Bytes.lit "foxy") = text ++ dot :: signature)
          ∧ signatures.Nodup ∧ signatures.length = 4
          ∧ ∀ signature,
              verifyCookie (library hmacForTest doublesForTest) 1600007200000000000 (text ++ dot :: signature)
                  = true
                ↔ signature ∈ signatures := by
  refine cookie_spellings hmacForTest doublesForTest ?_ ?_
  . intro key text
    exact (by decide +kernel : (hmacForTest [] []).length = 32)
  . rw [verifyCookie_library, generateCookie]
    exact (accepts_sign_iff hmacForTest doublesForTest ⟨secret⟩ (plain_builder _ _ _) (by decide +kernel)
      (by decide +kernel) _).mpr (by decide +kernel)

end Cookie

end Foxy
