import FoxyServer.Jwt.Json
import FoxyServer.Library.Decimals

/-!
This module contains that picojson reads back what it has written: for every value, however its arrays and
objects are nested.
-/

namespace Foxy

namespace picojson

/-! ## Strings -/

theorem hexValue_hexDigit {n : Nat} (h : n < 16) : hexValue (hexDigit n) = some n := by
  have hall : ∀ n < 16, hexValue (hexDigit n) = some n := by decide +kernel
  exact hall n h

theorem pushCodepoint_of_lt {c : UInt8} (h : c.toNat < 0x80) : pushCodepoint c.toNat = [c] := by
  rw [pushCodepoint, if_pos h, UInt8.ofNat_toNat]

theorem parseCodepoint_control {c : UInt8} (h : c.toNat < 0x80) (s : Bytes)
    : parseCodepoint (Bytes.lit "00" ++ hexDigit (c.toNat / 16) :: hexDigit (c.toNat % 16) :: s)
        = some ([c], s) := by
  have hfront := hexValue_hexDigit (by omega : c.toNat / 16 < 16)
  have hback := hexValue_hexDigit (by omega : c.toNat % 16 < 16)
  have hzero : hexValue '0'.toUInt8 = some 0 := by decide
  have hsum : (0 * 16 + 0) * 16 + c.toNat / 16 = c.toNat / 16 := by omega
  have hread : parseQuadhex (Bytes.lit "00" ++ hexDigit (c.toNat / 16) :: hexDigit (c.toNat % 16) :: s)
      = some (c.toNat, s) := by
    rw [show Bytes.lit "00" = ['0'.toUInt8, '0'.toUInt8] from rfl, List.cons_append, List.cons_append,
      List.nil_append, parseQuadhex]
    simp only [hzero, hfront, hback, Option.pure_def, Option.bind_eq_bind, Option.bind_some, hsum]
    rw [Nat.div_add_mod' c.toNat 16]
  rw [parseCodepoint, hread]
  simp only [Option.bind_eq_bind, Option.bind_some]
  rw [if_neg (by omega), pushCodepoint_of_lt h]
  rfl

theorem parseEscape_serializeStrChar (c : UInt8)
    : serializeStrChar c = [c] ∧ ¬c < 0x20 ∧ c ≠ '"'.toUInt8 ∧ c ≠ '\\'.toUInt8
        ∨ ∃ escape, serializeStrChar c = '\\'.toUInt8 :: escape
            ∧ ∀ s, parseEscape (escape ++ s) = some ([c], s) := by
  unfold serializeStrChar
  split
  next e he =>
    have hletters : escapes.all (fun e => escapes.find? (fun e' => e'.1 = e.1) = some e) = true := by
      decide +kernel
    have hletter := of_decide_eq_true (List.all_eq_true.mp hletters e (List.mem_of_find?_eq_some he))
    refine .inr ⟨[e.1], rfl, ?_⟩
    intro s
    rw [List.singleton_append, parseEscape, hletter]
    have hchar := List.find?_some he
    rw [decide_eq_true_eq] at hchar
    dsimp only
    rw [hchar]
  next hnone =>
    rw [List.find?_eq_none] at hnone
    by_cases hcontrol : c < 0x20 ∨ c = 0x7f
    . have hlt : c.toNat < 0x80 := by
        cases hcontrol with
        | inl h =>
          rw [UInt8.lt_iff_toNat_lt] at h
          exact h.trans (by decide)
        | inr h =>
          rw [h]
          decide
      rw [if_pos hcontrol]
      exact .inr ⟨_, rfl, parseCodepoint_control hlt⟩
    . rw [if_neg hcontrol]
      refine .inl ⟨rfl, fun h => hcontrol (.inl h), ?_, ?_⟩
      . rintro rfl
        exact hnone ('"'.toUInt8, '"'.toUInt8) (by decide) (by decide)
      . rintro rfl
        exact hnone ('\\'.toUInt8, '\\'.toUInt8) (by decide) (by decide)

theorem parseStringLoop_serializeStrChar (fuel : Nat) (c : UInt8) (s : Bytes)
    : parseStringLoop (fuel + 1) (serializeStrChar c ++ s)
        =
      (parseStringLoop fuel s).map (fun (out, s) => (c :: out, s)) := by
  cases parseEscape_serializeStrChar c with
  | inl h =>
    rcases h with ⟨heq, hcontrol, hquote, hbackslash⟩
    rw [heq, List.cons_append, List.nil_append, parseStringLoop, if_neg hcontrol, if_neg hquote,
      parseStringChar, if_neg hbackslash, Option.bind_eq_bind, Option.bind_some]
    dsimp only
    cases parseStringLoop fuel s <;> rfl
  | inr h =>
    rcases h with ⟨escape, heq, hescape⟩
    rw [heq, List.cons_append, parseStringLoop, if_neg (by decide), if_neg (by decide), parseStringChar,
      if_pos rfl, hescape,
      Option.bind_eq_bind, Option.bind_some]
    dsimp only
    cases parseStringLoop fuel s <;> rfl

theorem parseStringLoop_flatMap {s : Bytes} {fuel : Nat} (h : s.length < fuel) (rest : Bytes)
    : parseStringLoop fuel (s.flatMap serializeStrChar ++ '"'.toUInt8 :: rest) = some (s, rest) := by
  induction s generalizing fuel with
  | nil =>
    cases fuel with
    | zero => simp at h
    | succ fuel => rfl
  | cons c s ih =>
    cases fuel with
    | zero => simp at h
    | succ fuel =>
      rw [List.length_cons, Nat.add_lt_add_iff_right] at h
      rw [List.flatMap_cons, List.append_assoc, parseStringLoop_serializeStrChar, ih h]
      rfl

theorem length_le_flatMap (s : Bytes) : s.length ≤ (s.flatMap serializeStrChar).length := by
  induction s with
  | nil => simp
  | cons c s ih =>
    have hone : 1 ≤ (serializeStrChar c).length := by
      cases parseEscape_serializeStrChar c with
      | inl h => rw [h.1, List.length_singleton]
      | inr h =>
        rcases h with ⟨escape, heq, -⟩
        rw [heq, List.length_cons]
        omega
    rw [List.flatMap_cons, List.length_append, List.length_cons]
    omega

theorem parseString_serializeStr (s rest : Bytes)
    : parseString (s.flatMap serializeStrChar ++ '"'.toUInt8 :: rest) = some (s, rest) := by
  have hlength := length_le_flatMap s
  apply parseStringLoop_flatMap
  rw [List.length_append, List.length_cons]
  omega

/-! ## Numbers -/

def Ends (s : Bytes) : Prop :=
  ∀ c ∈ s.head?, isNumberChar c = false

theorem ends_cons {c : UInt8} (h : isNumberChar c = false) (s : Bytes) : Ends (c :: s) := by
  intro c' hc'
  rw [List.head?_cons, Option.mem_def, Option.some.injEq] at hc'
  rw [← hc']
  exact h

theorem takeWhile_number {s rest : Bytes} (hs : ∀ c ∈ s, isNumberChar c = true) (hrest : Ends rest)
    : (s ++ rest).takeWhile isNumberChar = s ∧ (s ++ rest).dropWhile isNumberChar = rest := by
  rw [List.takeWhile_append_of_pos hs, List.dropWhile_append_of_pos hs]
  cases rest with
  | nil => simp
  | cons c rest =>
    have hc := hrest c rfl
    rw [List.takeWhile_cons_of_neg (by simp [hc]), List.dropWhile_cons_of_neg (by simp [hc]), List.append_nil]
    exact ⟨rfl, rfl⟩

theorem isNumberChar_of_isDigit {c : UInt8} (h : Bytes.isDigit c = true) : isNumberChar c = true := by
  unfold Bytes.isDigit at h
  unfold isNumberChar
  rw [h]
  rfl

theorem isNumberChar_ofInt (i : Int) : ∀ c ∈ Bytes.ofInt i, isNumberChar c = true := by
  intro c hc
  rw [Bytes.ofInt] at hc
  split_ifs at hc with hneg
  . rw [List.mem_cons] at hc
    cases hc with
    | inl hc =>
      rw [hc]
      decide
    | inr hc => exact isNumberChar_of_isDigit (Bytes.isDigit_toDecimal hc)
  . exact isNumberChar_of_isDigit (Bytes.isDigit_toDecimal hc)

theorem strtoimax_ofInt (i : Int64) : strtoimax (Bytes.ofInt i.toInt) = some i := by
  have hdigits : (Bytes.toDecimal i.toInt.natAbs).all Bytes.isDigit = true :=
    List.all_eq_true.mpr (fun c => Bytes.isDigit_toDecimal)
  have hne := Bytes.toDecimal_ne_nil i.toInt.natAbs
  have hvalue := Bytes.decimalValue_toDecimal i.toInt.natAbs
  have hleast := i.minValue_le_toInt
  have hmost := i.toInt_le
  rw [Bytes.ofInt, strtoimax]
  by_cases hneg : i.toInt < 0
  . rw [if_pos hneg]
    simp only [List.head?_cons, true_or, if_true, List.tail_cons, hvalue, hdigits, hne, ne_eq,
      not_false_eq_true, true_and]
    rw [show -(i.toInt.natAbs : Int) = i.toInt by omega, if_pos ⟨hleast, hmost⟩, Int64.ofInt_toInt]
  . rw [if_neg hneg]
    have hhead : ∀ sign ∈ ['-'.toUInt8, '+'.toUInt8],
        (Bytes.toDecimal i.toInt.natAbs).head? ≠ some sign := by
      intro sign hsign heq
      have hdigit := Bytes.isDigit_toDecimal (List.mem_of_head? heq)
      simp only [List.mem_cons, List.not_mem_nil, or_false] at hsign
      rcases hsign with rfl | rfl <;> cases hdigit
    simp only [hhead '-'.toUInt8 (by simp), hhead '+'.toUInt8 (by simp), or_self, if_false, hvalue, hdigits,
      hne, ne_eq, not_false_eq_true, true_and]
    rw [show (i.toInt.natAbs : Int) = i.toInt by omega, if_pos ⟨hleast, hmost⟩, Int64.ofInt_toInt]

theorem parseNumber_ofInt (doubles : Doubles) (i : Int64) {rest : Bytes} (hrest : Ends rest)
    : parseNumber doubles (Bytes.ofInt i.toInt ++ rest) = some (.int64 i, rest) := by
  rcases takeWhile_number (isNumberChar_ofInt i.toInt) hrest with ⟨htake, hdrop⟩
  rw [parseNumber, htake, hdrop, strtoimax_ofInt]

/-! ## Values -/

variable (doubles : Doubles)

def Kept (x : doubles.Double) : Prop :=
  (∀ c ∈ doubles.print x, isNumberChar c = true)
    ∧ (∃ c ∈ (doubles.print x).head?, Bytes.isDigit c = true ∨ c = '-'.toUInt8)
    ∧ strtoimax (doubles.print x) = none
    ∧ doubles.strtod (doubles.print x) = some x

mutual

def Regular : Value doubles.Double → Prop
  | .null => True
  | .boolean _ => True
  | .int64 _ => True
  | .number x => Kept doubles x
  | .string _ => True
  | .array items => RegularItems items
  | .object members => members.Pairwise (fun a b => a.1 < b.1) ∧ RegularMembers members

def RegularItems : List (Value doubles.Double) → Prop
  | [] => True
  | item :: items => Regular item ∧ RegularItems items

def RegularMembers : List (Bytes × Value doubles.Double) → Prop
  | [] => True
  | (_, item) :: members => Regular item ∧ RegularMembers members

end

variable {doubles} {n : Nat} {s rest : Bytes}

theorem skipWs_cons {c : UInt8} (h : isWs c = false) (s : Bytes) : skipWs (c :: s) = c :: s := by
  rw [skipWs, List.dropWhile_cons_of_neg]
  simp [h]

theorem expect_cons {c : UInt8} (h : isWs c = false) (expected : UInt8) (s : Bytes)
    : expect expected (c :: s) = if c = expected then some s else none := by
  rw [expect, skipWs_cons h]

theorem parseValue_string
    : parseValue doubles (n + 1) ('"'.toUInt8 :: s)
        = (parseString s).map (fun (out, s) => (.string out, s)) := by
  rw [parseValue, skipWs_cons rfl]
  rfl

theorem parseValue_array
    : parseValue doubles (n + 1) ('['.toUInt8 :: s)
        =
      match expect ']'.toUInt8 s with
      | some s => some (.array [], s)
      | none => do
        let (items, s) ← parseItems doubles n s
        let s ← expect ']'.toUInt8 s
        return (.array items, s) := by
  rw [parseValue, skipWs_cons rfl]
  rfl

theorem parseValue_object
    : parseValue doubles (n + 1) ('{'.toUInt8 :: s)
        =
      match expect '}'.toUInt8 s with
      | some s => some (.object [], s)
      | none => do
        let (members, s) ← parseMembers doubles n s []
        let s ← expect '}'.toUInt8 s
        return (.object members, s) := by
  rw [parseValue, skipWs_cons rfl]
  rfl

theorem number_start (c : UInt8)
    : Bytes.isDigit c = true ∨ c = '-'.toUInt8 →
        isWs c = false ∧ ∀ other ∈ ['n', 'f', 't', '"', '[', '{', ']'].map Char.toUInt8, c ≠ other := by
  have hfree : ∀ c : UInt8, Bytes.isDigit c = true ∨ c = '-'.toUInt8 →
      isWs c = false ∧ c ∉ ['n', 'f', 't', '"', '[', '{', ']'].map Char.toUInt8 := by
    apply forall_byte
    decide +kernel
  intro h
  exact ⟨(hfree c h).1, fun other hother heq => (hfree c h).2 (heq ▸ hother)⟩

theorem parseValue_number {c : UInt8} (h : Bytes.isDigit c = true ∨ c = '-'.toUInt8)
    : parseValue doubles (n + 1) (c :: s) = parseNumber doubles (c :: s) := by
  rcases number_start c h with ⟨hws, hne⟩
  have hdigit : ('0'.toUInt8 ≤ c ∧ c ≤ '9'.toUInt8) ∨ c = '-'.toUInt8 := by
    rw [Bytes.isDigit, Bool.and_eq_true, decide_eq_true_eq, decide_eq_true_eq] at h
    exact h
  rw [parseValue, skipWs_cons hws]
  dsimp only
  rw [if_neg (hne _ (by decide)), if_neg (hne _ (by decide)), parseScalar, if_neg (hne _ (by decide)),
    if_neg (hne _ (by decide)), if_neg (hne _ (by decide)), if_neg (hne _ (by decide)), if_pos hdigit]

theorem parseValue_literal
    : parseValue doubles (n + 1) (Bytes.lit "null" ++ s) = some (.null, s)
        ∧ parseValue doubles (n + 1) (Bytes.lit "true" ++ s) = some (.boolean true, s)
        ∧ parseValue doubles (n + 1) (Bytes.lit "false" ++ s) = some (.boolean false, s) :=
  ⟨rfl, rfl, rfl⟩

theorem serialize_number_start {v : Value doubles.Double}
    (h : (∃ i, v = .int64 i) ∨ ∃ x, v = .number x ∧ Kept doubles x)
    : ∃ c t, serialize doubles v = c :: t ∧ (Bytes.isDigit c = true ∨ c = '-'.toUInt8) := by
  rcases h with ⟨i, rfl⟩ | ⟨x, rfl, hkept⟩
  . rw [serialize, Bytes.ofInt]
    split_ifs
    . exact ⟨_, _, rfl, .inr rfl⟩
    . rcases List.exists_cons_of_ne_nil (Bytes.toDecimal_ne_nil i.toInt.natAbs) with ⟨c, t, heq⟩
      exact ⟨c, t, heq, .inl (Bytes.isDigit_toDecimal (heq ▸ List.mem_cons_self))⟩
  . rcases hkept.2.1 with ⟨c, hc, hstart⟩
    rcases List.head?_eq_some_iff.mp hc with ⟨t, heq⟩
    exact ⟨c, t, heq, hstart⟩

theorem parseNumber_kept {x : doubles.Double} (h : Kept doubles x) (hrest : Ends rest)
    : parseNumber doubles (doubles.print x ++ rest) = some (.number x, rest) := by
  rcases h with ⟨hchars, -, hint, hdouble⟩
  rcases takeWhile_number hchars hrest with ⟨htake, hdrop⟩
  rw [parseNumber, htake, hdrop, hint, hdouble]
  rfl

theorem serialize_start (v : Value doubles.Double) (h : Regular doubles v)
    : ∃ c t, serialize doubles v = c :: t ∧ isWs c = false ∧ c ≠ ']'.toUInt8 := by
  have hnumber : (∃ i, v = .int64 i) ∨ (∃ x, v = .number x ∧ Kept doubles x) →
      ∃ c t, serialize doubles v = c :: t ∧ isWs c = false ∧ c ≠ ']'.toUInt8 := by
    intro hv
    rcases serialize_number_start hv with ⟨c, t, heq, hstart⟩
    rcases number_start c hstart with ⟨hws, hne⟩
    exact ⟨c, t, heq, hws, hne _ (by decide)⟩
  cases v with
  | null => exact ⟨'n'.toUInt8, _, rfl, by decide, by decide⟩
  | boolean b =>
    cases b with
    | false => exact ⟨'f'.toUInt8, _, rfl, by decide, by decide⟩
    | true => exact ⟨'t'.toUInt8, _, rfl, by decide, by decide⟩
  | int64 i => exact hnumber (.inl ⟨i, rfl⟩)
  | number x => exact hnumber (.inr ⟨x, rfl, h⟩)
  | string s => exact ⟨'"'.toUInt8, _, rfl, by decide, by decide⟩
  | array items => exact ⟨'['.toUInt8, _, by rw [serialize], by decide, by decide⟩
  | object members => exact ⟨'{'.toUInt8, _, by rw [serialize], by decide, by decide⟩

theorem serializeItems_false (item : Value doubles.Double) (items : List (Value doubles.Double))
    : serializeItems doubles false (item :: items)
        = ','.toUInt8 :: serializeItems doubles true (item :: items) := by
  rw [serializeItems, serializeItems]
  rfl

theorem serializeMembers_false (member : Bytes × Value doubles.Double)
    (members : List (Bytes × Value doubles.Double))
    : serializeMembers doubles false (member :: members)
        = ','.toUInt8 :: serializeMembers doubles true (member :: members) := by
  rcases member with ⟨key, item⟩
  rw [serializeMembers, serializeMembers]
  rfl

theorem alterEntries_above {key : Bytes} {item : Value doubles.Double}
    {members : List (Bytes × Value doubles.Double)} (h : ∀ e ∈ members, e.1 < key)
    : OrdMap.alterEntries key (fun _ => item) members = members ++ [(key, item)] := by
  induction members with
  | nil => rfl
  | cons e members ih =>
    rw [List.forall_mem_cons] at h
    rw [OrdMap.alterEntries, if_neg h.1.not_gt, if_neg h.1.ne, ih h.2]
    rfl

theorem ends_items (items : List (Value doubles.Double)) (rest : Bytes)
    : Ends (serializeItems doubles false items ++ ']'.toUInt8 :: rest) := by
  cases items with
  | nil => exact ends_cons (by decide) rest
  | cons item items =>
    rw [serializeItems_false]
    exact ends_cons (by decide) _

theorem ends_members (members : List (Bytes × Value doubles.Double)) (rest : Bytes)
    : Ends (serializeMembers doubles false members ++ '}'.toUInt8 :: rest) := by
  cases members with
  | nil => exact ends_cons (by decide) rest
  | cons member members =>
    rw [serializeMembers_false]
    exact ends_cons (by decide) _

theorem serializeItems_true (item : Value doubles.Double) (items : List (Value doubles.Double)) (s : Bytes)
    : serializeItems doubles true (item :: items) ++ s
        = serialize doubles item ++ (serializeItems doubles false items ++ s) := by
  rw [serializeItems, if_pos rfl, List.nil_append, List.append_assoc]

theorem expect_items {item : Value doubles.Double} (h : Regular doubles item)
    (items : List (Value doubles.Double)) (s : Bytes)
    : expect ']'.toUInt8 (serializeItems doubles true (item :: items) ++ s) = none := by
  rcases serialize_start item h with ⟨c, t, heq, hws, hne⟩
  rw [serializeItems_true, heq, List.cons_append, expect_cons hws, if_neg hne]

theorem serializeMembers_true (key : Bytes) (item : Value doubles.Double)
    (members : List (Bytes × Value doubles.Double)) (s : Bytes)
    : serializeMembers doubles true ((key, item) :: members) ++ s
        = '"'.toUInt8 :: (key.flatMap serializeStrChar ++ '"'.toUInt8 :: (':'.toUInt8 :: (serialize doubles item
            ++ (serializeMembers doubles false members ++ s)))) := by
  rw [serializeMembers, serializeStr, if_pos rfl]
  simp only [List.nil_append, List.cons_append, List.append_assoc]

variable (doubles) in
def ReadsBack (n : Nat) : Prop :=
  ∀ (v : Value doubles.Double) (rest : Bytes), Regular doubles v → Ends rest →
    2 * (serialize doubles v ++ rest).length < n →
    parseValue doubles n (serialize doubles v ++ rest) = some (v, rest)

theorem parseItems_step {item : Value doubles.Double} {items : List (Value doubles.Double)}
    (h : Regular doubles item) (hread : ReadsBack doubles n)
    (hn : 2 * (serializeItems doubles true (item :: items) ++ ']'.toUInt8 :: rest).length < n)
    : parseItems doubles (n + 1) (serializeItems doubles true (item :: items) ++ ']'.toUInt8 :: rest)
        =
      match expect ','.toUInt8 (serializeItems doubles false items ++ ']'.toUInt8 :: rest) with
      | some s => (parseItems doubles n s).map (fun (items, s) => (item :: items, s))
      | none => some ([item], serializeItems doubles false items ++ ']'.toUInt8 :: rest) := by
  rw [serializeItems_true] at hn ⊢
  rw [parseItems, hread item _ h (ends_items items rest) hn, Option.bind_eq_bind, Option.bind_some]
  dsimp only
  cases expect ','.toUInt8 (serializeItems doubles false items ++ ']'.toUInt8 :: rest) with
  | none => rfl
  | some s =>
    dsimp only
    cases parseItems doubles n s <;> rfl

theorem parseItems_serialize (item : Value doubles.Double) (items : List (Value doubles.Double))
    (h : RegularItems doubles (item :: items)) (hread : ∀ m < n, ReadsBack doubles m)
    (hn : 2 * (serializeItems doubles true (item :: items) ++ ']'.toUInt8 :: rest).length + 1 < n)
    : parseItems doubles n (serializeItems doubles true (item :: items) ++ ']'.toUInt8 :: rest)
        = some (item :: items, ']'.toUInt8 :: rest) := by
  induction items generalizing item n with
  | nil =>
    cases n with
    | zero => omega
    | succ n =>
      rw [parseItems_step h.1 (hread n n.lt_succ_self) (by omega)]
      rfl
  | cons item' items ih =>
    cases n with
    | zero => omega
    | succ n =>
      have hlength : (serializeItems doubles true (item' :: items) ++ ']'.toUInt8 :: rest).length
          < (serializeItems doubles true (item :: item' :: items) ++ ']'.toUInt8 :: rest).length := by
        rw [serializeItems_true item, serializeItems_false]
        simp only [List.length_append, List.length_cons]
        omega
      have hmore := @ih n item' h.2 (fun m hm => hread m (by omega)) (by omega)
      rw [parseItems_step h.1 (hread n n.lt_succ_self) (by omega), serializeItems_false, List.cons_append,
        expect_cons (by decide), if_pos rfl]
      dsimp only
      rw [hmore]
      rfl

theorem parseMembers_step {key : Bytes} {item : Value doubles.Double}
    {members done : List (Bytes × Value doubles.Double)} (h : Regular doubles item)
    (hdone : ∀ e ∈ done, e.1 < key) (hread : ReadsBack doubles n)
    (hn : 2 * (serializeMembers doubles true ((key, item) :: members) ++ '}'.toUInt8 :: rest).length < n)
    : parseMembers doubles (n + 1)
          (serializeMembers doubles true ((key, item) :: members) ++ '}'.toUInt8 :: rest) done
        =
      match expect ','.toUInt8 (serializeMembers doubles false members ++ '}'.toUInt8 :: rest) with
      | some s => parseMembers doubles n s (done ++ [(key, item)])
      | none =>
        some (done ++ [(key, item)], serializeMembers doubles false members ++ '}'.toUInt8 :: rest) := by
  rw [serializeMembers_true] at hn ⊢
  have hitem : 2 * (serialize doubles item
      ++ (serializeMembers doubles false members ++ '}'.toUInt8 :: rest)).length < n := by
    rw [List.length_cons, List.length_append, List.length_cons, List.length_cons] at hn
    omega
  rw [parseMembers]
  simp only [Option.bind_eq_bind]
  rw [expect_cons (by decide), if_pos rfl, Option.bind_some, parseString_serializeStr, Option.bind_some]
  dsimp only
  rw [expect_cons (by decide), if_pos rfl, Option.bind_some, hread item _ h (ends_members members rest) hitem,
    Option.bind_some]
  dsimp only
  rw [alterEntries_above hdone]
  rfl

theorem parseMembers_serialize (key : Bytes) (item : Value doubles.Double)
    (members done : List (Bytes × Value doubles.Double)) (h : RegularMembers doubles ((key, item) :: members))
    (hsorted : (done ++ (key, item) :: members).Pairwise (fun a b => a.1 < b.1))
    (hread : ∀ m < n, ReadsBack doubles m)
    (hn : 2 * (serializeMembers doubles true ((key, item) :: members) ++ '}'.toUInt8 :: rest).length + 1 < n)
    : parseMembers doubles n
          (serializeMembers doubles true ((key, item) :: members) ++ '}'.toUInt8 :: rest) done
        = some (done ++ (key, item) :: members, '}'.toUInt8 :: rest) := by
  have hdone : ∀ e ∈ done, e.1 < key :=
    fun e he => (List.pairwise_append.mp hsorted).2.2 e he (key, item) List.mem_cons_self
  induction members generalizing key item n done with
  | nil =>
    cases n with
    | zero => omega
    | succ n =>
      rw [parseMembers_step h.1 hdone (hread n n.lt_succ_self) (by omega)]
      rfl
  | cons member members ih =>
    rcases member with ⟨key', item'⟩
    cases n with
    | zero => omega
    | succ n =>
      have hlength : (serializeMembers doubles true ((key', item') :: members) ++ '}'.toUInt8 :: rest).length
          < (serializeMembers doubles true ((key, item) :: (key', item') :: members)
            ++ '}'.toUInt8 :: rest).length := by
        rw [serializeMembers_true key item, serializeMembers_false]
        simp only [List.length_append, List.length_cons]
        omega
      rw [← List.singleton_append, ← List.append_assoc] at hsorted
      have hdone' : ∀ e ∈ done ++ [(key, item)], e.1 < key' :=
        fun e he => (List.pairwise_append.mp hsorted).2.2 e he (key', item') List.mem_cons_self
      have hmore := @ih n key' item' (done ++ [(key, item)]) h.2 hsorted (fun m hm => hread m (by omega))
        (by omega) hdone'
      rw [parseMembers_step h.1 hdone (hread n n.lt_succ_self) (by omega), serializeMembers_false,
        List.cons_append, expect_cons (by decide), if_pos rfl]
      dsimp only
      rw [hmore, List.append_assoc, List.singleton_append]

theorem parseValue_serialize (n : Nat) : ReadsBack doubles n := by
  induction n using Nat.strong_induction_on with
  | h n ih =>
    intro v rest h hrest hn
    cases n with
    | zero => omega
    | succ n =>
      match v with
      | .null => exact parseValue_literal.1
      | .boolean true => exact parseValue_literal.2.1
      | .boolean false => exact parseValue_literal.2.2
      | .int64 i =>
        rcases serialize_number_start (.inl ⟨i, rfl⟩ : _ ∨ _) with ⟨c, t, heq, hstart⟩
        rw [heq, List.cons_append, parseValue_number hstart, ← List.cons_append, ← heq, serialize,
          parseNumber_ofInt doubles i hrest]
      | .number x =>
        rw [Regular] at h
        rcases serialize_number_start (.inr ⟨x, rfl, h⟩ : _ ∨ _) with ⟨c, t, heq, hstart⟩
        rw [heq, List.cons_append, parseValue_number hstart, ← List.cons_append, ← heq, serialize,
          parseNumber_kept h hrest]
      | .string s =>
        rw [serialize, serializeStr, List.cons_append, List.append_assoc, parseValue_string]
        rw [List.cons_append, List.nil_append, parseString_serializeStr]
        rfl
      | .array [] => rfl
      -- the texts of the items are shorter than that of the array, which is what the induction is on
      | .array (item :: items) =>
        rw [Regular] at h
        rw [serialize, List.cons_append, List.append_assoc, List.cons_append, List.nil_append] at hn ⊢
        rw [List.length_cons] at hn
        have hitems := @parseItems_serialize doubles n rest item items h (fun m hm => ih m (by omega))
          (by omega)
        rw [parseValue_array, expect_items h.1, hitems]
        rfl
      | .object [] => rfl
      | .object ((key, item) :: members) =>
        rw [Regular] at h
        rw [serialize, List.cons_append, List.append_assoc, List.cons_append, List.nil_append] at hn ⊢
        rw [List.length_cons] at hn
        have hmembers := @parseMembers_serialize doubles n rest key item members [] h.2 h.1
          (fun m hm => ih m (by omega)) (by omega)
        have hopen : expect '}'.toUInt8
            (serializeMembers doubles true ((key, item) :: members) ++ '}'.toUInt8 :: rest) = none := by
          rw [serializeMembers_true]
          rfl
        rw [parseValue_object, hopen, hmembers]
        rfl

/-- What is written is read back, whatever stands behind it. -/
theorem parse_serialize {v : Value doubles.Double} (h : Regular doubles v)
    : parse doubles (serialize doubles v) = some v := by
  have hread := parseValue_serialize (2 * (serialize doubles v).length + 1) v [] h (by simp [Ends]) (by simp)
  rw [List.append_nil] at hread
  rw [parse, hread]
  rfl

end picojson

end Foxy
