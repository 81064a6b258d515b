import FoxyServer.Library.Outcome
import Mathlib.Data.List.Lex
import Mathlib.Data.List.Infix

/-!
This module contains byte strings and the parts of the C and C++ standard libraries that read them:
NUL terminated strings in memory, substring search, `substr`, `erase` and the decimal conversions.
-/

instance instLinearOrderByte : LinearOrder UInt8 where
  le_refl := UInt8.le_refl
  le_trans := fun _ _ _ => UInt8.le_trans
  le_antisymm := fun _ _ => UInt8.le_antisymm
  le_total := UInt8.le_total
  lt_iff_le_not_ge := by
    intro a b
    simp only [UInt8.le_iff_toNat_le, UInt8.lt_iff_toNat_lt]
    omega
  toDecidableLE := inferInstance
  toDecidableLT := inferInstance
  toDecidableEq := inferInstance

attribute [simp] Char.toUInt8

abbrev Bytes := List UInt8

theorem forall_byte {p : UInt8 → Prop} (h : ∀ n < 256, p (UInt8.ofNat n)) (c : UInt8) : p c := by
  have hc := h c.toNat (UInt8.toNat_lt c)
  rwa [UInt8.ofNat_toNat] at hc

namespace Bytes

def lit (s : String) : Bytes :=
  s.toList.map Char.toUInt8

/-! ## Strings in memory -/

/--
The string a `const char *` denotes, given the memory from there on. It stops at the first NUL byte.
-/
def cStr (mem : Bytes) : Bytes :=
  mem.takeWhile (· ≠ 0)

def strlen (mem : Bytes) : Nat :=
  (cStr mem).length

def NoNul (s : Bytes) : Prop :=
  ∀ b ∈ s, b ≠ 0

instance (s : Bytes) : Decidable s.NoNul :=
  inferInstanceAs (Decidable (∀ b ∈ s, b ≠ 0))

theorem noNul_cStr (mem : Bytes) : (cStr mem).NoNul := by
  intro b hb
  simpa using List.all_eq_true.mp List.all_takeWhile b hb

theorem cStr_append_of_noNul {s : Bytes} (h : s.NoNul) (mem : Bytes)
    : cStr (s ++ mem) = s ++ cStr mem := by
  apply List.takeWhile_append_of_pos
  intro b hb
  simpa using h b hb

theorem cStr_of_noNul {s : Bytes} (h : s.NoNul) : cStr s = s := by
  simpa [cStr] using cStr_append_of_noNul h []

theorem cStr_append_of_nul {s : Bytes} (h : ¬s.NoNul) (mem : Bytes) : cStr (s ++ mem) = cStr s := by
  rw [cStr, cStr, List.takeWhile_append, if_neg]
  intro hlength
  have hwhole := (List.takeWhile_prefix (fun b => decide (b ≠ 0))).eq_of_length hlength
  exact h (hwhole ▸ noNul_cStr s)

theorem cStr_prefix (mem : Bytes) : cStr mem <+: mem :=
  List.takeWhile_prefix _

theorem noNul_append {s t : Bytes} : (s ++ t).NoNul ↔ s.NoNul ∧ t.NoNul := by
  simp only [NoNul, List.mem_append, or_imp, forall_and]

/-! ## `std::string` -/

def find (needle : Bytes) : Bytes → Option Nat
  | [] => if needle = [] then some 0 else none
  | b :: s => if needle <+: b :: s then some 0 else (find needle s).map (· + 1)

def contains (s needle : Bytes) : Bool :=
  (find needle s).isSome

/--
`s.substr(pos)` throws when `pos` is past the end. A negative difference of sizes wraps around to a
`size_t` above every length, so a negative position is past the end as well.
-/
def substr (s : Bytes) (pos : Int) : Outcome Bytes :=
  if 0 ≤ pos ∧ pos ≤ s.length then
    .ok (s.drop pos.toNat)
  else
    .throws .outOfRange

theorem find_eq_some {needle s : Bytes} {i : Nat} (h : find needle s = some i)
    : ∃ rest, s = s.take i ++ needle ++ rest := by
  induction s generalizing i with
  | nil =>
    rw [find] at h
    split_ifs at h with hn
    exact ⟨[], by simp [hn]⟩
  | cons b s ih =>
    rw [find] at h
    split_ifs at h with hn
    . rcases hn with ⟨rest, hrest⟩
      refine ⟨rest, ?_⟩
      simp only [Option.some.injEq] at h
      subst h
      simpa using hrest.symm
    . rcases Option.map_eq_some_iff.mp h with ⟨j, hj, rfl⟩
      rcases ih hj with ⟨rest, hrest⟩
      refine ⟨rest, ?_⟩
      simpa using hrest

theorem contains_iff {s needle : Bytes} : s.contains needle = true ↔ needle <:+: s := by
  induction s with
  | nil => simp [contains, find]
  | cons b s ih =>
    rw [List.infix_cons_iff, ← ih]
    simp only [contains, find]
    split_ifs with hn
    . simp [hn]
    . simp [hn]

theorem find_eq_none {needle s : Bytes} : find needle s = none ↔ ¬needle <:+: s := by
  rw [← contains_iff, contains, Bool.not_eq_true, Option.isSome_eq_false_iff, Option.isNone_iff_eq_none]

theorem not_infix_take_of_find {needle s : Bytes} {i m : Nat} (hne : needle ≠ []) (h : find needle s = some i)
    (hm : m ≤ i) : ¬needle <:+: s.take m := by
  induction s generalizing i m with
  | nil => simpa using hne
  | cons b s ih =>
    cases m with
    | zero => simpa using hne
    | succ m =>
      rw [find] at h
      split_ifs at h with hn
      . simp only [Option.some.injEq] at h
        omega
      . rcases Option.map_eq_some_iff.mp h with ⟨j, hj, rfl⟩
        rw [List.take_succ_cons, List.infix_cons_iff, not_or]
        constructor
        . intro hpre
          exact hn (hpre.trans ((List.prefix_cons_inj b).mpr (List.take_prefix m s)))
        . exact ih hj (by omega)

theorem find_behind {c : UInt8} {needle front : Bytes} (h : c ∉ front) (rest : Bytes)
    : find (c :: needle) (front ++ (c :: needle ++ rest)) = some front.length := by
  induction front with
  | nil => rw [List.nil_append, List.cons_append, find, if_pos ⟨rest, rfl⟩, List.length_nil]
  | cons b front ih =>
    rw [List.mem_cons, not_or] at h
    rw [List.cons_append, find, if_neg, ih h.2]
    . rfl
    . rw [List.cons_append, List.cons_prefix_cons]
      exact fun hb => h.1 hb.1

theorem find_singleton {c : UInt8} {s : Bytes} (h : c ∉ s) (t : Bytes)
    : find [c] (s ++ c :: t) = some s.length :=
  find_behind h t

theorem substr_eq_ok {s : Bytes} {n : Nat} (h : n ≤ s.length) : substr s n = .ok (s.drop n) := by
  rw [substr, if_pos ⟨by omega, by omega⟩]
  simp

/-! ## Numbers -/

def isSpace (b : UInt8) : Bool :=
  b = ' '.toUInt8 || (9 ≤ b && b ≤ 13)

def isDigit (b : UInt8) : Bool :=
  '0'.toUInt8 ≤ b && b ≤ '9'.toUInt8

def decimalValue (digits : Bytes) : Nat :=
  digits.foldl (fun n d => 10 * n + (d.toNat - 48)) 0

/--
`std::stoi`: white space, a sign and at least one digit; what follows the digits is ignored.
-/
def stoi (s : Bytes) : Outcome Int :=
  let s := s.dropWhile isSpace
  let negative := s.head? = some '-'.toUInt8
  let s := if negative ∨ s.head? = some '+'.toUInt8 then s.tail else s
  let digits := s.takeWhile isDigit
  let value : Int := if negative then - decimalValue digits else decimalValue digits
  if digits = [] then
    .throws .invalidArgument
  else if -2147483648 ≤ value ∧ value ≤ 2147483647 then
    .ok value
  else
    .throws .outOfRange

example : stoi (lit " -19, 4") = .ok (-19) := by decide

theorem stoi_ne_undefined (s : Bytes) : stoi s ≠ .undefined := by
  rw [stoi]
  split_ifs <;> exact fun h => by cases h

def toDecimal (n : Nat) : Bytes :=
  (Nat.toDigits 10 n).map Char.toUInt8

def ofInt (n : Int) : Bytes :=
  if n < 0 then '-'.toUInt8 :: toDecimal n.natAbs else toDecimal n.natAbs

end Bytes
