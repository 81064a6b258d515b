import FoxyServer.Library.Bytes

/-!
This module contains that a decimal text reads back as the number it was written for.
-/

namespace Bytes

theorem isDigit_toUInt8 {c : Char} (h : c.isDigit = true)
    : isDigit c.toUInt8 = true ∧ c.toUInt8.toNat - 48 = c.toNat - 48 := by
  simp only [Char.isDigit, Bool.and_eq_true, decide_eq_true_eq, ge_iff_le, UInt32.le_iff_toNat_le] at h
  have hzero : ('0'.val).toNat = 48 := rfl
  have hnine : ('9'.val).toNat = 57 := rfl
  have hnat : c.toUInt8.toNat = c.val.toNat := by
    rw [Char.toUInt8, UInt32.toNat_toUInt8]
    omega
  constructor
  . rw [isDigit, Bool.and_eq_true, decide_eq_true_eq, decide_eq_true_eq, UInt8.le_iff_toNat_le,
      UInt8.le_iff_toNat_le, hnat]
    exact ⟨by simpa using h.1, by simpa using h.2⟩
  . rw [hnat, Char.toNat]

theorem isDigit_toDecimal {n : Nat} {b : UInt8} (h : b ∈ toDecimal n) : isDigit b = true := by
  rcases List.mem_map.mp h with ⟨c, hc, rfl⟩
  exact (isDigit_toUInt8 (Nat.isDigit_of_mem_toDigits (by decide) (by decide) hc)).1

theorem toDecimal_ne_nil (n : Nat) : toDecimal n ≠ [] := by
  rw [toDecimal, ne_eq, List.map_eq_nil_iff]
  exact Nat.toDigits_ne_nil

theorem decimalValue_toDecimal (n : Nat) : decimalValue (toDecimal n) = n := by
  have hfold : ∀ (cs : List Char) (m : Nat), (∀ c ∈ cs, c.isDigit = true) →
      (cs.map Char.toUInt8).foldl (fun n d => 10 * n + (d.toNat - 48)) m = Nat.ofDigitChars 10 cs m := by
    intro cs
    induction cs with
    | nil =>
      intro m _
      rfl
    | cons c cs ih =>
      intro m hcs
      rw [List.forall_mem_cons] at hcs
      rw [List.map_cons, List.foldl_cons, (isDigit_toUInt8 hcs.1).2, ih _ hcs.2]
      rfl
  rw [decimalValue, toDecimal,
    hfold _ _ (fun c hc => Nat.isDigit_of_mem_toDigits (by decide) (by decide) hc)]
  exact Nat.ofDigitChars_ten_toDigits

end Bytes
