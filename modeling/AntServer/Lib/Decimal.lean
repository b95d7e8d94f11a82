/-
# AntServer.Lib.Decimal — decimal numerals and fields of a fixed width

`field w n` is the numeral of `n` filled with zeros up to `w` digits. A numeral is a shorter one followed
by a field (`toDigits_append_field`), so that what is written field by field is the numeral of one number,
and its parts are quotients and remainders by powers of ten.

Nothing here names the modelled system.
-/
import Mathlib.Tactic.Ring
import Mathlib.Data.List.Basic

namespace AntServer.Lib.Decimal

/-- The numeral of `n`, filled with zeros up to `w` digits. -/
def field (w n : Nat) : List Char :=
  List.replicate (w - (Nat.toDigits 10 n).length) '0' ++ Nat.toDigits 10 n

theorem length_field {w n : Nat} (hw : 0 < w) (hn : n < 10 ^ w) : (field w n).length = w := by
  have hle : (Nat.toDigits 10 n).length ≤ w := (Nat.length_toDigits_le_iff (by decide) hw).mpr hn
  simp only [field, List.length_append, List.length_replicate]
  omega

@[simp] theorem ofDigitChars_field (w n : Nat) : Nat.ofDigitChars 10 (field w n) 0 = n := by
  unfold field
  rw [Nat.ofDigitChars_append, Nat.ofDigitChars_replicate_zero, Nat.mul_zero,
    Nat.ofDigitChars_ten_toDigits]

theorem toDigits_injective {m n : Nat} (h : Nat.toDigits 10 m = Nat.toDigits 10 n) : m = n := by
  rw [← Nat.ofDigitChars_ten_toDigits (n := m), h, Nat.ofDigitChars_ten_toDigits]

theorem field_one {n : Nat} (hn : n < 10) : field 1 n = [n.digitChar] := by
  simp [field, Nat.toDigits_of_lt_base hn]

/-- The last digit of a field is that of its number. -/
theorem field_succ {w : Nat} (hw : 0 < w) (n : Nat) :
    field (w + 1) n = field w (n / 10) ++ [(n % 10).digitChar] := by
  unfold field
  by_cases hn : n < 10
  · rw [Nat.toDigits_of_lt_base hn, Nat.div_eq_of_lt hn, Nat.mod_eq_of_lt hn, Nat.toDigits_zero]
    obtain ⟨v, rfl⟩ : ∃ v, w = v + 1 := ⟨w - 1, by omega⟩
    simp [List.replicate_succ']
  · rw [Nat.toDigits_of_base_le (by decide) (by omega : 10 ≤ n), List.append_assoc]
    simp

/-- A numeral is that of the quotient by `10 ^ w`, followed by the field of the remainder. -/
theorem toDigits_append_field {m w n : Nat} (hm : 0 < m) (hw : 0 < w) (hn : n < 10 ^ w) :
    Nat.toDigits 10 m ++ field w n = Nat.toDigits 10 (m * 10 ^ w + n) := by
  induction w, hw using Nat.le_induction generalizing n with
  | base =>
    rw [field_one (by omega), ← Nat.toDigits_of_lt_base (by omega : n < 10),
      Nat.toDigits_append_toDigits (by decide) hm (by omega)]
    congr 1
    omega
  | succ w hw ih =>
    have hquot : n / 10 < 10 ^ w := Nat.div_lt_of_lt_mul (by rw [← Nat.pow_succ']; exact hn)
    have hpos : 0 < m * 10 ^ w + n / 10 :=
      Nat.add_pos_left (Nat.mul_pos hm (Nat.pow_pos (by decide))) _
    rw [field_succ hw, ← List.append_assoc, ih hquot,
      ← Nat.toDigits_of_lt_base (Nat.mod_lt n (by decide)),
      Nat.toDigits_append_toDigits (by decide) hpos (Nat.mod_lt n (by decide))]
    congr 1
    rw [pow_succ]
    have := Nat.div_add_mod n 10
    ring_nf
    omega

end AntServer.Lib.Decimal
