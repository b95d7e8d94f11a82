/-
# AntServer.Lib.SerialNumber — integers from their residues, near a reference

A counter is sent by its residue modulo `2 * h`. Who receives it has a counter of its own close to the
one that was sent, and takes from the integers of that residue one close to its own: the one in the block
of its own counter, or the one in the next block when the first is more than `h` away. Less than `h` away
there is one integer of the residue only, and it is found (`unwrap_eq`); at the distance `h` there are
two, and the block decides (`unwrap_eq_iff`).

Nothing here names the modelled system.
-/
import Mathlib.Tactic.Ring
import Mathlib.Data.Int.ModEq
import Mathlib.Algebra.Order.Group.Unbundled.Int

namespace AntServer.Lib.SerialNumber

/-! ## Numbers from their low digits -/

/-- The integer of residue `low` that is taken when the own counter is `ref`. -/
def unwrap (h ref low : Int) : Int :=
  let x := ref / (2 * h) * (2 * h) + low
  if x < ref - h then x + 2 * h else if ref + h < x then x - 2 * h else x

variable {h ref : Int}

/-- The number that is taken is of the residue, and at most `h` away. -/
theorem unwrap_spec (hh : 0 < h) {low : Int} (h0 : 0 ≤ low) (h1 : low < 2 * h) :
    unwrap h ref low % (2 * h) = low ∧ ref - h ≤ unwrap h ref low ∧ unwrap h ref low ≤ ref + h := by
  have hr := Int.emod_add_mul_ediv ref (2 * h)
  have hr0 := Int.emod_nonneg ref (show 2 * h ≠ 0 by omega)
  have hr1 := Int.emod_lt_of_pos ref (show 0 < 2 * h by omega)
  have hlow : low % (2 * h) = low := Int.emod_eq_of_lt h0 h1
  have hmod (k : Int) : (k * (2 * h) + low) % (2 * h) = low := by
    rw [Int.add_comm, Int.add_mul_emod_self_right, hlow]
  unfold unwrap
  rw [Int.mul_comm (2 * h)] at hr
  dsimp only
  split
  · refine ⟨?_, by omega, by omega⟩
    rw [show ref / (2 * h) * (2 * h) + low + 2 * h = (ref / (2 * h) + 1) * (2 * h) + low by ring, hmod]
  · split
    · refine ⟨?_, by omega, by omega⟩
      rw [show ref / (2 * h) * (2 * h) + low - 2 * h = (ref / (2 * h) - 1) * (2 * h) + low by ring, hmod]
    · exact ⟨hmod _, by omega, by omega⟩

/-- Two numbers of one residue that are less than `2 * h` apart are equal. -/
theorem eq_of_mod_eq {x y : Int} (hmod : x % (2 * h) = y % (2 * h)) (h1 : x - y < 2 * h)
    (h2 : y - x < 2 * h) : x = y := by
  have hd : (2 * h) ∣ (x - y) := Int.dvd_of_emod_eq_zero (Int.emod_emod_of_dvd _ (dvd_refl _) ▸
    Int.emod_eq_emod_iff_emod_sub_eq_zero.mp hmod)
  have := Int.eq_zero_of_abs_lt_dvd hd (abs_lt.mpr ⟨by omega, h1⟩)
  omega

/-! ## Numbers within half of the range -/

/-- A number less than `h` away is found from its residue. -/
theorem unwrap_eq (hh : 0 < h) {x : Int} (h1 : ref - h < x) (h2 : x < ref + h) :
    unwrap h ref (x % (2 * h)) = x := by
  obtain ⟨hmod, hlo, hhi⟩ := unwrap_spec hh (Int.emod_nonneg x (show 2 * h ≠ 0 by omega))
    (Int.emod_lt_of_pos x (show 0 < 2 * h by omega))
  exact eq_of_mod_eq hmod (by omega) (by omega)

/-- A number of the own block and at most `h` away is the one that is tried first. -/
theorem unwrap_of_block {x : Int} (hb : x / (2 * h) = ref / (2 * h)) (h1 : ref - h ≤ x) (h2 : x ≤ ref + h) :
    unwrap h ref (x % (2 * h)) = x := by
  have hx := Int.emod_add_mul_ediv x (2 * h)
  rw [Int.mul_comm (2 * h), Int.add_comm] at hx
  unfold unwrap
  rw [← hb, hx]
  dsimp only
  rw [if_neg (by omega), if_neg (by omega)]

/-- What is tried first lies in the block of the reference. -/
theorem unwrap_block (hh : 0 < h) {low : Int} (h0 : 0 ≤ low) (h1 : low < 2 * h)
    (hd : unwrap h ref low = ref + h ∨ unwrap h ref low = ref - h) :
    unwrap h ref low / (2 * h) = ref / (2 * h) := by
  have hr := Int.emod_add_mul_ediv ref (2 * h)
  have hr0 := Int.emod_nonneg ref (show 2 * h ≠ 0 by omega)
  have hr1 := Int.emod_lt_of_pos ref (show 0 < 2 * h by omega)
  rw [Int.mul_comm (2 * h)] at hr
  unfold unwrap at hd ⊢
  dsimp only at hd ⊢
  -- a number that was moved by a block is less than `h` away
  split at hd
  · omega
  · split at hd
    · omega
    · rename_i hlo hhi
      rw [if_neg hlo, if_neg hhi, Int.add_comm, Int.add_mul_ediv_right _ _ (by omega),
        Int.ediv_eq_zero_of_lt h0 h1, Int.zero_add]

/-! ## The numbers that come back -/

/-- Exactly the numbers that are found: those less than `h` away, and at the distance `h` the one of the
own block. -/
theorem unwrap_eq_iff (hh : 0 < h) (x : Int) : unwrap h ref (x % (2 * h)) = x ↔
    ref - h < x ∧ x < ref + h ∨
      (x = ref + h ∨ x = ref - h) ∧ x / (2 * h) = ref / (2 * h) := by
  have h0 := Int.emod_nonneg x (show 2 * h ≠ 0 by omega)
  have h1 := Int.emod_lt_of_pos x (show 0 < 2 * h by omega)
  constructor
  · intro hx
    obtain ⟨-, hlo, hhi⟩ := unwrap_spec hh h0 h1
    rw [hx] at hlo hhi
    by_cases hd : x = ref + h ∨ x = ref - h
    · have hb : unwrap h ref (x % (2 * h)) / (2 * h) = ref / (2 * h) := by
        apply unwrap_block hh h0 h1
        rw [hx]
        exact hd
      rw [hx] at hb
      exact .inr ⟨hd, hb⟩
    · exact .inl ⟨by omega, by omega⟩
  · rintro (⟨hlo, hhi⟩ | ⟨hd, hb⟩)
    · exact unwrap_eq hh hlo hhi
    · exact unwrap_of_block hb (by omega) (by omega)

end AntServer.Lib.SerialNumber
