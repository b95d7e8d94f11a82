/-
# AntServer.Lib.LinearGrid — cells of a grid under one index, and the nine around a cell

A cell in row `r` and column `q` of a grid with `w` columns has the index `r * w + q`, counted from any
first index. The nine indices that are reached from it by a row and a column up or down (`around`) are those
of its neighbours and of the cells that are neighbours when some rows are counted as `w` columns each
(`Wrapped`): from the first or the last column the index goes on at the other end of a row. With three
columns or more they are nine; with two or one some of them coincide.

The columns need not lie between 0 and `w`.

Nothing here names the modelled system.
-/
import Mathlib.Algebra.Order.Ring.Int
import Mathlib.Data.List.Nodup
import Mathlib.Tactic.LinearCombination
import Mathlib.Tactic.Ring

namespace AntServer.Lib.LinearGrid

/-- The index and those a row and a column away from it, row by row. -/
def around (w c : Int) : List Int := [-1, 0, 1].flatMap fun i => [-1, 0, 1].map fun j => i * w + c + j

/-- The two cells are in the same row and column or next to it. -/
def Neighbours (r q r' q' : Int) : Prop := |r - r'| ≤ 1 ∧ |q - q'| ≤ 1

/-- The cells are next to each other when `k` rows, up or down, are counted as `k * w` columns. -/
def Wrapped (w r q r' q' : Int) : Prop := ∃ k, k ≠ 0 ∧ |r' - r - k| ≤ 1 ∧ |q' - q + k * w| ≤ 1

variable {w : Int}

theorem mem_around {c k : Int} :
    k ∈ around w c ↔ ∃ i ∈ [-1, 0, 1], ∃ j ∈ [-1, 0, 1], i * w + c + j = k := by
  unfold around
  simp only [List.mem_flatMap, List.mem_map]

theorem mem_offsets {n : Int} : n ∈ [-1, 0, 1] ↔ |n| ≤ 1 := by
  simp only [List.mem_cons, List.not_mem_nil, or_false, abs_le]
  omega

/-- What is around a cell: its neighbours, and the cells that the index wraps around to. The indices
begin at `b`. -/
theorem mem_around_iff {r q r' q' : Int} (b : Int) :
    r' * w + q' + b ∈ around w (r * w + q + b) ↔ Neighbours r q r' q' ∨ Wrapped w r q r' q' := by
  rw [mem_around]
  constructor
  · rintro ⟨i, hi, j, hj, heq⟩
    rw [mem_offsets] at hi hj
    -- the rows that are left over have been walked along the columns
    have hrow : r' - r - (r' - r - i) = i := by ring
    have hcol : q' - q + (r' - r - i) * w = j := by linear_combination -heq
    by_cases hk : r' - r - i = 0
    · rw [hk, zero_mul, add_zero] at hcol
      rw [sub_eq_zero] at hk
      left
      unfold Neighbours
      rw [abs_sub_comm, hk, abs_sub_comm, hcol]
      exact ⟨hi, hj⟩
    · exact .inr ⟨r' - r - i, hk, hrow.symm ▸ hi, hcol.symm ▸ hj⟩
  · rintro (⟨hr, hc⟩ | ⟨k, -, hr, hc⟩)
    · refine ⟨r' - r, ?_, q' - q, ?_, by ring⟩
      · rw [mem_offsets, abs_sub_comm]
        exact hr
      · rw [mem_offsets, abs_sub_comm]
        exact hc
    · exact ⟨_, mem_offsets.mpr hr, _, mem_offsets.mpr hc, by ring⟩

/-! ## The nine indices -/

/-- With three columns or more the nine indices are distinct. -/
theorem nodup_around (hw : 3 ≤ w) (c : Int) : (around w c).Nodup := by
  simp only [around, List.flatMap_cons, List.flatMap_nil, List.map_cons, List.map_nil, List.cons_append,
    List.nil_append, List.append_nil, List.nodup_cons, List.mem_cons, List.not_mem_nil, or_false,
    not_or, not_false_eq_true, List.nodup_nil, and_true]
  omega

/-- The indices around a cell are those around the index 0, moved. -/
theorem around_eq (w c : Int) : around w c = (around w 0).map (c + ·) := by
  simp only [around, List.flatMap_cons, List.flatMap_nil, List.map_cons, List.map_nil, List.cons_append,
    List.nil_append, List.append_nil, List.cons.injEq, and_true]
  omega

/-- A part of a list repeats nothing exactly when it has no element that the list has twice. -/
theorem nodup_filter_iff {l : List Int} {p : Int → Bool} :
    (l.filter p).Nodup ↔ ∀ d ∈ l.filter fun d => 2 ≤ l.count d, p d = false := by
  rw [List.nodup_iff_count_le_one]
  simp only [List.mem_filter, decide_eq_true_eq]
  constructor
  · rintro h d ⟨-, htwice⟩
    by_contra hp
    -- what the filter keeps, it keeps as often as it was there
    have hcount := h d
    rw [List.count_filter (by simpa using hp)] at hcount
    omega
  · intro h d
    by_cases hp : p d = true
    · rw [List.count_filter hp]
      by_contra htwice
      have hmem : d ∈ l := List.count_pos_iff.mp (by omega)
      rw [h d ⟨hmem, by omega⟩] at hp
      cases hp
    · have hnot : d ∉ l.filter p := fun hd => hp (List.mem_filter.mp hd).2
      rw [List.count_eq_zero_of_not_mem hnot]
      exact Nat.zero_le 1

/-- The offsets that are twice or more often among the nine. -/
def twice (w : Int) : List Int := (around w 0).filter fun d => 2 ≤ (around w 0).count d

/-- A part of the indices around a cell repeats nothing exactly when it has none of those that are there
twice. -/
theorem nodup_filter_around (w c : Int) (p : Int → Bool) :
    ((around w c).filter p).Nodup ↔ ∀ d ∈ twice w, p (c + d) = false := by
  rw [around_eq, List.filter_map, List.nodup_map_iff (add_right_injective c), nodup_filter_iff]
  rfl

/-- With three columns or more there are none. -/
theorem twice_of_three (hw : 3 ≤ w) : twice w = [] := by
  refine List.filter_eq_nil_iff.mpr fun d _ => ?_
  have hone := List.nodup_iff_count_le_one.mp (nodup_around hw 0) d
  simp only [decide_eq_true_eq]
  omega

/-- With two columns the indices next to the middle one are there twice. -/
example : twice 2 = [-1, -1, 1, 1] := by decide

/-- With one column the middle one is there three times as well. -/
example : twice 1 = [-1, 0, -1, 0, 1, 0, 1] := by decide

end AntServer.Lib.LinearGrid
