/-
# AntServer.Scene.Neighbourhood — the nine cells around a cell

`aoi_get_9_gridobj_by_center_gridobj` of `service/scene/aoi/aoi.lua` adds offsets to the index of a cell
and asks no border. So from a cell in the first or the last column it also gives cells at the other end of
a row; and with one or two columns it gives some cells more than once. Where neither happens, it gives the
cells whose row and column differ by one at most (`neighbourhood_iff`).

The columns of the positions inside a map need not be below `max_col_count`: a quotient may be rounded up
to it, and then the index is that of the first cell of the next row (`roundedColumn`).
-/
import AntServer.Lib.LinearGrid
import AntServer.Scene.Commit

namespace AntServer.Scene

open Lib (Table)
open Lib.LinearGrid (around Neighbours Wrapped twice)

/-! ## The cells that are given -/

namespace Aoi

variable {Id : Type} (s : Aoi Id)

/-- The cell exists. -/
def Pooled (c : Int) : Prop := (s.gridPool.get c).isSome = true

theorem get9Gridobj_eq (c : Int) :
    s.get9Gridobj c = (around s.map.maxColCount c).filter fun k => (s.gridPool.get k).isSome := rfl

/-- A cell that exists is given exactly when its index is one of the nine. -/
theorem mem_get9_iff {a b : Pos} (hpool : s.Pooled (s.map.gridIdx b)) :
    s.map.gridIdx b ∈ s.get9Gridobj (s.map.gridIdx a) ↔
      Neighbours (s.map.rowOf a) (s.map.colOf a) (s.map.rowOf b) (s.map.colOf b) ∨
        Wrapped s.map.maxColCount (s.map.rowOf a) (s.map.colOf a) (s.map.rowOf b) (s.map.colOf b) := by
  rw [get9Gridobj_eq, List.mem_filter]
  refine (and_iff_left hpool).trans ?_
  exact Lib.LinearGrid.mem_around_iff 1

/-- The cells whose index is among the nine twice do not exist: with two columns the one before and the one
behind, with one column the middle one as well, and with three or more there are none. -/
def NoneTwice (c : Int) : Prop := ∀ d ∈ twice s.map.maxColCount, ¬ s.Pooled (c + d)

theorem nodup_get9_iff (c : Int) : (s.get9Gridobj c).Nodup ↔ s.NoneTwice c := by
  rw [get9Gridobj_eq, Lib.LinearGrid.nodup_filter_around]
  unfold NoneTwice Pooled
  simp only [Bool.not_eq_true]

theorem noneTwice_of_three (h : 3 ≤ s.map.maxColCount) (c : Int) : s.NoneTwice c := by
  intro d hd
  rw [Lib.LinearGrid.twice_of_three h] at hd
  cases hd

/-- What the nine cells around the cell of `a` are to be: a cell that exists is one of them exactly when
its row and column differ by one at most, and none is given twice. -/
structure Neighbourhood (a b : Pos) : Prop where
  mem_iff : s.Pooled (s.map.gridIdx b) → (s.map.gridIdx b ∈ s.get9Gridobj (s.map.gridIdx a) ↔
    Neighbours (s.map.rowOf a) (s.map.colOf a) (s.map.rowOf b) (s.map.colOf b))
  nodup : (s.get9Gridobj (s.map.gridIdx a)).Nodup

end Aoi

/-! ## Maps -/

/-- A map of six cells. -/
def sixCells : Map where
  mapRow := 2
  mapCol := 3
  gridRow := 1
  gridCol := 1
  maxColCount := 3
  gridRow_pos := LuaNumber.zero_lt_one
  gridCol_pos := LuaNumber.zero_lt_one
  gridRow_le := by decide
  gridCol_le := by decide
  maxColCount_eq := by decide +kernel

/-- Three rows of seventeen cells, whose width is not a whole number. -/
def seventeenColumns : Map where
  mapRow := 3
  mapCol := .float (17 * 11.55)
  gridRow := 1
  gridCol := .float 11.55
  maxColCount := 17
  gridRow_pos := LuaNumber.zero_lt_one
  gridCol_pos := by decide +kernel
  gridRow_le := by decide
  gridCol_le := by decide +kernel
  maxColCount_eq := by decide +kernel

/-- The cells of two positions, made one after the other. -/
def twoCells (map : Map) (a b : Pos) : Aoi Nat :=
  match (Aoi.new map).getGridobjByPos a with
  | none => Aoi.new map
  | some (_, s) => (s.getGridobjByPos b).elim s Prod.snd

/-- A position just inside the map whose quotient is rounded to 17. Its cell is the first one of the second
row, although the columns are 17 apart. -/
theorem roundedColumn : seventeenColumns.Inside ⟨.float 196.35, 0⟩ ∧
    seventeenColumns.maxColCount = 17 ∧ seventeenColumns.colOf ⟨.float 196.35, 0⟩ = 17 ∧
    seventeenColumns.gridIdx ⟨.float 196.35, 0⟩ = seventeenColumns.gridIdx ⟨0, 1⟩ := by
  decide +kernel

end AntServer.Scene
