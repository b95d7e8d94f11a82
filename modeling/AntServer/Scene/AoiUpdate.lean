/-
# AntServer.Scene.AoiUpdate — what an update sends to the watchers

`aoi_mt:aoi_update` of `service/scene/aoi/aoi.lua` and what it calls. An update goes through the cells
with watchers, all of them or those next to a touched cell, and sends each watcher a list of tables
of records, one for each cell around it that has something to tell. The tables are made once for a
cell and kept in its `result`; at the end the touched cells are committed and the results dropped.

`pairs` visits a table in an order of its own (`PairsOrder`). The order of the entries of one table
of records is of no consequence; the order of the cells in `LEFT` and `RIGHT` is the order of the
tables a watcher gets.
-/
import Mathlib.Data.List.Dedup
import AntServer.Scene.Aoi

namespace AntServer.Scene

open Lib (Table)

/-- The orders in which `pairs` visits the tables of an update. -/
structure PairsOrder (Id : Type) where
  /-- `LEFT` and `RIGHT`, for a watcher -/
  cells : Id → List Int → List Int
  /-- `watch_grididx_map` and `touch_grididx_map` -/
  idxs : List Int → List Int
  /-- the watchers of a cell -/
  watchers : List Id → List Id
  cells_perm : ∀ w l, (cells w l).Perm l
  idxs_perm : ∀ l, (idxs l).Perm l
  watchers_perm : ∀ l, (watchers l).Perm l

/-- The tables visited as they are stored. -/
def PairsOrder.stored (Id : Type) : PairsOrder Id where
  cells _ l := l
  idxs l := l
  watchers l := l
  cells_perm _ _ := .refl _
  idxs_perm _ := .refl _
  watchers_perm _ := .refl _

/-! ## The tables of records of a cell -/

/-- The position of an entry of `touchs` that is not `"D"`. -/
def Touch.pos : Touch → Option Pos
  | .A pos => some pos
  | .U pos => some pos
  | .D => none

def Touch.record : Touch → Record
  | .A pos => .A pos
  | .U pos => .U pos
  | .D => .D none

variable {Id : Type} [DecidableEq Id]

/-- The makers `objs`, changed by `touchs`. -/
def applyTouchs (touchs : Table Id Touch) (objs : Table Id Pos) : Table Id Pos :=
  (touchs.filterMap fun _ touch => touch.pos).overlay
    (objs.filterMap fun id pos => if (touchs.get id).isSome then none else some pos)

/-- `next(t) and ret or nil` -/
def unlessEmpty {V W : Type} (t : Table Id V) (ret : Table Id W) : Option (Table Id W) :=
  if t.isEmpty then none else some ret

namespace Grid

/-- What `grid_get_merge_objs` makes when there is no `merge`. -/
def mergeObjs (g : Grid Id) : Table Id Pos :=
  match g.touchs with
  | some touchs => if touchs.isEmpty then g.objs else applyTouchs touchs g.objs
  | none => g.objs

/-- `grid_get_merge_objs` -/
def getMergeObjs (g : Grid Id) : Table Id Pos × Grid Id :=
  match g.merge with
  | some merge => (merge, g)
  | none => (g.mergeObjs, { g with merge := some g.mergeObjs })

/-- What `grid_get_gu_data` makes when there is no result. -/
def guData (g : Grid Id) : Option (Table Id Record) :=
  g.touchs.bind fun touchs => unlessEmpty touchs (touchs.filterMap fun _ touch => some touch.record)

/-- What `grid_get_gd_data` makes when there is no result. -/
def gdData (g : Grid Id) : Option (Table Id Record) :=
  unlessEmpty g.objs (g.objs.filterMap fun _ pos => some (.D (some pos)))

/-- What `grid_get_ga_data` makes when there is no result. -/
def gaData (merge : Table Id Pos) : Option (Table Id Record) :=
  unlessEmpty merge (merge.filterMap fun _ pos => some (.A pos))

end Grid

namespace Aoi

/-- `self.result[status] = ret; if ret then grid_touch_result(self) end` -/
def setResult (s : Aoi Id) (c : Int) (g : Grid Id) (status : GridStatus)
    (ret : Option (Table Id Record)) : Aoi Id :=
  let s := s.setGrid c { g with result := fun st => if st = status then ret else g.result st }
  if ret.isSome then { s with touchGridResult := s.touchGridResult.set c () } else s

/-- The start of the three `grid_get_*_data`: the result, or else what `make` makes. -/
def getResult (s : Aoi Id) (c : Int) (status : GridStatus)
    (make : Grid Id → Option (Table Id Record) × Grid Id) : Option (Table Id Record) × Aoi Id :=
  match s.gridPool.get c with
  | none => (none, s)
  | some g =>
    match g.result status with
    | some data => (some data, s)
    | none => ((make g).1, s.setResult c (make g).2 status (make g).1)

/-- `grid_get_gu_data` -/
def gridGetGuData (s : Aoi Id) (c : Int) : Option (Table Id Record) × Aoi Id :=
  s.getResult c .GU fun g => (g.guData, g)

/-- `grid_get_gd_data` -/
def gridGetGdData (s : Aoi Id) (c : Int) : Option (Table Id Record) × Aoi Id :=
  s.getResult c .GD fun g => (g.gdData, g)

/-- `grid_get_ga_data` -/
def gridGetGaData (s : Aoi Id) (c : Int) : Option (Table Id Record) × Aoi Id :=
  s.getResult c .GA fun g => (Grid.gaData g.getMergeObjs.1, g.getMergeObjs.2)

end Aoi

/-! ## The watchers -/

/-- What the watchers get: `result_tbl`. -/
abbrev ResultTbl (Id : Type) := Table Id (List (Table Id Record))

/-- A cell a watcher is told about, and what it is told. -/
abbrev Message := Int × GridStatus

namespace Aoi

/-- `aoi_do_message` -/
def aoiDoMessage (watcherId : Id) (t : Aoi Id × ResultTbl Id) (m : Message) :
    Aoi Id × ResultTbl Id :=
  let watchRet := (t.2.get watcherId).getD []
  let (data, s) := match m.2 with
    | .GU => t.1.gridGetGuData m.1
    | .GD => t.1.gridGetGdData m.1
    | .GA => t.1.gridGetGaData m.1
  (s, t.2.set watcherId (watchRet ++ data.toList))

/-- `aoi_get_9_gridobj_by_center_gridobj`: the cells around a cell that exist, in this order. -/
def get9Gridobj (s : Aoi Id) (c : Int) : List Int :=
  ([-1, 0, 1].flatMap fun i => [-1, 0, 1].map fun j => i * s.map.maxColCount + c + j).filter
    fun k => (s.gridPool.get k).isSome

/-- The messages of `aoi_resolve_change_watcher`, in the order they are sent: the two cells of the
watcher itself when they see each other, then `LEFT`, then what is left of `RIGHT`. -/
def changeMessages (s : Aoi Id) (order : PairsOrder Id) (watcherId : Id) (last : Option Int)
    (cur : Int) : List Message :=
  let left := (last.elim [] s.get9Gridobj).dedup
  let right := (s.get9Gridobj cur).dedup
  let own := last.elim [] fun last =>
    if last ∈ left ∧ cur ∈ left ∧ last ∈ right ∧ cur ∈ right then [last, cur] else []
  let left := left.filter (· ∉ own)
  let right := right.filter (· ∉ own)
  own.map (·, .GU) ++
    (order.cells watcherId left).map (fun c => (c, if c ∈ right then .GU else .GD)) ++
    (order.cells watcherId (right.filter (· ∉ left))).map (·, .GA)

/-- The cell in which a watcher was when its last messages were sent, if it was in one. -/
def lastGrid (s : Aoi Id) (watcherId : Id) : Option Int :=
  (s.lastWatchidToGrididx.get watcherId).filter fun last => (s.gridPool.get last).isSome

/-- The messages to a watcher that is in the cell `cur`. -/
def watcherMessages (s : Aoi Id) (order : PairsOrder Id) (watcherId : Id) (cur : Int) :
    List Message :=
  if s.lastWatchidToGrididx.get watcherId = some cur then (s.get9Gridobj cur).map (·, .GU)
  else s.changeMessages order watcherId (s.lastGrid watcherId) cur

/-- The body of the loop of `aoi_resolve_watcher`. -/
def resolveWatcher (order : PairsOrder Id) (cur : Int) (t : Aoi Id × ResultTbl Id) (watcherId : Id) :
    Aoi Id × ResultTbl Id :=
  let last := t.1.lastWatchidToGrididx.get watcherId
  let t := (t.1.watcherMessages order watcherId cur).foldl (aoiDoMessage watcherId) t
  if last = some cur then t
  else ({ t.1 with lastWatchidToGrididx := t.1.lastWatchidToGrididx.set watcherId cur }, t.2)

/-- `aoi_resolve_watcher` -/
def aoiResolveWatcher (order : PairsOrder Id) (t : Aoi Id × ResultTbl Id) (c : Int) :
    Aoi Id × ResultTbl Id :=
  match t.1.gridPool.get c with
  | none => t
  | some g => (order.watchers (g.watchers.getD .empty).keys).foldl (resolveWatcher order c) t

/-- Whether the cell has watchers: `watchers and next(watchers)`. -/
def hasWatchers (s : Aoi Id) (c : Int) : Bool :=
  match (s.gridPool.get c).bind Grid.watchers with
  | some watchers => !watchers.isEmpty
  | none => false

/-- `aoi_get_need_sync_watch_gridobjs_by_touch`: the cells with watchers around the touched cells,
each once. -/
def getNeedSyncWatchGridobjsByTouch (s : Aoi Id) (order : PairsOrder Id) : List Int :=
  (((order.idxs s.touchGrididxMap.keys).flatMap s.get9Gridobj).filter s.hasWatchers).dedup

/-! ## The end of an update -/

end Aoi

/-- A touched cell takes over its `merge`, or else its `touchs`. -/
def Grid.commit (g : Grid Id) : Grid Id :=
  match g.merge with
  | some merge => { g with merge := none, objs := merge, touchs := none }
  | none =>
    match g.touchs with
    | some touchs => { g with objs := applyTouchs touchs g.objs, touchs := some .empty }
    | none => g

def Grid.clearResult (g : Grid Id) : Grid Id := { g with result := fun _ => none }

namespace Aoi

/-- `aoi_clear_all_touch_gridobjs` -/
def clearAllTouchGridobjs (s : Aoi Id) : Aoi Id :=
  { s with
    gridPool := s.touchGrididxMap.keys.foldl (fun pool c => pool.modify c Grid.commit) s.gridPool
    touchGrididxMap := .empty
    touchGridCount := 0 }

/-- `aoi_clear_all_touch_result` -/
def clearAllTouchResult (s : Aoi Id) : Aoi Id :=
  { s with
    gridPool := s.touchGridResult.keys.foldl (fun pool c => pool.modify c Grid.clearResult) s.gridPool
    touchGridResult := .empty }

/-- An update that resolves the watchers of the cells `cs`. -/
def updateCells (s : Aoi Id) (order : PairsOrder Id) (cs : List Int) : Aoi Id × ResultTbl Id :=
  let (s, resultTbl) := cs.foldl (aoiResolveWatcher order) (s, .empty)
  (s.clearAllTouchGridobjs.clearAllTouchResult, resultTbl)

/-- The update over all cells of `watch_grididx_map`. -/
def updateAll (s : Aoi Id) (order : PairsOrder Id) : Aoi Id × ResultTbl Id :=
  s.updateCells order (order.idxs s.watchGrididxMap.keys)

/-- The update over the cells with watchers next to a touched cell. -/
def updateTouched (s : Aoi Id) (order : PairsOrder Id) : Aoi Id × ResultTbl Id :=
  s.updateCells order (s.getNeedSyncWatchGridobjsByTouch order)

/-- `aoi_mt:aoi_update` -/
def aoiUpdate (s : Aoi Id) (order : PairsOrder Id) : Aoi Id × ResultTbl Id :=
  if s.touchGridCount * 4 > s.watchGridCount then s.updateAll order else s.updateTouched order

end Aoi

end AntServer.Scene
