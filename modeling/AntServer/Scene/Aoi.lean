/-
# AntServer.Scene.Aoi — the area of interest of a scene: cells, objects, and the calls between updates

`service/scene/aoi/aoi.lua` up to `aoi_set`. The map is cut into cells. A maker is an object others
see, a watcher one that sees; what has happened to the makers of a cell since the last update is in
its `touchs`, what the last update has left there in its `objs`.

A call that raises leaves what it has changed so far, so an `Outcome` carries the state in both
cases. Coordinates and sizes are numbers of Lua: `//` takes the floor of a quotient that was rounded, so a
position inside the map may be given a column behind the last one. The sizes of the cells are positive
(`aoi_new` is given them by its caller) and at most those of the map (which it checks).

The rows, the columns and the indices of cells are whole numbers, and they are `Int` here: the sums that
make an index of them are exact up to `2 ^ 53`, and the model is one of maps with no more cells than that.
-/
import AntServer.LuaNumber
import AntServer.Lib.Table

namespace AntServer.Scene

open Lib (Table)

/-! ## Data -/

structure Pos where
  x : LuaNumber
  y : LuaNumber
  deriving DecidableEq

/-- The arguments of `aoi_new`, and `max_col_count`, which it computes of them once. -/
structure Map where
  mapRow : LuaNumber
  mapCol : LuaNumber
  gridRow : LuaNumber
  gridCol : LuaNumber
  maxColCount : Int
  gridRow_pos : 0 < gridRow
  gridCol_pos : 0 < gridCol
  gridRow_le : gridRow ≤ mapRow
  gridCol_le : gridCol ≤ mapCol
  maxColCount_eq : mapCol.ceilDiv gridCol = some maxColCount

/-- `pos_y // grid_row` -/
def Map.rowOf (m : Map) (pos : Pos) : Int := (pos.y.floorDiv m.gridRow).getD 0

/-- `pos_x // grid_col` -/
def Map.colOf (m : Map) (pos : Pos) : Int := (pos.x.floorDiv m.gridCol).getD 0

/-- The position is inside the map. (One that is not a number is not: where the source goes on with it, the
index of its cell raises.) -/
def Map.Inside (m : Map) (pos : Pos) : Prop :=
  0 ≤ pos.y ∧ pos.y < m.mapRow ∧ 0 ≤ pos.x ∧ pos.x < m.mapCol

instance (m : Map) (pos : Pos) : Decidable (m.Inside pos) :=
  inferInstanceAs (Decidable (_ ∧ _ ∧ _ ∧ _))

/-- The index of the cell of a position. -/
def Map.gridIdx (m : Map) (pos : Pos) : Int := m.rowOf pos * m.maxColCount + m.colOf pos + 1

/-- An entry of `touchs`: a table with the status `"A"` or `"U"`, or the string `"D"`. -/
inductive Touch where
  | A (pos : Pos)
  | U (pos : Pos)
  | D
  deriving DecidableEq

/-- `touch_obj.pos_x = pos_x; touch_obj.pos_y = pos_y` -/
def Touch.move (pos : Pos) : Touch → Touch
  | .A _ => .A pos
  | .U _ => .U pos
  | .D => .D

/-- An entry of what an update returns. Only the entries of `"GD"` have a position with the status
`"D"`. -/
inductive Record where
  | A (pos : Pos)
  | U (pos : Pos)
  | D (pos : Option Pos)
  deriving DecidableEq

/-- The keys of a cell's `result`. -/
inductive GridStatus where
  | GU
  | GD
  | GA
  deriving DecidableEq

/-- A cell. -/
structure Grid (Id : Type) where
  gridIdx : Int
  watchers : Option (Table Id Unit)
  objs : Table Id Pos
  touchs : Option (Table Id Touch)
  merge : Option (Table Id Pos)
  result : GridStatus → Option (Table Id Record)

/-- `grid_new` -/
def Grid.new {Id : Type} (gridIdx : Int) : Grid Id where
  gridIdx := gridIdx
  watchers := none
  objs := .empty
  touchs := none
  merge := none
  result _ := none

structure Aoi (Id : Type) where
  map : Map
  gridPool : Table Int (Grid Id)
  objidToGrididx : Table Id Int
  objidToMarked : Table Id Nat
  watchGrididxMap : Table Int Unit
  watchGridCount : Int
  lastWatchidToGrididx : Table Id Int
  touchGrididxMap : Table Int Unit
  touchGridCount : Int
  touchGridResult : Table Int Unit

/-- `aoi_new` -/
def Aoi.new {Id : Type} (map : Map) : Aoi Id where
  map := map
  gridPool := .empty
  objidToGrididx := .empty
  objidToMarked := .empty
  watchGrididxMap := .empty
  watchGridCount := 0
  lastWatchidToGrididx := .empty
  touchGrididxMap := .empty
  touchGridCount := 0
  touchGridResult := .empty

/-! ## Outcomes -/

inductive AoiError (Id : Type) where
  /-- "grid_watch remove is invalid grid_idx:%s" -/
  | gridWatchRemove (gridIdx : Int)
  /-- `assert(is_watcher or is_maker)` -/
  | marked (marked : Nat)
  /-- "duplicate grid_add maker id:%s to objs" -/
  | duplicateObjs (id : Id)
  /-- "duplicate grid_add maker id:%s to touchs" -/
  | duplicateTouchs (id : Id)
  /-- "duplicate grid_add maker id:%s to watchers" -/
  | duplicateWatchers (id : Id)
  /-- "invalid grid_delete obj:%s id" -/
  | gridDelete (id : Id)
  /-- "error grid_update status:D id:%s from grid_idx:%s" -/
  | updateStatusD (id : Id) (gridIdx : Int)
  /-- "error grid_update no exist id:%s from grid_idx:%s" -/
  | updateNoExist (id : Id) (gridIdx : Int)
  /-- "duplicate aoi_add obj_id:%s" -/
  | duplicateAdd (id : Id)
  /-- "no exist aoi_remove obj_id:%s" -/
  | noExistRemove (id : Id)
  /-- "no exist aoi_set obj_id:%s" -/
  | noExistSet (id : Id)
  /-- a field of a nil cell -/
  | nilGrid
  deriving DecidableEq

/-- A call returns or raises; either way it leaves a state. -/
inductive Outcome (Id : Type) where
  | done (s : Aoi Id)
  | raised (e : AoiError Id) (s : Aoi Id)

namespace Outcome

variable {Id : Type}

def andThen (o : Outcome Id) (f : Aoi Id → Outcome Id) : Outcome Id :=
  match o with
  | .done s => f s
  | .raised e s => .raised e s

/-- The state after the call. -/
def after : Outcome Id → Aoi Id
  | .done s => s
  | .raised _ s => s

/-- The call returned. -/
def isDone : Outcome Id → Bool
  | .done _ => true
  | .raised _ _ => false

@[simp] theorem done_andThen (s : Aoi Id) (f : Aoi Id → Outcome Id) : (done s).andThen f = f s := rfl
@[simp] theorem raised_andThen (e : AoiError Id) (s : Aoi Id) (f : Aoi Id → Outcome Id) :
    (raised e s).andThen f = raised e s := rfl

theorem andThen_eq_done {o : Outcome Id} {f : Aoi Id → Outcome Id} {s' : Aoi Id} :
    o.andThen f = .done s' ↔ ∃ s, o = .done s ∧ f s = .done s' := by
  cases o with
  | done s => simp
  | raised e s => simp

theorem isDone_andThen {o : Outcome Id} {f : Aoi Id → Outcome Id} :
    (o.andThen f).isDone = true ↔ ∃ s, o = .done s ∧ (f s).isDone = true := by
  cases o with
  | done s => simp
  | raised e s => simp [isDone]

theorem eq_done_of_isDone {o : Outcome Id} (h : o.isDone = true) : ∃ s, o = .done s := by
  cases o with
  | done s => exact ⟨s, rfl⟩
  | raised e s => cases h

end Outcome

/-! ## Cells -/

variable {Id : Type} [DecidableEq Id]

/-- `touchs and touchs[id]` -/
def Grid.touch (g : Grid Id) (id : Id) : Option Touch := g.touchs.bind (·.get id)

/-- `watchers and watchers[id]` -/
def Grid.watches (g : Grid Id) (id : Id) : Bool := (g.watchers.bind (·.get id)).isSome

/-- The maker's part of `grid_delete`: the cell, and whether the object was found. -/
def Grid.deleteMaker (g : Grid Id) (id : Id) : Grid Id × Bool :=
  if (g.objs.get id).isSome then
    ({ g with touchs := some ((g.touchs.getD .empty).set id .D) }, true)
  else if (g.touch id).isSome then ({ g with touchs := g.touchs.map (·.del id) }, true)
  else (g, false)

/-- `expand_marked`: whether the object is a watcher, and whether it is a maker. -/
def expandMarked (marked : Nat) : Option (Bool × Bool) :=
  let isWatcher := marked &&& 0x02 != 0
  let isMaker := marked &&& 0x01 != 0
  if isWatcher || isMaker then some (isWatcher, isMaker) else none

namespace Aoi

def setGrid (s : Aoi Id) (c : Int) (g : Grid Id) : Aoi Id :=
  { s with gridPool := s.gridPool.set c g }

/-- `grid_touch` -/
def gridTouch (s : Aoi Id) (c : Int) : Aoi Id :=
  if (s.touchGrididxMap.get c).isSome then s
  else
    { s with
      touchGrididxMap := s.touchGrididxMap.set c ()
      touchGridCount := s.touchGridCount + 1 }

/-- `grid_watch` -/
def gridWatch (s : Aoi Id) (c : Int) (isRemove : Bool) : Outcome Id :=
  if (s.watchGrididxMap.get c).isSome then
    if isRemove then
      .done
        { s with
          watchGrididxMap := s.watchGrididxMap.del c
          watchGridCount := s.watchGridCount - 1 }
    else .done s
  else if isRemove then .raised (.gridWatchRemove c) s
  else
    .done
      { s with
        watchGrididxMap := s.watchGrididxMap.set c ()
        watchGridCount := s.watchGridCount + 1 }

/-- The maker's part of `grid_add`. -/
def addMaker (s : Aoi Id) (c : Int) (g : Grid Id) (id : Id) (pos : Pos) : Outcome Id :=
  if (g.objs.get id).isSome then .raised (.duplicateObjs id) s
  else if (g.touch id).isSome then .raised (.duplicateTouchs id) s
  else .done (s.setGrid c { g with touchs := some ((g.touchs.getD .empty).set id (.A pos)) })

/-- The watcher's part of `grid_add`. -/
def addWatcher (s : Aoi Id) (c : Int) (g : Grid Id) (id : Id) : Outcome Id :=
  let watchers := g.watchers.getD .empty
  if (watchers.get id).isSome then
    .raised (.duplicateWatchers id) (s.setGrid c { g with watchers := some watchers })
  else (s.setGrid c { g with watchers := some (watchers.set id ()) }).gridWatch c false

/-- Go on with a cell; every cell that is asked for exists. -/
def withGrid (s : Aoi Id) (c : Int) (f : Grid Id → Outcome Id) : Outcome Id :=
  match s.gridPool.get c with
  | some g => f g
  | none => .raised .nilGrid s

/-- `grid_mt:grid_add` -/
def gridAdd (s : Aoi Id) (c : Int) (id : Id) (marked : Nat) (pos : Pos) : Outcome Id :=
  match expandMarked marked with
  | none => .raised (.marked marked) s
  | some (isWatcher, isMaker) =>
    (if isMaker then s.withGrid c fun g => s.addMaker c g id pos else .done s).andThen fun s =>
    (if isWatcher then s.withGrid c fun g => s.addWatcher c g id else .done s).andThen fun s =>
    .done (s.gridTouch c)

/-- The watcher's part of `grid_delete`: whether the object was not found either. -/
def deleteWatcher (s : Aoi Id) (c : Int) (g : Grid Id) (id : Id) (found : Bool) : Outcome Id :=
  match g.watchers with
  | some watchers =>
    if (watchers.get id).isSome then
      let s := s.setGrid c { g with watchers := some (watchers.del id) }
      if (watchers.del id).isEmpty then s.gridWatch c true else .done s
    else if found then .done s
    else .raised (.gridDelete id) s
  | none => if found then .done s else .raised (.gridDelete id) s

/-- `grid_mt:grid_delete` -/
def gridDelete (s : Aoi Id) (c : Int) (id : Id) : Outcome Id :=
  s.withGrid c fun g =>
    ((s.setGrid c (g.deleteMaker id).1).deleteWatcher c (g.deleteMaker id).1 id
      (g.deleteMaker id).2).andThen fun s => .done (s.gridTouch c)

/-- `grid_mt:grid_update` -/
def gridUpdate (s : Aoi Id) (c : Int) (id : Id) (pos : Pos) : Outcome Id :=
  s.withGrid c fun g =>
    let touchs := g.touchs.getD .empty
    let touched (touch : Touch) :=
      Outcome.done ((s.setGrid c { g with touchs := some (touchs.set id touch) }).gridTouch c)
    let s := s.setGrid c { g with touchs := some touchs }
    if (g.objs.get id).isSome then
      match touchs.get id with
      | some .D => .raised (.updateStatusD id c) s
      | none => touched (.U pos)
      | some touch => touched (touch.move pos)
    else
      match touchs.get id with
      | none | some .D => .raised (.updateNoExist id c) s
      | some touch => touched (touch.move pos)

/-! ## Objects -/

/-- `get_gridobj_by_pos`: the cell of a position inside the map; it is made if there is none. -/
def getGridobjByPos (s : Aoi Id) (pos : Pos) : Option (Int × Aoi Id) :=
  if s.map.Inside pos then
    let c := s.map.gridIdx pos
    if (s.gridPool.get c).isSome then some (c, s) else some (c, s.setGrid c (.new c))
  else none

/-- `aoi_mt:aoi_add` -/
def aoiAdd (s : Aoi Id) (id : Id) (marked : Nat) (pos : Pos) : Outcome Id :=
  match s.objidToGrididx.get id with
  | some _ => .raised (.duplicateAdd id) s
  | none =>
    match s.getGridobjByPos pos with
    | none => .raised .nilGrid s
    | some (c, s) =>
      (s.gridAdd c id marked pos).andThen fun s =>
      .done
        { s with
          objidToGrididx := s.objidToGrididx.set id c
          objidToMarked := s.objidToMarked.set id marked }

/-- `aoi_mt:aoi_remove` -/
def aoiRemove (s : Aoi Id) (id : Id) : Outcome Id :=
  match s.objidToGrididx.get id with
  | none => .raised (.noExistRemove id) s
  | some c =>
    (s.gridDelete c id).andThen fun s =>
    .done
      { s with
        objidToGrididx := s.objidToGrididx.del id
        objidToMarked := s.objidToMarked.del id }

/-- `aoi_mt:aoi_set`. The mark of a registered object is there. -/
def aoiSet (s : Aoi Id) (id : Id) (pos : Pos) : Outcome Id :=
  match s.objidToGrididx.get id with
  | none => .raised (.noExistSet id) s
  | some cur =>
    match s.getGridobjByPos pos with
    | none => .raised .nilGrid s
    | some (c, s) =>
      if c = cur then s.gridUpdate c id pos
      else
        (s.gridDelete cur id).andThen fun s =>
        (s.gridAdd c id ((s.objidToMarked.get id).getD 0) pos).andThen fun s =>
        .done { s with objidToGrididx := s.objidToGrididx.set id c }

end Aoi

end AntServer.Scene
