/-
# AntServer.Scene.Index — the counters and the maps that go with the cells

Beside the cells an area of interest keeps two maps of cells with a counter each, the cell of every
object, and the cell each watcher was last resolved in. The counters are changed where an entry of
their map is made or dropped and nowhere else (`Counted`), so they keep through every call on its own;
that the maps are right about the cells (`Indexed`) is read off the registry of `Scene.World`.
-/
import Mathlib.Algebra.Order.Ring.Int
import AntServer.Scene.Calls

namespace AntServer.Scene

open Lib (Table Machine)

variable {Id : Type}

/-! ## What a call leaves when it returns -/

namespace Outcome

/-- If the call returns, it leaves a state with `P`. -/
def Ensures (o : Outcome Id) (P : Aoi Id → Prop) : Prop := ∀ s, o = .done s → P s

variable {P Q : Aoi Id → Prop} {o : Outcome Id} {s : Aoi Id}

/-- A call that returns ensures what holds afterwards. -/
theorem ensures_done (h : P s) : (done s).Ensures P := by
  intro s' hs'
  cases hs'
  exact h

/-- A call that raises ensures everything. -/
theorem ensures_raised (e : AoiError Id) : (raised e s).Ensures P := by
  intro s' hs'
  cases hs'

/-- One call after the other. -/
theorem Ensures.andThen {f : Aoi Id → Outcome Id} (h : o.Ensures P)
    (hf : ∀ s, P s → (f s).Ensures Q) : (o.andThen f).Ensures Q := by
  intro s' hs'
  obtain ⟨s, hs, hs'⟩ := andThen_eq_done.mp hs'
  exact hf s (h s hs) s' hs'

end Outcome

variable [DecidableEq Id]

namespace Aoi

open Outcome (ensures_done ensures_raised)

omit [DecidableEq Id] in
/-- A call on a cell, if it is there. -/
theorem ensures_withGrid {P : Aoi Id → Prop} {s : Aoi Id} {c : Int} {f : Grid Id → Outcome Id}
    (hf : ∀ g, (f g).Ensures P) : (s.withGrid c f).Ensures P := by
  unfold withGrid
  split
  · exact hf _
  · exact ensures_raised _

/-! ## The counters -/

/-- The counters count the entries of their maps. -/
structure Counted (s : Aoi Id) : Prop where
  touch : s.touchGridCount = s.touchGrididxMap.size
  watch : s.watchGridCount = s.watchGrididxMap.size

variable {s : Aoi Id}

omit [DecidableEq Id] in
/-- A new area of interest has nothing to count. -/
theorem counted_new (map : Map) : (new map : Aoi Id).Counted := ⟨rfl, rfl⟩

omit [DecidableEq Id] in
/-- The cells are not looked at. -/
theorem Counted.setGrid (h : s.Counted) (c : Int) (g : Grid Id) : (s.setGrid c g).Counted :=
  ⟨h.touch, h.watch⟩

omit [DecidableEq Id] in
/-- A cell is put into the table and counted, or is there already. -/
theorem Counted.gridTouch (h : s.Counted) (c : Int) : (s.gridTouch c).Counted := by
  unfold Aoi.gridTouch
  split
  · exact h
  · rename_i hc
    refine ⟨?_, h.watch⟩
    dsimp only
    rw [Table.size_set_new () (Option.not_isSome_iff_eq_none.mp hc), h.touch, Nat.cast_succ]

omit [DecidableEq Id] in
/-- A watched cell is put into its table and counted, or taken out and counted off. -/
theorem Counted.gridWatch (h : s.Counted) (c : Int) (isRemove : Bool) :
    (s.gridWatch c isRemove).Ensures Counted := by
  unfold Aoi.gridWatch
  split
  · rename_i hc
    obtain ⟨u, hu⟩ := Option.isSome_iff_exists.mp hc
    split
    · -- The entry goes, and one is taken off.
      refine ensures_done ⟨h.touch, ?_⟩
      have hsize := Table.size_del hu
      dsimp only
      rw [h.watch]
      omega
    · exact ensures_done h
  · rename_i hc
    split
    · exact ensures_raised _
    · refine ensures_done ⟨h.touch, ?_⟩
      dsimp only
      rw [Table.size_set_new () (Option.not_isSome_iff_eq_none.mp hc), h.watch, Nat.cast_succ]

/-- The maker part of `grid_add`. -/
theorem Counted.addMaker (h : s.Counted) (c : Int) (g : Grid Id) (id : Id) (pos : Pos) :
    (s.addMaker c g id pos).Ensures Counted := by
  unfold Aoi.addMaker
  split
  · exact ensures_raised _
  · split
    · exact ensures_raised _
    · exact ensures_done (h.setGrid _ _)

/-- The watcher part of `grid_add`. -/
theorem Counted.addWatcher (h : s.Counted) (c : Int) (g : Grid Id) (id : Id) :
    (s.addWatcher c g id).Ensures Counted := by
  unfold Aoi.addWatcher
  dsimp only
  split
  · exact ensures_raised _
  · exact (h.setGrid _ _).gridWatch c false

/-- Both parts, as the mark says. -/
theorem Counted.gridAdd (h : s.Counted) (c : Int) (id : Id) (marked : Nat) (pos : Pos) :
    (s.gridAdd c id marked pos).Ensures Counted := by
  unfold Aoi.gridAdd
  split
  · exact ensures_raised _
  · refine Outcome.Ensures.andThen (P := Counted) ?_ fun s₁ h₁ => ?_
    · split
      · exact ensures_withGrid fun g => h.addMaker c g id pos
      · exact ensures_done h
    · refine Outcome.Ensures.andThen (P := Counted) ?_ fun s₂ h₂ => ensures_done (h₂.gridTouch c)
      split
      · exact ensures_withGrid fun g => h₁.addWatcher c g id
      · exact ensures_done h₁

/-- The watcher part of `grid_delete`. -/
theorem Counted.deleteWatcher (h : s.Counted) (c : Int) (g : Grid Id) (id : Id) (found : Bool) :
    (s.deleteWatcher c g id found).Ensures Counted := by
  -- Without the watcher nothing changes, whether the object was found or not.
  have hskip : (if found then .done s else .raised (.gridDelete id) s : Outcome Id).Ensures
      Counted := by
    split
    · exact ensures_done h
    · exact ensures_raised _
  unfold Aoi.deleteWatcher
  split
  · split
    · dsimp only
      split
      · exact (h.setGrid _ _).gridWatch c true
      · exact ensures_done (h.setGrid _ _)
    · exact hskip
  · exact hskip

/-- Both parts of it. -/
theorem Counted.gridDelete (h : s.Counted) (c : Int) (id : Id) :
    (s.gridDelete c id).Ensures Counted := by
  unfold Aoi.gridDelete
  refine ensures_withGrid fun g => ?_
  exact ((h.setGrid _ _).deleteWatcher c _ id _).andThen fun s₁ h₁ => ensures_done (h₁.gridTouch c)

/-- `grid_update` touches the cell. -/
theorem Counted.gridUpdate (h : s.Counted) (c : Int) (id : Id) (pos : Pos) :
    (s.gridUpdate c id pos).Ensures Counted := by
  have htouched : ∀ g, ((s.setGrid c g).gridTouch c).Counted := fun g => (h.setGrid c g).gridTouch c
  unfold Aoi.gridUpdate
  refine ensures_withGrid fun g => ?_
  dsimp only
  split
  all_goals split
  · exact ensures_raised _
  · exact ensures_done (htouched _)
  · exact ensures_done (htouched _)
  · exact ensures_raised _
  · exact ensures_raised _
  · exact ensures_done (htouched _)

omit [DecidableEq Id] in
/-- A cell that is made is not touched. -/
theorem Counted.getGridobjByPos (h : s.Counted) {pos : Pos} {c : Int} {s₁ : Aoi Id}
    (hcell : s.getGridobjByPos pos = some (c, s₁)) : s₁.Counted := by
  obtain ⟨-, -, ⟨-, rfl⟩ | ⟨-, rfl⟩⟩ := getGridobjByPos_eq hcell
  · exact h
  · exact h.setGrid _ _

/-! ## The calls -/

/-- `aoi_add`. -/
theorem Counted.aoiAdd (h : s.Counted) (id : Id) (marked : Nat) (pos : Pos) :
    (s.aoiAdd id marked pos).Ensures Counted := by
  intro s' hdone
  obtain ⟨-, c, s₁, s₂, hcell, hadd, rfl⟩ := aoiAdd_done hdone
  have h₂ := (h.getGridobjByPos hcell).gridAdd c id marked pos s₂ hadd
  exact ⟨h₂.touch, h₂.watch⟩

/-- `aoi_remove`. -/
theorem Counted.aoiRemove (h : s.Counted) (id : Id) : (s.aoiRemove id).Ensures Counted := by
  intro s' hdone
  obtain ⟨c, s₂, -, hdelete, rfl⟩ := aoiRemove_done hdone
  have h₂ := h.gridDelete c id s₂ hdelete
  exact ⟨h₂.touch, h₂.watch⟩

/-- `aoi_set`, within a cell and from one to another. -/
theorem Counted.aoiSet (h : s.Counted) (id : Id) (pos : Pos) : (s.aoiSet id pos).Ensures Counted := by
  intro s' hdone
  obtain ⟨cur, c, s₁, -, hcell, hdone⟩ := aoiSet_done hdone
  have h₁ := h.getGridobjByPos hcell
  obtain ⟨-, hupdate⟩ | ⟨-, s₂, s₃, hdelete, hadd, rfl⟩ := hdone
  · exact h₁.gridUpdate cur id pos s' hupdate
  · have h₃ := (h₁.gridDelete cur id s₂ hdelete).gridAdd c id _ pos s₃ hadd
    exact ⟨h₃.touch, h₃.watch⟩

/-- An update empties the map of the touched cells, sets its counter to 0, and leaves the watched
cells as they are. -/
theorem Counted.update {ρ : Registry Id} (h : s.Counted) (hplaced : s.Placed ρ)
    (order : PairsOrder Id) : (s.aoiUpdate order).1.Counted := by
  obtain ⟨cs, hcs, heq⟩ := hplaced.aoiUpdate order
  have hu := hplaced.updated order hcs.nodup
  rw [heq]
  constructor
  · rw [hu.touchGridCount, hu.touchGrididxMap]
    rfl
  · rw [hu.watchGridCount, hu.watchGrididxMap]
    exact h.watch

/-- Any call; an update leaves no cell touched. -/
theorem Counted.call {ρ : Registry Id} (h : s.Counted) (hplaced : s.Placed ρ) (op : Op Id) :
    (s.call op).Ensures Counted := by
  cases op with
  | add id marked pos => exact h.aoiAdd id marked pos
  | remove id => exact h.aoiRemove id
  | set id pos => exact h.aoiSet id pos
  | update order => exact ensures_done (h.update hplaced order)

/-! ## The maps -/

/-- The object is among the watchers of the cell. -/
def WatchesIn (s : Aoi Id) (c : Int) (id : Id) : Prop :=
  ∃ g ∈ s.gridPool.get c, g.watches id = true

/-- The object is registered, as a watcher. -/
def RegisteredWatcher (s : Aoi Id) (id : Id) : Prop :=
  (s.objidToGrididx.get id).isSome ∧ isWatcher (s.mark id) = true

/-- The counters and the maps agree with the cells. -/
structure Indexed (s : Aoi Id) : Prop where
  touchCount : s.touchGridCount = s.touchGrididxMap.size
  watchCount : s.watchGridCount = s.watchGrididxMap.size
  watched : ∀ c, (s.watchGrididxMap.get c).isSome ↔ ∃ id, s.WatchesIn c id
  watcher : ∀ id, s.RegisteredWatcher id →
    ∃ c, s.objidToGrididx.get id = some c ∧ ∀ c', s.WatchesIn c' id ↔ c' = c

/-- Every registered watcher was last resolved in the cell where it is. -/
def LastCurrent (s : Aoi Id) : Prop :=
  ∀ id, s.RegisteredWatcher id → s.lastWatchidToGrididx.get id = s.objidToGrididx.get id

variable {ρ : Registry Id}

/-- The watchers of the cells are those of the registry. -/
theorem Placed.watchesIn (h : s.Placed ρ) {c : Int} {id : Id} :
    s.WatchesIn c id ↔ ρ.WatcherAt c id := by
  constructor
  · rintro ⟨g, hg, hw⟩
    exact (h.watchers c g hg id).mp hw
  · intro hw
    have hw' := hw
    obtain ⟨e, he, rfl, -⟩ := hw'
    obtain ⟨g, hg⟩ := Option.isSome_iff_exists.mp (h.pooled _ e he)
    exact ⟨g, hg, (h.watchers _ g hg id).mpr hw⟩

end Aoi

namespace World

variable {w w' : World Id} {ρ : Registry Id}

/-- A registered watcher is in the cell the tables name. -/
theorem Held.watcher (h : Held w ρ) {id : Id} (hid : w.aoi.RegisteredWatcher id) :
    ∃ c, w.aoi.objidToGrididx.get id = some c ∧ ρ.WatcherAt c id := by
  obtain ⟨c, hc⟩ := Option.isSome_iff_exists.mp hid.1
  exact ⟨c, hc, h.watcherAt.mpr ⟨hc, hid.2⟩⟩

/-- What is counted and held is indexed. -/
theorem Held.indexed (h : Held w ρ) (hcounted : w.aoi.Counted) : w.aoi.Indexed where
  touchCount := hcounted.touch
  watchCount := hcounted.watch
  watched c := by
    rw [h.placed.watched]
    exact exists_congr fun id => h.placed.watchesIn.symm
  watcher id hid := by
    obtain ⟨c, hc, hw⟩ := h.watcher hid
    refine ⟨c, hc, fun c' => ?_⟩
    rw [h.placed.watchesIn]
    constructor
    · intro hw'
      exact hw'.unique hw
    · rintro rfl
      exact hw

/-- After an update every watcher was told of last in the cell it is in. -/
theorem Held.lastCurrent (h : Held w ρ) (order : PairsOrder Id) :
    (w.update order).aoi.LastCurrent := by
  intro id hid
  obtain ⟨c, hc, hw⟩ := (h.update order).watcher hid
  obtain ⟨cs, hcs, heq⟩ := h.placed.aoiUpdate order
  have hlast := h.placed.updated_last (h.placed.updated order hcs.nodup) hcs hw
  rw [hc, ← hlast]
  unfold World.update
  rw [heq]

/-- A step is a call that returns. -/
theorem step_aoi {op : Op Id} (hs : w.step op = some w') : w.aoi.call op = .done w'.aoi := by
  cases op with
  | add id marked pos =>
    obtain ⟨s, hdone, rfl⟩ := step_add hs
    exact hdone
  | remove id =>
    obtain ⟨s, hdone, rfl⟩ := step_remove hs
    exact hdone
  | set id pos =>
    obtain ⟨s, hdone, rfl⟩ := step_set hs
    exact hdone
  | update order =>
    cases hs
    rfl

/-- In every run the counters are right. -/
theorem reach_counted (h : (scene Id).Reach w) : w.aoi.Counted := by
  refine Machine.ReachUnder.invariant (fun w => w.aoi.Counted) ?_ ?_ h
  · rintro _ ⟨map, rfl⟩
    exact Aoi.counted_new map
  · intro w op w' hreach hcounted _ hs
    obtain ⟨ρ, hheld⟩ := reach_held hreach
    exact hcounted.call hheld.placed op _ (step_aoi hs)

/-- After any calls that return, the counters and the maps are right about the cells; after an update,
so is the cell each watcher was last resolved in. -/
theorem reach_indexed (h : (scene Id).Reach w) :
    w.aoi.Indexed ∧ ∀ order, (w.update order).aoi.LastCurrent := by
  obtain ⟨ρ, hheld⟩ := reach_held h
  exact ⟨hheld.indexed (reach_counted h), hheld.lastCurrent⟩

/-- Two watchers in one cell, of which one moves on before the update. -/
theorem reach_indexed_row : ∃ w : World Nat, (scene Nat).Reach w ∧
    w.aoi.watchGrididxMap.keys.length = 2 ∧ w.aoi.Indexed ∧
    ∀ order, (w.update order).aoi.LastCurrent := by
  have hrun : ∃ w ∈ rowRun [.add 0 2 ⟨0, 0⟩, .add 1 3 ⟨.float 0.5, 0⟩, .set 1 ⟨3, 0⟩],
      w.aoi.watchGrididxMap.keys.length = 2 := by
    decide +kernel
  obtain ⟨w, hw, hlength⟩ := hrun
  exact ⟨w, reach_rowRun hw, hlength, reach_indexed (reach_rowRun hw)⟩

end World

end AntServer.Scene
