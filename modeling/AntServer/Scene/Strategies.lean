/-
# AntServer.Scene.Strategies — the two ways to find the watchers of an update

`aoi_update` goes through all cells with watchers, or through those next to a touched cell, whichever
are fewer. A watcher the second way leaves out has nothing touched around it and is in the cell it was
in: it would have been sent nothing, and nothing would have been cached for it.
-/
import AntServer.Scene.Messages
import AntServer.Scene.World

namespace AntServer.Scene

open Lib (Table Machine)

variable {Id : Type} [DecidableEq Id]

theorem Grid.updated_congr (g : Grid Id) {made made' touched : Prop} [Decidable made]
    [Decidable made'] [Decidable touched] (h : made ↔ made') :
    g.updated made touched = g.updated made' touched := by
  unfold updated
  simp only [h]

namespace Aoi

/-- Two updates agree: in what the watchers get, up to the order of the cells, and in the state they
leave. -/
structure Agree (t t' : Aoi Id × ResultTbl Id) : Prop where
  result : ∀ w, ((t.2.get w).getD []).Perm ((t'.2.get w).getD [])
  last : ∀ w, t.1.lastWatchidToGrididx.get w = t'.1.lastWatchidToGrididx.get w
  grid : ∀ c, t.1.gridPool.get c = t'.1.gridPool.get c
  map : t.1.map = t'.1.map
  objidToGrididx : t.1.objidToGrididx = t'.1.objidToGrididx
  objidToMarked : t.1.objidToMarked = t'.1.objidToMarked
  watchGrididxMap : t.1.watchGrididxMap = t'.1.watchGrididxMap
  watchGridCount : t.1.watchGridCount = t'.1.watchGridCount
  touchGrididxMap : t.1.touchGrididxMap = t'.1.touchGrididxMap
  touchGridCount : t.1.touchGridCount = t'.1.touchGridCount
  touchGridResult : t.1.touchGridResult = t'.1.touchGridResult

variable {s : Aoi Id} {ρ : Registry Id} {order order' : PairsOrder Id} {cs cs' : List Int}

/-- Which of the watchers with nothing to see are resolved makes no difference. -/
theorem Placed.agree (h : Placed s ρ) (hcs : Covers s ρ cs) (hcs' : Covers s ρ cs') :
    Agree (s.updateCells order cs) (s.updateCells order' cs') := by
  have hu := h.updated order hcs.nodup
  have hu' := h.updated order' hcs'.nodup
  refine ⟨fun w => ?_, fun w => ?_, fun c => ?_, hu.map.trans hu'.map.symm,
    hu.objidToGrididx.trans hu'.objidToGrididx.symm, hu.objidToMarked.trans hu'.objidToMarked.symm,
    hu.watchGrididxMap.trans hu'.watchGrididxMap.symm,
    hu.watchGridCount.trans hu'.watchGridCount.symm,
    hu.touchGrididxMap.trans hu'.touchGrididxMap.symm,
    hu.touchGridCount.trans hu'.touchGridCount.symm,
    hu.touchGridResult.trans hu'.touchGridResult.symm⟩
  · by_cases hw : ∃ c, ρ.WatcherAt c w
    · obtain ⟨c, hw⟩ := hw
      rw [h.updated_result hcs hu hw, h.updated_result hcs' hu' hw]
      exact (watcherMessages_perm order order').filterMap _
    · rw [not_exists] at hw
      rw [(h.updated_other hu hw).1, (h.updated_other hu' hw).1]
  · by_cases hw : ∃ c, ρ.WatcherAt c w
    · obtain ⟨c, hw⟩ := hw
      rw [h.updated_last hu hcs hw, h.updated_last hu' hcs' hw]
    · rw [not_exists] at hw
      rw [(h.updated_other hu hw).2, (h.updated_other hu' hw).2]
  · rw [hu.grid, hu'.grid]
    refine congrArg (Option.map · _) (funext fun g => g.updated_congr ?_)
    rw [h.mem_messagesTo_ga hcs, h.mem_messagesTo_ga hcs']

end Aoi

namespace World

/-- In every reachable state the two strategies agree, whatever the orders of `pairs`. -/
theorem strategies_agree {w : World Id} (h : (scene Id).Reach w) (order order' : PairsOrder Id) :
    Aoi.Agree (w.aoi.updateAll order) (w.aoi.updateTouched order') := by
  obtain ⟨ρ, hheld⟩ := reach_held h
  exact hheld.placed.agree (hheld.placed.covers_all order) (hheld.placed.covers_touched order')

/-- A maker moves in front of one of two watchers. -/
theorem strategies_agree_row : ∃ w : World Nat, (scene Nat).Reach w ∧
    w.aoi.watchGridCount = 2 ∧ w.aoi.getNeedSyncWatchGridobjsByTouch (.stored Nat) = [1] ∧
    Aoi.Agree (w.aoi.updateAll (.stored Nat)) (w.aoi.updateTouched (.stored Nat)) := by
  have hrun : ∃ w ∈ (scene Nat).exec (.new .row)
      [.add 0 1 ⟨0, 0⟩, .add 1 2 ⟨0, 0⟩, .add 2 2 ⟨4, 0⟩, .update (.stored Nat), .set 0 ⟨1, 0⟩],
      w.aoi.watchGridCount = 2 ∧ w.aoi.getNeedSyncWatchGridobjsByTouch (.stored Nat) = [1] := by
    decide +kernel
  obtain ⟨w, hw, hcount, hcells⟩ := hrun
  have hreach : (scene Nat).Reach w := Machine.Reach.exec (.start ⟨_, rfl⟩) hw
  exact ⟨w, hreach, hcount, hcells, strategies_agree hreach (.stored Nat) (.stored Nat)⟩

end World

end AntServer.Scene
