/-
# AntServer.Scene.Contents — what the cells hold after an update

After an update a cell should have the makers that are registered in it, at the positions last given,
and nothing pending or cached (`Settled`). What `grid_get_merge_objs` caches in a cell goes when the
cell is committed, and only the touched cells are: an update in which a watcher sees anew a cell that
is not touched leaves a `merge` there, which the next commit of the cell takes over in place of its
`touchs`.
-/
import AntServer.Scene.Messages
import AntServer.Scene.World

namespace AntServer.Scene

open Lib (Table Machine)

variable {Id : Type} [DecidableEq Id]

namespace Aoi

/-! ## An update -/

/-- The cells that a watcher sees anew are touched. -/
def SeesTouched (s : Aoi Id) : Prop :=
  ∀ c ∈ s.gridPool.keys, ∀ w ∈ s.watchersAt c, ∀ k ∈ s.newlySeen w c,
    (s.touchGrididxMap.get k).isSome = true

instance (s : Aoi Id) : Decidable s.SeesTouched :=
  inferInstanceAs (Decidable (∀ c ∈ s.gridPool.keys, ∀ w ∈ s.watchersAt c, ∀ k ∈ s.newlySeen w c,
    (s.touchGrididxMap.get k).isSome = true))

/-- No cell has a `merge`. -/
def Unmerged (s : Aoi Id) : Prop := ∀ c, ∀ g ∈ s.gridPool.get c, g.merge = none

variable {s s' : Aoi Id} {ρ : Registry Id} {order : PairsOrder Id} {cs : List Int}
  {t : Aoi Id × ResultTbl Id}

omit [DecidableEq Id] in
theorem Unmerged.noStaleMerge (h : s.Unmerged) : s.NoStaleMerge := fun c g hg => .inl (h c g hg)

omit [DecidableEq Id] in
theorem Frame.unmerged (hf : Frame s s') (h : s.Unmerged) : s'.Unmerged := by
  intro c g' hg'
  rw [(hf.cell c g' hg').2]
  cases hc : s.gridPool.get c with
  | none => rfl
  | some g => exact h c g hc

theorem Placed.sees (h : Placed s ρ) : s.SeesTouched ↔ ∀ w cur, ρ.WatcherAt cur w →
    ∀ k ∈ s.newlySeen w cur, (s.touchGrididxMap.get k).isSome = true := by
  unfold SeesTouched
  constructor
  · intro hs w cur hw k hk
    refine hs cur ?_ w (h.mem_watchersAt.mpr hw) k hk
    obtain ⟨e, he, rfl, -⟩ := hw
    rw [Table.mem_keys]
    exact h.pooled w e he
  · intro hs cur _ w hw k hk
    exact hs w cur (h.mem_watchersAt.mp hw) k hk

/-- An update leaves no `merge` if and only if the cells that are seen anew are touched. -/
theorem Placed.unmerged_update (h : Placed s ρ) (hun : s.Unmerged) (hcs : Covers s ρ cs)
    (hu : Updated s order cs t) : t.1.Unmerged ↔ s.SeesTouched := by
  rw [h.sees]
  constructor
  · intro ht w cur hw k hk
    by_contra hnot
    have hga : (k, .GA) ∈ s.messagesTo order (s.targets order cs) :=
      (h.mem_messagesTo_ga hcs).mpr ⟨w, cur, hw, hk⟩
    have hpooled : (s.gridPool.get k).isSome := by
      unfold newlySeen at hk
      split at hk
      · cases hk
      · exact pooled_of_mem_get9 (List.mem_of_mem_filter hk)
    obtain ⟨g, hg⟩ := Option.isSome_iff_exists.mp hpooled
    have hg' := hu.grid k
    rw [hg, Option.map_some] at hg'
    have := ht k _ hg'
    rw [Grid.updated_merge, if_neg hnot, if_pos hga] at this
    cases this
  · intro hs c g' hg'
    obtain ⟨g, hg, rfl⟩ := hu.cell hg'
    rw [Grid.updated_merge]
    split
    · rfl
    · rename_i ht
      split
      · rename_i hga
        obtain ⟨w, cur, hw, hk⟩ := (h.mem_messagesTo_ga hcs).mp hga
        exact absurd (hs w cur hw c hk) ht
      · exact hun c g hg

end Aoi

namespace World

/-! ## Every run -/

/-- The condition on a step: at an update, the cells that are seen anew are touched. -/
def SeesTouched (w : World Id) : Op Id → Prop
  | .update _ => w.aoi.SeesTouched
  | _ => True

instance (w : World Id) (op : Op Id) : Decidable (w.SeesTouched op) :=
  match op with
  | .add _ _ _ => isTrue trivial
  | .remove _ => isTrue trivial
  | .set _ _ => isTrue trivial
  | .update _ => inferInstanceAs (Decidable w.aoi.SeesTouched)

/-- The cells have the makers that are registered in them, and nothing pending or cached. -/
structure Settled (w : World Id) : Prop where
  objs : ∀ c, ∀ g ∈ w.aoi.gridPool.get c, ∀ id, g.objs.get id =
    if w.aoi.objidToGrididx.get id = some c ∧ isMaker (w.aoi.mark id) then w.given.get id else none
  pooled : ∀ id, ∀ c ∈ w.aoi.objidToGrididx.get id, (w.aoi.gridPool.get c).isSome
  touchs : ∀ c, ∀ g ∈ w.aoi.gridPool.get c, ∀ id, g.touch id = none
  merge : ∀ c, ∀ g ∈ w.aoi.gridPool.get c, g.merge = none
  result : ∀ c, ∀ g ∈ w.aoi.gridPool.get c, ∀ st, g.result st = none
  touchGrididxMap : ∀ c, w.aoi.touchGrididxMap.get c = none
  touchGridCount : w.aoi.touchGridCount = 0

variable {w w' : World Id} {ρ : Registry Id}

/-- What the runs keep whose updates all meet the condition. -/
theorem reach_tracked (h : (scene Id).ReachUnder SeesTouched w) :
    ∃ ρ, Held w ρ ∧ w.aoi.Tracked ρ ∧ w.aoi.Unmerged := by
  refine Machine.ReachUnder.invariant
    (fun w => ∃ ρ, Held w ρ ∧ w.aoi.Tracked ρ ∧ w.aoi.Unmerged) ?_ ?_ h
  · rintro _ ⟨map, rfl⟩
    refine ⟨_, held_new map, tracked_new map, fun c g hg => ?_⟩
    cases (Table.get_empty c).symm.trans hg
  · rintro w op w' - ⟨ρ, hheld, htracked, hun⟩ hguard hs
    by_cases hop : ∀ order, op ≠ .update order
    · obtain ⟨ρ', h', hcalled⟩ := hheld.call hs hop
      exact ⟨ρ', h', hcalled.tracked htracked, hcalled.frame.unmerged hun⟩
    · push Not at hop
      obtain ⟨order, rfl⟩ := hop
      cases hs
      refine ⟨ρ, hheld.update order, hheld.update_tracked htracked hun.noStaleMerge order, ?_⟩
      obtain ⟨cs, hcs, heq⟩ := hheld.placed.aoiUpdate order
      unfold World.update
      rw [heq]
      exact (hheld.placed.unmerged_update hun hcs (hheld.placed.updated order hcs.nodup)).mpr hguard

/-- After an update the cells are settled if and only if the watchers saw only touched cells anew, in
the runs in which they did at every update before. -/
theorem update_settled (h : (scene Id).ReachUnder SeesTouched w) (order : PairsOrder Id) :
    (w.update order).Settled ↔ w.SeesTouched (.update order) := by
  obtain ⟨ρ, hheld, htracked, hun⟩ := reach_tracked h
  obtain ⟨cs, hcs, heq⟩ := hheld.placed.aoiUpdate order
  have hu := hheld.placed.updated order hcs.nodup
  have hmerge := hheld.placed.unmerged_update hun hcs hu
  rw [← heq] at hu hmerge
  have hafter := hheld.update order
  refine ⟨fun hs => hmerge.mp hs.merge, fun hsees => ?_⟩
  refine ⟨fun c g hg id => ?_, fun id c hc => ?_, fun c g hg id => ?_, hmerge.mpr hsees,
    fun c g hg st => hafter.placed.uncached.result c g hg st, fun c => ?_, hu.touchGridCount⟩
  · rw [htracked.updated_objs hheld.placed hun.noStaleMerge hu hg id]
    exact hafter.makerAt c id
  · obtain ⟨e, he, rfl⟩ := hafter.registered.entry hc
    exact hafter.placed.pooled id e he
  · exact hheld.placed.updated_touch hu hg id
  · exact (congrArg (·.get c) hu.touchGrididxMap).trans (Table.get_empty c)

/-- A maker and a watcher are added next to each other, and the maker moves. -/
theorem update_settled_row : ∃ w : World Nat, (scene Nat).ReachUnder SeesTouched w ∧
    w.SeesTouched (.update (.stored Nat)) ∧ (w.update (.stored Nat)).Settled := by
  have hrun : ∃ w ∈ (scene Nat).execWhile (fun w op => decide (w.SeesTouched op)) (.new .row)
      [.add 0 1 ⟨0, 0⟩, .add 1 2 ⟨1, 0⟩, .update (.stored Nat), .set 0 ⟨2, 0⟩],
      w.SeesTouched (.update (.stored Nat)) := by
    decide +kernel
  obtain ⟨w, hw, hsees⟩ := hrun
  have hreach : (scene Nat).ReachUnder SeesTouched w :=
    Machine.ReachUnder.execWhile (fun _ _ h => of_decide_eq_true h) (.start ⟨_, rfl⟩) hw
  exact ⟨w, hreach, hsees, (update_settled hreach (.stored Nat)).mpr hsees⟩

/-- A watcher comes next to a maker that has not moved; then the maker moves within its cell, and the
cell keeps its old position. -/
theorem not_update_settled :
    ¬ ∀ (w : World Nat) (order : PairsOrder Nat), (scene Nat).Reach w → (w.update order).Settled := by
  intro h
  have hrun : ∃ w ∈ (scene Nat).exec (.new .row)
      [.add 0 1 ⟨0, 0⟩, .update (.stored Nat), .add 1 2 ⟨1, 0⟩, .update (.stored Nat),
        .set 0 ⟨.float 0.5, 0⟩],
      ∃ g ∈ (w.update (.stored Nat)).aoi.gridPool.get 1, g.objs.get 0 = some ⟨0, 0⟩ ∧
        (if (w.update (.stored Nat)).aoi.objidToGrididx.get 0 = some 1 ∧
          isMaker ((w.update (.stored Nat)).aoi.mark 0)
          then (w.update (.stored Nat)).given.get 0 else none) = some ⟨.float 0.5, 0⟩ := by
    decide +kernel
  obtain ⟨w, hw, g, hg, hobjs, hgiven⟩ := hrun
  have hsettled := (h w (.stored Nat) (Machine.Reach.exec (.start ⟨_, rfl⟩) hw)).objs 1 g hg 0
  rw [hobjs, hgiven] at hsettled
  revert hsettled
  decide +kernel

end World

end AntServer.Scene
