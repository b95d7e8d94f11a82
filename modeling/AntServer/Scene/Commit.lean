/-
# AntServer.Scene.Commit — an update, and what is registered

An update that resolves every watcher with something to see (`Covers`) leaves the watchers where they
are and each with its cell as the last one. It commits the touched cells, and they are the cells with
something to commit. When a `merge` left from an earlier update stands in no cell with `touchs`, every
cell then has the makers that are registered in it (`Tracked.settled`).
-/
import Mathlib.Tactic.Ring
import AntServer.Scene.Registry

namespace AntServer.Scene

open Lib (Table)

variable {Id : Type} [DecidableEq Id]

/-! ## One cell -/

namespace Grid

variable (g : Grid Id) (made touched : Prop) [Decidable made] [Decidable touched]

/-- The watchers are the same. -/
theorem commit_watches (w : Id) : g.commit.watches w = g.watches w := by
  unfold commit
  split
  · rfl
  · split <;> rfl

/-- So are the results. -/
theorem commit_result : g.commit.result = g.result := by
  unfold commit
  split
  · rfl
  · split <;> rfl

/-- The merged objects are gone. -/
theorem commit_merge : g.commit.merge = none := by
  unfold commit
  split
  · rfl
  · rename_i h
    split
    · exact h
    · exact h

/-- Nobody is touched. -/
theorem commit_touch (id : Id) : g.commit.touch id = none := by
  unfold commit
  split
  · exact touch_of_none rfl id
  · split
    · exact Table.get_empty id
    · rename_i h
      exact touch_of_none h id

@[simp] theorem updated_watches (w : Id) : (g.updated made touched).watches w = g.watches w := by
  unfold updated
  split
  · rw [commit_watches]
    split <;> rfl
  · split <;> rfl

@[simp] theorem updated_result : (g.updated made touched).result = g.result := by
  unfold updated
  split
  · rw [commit_result]
    split <;> rfl
  · split <;> rfl

/-- After an update a touched cell touches nobody. -/
theorem updated_touch (id : Id) :
    (g.updated made touched).touch id = if touched then none else g.touch id := by
  unfold updated
  split
  · exact commit_touch _ id
  · split <;> rfl

/-- The merged objects of a cell that is not touched are kept, where some were made. -/
theorem updated_merge : (g.updated made touched).merge =
    if touched then none else if made then some g.merged else g.merge := by
  unfold updated
  split
  · exact commit_merge _
  · split <;> rfl

/-- A cell whose `merge` is no leftover beside its `touchs`. -/
def Fresh (g : Grid Id) : Prop := g.merge = none ∨ (g.touchs.getD .empty).isEmpty = true

instance (g : Grid Id) : Decidable g.Fresh :=
  inferInstanceAs (Decidable (g.merge = none ∨ (g.touchs.getD .empty).isEmpty = true))

variable {g} in
/-- A cell whose merged objects are fresh touches nobody. -/
theorem Fresh.touch (h : g.Fresh) {merge : Table Id Pos} (hm : g.merge = some merge) (id : Id) :
    g.touch id = none := by
  rw [← g.get_touchs]
  refine Table.isEmpty_iff.mp (h.resolve_left ?_) id
  rw [hm]
  nofun

variable {g} in
/-- Fresh merged objects are the effective ones. -/
theorem merged_get (hmerge : ∀ merge ∈ g.merge, merge = g.objs) (hfresh : g.Fresh) (id : Id) :
    g.merged.get id = g.effective id := by
  unfold merged
  cases hm : g.merge with
  | none => exact g.get_mergeObjs id
  | some merge =>
    rw [Option.getD_some, hmerge merge hm]
    unfold effective
    rw [hfresh.touch hm id]

variable {g} in
/-- A cell without `touchs` has nothing to merge. -/
theorem merged_of_touch (hmerge : ∀ merge ∈ g.merge, merge = g.objs)
    (htouch : ∀ id, g.touch id = none) : g.merged = g.objs := by
  unfold merged
  cases hm : g.merge with
  | none =>
    unfold mergeObjs
    cases ht : g.touchs with
    | none => rfl
    | some touchs =>
      have hempty : touchs.isEmpty = true := by
        refine Table.isEmpty_iff.mpr fun id => ?_
        have := htouch id
        unfold touch at this
        rwa [ht] at this
      simp [hempty]
  | some merge => exact hmerge merge hm

variable {g} in
/-- What a touched cell has after the update is what it had in effect before. -/
theorem commit_get (hmerge : ∀ merge ∈ g.merge, merge = g.objs) (hfresh : g.Fresh) (id : Id) :
    g.commit.objs.get id = g.effective id := by
  have hmerged := merged_get hmerge hfresh id
  unfold merged at hmerged
  unfold commit
  cases hm : g.merge with
  | some merge =>
    rw [hm] at hmerged
    exact hmerged
  | none =>
    unfold effective touch
    cases g.touchs with
    | some touchs => exact get_applyTouchs touchs g.objs id
    | none => rfl

variable {g made touched} in
/-- So has any cell, touched or not. -/
theorem updated_get (hmerge : ∀ merge ∈ g.merge, merge = g.objs) (hfresh : g.Fresh) (id : Id)
    (hpending : ¬ touched → g.touch id = none) :
    (g.updated made touched).objs.get id = g.effective id := by
  unfold updated
  split
  · split
    · exact merged_get hmerge hfresh id
    · exact commit_get hmerge hfresh id
  · rename_i ht
    unfold effective
    rw [hpending ht]
    split <;> rfl

end Grid

namespace Aoi

/-! ## The cells around a cell -/

omit [DecidableEq Id] in
/-- The cells around one, by their indices. -/
theorem mem_get9Gridobj {s : Aoi Id} {c k : Int} : k ∈ s.get9Gridobj c ↔
    (s.gridPool.get k).isSome ∧
      ∃ i ∈ [-1, 0, 1], ∃ j ∈ [-1, 0, 1], i * s.map.maxColCount + c + j = k := by
  unfold get9Gridobj
  simp only [List.mem_filter, List.mem_flatMap, List.mem_map]
  exact and_comm

omit [DecidableEq Id] in
/-- Those cells are there. -/
theorem pooled_of_mem_get9 {s : Aoi Id} {c k : Int} (h : k ∈ s.get9Gridobj c) :
    (s.gridPool.get k).isSome := (mem_get9Gridobj.mp h).1

omit [DecidableEq Id] in
/-- A cell is one of them. -/
theorem self_mem_get9 {s : Aoi Id} {c : Int} (hc : (s.gridPool.get c).isSome) :
    c ∈ s.get9Gridobj c :=
  mem_get9Gridobj.mpr ⟨hc, 0, by simp, 0, by simp, by ring⟩

omit [DecidableEq Id] in
/-- Being around is mutual. -/
theorem mem_get9_comm {s : Aoi Id} {c k : Int} (hc : (s.gridPool.get c).isSome)
    (h : k ∈ s.get9Gridobj c) : c ∈ s.get9Gridobj k := by
  obtain ⟨-, i, hi, j, hj, rfl⟩ := mem_get9Gridobj.mp h
  have hneg : ∀ n : Int, n ∈ [-1, 0, 1] → -n ∈ [-1, 0, 1] := by
    intro n hn
    simp only [List.mem_cons, List.not_mem_nil, or_false] at hn ⊢
    omega
  exact mem_get9Gridobj.mpr ⟨hc, -i, hneg i hi, -j, hneg j hj, by ring⟩

/-! ## The watchers that are resolved -/

/-- The cells `cs` leave out only watchers with no touched cell around them. -/
structure Covers (s : Aoi Id) (ρ : Registry Id) (cs : List Int) : Prop where
  nodup : cs.Nodup
  covers : ∀ c w, ρ.WatcherAt c w → c ∉ cs →
    ∀ c' ∈ s.get9Gridobj c, s.touchGrididxMap.get c' = none

variable {s s' : Aoi Id} {ρ : Registry Id} {cs : List Int} {order : PairsOrder Id}
  {t : Aoi Id × ResultTbl Id}

/-- The watchers of a cell are those that are registered there. -/
theorem Placed.mem_watchersAt (h : Placed s ρ) {c : Int} {w : Id} :
    w ∈ s.watchersAt c ↔ ρ.WatcherAt c w := by
  unfold watchersAt
  rw [Table.mem_keys]
  cases hc : s.gridPool.get c with
  | none =>
    refine iff_of_false (by simp) ?_
    rintro ⟨e, he, hcell, -⟩
    exact h.empty_cell hc w e he hcell
  | some g =>
    rw [Option.bind_some, g.get_watchers]
    exact h.watchers c g hc w

/-- Who is told in an update. -/
theorem Placed.mem_targets (h : Placed s ρ) {c : Int} {w : Id} :
    (w, c) ∈ s.targets order cs ↔ c ∈ cs ∧ ρ.WatcherAt c w := by
  unfold targets
  simp only [List.mem_flatMap, List.mem_map, Prod.mk.injEq]
  constructor
  · rintro ⟨c', hc', w', hw', rfl, rfl⟩
    exact ⟨hc', h.mem_watchersAt.mp ((order.watchers_perm _).mem_iff.mp hw')⟩
  · rintro ⟨hc, hw⟩
    exact ⟨c, hc, w, (order.watchers_perm _).mem_iff.mpr (h.mem_watchersAt.mpr hw), rfl, rfl⟩

/-- Nobody is told twice. -/
theorem Placed.targets_nodup (h : Placed s ρ) (hcs : cs.Nodup) :
    ((s.targets order cs).map Prod.fst).Nodup := by
  have hfst : (s.targets order cs).map Prod.fst =
      cs.flatMap fun c => order.watchers (s.watchersAt c) := by
    unfold targets
    rw [List.map_flatMap]
    simp only [List.map_map, Function.comp_def, List.map_id']
  rw [hfst, List.nodup_flatMap]
  refine ⟨fun c _ => (order.watchers_perm _).nodup_iff.mpr (Table.keys_nodup _), ?_⟩
  refine hcs.imp fun hne w hw hw' => hne ?_
  exact (h.mem_watchersAt.mp ((order.watchers_perm _).mem_iff.mp hw)).unique
    (h.mem_watchersAt.mp ((order.watchers_perm _).mem_iff.mp hw'))

/-- So an update is that of its cells. -/
theorem Placed.updated (h : Placed s ρ) (order : PairsOrder Id) (hcs : cs.Nodup) :
    Updated s order cs (s.updateCells order cs) :=
  h.uncached.updateCells (h.targets_nodup hcs)

/-- After an update every watcher has its cell as the last one. -/
theorem Placed.updated_last (h : Placed s ρ) (hu : Updated s order cs t) (hcs : Covers s ρ cs)
    {c : Int} {w : Id} (hw : ρ.WatcherAt c w) : t.1.lastWatchidToGrididx.get w = some c := by
  by_cases hc : c ∈ cs
  · exact hu.last w c (h.mem_targets.mpr ⟨hc, hw⟩)
  · rw [hu.lastOther w]
    · obtain hlast | htouched := h.moved c w hw
      · exact hlast
      · have hpooled : (s.gridPool.get c).isSome := by
          obtain ⟨e, he, rfl, -⟩ := hw
          exact h.pooled w e he
        rw [hcs.covers c w hw hc c (self_mem_get9 hpooled)] at htouched
        cases htouched
    · rw [List.mem_map]
      rintro ⟨⟨w', c'⟩, hm, rfl⟩
      obtain ⟨hc', hw'⟩ := h.mem_targets.mp hm
      exact hc (hw.unique hw' ▸ hc')

/-- The cells are the same ones. -/
theorem Updated.pooled (hu : Updated s order cs t) (c : Int) :
    (t.1.gridPool.get c).isSome = (s.gridPool.get c).isSome := by
  rw [hu.grid c, Option.isSome_map]

/-- A cell after an update, and the one it was. -/
theorem Updated.cell (hu : Updated s order cs t) {c : Int} {g' : Grid Id}
    (hg' : t.1.gridPool.get c = some g') : ∃ g, s.gridPool.get c = some g ∧
      g' = g.updated ((c, .GA) ∈ s.messagesTo order (s.targets order cs))
        (s.touchGrididxMap.get c).isSome := by
  rw [hu.grid c] at hg'
  obtain ⟨g, hg, rfl⟩ := Option.map_eq_some_iff.mp hg'
  exact ⟨g, hg, rfl⟩

/-- An update leaves no cell with something to commit. -/
theorem Placed.updated_touch (h : Placed s ρ) (hu : Updated s order cs t) {c : Int} {g' : Grid Id}
    (hg' : t.1.gridPool.get c = some g') (id : Id) : g'.touch id = none := by
  obtain ⟨g, hg, rfl⟩ := hu.cell hg'
  rw [Grid.updated_touch]
  split
  · rfl
  · rename_i ht
    by_contra hid
    exact ht (h.pending c g hg id (Option.isSome_iff_ne_none.mpr hid))

/-- An update keeps the watchers where they are. -/
theorem Placed.update (h : Placed s ρ) (hu : Updated s order cs t) (hcs : Covers s ρ cs) :
    Placed t.1 ρ where
  pooled id e he := by
    rw [hu.pooled]
    exact h.pooled id e he
  marked := h.marked
  watchers c g' hg' w := by
    obtain ⟨g, hg, rfl⟩ := hu.cell hg'
    rw [Grid.updated_watches]
    exact h.watchers c g hg w
  watched c := by
    rw [hu.watchGrididxMap]
    exact h.watched c
  touchedPooled c hc := by
    rw [hu.touchGrididxMap, Table.get_empty] at hc
    cases hc
  pending c g' hg' id hid := by
    rw [h.updated_touch hu hg' id] at hid
    cases hid
  known c g' hg' id hid := by
    rw [h.updated_touch hu hg' id] at hid
    cases hid
  moved c w hw := .inl (h.updated_last hu hcs hw)
  merge c g' hg' merge hmerge := by
    obtain ⟨g, hg, rfl⟩ := hu.cell hg'
    rw [Option.mem_def, Grid.updated_merge] at hmerge
    split at hmerge
    · cases hmerge
    · rename_i ht
      have htouch : ∀ id, g.touch id = none := by
        intro id
        by_contra hid
        exact ht (h.pending c g hg id (Option.isSome_iff_ne_none.mpr hid))
      have hobjs : (g.updated ((c, .GA) ∈ s.messagesTo order (s.targets order cs))
          (s.touchGrididxMap.get c).isSome).objs = g.objs := by
        unfold Grid.updated
        rw [if_neg ht]
        split <;> rfl
      rw [hobjs]
      split at hmerge
      · cases hmerge
        exact Grid.merged_of_touch (h.merge c g hg) htouch
      · exact h.merge c g hg merge hmerge
  uncached := by
    refine ⟨fun c g' hg' st => ?_, fun c => ?_⟩
    · obtain ⟨g, hg, rfl⟩ := hu.cell hg'
      rw [Grid.updated_result]
      exact h.uncached.result c g hg st
    · rw [hu.touchGridResult, Table.get_empty]

/-! ## The makers -/

/-- No `merge` is left in a cell with `touchs`. -/
def NoStaleMerge (s : Aoi Id) : Prop := ∀ c, ∀ g ∈ s.gridPool.get c, g.Fresh

/-- The `objs` of a cell are then the makers in it. -/
theorem Tracked.updated_objs (h : Tracked s ρ) (hplaced : Placed s ρ) (hfresh : s.NoStaleMerge)
    (hu : Updated s order cs t) {c : Int} {g' : Grid Id} (hg' : t.1.gridPool.get c = some g')
    (id : Id) : g'.objs.get id = ρ.makerAt c id := by
  obtain ⟨g, hg, rfl⟩ := hu.cell hg'
  rw [Grid.updated_get (hplaced.merge c g hg) (hfresh c g hg), h.effective c g hg id]
  intro ht
  by_contra hid
  exact ht (hplaced.pending c g hg id (Option.isSome_iff_ne_none.mpr hid))

/-- And so is what it has in effect. -/
theorem Tracked.update (h : Tracked s ρ) (hplaced : Placed s ρ) (hfresh : s.NoStaleMerge)
    (hu : Updated s order cs t) : Tracked t.1 ρ where
  effective c g' hg' id := by
    unfold Grid.effective
    rw [hplaced.updated_touch hu hg' id]
    exact h.updated_objs hplaced hfresh hu hg' id
  fits c g' hg' id := by
    unfold Grid.Fits
    rw [hplaced.updated_touch hu hg' id]
    trivial

/-! ## The two strategies -/

/-- Whether a cell has watchers, by the registry. -/
theorem Placed.hasWatchers_iff (h : Placed s ρ) {c : Int} :
    s.hasWatchers c = true ↔ ∃ w, ρ.WatcherAt c w := by
  simp only [← h.mem_watchersAt]
  unfold hasWatchers watchersAt
  cases (s.gridPool.get c).bind Grid.watchers with
  | none =>
    refine iff_of_false (by simp) ?_
    rintro ⟨w, hw⟩
    rw [Option.getD_none, Table.mem_keys, Table.get_empty] at hw
    cases hw
  | some watchers =>
    simp only [Table.isEmpty, Option.getD_some, Bool.not_eq_true', List.isEmpty_eq_false_iff]
    exact ⟨List.exists_mem_of_ne_nil _, fun h => List.ne_nil_of_mem h.choose_spec⟩

/-- All cells of `watch_grididx_map`. -/
theorem Placed.covers_all (h : Placed s ρ) (order : PairsOrder Id) :
    Covers s ρ (order.idxs s.watchGrididxMap.keys) where
  nodup := (order.idxs_perm _).nodup_iff.mpr (Table.keys_nodup _)
  covers c w hw hc := by
    refine absurd ((order.idxs_perm _).mem_iff.mpr ?_) hc
    rw [Table.mem_keys, h.watched]
    exact ⟨w, hw⟩

/-- The cells with watchers next to a touched cell. -/
theorem Placed.covers_touched (h : Placed s ρ) (order : PairsOrder Id) :
    Covers s ρ (s.getNeedSyncWatchGridobjsByTouch order) where
  nodup := List.nodup_dedup _
  covers c w hw hc c' hc' := by
    have hpooled : (s.gridPool.get c).isSome := by
      obtain ⟨e, he, rfl, -⟩ := hw
      exact h.pooled w e he
    by_contra ht
    refine hc ?_
    unfold getNeedSyncWatchGridobjsByTouch
    rw [List.mem_dedup, List.mem_filter, List.mem_flatMap]
    refine ⟨⟨c', ?_, mem_get9_comm hpooled hc'⟩, h.hasWatchers_iff.mpr ⟨w, hw⟩⟩
    rw [(order.idxs_perm _).mem_iff, Table.mem_keys]
    exact Option.isSome_iff_ne_none.mpr ht

/-- `aoi_update` resolves the watchers of some cells that leave out only watchers with nothing
touched around them. -/
theorem Placed.aoiUpdate (h : Placed s ρ) (order : PairsOrder Id) :
    ∃ cs, Covers s ρ cs ∧ s.aoiUpdate order = s.updateCells order cs := by
  unfold Aoi.aoiUpdate
  split
  · exact ⟨_, h.covers_all order, rfl⟩
  · exact ⟨_, h.covers_touched order, rfl⟩

end Aoi

end AntServer.Scene
