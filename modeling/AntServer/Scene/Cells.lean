/-
# AntServer.Scene.Cells — what a call does to the cells

A call that returns has changed one cell and touched it (`CellStep`), or two of them, one after the
other. What is registered under the ids is a map of its own here (`Entry`), so that the state between
the two halves of a move has its invariants too: where the watchers are and which cells are touched
(`Placed`), and where the makers are (`Tracked`).
-/
import AntServer.Scene.Resolve

namespace AntServer.Scene

open Lib (Table)

/-! ## Marks -/

def isMaker (marked : Nat) : Bool := marked &&& 0x01 != 0

def isWatcher (marked : Nat) : Bool := marked &&& 0x02 != 0

/-- A mark is none of the three, or says who is a watcher and who a maker. -/
theorem expandMarked_eq (marked : Nat) : expandMarked marked =
    if isWatcher marked || isMaker marked then some (isWatcher marked, isMaker marked) else none := rfl

/-- What is registered under an id: its cell, its mark, and the position last given. -/
structure Entry where
  cell : Int
  marked : Nat
  pos : Pos

variable {Id : Type} [DecidableEq Id]

/-! ## One cell -/

namespace Grid

omit [DecidableEq Id] in
/-- A cell without `touchs` touches nobody. -/
theorem touch_of_none {g : Grid Id} [DecidableEq Id] (h : g.touchs = none) (id : Id) :
    g.touch id = none := by
  unfold touch
  rw [h]
  rfl

/-- `touchs` by id. -/
theorem get_touchs (g : Grid Id) (id : Id) : (g.touchs.getD .empty).get id = g.touch id := by
  unfold touch
  cases g.touchs with
  | none => exact Table.get_empty id
  | some touchs => rfl

/-- `watchers` by id. -/
theorem get_watchers (g : Grid Id) (id : Id) :
    ((g.watchers.getD .empty).get id).isSome = g.watches id := by
  unfold watches
  cases g.watchers with
  | none => rw [Option.getD_none, Table.get_empty]; rfl
  | some watchers => rfl

/-- What has happened to the maker `id` since the last update has been applied to the cell. -/
def effective (g : Grid Id) (id : Id) : Option Pos :=
  match g.touch id with
  | some touch => touch.pos
  | none => g.objs.get id

/-- What the touched objects are laid over. -/
theorem get_applyTouchs (touchs : Table Id Touch) (objs : Table Id Pos) (id : Id) :
    (applyTouchs touchs objs).get id =
      match touchs.get id with
      | some touch => touch.pos
      | none => objs.get id := by
  unfold applyTouchs
  rw [Table.get_overlay, Table.get_filterMap, Table.get_filterMap]
  cases touchs.get id with
  | none => cases objs.get id <;> rfl
  | some touch => cases touch <;> cases objs.get id <;> rfl

/-- The merged objects are the effective ones. -/
theorem get_mergeObjs (g : Grid Id) (id : Id) : g.mergeObjs.get id = g.effective id := by
  unfold mergeObjs effective touch
  cases g.touchs with
  | none => rfl
  | some touchs =>
    dsimp only [Option.bind_some]
    split
    · rename_i hempty
      rw [Table.isEmpty_iff.mp hempty]
    · exact get_applyTouchs touchs g.objs id

/-- What has happened to a maker fits what the cell has of it. -/
def Fits (g : Grid Id) (id : Id) : Prop :=
  match g.touch id with
  | some (.A _) => g.objs.get id = none
  | some (.U _) | some .D => (g.objs.get id).isSome
  | none => True

/-- The entry that moving a maker within its cell leaves in `touchs`, if it may move. -/
def moved (g : Grid Id) (id : Id) (pos : Pos) : Option Touch :=
  match g.touch id with
  | some .D => none
  | some touch => some (touch.move pos)
  | none => if (g.objs.get id).isSome then some (.U pos) else none

end Grid

namespace Aoi

/-! ## A step in one cell -/

/-- A change to the makers and the watchers of one cell. -/
structure CellStep (s s' : Aoi Id) (c : Int) (g g' : Grid Id) : Prop where
  before : s.gridPool.get c = some g
  after : ∀ c', s'.gridPool.get c' = if c' = c then some g' else s.gridPool.get c'
  objs : g'.objs = g.objs
  merge : g'.merge = g.merge
  result : g'.result = g.result
  touched : ∀ c' ≠ c, s'.touchGrididxMap.get c' = s.touchGrididxMap.get c'
  watched : ∀ c' ≠ c, s'.watchGrididxMap.get c' = s.watchGrididxMap.get c'
  map : s'.map = s.map
  objidToGrididx : s'.objidToGrididx = s.objidToGrididx
  objidToMarked : s'.objidToMarked = s.objidToMarked
  last : s'.lastWatchidToGrididx = s.lastWatchidToGrididx
  touchGridResult : s'.touchGridResult = s.touchGridResult

variable {s s₁ s' : Aoi Id} {c : Int} {g g₁ g' : Grid Id}

omit [DecidableEq Id] in
/-- Two changes of one cell. -/
theorem CellStep.trans (h : CellStep s s₁ c g g₁) (h' : CellStep s₁ s' c g₁ g') :
    CellStep s s' c g g' where
  before := h.before
  after := by
    intro _
    rw [h'.after, h.after]
    split <;> rfl
  objs := h'.objs.trans h.objs
  merge := h'.merge.trans h.merge
  result := h'.result.trans h.result
  touched c' hc := (h'.touched c' hc).trans (h.touched c' hc)
  watched c' hc := (h'.watched c' hc).trans (h.watched c' hc)
  map := h'.map.trans h.map
  objidToGrididx := h'.objidToGrididx.trans h.objidToGrididx
  objidToMarked := h'.objidToMarked.trans h.objidToMarked
  last := h'.last.trans h.last
  touchGridResult := h'.touchGridResult.trans h.touchGridResult

omit [DecidableEq Id] in
/-- The cell afterwards. -/
theorem CellStep.get (h : CellStep s s' c g g') : s'.gridPool.get c = some g' := by
  rw [h.after, if_pos rfl]

omit [DecidableEq Id] in
/-- Nothing changes. -/
theorem cellStep_refl (h : s.gridPool.get c = some g) : CellStep s s c g g :=
  ⟨h, fun c' => by split <;> simp_all, rfl, rfl, rfl, fun _ _ => rfl, fun _ _ => rfl, rfl, rfl, rfl,
    rfl, rfl⟩

omit [DecidableEq Id] in
/-- The cell is written back with other `touchs` or `watchers`. -/
theorem cellStep_setGrid (g' : Grid Id) (h : s.gridPool.get c = some g) (hobjs : g'.objs = g.objs)
    (hmerge : g'.merge = g.merge) (hresult : g'.result = g.result) :
    CellStep s (s.setGrid c g') c g g' :=
  ⟨h, fun _ => Table.get_set _ _ _ _, hobjs, hmerge, hresult, fun _ _ => rfl, fun _ _ => rfl, rfl,
    rfl, rfl, rfl, rfl⟩

omit [DecidableEq Id] in
/-- `grid_touch` leaves the cell and touches it. -/
theorem cellStep_gridTouch (h : s.gridPool.get c = some g) :
    CellStep s (s.gridTouch c) c g g ∧ ((s.gridTouch c).touchGrididxMap.get c).isSome ∧
      (s.gridTouch c).watchGrididxMap = s.watchGrididxMap := by
  obtain ⟨_, hafter, _, _, _, _, _, _, _, _, _, _⟩ := cellStep_refl h
  unfold gridTouch
  split
  · rename_i hc
    exact ⟨cellStep_refl h, hc, rfl⟩
  · refine ⟨⟨h, hafter, rfl, rfl, rfl, fun c' hc => Table.get_set_ne _ _ hc, fun _ _ => rfl, rfl,
      rfl, rfl, rfl, rfl⟩, ?_, rfl⟩
    rw [Table.get_set_self]
    rfl

omit [DecidableEq Id] in
/-- `grid_watch` leaves the cell and notes or forgets that it is watched. -/
theorem cellStep_gridWatch (h : s.gridPool.get c = some g) {isRemove : Bool}
    (hdone : s.gridWatch c isRemove = .done s') :
    CellStep s s' c g g ∧ (s'.watchGrididxMap.get c).isSome = !isRemove := by
  obtain ⟨_, hafter, _, _, _, _, _, _, _, _, _, _⟩ := cellStep_refl h
  unfold gridWatch at hdone
  cases isRemove with
  | true =>
    split at hdone
    · cases hdone
      refine ⟨⟨h, hafter, rfl, rfl, rfl, fun _ _ => rfl, fun c' hc => Table.get_del_ne _ hc, rfl, rfl,
        rfl, rfl, rfl⟩, ?_⟩
      rw [Table.get_del_self]
      rfl
    · cases hdone
  | false =>
    split at hdone
    · rename_i hc
      cases hdone
      exact ⟨cellStep_refl h, hc⟩
    · cases hdone
      refine ⟨⟨h, hafter, rfl, rfl, rfl, fun _ _ => rfl, fun c' hc => Table.get_set_ne _ _ hc, rfl,
        rfl, rfl, rfl, rfl⟩, ?_⟩
      rw [Table.get_set_self]
      rfl

omit [DecidableEq Id] in
/-- A call on a cell that returns found the cell. -/
theorem withGrid_done {f : Grid Id → Outcome Id} (hdone : s.withGrid c f = .done s') :
    ∃ g, s.gridPool.get c = some g ∧ f g = .done s' := by
  unfold withGrid at hdone
  split at hdone
  · rename_i g hg
    exact ⟨g, hg, hdone⟩
  · cases hdone

/-! ## Adding, deleting and moving within a cell -/

/-- A maker is new to the cell: neither in `objs` nor touched. -/
theorem addMaker_done {id : Id} {pos : Pos} (hg : s.gridPool.get c = some g)
    (hdone : s.addMaker c g id pos = .done s') :
    g.objs.get id = none ∧ g.touch id = none ∧ s'.watchGrididxMap = s.watchGrididxMap ∧
      ∃ g', CellStep s s' c g g' ∧ (∀ w, g'.watches w = g.watches w) ∧
        ∀ k, g'.touch k = if k = id then some (.A pos) else g.touch k := by
  unfold addMaker at hdone
  split at hdone
  · cases hdone
  · rename_i hobjs
    split at hdone
    · cases hdone
    · rename_i htouch
      cases hdone
      refine ⟨by simpa using hobjs, by simpa using htouch, rfl, _,
        cellStep_setGrid _ hg rfl rfl rfl, fun _ => rfl, fun k => ?_⟩
      rw [← g.get_touchs k, ← Table.get_set]
      rfl

/-- A watcher is new to the cell. -/
theorem addWatcher_done {id : Id} (hg : s.gridPool.get c = some g)
    (hdone : s.addWatcher c g id = .done s') :
    g.watches id = false ∧ (s'.watchGrididxMap.get c).isSome ∧
      ∃ g', CellStep s s' c g g' ∧ (∀ w, g'.watches w = (g.watches w || decide (w = id))) ∧
        ∀ k, g'.touch k = g.touch k := by
  unfold addWatcher at hdone
  dsimp only at hdone
  split at hdone
  · cases hdone
  · rename_i hw
    rw [g.get_watchers, Bool.not_eq_true] at hw
    have hset := cellStep_setGrid { g with watchers := some ((g.watchers.getD .empty).set id ()) } hg
      rfl rfl rfl
    obtain ⟨hstep, hwatched⟩ := cellStep_gridWatch hset.get hdone
    refine ⟨hw, by simpa using hwatched, _, hset.trans hstep, fun w => ?_, fun _ => rfl⟩
    rw [← Grid.get_watchers, ← Grid.get_watchers, Option.getD_some, Table.get_set]
    by_cases h : w = id
    · simp [h]
    · simp [h]

/-- The maker's part of adding an object, if it is one. -/
theorem makerPart_done {id : Id} {isMaker : Bool} {pos : Pos} (hg : s.gridPool.get c = some g)
    (hdone : (if isMaker then s.withGrid c fun g => s.addMaker c g id pos else .done s) = .done s') :
    (isMaker = true → g.objs.get id = none ∧ g.touch id = none) ∧
      s'.watchGrididxMap = s.watchGrididxMap ∧
      ∃ g', CellStep s s' c g g' ∧ (∀ w, g'.watches w = g.watches w) ∧
        ∀ k, g'.touch k = if isMaker ∧ k = id then some (.A pos) else g.touch k := by
  cases isMaker with
  | false =>
    cases hdone
    exact ⟨nofun, rfl, g, cellStep_refl hg, fun _ => rfl, fun k => by simp⟩
  | true =>
    obtain ⟨g₀, hg₀, hdone⟩ := withGrid_done hdone
    cases hg.symm.trans hg₀
    obtain ⟨hobjs, htouch, hwatch, g', hstep, hw, ht⟩ := addMaker_done hg hdone
    exact ⟨fun _ => ⟨hobjs, htouch⟩, hwatch, g', hstep, hw, fun k => by simp [ht k]⟩

/-- The watcher's part, if it is one. -/
theorem watcherPart_done {id : Id} {isWatcher : Bool} (hg : s.gridPool.get c = some g)
    (hdone : (if isWatcher then s.withGrid c fun g => s.addWatcher c g id else .done s) = .done s') :
    (isWatcher = true → g.watches id = false) ∧
      ((s'.watchGrididxMap.get c).isSome ↔ (s.watchGrididxMap.get c).isSome ∨ isWatcher) ∧
      ∃ g', CellStep s s' c g g' ∧
        (∀ w, g'.watches w = (g.watches w || (isWatcher && decide (w = id)))) ∧
        ∀ k, g'.touch k = g.touch k := by
  cases isWatcher with
  | false =>
    cases hdone
    exact ⟨nofun, by simp, g, cellStep_refl hg, fun w => by simp, fun _ => rfl⟩
  | true =>
    obtain ⟨g₀, hg₀, hdone⟩ := withGrid_done hdone
    cases hg.symm.trans hg₀
    obtain ⟨hfree, hwatch, g', hstep, hw, ht⟩ := addWatcher_done hg hdone
    exact ⟨fun _ => hfree, by simp [hwatch], g', hstep, fun w => by simp [hw w], ht⟩

/-- What adding an object to a cell has done. -/
theorem gridAdd_done {id : Id} {marked : Nat} {pos : Pos}
    (hdone : s.gridAdd c id marked pos = .done s') :
    ∃ g g', CellStep s s' c g g' ∧ (s'.touchGrididxMap.get c).isSome ∧
      (isWatcher marked || isMaker marked) = true ∧
      (isMaker marked = true → g.objs.get id = none ∧ g.touch id = none) ∧
      (isWatcher marked = true → g.watches id = false) ∧
      (∀ w, g'.watches w = (g.watches w || (isWatcher marked && decide (w = id)))) ∧
      (∀ k, g'.touch k = if isMaker marked ∧ k = id then some (.A pos) else g.touch k) ∧
      ((s'.watchGrididxMap.get c).isSome ↔ (s.watchGrididxMap.get c).isSome ∨ isWatcher marked) := by
  unfold gridAdd at hdone
  rw [expandMarked_eq] at hdone
  by_cases hmark : (isWatcher marked || isMaker marked) = true
  case neg =>
    rw [if_neg hmark] at hdone
    cases hdone
  rw [if_pos hmark] at hdone
  obtain ⟨s₁, hmaker, hdone⟩ := Outcome.andThen_eq_done.mp hdone
  obtain ⟨s₂, hwatcher, hdone⟩ := Outcome.andThen_eq_done.mp hdone
  cases hdone
  obtain ⟨g, hg⟩ : ∃ g, s.gridPool.get c = some g := by
    by_cases hm : isMaker marked = true
    · rw [if_pos hm] at hmaker
      obtain ⟨g, hg, -⟩ := withGrid_done hmaker
      exact ⟨g, hg⟩
    · have hw : isWatcher marked = true := by simpa [hm] using hmark
      rw [if_neg hm] at hmaker
      cases hmaker
      rw [if_pos hw] at hwatcher
      obtain ⟨g, hg, -⟩ := withGrid_done hwatcher
      exact ⟨g, hg⟩
  obtain ⟨hfree, hwatch₁, g₁, hstep₁, hw₁, ht₁⟩ := makerPart_done hg hmaker
  obtain ⟨hnew, hwatch₂, g₂, hstep₂, hw₂, ht₂⟩ := watcherPart_done hstep₁.get hwatcher
  obtain ⟨hstep₃, htouched, hwatch₃⟩ := cellStep_gridTouch hstep₂.get
  refine ⟨g, g₂, (hstep₁.trans hstep₂).trans hstep₃, htouched, hmark, hfree, fun hw => ?_,
    fun w => ?_, fun k => ?_, ?_⟩
  · rw [← hw₁]
    exact hnew hw
  · rw [hw₂, hw₁]
  · rw [ht₂, ht₁]
  · rw [hwatch₃, hwatch₂, hwatch₁]

/-! ### Deleting -/

/-- A maker that the last update knew leaves a D behind, another one nothing. -/
theorem deleteMaker_spec (g : Grid Id) (id : Id) :
    (g.deleteMaker id).1.objs = g.objs ∧ (g.deleteMaker id).1.merge = g.merge ∧
      (g.deleteMaker id).1.result = g.result ∧
      (∀ w, (g.deleteMaker id).1.watches w = g.watches w) ∧
      (∀ k, (g.deleteMaker id).1.touch k =
        if k = id then if (g.objs.get id).isSome then some .D else none else g.touch k) ∧
      ((g.deleteMaker id).2 = true ↔ (g.objs.get id).isSome ∨ (g.touch id).isSome) := by
  unfold Grid.deleteMaker
  split
  · rename_i hobjs
    refine ⟨rfl, rfl, rfl, fun _ => rfl, fun k => ?_, by simp [hobjs]⟩
    rw [← g.get_touchs k, ← Table.get_set]
    rfl
  · rename_i hobjs
    split
    · rename_i htouch
      refine ⟨rfl, rfl, rfl, fun _ => rfl, fun k => ?_, by simp [htouch]⟩
      unfold Grid.touch
      cases g.touchs with
      | none => simp
      | some touchs => exact Table.get_del touchs id k
    · rename_i htouch
      refine ⟨rfl, rfl, rfl, fun _ => rfl, fun k => ?_, by simp [hobjs, htouch]⟩
      split
      · rename_i hk
        rw [hk]
        simpa using htouch
      · rfl

/-- A watcher leaves; the cell is no longer watched when it was the last one. -/
theorem deleteWatcher_done {id : Id} {found : Bool} (hg : s.gridPool.get c = some g)
    (hdone : s.deleteWatcher c g id found = .done s') :
    (found = true ∨ g.watches id = true) ∧ ∃ g', CellStep s s' c g g' ∧
      (∀ w, g'.watches w = (g.watches w && decide (w ≠ id))) ∧ (∀ k, g'.touch k = g.touch k) ∧
      ((s'.watchGrididxMap.get c).isSome ↔
        (s.watchGrididxMap.get c).isSome ∧ ¬ (g.watches id = true ∧ ∀ w, g'.watches w = false)) := by
  -- An object that is no watcher of the cell.
  have hskip : g.watches id = false → found = true → s' = s →
      (found = true ∨ g.watches id = true) ∧ ∃ g', CellStep s s' c g g' ∧
        (∀ w, g'.watches w = (g.watches w && decide (w ≠ id))) ∧ (∀ k, g'.touch k = g.touch k) ∧
        ((s'.watchGrididxMap.get c).isSome ↔
          (s.watchGrididxMap.get c).isSome ∧
            ¬ (g.watches id = true ∧ ∀ w, g'.watches w = false)) := by
    rintro hw hfound rfl
    refine ⟨.inl hfound, g, cellStep_refl hg, fun w => ?_, fun _ => rfl, by simp [hw]⟩
    by_cases h : w = id
    · simp [h, hw]
    · simp [h]
  unfold deleteWatcher at hdone
  split at hdone
  · rename_i watchers hwatchers
    have hwatches : ∀ w, g.watches w = (watchers.get w).isSome := fun w => by
      unfold Grid.watches
      rw [hwatchers]
      rfl
    split at hdone
    · rename_i hid
      dsimp only at hdone
      have hset := cellStep_setGrid { g with watchers := some (watchers.del id) } hg rfl rfl rfl
      have hw' : ∀ w, ({ g with watchers := some (watchers.del id) } : Grid Id).watches w =
          (g.watches w && decide (w ≠ id)) := by
        intro w
        rw [hwatches]
        change ((watchers.del id).get w).isSome = _
        rw [Table.get_del]
        by_cases h : w = id
        · simp [h]
        · simp [h]
      have hempty : (watchers.del id).isEmpty = true ↔
          ∀ w, ({ g with watchers := some (watchers.del id) } : Grid Id).watches w = false := by
        rw [Table.isEmpty_iff]
        refine forall_congr' fun w => ?_
        change _ ↔ ((watchers.del id).get w).isSome = false
        simp
      split at hdone
      · rename_i he
        obtain ⟨hstep, hwatched⟩ := cellStep_gridWatch hset.get hdone
        refine ⟨.inr (by rw [hwatches]; exact hid), _, hset.trans hstep, hw', fun _ => rfl, ?_⟩
        exact iff_of_false (by simp [hwatched]) fun h =>
          h.2 ⟨by rw [hwatches]; exact hid, hempty.mp he⟩
      · rename_i he
        cases hdone
        refine ⟨.inr (by rw [hwatches]; exact hid), _, hset, hw', fun _ => rfl, ?_⟩
        exact ⟨fun h => ⟨h, fun hn => he (hempty.mpr hn.2)⟩, And.left⟩
    · rename_i hid
      split at hdone
      · rename_i hfound
        cases hdone
        exact hskip (by rw [hwatches]; simpa using hid) hfound rfl
      · cases hdone
  · rename_i hwatchers
    split at hdone
    · rename_i hfound
      cases hdone
      exact hskip (by unfold Grid.watches; rw [hwatchers]; rfl) hfound rfl
    · cases hdone

/-- What deleting an object from a cell has done. -/
theorem gridDelete_done {id : Id} (hdone : s.gridDelete c id = .done s') :
    ∃ g g', CellStep s s' c g g' ∧ (s'.touchGrididxMap.get c).isSome ∧
      (∀ w, g'.watches w = (g.watches w && decide (w ≠ id))) ∧
      (∀ k, g'.touch k =
        if k = id then if (g.objs.get id).isSome then some .D else none else g.touch k) ∧
      ((s'.watchGrididxMap.get c).isSome ↔
        (s.watchGrididxMap.get c).isSome ∧ ¬ (g.watches id = true ∧ ∀ w, g'.watches w = false)) ∧
      ((g.objs.get id).isSome ∨ (g.touch id).isSome ∨ g.watches id = true) := by
  obtain ⟨g, hg, hdone⟩ := withGrid_done hdone
  obtain ⟨s₁, hdelete, hdone⟩ := Outcome.andThen_eq_done.mp hdone
  cases hdone
  obtain ⟨hobjs, hmerge, hresult, hw₁, ht₁, hfound⟩ := deleteMaker_spec g id
  have hstep₁ := cellStep_setGrid _ hg hobjs hmerge hresult
  obtain ⟨hfound₂, g₂, hstep₂, hw₂, ht₂, hwatch₂⟩ := deleteWatcher_done hstep₁.get hdelete
  obtain ⟨hstep₃, htouched, hwatch₃⟩ := cellStep_gridTouch hstep₂.get
  refine ⟨g, g₂, (hstep₁.trans hstep₂).trans hstep₃, htouched, fun w => ?_, fun k => ?_, ?_, ?_⟩
  · rw [hw₂, hw₁]
  · rw [ht₂, ht₁]
  · rw [hwatch₃, hwatch₂, hw₁]
    rfl
  · rwa [hfound, hw₁, or_assoc] at hfound₂

/-! ### Moving -/

/-- `grid_update` by what the cell has of the object. -/
theorem gridUpdate_eq (hg : s.gridPool.get c = some g) (id : Id) (pos : Pos) :
    match g.moved id pos with
    | some touch => s.gridUpdate c id pos = .done ((s.setGrid c
        { g with touchs := some ((g.touchs.getD .empty).set id touch) }).gridTouch c)
    | none => (s.gridUpdate c id pos).isDone = false := by
  unfold gridUpdate withGrid Grid.moved
  simp only [hg, g.get_touchs]
  cases g.touch id with
  | none => by_cases hobjs : (g.objs.get id).isSome = true <;> simp [hobjs, Outcome.isDone]
  | some touch =>
    cases touch <;> by_cases hobjs : (g.objs.get id).isSome = true <;> simp [hobjs, Outcome.isDone]

/-- Who is in the cell can move in it. -/
theorem moved_isSome (g : Grid Id) (id : Id) (pos : Pos) :
    (g.moved id pos).isSome = (g.effective id).isSome := by
  unfold Grid.moved Grid.effective
  cases g.touch id with
  | none => cases g.objs.get id <;> rfl
  | some touch => cases touch <;> rfl

/-- The touch of a move has the new position, and fits `objs` if the one before did. -/
theorem moved_spec (g' : Grid Id) {id : Id} {pos : Pos} {touch : Touch} (h : g.moved id pos = some touch) :
    touch.pos = some pos ∧
      (g'.objs = g.objs → g'.touch id = some touch → g.Fits id → g'.Fits id) := by
  unfold Grid.moved at h
  unfold Grid.Fits
  cases ht : g.touch id with
  | none =>
    rw [ht] at h
    obtain ⟨hobjs, hu⟩ := Option.ite_none_right_eq_some.mp h
    cases hu
    refine ⟨rfl, fun hsame ht' _ => ?_⟩
    rw [ht', hsame]
    exact hobjs
  | some t =>
    rw [ht] at h
    cases t with
    | D => cases h
    | A p =>
      cases h
      refine ⟨rfl, fun hsame ht' hfit => ?_⟩
      rw [ht', hsame]
      exact hfit
    | U p =>
      cases h
      refine ⟨rfl, fun hsame ht' hfit => ?_⟩
      rw [ht', hsame]
      exact hfit

/-- What moving a maker within its cell has done. -/
theorem gridUpdate_done {id : Id} {pos : Pos} (hdone : s.gridUpdate c id pos = .done s') :
    ∃ g g' touch, CellStep s s' c g g' ∧ (s'.touchGrididxMap.get c).isSome ∧
      (∀ w, g'.watches w = g.watches w) ∧
      (∀ k, g'.touch k = if k = id then some touch else g.touch k) ∧
      g.moved id pos = some touch ∧ s'.watchGrididxMap = s.watchGrididxMap := by
  obtain ⟨g, hg, -⟩ := withGrid_done hdone
  have heq := gridUpdate_eq hg id pos
  cases hm : g.moved id pos with
  | none =>
    rw [hm, hdone] at heq
    cases heq
  | some touch =>
    rw [hm, hdone] at heq
    cases heq
    have hset := cellStep_setGrid { g with touchs := some ((g.touchs.getD .empty).set id touch) } hg
      rfl rfl rfl
    obtain ⟨hstep, htouched, hwatch⟩ := cellStep_gridTouch hset.get
    refine ⟨g, _, touch, hset.trans hstep, htouched, fun _ => rfl, fun k => ?_, hm, hwatch⟩
    rw [← g.get_touchs k, ← Table.get_set]
    rfl

/-- `grid_update` returns for the objects of the cell. -/
theorem gridUpdate_isDone (hg : s.gridPool.get c = some g) (id : Id) (pos : Pos) :
    (s.gridUpdate c id pos).isDone = (g.effective id).isSome := by
  have heq := gridUpdate_eq hg id pos
  rw [← moved_isSome g id pos]
  cases hm : g.moved id pos with
  | none => rw [hm] at heq; exact heq
  | some touch => rw [hm] at heq; rw [heq]; rfl

/-! ## When a call returns -/

omit [DecidableEq Id] in
/-- A cell can always be watched. -/
theorem gridWatch_add (s : Aoi Id) (c : Int) : ∃ s', s.gridWatch c false = .done s' := by
  unfold gridWatch
  split <;> exact ⟨_, rfl⟩

/-- Adding an object to a cell. -/
theorem gridAdd_isDone (hg : s.gridPool.get c = some g) (id : Id) (marked : Nat) (pos : Pos) :
    (s.gridAdd c id marked pos).isDone = true ↔
      (isWatcher marked || isMaker marked) = true ∧
        (isMaker marked = true → g.objs.get id = none ∧ g.touch id = none) ∧
        (isWatcher marked = true → g.watches id = false) := by
  constructor
  · intro h
    obtain ⟨s', hdone⟩ := Outcome.eq_done_of_isDone h
    obtain ⟨g₀, g', hstep, -, hmark, hfree, hnew, -⟩ := gridAdd_done hdone
    cases hg.symm.trans hstep.before
    exact ⟨hmark, hfree, hnew⟩
  · rintro ⟨hmark, hfree, hnew⟩
    have hmaker : ∃ s₁, (if isMaker marked then s.withGrid c fun g => s.addMaker c g id pos
        else .done s) = .done s₁ := by
      split
      · rename_i hm
        unfold withGrid addMaker
        simp only [hg, (hfree hm).1, (hfree hm).2]
        exact ⟨_, rfl⟩
      · exact ⟨s, rfl⟩
    obtain ⟨s₁, hs₁⟩ := hmaker
    obtain ⟨-, -, g₁, hstep₁, hw₁, -⟩ := makerPart_done hg hs₁
    have hwatcher : ∃ s₂, (if isWatcher marked then s₁.withGrid c fun g => s₁.addWatcher c g id
        else .done s₁) = .done s₂ := by
      split
      · rename_i hw
        unfold withGrid addWatcher
        simp only [hstep₁.get, g₁.get_watchers, hw₁ id, hnew hw, Bool.false_eq_true, if_false]
        exact gridWatch_add _ c
      · exact ⟨s₁, rfl⟩
    obtain ⟨s₂, hs₂⟩ := hwatcher
    unfold gridAdd
    rw [expandMarked_eq, if_pos hmark]
    dsimp only
    rw [hs₁, Outcome.done_andThen, hs₂]
    rfl

/-- Deleting an object from a cell. -/
theorem gridDelete_isDone (hg : s.gridPool.get c = some g) {id : Id}
    (hwatched : g.watches id = true → (s.watchGrididxMap.get c).isSome) :
    (s.gridDelete c id).isDone = true ↔
      (g.objs.get id).isSome ∨ (g.touch id).isSome ∨ g.watches id = true := by
  constructor
  · intro h
    obtain ⟨s', hdone⟩ := Outcome.eq_done_of_isDone h
    obtain ⟨g₀, g', hstep, -, -, -, -, hfound⟩ := gridDelete_done hdone
    cases hg.symm.trans hstep.before
    exact hfound
  intro hfound
  obtain ⟨-, -, -, hw₁, -, hfound₁⟩ := deleteMaker_spec g id
  have hdelete : ∃ s₁, (s.setGrid c (g.deleteMaker id).1).deleteWatcher c (g.deleteMaker id).1 id
      (g.deleteMaker id).2 = .done s₁ := by
    have hnot : g.watches id = false → (g.deleteMaker id).2 = true := by
      intro hn
      rw [hfound₁]
      simpa [hn] using hfound
    unfold deleteWatcher gridWatch
    have hwid := hw₁ id
    unfold Grid.watches at hwid
    cases hwatchers : (g.deleteMaker id).1.watchers with
    | none =>
      rw [hwatchers] at hwid
      exact ⟨_, if_pos (hnot hwid.symm)⟩
    | some watchers =>
      rw [hwatchers, Option.bind_some] at hwid
      dsimp only
      split
      · rename_i hid
        split
        · split
          · exact ⟨_, rfl⟩
          · rename_i hnone
            exact absurd (hwatched (hwid.symm.trans hid)) hnone
        · exact ⟨_, rfl⟩
      · rename_i hid
        exact ⟨_, if_pos (hnot (hwid.symm.trans (Bool.not_eq_true _ ▸ hid)))⟩
  obtain ⟨s₁, hs₁⟩ := hdelete
  unfold gridDelete withGrid
  simp only [hg]
  rw [hs₁]
  rfl

end Aoi

end AntServer.Scene
