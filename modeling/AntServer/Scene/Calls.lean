/-
# AntServer.Scene.Calls — which calls return, and what a call that raises leaves

A call should return when it is about an object that may be added, set or removed, at a position inside
the map; one that should not raises before it has changed anything. `aoi_set` into another cell is a
deletion followed by an addition, and the addition can raise: a maker cannot come into a cell that
still has it in `objs`, because it left there since the last update. Setting an object within its
cell is for makers only (`Sound`, `Allowed`).
-/
import AntServer.Scene.World

namespace AntServer.Scene

open Lib (Table Machine)

variable {Id : Type} [DecidableEq Id]

namespace Aoi

/-! ## Calls -/

/-- A call on an area of interest. -/
def call (s : Aoi Id) : Op Id → Outcome Id
  | .add id marked pos => s.aoiAdd id marked pos
  | .remove id => s.aoiRemove id
  | .set id pos => s.aoiSet id pos
  | .update order => .done (s.aoiUpdate order).1

/-- The calls that should return. -/
def Due (s : Aoi Id) : Op Id → Prop
  | .add id _ pos => s.objidToGrididx.get id = none ∧ s.map.Inside pos
  | .remove id => (s.objidToGrididx.get id).isSome
  | .set id pos => (s.objidToGrididx.get id).isSome ∧ s.map.Inside pos
  | .update _ => True

/-- The call returns if it should, and leaves everything as it was if it raises. -/
def Sound (s : Aoi Id) (op : Op Id) : Prop :=
  (s.Due op → (s.call op).isDone = true) ∧ ∀ e s', s.call op = .raised e s' → s' = s

/-! ## What a move needs -/

/-- An object with this mark can come into the cell: if it is a maker, it was not there at the last
update. -/
def Enters (s : Aoi Id) (c : Int) (id : Id) (marked : Nat) : Prop :=
  isMaker marked = true → s.objAt c id = none

/-- An object with this mark can leave the cell: it is a watcher, or the cell knows the maker. -/
def Leaves (s : Aoi Id) (c : Int) (id : Id) (marked : Nat) : Prop :=
  isWatcher marked = true ∨ (s.objAt c id).isSome ∨ (s.touchAt c id).isSome

/-- The calls that return if they should. -/
def Allowed (s : Aoi Id) : Op Id → Prop
  | .add id marked pos => s.objidToGrididx.get id = none → s.map.Inside pos →
      (isWatcher marked || isMaker marked) = true ∧ s.Enters (s.map.gridIdx pos) id marked
  | .remove id => ∀ cur ∈ s.objidToGrididx.get id, s.Leaves cur id (s.mark id)
  | .set id pos => s.map.Inside pos → ∀ cur ∈ s.objidToGrididx.get id,
      if s.map.gridIdx pos = cur then (s.effectiveAt cur id).isSome
      else s.Leaves cur id (s.mark id) ∧ s.Enters (s.map.gridIdx pos) id (s.mark id)
  | .update _ => True

variable {s s₁ : Aoi Id} {ρ : Registry Id} {given : Table Id Pos} {c : Int} {id : Id}

/-! ## The halves of a move -/

/-- An object that is not registered comes into a cell. -/
theorem Placed.gridAdd_isDone (h : Placed s ρ) (hfree : ρ id = none)
    (hc : (s.gridPool.get c).isSome) (marked : Nat) (pos : Pos) :
    (s.gridAdd c id marked pos).isDone = true ↔
      (isWatcher marked || isMaker marked) = true ∧ s.Enters c id marked := by
  obtain ⟨g, hg⟩ := Option.isSome_iff_exists.mp hc
  have hnew : g.watches id = false := by
    by_contra hw
    obtain ⟨e, he, -⟩ := (h.watchers c g hg id).mp (by simpa using hw)
    rw [hfree] at he
    cases he
  have htouch : g.objs.get id = none → g.touch id = none := by
    intro hobjs
    by_contra ht
    have hknown := h.known c g hg id (Option.isSome_iff_ne_none.mpr ht)
    unfold Registry.makerAt at hknown
    rw [hobjs, hfree] at hknown
    simp at hknown
  rw [Aoi.gridAdd_isDone hg]
  unfold Enters
  rw [objAt_eq hg]
  refine and_congr_right fun _ => ⟨fun hm hmaker => (hm.1 hmaker).1, fun hm => ⟨fun hmaker => ?_, ?_⟩⟩
  · exact ⟨hm hmaker, htouch (hm hmaker)⟩
  · exact fun _ => hnew

/-- A registered object leaves its cell. -/
theorem Placed.gridDelete_isDone (h : Placed s ρ) {e : Entry} (he : ρ id = some e) :
    (s.gridDelete e.cell id).isDone = true ↔ s.Leaves e.cell id e.marked := by
  obtain ⟨g, hg⟩ := Option.isSome_iff_exists.mp (h.pooled id e he)
  have hwatches : g.watches id = true ↔ isWatcher e.marked = true := by
    rw [h.watchers _ g hg]
    unfold Registry.WatcherAt
    simp [he]
  have hwatched : g.watches id = true → (s.watchGrididxMap.get e.cell).isSome := by
    intro hw
    rw [h.watched]
    exact ⟨id, (h.watchers _ g hg id).mp hw⟩
  rw [Aoi.gridDelete_isDone hg hwatched, hwatches]
  unfold Leaves objAt touchAt
  rw [hg, Option.bind_some, Option.bind_some]
  tauto

omit [DecidableEq Id] in
/-- Making the cell of a position changes nothing that is in the cells. -/
theorem objAt_getGridobjByPos {pos : Pos} (h : s.getGridobjByPos pos = some (c, s₁)) (c' : Int)
    [DecidableEq Id] (id : Id) : s₁.objAt c' id = s.objAt c' id ∧ s₁.touchAt c' id = s.touchAt c' id := by
  obtain ⟨-, -, ⟨-, rfl⟩ | ⟨hc, rfl⟩⟩ := getGridobjByPos_eq h
  · exact ⟨rfl, rfl⟩
  · unfold objAt touchAt setGrid
    rw [Table.get_set]
    split
    · rename_i hc'
      rw [hc', hc]
      exact ⟨Table.get_empty id, rfl⟩
    · exact ⟨rfl, rfl⟩

/-! ## When a call is sound -/

omit [DecidableEq Id] in
theorem getGridobjByPos_inside {pos : Pos} (h : s.map.Inside pos) :
    ∃ s₁, s.getGridobjByPos pos = some (s.map.gridIdx pos, s₁) := by
  unfold getGridobjByPos
  rw [if_pos h]
  dsimp only
  split <;> exact ⟨_, rfl⟩

omit [DecidableEq Id] in
theorem getGridobjByPos_outside {pos : Pos} (h : ¬ s.map.Inside pos) :
    s.getGridobjByPos pos = none := if_neg h

/-- A call that should return is sound if it does. -/
theorem sound_of_due {op : Op Id} (h : s.Due op) : s.Sound op ↔ (s.call op).isDone = true := by
  refine ⟨fun hs => hs.1 h, fun hdone => ⟨fun _ => hdone, fun e s' hraised => ?_⟩⟩
  rw [hraised] at hdone
  cases hdone

/-- A call that should not return raises, and has changed nothing. -/
theorem sound_of_not_due {op : Op Id} (h : ¬ s.Due op) : s.Sound op := by
  refine ⟨fun hd => absurd hd h, fun e s' hraised => ?_⟩
  cases op with
  | add id marked pos =>
    unfold call aoiAdd at hraised
    dsimp only at hraised
    split at hraised
    · cases hraised
      rfl
    · rename_i hnone
      rw [getGridobjByPos_outside fun hin => h ⟨hnone, hin⟩] at hraised
      cases hraised
      rfl
  | remove id =>
    unfold call aoiRemove at hraised
    dsimp only at hraised
    split at hraised
    · cases hraised
      rfl
    · rename_i c hc
      exact absurd (Option.isSome_iff_exists.mpr ⟨c, hc⟩) h
  | set id pos =>
    unfold call aoiSet at hraised
    dsimp only at hraised
    split at hraised
    · cases hraised
      rfl
    · rename_i c hc
      rw [getGridobjByPos_outside fun hin => h ⟨Option.isSome_iff_exists.mpr ⟨c, hc⟩, hin⟩] at hraised
      cases hraised
      rfl
  | update order => cases hraised

theorem Placed.add_isDone (h : Placed s ρ) (hr : Registered s given ρ) {marked : Nat} {pos : Pos}
    (hid : s.objidToGrididx.get id = none) (hin : s.map.Inside pos) :
    (s.aoiAdd id marked pos).isDone = true ↔
      (isWatcher marked || isMaker marked) = true ∧ s.Enters (s.map.gridIdx pos) id marked := by
  obtain ⟨s₁, hcell⟩ := getGridobjByPos_inside hin
  unfold Aoi.aoiAdd
  rw [hid]
  dsimp only
  rw [hcell]
  dsimp only
  rw [Outcome.isDone_andThen]
  refine Iff.trans ?_ (((h.getGridobjByPos hcell).gridAdd_isDone (hr.free hid)
    (getGridobjByPos_pooled hcell) marked pos).trans ?_)
  · exact ⟨fun hd => hd.choose_spec.1 ▸ rfl, fun hd => (Outcome.eq_done_of_isDone hd).imp
      fun _ hs => ⟨hs, rfl⟩⟩
  · unfold Enters
    rw [(objAt_getGridobjByPos hcell _ id).1]

theorem Placed.remove_isDone (h : Placed s ρ) (hr : Registered s given ρ)
    (hid : s.objidToGrididx.get id = some c) :
    (s.aoiRemove id).isDone = true ↔ s.Leaves c id (s.mark id) := by
  obtain ⟨e, he, rfl⟩ := hr.entry hid
  have hmark : s.mark id = e.marked := by
    unfold mark
    rw [hr.marked, he]
    rfl
  unfold Aoi.aoiRemove
  rw [hid]
  dsimp only
  rw [Outcome.isDone_andThen, hmark, ← h.gridDelete_isDone he]
  exact ⟨fun hd => hd.choose_spec.1 ▸ rfl, fun hd => (Outcome.eq_done_of_isDone hd).imp
    fun _ hs => ⟨hs, rfl⟩⟩

theorem Placed.set_isDone (h : Placed s ρ) (hr : Registered s given ρ) {pos : Pos}
    (hid : s.objidToGrididx.get id = some c) (hin : s.map.Inside pos) :
    (s.aoiSet id pos).isDone = true ↔
      if s.map.gridIdx pos = c then (s.effectiveAt c id).isSome = true
      else s.Leaves c id (s.mark id) ∧ s.Enters (s.map.gridIdx pos) id (s.mark id) := by
  obtain ⟨s₁, hcell⟩ := getGridobjByPos_inside hin
  obtain ⟨e, he, rfl⟩ := hr.entry hid
  have hmark : s.mark id = e.marked := by
    unfold mark
    rw [hr.marked, he]
    rfl
  unfold Aoi.aoiSet
  rw [hid]
  dsimp only
  rw [hcell]
  dsimp only
  split
  · rename_i hc
    obtain ⟨g, hg⟩ := Option.isSome_iff_exists.mp (h.pooled id e he)
    obtain ⟨-, -, ⟨-, rfl⟩ | ⟨hnone, -⟩⟩ := getGridobjByPos_eq hcell
    · rw [hc, gridUpdate_isDone hg]
      unfold effectiveAt
      rw [hg]
      rfl
    · rw [hc, hg] at hnone
      cases hnone
  · rename_i hc
    have hplaced := h.getGridobjByPos hcell
    have hmarked : s₁.objidToMarked = s.objidToMarked := (getGridobjByPos_rest hcell).2.1
    have hleaves : s₁.Leaves e.cell id e.marked ↔ s.Leaves e.cell id e.marked := by
      unfold Leaves
      rw [(objAt_getGridobjByPos hcell _ id).1, (objAt_getGridobjByPos hcell _ id).2]
    have hdeleted : ∀ e' ∈ ρ id, e'.cell = e.cell := by simp [he]
    -- What the addition finds in the other cell is what was there before the deletion.
    have hadd : ∀ s₂, s₁.gridDelete e.cell id = .done s₂ →
        ((s₂.gridAdd (s.map.gridIdx pos) id ((s₂.objidToMarked.get id).getD 0) pos).isDone = true ↔
          s.Enters (s.map.gridIdx pos) id e.marked) := by
      intro s₂ hdelete
      obtain ⟨g, g', hstep, -⟩ := gridDelete_done hdelete
      have hmark₂ : (s₂.objidToMarked.get id).getD 0 = e.marked := by
        rw [hstep.objidToMarked, hmarked]
        exact hmark
      have hobj : s₂.objAt (s.map.gridIdx pos) id = s.objAt (s.map.gridIdx pos) id := by
        rw [← (objAt_getGridobjByPos hcell _ id).1]
        unfold objAt
        rw [hstep.after, if_neg hc]
      rw [hmark₂, (hplaced.gridDelete hdeleted hdelete).gridAdd_isDone (Registry.put_self ..)
        (hstep.pooled (getGridobjByPos_pooled hcell))]
      unfold Enters
      rw [hobj]
      exact and_iff_right (h.marked id e he)
    rw [hmark, ← hleaves, ← hplaced.gridDelete_isDone he, Outcome.isDone_andThen]
    constructor
    · rintro ⟨s₂, hdelete, hd⟩
      obtain ⟨s₃, hs₃, -⟩ := Outcome.isDone_andThen.mp hd
      exact ⟨by rw [hdelete]; rfl, (hadd s₂ hdelete).mp (by rw [hs₃]; rfl)⟩
    · rintro ⟨hd, henters⟩
      obtain ⟨s₂, hdelete⟩ := Outcome.eq_done_of_isDone hd
      obtain ⟨s₃, hs₃⟩ := Outcome.eq_done_of_isDone ((hadd s₂ hdelete).mpr henters)
      exact ⟨s₂, hdelete, by rw [hs₃]; rfl⟩

end Aoi

/-- A call on a reachable area of interest is sound if and only if it is allowed. -/
theorem World.call_sound {w : World Id} (h : (scene Id).Reach w) (op : Op Id) :
    w.aoi.Sound op ↔ w.aoi.Allowed op := by
  obtain ⟨ρ, hheld⟩ := World.reach_held h
  obtain ⟨hplaced, hr⟩ := hheld
  by_cases hdue : w.aoi.Due op
  · rw [Aoi.sound_of_due hdue]
    cases op with
    | add id marked pos =>
      unfold Aoi.call Aoi.Allowed
      rw [hplaced.add_isDone hr hdue.1 hdue.2]
      simp [hdue.1, hdue.2]
    | remove id =>
      obtain ⟨c, hc⟩ := Option.isSome_iff_exists.mp hdue
      unfold Aoi.call Aoi.Allowed
      rw [hplaced.remove_isDone hr hc]
      simp [hc]
    | set id pos =>
      obtain ⟨c, hc⟩ := Option.isSome_iff_exists.mp hdue.1
      unfold Aoi.call Aoi.Allowed
      rw [hplaced.set_isDone hr hc hdue.2]
      simp [hc, hdue.2]
    | update order => simp [Aoi.call, Aoi.Allowed, Outcome.isDone]
  · refine iff_of_true (Aoi.sound_of_not_due hdue) ?_
    cases op with
    | add id marked pos => exact fun hid hin => absurd ⟨hid, hin⟩ hdue
    | remove id => exact fun c hc => absurd (Option.isSome_iff_exists.mpr ⟨c, hc⟩) hdue
    | set id pos => exact fun hin c hc => absurd ⟨Option.isSome_iff_exists.mpr ⟨c, hc⟩, hin⟩ hdue
    | update order => trivial

/-- A maker moves out of its cell and back. -/
theorem World.call_sound_row : ∃ w : World Nat, w.aoi.Allowed (.set 0 ⟨1, 0⟩) ∧
    w.aoi.Sound (.set 0 ⟨1, 0⟩) ∧ (w.aoi.call (.set 0 ⟨1, 0⟩)).isDone = true := by
  have hrun : ∃ w ∈ rowRun [.add 0 1 ⟨0, 0⟩], (w.aoi.call (.set 0 ⟨1, 0⟩)).isDone = true := by
    decide +kernel
  obtain ⟨w, hw, hdone⟩ := hrun
  have hsound := call_sound (reach_rowRun hw) (.set 0 ⟨1, 0⟩)
  have : w.aoi.Sound (.set 0 ⟨1, 0⟩) :=
    ⟨fun _ => hdone, fun e s' hr => by rw [hr] at hdone; cases hdone⟩
  exact ⟨w, hsound.mp this, this, hdone⟩

/-- A maker that has left its cell since the last update cannot come back, and is in no cell then. -/
theorem World.not_call_sound :
    ¬ ∀ w : World Nat, (scene Nat).Reach w → ∀ op, w.aoi.Sound op := by
  intro h
  have hrun : ∃ w ∈ rowRun [.add 0 1 ⟨0, 0⟩], ∃ w' ∈ w.step (.set 0 ⟨1, 0⟩),
      (w'.aoi.objidToGrididx.get 0).isSome = true ∧ w'.aoi.map.Inside ⟨0, 0⟩ ∧
        (w'.aoi.call (.set 0 ⟨0, 0⟩)).isDone = false := by
    decide +kernel
  obtain ⟨w, hw, w', hw', hid, hin, hraised⟩ := hrun
  have hstep : (scene Nat).step w (.set 0 ⟨1, 0⟩) = some w' := hw'
  have hreach : (scene Nat).Reach w' := .step (reach_rowRun hw) trivial hstep
  have hsound := h w' hreach (.set 0 ⟨0, 0⟩)
  rw [hsound.1 ⟨hid, hin⟩] at hraised
  cases hraised

end AntServer.Scene
