/-
# AntServer.Scene.World — the calls on an area of interest, one after the other

A run is a sequence of calls that return, updates among them, each with its own order of `pairs`. Next
to the area of interest a `World` has what the calls were given and what the watchers have made of the
records: the position last given for an object, the watchers that were added since the last update,
and the replica each watcher keeps.
-/
import AntServer.Lib.Machine
import AntServer.Lib.Replica
import AntServer.Scene.Commit

namespace AntServer.Scene

open Lib (Table Machine Change Replica.applyAll)

/-! ## Runs -/

inductive Op (Id : Type) where
  | add (id : Id) (marked : Nat) (pos : Pos)
  | remove (id : Id)
  | set (id : Id) (pos : Pos)
  | update (order : PairsOrder Id)

structure World (Id : Type) where
  aoi : Aoi Id
  /-- The position last given to `aoi_add` or `aoi_set`. -/
  given : Table Id Pos
  /-- The objects added since the last update. -/
  joined : Table Id Unit
  /-- The replica a watcher keeps. -/
  replica : Id → Table Id Pos
  /-- A record has met a maker it does not fit. -/
  clash : Bool

/-- A insert, U moves, D deletes. -/
def Record.change : Record → Change Pos
  | .A pos => .insert pos
  | .U pos => .update pos
  | .D _ => .delete

variable {Id : Type} [DecidableEq Id]

/-- A table of records, for a replica. -/
def changes (records : Table Id Record) : Table Id (Change Pos) :=
  records.filterMap fun _ record => some record.change

namespace World

/-- The replica of a watcher with what it is sent applied, in the order of the list; none, if
something does not fit. -/
def received (w : World Id) (ret : ResultTbl Id) (id : Id) : Option (Table Id Pos) :=
  Replica.applyAll (w.replica id) (((ret.get id).getD []).map changes)

/-- An update, and the watchers with what they are sent. -/
def update (w : World Id) (order : PairsOrder Id) : World Id where
  aoi := (w.aoi.aoiUpdate order).1
  given := w.given
  joined := .empty
  replica id := (w.received (w.aoi.aoiUpdate order).2 id).getD (w.replica id)
  clash := w.clash || (w.aoi.aoiUpdate order).2.keys.any fun id =>
    (w.received (w.aoi.aoiUpdate order).2 id).isNone

/-- A call that returns. -/
def step (w : World Id) : Op Id → Option (World Id)
  | .add id marked pos =>
    match w.aoi.aoiAdd id marked pos with
    | .done s => some { w with
        aoi := s
        given := w.given.set id pos
        joined := w.joined.set id () }
    | .raised _ _ => none
  | .remove id =>
    match w.aoi.aoiRemove id with
    | .done s => some { w with
        aoi := s
        given := w.given.del id
        joined := w.joined.del id
        replica := Function.update w.replica id .empty }
    | .raised _ _ => none
  | .set id pos =>
    match w.aoi.aoiSet id pos with
    | .done s => some { w with
        aoi := s
        given := w.given.set id pos }
    | .raised _ _ => none
  | .update order => some (w.update order)

/-- A new area of interest, with no watchers yet. -/
def new (map : Map) : World Id where
  aoi := .new map
  given := .empty
  joined := .empty
  replica _ := .empty
  clash := false

end World

/-- The runs on the maps. -/
def scene (Id : Type) [DecidableEq Id] : Machine (World Id) (Op Id) where
  start w := ∃ map, w = .new map
  step := World.step

/-- A map of six cells in a row. -/
def Map.row : Map where
  mapRow := 1
  mapCol := 6
  gridRow := 1
  gridCol := 1
  maxColCount := 6
  gridRow_pos := LuaNumber.zero_lt_one
  gridCol_pos := LuaNumber.zero_lt_one
  gridRow_le := by decide
  gridCol_le := by decide
  maxColCount_eq := by decide +kernel

/-- A run on it that ends with an update. -/
def World.rowRun (ops : List (Op Nat)) : Option (World Nat) :=
  (scene Nat).exec (.new .row) (ops ++ [.update (.stored Nat)])

/-- What such a run ends in is a state of a run. -/
theorem World.reach_rowRun {ops : List (Op Nat)} {w : World Nat} (h : rowRun ops = some w) :
    (scene Nat).Reach w := Machine.Reach.exec (.start ⟨_, rfl⟩) h

/-! ## What a call leaves as the last update left it -/

namespace Aoi

/-- The state `s'` differs from `s` in new cells, in what is pending, and in the watchers. -/
structure Frame (s s' : Aoi Id) : Prop where
  cell : ∀ c, ∀ g' ∈ s'.gridPool.get c,
    g'.objs = ((s.gridPool.get c).getD (.new c)).objs ∧
      g'.merge = ((s.gridPool.get c).getD (.new c)).merge
  pooled : ∀ c, (s.gridPool.get c).isSome → (s'.gridPool.get c).isSome
  last : s'.lastWatchidToGrididx = s.lastWatchidToGrididx
  map : s'.map = s.map

variable {s s₁ s₂ s' : Aoi Id} {ρ : Registry Id} {c : Int} {g g' : Grid Id} {id : Id}

omit [DecidableEq Id] in
/-- Two changes of this kind, one after the other. -/
theorem Frame.trans (h : Frame s s₁) (h' : Frame s₁ s') : Frame s s' where
  cell c g' hg' := by
    obtain ⟨hobjs, hmerge⟩ := h'.cell c g' hg'
    cases hc : s₁.gridPool.get c with
    | none =>
      have hnone : s.gridPool.get c = none := by
        have := h.pooled c
        rw [hc] at this
        simpa using this
      rw [hc] at hobjs hmerge
      rw [hnone]
      exact ⟨hobjs, hmerge⟩
    | some g₁ =>
      rw [hc] at hobjs hmerge
      obtain ⟨hobjs₁, hmerge₁⟩ := h.cell c g₁ hc
      exact ⟨hobjs.trans hobjs₁, hmerge.trans hmerge₁⟩
  pooled c hc := h'.pooled c (h.pooled c hc)
  last := h'.last.trans h.last
  map := h'.map.trans h.map

omit [DecidableEq Id] in
/-- The cells are the same. -/
theorem frame_of_pool (hpool : s'.gridPool = s.gridPool)
    (hlast : s'.lastWatchidToGrididx = s.lastWatchidToGrididx) (hmap : s'.map = s.map) :
    Frame s s' where
  cell c g' hg' := by
    rw [hpool, Option.mem_def] at hg'
    rw [hg']
    exact ⟨rfl, rfl⟩
  pooled c hc := by rwa [hpool]
  last := hlast
  map := hmap

omit [DecidableEq Id] in
/-- A change to one cell leaves its `objs` and its `merge`. -/
theorem CellStep.frame (h : CellStep s s' c g g') : Frame s s' where
  cell c' g₁ hg₁ := by
    obtain ⟨rfl, rfl⟩ | ⟨-, hg₁⟩ := h.cases hg₁
    · rw [h.before]
      exact ⟨h.objs, h.merge⟩
    · rw [hg₁]
      exact ⟨rfl, rfl⟩
  pooled _ hc := h.pooled hc
  last := h.last
  map := h.map

omit [DecidableEq Id] in
/-- A cell that is made is empty, as one that is not there is taken to be. -/
theorem frame_getGridobjByPos {pos : Pos} (h : s.getGridobjByPos pos = some (c, s₁)) :
    Frame s s₁ := by
  obtain ⟨-, -, ⟨-, rfl⟩ | ⟨hc, rfl⟩⟩ := getGridobjByPos_eq h
  · exact frame_of_pool rfl rfl rfl
  · refine ⟨fun c' g' hg' => ?_, fun c' hc' => setGrid_pooled hc', rfl, rfl⟩
    obtain ⟨rfl, rfl⟩ | ⟨-, hg'⟩ := setGrid_cases hg'
    · rw [hc]
      exact ⟨rfl, rfl⟩
    · rw [hg']
      exact ⟨rfl, rfl⟩

/-! ## The three calls, taken apart -/

/-- `aoi_add` of an object that is not registered: its cell is found or made, and it is put there. -/
theorem aoiAdd_done {marked : Nat} {pos : Pos} (h : s.aoiAdd id marked pos = .done s') :
    s.objidToGrididx.get id = none ∧ ∃ c s₁ s₂, s.getGridobjByPos pos = some (c, s₁) ∧
      s₁.gridAdd c id marked pos = .done s₂ ∧
      s' = { s₂ with
        objidToGrididx := s₂.objidToGrididx.set id c
        objidToMarked := s₂.objidToMarked.set id marked } := by
  unfold aoiAdd at h
  split at h
  · cases h
  · rename_i hnone
    split at h
    · cases h
    · rename_i c s₁ hcell
      obtain ⟨s₂, hadd, hdone⟩ := Outcome.andThen_eq_done.mp h
      cases hdone
      exact ⟨hnone, c, s₁, s₂, hcell, hadd, rfl⟩

/-- `aoi_remove`: the object leaves its cell and the tables. -/
theorem aoiRemove_done (h : s.aoiRemove id = .done s') :
    ∃ c s₂, s.objidToGrididx.get id = some c ∧ s.gridDelete c id = .done s₂ ∧
      s' = { s₂ with
        objidToGrididx := s₂.objidToGrididx.del id
        objidToMarked := s₂.objidToMarked.del id } := by
  unfold aoiRemove at h
  split at h
  · cases h
  · rename_i c hc
    obtain ⟨s₂, hdelete, hdone⟩ := Outcome.andThen_eq_done.mp h
    cases hdone
    exact ⟨c, s₂, hc, hdelete, rfl⟩

/-- `aoi_set`: an update within the cell, or a delete from it and an add to the new one. -/
theorem aoiSet_done {pos : Pos} (h : s.aoiSet id pos = .done s') :
    ∃ cur c s₁, s.objidToGrididx.get id = some cur ∧ s.getGridobjByPos pos = some (c, s₁) ∧
      (c = cur ∧ s₁.gridUpdate cur id pos = .done s' ∨
        c ≠ cur ∧ ∃ s₂ s₃, s₁.gridDelete cur id = .done s₂ ∧
          s₂.gridAdd c id ((s₂.objidToMarked.get id).getD 0) pos = .done s₃ ∧
          s' = { s₃ with objidToGrididx := s₃.objidToGrididx.set id c }) := by
  unfold aoiSet at h
  split at h
  · cases h
  · rename_i cur hcur
    split at h
    · cases h
    · rename_i c s₁ hcell
      split at h
      · rename_i hc
        subst hc
        exact ⟨c, c, s₁, hcur, hcell, .inl ⟨rfl, h⟩⟩
      · rename_i hc
        obtain ⟨s₂, hdelete, h⟩ := Outcome.andThen_eq_done.mp h
        obtain ⟨s₃, hadd, hdone⟩ := Outcome.andThen_eq_done.mp h
        cases hdone
        exact ⟨cur, c, s₁, hcur, hcell, .inr ⟨hc, s₂, s₃, hdelete, hadd, rfl⟩⟩

/-- The mark of a registered object. -/
def mark (s : Aoi Id) (id : Id) : Nat := (s.objidToMarked.get id).getD 0

/-- The tables of the area of interest, and the positions given, are those of the registry. -/
structure Registered (s : Aoi Id) (given : Table Id Pos) (ρ : Registry Id) : Prop where
  cell : ∀ id, s.objidToGrididx.get id = (ρ id).map Entry.cell
  marked : ∀ id, s.objidToMarked.get id = (ρ id).map Entry.marked
  given : ∀ id, given.get id = (ρ id).map Entry.pos

/-- What every call keeps. -/
structure Called (s s' : Aoi Id) (given' : Table Id Pos) (ρ ρ' : Registry Id) : Prop where
  placed : Placed s' ρ'
  registered : Registered s' given' ρ'
  tracked : Tracked s ρ → Tracked s' ρ'
  frame : Frame s s'
  touched : ∀ c, (s.touchGrididxMap.get c).isSome → (s'.touchGrididxMap.get c).isSome

/-- The two tables by object are not looked at. -/
theorem Placed.setObjid (h : Placed s ρ) (cells : Table Id Int) (marks : Table Id Nat) :
    Placed { s with objidToGrididx := cells, objidToMarked := marks } ρ :=
  ⟨h.pooled, h.marked, h.watchers, h.watched, h.touchedPooled, h.pending, h.known, h.moved, h.merge,
    ⟨h.uncached.result, h.uncached.touched⟩⟩

/-- Nor are they here. -/
theorem Tracked.setObjid (h : Tracked s ρ) (cells : Table Id Int) (marks : Table Id Nat) :
    Tracked { s with objidToGrididx := cells, objidToMarked := marks } ρ :=
  ⟨h.effective, h.fits⟩

omit [DecidableEq Id] in
/-- The touched cells stay touched. -/
theorem CellStep.touched_mono (h : CellStep s s' c g g') (hc : (s'.touchGrididxMap.get c).isSome)
    (c' : Int) (hc' : (s.touchGrididxMap.get c').isSome) : (s'.touchGrididxMap.get c').isSome := by
  by_cases heq : c' = c
  · rwa [heq]
  · rwa [h.touched c' heq]

omit [DecidableEq Id] in
/-- The look for a cell leaves the tables by object and the touched cells. -/
theorem getGridobjByPos_rest {pos : Pos} (h : s.getGridobjByPos pos = some (c, s₁)) :
    s₁.objidToGrididx = s.objidToGrididx ∧ s₁.objidToMarked = s.objidToMarked ∧
      s₁.touchGrididxMap = s.touchGrididxMap := by
  obtain ⟨-, -, ⟨-, rfl⟩ | ⟨-, rfl⟩⟩ := getGridobjByPos_eq h
  · exact ⟨rfl, rfl, rfl⟩
  · exact ⟨rfl, rfl, rfl⟩

variable {given : Table Id Pos}

/-- An id without a cell is not registered. -/
theorem Registered.free (h : Registered s given ρ) (hid : s.objidToGrididx.get id = none) :
    ρ id = none := by
  rw [h.cell, Option.map_eq_none_iff] at hid
  exact hid

/-- An id with a cell is registered in it. -/
theorem Registered.entry (h : Registered s given ρ) (hid : s.objidToGrididx.get id = some c) :
    ∃ e, ρ id = some e ∧ e.cell = c := by
  rw [h.cell, Option.map_eq_some_iff] at hid
  exact hid

/-- The tables after an object is registered anew. -/
theorem Registered.put (h : Registered s given ρ) (id : Id) (e : Entry)
    {cells : Table Id Int} {marks : Table Id Nat} {given' : Table Id Pos}
    (hcells : ∀ k, cells.get k = if k = id then some e.cell else s.objidToGrididx.get k)
    (hmarks : ∀ k, marks.get k = if k = id then some e.marked else s.objidToMarked.get k)
    (hgiven : ∀ k, given'.get k = if k = id then some e.pos else given.get k)
    (hs' : s'.objidToGrididx = cells ∧ s'.objidToMarked = marks) :
    Registered s' given' (ρ.put id (some e)) := by
  obtain ⟨rfl, rfl⟩ := hs'
  refine ⟨fun k => ?_, fun k => ?_, fun k => ?_⟩
  all_goals by_cases hk : k = id
  · simp [hcells, hk]
  · simp [hcells, hk, ρ.put_ne hk, h.cell]
  · simp [hmarks, hk]
  · simp [hmarks, hk, ρ.put_ne hk, h.marked]
  · simp [hgiven, hk]
  · simp [hgiven, hk, ρ.put_ne hk, h.given]

/-- `aoi_add`: the object is registered, where it was not, and its cell is touched. -/
theorem Placed.aoiAdd (h : Placed s ρ) (hr : Registered s given ρ) {marked : Nat} {pos : Pos}
    (hdone : s.aoiAdd id marked pos = .done s') :
    ∃ e : Entry, e.marked = marked ∧ e.pos = pos ∧ ρ id = none ∧
      Called s s' (given.set id pos) ρ (ρ.put id (some e)) ∧
      (s'.touchGrididxMap.get e.cell).isSome := by
  obtain ⟨hnone, c, s₁, s₂, hcell, hadd, rfl⟩ := aoiAdd_done hdone
  obtain ⟨hgrididx, hmarked, htouched⟩ := getGridobjByPos_rest hcell
  obtain ⟨g, g', hstep, hc, -⟩ := gridAdd_done hadd
  have hfree := hr.free hnone
  refine ⟨⟨c, marked, pos⟩, rfl, rfl, hfree, ⟨?_, ?_, ?_, ?_, ?_⟩, hc⟩
  · exact Placed.setObjid (Placed.gridAdd (e := ⟨c, marked, pos⟩) (h.getGridobjByPos hcell) hfree hadd)
      _ _
  · refine hr.put id ⟨c, marked, pos⟩ (fun k => ?_) (fun k => ?_) (fun k => Table.get_set ..)
      ⟨rfl, rfl⟩
    · rw [Table.get_set, hstep.objidToGrididx, hgrididx]
    · rw [Table.get_set, hstep.objidToMarked, hmarked]
  · intro ht
    exact Tracked.setObjid
      (Tracked.gridAdd (e := ⟨c, marked, pos⟩) (ht.getGridobjByPos h hcell) hfree hadd) _ _
  · exact ((frame_getGridobjByPos hcell).trans hstep.frame).trans (frame_of_pool rfl rfl rfl)
  · intro c' hc'
    rw [← htouched] at hc'
    exact hstep.touched_mono hc c' hc'

/-- `aoi_remove`: the object was registered and is no longer. -/
theorem Placed.aoiRemove (h : Placed s ρ) (hr : Registered s given ρ)
    (hdone : s.aoiRemove id = .done s') :
    ∃ e, ρ id = some e ∧ Called s s' (given.del id) ρ (ρ.put id none) := by
  obtain ⟨c, s₂, hid, hdelete, rfl⟩ := aoiRemove_done hdone
  obtain ⟨e, he, rfl⟩ := hr.entry hid
  obtain ⟨g, g', hstep, hc, -⟩ := gridDelete_done hdelete
  have hcell : ∀ e' ∈ ρ id, e'.cell = e.cell := by simp [he]
  refine ⟨e, he, ?_, ⟨fun k => ?_, fun k => ?_, fun k => ?_⟩, ?_, ?_, ?_⟩
  · exact (h.gridDelete hcell hdelete).setObjid _ _
  · rw [Table.get_del, hstep.objidToGrididx, hr.cell]
    by_cases hk : k = id
    · simp [hk]
    · simp [hk, ρ.put_ne hk]
  · rw [Table.get_del, hstep.objidToMarked, hr.marked]
    by_cases hk : k = id
    · simp [hk]
    · simp [hk, ρ.put_ne hk]
  · rw [Table.get_del, hr.given]
    by_cases hk : k = id
    · simp [hk]
    · simp [hk, ρ.put_ne hk]
  · exact fun ht => (ht.gridDelete hcell hdelete).setObjid _ _
  · exact hstep.frame.trans (frame_of_pool rfl rfl rfl)
  · exact hstep.touched_mono hc

/-- `aoi_set`: the object is registered with its mark at the new position, and the cell of it is touched.
The object may be in two cells for a moment, but not in the registry. -/
theorem Placed.aoiSet (h : Placed s ρ) (hr : Registered s given ρ) {pos : Pos}
    (hdone : s.aoiSet id pos = .done s') :
    ∃ e e', ρ id = some e ∧ e'.marked = e.marked ∧ e'.pos = pos ∧
      Called s s' (given.set id pos) ρ (ρ.put id (some e')) ∧
      (s'.touchGrididxMap.get e'.cell).isSome := by
  obtain ⟨cur, c, s₁, hid, hcell, hdone⟩ := aoiSet_done hdone
  obtain ⟨hgrididx, hmarked, htouched⟩ := getGridobjByPos_rest hcell
  obtain ⟨e, he, rfl⟩ := hr.entry hid
  have hplaced := h.getGridobjByPos hcell
  have hsame : ∀ k, s.objidToGrididx.get k = if k = id then some e.cell else s.objidToGrididx.get k := by
    intro k
    by_cases hk : k = id
    · simp [hk, hid]
    · simp [hk]
  have hmark : s.objidToMarked.get id = some e.marked := by rw [hr.marked, he]; rfl
  have hmarks : ∀ k, s.objidToMarked.get k =
      if k = id then some e.marked else s.objidToMarked.get k := by
    intro k
    by_cases hk : k = id
    · simp [hk, hmark]
    · simp [hk]
  obtain ⟨-, hupdate⟩ | ⟨hc, s₂, s₃, hdelete, hadd, rfl⟩ := hdone
  · obtain ⟨g, g', touch, hstep, hc, -⟩ := gridUpdate_done hupdate
    refine ⟨e, { e with pos := pos }, he, rfl, rfl, ⟨hplaced.gridUpdate he hupdate, ?_, ?_, ?_, ?_⟩,
      hc⟩
    · exact hr.put id { e with pos := pos } hsame hmarks (fun k => Table.get_set ..)
        ⟨hstep.objidToGrididx.trans hgrididx, hstep.objidToMarked.trans hmarked⟩
    · exact fun ht => (ht.getGridobjByPos h hcell).gridUpdate he hupdate
    · exact (frame_getGridobjByPos hcell).trans hstep.frame
    · intro c' hc'
      rw [← htouched] at hc'
      exact hstep.touched_mono hc c' hc'
  · obtain ⟨g, g', hstep, hc₂, -⟩ := gridDelete_done hdelete
    obtain ⟨g₁, g₁', hstep₁, hc₃, -⟩ := gridAdd_done hadd
    have hdeleted : ∀ e' ∈ ρ id, e'.cell = e.cell := by simp [he]
    have hput : ρ.put id (some ⟨c, e.marked, pos⟩) =
        (ρ.put id none).put id (some ⟨c, e.marked, pos⟩) := by
      unfold Registry.put
      rw [Function.update_idem]
    rw [hstep.objidToMarked, hmarked, hmark, Option.getD_some] at hadd
    refine ⟨e, ⟨c, e.marked, pos⟩, he, rfl, rfl, ⟨?_, ?_, ?_, ?_, ?_⟩, hc₃⟩
    · rw [hput]
      exact (Placed.gridAdd (e := ⟨c, e.marked, pos⟩) (hplaced.gridDelete hdeleted hdelete)
        (Registry.put_self ..) hadd).setObjid _ s₃.objidToMarked
    · refine hr.put id ⟨c, e.marked, pos⟩ (fun k => ?_) hmarks (fun k => Table.get_set ..)
        ⟨rfl, hstep₁.objidToMarked.trans (hstep.objidToMarked.trans hmarked)⟩
      rw [Table.get_set, hstep₁.objidToGrididx, hstep.objidToGrididx, hgrididx]
    · intro ht
      rw [hput]
      exact (Tracked.gridAdd (e := ⟨c, e.marked, pos⟩)
        ((ht.getGridobjByPos h hcell).gridDelete hdeleted hdelete) (Registry.put_self ..)
        hadd).setObjid _ s₃.objidToMarked
    · exact (((frame_getGridobjByPos hcell).trans hstep.frame).trans hstep₁.frame).trans
        (frame_of_pool rfl rfl rfl)
    · intro c' hc'
      rw [← htouched] at hc'
      exact hstep₁.touched_mono hc₃ c' (hstep.touched_mono hc₂ c' hc')

end Aoi

/-! ## Every run -/

namespace World

/-- The world is that of a registry. -/
structure Held (w : World Id) (ρ : Registry Id) : Prop where
  placed : w.aoi.Placed ρ
  registered : w.aoi.Registered w.given ρ

variable {w w' : World Id} {ρ : Registry Id}

/-- The maker of the registry at a cell, read off the tables. -/
theorem Held.makerAt (h : Held w ρ) (c : Int) (id : Id) : ρ.makerAt c id =
    if w.aoi.objidToGrididx.get id = some c ∧ isMaker (w.aoi.mark id) then w.given.get id
    else none := by
  unfold Registry.makerAt Aoi.mark
  rw [h.registered.cell, h.registered.marked, h.registered.given]
  cases ρ id with
  | none => simp
  | some e => simp

/-- The watcher of the registry at a cell, read off the tables. -/
theorem Held.watcherAt (h : Held w ρ) {c : Int} {id : Id} : ρ.WatcherAt c id ↔
    w.aoi.objidToGrididx.get id = some c ∧ isWatcher (w.aoi.mark id) = true := by
  unfold Registry.WatcherAt Aoi.mark
  rw [h.registered.cell, h.registered.marked]
  cases ρ id with
  | none => simp
  | some e => simp

/-- Nothing is registered in a new area of interest. -/
theorem held_new (map : Map) : Held (new map : World Id) (fun _ => none) := by
  have hpool : ∀ c, (new map : World Id).aoi.gridPool.get c = none := Table.get_empty
  have hnone : ∀ c id, ¬ Registry.WatcherAt (fun _ : Id => none) c id := by
    rintro c id ⟨e, he, -⟩
    cases he
  constructor
  · constructor
    · exact nofun
    · exact nofun
    · intro c g hg
      cases (hpool c).symm.trans hg
    · intro c
      refine iff_of_false (by simp [new, Aoi.new]) ?_
      rintro ⟨id, hid⟩
      exact hnone c id hid
    · intro c hc
      simp [new, Aoi.new] at hc
    · intro c g hg
      cases (hpool c).symm.trans hg
    · intro c g hg
      cases (hpool c).symm.trans hg
    · intro c id hid
      exact absurd hid (hnone c id)
    · intro c g hg
      cases (hpool c).symm.trans hg
    · refine ⟨fun c g hg => ?_, Table.get_empty⟩
      cases (hpool c).symm.trans hg
  · exact ⟨Table.get_empty, Table.get_empty, Table.get_empty⟩

/-- And no cell has anything. -/
theorem tracked_new (map : Map) : Aoi.Tracked (new map : World Id).aoi (fun _ => none) := by
  have hpool : ∀ c, (new map : World Id).aoi.gridPool.get c = none := Table.get_empty
  refine ⟨fun c g hg => ?_, fun c g hg => ?_⟩
  all_goals cases (hpool c).symm.trans hg

/-- An update moves nobody. -/
theorem Held.update (h : Held w ρ) (order : PairsOrder Id) : Held (w.update order) ρ := by
  obtain ⟨cs, hcs, heq⟩ := h.placed.aoiUpdate order
  have hu := h.placed.updated order hcs.nodup
  unfold World.update
  rw [heq]
  refine ⟨h.placed.update hu hcs, ?_, ?_, h.registered.given⟩
  · rw [hu.objidToGrididx]
    exact h.registered.cell
  · rw [hu.objidToMarked]
    exact h.registered.marked

/-- An update keeps the makers where they are, if no stale `merge` is taken over. -/
theorem Held.update_tracked (h : Held w ρ) (ht : w.aoi.Tracked ρ) (hfresh : w.aoi.NoStaleMerge)
    (order : PairsOrder Id) : (w.update order).aoi.Tracked ρ := by
  obtain ⟨cs, hcs, heq⟩ := h.placed.aoiUpdate order
  unfold World.update
  rw [heq]
  exact ht.update h.placed hfresh (h.placed.updated order hcs.nodup)

/-- What an `aoi_add` that returns leaves. -/
theorem step_add {id : Id} {marked : Nat} {pos : Pos} (hs : w.step (.add id marked pos) = some w') :
    ∃ s, w.aoi.aoiAdd id marked pos = .done s ∧ w' = { w with
      aoi := s
      given := w.given.set id pos
      joined := w.joined.set id () } := by
  unfold World.step at hs
  dsimp only at hs
  split at hs
  · rename_i s hdone
    cases hs
    exact ⟨s, hdone, rfl⟩
  · cases hs

/-- What an `aoi_remove` that returns leaves. -/
theorem step_remove {id : Id} (hs : w.step (.remove id) = some w') :
    ∃ s, w.aoi.aoiRemove id = .done s ∧ w' = { w with
      aoi := s
      given := w.given.del id
      joined := w.joined.del id
      replica := Function.update w.replica id .empty } := by
  unfold World.step at hs
  dsimp only at hs
  split at hs
  · rename_i s hdone
    cases hs
    exact ⟨s, hdone, rfl⟩
  · cases hs

/-- What an `aoi_set` that returns leaves. -/
theorem step_set {id : Id} {pos : Pos} (hs : w.step (.set id pos) = some w') :
    ∃ s, w.aoi.aoiSet id pos = .done s ∧ w' = { w with
      aoi := s
      given := w.given.set id pos } := by
  unfold World.step at hs
  dsimp only at hs
  split at hs
  · rename_i s hdone
    cases hs
    exact ⟨s, hdone, rfl⟩
  · cases hs

/-- A call that is no update. -/
theorem Held.call {op : Op Id} (h : Held w ρ) (hs : w.step op = some w')
    (hop : ∀ order, op ≠ .update order) :
    ∃ ρ', Held w' ρ' ∧ Aoi.Called w.aoi w'.aoi w'.given ρ ρ' := by
  cases op with
  | add id marked pos =>
    obtain ⟨s, hdone, rfl⟩ := step_add hs
    obtain ⟨e, -, -, -, hcalled, -⟩ := h.placed.aoiAdd h.registered hdone
    exact ⟨_, ⟨hcalled.placed, hcalled.registered⟩, hcalled⟩
  | remove id =>
    obtain ⟨s, hdone, rfl⟩ := step_remove hs
    obtain ⟨e, -, hcalled⟩ := h.placed.aoiRemove h.registered hdone
    exact ⟨_, ⟨hcalled.placed, hcalled.registered⟩, hcalled⟩
  | set id pos =>
    obtain ⟨s, hdone, rfl⟩ := step_set hs
    obtain ⟨e, e', -, -, -, hcalled, -⟩ := h.placed.aoiSet h.registered hdone
    exact ⟨_, ⟨hcalled.placed, hcalled.registered⟩, hcalled⟩
  | update order => exact absurd rfl (hop order)

/-- Any call. -/
theorem Held.step {op : Op Id} (h : Held w ρ) (hs : w.step op = some w') : ∃ ρ', Held w' ρ' := by
  by_cases hop : ∀ order, op ≠ .update order
  · obtain ⟨ρ', h', -⟩ := h.call hs hop
    exact ⟨ρ', h'⟩
  · push Not at hop
    obtain ⟨order, rfl⟩ := hop
    cases hs
    exact ⟨ρ, h.update order⟩

/-- In every run the tables are those of a registry. -/
theorem reach_held (h : (scene Id).Reach w) : ∃ ρ, Held w ρ := by
  refine Machine.ReachUnder.invariant (fun w => ∃ ρ, Held w ρ) ?_ ?_ h
  · rintro _ ⟨map, rfl⟩
    exact ⟨_, held_new map⟩
  · rintro w op w' - ⟨ρ, h⟩ - hs
    exact h.step hs

end World

end AntServer.Scene
