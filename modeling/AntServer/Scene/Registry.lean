/-
# AntServer.Scene.Registry — what is registered, and what the cells have of it

`Placed` and `Tracked` relate a state to what is registered under the ids: the watchers of the cells
and the touched cells on one side, the makers on the other. `Placed` holds in every run. `Tracked`
can be lost, when a cell takes over a `merge` that was made before its `touchs`; an update keeps it
when there is no such cell.
-/
import AntServer.Scene.Cells

namespace AntServer.Scene

open Lib (Table)

variable {Id : Type} [DecidableEq Id]

/-- What is registered, by id. -/
abbrev Registry (Id : Type) := Id → Option Entry

/-- The position of the maker `id`, if it is one and its cell is `c`. -/
def Registry.makerAt (ρ : Registry Id) (c : Int) (id : Id) : Option Pos :=
  (ρ id).bind fun e => if e.cell = c ∧ isMaker e.marked then some e.pos else none

/-- The watcher `id` is in the cell `c`. -/
def Registry.WatcherAt (ρ : Registry Id) (c : Int) (id : Id) : Prop :=
  ∃ e, ρ id = some e ∧ e.cell = c ∧ isWatcher e.marked = true

omit [DecidableEq Id] in
/-- A watcher is in one cell. -/
theorem Registry.WatcherAt.unique {ρ : Registry Id} {c c' : Int} {id : Id} (h : ρ.WatcherAt c id)
    (h' : ρ.WatcherAt c' id) : c = c' := by
  obtain ⟨e, he, rfl, -⟩ := h
  obtain ⟨e', he', rfl, -⟩ := h'
  cases he.symm.trans he'
  rfl

namespace Aoi

/-- Where the watchers are, and which cells are touched. -/
structure Placed (s : Aoi Id) (ρ : Registry Id) : Prop where
  pooled : ∀ id, ∀ e ∈ ρ id, (s.gridPool.get e.cell).isSome
  marked : ∀ id, ∀ e ∈ ρ id, (isWatcher e.marked || isMaker e.marked) = true
  watchers : ∀ c, ∀ g ∈ s.gridPool.get c, ∀ w, g.watches w = true ↔ ρ.WatcherAt c w
  watched : ∀ c, (s.watchGrididxMap.get c).isSome ↔ ∃ w, ρ.WatcherAt c w
  touchedPooled : ∀ c, (s.touchGrididxMap.get c).isSome → (s.gridPool.get c).isSome
  pending : ∀ c, ∀ g ∈ s.gridPool.get c, ∀ id, (g.touch id).isSome →
    (s.touchGrididxMap.get c).isSome
  known : ∀ c, ∀ g ∈ s.gridPool.get c, ∀ id, (g.touch id).isSome →
    (g.objs.get id).isSome ∨ (ρ.makerAt c id).isSome
  moved : ∀ c w, ρ.WatcherAt c w →
    s.lastWatchidToGrididx.get w = some c ∨ (s.touchGrididxMap.get c).isSome
  merge : ∀ c, ∀ g ∈ s.gridPool.get c, ∀ merge ∈ g.merge, merge = g.objs
  uncached : s.Uncached

/-- Where the makers are. -/
structure Tracked (s : Aoi Id) (ρ : Registry Id) : Prop where
  effective : ∀ c, ∀ g ∈ s.gridPool.get c, ∀ id, g.effective id = ρ.makerAt c id
  fits : ∀ c, ∀ g ∈ s.gridPool.get c, ∀ id, g.Fits id

end Aoi

/-! ## A change to one cell -/

namespace Registry

variable {ρ ρ' : Registry Id} {c : Int} {id : Id}

/-- The two maps differ in the object `id`, which they have in the cell `c` if at all. -/
structure Change (ρ ρ' : Registry Id) (c : Int) (id : Id) : Prop where
  other : ∀ k ≠ id, ρ' k = ρ k
  before : ∀ e ∈ ρ id, e.cell = c
  after : ∀ e ∈ ρ' id, e.cell = c

omit [DecidableEq Id] in
/-- The watchers of the other cells are the same. -/
theorem Change.watcherAt (h : Change ρ ρ' c id) {c' : Int} (hc : c' ≠ c) (w : Id) :
    ρ'.WatcherAt c' w ↔ ρ.WatcherAt c' w := by
  by_cases hw : w = id
  · subst hw
    refine iff_of_false ?_ ?_
    · rintro ⟨e, he, rfl, -⟩
      exact hc (h.after e he)
    · rintro ⟨e, he, rfl, -⟩
      exact hc (h.before e he)
  · unfold WatcherAt
    rw [h.other w hw]

omit [DecidableEq Id] in
/-- So are the makers of the other cells, and the other makers of the cell. -/
theorem Change.makerAt (h : Change ρ ρ' c id) {c' : Int} {k : Id} (hne : c' ≠ c ∨ k ≠ id) :
    ρ'.makerAt c' k = ρ.makerAt c' k := by
  unfold Registry.makerAt
  by_cases hk : k = id
  · subst hk
    have hc := hne.resolve_right (not_not.mpr rfl)
    have hnone : ∀ r : Registry Id, (∀ e ∈ r k, e.cell = c) →
        ((r k).bind fun e => if e.cell = c' ∧ isMaker e.marked then some e.pos else none) = none := by
      intro r hr
      cases hk : r k with
      | none => rfl
      | some e => exact if_neg fun h => hc (h.1.symm.trans (hr e hk))
    rw [hnone ρ' h.after, hnone ρ h.before]
  · rw [h.other k hk]

end Registry

namespace Aoi

variable {s s' : Aoi Id} {ρ ρ' : Registry Id} {c : Int} {g g' : Grid Id} {id : Id}

omit [DecidableEq Id] in
/-- A cell after a step is the one that was changed, or was there before. -/
theorem CellStep.cases (h : CellStep s s' c g g') {c' : Int} {g₁ : Grid Id}
    (hg₁ : s'.gridPool.get c' = some g₁) : c' = c ∧ g₁ = g' ∨ c' ≠ c ∧ s.gridPool.get c' = some g₁ := by
  rw [h.after] at hg₁
  split at hg₁
  · rename_i hc
    cases hg₁
    exact .inl ⟨hc, rfl⟩
  · rename_i hc
    exact .inr ⟨hc, hg₁⟩

omit [DecidableEq Id] in
/-- No cell is lost. -/
theorem CellStep.pooled (h : CellStep s s' c g g') {c' : Int} (hc' : (s.gridPool.get c').isSome) :
    (s'.gridPool.get c').isSome := by
  rw [h.after]
  split
  · rfl
  · exact hc'

/-- One cell is changed in what it has of one object: what is left to show is about that cell and that
object. -/
theorem Placed.cellStep (h : Placed s ρ) (hs : CellStep s s' c g g')
    (htouched : (s'.touchGrididxMap.get c).isSome) (hρ : ρ.Change ρ' c id)
    (hmark : ∀ e ∈ ρ' id, (isWatcher e.marked || isMaker e.marked) = true)
    (htouch : ∀ k ≠ id, g'.touch k = g.touch k)
    (hknown : (g'.touch id).isSome → (g.objs.get id).isSome ∨ (ρ'.makerAt c id).isSome)
    (hw : ∀ w, g'.watches w = true ↔ ρ'.WatcherAt c w)
    (hwatched : (s'.watchGrididxMap.get c).isSome ↔ ∃ w, ρ'.WatcherAt c w) : Placed s' ρ' where
  pooled k e he := by
    by_cases hk : k = id
    · subst hk
      rw [hρ.after e he, hs.get]
      rfl
    · rw [hρ.other k hk] at he
      exact hs.pooled (h.pooled k e he)
  marked k e he := by
    by_cases hk : k = id
    · subst hk
      exact hmark e he
    · rw [hρ.other k hk] at he
      exact h.marked k e he
  watchers c' g₁ hg₁ w := by
    obtain ⟨rfl, rfl⟩ | ⟨hc, hg₁⟩ := hs.cases hg₁
    · exact hw w
    · rw [hρ.watcherAt hc]
      exact h.watchers c' g₁ hg₁ w
  watched c' := by
    by_cases hc : c' = c
    · rw [hc]
      exact hwatched
    · rw [hs.watched c' hc, h.watched c']
      exact exists_congr fun w => (hρ.watcherAt hc w).symm
  touchedPooled c' hc' := by
    by_cases hc : c' = c
    · rw [hc, hs.get]
      rfl
    · rw [hs.touched c' hc] at hc'
      exact hs.pooled (h.touchedPooled c' hc')
  pending c' g₁ hg₁ k hk := by
    obtain ⟨rfl, rfl⟩ | ⟨hc, hg₁⟩ := hs.cases hg₁
    · exact htouched
    · rw [hs.touched c' hc]
      exact h.pending c' g₁ hg₁ k hk
  known c' g₁ hg₁ k hk := by
    obtain ⟨rfl, rfl⟩ | ⟨hc, hg₁⟩ := hs.cases hg₁
    · rw [hs.objs]
      by_cases hid : k = id
      · rw [hid] at hk ⊢
        exact hknown hk
      · rw [hρ.makerAt (.inr hid)]
        rw [htouch k hid] at hk
        exact h.known c' g hs.before k hk
    · rw [hρ.makerAt (.inl hc)]
      exact h.known c' g₁ hg₁ k hk
  moved c' w hw := by
    by_cases hc : c' = c
    · rw [hc]
      exact .inr htouched
    · rw [hs.touched c' hc, hs.last]
      exact h.moved c' w ((hρ.watcherAt hc w).mp hw)
  merge c' g₁ hg₁ merge hmerge := by
    obtain ⟨rfl, rfl⟩ | ⟨hc, hg₁⟩ := hs.cases hg₁
    · rw [hs.merge] at hmerge
      rw [hs.objs]
      exact h.merge c' g hs.before merge hmerge
    · exact h.merge c' g₁ hg₁ merge hmerge
  uncached := by
    refine ⟨fun c' g₁ hg₁ st => ?_, fun c' => ?_⟩
    · obtain ⟨rfl, rfl⟩ | ⟨hc, hg₁⟩ := hs.cases hg₁
      · rw [hs.result]
        exact h.uncached.result c' g hs.before st
      · exact h.uncached.result c' g₁ hg₁ st
    · rw [hs.touchGridResult]
      exact h.uncached.touched c'

/-- The same for where the makers are. -/
theorem Tracked.cellStep (h : Tracked s ρ) (hs : CellStep s s' c g g') (hρ : ρ.Change ρ' c id)
    (htouch : ∀ k ≠ id, g'.touch k = g.touch k) (heffective : g'.effective id = ρ'.makerAt c id)
    (hfits : g'.Fits id) : Tracked s' ρ' where
  effective c' g₁ hg₁ k := by
    obtain ⟨rfl, rfl⟩ | ⟨hc, hg₁⟩ := hs.cases hg₁
    · by_cases hk : k = id
      · rw [hk]
        exact heffective
      · rw [hρ.makerAt (.inr hk), ← h.effective c' g hs.before k]
        unfold Grid.effective
        rw [htouch k hk, hs.objs]
    · rw [hρ.makerAt (.inl hc)]
      exact h.effective c' g₁ hg₁ k
  fits c' g₁ hg₁ k := by
    obtain ⟨rfl, rfl⟩ | ⟨hc, hg₁⟩ := hs.cases hg₁
    · by_cases hk : k = id
      · rw [hk]
        exact hfits
      · have hfit := h.fits c' g hs.before k
        unfold Grid.Fits at hfit ⊢
        rwa [htouch k hk, hs.objs]
    · exact h.fits c' g₁ hg₁ k

/-! ## The calls on a cell -/

end Aoi

namespace Registry

variable {ρ : Registry Id} {c : Int} {id : Id}

/-- What is registered under `id` is replaced. -/
def put (ρ : Registry Id) (id : Id) (e : Option Entry) : Registry Id := Function.update ρ id e

@[simp] theorem put_self (ρ : Registry Id) (id : Id) (e : Option Entry) : ρ.put id e id = e :=
  Function.update_self ..

/-- The other objects are registered as before. -/
theorem put_ne (ρ : Registry Id) {id k : Id} (h : k ≠ id) (e : Option Entry) : ρ.put id e k = ρ k :=
  Function.update_of_ne h ..

/-- What is registered under one id is replaced by an entry of the same cell. -/
theorem change_put {e : Option Entry} (hbefore : ∀ e ∈ ρ id, e.cell = c)
    (hafter : ∀ e' ∈ e, e'.cell = c) : ρ.Change (ρ.put id e) c id :=
  ⟨fun _ hk => ρ.put_ne hk e, hbefore, by rw [put_self]; exact hafter⟩

/-- The watchers of the cell of the new entry. -/
theorem watcherAt_put (e : Entry) (w : Id) : (ρ.put id (some e)).WatcherAt e.cell w ↔
    if w = id then isWatcher e.marked = true else ρ.WatcherAt e.cell w := by
  unfold WatcherAt
  by_cases h : w = id
  · subst h
    simp
  · simp [h, ρ.put_ne h]

/-- The watchers of a cell after an object is unregistered. -/
theorem watcherAt_put_none (w : Id) :
    (ρ.put id none).WatcherAt c w ↔ ρ.WatcherAt c w ∧ w ≠ id := by
  unfold WatcherAt
  by_cases h : w = id
  · subst h
    simp
  · simp [h, ρ.put_ne h]

end Registry

namespace Aoi

variable {s s' : Aoi Id} {ρ ρ' : Registry Id} {c : Int} {g g' : Grid Id} {id : Id}

/-- `grid_add` of an object that is not registered. -/
theorem Placed.gridAdd {e : Entry} (h : Placed s ρ) (hfree : ρ id = none)
    (hdone : s.gridAdd e.cell id e.marked e.pos = .done s') : Placed s' (ρ.put id (some e)) := by
  obtain ⟨g, g', hstep, htouched, hmark, -, -, hwatches, htouch, hwatched⟩ := gridAdd_done hdone
  have hother : ∀ k ≠ id, g'.touch k = g.touch k := fun k hk => by simp [htouch k, hk]
  have hold : ¬ ρ.WatcherAt e.cell id := by
    rintro ⟨e', he', -⟩
    rw [hfree] at he'
    cases he'
  have hchange : ρ.Change (ρ.put id (some e)) e.cell id :=
    Registry.change_put (by simp [hfree]) (by simp)
  refine h.cellStep hstep htouched hchange (by simpa using hmark) hother (fun hid => ?_) (fun w => ?_)
    ?_
  · unfold Registry.makerAt
    rw [Registry.put_self, Option.bind_some]
    rw [htouch] at hid
    by_cases hm : isMaker e.marked = true
    · exact .inr (by simp [hm])
    · refine (h.known _ g hstep.before id (by simpa [hm] using hid)).imp_right fun hsome => ?_
      unfold Registry.makerAt at hsome
      rw [hfree] at hsome
      cases hsome
  · rw [hwatches, Registry.watcherAt_put, Bool.or_eq_true, h.watchers _ g hstep.before]
    by_cases hw : w = id
    · subst hw
      simp [hold]
    · simp [hw]
  · rw [hwatched, h.watched]
    simp only [Registry.watcherAt_put]
    constructor
    · rintro (⟨w, hw⟩ | hw)
      · refine ⟨w, ?_⟩
        have hne : w ≠ id := fun hid => hold (hid ▸ hw)
        rw [if_neg hne]
        exact hw
      · exact ⟨id, by simpa using hw⟩
    · rintro ⟨w, hw⟩
      split at hw
      · exact .inr hw
      · exact .inl ⟨w, hw⟩

/-- `grid_delete` of an object of the cell. -/
theorem Placed.gridDelete (h : Placed s ρ) (hcell : ∀ e ∈ ρ id, e.cell = c)
    (hdone : s.gridDelete c id = .done s') : Placed s' (ρ.put id none) := by
  obtain ⟨g, g', hstep, htouched, hwatches, htouch, hwatched, -⟩ := gridDelete_done hdone
  have hother : ∀ k ≠ id, g'.touch k = g.touch k := fun k hk => by simp [htouch k, hk]
  have hknown : (g'.touch id).isSome → (g.objs.get id).isSome := by
    rw [htouch, if_pos rfl]
    cases g.objs.get id with
    | none => simp
    | some pos => simp
  have hw : ∀ w, g'.watches w = true ↔ (ρ.put id none).WatcherAt c w := by
    intro w
    rw [hwatches, Registry.watcherAt_put_none, ← h.watchers c g hstep.before]
    simp
  refine h.cellStep hstep htouched (Registry.change_put hcell (by simp)) (by simp) hother
    (fun hid => .inl (hknown hid)) hw ?_
  rw [hwatched, h.watched]
  simp only [← hw, ← h.watchers c g hstep.before]
  constructor
  · rintro ⟨⟨w, hwg⟩, hleft⟩
    by_contra hnone
    have hall : ∀ w, g'.watches w = false := fun w => by simpa using fun hg' => hnone ⟨w, hg'⟩
    -- Whoever has left the cell was the only one there.
    have hid : w = id := by
      have := hall w
      rw [hwatches, hwg] at this
      simpa using this
    exact hleft ⟨hid ▸ hwg, hall⟩
  · rintro ⟨w, hwg⟩
    refine ⟨⟨w, ?_⟩, fun hnone => by simp [hnone.2 w] at hwg⟩
    rw [hwatches] at hwg
    exact (Bool.and_eq_true_iff.mp hwg).1

/-- `grid_update` of an object of the cell. -/
theorem Placed.gridUpdate {e : Entry} {pos : Pos} (h : Placed s ρ) (he : ρ id = some e)
    (hdone : s.gridUpdate e.cell id pos = .done s') :
    Placed s' (ρ.put id (some { e with pos := pos })) := by
  obtain ⟨g, g', touch, hstep, htouched, hwatches, htouch, hmoved, hwatched⟩ := gridUpdate_done hdone
  have hother : ∀ k ≠ id, g'.touch k = g.touch k := fun k hk => by simp [htouch k, hk]
  have hsame : ∀ w, (ρ.put id (some { e with pos := pos })).WatcherAt e.cell w ↔
      ρ.WatcherAt e.cell w := by
    intro w
    refine (Registry.watcherAt_put { e with pos := pos } w).trans ?_
    split
    · rename_i hw
      subst hw
      unfold Registry.WatcherAt
      simp [he]
    · rfl
  refine h.cellStep hstep htouched (Registry.change_put (by simp [he]) (by simp)) ?_ hother
    (fun _ => ?_) (fun w => ?_) ?_
  · simpa using h.marked id e he
  · -- Who may move has been touched before, or is in `objs`.
    have hmaker : (ρ.makerAt e.cell id).isSome →
        ((ρ.put id (some { e with pos := pos })).makerAt e.cell id).isSome := by
      unfold Registry.makerAt
      rw [he, Registry.put_self]
      by_cases hm : isMaker e.marked = true
      · simp [hm]
      · simp [hm]
    cases ht : g.touch id with
    | some t => exact (h.known _ g hstep.before id (by rw [ht]; rfl)).imp_right hmaker
    | none =>
      unfold Grid.moved at hmoved
      rw [ht] at hmoved
      exact .inl (Option.ite_none_right_eq_some.mp hmoved).1
  · rw [hsame, hwatches, h.watchers _ g hstep.before]
  · rw [hwatched, h.watched]
    exact exists_congr fun w => (hsame w).symm

/-- A maker that is added is touched, with its position: whatever `objs` has under its id no longer counts. -/
theorem Tracked.gridAdd {e : Entry} (h : Tracked s ρ) (hfree : ρ id = none)
    (hdone : s.gridAdd e.cell id e.marked e.pos = .done s') : Tracked s' (ρ.put id (some e)) := by
  obtain ⟨g, g', hstep, -, -, hempty, -, -, htouch, -⟩ := gridAdd_done hdone
  have hother : ∀ k ≠ id, g'.touch k = g.touch k := fun k hk => by simp [htouch k, hk]
  refine h.cellStep hstep (Registry.change_put (by simp [hfree]) (by simp)) hother ?_ ?_
  · have hbefore := h.effective _ g hstep.before id
    unfold Grid.effective Registry.makerAt at hbefore ⊢
    rw [htouch, hstep.objs]
    by_cases hm : isMaker e.marked = true
    · simp [hm, Touch.pos]
    · simpa [hm, hfree] using hbefore
  · have hbefore := h.fits _ g hstep.before id
    unfold Grid.Fits at hbefore ⊢
    rw [htouch, hstep.objs]
    by_cases hm : isMaker e.marked = true
    · simpa [hm] using (hempty hm).1
    · simpa [hm] using hbefore

/-- A maker that leaves is touched with a D if the last update knew it, and forgotten if not. -/
theorem Tracked.gridDelete (h : Tracked s ρ) (hcell : ∀ e ∈ ρ id, e.cell = c)
    (hdone : s.gridDelete c id = .done s') : Tracked s' (ρ.put id none) := by
  obtain ⟨g, g', hstep, -, -, htouch, -⟩ := gridDelete_done hdone
  have hother : ∀ k ≠ id, g'.touch k = g.touch k := fun k hk => by simp [htouch k, hk]
  refine h.cellStep hstep (Registry.change_put hcell (by simp)) hother ?_ ?_
  · unfold Grid.effective Registry.makerAt
    rw [htouch, hstep.objs, if_pos rfl, Registry.put_self]
    cases g.objs.get id <;> rfl
  · unfold Grid.Fits
    rw [htouch, hstep.objs, if_pos rfl]
    cases g.objs.get id <;> trivial

/-- A maker that moves within its cell is touched with the new position. -/
theorem Tracked.gridUpdate {e : Entry} {pos : Pos} (h : Tracked s ρ) (he : ρ id = some e)
    (hdone : s.gridUpdate e.cell id pos = .done s') :
    Tracked s' (ρ.put id (some { e with pos := pos })) := by
  obtain ⟨g, g', touch, hstep, -, -, htouch, hmoved, -⟩ := gridUpdate_done hdone
  have hother : ∀ k ≠ id, g'.touch k = g.touch k := fun k hk => by simp [htouch k, hk]
  obtain ⟨hpos, hfits⟩ := moved_spec g' hmoved
  refine h.cellStep hstep (Registry.change_put (by simp [he]) (by simp)) hother ?_
    (hfits hstep.objs (by simp [htouch]) (h.fits _ g hstep.before id))
  -- Who may move within a cell is a maker there.
  have hmaker : isMaker e.marked = true := by
    have heff := h.effective _ g hstep.before id
    have hsome : (g.effective id).isSome = true := by rw [← moved_isSome g id pos, hmoved]; rfl
    rw [heff] at hsome
    unfold Registry.makerAt at hsome
    rw [he, Option.bind_some] at hsome
    by_contra hm
    simp [hm] at hsome
  unfold Grid.effective Registry.makerAt
  rw [htouch, if_pos rfl, Registry.put_self, Option.bind_some, if_pos ⟨rfl, hmaker⟩]
  exact hpos

/-! ## What a cell has of an object -/

/-- What the last update left of a maker in a cell. -/
def objAt (s : Aoi Id) (c : Int) (id : Id) : Option Pos := (s.gridPool.get c).bind (·.objs.get id)

/-- What has happened to a maker in a cell since the last update. -/
def touchAt (s : Aoi Id) (c : Int) (id : Id) : Option Touch :=
  (s.gridPool.get c).bind (·.touch id)

/-- The two together. -/
def effectiveAt (s : Aoi Id) (c : Int) (id : Id) : Option Pos :=
  (s.gridPool.get c).bind (·.effective id)

/-- What the last update left, of a cell that is there. -/
theorem objAt_eq {g : Grid Id} (hg : s.gridPool.get c = some g) (id : Id) :
    s.objAt c id = g.objs.get id := by
  unfold objAt
  rw [hg]
  rfl

/-! ## A new cell -/

omit [DecidableEq Id] in
/-- The cell of a position on the map: it is there, or is made. -/
theorem getGridobjByPos_eq {pos : Pos} {s₁ : Aoi Id} (h : s.getGridobjByPos pos = some (c, s₁)) :
    s.map.Inside pos ∧ c = s.map.gridIdx pos ∧
      ((s.gridPool.get c).isSome ∧ s₁ = s ∨
        s.gridPool.get c = none ∧ s₁ = s.setGrid c (.new c)) := by
  unfold getGridobjByPos at h
  split at h
  · rename_i hin
    dsimp only at h
    split at h
    · rename_i hc
      cases h
      exact ⟨hin, rfl, .inl ⟨hc, rfl⟩⟩
    · rename_i hc
      cases h
      exact ⟨hin, rfl, .inr ⟨by simpa using hc, rfl⟩⟩
  · cases h

omit [DecidableEq Id] in
/-- The cell is there afterwards. -/
theorem getGridobjByPos_pooled {pos : Pos} {s₁ : Aoi Id}
    (h : s.getGridobjByPos pos = some (c, s₁)) : (s₁.gridPool.get c).isSome := by
  obtain ⟨-, -, ⟨hc, rfl⟩ | ⟨-, rfl⟩⟩ := getGridobjByPos_eq h
  · exact hc
  · unfold setGrid
    rw [Table.get_set_self]
    rfl

/-- Nothing is registered in a cell that is not there. -/
theorem Placed.empty_cell (h : Placed s ρ) (hc : s.gridPool.get c = none) (id : Id) :
    ∀ e ∈ ρ id, e.cell ≠ c := by
  rintro e he rfl
  have := h.pooled id e he
  rw [hc] at this
  cases this

omit [DecidableEq Id] in
/-- A cell after a new one was made is the new one, or was there before. -/
theorem setGrid_cases {c' : Int} {g₁ : Grid Id} (h : (s.setGrid c g).gridPool.get c' = some g₁) :
    c' = c ∧ g₁ = g ∨ c' ≠ c ∧ s.gridPool.get c' = some g₁ := by
  unfold setGrid at h
  rw [Table.get_set] at h
  split at h
  · rename_i hc
    cases h
    exact .inl ⟨hc, rfl⟩
  · rename_i hc
    exact .inr ⟨hc, h⟩

omit [DecidableEq Id] in
/-- The cells that were there still are. -/
theorem setGrid_pooled {c' : Int} (h : (s.gridPool.get c').isSome) :
    ((s.setGrid c g).gridPool.get c').isSome := by
  unfold setGrid
  rw [Table.get_set]
  split
  · rfl
  · exact h

/-- A new cell has no watchers and is not touched. -/
theorem Placed.newGrid (h : Placed s ρ) (hc : s.gridPool.get c = none) :
    Placed (s.setGrid c (.new c)) ρ where
  pooled id e he := setGrid_pooled (h.pooled id e he)
  marked := h.marked
  watchers c' g₁ hg₁ w := by
    obtain ⟨rfl, rfl⟩ | ⟨hc', hg₁⟩ := setGrid_cases hg₁
    · refine iff_of_false (by simp [Grid.watches, Grid.new]) ?_
      rintro ⟨e, he, hcell, -⟩
      exact h.empty_cell hc w e he hcell
    · exact h.watchers c' g₁ hg₁ w
  watched := h.watched
  touchedPooled c' hc' := setGrid_pooled (h.touchedPooled c' hc')
  pending c' g₁ hg₁ id hid := by
    obtain ⟨rfl, rfl⟩ | ⟨hc', hg₁⟩ := setGrid_cases hg₁
    · simp [Grid.touch, Grid.new] at hid
    · exact h.pending c' g₁ hg₁ id hid
  known c' g₁ hg₁ id hid := by
    obtain ⟨rfl, rfl⟩ | ⟨hc', hg₁⟩ := setGrid_cases hg₁
    · simp [Grid.touch, Grid.new] at hid
    · exact h.known c' g₁ hg₁ id hid
  moved := h.moved
  merge c' g₁ hg₁ merge hmerge := by
    obtain ⟨rfl, rfl⟩ | ⟨hc', hg₁⟩ := setGrid_cases hg₁
    · simp [Grid.new] at hmerge
    · exact h.merge c' g₁ hg₁ merge hmerge
  uncached := by
    refine ⟨fun c' g₁ hg₁ st => ?_, h.uncached.touched⟩
    obtain ⟨rfl, rfl⟩ | ⟨hc', hg₁⟩ := setGrid_cases hg₁
    · rfl
    · exact h.uncached.result c' g₁ hg₁ st

/-- A new cell has no makers, and none is registered in it. -/
theorem Tracked.newGrid (h : Tracked s ρ) (hplaced : Placed s ρ) (hc : s.gridPool.get c = none) :
    Tracked (s.setGrid c (.new c)) ρ where
  effective c' g₁ hg₁ id := by
    obtain ⟨rfl, rfl⟩ | ⟨hc', hg₁⟩ := setGrid_cases hg₁
    · have hnew : (Grid.new c' : Grid Id).effective id = none := by
        simp [Grid.effective, Grid.touch, Grid.new]
      rw [hnew]
      unfold Registry.makerAt
      cases hid : ρ id with
      | none => rfl
      | some e => exact (if_neg fun he => hplaced.empty_cell hc id e hid he.1).symm
    · exact h.effective c' g₁ hg₁ id
  fits c' g₁ hg₁ id := by
    obtain ⟨rfl, rfl⟩ | ⟨hc', hg₁⟩ := setGrid_cases hg₁
    · simp [Grid.Fits, Grid.touch, Grid.new]
    · exact h.fits c' g₁ hg₁ id

/-- `Placed` through the look for a cell. -/
theorem Placed.getGridobjByPos {pos : Pos} {s₁ : Aoi Id} (h : Placed s ρ)
    (heq : s.getGridobjByPos pos = some (c, s₁)) : Placed s₁ ρ := by
  obtain ⟨-, -, ⟨-, rfl⟩ | ⟨hc, rfl⟩⟩ := getGridobjByPos_eq heq
  · exact h
  · exact h.newGrid hc

/-- `Tracked` through the look for a cell. -/
theorem Tracked.getGridobjByPos {pos : Pos} {s₁ : Aoi Id} (h : Tracked s ρ) (hplaced : Placed s ρ)
    (heq : s.getGridobjByPos pos = some (c, s₁)) : Tracked s₁ ρ := by
  obtain ⟨-, -, ⟨-, rfl⟩ | ⟨hc, rfl⟩⟩ := getGridobjByPos_eq heq
  · exact h
  · exact h.newGrid hplaced hc

end Aoi

end AntServer.Scene
