/-
# AntServer.Scene.View — what the watchers see

A watcher that applies what it is sent, in the order of the list, should have in its replica the makers
in the cells around it. What it is sent about one maker depends on the cell the maker was in and on
the one it is in now: a maker that stays is updated, or comes into or goes out of sight with its cell;
one that moves is deleted in one cell and inserted in another. The insertion must come last, and both
once, and that is a matter of the order of the cells (`InOrder`). A watcher that was removed and added
again is told what changes in the cells it saw before, although its replica is empty.
-/
import AntServer.Scene.Messages
import AntServer.Scene.World

namespace AntServer.Scene

open Lib (Table Machine Change)

variable {Id : Type} [DecidableEq Id]

/-! ## The condition on an update -/

def Touch.isA : Touch → Bool
  | .A _ => true
  | _ => false

namespace Aoi

/-- A message that inserts a maker that has come into the cell. -/
def Appears (s : Aoi Id) (id : Id) (m : Message) : Prop :=
  m.2 = .GU ∧ (s.touchAt m.1 id).any Touch.isA = true

/-- A message that deletes a maker that has gone out of the cell. -/
def Vanishes (s : Aoi Id) (id : Id) (m : Message) : Prop := m.2 ≠ .GA ∧ s.touchAt m.1 id = some .D

instance (s : Aoi Id) (id : Id) (m : Message) : Decidable (s.Appears id m) :=
  inferInstanceAs (Decidable (_ ∧ _))

instance (s : Aoi Id) (id : Id) (m : Message) : Decidable (s.Vanishes id m) :=
  inferInstanceAs (Decidable (_ ∧ _))

/-- The makers to which something has happened in a cell. -/
def touchedIds (s : Aoi Id) (c : Int) : List Id :=
  (((s.gridPool.get c).bind Grid.touchs).getD .empty).keys

/-- No maker is inserted before it is deleted, and none twice. -/
def InOrder (s : Aoi Id) (ms : List Message) : Prop :=
  ms.Pairwise fun m m' => ∀ id ∈ s.touchedIds m.1,
    ¬ (s.Appears id m ∧ (s.Appears id m' ∨ s.Vanishes id m')) ∧
      ¬ (s.Vanishes id m ∧ s.Vanishes id m')

instance (s : Aoi Id) (ms : List Message) : Decidable (s.InOrder ms) :=
  inferInstanceAs (Decidable (ms.Pairwise fun m m' => ∀ id ∈ s.touchedIds m.1,
    ¬ (s.Appears id m ∧ (s.Appears id m' ∨ s.Vanishes id m')) ∧
      ¬ (s.Vanishes id m ∧ s.Vanishes id m')))

/-- The cells have no makers. -/
def Vacant (s : Aoi Id) (cs : List Int) : Prop :=
  ∀ k ∈ cs, ∀ g ∈ s.gridPool.get k, g.objs.isEmpty = true

instance (s : Aoi Id) (cs : List Int) : Decidable (s.Vacant cs) :=
  inferInstanceAs (Decidable (∀ k ∈ cs, ∀ g ∈ s.gridPool.get k, g.objs.isEmpty = true))

end Aoi

namespace World

/-- The condition on an update: no `merge` is left in a cell with `touchs`; every watcher is told about
the makers that move in the order in which they do; and a watcher that was added since the last update
has no makers around the cell that is recorded as its last. -/
def Orderly (w : World Id) : Op Id → Prop
  | .update order => ∀ c ∈ w.aoi.gridPool.keys, (∀ g ∈ w.aoi.gridPool.get c, g.Fresh) ∧
      ∀ id ∈ w.aoi.watchersAt c, w.aoi.InOrder (w.aoi.watcherMessages order id c) ∧
        ((w.joined.get id).isSome → w.aoi.Vacant (w.aoi.seenBefore id))
  | _ => True

instance (w : World Id) (op : Op Id) : Decidable (w.Orderly op) :=
  match op with
  | .add _ _ _ => isTrue trivial
  | .remove _ => isTrue trivial
  | .set _ _ => isTrue trivial
  | .update order => inferInstanceAs (Decidable (∀ c ∈ w.aoi.gridPool.keys,
      (∀ g ∈ w.aoi.gridPool.get c, g.Fresh) ∧
      ∀ id ∈ w.aoi.watchersAt c, w.aoi.InOrder (w.aoi.watcherMessages order id c) ∧
        ((w.joined.get id).isSome → w.aoi.Vacant (w.aoi.seenBefore id))))

/-- The replica of every watcher has the makers in the cells around it, where they are. -/
def Consistent (w : World Id) : Prop :=
  ∀ id c, w.aoi.objidToGrididx.get id = some c → isWatcher (w.aoi.mark id) = true →
    ∀ k pos, (w.replica id).get k = some pos ↔ ∃ c' ∈ w.aoi.get9Gridobj c,
      w.aoi.objidToGrididx.get k = some c' ∧ isMaker (w.aoi.mark k) = true ∧
        w.given.get k = some pos

end World

/-! ## What a message says about one maker -/

namespace Aoi

variable {s s' : Aoi Id} {ρ : Registry Id} {order : PairsOrder Id} {c k : Int} {id w : Id}
  {m : Message} {st : GridStatus}

/-- The change that a message has for a maker. -/
def changeAt (s : Aoi Id) (id : Id) (m : Message) : Option (Change Pos) :=
  (s.data m).bind fun records => (changes records).get id

theorem changesOf_eq (s : Aoi Id) (ms : List Message) (id : Id) :
    Lib.Replica.changesOf ((ms.filterMap s.data).map changes) id = ms.filterMap (s.changeAt id) := by
  unfold Lib.Replica.changesOf
  rw [List.map_filterMap, List.filterMap_filterMap]
  refine congrArg (List.filterMap · ms) (funext fun m => ?_)
  unfold changeAt
  cases s.data m <;> rfl

/-- The entry of a table of records made of another table. -/
theorem get_changes_unlessEmpty {V : Type} (t : Table Id V) (f : V → Record) (id : Id) :
    ((unlessEmpty t (t.filterMap fun _ v => some (f v))).bind fun records => (changes records).get id) =
      (t.get id).map fun v => (f v).change := by
  unfold unlessEmpty
  split
  · rename_i h
    rw [Table.isEmpty_iff.mp h id]
    rfl
  · rw [Option.bind_some]
    unfold changes
    rw [Table.get_filterMap, Table.get_filterMap]
    cases t.get id <;> rfl

theorem changeAt_gu (s : Aoi Id) (id : Id) (k : Int) :
    s.changeAt id (k, .GU) = (s.touchAt k id).map fun touch => touch.record.change := by
  unfold changeAt data touchAt
  cases s.gridPool.get k with
  | none => rfl
  | some g =>
    change (g.guData.bind _) = (g.touch id).map _
    unfold Grid.guData Grid.touch
    cases g.touchs with
    | none => rfl
    | some touchs => exact get_changes_unlessEmpty touchs Touch.record id

theorem changeAt_gd (s : Aoi Id) (id : Id) (k : Int) :
    s.changeAt id (k, .GD) = (s.objAt k id).map fun _ => .delete := by
  unfold changeAt data objAt
  cases s.gridPool.get k with
  | none => rfl
  | some g => exact get_changes_unlessEmpty g.objs (fun pos => .D (some pos)) id

theorem Placed.changeAt_ga (h : Placed s ρ) (hfresh : s.NoStaleMerge) (id : Id) (k : Int) :
    s.changeAt id (k, .GA) = (s.effectiveAt k id).map .insert := by
  unfold changeAt data effectiveAt
  cases hg : s.gridPool.get k with
  | none => rfl
  | some g =>
    refine (get_changes_unlessEmpty g.merged Record.A id).trans ?_
    rw [Grid.merged_get (h.merge k g hg) (hfresh k g hg)]
    rfl

/-- What a cell has of a maker: nothing happened, or it came in, was moved within the cell, or left. -/
theorem Tracked.entry (h : Tracked s ρ) (k : Int) (id : Id) :
    s.touchAt k id = none ∧ s.effectiveAt k id = s.objAt k id ∨
      (∃ pos, s.touchAt k id = some (.A pos) ∧ s.objAt k id = none ∧
        s.effectiveAt k id = some pos) ∨
      (∃ pos pos', s.touchAt k id = some (.U pos) ∧ s.objAt k id = some pos' ∧
        s.effectiveAt k id = some pos) ∨
      ∃ pos, s.touchAt k id = some .D ∧ s.objAt k id = some pos ∧ s.effectiveAt k id = none := by
  unfold touchAt objAt effectiveAt
  cases hg : s.gridPool.get k with
  | none => exact .inl ⟨rfl, rfl⟩
  | some g =>
    have hfits := h.fits k g hg id
    unfold Grid.Fits at hfits
    simp only [Option.bind_some]
    unfold Grid.effective
    cases ht : g.touch id with
    | none => exact .inl ⟨rfl, rfl⟩
    | some touch =>
      rw [ht] at hfits
      cases touch with
      | A pos => exact .inr (.inl ⟨pos, rfl, hfits, rfl⟩)
      | U pos =>
        obtain ⟨pos', hpos'⟩ := Option.isSome_iff_exists.mp hfits
        exact .inr (.inr (.inl ⟨pos, pos', rfl, hpos', rfl⟩))
      | D =>
        obtain ⟨pos, hpos⟩ := Option.isSome_iff_exists.mp hfits
        exact .inr (.inr (.inr ⟨pos, rfl, hpos, rfl⟩))

/-- A maker that a cell had and has no more has left it. -/
theorem Tracked.gone (h : Tracked s ρ) {pos : Pos} (ho : s.objAt k id = some pos)
    (he : s.effectiveAt k id = none) : s.touchAt k id = some .D := by
  obtain ⟨-, he'⟩ | ⟨pos', -, ho', -⟩ | ⟨pos', pos'', -, -, he'⟩ | ⟨pos', ht, -, -⟩ := h.entry k id
  · rw [he, ho] at he'
    cases he'
  · rw [ho] at ho'
    cases ho'
  · rw [he] at he'
    cases he'
  · exact ht

/-- A maker that a cell has and did not have has come into it. -/
theorem Tracked.came (h : Tracked s ρ) {pos : Pos} (ho : s.objAt k id = none)
    (he : s.effectiveAt k id = some pos) : s.touchAt k id = some (.A pos) := by
  obtain ⟨-, he'⟩ | ⟨pos', ht, -, he'⟩ | ⟨pos', pos'', -, ho', -⟩ | ⟨pos', -, ho', -⟩ := h.entry k id
  · rw [he, ho] at he'
    cases he'
  · rw [he] at he'
    cases he'
    exact ht
  · rw [ho] at ho'
    cases ho'
  · rw [ho] at ho'
    cases ho'

/-- Who has left a cell was there. -/
theorem Tracked.was_there (h : Tracked s ρ) (ht : s.touchAt k id = some .D) :
    (s.objAt k id).isSome := by
  obtain ⟨ht', -⟩ | ⟨pos, ht', -⟩ | ⟨pos, pos', ht', -⟩ | ⟨pos, -, ho, -⟩ := h.entry k id
  · rw [ht] at ht'
    cases ht'
  · rw [ht] at ht'
    cases ht'
  · rw [ht] at ht'
    cases ht'
  · rw [ho]
    rfl

theorem Tracked.effectiveAt (h : Tracked s ρ) (hplaced : Placed s ρ) (k : Int) (id : Id) :
    s.effectiveAt k id = ρ.makerAt k id := by
  unfold Aoi.effectiveAt
  cases hg : s.gridPool.get k with
  | none =>
    unfold Registry.makerAt
    cases hid : ρ id with
    | none => rfl
    | some e => exact (if_neg fun he => hplaced.empty_cell hg id e hid he.1).symm
  | some g => exact h.effective k g hg id

omit [DecidableEq Id] in
theorem makerAt_unique {k' : Int} (h : (ρ.makerAt k id).isSome) (h' : (ρ.makerAt k' id).isSome) :
    k = k' := by
  unfold Registry.makerAt at h h'
  cases hid : ρ id with
  | none =>
    rw [hid] at h
    cases h
  | some e =>
    rw [hid, Option.bind_some] at h h'
    split at h
    · rename_i he
      split at h'
      · rename_i he'
        exact he.1.symm.trans he'.1
      · cases h'
    · cases h

/-! ## The messages to a watcher, once more -/

/-- A watcher in its last cell sees the cells it saw before. -/
theorem seenBefore_self (hpooled : (s.gridPool.get c).isSome)
    (hlast : s.lastWatchidToGrididx.get w = some c) : s.seenBefore w = s.get9Gridobj c := by
  unfold seenBefore lastGrid
  rw [hlast, Option.filter_some, if_pos hpooled]
  rfl

theorem mem_watcherMessages (hpooled : (s.gridPool.get c).isSome) :
    (k, st) ∈ s.watcherMessages order w c ↔
      match st with
      | .GU => k ∈ s.seenBefore w ∧ k ∈ s.get9Gridobj c
      | .GD => k ∈ s.seenBefore w ∧ k ∉ s.get9Gridobj c
      | .GA => k ∉ s.seenBefore w ∧ k ∈ s.get9Gridobj c := by
  unfold watcherMessages
  split
  · rename_i hlast
    rw [seenBefore_self hpooled hlast]
    cases st <;> simp
  · exact mem_changeMessages

/-- What is seen anew comes last. -/
theorem watcherMessages_ga (s : Aoi Id) (order : PairsOrder Id) (w : Id) (c : Int) :
    (s.watcherMessages order w c).Pairwise fun m m' => m.2 = .GA → m'.2 = .GA := by
  unfold watcherMessages
  split
  · refine List.pairwise_of_forall_mem_list fun m hm m' hm' => ?_
    obtain ⟨k, -, rfl⟩ := List.mem_map.mp hm
    intro hga
    cases hga
  · rw [changeMessages_eq]
    unfold told
    rw [List.pairwise_append]
    have hga : ∀ l : List Int, ∀ m ∈ l.map (·, GridStatus.GA), m.2 = .GA := by
      intro l m hm
      obtain ⟨k, -, rfl⟩ := List.mem_map.mp hm
      rfl
    refine ⟨List.pairwise_of_forall_mem_list fun m hm m' _ hm₂ => ?_,
      List.pairwise_of_forall_mem_list fun m _ m' hm' _ => hga _ m' hm', fun m _ m' hm' _ => hga _ m' hm'⟩
    obtain hm | hm := List.mem_append.mp hm
    · obtain ⟨k, -, rfl⟩ := List.mem_map.mp hm
      cases hm₂
    · obtain ⟨k, -, rfl⟩ := List.mem_map.mp hm
      dsimp only at hm₂
      split at hm₂ <;> cases hm₂

/-- A watcher that has changed its cell gets one message about each cell. -/
theorem watcherMessages_nodup (order : PairsOrder Id) (hlast : s.lastWatchidToGrididx.get w ≠ some c) :
    ((s.watcherMessages order w c).map Prod.fst).Nodup := by
  unfold watcherMessages
  rw [if_neg hlast]
  refine changeMessages_nodup fun hgrid => hlast ?_
  unfold lastGrid at hgrid
  exact (Option.filter_eq_some_iff.mp hgrid).1

/-! ## The replica of a watcher -/

/-- The replica has the makers that the cells had when the watcher was last told about them. -/
def Shows (s : Aoi Id) (w : Id) (r : Table Id Pos) : Prop :=
  ∀ id pos, r.get id = some pos ↔ ∃ k ∈ s.seenBefore w, s.objAt k id = some pos

/-- A maker is in `objs` of one cell only. -/
def Single (s : Aoi Id) : Prop :=
  ∀ id k k', (s.objAt k id).isSome → (s.objAt k' id).isSome → k = k'

/-- A cell that neither had the maker nor has it now says nothing about it. -/
theorem changeAt_none (h : Placed s ρ) (htracked : Tracked s ρ) (hfresh : s.NoStaleMerge)
    (hobj : s.objAt m.1 id = none) (heff : s.effectiveAt m.1 id = none) : s.changeAt id m = none := by
  have htouch : s.touchAt m.1 id = none := by
    obtain ⟨ht, -⟩ | ⟨pos, -, -, he⟩ | ⟨pos, pos', -, ho, -⟩ | ⟨pos, -, ho, -⟩ :=
      htracked.entry m.1 id
    · exact ht
    · rw [heff] at he
      cases he
    · rw [hobj] at ho
      cases ho
    · rw [hobj] at ho
      cases ho
  obtain ⟨k, st⟩ := m
  cases st with
  | GU => rw [changeAt_gu, htouch]; rfl
  | GD => rw [changeAt_gd, hobj]; rfl
  | GA => rw [h.changeAt_ga hfresh, heff]; rfl

/-- A maker that stays in the cell `k` is updated, or comes into sight or goes out of it. -/
theorem follow_stays (h : Placed s ρ) (htracked : Tracked s ρ) (hfresh : s.NoStaleMerge)
    (hsingle : s.Single) (hpooled : (s.gridPool.get c).isSome) {old new : Pos}
    (hold : s.objAt k id = some old) (hnew : s.effectiveAt k id = some new) {x : Option Pos}
    (hx : x = if k ∈ s.seenBefore w then some old else none) :
    Change.follow x ((s.watcherMessages order w c).filterMap (s.changeAt id)) =
      some (if k ∈ s.get9Gridobj c then some new else none) := by
  have hother : ∀ m ∈ s.watcherMessages order w c, m.1 ≠ k → s.changeAt id m = none := by
    intro m _ hm
    refine changeAt_none h htracked hfresh ?_ ?_
    · by_contra hobj
      exact hm (hsingle id m.1 k (Option.isSome_iff_ne_none.mpr hobj) (by rw [hold]; rfl))
    · rw [htracked.effectiveAt h] at hnew ⊢
      by_contra heff
      exact hm (makerAt_unique (Option.isSome_iff_ne_none.mpr heff) (by rw [hnew]; rfl))
  have hmem : ∀ st, (k, st) ∈ s.watcherMessages order w c ↔ _ := fun st => mem_watcherMessages hpooled
  -- Out of sight before or now, the watcher has changed its cell.
  have hnodup : ¬ (k ∈ s.seenBefore w ↔ k ∈ s.get9Gridobj c) →
      ((s.watcherMessages order w c).map Prod.fst).Nodup := by
    refine fun hne => watcherMessages_nodup order fun hlast => hne ?_
    rw [seenBefore_self hpooled hlast]
  rw [hx]
  by_cases hseen : k ∈ s.seenBefore w <;> by_cases hsees : k ∈ s.get9Gridobj c
  · rw [if_pos hseen, if_pos hsees]
    have hupdate : ∀ ch ∈ (s.watcherMessages order w c).filterMap (s.changeAt id),
        ch = .update new ∧ s.touchAt k id ≠ none := by
      intro ch hch
      obtain ⟨⟨k', st⟩, hm, hchange⟩ := List.mem_filterMap.mp hch
      by_cases hk : k' = k
      · subst hk
        have := (hmem st).mp hm
        cases st with
        | GD => exact absurd hsees this.2
        | GA => exact absurd hseen this.1
        | GU =>
          rw [changeAt_gu] at hchange
          obtain ⟨ht, -⟩ | ⟨pos, -, ho, -⟩ | ⟨pos, pos', ht, -, he⟩ | ⟨pos, -, -, he⟩ :=
            htracked.entry k' id
          · rw [ht] at hchange
            cases hchange
          · rw [hold] at ho
            cases ho
          · rw [ht] at hchange ⊢
            rw [hnew] at he
            cases he
            cases hchange
            exact ⟨rfl, nofun⟩
          · rw [hnew] at he
            cases he
      · rw [hother _ hm hk] at hchange
        cases hchange
    by_cases hnil : (s.watcherMessages order w c).filterMap (s.changeAt id) = []
    · -- Nothing has happened to the maker.
      have ht : s.touchAt k id = none := by
        have hnone := List.filterMap_eq_nil_iff.mp hnil (k, .GU) ((hmem .GU).mpr ⟨hseen, hsees⟩)
        rw [changeAt_gu] at hnone
        simpa using hnone
      obtain ⟨-, he⟩ | ⟨pos, ht', -⟩ | ⟨pos, pos', ht', -⟩ | ⟨pos, ht', -⟩ := htracked.entry k id
      · rw [hold, hnew] at he
        cases he
        rw [hnil]
        rfl
      all_goals rw [ht] at ht'; cases ht'
    · exact Change.follow_updates (fun ch hch => (hupdate ch hch).1) hnil
  · rw [if_pos hseen, if_neg hsees]
    have hm := (hmem .GD).mpr ⟨hseen, hsees⟩
    rw [Change.filterMap_single (hnodup (by simp [hseen, hsees])) hm hother, changeAt_gd, hold]
    rfl
  · rw [if_neg hseen, if_pos hsees]
    have hm := (hmem .GA).mpr ⟨hseen, hsees⟩
    rw [Change.filterMap_single (hnodup (by simp [hseen, hsees])) hm hother, h.changeAt_ga hfresh, hnew]
    rfl
  · rw [if_neg hseen, if_neg hsees]
    have hnil : (s.watcherMessages order w c).filterMap (s.changeAt id) = [] := by
      rw [List.filterMap_eq_nil_iff]
      intro m hm
      refine hother m hm ?_
      rintro rfl
      have := mem_watcherMessages hpooled |>.mp (show (m.1, m.2) ∈ _ from hm)
      revert this
      cases m.2 with
      | GU => exact fun this => hseen this.1
      | GD => exact fun this => hseen this.1
      | GA => exact fun this => hsees this.2
    rw [hnil]
    rfl

/-- A cell in which a maker does not stay inserts it, or deletes it, or says nothing. -/
theorem change_moves (h : Placed s ρ) (htracked : Tracked s ρ) (hfresh : s.NoStaleMerge)
    (hboth : s.objAt m.1 id = none ∨ s.effectiveAt m.1 id = none) :
    s.changeAt id m = none ∨
      (∃ pos, s.changeAt id m = some (.insert pos) ∧ s.effectiveAt m.1 id = some pos ∧ m.2 ≠ .GD ∧
        (s.touchAt m.1 id).any Touch.isA = true) ∨
      s.changeAt id m = some .delete ∧ s.Vanishes id m := by
  obtain ⟨k, st⟩ := m
  unfold Vanishes
  dsimp only at hboth ⊢
  obtain ⟨-, he⟩ | ⟨pos, ht, ho, he⟩ | ⟨pos, pos', -, ho, he⟩ | ⟨pos, ht, ho, he⟩ :=
    htracked.entry k id
  · have hnone : s.objAt k id = none := hboth.elim (fun h => h) fun h => he.symm.trans h
    exact .inl (changeAt_none h htracked hfresh hnone (he.trans hnone))
  · cases st with
    | GU => exact .inr (.inl ⟨pos, by rw [changeAt_gu, ht]; rfl, he, nofun, by rw [ht]; rfl⟩)
    | GD => exact .inl (by rw [changeAt_gd, ho]; rfl)
    | GA => exact .inr (.inl ⟨pos, by rw [h.changeAt_ga hfresh, he]; rfl, he, nofun, by rw [ht]; rfl⟩)
  · rw [ho, he] at hboth
    simp at hboth
  · cases st with
    | GU => exact .inr (.inr ⟨by rw [changeAt_gu, ht]; rfl, nofun, ht⟩)
    | GD => exact .inr (.inr ⟨by rw [changeAt_gd, ho]; rfl, nofun, ht⟩)
    | GA => exact .inl (by rw [h.changeAt_ga hfresh, he]; rfl)

/-- What the order of the messages to a watcher keeps apart. -/
theorem pairwise_watcherMessages (id : Id) (horder : s.InOrder (s.watcherMessages order w c)) :
    (s.watcherMessages order w c).Pairwise fun m m' =>
      ((s.touchAt m.1 id).isSome → ¬ (s.Appears id m ∧ (s.Appears id m' ∨ s.Vanishes id m')) ∧
        ¬ (s.Vanishes id m ∧ s.Vanishes id m')) ∧
      (m.2 = .GA → m'.2 = .GA) ∧ (m.1 = m'.1 → m.2 = .GU ∧ m'.2 = .GU) := by
  have hcells : (s.watcherMessages order w c).Pairwise
      fun m m' => m.1 = m'.1 → m.2 = .GU ∧ m'.2 = .GU := by
    by_cases hlast : s.lastWatchidToGrididx.get w = some c
    · have hgu : ∀ m ∈ s.watcherMessages order w c, m.2 = .GU := by
        unfold watcherMessages
        rw [if_pos hlast]
        intro m hm
        obtain ⟨k, -, rfl⟩ := List.mem_map.mp hm
        rfl
      exact List.pairwise_of_forall_mem_list fun m hm m' hm' _ => ⟨hgu m hm, hgu m' hm'⟩
    · exact (List.pairwise_map.mp (watcherMessages_nodup order hlast)).imp
        fun hne heq => absurd heq hne
  refine (horder.and ((s.watcherMessages_ga order w c).and hcells)).imp fun hm => ⟨fun ht => ?_, hm.2⟩
  refine hm.1 id ?_
  unfold touchedIds
  rw [Table.mem_keys]
  unfold touchAt Grid.touch at ht
  revert ht
  cases s.gridPool.get _ with
  | none => exact nofun
  | some g =>
    simp only [Option.bind_some]
    cases g.touchs with
    | none => exact nofun
    | some touchs => exact fun h => h

/-- A maker that stays in no cell is deleted where it was, and inserted where it is. -/
theorem follow_moves (h : Placed s ρ) (htracked : Tracked s ρ) (hfresh : s.NoStaleMerge)
    (hpooled : (s.gridPool.get c).isSome)
    (horder : s.InOrder (s.watcherMessages order w c))
    (hboth : ∀ k, s.objAt k id = none ∨ s.effectiveAt k id = none) {x : Option Pos}
    (hx : x.isSome ↔ ∃ k ∈ s.seenBefore w, (s.objAt k id).isSome) (cn : Int) (new : Pos)
    (hnew : ∀ k pos, s.effectiveAt k id = some pos → k = cn ∧ pos = new) {y : Option Pos}
    (hy : y = if cn ∈ s.get9Gridobj c ∧ s.effectiveAt cn id = some new then some new else none) :
    Change.follow x ((s.watcherMessages order w c).filterMap (s.changeAt id)) = some y := by
  have hmem : ∀ k st, (k, st) ∈ s.watcherMessages order w c ↔ _ :=
    fun k st => mem_watcherMessages hpooled
  have hmoves := fun m : Message => change_moves (m := m) h htracked hfresh (hboth m.1)
  have htouch : ∀ m, s.changeAt id m ≠ none → (s.touchAt m.1 id).isSome := by
    intro m hm
    obtain hm' | ⟨-, -, -, -, ht⟩ | ⟨-, -, ht⟩ := hmoves m
    · exact absurd hm' hm
    · cases htm : s.touchAt m.1 id with
      | none => rw [htm] at ht; cases ht
      | some _ => rfl
    · rw [ht]
      rfl
  have hdelete : ∀ m, s.changeAt id m = some .delete → s.Vanishes id m := by
    intro m hm
    obtain hm' | ⟨pos, hm', -⟩ | ⟨-, hv⟩ := hmoves m
    · rw [hm] at hm'
      cases hm'
    · rw [hm] at hm'
      cases hm'
    · exact hv
  have hinsert : ∀ m, s.changeAt id m = some (.insert new) →
      m.1 = cn ∧ m.2 ≠ .GD ∧ (s.touchAt m.1 id).any Touch.isA = true := by
    intro m hm
    obtain hm' | ⟨pos, -, he, hst, ht⟩ | ⟨hm', -⟩ := hmoves m
    · rw [hm] at hm'
      cases hm'
    · exact ⟨(hnew _ _ he).1, hst, ht⟩
    · rw [hm] at hm'
      cases hm'
  refine Change.follow_moved (v := new) (fun m _ => ?_) ?_ ?_ ?_ ?_
  · obtain hm | ⟨pos, hm, he, -⟩ | ⟨hm, -⟩ := hmoves m
    · exact .inl hm
    · rw [← (hnew _ _ he).2]
      exact .inr (.inl hm)
    · exact .inr (.inr hm)
  · refine (pairwise_watcherMessages id horder).imp fun {m m'} hm => ⟨?_, ?_⟩
    · rintro ⟨hins, hsome⟩
      obtain ⟨hcell, hst, ht⟩ := hinsert m hins
      obtain ⟨hkeeps, hga, hsame⟩ := hm
      have hkeeps := hkeeps (htouch m (by rw [hins]; nofun))
      obtain hm' | ⟨pos, -, he, hst', ht'⟩ | ⟨-, hv⟩ := hmoves m'
      · rw [hm'] at hsome
        cases hsome
      · -- Both would insert, so they are about one cell.
        obtain ⟨hgu, hgu'⟩ := hsame (hcell.trans (hnew _ _ he).1.symm)
        exact hkeeps.1 ⟨⟨hgu, ht⟩, .inl ⟨hgu', ht'⟩⟩
      · by_cases hmga : m.2 = .GA
        · exact hv.1 (hga hmga)
        · have hgu : m.2 = .GU := by
            cases hm₂ : m.2 with
            | GU => rfl
            | GD => exact absurd hm₂ hst
            | GA => exact absurd hm₂ hmga
          exact hkeeps.1 ⟨⟨hgu, ht⟩, .inr hv⟩
    · rintro ⟨hdel, hdel'⟩
      exact (hm.1 (htouch m (by rw [hdel]; nofun))).2 ⟨hdelete m hdel, hdelete m' hdel'⟩
  · rw [hx]
    constructor
    · rintro ⟨k, hk, ho⟩
      obtain ⟨pos, ho⟩ := Option.isSome_iff_exists.mp ho
      have he : s.effectiveAt k id = none := (hboth k).resolve_left (by rw [ho]; nofun)
      have ht := htracked.gone ho he
      by_cases hsees : k ∈ s.get9Gridobj c
      · exact ⟨(k, .GU), (hmem k .GU).mpr ⟨hk, hsees⟩, by rw [changeAt_gu, ht]; rfl⟩
      · exact ⟨(k, .GD), (hmem k .GD).mpr ⟨hk, hsees⟩, by rw [changeAt_gd, ho]; rfl⟩
    · rintro ⟨⟨k, st⟩, hm, hdel⟩
      obtain ⟨hst, ht⟩ := hdelete _ hdel
      have hseen : k ∈ s.seenBefore w := by
        have := (hmem k st).mp hm
        cases st with
        | GU => exact this.1
        | GD => exact this.1
        | GA => exact absurd rfl hst
      exact ⟨k, hseen, htracked.was_there ht⟩
  · rintro ⟨⟨k, st⟩, hm, hins⟩
    obtain ⟨hcell, hst, -⟩ := hinsert _ hins
    dsimp only at hcell hst
    subst hcell
    have hsees : k ∈ s.get9Gridobj c := by
      have := (hmem k st).mp hm
      cases st with
      | GU => exact this.2
      | GD => exact absurd rfl hst
      | GA => exact this.2
    obtain hm' | ⟨pos, -, he, -⟩ | ⟨hm', -⟩ := hmoves (k, st)
    · rw [hins] at hm'
      cases hm'
    · rw [hy, if_pos ⟨hsees, (hnew k pos he).2 ▸ he⟩]
    · rw [hins] at hm'
      cases hm'
  · intro hno
    rw [hy, if_neg]
    rintro ⟨hsees, he⟩
    have ho : s.objAt cn id = none := (hboth cn).resolve_right (by rw [he]; nofun)
    have ht := htracked.came ho he
    by_cases hseen : cn ∈ s.seenBefore w
    · exact hno (cn, .GU) ((hmem cn .GU).mpr ⟨hseen, hsees⟩) (by rw [changeAt_gu, ht]; rfl)
    · exact hno (cn, .GA) ((hmem cn .GA).mpr ⟨hseen, hsees⟩) (by rw [h.changeAt_ga hfresh, he]; rfl)

/-- What a watcher is sent about one maker fits its replica, and leaves the maker there if and only if it
is in a cell around the watcher. -/
theorem follow_maker (h : Placed s ρ) (htracked : Tracked s ρ) (hfresh : s.NoStaleMerge)
    (hsingle : s.Single) (hpooled : (s.gridPool.get c).isSome)
    (horder : s.InOrder (s.watcherMessages order w c)) {r : Table Id Pos} (hshows : s.Shows w r)
    (id : Id) : ∃ y, Change.follow (r.get id)
        ((s.watcherMessages order w c).filterMap (s.changeAt id)) = some y ∧
      ∀ pos, y = some pos ↔ ∃ k ∈ s.get9Gridobj c, s.effectiveAt k id = some pos := by
  have hunique : ∀ k k' pos pos', s.effectiveAt k id = some pos → s.effectiveAt k' id = some pos' →
      k' = k ∧ pos' = pos := by
    intro k k' pos pos' he he'
    have hk : k' = k := by
      rw [htracked.effectiveAt h] at he he'
      exact makerAt_unique (by rw [he']; rfl) (by rw [he]; rfl)
    subst hk
    rw [he] at he'
    cases he'
    exact ⟨rfl, rfl⟩
  by_cases hstays : ∃ k old new, s.objAt k id = some old ∧ s.effectiveAt k id = some new
  · obtain ⟨k, old, new, hold, hnew⟩ := hstays
    have hx : r.get id = if k ∈ s.seenBefore w then some old else none := by
      split
      · rename_i hk
        exact (hshows id old).mpr ⟨k, hk, hold⟩
      · rename_i hk
        by_contra hne
        obtain ⟨pos, hpos⟩ := Option.ne_none_iff_exists'.mp hne
        obtain ⟨k', hk', ho⟩ := (hshows id pos).mp hpos
        exact hk (hsingle id k' k (by rw [ho]; rfl) (by rw [hold]; rfl) ▸ hk')
    refine ⟨_, follow_stays h htracked hfresh hsingle hpooled hold hnew hx, fun pos => ?_⟩
    rw [Option.ite_none_right_eq_some]
    constructor
    · rintro ⟨hk, heq⟩
      exact ⟨k, hk, hnew.trans heq⟩
    · rintro ⟨k', hk', he⟩
      obtain ⟨rfl, rfl⟩ := hunique k k' new pos hnew he
      exact ⟨hk', rfl⟩
  · have hboth : ∀ k, s.objAt k id = none ∨ s.effectiveAt k id = none := by
      intro k
      by_contra hk
      rw [not_or] at hk
      obtain ⟨old, hold⟩ := Option.ne_none_iff_exists'.mp hk.1
      obtain ⟨new, hnew⟩ := Option.ne_none_iff_exists'.mp hk.2
      exact hstays ⟨k, old, new, hold, hnew⟩
    have hx : (r.get id).isSome ↔ ∃ k ∈ s.seenBefore w, (s.objAt k id).isSome := by
      constructor
      · intro hr
        obtain ⟨pos, hpos⟩ := Option.isSome_iff_exists.mp hr
        obtain ⟨k, hk, ho⟩ := (hshows id pos).mp hpos
        exact ⟨k, hk, by rw [ho]; rfl⟩
      · rintro ⟨k, hk, ho⟩
        obtain ⟨pos, hpos⟩ := Option.isSome_iff_exists.mp ho
        rw [(hshows id pos).mpr ⟨k, hk, hpos⟩]
        rfl
    by_cases hsome : ∃ k pos, s.effectiveAt k id = some pos
    · obtain ⟨cn, new, hnew⟩ := hsome
      refine ⟨_, follow_moves h htracked hfresh hpooled horder hboth hx cn new
        (fun k pos he => hunique cn k new pos hnew he) rfl, fun pos => ?_⟩
      rw [Option.ite_none_right_eq_some]
      constructor
      · rintro ⟨⟨hk, -⟩, heq⟩
        exact ⟨cn, hk, hnew.trans heq⟩
      · rintro ⟨k', hk', he⟩
        obtain ⟨rfl, rfl⟩ := hunique cn k' new pos hnew he
        exact ⟨⟨hk', hnew⟩, rfl⟩
    · rw [not_exists] at hsome
      have hnone : ∀ k pos, s.effectiveAt k id ≠ some pos := fun k pos he => hsome k ⟨pos, he⟩
      refine ⟨_, follow_moves h htracked hfresh hpooled horder hboth hx c ⟨0, 0⟩
        (fun k pos he => absurd he (hnone k pos)) rfl, fun pos => ?_⟩
      rw [if_neg fun hk => hnone c _ hk.2]
      refine iff_of_false (fun he => by cases he) ?_
      rintro ⟨k, -, he⟩
      exact hnone k pos he

/-! ## Between the updates -/

omit [DecidableEq Id] in
theorem Frame.objAt [DecidableEq Id] (hf : Frame s s') (k : Int) (id : Id) :
    s'.objAt k id = s.objAt k id := by
  unfold Aoi.objAt
  cases hk' : s'.gridPool.get k with
  | none =>
    have hk : s.gridPool.get k = none := by
      have := hf.pooled k
      rw [hk'] at this
      simpa using this
    rw [hk]
  | some g' =>
    have hobjs := (hf.cell k g' hk').1
    cases hk : s.gridPool.get k with
    | none =>
      rw [hk] at hobjs
      simp only [Option.bind_some, hobjs]
      exact Table.get_empty id
    | some g =>
      rw [hk] at hobjs
      simp only [Option.bind_some, hobjs, Option.getD_some]

theorem pooled_of_objAt {pos : Pos} (h : s.objAt k id = some pos) : (s.gridPool.get k).isSome := by
  unfold objAt at h
  cases hk : s.gridPool.get k with
  | none =>
    rw [hk] at h
    cases h
  | some g => rfl

/-- The last cells of the watchers are there. -/
def LastPooled (s : Aoi Id) : Prop :=
  ∀ id, ∀ c ∈ s.lastWatchidToGrididx.get id, (s.gridPool.get c).isSome

theorem Frame.shows (hf : Frame s s') (hlast : s.LastPooled) {r : Table Id Pos}
    (h : s.Shows w r) : s'.Shows w r := by
  intro id pos
  rw [h id pos]
  simp only [hf.objAt]
  unfold seenBefore lastGrid
  rw [hf.last]
  cases hl : s.lastWatchidToGrididx.get w with
  | none => rfl
  | some c =>
    rw [Option.filter_some, Option.filter_some, if_pos (hlast w c hl),
      if_pos (hf.pooled c (hlast w c hl))]
    simp only [Option.elim_some, mem_get9Gridobj, hf.map]
    constructor
    · rintro ⟨k, ⟨hk, haround⟩, ho⟩
      exact ⟨k, ⟨hf.pooled k hk, haround⟩, ho⟩
    · rintro ⟨k, ⟨-, haround⟩, ho⟩
      exact ⟨k, ⟨pooled_of_objAt ho, haround⟩, ho⟩

end Aoi

namespace World

variable {w w' : World Id} {ρ : Registry Id}

/-- What the watchers have, between the updates. -/
structure Viewed (w : World Id) (ρ : Registry Id) : Prop where
  clash : w.clash = false
  single : w.aoi.Single
  last : w.aoi.LastPooled
  shows : ∀ c id, ρ.WatcherAt c id → w.joined.get id = none → w.aoi.Shows id (w.replica id)
  joined : ∀ c id, ρ.WatcherAt c id → (w.joined.get id).isSome → ∀ k, (w.replica id).get k = none
  other : ∀ id, (∀ c, ¬ ρ.WatcherAt c id) → ∀ k, (w.replica id).get k = none

theorem viewed_new (map : Map) : Viewed (new map : World Id) (fun _ => none) := by
  have hnone : ∀ c id, ¬ Registry.WatcherAt (fun _ : Id => none) c id := by
    rintro c id ⟨e, he, -⟩
    cases he
  refine ⟨rfl, fun id k k' hk => ?_, fun id c hc => ?_, fun c id h => absurd h (hnone c id),
    fun c id h => absurd h (hnone c id), fun id _ k => Table.get_empty k⟩
  · have : (new map : World Id).aoi.objAt k id = none := by
      unfold Aoi.objAt
      rw [show (new map : World Id).aoi.gridPool.get k = none from Table.get_empty k]
      rfl
    rw [this] at hk
    cases hk
  · cases (Table.get_empty id).symm.trans hc

/-! ## An update -/

theorem Orderly.fresh {order : PairsOrder Id} (h : w.Orderly (.update order)) :
    w.aoi.NoStaleMerge := by
  intro c g hg
  have hc : (w.aoi.gridPool.get c).isSome := Option.isSome_iff_exists.mpr ⟨g, hg⟩
  exact (h c (by rwa [Table.mem_keys])).1 g hg

/-- A replica from which the cells that were seen cannot differ is theirs. -/
theorem shows_of_vacant {id : Id} (hempty : ∀ k, (w.replica id).get k = none)
    (hvacant : w.aoi.Vacant (w.aoi.seenBefore id)) : w.aoi.Shows id (w.replica id) := by
  intro k pos
  rw [hempty k]
  refine iff_of_false nofun ?_
  rintro ⟨c, hc, ho⟩
  unfold Aoi.objAt at ho
  obtain ⟨g, hg, ho⟩ := Option.bind_eq_some_iff.mp ho
  rw [Table.isEmpty_iff.mp (hvacant c hc g hg) k] at ho
  cases ho

/-- Every watcher can apply what it is sent, and has the makers around it then. -/
theorem received_spec {order : PairsOrder Id} (hheld : Held w ρ) (htracked : w.aoi.Tracked ρ)
    (hviewed : Viewed w ρ) (horderly : w.Orderly (.update order)) {c : Int} {id : Id}
    (hw : ρ.WatcherAt c id) : ∃ r, w.received (w.aoi.aoiUpdate order).2 id = some r ∧
      ∀ k pos, r.get k = some pos ↔ ∃ c' ∈ w.aoi.get9Gridobj c, w.aoi.effectiveAt c' k = some pos := by
  have hplaced := hheld.placed
  obtain ⟨cs, hcs, heq⟩ := hplaced.aoiUpdate order
  have hu := hplaced.updated order hcs.nodup
  have hpooled : (w.aoi.gridPool.get c).isSome := by
    obtain ⟨e, he, rfl, -⟩ := hw
    exact hplaced.pooled id e he
  obtain ⟨-, hwatchers⟩ := horderly c (by rwa [Table.mem_keys])
  obtain ⟨horder, hrejoined⟩ := hwatchers id (hplaced.mem_watchersAt.mpr hw)
  have hshows : w.aoi.Shows id (w.replica id) := by
    cases hj : w.joined.get id with
    | none => exact hviewed.shows c id hw hj
    | some _ =>
      have hj : (w.joined.get id).isSome := by rw [hj]; rfl
      exact shows_of_vacant (hviewed.joined c id hw hj) (hrejoined hj)
  have hfollow := Aoi.follow_maker hplaced htracked horderly.fresh hviewed.single hpooled horder hshows
  unfold received
  rw [heq, hplaced.updated_result hcs hu hw]
  have hfit : ∀ k, (Change.follow ((w.replica id).get k) (Lib.Replica.changesOf
      (((w.aoi.watcherMessages order id c).filterMap w.aoi.data).map changes) k)).isSome := by
    intro k
    obtain ⟨y, hy, -⟩ := hfollow k
    rw [Aoi.changesOf_eq, hy]
    rfl
  obtain ⟨r, hr, hget⟩ := Lib.Replica.applyAll_get hfit
  refine ⟨r, hr, fun k pos => ?_⟩
  obtain ⟨y, hy, hspec⟩ := hfollow k
  have := hget k
  rw [Aoi.changesOf_eq, hy, Option.some.injEq] at this
  rw [← this]
  exact hspec pos

/-- An update keeps what the watchers have. -/
theorem Viewed.update {order : PairsOrder Id} (hviewed : Viewed w ρ) (hheld : Held w ρ)
    (htracked : w.aoi.Tracked ρ) (horderly : w.Orderly (.update order)) :
    Viewed (w.update order) ρ ∧ ∀ c id, ρ.WatcherAt c id → ∀ k pos,
      ((w.update order).replica id).get k = some pos ↔
        ∃ c' ∈ (w.update order).aoi.get9Gridobj c, ρ.makerAt c' k = some pos := by
  have hplaced := hheld.placed
  obtain ⟨cs, hcs, heq⟩ := hplaced.aoiUpdate order
  have hu := hplaced.updated order hcs.nodup
  rw [← heq] at hu
  have hspec := fun {c : Int} {id : Id} (hw : ρ.WatcherAt c id) =>
    received_spec hheld htracked hviewed horderly hw
  have hquiet : ∀ id, (∀ c, ¬ ρ.WatcherAt c id) →
      w.received (w.aoi.aoiUpdate order).2 id = some (w.replica id) := by
    intro id hw
    unfold received
    rw [(hplaced.updated_other hu hw).1]
    rfl
  have hpool : ∀ k, ((w.update order).aoi.gridPool.get k).isSome = (w.aoi.gridPool.get k).isSome :=
    hu.pooled
  have hnine : ∀ c, (w.update order).aoi.get9Gridobj c = w.aoi.get9Gridobj c := by
    intro c
    unfold Aoi.get9Gridobj
    rw [show (w.update order).aoi.map = w.aoi.map from hu.map]
    exact List.filter_congr fun k _ => hpool k
  have hobj : ∀ k id, (w.aoi.gridPool.get k).isSome →
      (w.update order).aoi.objAt k id = ρ.makerAt k id := by
    intro k id hk
    rw [← hpool] at hk
    obtain ⟨g', hg'⟩ := Option.isSome_iff_exists.mp hk
    rw [Aoi.objAt_eq hg']
    exact htracked.updated_objs hplaced horderly.fresh hu hg' id
  have hview : ∀ c id, ρ.WatcherAt c id → ∀ k pos,
      ((w.update order).replica id).get k = some pos ↔
        ∃ c' ∈ (w.update order).aoi.get9Gridobj c, ρ.makerAt c' k = some pos := by
    intro c id hw k pos
    obtain ⟨r, hr, hget⟩ := hspec hw
    rw [show (w.update order).replica id = r from by unfold World.update; simp only [hr, Option.getD_some],
      hget, hnine]
    simp only [htracked.effectiveAt hplaced]
  refine ⟨⟨?_, fun id k k' hk hk' => ?_, fun id c hc => ?_, fun c id hw _ k pos => ?_,
    fun c id _ hj => ?_, fun id hw k => ?_⟩, hview⟩
  · have hall : ((w.aoi.aoiUpdate order).2.keys.any fun id =>
        (w.received (w.aoi.aoiUpdate order).2 id).isNone) = false := by
      rw [List.any_eq_false]
      intro id _
      by_cases hw : ∃ c, ρ.WatcherAt c id
      · obtain ⟨c, hw⟩ := hw
        obtain ⟨r, hr, -⟩ := hspec hw
        simp [hr]
      · rw [not_exists] at hw
        simp [hquiet id hw]
    unfold World.update
    simp only [hviewed.clash, hall, Bool.or_self]
  · have hpooled : ∀ k, ((w.update order).aoi.objAt k id).isSome →
        (w.aoi.gridPool.get k).isSome := by
      intro k hk
      obtain ⟨pos, hpos⟩ := Option.isSome_iff_exists.mp hk
      rw [← hpool]
      exact Aoi.pooled_of_objAt hpos
    rw [hobj k id (hpooled k hk)] at hk
    rw [hobj k' id (hpooled k' hk')] at hk'
    exact Aoi.makerAt_unique hk hk'
  · rw [hpool]
    by_cases hw : ∃ c, ρ.WatcherAt c id
    · obtain ⟨c', hw⟩ := hw
      have hlast : (w.update order).aoi.lastWatchidToGrididx.get id = some c' := by
        have := hplaced.updated_last (hplaced.updated order hcs.nodup) hcs hw
        rwa [← heq] at this
      cases hlast.symm.trans hc
      obtain ⟨e, he, rfl, -⟩ := hw
      exact hplaced.pooled id e he
    · rw [not_exists] at hw
      refine hviewed.last id c ?_
      rw [← (hplaced.updated_other hu hw).2]
      exact hc
  · have hlast : (w.update order).aoi.lastWatchidToGrididx.get id = some c := by
      have := hplaced.updated_last (hplaced.updated order hcs.nodup) hcs hw
      rwa [← heq] at this
    have hpooled : ((w.update order).aoi.gridPool.get c).isSome := by
      rw [hpool]
      obtain ⟨e, he, rfl, -⟩ := hw
      exact hplaced.pooled id e he
    rw [hview c id hw, Aoi.seenBefore_self hpooled hlast]
    refine exists_congr fun c' => and_congr_right fun hc' => ?_
    rw [hobj c' k (by rw [← hpool]; exact Aoi.pooled_of_mem_get9 hc')]
  · rw [show (w.update order).joined = .empty from rfl, Table.get_empty] at hj
    cases hj
  · rw [show (w.update order).replica id = w.replica id from by
      unfold World.update; simp only [hquiet id hw, Option.getD_some]]
    exact hviewed.other id hw k

/-! ## The other calls -/

/-- A call after which every watcher is a new one, with nothing in its replica, or one that was there. -/
theorem Viewed.frame {ρ' : Registry Id} (h : Viewed w ρ) (hf : Aoi.Frame w.aoi w'.aoi)
    (hclash : w'.clash = w.clash)
    (hwatcher : ∀ c id, ρ'.WatcherAt c id →
      (w'.joined.get id).isSome ∧ (∀ k, (w'.replica id).get k = none) ∨
        (∃ c', ρ.WatcherAt c' id) ∧ w'.joined.get id = w.joined.get id ∧
          w'.replica id = w.replica id)
    (hother : ∀ id, (∀ c, ¬ ρ'.WatcherAt c id) → ∀ k, (w'.replica id).get k = none) :
    Viewed w' ρ' where
  clash := hclash.trans h.clash
  single id k k' hk hk' := by
    rw [hf.objAt] at hk hk'
    exact h.single id k k' hk hk'
  last id c hc := by
    rw [hf.last] at hc
    exact hf.pooled c (h.last id c hc)
  shows c id hw hj := by
    obtain ⟨hj', -⟩ | ⟨⟨c', hw'⟩, hj', hr⟩ := hwatcher c id hw
    · rw [hj] at hj'
      cases hj'
    · rw [hr]
      exact hf.shows h.last (h.shows c' id hw' (hj'.symm.trans hj))
  joined c id hw hj k := by
    obtain ⟨-, hr⟩ | ⟨⟨c', hw'⟩, hj', hr⟩ := hwatcher c id hw
    · exact hr k
    · rw [hr]
      exact h.joined c' id hw' (hj' ▸ hj) k
  other := hother

theorem Viewed.call {op : Op Id} (hviewed : Viewed w ρ) (h : Held w ρ) (hs : w.step op = some w')
    (hop : ∀ order, op ≠ .update order) :
    ∃ ρ', Held w' ρ' ∧ Viewed w' ρ' ∧ (w.aoi.Tracked ρ → w'.aoi.Tracked ρ') := by
  cases op with
  | add id marked pos =>
    obtain ⟨s, hdone, rfl⟩ := step_add hs
    obtain ⟨e, -, -, hfree, hcalled, -⟩ := h.placed.aoiAdd h.registered hdone
    have hnone : ∀ c, ¬ ρ.WatcherAt c id := by
      rintro c ⟨e', he', -⟩
      rw [hfree] at he'
      cases he'
    have hsame : ∀ k ≠ id, ∀ c, (ρ.put id (some e)).WatcherAt c k ↔ ρ.WatcherAt c k := by
      intro k hk c
      unfold Registry.WatcherAt
      rw [ρ.put_ne hk]
    refine ⟨_, ⟨hcalled.placed, hcalled.registered⟩,
      hviewed.frame hcalled.frame rfl (fun c k hw => ?_) (fun k hw => ?_), hcalled.tracked⟩
    · by_cases hk : k = id
      · subst hk
        exact .inl ⟨by rw [Table.get_set_self]; rfl, hviewed.other k hnone⟩
      · exact .inr ⟨⟨c, (hsame k hk c).mp hw⟩, Table.get_set_ne _ _ hk, rfl⟩
    · by_cases hk : k = id
      · subst hk
        exact hviewed.other k hnone
      · exact hviewed.other k fun c hw' => hw c ((hsame k hk c).mpr hw')
  | remove id =>
    obtain ⟨s, hdone, rfl⟩ := step_remove hs
    obtain ⟨e, -, hcalled⟩ := h.placed.aoiRemove h.registered hdone
    refine ⟨_, ⟨hcalled.placed, hcalled.registered⟩,
      hviewed.frame hcalled.frame rfl (fun c k hw => ?_) (fun k hw => ?_), hcalled.tracked⟩
    · obtain ⟨hw', hk⟩ := (Registry.watcherAt_put_none k).mp hw
      exact .inr ⟨⟨c, hw'⟩, Table.get_del_ne _ hk, Function.update_of_ne hk ..⟩
    · intro k'
      dsimp only
      by_cases hk : k = id
      · subst hk
        rw [Function.update_self]
        exact Table.get_empty k'
      · rw [Function.update_of_ne hk]
        exact hviewed.other k (fun c hw' => hw c ((Registry.watcherAt_put_none k).mpr ⟨hw', hk⟩)) k'
  | set id pos =>
    obtain ⟨s, hdone, rfl⟩ := step_set hs
    obtain ⟨e, e', he, hmark, -, hcalled, -⟩ := h.placed.aoiSet h.registered hdone
    have hsome : ∀ k, (∃ c, (ρ.put id (some e')).WatcherAt c k) ↔ ∃ c, ρ.WatcherAt c k := by
      intro k
      unfold Registry.WatcherAt
      by_cases hk : k = id
      · subst hk
        simp [he, hmark]
      · simp [ρ.put_ne hk]
    refine ⟨_, ⟨hcalled.placed, hcalled.registered⟩,
      hviewed.frame hcalled.frame rfl (fun c k hw => ?_) (fun k hw => ?_), hcalled.tracked⟩
    · exact .inr ⟨(hsome k).mp ⟨c, hw⟩, rfl, rfl⟩
    · refine hviewed.other k fun c hw' => ?_
      obtain ⟨c', hc'⟩ := (hsome k).mpr ⟨c, hw'⟩
      exact hw c' hc'
  | update order => exact absurd rfl (hop order)

/-- What the runs keep whose updates are all orderly. -/
theorem reach_viewed (h : (scene Id).ReachUnder Orderly w) :
    ∃ ρ, Held w ρ ∧ w.aoi.Tracked ρ ∧ Viewed w ρ := by
  refine Machine.ReachUnder.invariant
    (fun w => ∃ ρ, Held w ρ ∧ w.aoi.Tracked ρ ∧ Viewed w ρ) ?_ ?_ h
  · rintro _ ⟨map, rfl⟩
    exact ⟨_, held_new map, tracked_new map, viewed_new map⟩
  · rintro w op w' - ⟨ρ, hheld, htracked, hviewed⟩ hguard hs
    by_cases hop : ∀ order, op ≠ .update order
    · obtain ⟨ρ', h', hviewed', htracked'⟩ := hviewed.call hheld hs hop
      exact ⟨ρ', h', htracked' htracked, hviewed'⟩
    · push Not at hop
      obtain ⟨order, rfl⟩ := hop
      cases hs
      exact ⟨ρ, hheld.update order, hheld.update_tracked htracked hguard.fresh order,
        (hviewed.update hheld htracked hguard).1⟩

/-- In the runs whose updates are all orderly, every record fits the replica it is for, and after each
update the replica of every watcher has the makers in the cells around it. -/
theorem view_consistent (h : (scene Id).ReachUnder Orderly w) :
    w.clash = false ∧ ∀ order, w.Orderly (.update order) →
      (w.update order).clash = false ∧ (w.update order).Consistent := by
  obtain ⟨ρ, hheld, htracked, hviewed⟩ := reach_viewed h
  refine ⟨hviewed.clash, fun order horderly => ?_⟩
  obtain ⟨hviewed', hview⟩ := hviewed.update hheld htracked horderly
  refine ⟨hviewed'.clash, fun id c hc hmark k pos => ?_⟩
  have hafter := hheld.update order
  rw [hview c id (hafter.watcherAt.mpr ⟨hc, hmark⟩)]
  simp only [hafter.makerAt, Option.ite_none_right_eq_some, and_assoc]

/-- Two makers come next to a watcher, and one of them moves to the next cell. -/
theorem view_consistent_row : ∃ w : World Nat, (scene Nat).ReachUnder Orderly w ∧
    w.Orderly (.update (.stored Nat)) ∧ (w.update (.stored Nat)).clash = false ∧
    (w.update (.stored Nat)).Consistent ∧
    ((w.update (.stored Nat)).replica 1).get 0 = some ⟨2, 0⟩ := by
  have hrun : ∃ w ∈ (scene Nat).execWhile (fun w op => decide (w.Orderly op)) (.new .row)
      [.add 0 1 ⟨1, 0⟩, .add 1 3 ⟨1, 0⟩, .update (.stored Nat), .set 0 ⟨2, 0⟩],
      w.Orderly (.update (.stored Nat)) ∧
        ((w.update (.stored Nat)).replica 1).get 0 = some ⟨2, 0⟩ := by
    decide +kernel
  obtain ⟨w, hw, horderly, hmoved⟩ := hrun
  have hreach : (scene Nat).ReachUnder Orderly w :=
    Machine.ReachUnder.execWhile (fun _ _ h => of_decide_eq_true h) (.start ⟨_, rfl⟩) hw
  obtain ⟨hclash, hconsistent⟩ := (view_consistent hreach).2 (.stored Nat) horderly
  exact ⟨w, hreach, horderly, hclash, hconsistent, hmoved⟩

/-- A maker moves to a cell that a watcher is told about before the cell the maker has left. -/
theorem not_view_consistent :
    ¬ ∀ w : World Nat, (scene Nat).Reach w → w.clash = false ∧
      ∀ order, (w.update order).clash = false ∧ (w.update order).Consistent := by
  intro h
  have hrun : ∃ w ∈ rowRun [.add 0 1 ⟨1, 0⟩, .add 1 2 ⟨1, 0⟩, .update (.stored Nat), .set 0 ⟨0, 0⟩],
      w.clash = true := by
    decide +kernel
  obtain ⟨w, hw, hclash⟩ := hrun
  rw [(h w (reach_rowRun hw)).1] at hclash
  cases hclash

end World

end AntServer.Scene
