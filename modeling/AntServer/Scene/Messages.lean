/-
# AntServer.Scene.Messages — which messages a watcher is sent

A watcher that has changed its cell is told about every cell around the old or the new one, once: what
changes in the cells it goes on seeing (`GU`), what was in those it sees no more (`GD`), what is in
those it sees anew (`GA`). The order of `pairs` decides in which order, and nothing else.
-/
import AntServer.Scene.Commit

namespace AntServer.Scene

open Lib (Table)

/-! ## Two lists of cells -/

/-- The messages about the cells `left` and `right`, those of `own` first. -/
def told (cells : List Int → List Int) (own left right : List Int) : List Message :=
  own.map (·, .GU) ++
    (cells (left.filter (· ∉ own))).map
      (fun c => (c, if c ∈ right.filter (· ∉ own) then .GU else .GD)) ++
    (cells ((right.filter (· ∉ own)).filter (· ∉ left.filter (· ∉ own)))).map (·, .GA)

section told

variable {cells cells' : List Int → List Int} {own left right : List Int} {k : Int} {st : GridStatus}

theorem mem_told (hcells : ∀ l, (cells l).Perm l) (hl : ∀ c ∈ own, c ∈ left)
    (hr : ∀ c ∈ own, c ∈ right) : (k, st) ∈ told cells own left right ↔
      match st with
      | .GU => k ∈ left ∧ k ∈ right
      | .GD => k ∈ left ∧ k ∉ right
      | .GA => k ∉ left ∧ k ∈ right := by
  have hmap : ∀ (l : List Int) (f : Int → GridStatus),
      (k, st) ∈ (cells l).map (fun c => (c, f c)) ↔ k ∈ l ∧ f k = st := by
    intro l f
    rw [List.mem_map]
    constructor
    · rintro ⟨c, hc, heq⟩
      cases heq
      exact ⟨(hcells l).mem_iff.mp hc, rfl⟩
    · rintro ⟨hk, rfl⟩
      exact ⟨k, (hcells l).mem_iff.mpr hk, rfl⟩
  have hown : (k, st) ∈ own.map (fun c => (c, GridStatus.GU)) ↔ k ∈ own ∧ GridStatus.GU = st := by
    simp
  unfold told
  rw [List.mem_append, List.mem_append, hown, hmap, hmap]
  simp only [List.mem_filter, decide_eq_true_eq]
  have := hl k
  have := hr k
  cases st with
  | GU => by_cases hk : k ∈ own <;> by_cases hkr : k ∈ right <;> simp_all
  | GD => by_cases hk : k ∈ own <;> by_cases hkr : k ∈ right <;> simp_all
  | GA => by_cases hk : k ∈ own <;> by_cases hkr : k ∈ right <;> simp_all

/-- Each cell is in one message. -/
theorem told_nodup (hcells : ∀ l, (cells l).Perm l) (hown : own.Nodup) (hleft : left.Nodup)
    (hright : right.Nodup) : ((told cells own left right).map Prod.fst).Nodup := by
  have hfst : (told cells own left right).map Prod.fst = own ++ cells (left.filter (· ∉ own)) ++
      cells ((right.filter (· ∉ own)).filter (· ∉ left.filter (· ∉ own))) := by
    unfold told
    simp only [List.map_append, List.map_map, Function.comp_def, List.map_id']
  have hmem : ∀ l k, k ∈ cells l ↔ k ∈ l := fun l k => (hcells l).mem_iff
  rw [hfst, List.nodup_append', List.nodup_append']
  refine ⟨⟨hown, (hcells _).nodup_iff.mpr (hleft.filter _), fun c hc hc' => ?_⟩,
    (hcells _).nodup_iff.mpr ((hright.filter _).filter _), fun c hc hc' => ?_⟩
  · rw [hmem, List.mem_filter] at hc'
    exact of_decide_eq_true hc'.2 hc
  · rw [hmem, List.mem_filter, List.mem_filter] at hc'
    obtain hc | hc := List.mem_append.mp hc
    · exact of_decide_eq_true hc'.1.2 hc
    · exact of_decide_eq_true hc'.2 ((hmem _ c).mp hc)

theorem told_perm (hcells : ∀ l, (cells l).Perm l) (hcells' : ∀ l, (cells' l).Perm l) :
    (told cells own left right).Perm (told cells' own left right) := by
  have hperm : ∀ l, (cells l).Perm (cells' l) := fun l => (hcells l).trans (hcells' l).symm
  exact ((List.Perm.refl _).append ((hperm _).map _)).append ((hperm _).map _)

end told

variable {Id : Type} [DecidableEq Id]

namespace Aoi

/-! ## The messages to a watcher -/

/-- The cells around the cell a watcher was last in. -/
def seenBefore (s : Aoi Id) (w : Id) : List Int := (s.lastGrid w).elim [] s.get9Gridobj

/-- The cells a watcher in `cur` has not seen before. -/
def newlySeen (s : Aoi Id) (w : Id) (cur : Int) : List Int :=
  if s.lastWatchidToGrididx.get w = some cur then []
  else (s.get9Gridobj cur).filter (· ∉ s.seenBefore w)

/-- The cells of the watcher itself, if they see each other. -/
def ownCells (s : Aoi Id) (last : Option Int) (cur : Int) : List Int :=
  last.elim [] fun last =>
    if last ∈ (s.get9Gridobj last).dedup ∧ cur ∈ (s.get9Gridobj last).dedup ∧
      last ∈ (s.get9Gridobj cur).dedup ∧ cur ∈ (s.get9Gridobj cur).dedup then [last, cur] else []

variable {s : Aoi Id} {order order' : PairsOrder Id} {w : Id} {cur k : Int} {last : Option Int}

omit [DecidableEq Id] in
theorem changeMessages_eq (s : Aoi Id) (order : PairsOrder Id) (w : Id) (last : Option Int)
    (cur : Int) : s.changeMessages order w last cur =
      told (order.cells w) (s.ownCells last cur) (last.elim [] s.get9Gridobj).dedup
        (s.get9Gridobj cur).dedup := by
  cases last with
  | none => rfl
  | some last => rfl

omit [DecidableEq Id] in
theorem ownCells_sub {c : Int} (hc : c ∈ s.ownCells last cur) :
    c ∈ last.elim [] s.get9Gridobj ∧ c ∈ s.get9Gridobj cur := by
  cases last with
  | none => cases hc
  | some last =>
    simp only [ownCells, Option.elim_some, List.mem_dedup] at hc ⊢
    split at hc
    · rename_i h
      rcases List.mem_pair.mp hc with rfl | rfl
      · exact ⟨h.1, h.2.2.1⟩
      · exact ⟨h.2.1, h.2.2.2⟩
    · cases hc

omit [DecidableEq Id] in
theorem mem_changeMessages {st : GridStatus} : (k, st) ∈ s.changeMessages order w last cur ↔
    match st with
    | .GU => k ∈ last.elim [] s.get9Gridobj ∧ k ∈ s.get9Gridobj cur
    | .GD => k ∈ last.elim [] s.get9Gridobj ∧ k ∉ s.get9Gridobj cur
    | .GA => k ∉ last.elim [] s.get9Gridobj ∧ k ∈ s.get9Gridobj cur := by
  rw [changeMessages_eq, mem_told (order.cells_perm w)
    (fun c hc => List.mem_dedup.mpr (ownCells_sub hc).1)
    (fun c hc => List.mem_dedup.mpr (ownCells_sub hc).2)]
  simp only [List.mem_dedup]

omit [DecidableEq Id] in
theorem changeMessages_nodup (h : last ≠ some cur) :
    ((s.changeMessages order w last cur).map Prod.fst).Nodup := by
  rw [changeMessages_eq]
  refine told_nodup (order.cells_perm w) ?_ (List.nodup_dedup _) (List.nodup_dedup _)
  cases last with
  | none => exact List.nodup_nil
  | some last =>
    unfold ownCells
    simp only [Option.elim_some]
    split
    · simpa using fun heq => h (congrArg some heq)
    · exact List.nodup_nil

theorem mem_watcherMessages_ga :
    (k, .GA) ∈ s.watcherMessages order w cur ↔ k ∈ s.newlySeen w cur := by
  unfold watcherMessages newlySeen
  split
  · simp
  · rw [mem_changeMessages, List.mem_filter]
    simp only [decide_eq_true_eq]
    exact and_comm

theorem watcherMessages_perm (order order' : PairsOrder Id) :
    (s.watcherMessages order w cur).Perm (s.watcherMessages order' w cur) := by
  unfold watcherMessages
  split
  · exact .refl _
  · rw [changeMessages_eq, changeMessages_eq]
    exact told_perm (order.cells_perm w) (order'.cells_perm w)

/-! ## What an update sends -/

variable {ρ : Registry Id} {cs : List Int} {t : Aoi Id × ResultTbl Id} {c : Int}

/-- A watcher that has changed its cell is resolved. -/
theorem Placed.covers_moved (h : Placed s ρ) (hcs : Covers s ρ cs) (hw : ρ.WatcherAt cur w)
    (hlast : s.lastWatchidToGrididx.get w ≠ some cur) : cur ∈ cs := by
  by_contra hc
  have htouched := (h.moved cur w hw).resolve_left hlast
  have hpooled : (s.gridPool.get cur).isSome := by
    obtain ⟨e, he, rfl, -⟩ := hw
    exact h.pooled w e he
  rw [hcs.covers cur w hw hc cur (self_mem_get9 hpooled)] at htouched
  cases htouched

/-- The cells for which `merge` is made are those that a watcher sees anew. -/
theorem Placed.mem_messagesTo_ga (h : Placed s ρ) (hcs : Covers s ρ cs) :
    (k, .GA) ∈ s.messagesTo order (s.targets order cs) ↔
      ∃ w cur, ρ.WatcherAt cur w ∧ k ∈ s.newlySeen w cur := by
  unfold messagesTo
  simp only [List.mem_flatMap, mem_watcherMessages_ga, Prod.exists, h.mem_targets]
  refine exists_congr fun w => exists_congr fun cur => and_congr_left fun hk => ?_
  refine and_iff_right_of_imp fun hw => h.covers_moved hcs hw fun hlast => ?_
  unfold newlySeen at hk
  rw [if_pos hlast] at hk
  cases hk

/-- A cell with nothing pending has no changes to tell. -/
theorem Placed.data_gu (h : Placed s ρ) (hk : s.touchGrididxMap.get k = none) :
    s.data (k, .GU) = none := by
  unfold data
  cases hg : s.gridPool.get k with
  | none => rfl
  | some g =>
    have htouch : ∀ id, g.touch id = none := by
      intro id
      by_contra hid
      have := h.pending k g hg id (Option.isSome_iff_ne_none.mpr hid)
      rw [hk] at this
      cases this
    unfold Grid.touch at htouch
    change g.guData = none
    unfold Grid.guData unlessEmpty
    cases ht : g.touchs with
    | none => rfl
    | some touchs =>
      rw [ht] at htouch
      exact if_pos (Table.isEmpty_iff.mpr htouch)

/-- Every watcher gets what its messages tell, if it is resolved or not. -/
theorem Placed.updated_result (h : Placed s ρ) (hcs : Covers s ρ cs) (hu : Updated s order cs t)
    (hw : ρ.WatcherAt c w) :
    (t.2.get w).getD [] = (s.watcherMessages order w c).filterMap s.data := by
  by_cases hc : c ∈ cs
  · exact hu.result w c (h.mem_targets.mpr ⟨hc, hw⟩)
  · have hother : w ∉ (s.targets order cs).map Prod.fst := by
      rw [List.mem_map]
      rintro ⟨p, hm, rfl⟩
      have := h.mem_targets.mp (show (p.1, p.2) ∈ s.targets order cs from hm)
      exact hc (hw.unique this.2 ▸ this.1)
    have hlast : s.lastWatchidToGrididx.get w = some c := by
      by_contra hne
      exact hc (h.covers_moved hcs hw hne)
    rw [hu.resultOther w hother, Option.getD_none, eq_comm, List.filterMap_eq_nil_iff]
    unfold watcherMessages
    rw [if_pos hlast]
    intro m hm
    obtain ⟨k, hk, rfl⟩ := List.mem_map.mp hm
    exact h.data_gu (hcs.covers c w hw hc k hk)

/-- Who is no watcher gets nothing, and keeps its last cell. -/
theorem Placed.updated_other (h : Placed s ρ) (hu : Updated s order cs t)
    (hw : ∀ c, ¬ ρ.WatcherAt c w) :
    t.2.get w = none ∧ t.1.lastWatchidToGrididx.get w = s.lastWatchidToGrididx.get w := by
  have hother : w ∉ (s.targets order cs).map Prod.fst := by
    rw [List.mem_map]
    rintro ⟨p, hm, rfl⟩
    exact hw p.2 (h.mem_targets.mp (show (p.1, p.2) ∈ s.targets order cs from hm)).2
  exact ⟨hu.resultOther w hother, hu.lastOther w hother⟩

end Aoi

end AntServer.Scene
