/-
# AntServer.Scene.Resolve — an update, without its caches

What a watcher is told about a cell is a matter of the cell as it was when the update began
(`Aoi.data`), whatever was cached in between: a result that is there is the one that would be made
now. So the list a watcher gets is read off the state before the update, its messages one by one
(`Updated.result`), and the state after it is the one before with the touched cells committed
(`Updated.grid`).
-/
import AntServer.Scene.AoiUpdate

namespace AntServer.Scene

open Lib (Table)

variable {Id : Type} [DecidableEq Id]

namespace Grid

/-! ## The caches of a cell -/

/-- `grid_get_merge_objs`, without the cell. -/
def merged (g : Grid Id) : Table Id Pos := g.merge.getD g.mergeObjs

/-- What a cell has to tell. -/
def data (g : Grid Id) : GridStatus → Option (Table Id Record)
  | .GU => g.guData
  | .GD => g.gdData
  | .GA => gaData g.merged

/-- The cell with its `merge` made. -/
def withMerge (g : Grid Id) : Grid Id := { g with merge := some g.merged }

/-- The cell `c`, with what is cached after the messages `ms`. -/
def cached (g : Grid Id) (ms : List Message) (c : Int) : Grid Id :=
  { g with
    merge := if (c, .GA) ∈ ms then some g.merged else g.merge
    result := fun st => if (c, st) ∈ ms then g.data st else none }

/-- `grid_get_merge_objs` gives the merged objects and keeps them in the cell. -/
theorem getMergeObjs_eq (g : Grid Id) : g.getMergeObjs = (g.merged, g.withMerge) := by
  unfold getMergeObjs withMerge merged
  cases h : g.merge with
  | none => rfl
  | some m =>
    refine Prod.ext rfl ?_
    cases g
    simp_all

/-- What a cell keeps of its messages does not change its merged objects. -/
theorem cached_merged (g : Grid Id) (ms : List Message) (c : Int) : (g.cached ms c).merged = g.merged := by
  unfold merged cached
  dsimp only
  split
  · rfl
  · rfl

/-- Nor what it sends. -/
theorem cached_data (g : Grid Id) (ms : List Message) (c : Int) (st : GridStatus) :
    (g.cached ms c).data st = g.data st := by
  cases st with
  | GU => rfl
  | GD => rfl
  | GA => exact congrArg gaData (g.cached_merged ms c)

end Grid

namespace Aoi

/-- What a message tells. -/
def data (s : Aoi Id) (m : Message) : Option (Table Id Record) :=
  (s.gridPool.get m.1).bind fun g => g.data m.2

/-! ## The state between two messages -/

/-- No result is cached. -/
structure Uncached (s : Aoi Id) : Prop where
  result : ∀ c, ∀ g ∈ s.gridPool.get c, ∀ st, g.result st = none
  touched : ∀ c, s.touchGridResult.get c = none

/-- What sending messages leaves as it is. -/
structure SameRest (s₀ s : Aoi Id) : Prop where
  map : s.map = s₀.map
  objidToGrididx : s.objidToGrididx = s₀.objidToGrididx
  objidToMarked : s.objidToMarked = s₀.objidToMarked
  watchGrididxMap : s.watchGrididxMap = s₀.watchGrididxMap
  watchGridCount : s.watchGridCount = s₀.watchGridCount
  touchGrididxMap : s.touchGrididxMap = s₀.touchGrididxMap
  touchGridCount : s.touchGridCount = s₀.touchGridCount

/-- The state in which an update that began in `s₀` has sent the messages `ms`. -/
structure Sent (s₀ s : Aoi Id) (ms : List Message) : Prop where
  grid : ∀ c, s.gridPool.get c = (s₀.gridPool.get c).map fun g => g.cached ms c
  marked : ∀ c, (s.touchGridResult.get c).isSome ↔ ∃ st, (c, st) ∈ ms ∧ (s₀.data (c, st)).isSome
  rest : SameRest s₀ s

variable {s₀ s : Aoi Id} {ms : List Message}

/-- Before the first message nothing is kept. -/
theorem Uncached.sent (h : s₀.Uncached) : Sent s₀ s₀ [] where
  grid c := by
    cases hc : s₀.gridPool.get c with
    | none => rfl
    | some g =>
      have hnone : g.result = fun _ => none := funext (h.result c g hc)
      cases g
      simp only [Option.map_some, Grid.cached, List.not_mem_nil, if_false]
      simp_all
  marked c := by simp [h.touched c]
  rest := ⟨rfl, rfl, rfl, rfl, rfl, rfl, rfl⟩

end Aoi

namespace Grid

/-- What a cell keeps depends on which messages were sent, not on their order. -/
theorem cached_congr (g : Grid Id) {ms ms' : List Message} {c : Int}
    (h : ∀ st, (c, st) ∈ ms ↔ (c, st) ∈ ms') : g.cached ms c = g.cached ms' c := by
  unfold cached
  simp only [h]

/-- A message to another cell caches nothing here. -/
theorem cached_append_ne (g : Grid Id) (ms : List Message) {c c' : Int} (h : c' ≠ c)
    (st : GridStatus) : g.cached (ms ++ [(c, st)]) c' = g.cached ms c' :=
  g.cached_congr fun st' => by simp [h]

/-- A message that was sent before caches nothing new. -/
theorem cached_append_mem (g : Grid Id) {ms : List Message} {c : Int} {st : GridStatus}
    (h : (c, st) ∈ ms) : g.cached (ms ++ [(c, st)]) c = g.cached ms c := by
  refine g.cached_congr fun st' => ?_
  simp only [List.mem_append, List.mem_singleton, Prod.mk.injEq, true_and, or_iff_left_iff_imp]
  rintro rfl
  exact h

/-- One more message of the cell. -/
theorem cached_append (g : Grid Id) (ms : List Message) (c : Int) (st : GridStatus) :
    g.cached (ms ++ [(c, st)]) c =
      { (if st = .GA then (g.cached ms c).withMerge else g.cached ms c) with
        result := fun st' => if st' = st then g.data st else (g.cached ms c).result st' } := by
  have hresult : (fun st' => if (c, st') ∈ ms ++ [(c, st)] then g.data st' else none) =
      fun st' => if st' = st then g.data st else if (c, st') ∈ ms then g.data st' else none := by
    funext st'
    by_cases h : st' = st
    · subst h; simp
    · simp [h]
  unfold cached
  rw [hresult]
  by_cases hst : st = .GA
  · subst hst
    simp only [List.mem_append, List.mem_singleton, or_true, if_true, withMerge]
    congr 2
    exact (g.cached_merged ms c).symm
  · have hga : (c, GridStatus.GA) ∈ ms ++ [(c, st)] ↔ (c, GridStatus.GA) ∈ ms := by
      simp [Ne.symm hst]
    simp only [hga, if_neg hst]

end Grid

namespace Aoi

/-! ## One result is sent -/

variable {s₀ s : Aoi Id} {ms : List Message}

omit [DecidableEq Id] in
/-- A result is kept in its cell. -/
theorem setResult_gridPool (s : Aoi Id) (c : Int) (g : Grid Id) (st : GridStatus)
    (ret : Option (Table Id Record)) : (s.setResult c g st ret).gridPool =
      s.gridPool.set c { g with result := fun st' => if st' = st then ret else g.result st' } := by
  unfold setResult setGrid
  split <;> rfl

omit [DecidableEq Id] in
/-- The cell is listed if there is a result. -/
theorem setResult_touchGridResult (s : Aoi Id) (c : Int) (g : Grid Id) (st : GridStatus)
    (ret : Option (Table Id Record)) (c' : Int) :
    ((s.setResult c g st ret).touchGridResult.get c').isSome ↔
      (s.touchGridResult.get c').isSome ∨ c' = c ∧ ret.isSome := by
  unfold setResult setGrid
  split
  · rename_i hret
    rw [Table.get_set]
    split
    · rename_i hc
      simp [hc, hret]
    · rename_i hc
      simp [hc]
  · rename_i hret
    simp [hret]

omit [DecidableEq Id] in
/-- Nothing else changes. -/
theorem SameRest.setResult (h : SameRest s₀ s) (c : Int) (g : Grid Id) (st : GridStatus)
    (ret : Option (Table Id Record)) : SameRest s₀ (s.setResult c g st ret) := by
  obtain ⟨h₁, h₂, h₃, h₄, h₅, h₆, h₇⟩ := h
  unfold Aoi.setResult setGrid
  split <;> exact ⟨h₁, h₂, h₃, h₄, h₅, h₆, h₇⟩

omit [DecidableEq Id] in
/-- The last cells of the watchers are the same. -/
theorem setResult_last (s : Aoi Id) (c : Int) (g : Grid Id) (st : GridStatus)
    (ret : Option (Table Id Record)) :
    (s.setResult c g st ret).lastWatchidToGrididx = s.lastWatchidToGrididx := by
  unfold setResult setGrid
  split <;> rfl

/-- Asking a cell for its records gives what it had to tell when the update began. -/
theorem Sent.getResult (h : Sent s₀ s ms) (c : Int) (st : GridStatus)
    (make : Grid Id → Option (Table Id Record) × Grid Id)
    (hmake : ∀ g, make g = (g.data st, if st = .GA then g.withMerge else g)) :
    (s.getResult c st make).1 = s₀.data (c, st) ∧
      Sent s₀ (s.getResult c st make).2 (ms ++ [(c, st)]) ∧
      (s.getResult c st make).2.lastWatchidToGrididx = s.lastWatchidToGrididx := by
  have hother : ∀ c', c' ≠ c → s.gridPool.get c' =
      (s₀.gridPool.get c').map fun g => g.cached (ms ++ [(c, st)]) c' := by
    intro c' hc
    rw [h.grid c']
    simp only [Grid.cached_append_ne _ _ hc]
  -- What is marked when the message marks no new cell.
  have hmarked : ((s₀.data (c, st)).isSome → (c, st) ∈ ms) → ∀ c',
      (s.touchGridResult.get c').isSome ↔
        ∃ st', (c', st') ∈ ms ++ [(c, st)] ∧ (s₀.data (c', st')).isSome := by
    intro hold c'
    rw [h.marked c']
    refine exists_congr fun st' => and_congr_left fun hd => ?_
    simp only [List.mem_append, List.mem_singleton, Prod.mk.injEq, iff_self_or]
    rintro ⟨rfl, rfl⟩
    exact hold hd
  unfold Aoi.getResult
  cases hg₀ : s₀.gridPool.get c with
  | none =>
    have hgrid : s.gridPool.get c = none := by rw [h.grid c, hg₀]; rfl
    have hdata : s₀.data (c, st) = none := by unfold Aoi.data; rw [hg₀]; rfl
    simp only [hgrid]
    refine ⟨hdata.symm, ⟨fun c' => ?_, hmarked fun hd => ?_, h.rest⟩, trivial⟩
    · by_cases hc : c' = c
      · rw [hc, hgrid, hg₀]; rfl
      · exact hother c' hc
    · rw [hdata] at hd
      cases hd
  | some g =>
    have hgrid : s.gridPool.get c = some (g.cached ms c) := by rw [h.grid c, hg₀]; rfl
    have hdata : s₀.data (c, st) = g.data st := by unfold Aoi.data; rw [hg₀]; rfl
    simp only [hgrid]
    cases hres : (g.cached ms c).result st with
    | some d =>
      have hin : (c, st) ∈ ms ∧ g.data st = some d := by
        simp only [Grid.cached] at hres
        split at hres
        · exact ⟨by assumption, hres⟩
        · cases hres
      refine ⟨hin.2.symm.trans hdata.symm, ⟨fun c' => ?_, hmarked fun _ => hin.1, h.rest⟩, rfl⟩
      by_cases hc : c' = c
      · rw [hc, hgrid, hg₀, Option.map_some, Grid.cached_append_mem g hin.1]
      · exact hother c' hc
    | none =>
      simp only [hmake, Grid.cached_data]
      refine ⟨hdata.symm, ⟨fun c' => ?_, fun c' => ?_, h.rest.setResult ..⟩, setResult_last ..⟩
      · rw [setResult_gridPool, Table.get_set]
        split
        · rename_i hc
          rw [hc, hg₀, Option.map_some, Grid.cached_append]
          split <;> rfl
        · rename_i hc
          exact hother c' hc
      · rw [setResult_touchGridResult, h.marked c', ← hdata]
        simp only [List.mem_append, List.mem_singleton, Prod.mk.injEq]
        constructor
        · rintro (⟨st', hm, hd⟩ | ⟨rfl, hd⟩)
          · exact ⟨st', .inl hm, hd⟩
          · exact ⟨st, .inr ⟨rfl, rfl⟩, hd⟩
        · rintro ⟨st', hm | ⟨rfl, rfl⟩, hd⟩
          · exact .inl ⟨st', hm, hd⟩
          · exact .inr ⟨rfl, hd⟩

/-! ## The messages to the watchers -/

/-- `aoi_do_message` appends the records of the message to what the watcher is sent. They are those of the
state before the update, since what a cell keeps is what it would compute again. -/
theorem Sent.aoiDoMessage {t : Aoi Id × ResultTbl Id} (h : Sent s₀ t.1 ms) (w : Id) (m : Message) :
    Sent s₀ (Aoi.aoiDoMessage w t m).1 (ms ++ [m]) ∧
      (Aoi.aoiDoMessage w t m).1.lastWatchidToGrididx = t.1.lastWatchidToGrididx ∧
      (Aoi.aoiDoMessage w t m).2 = t.2.set w ((t.2.get w).getD [] ++ (s₀.data m).toList) := by
  obtain ⟨c, st⟩ := m
  unfold Aoi.aoiDoMessage
  cases st with
  | GU =>
    obtain ⟨hdata, hsent, hlast⟩ := h.getResult c .GU (fun g => (g.guData, g)) fun g => rfl
    exact ⟨hsent, hlast, by rw [← hdata]; rfl⟩
  | GD =>
    obtain ⟨hdata, hsent, hlast⟩ := h.getResult c .GD (fun g => (g.gdData, g)) fun g => rfl
    exact ⟨hsent, hlast, by rw [← hdata]; rfl⟩
  | GA =>
    obtain ⟨hdata, hsent, hlast⟩ := h.getResult c .GA
      (fun g => (Grid.gaData g.getMergeObjs.1, g.getMergeObjs.2)) fun g => by rw [Grid.getMergeObjs_eq]; rfl
    exact ⟨hsent, hlast, by rw [← hdata]; rfl⟩

/-- The messages to one watcher, one after the other. -/
theorem Sent.messages {t : Aoi Id × ResultTbl Id} (h : Sent s₀ t.1 ms) (w : Id) (l : List Message) :
    Sent s₀ (l.foldl (Aoi.aoiDoMessage w) t).1 (ms ++ l) ∧
      (l.foldl (Aoi.aoiDoMessage w) t).1.lastWatchidToGrididx = t.1.lastWatchidToGrididx ∧
      ((l.foldl (Aoi.aoiDoMessage w) t).2.get w).getD [] =
        (t.2.get w).getD [] ++ l.filterMap s₀.data ∧
      ∀ w' ≠ w, (l.foldl (Aoi.aoiDoMessage w) t).2.get w' = t.2.get w' := by
  induction l generalizing t ms with
  | nil => simpa using h
  | cons m l ih =>
    obtain ⟨hsent, hlast, hret⟩ := h.aoiDoMessage w m
    obtain ⟨ihsent, ihlast, ihret, ihother⟩ := ih hsent
    rw [List.foldl_cons]
    refine ⟨by simpa using ihsent, ihlast.trans hlast, ?_, fun w' hw => ?_⟩
    · rw [ihret, hret, Table.get_set_self, Option.getD_some, List.append_assoc, List.filterMap_cons]
      cases s₀.data m <;> rfl
    · rw [ihother w' hw, hret, Table.get_set_ne _ _ hw]

/-- The cells around one are the same throughout. -/
theorem Sent.get9Gridobj (h : Sent s₀ s ms) (c : Int) : s.get9Gridobj c = s₀.get9Gridobj c := by
  unfold Aoi.get9Gridobj
  rw [h.rest.map]
  refine List.filter_congr fun k _ => ?_
  rw [h.grid k, Option.isSome_map]

/-- The messages to a watcher, as long as it has been sent none. -/
theorem Sent.watcherMessages (h : Sent s₀ s ms) (order : PairsOrder Id) {w : Id} (cur : Int)
    (hlast : s.lastWatchidToGrididx.get w = s₀.lastWatchidToGrididx.get w) :
    s.watcherMessages order w cur = s₀.watcherMessages order w cur := by
  have hnine : s.get9Gridobj = s₀.get9Gridobj := funext h.get9Gridobj
  have hgrid : s.lastGrid w = s₀.lastGrid w := by
    unfold Aoi.lastGrid
    rw [hlast]
    congr 1
    funext last
    rw [h.grid last, Option.isSome_map]
  unfold Aoi.watcherMessages Aoi.changeMessages
  rw [hlast, hgrid, hnine]

/-! ## The cells that are touched -/

/-- The watchers in a cell. -/
def watchersAt (s : Aoi Id) (c : Int) : List Id :=
  (((s.gridPool.get c).bind Grid.watchers).getD .empty).keys

/-- The watchers in the cells `cs`, with their cells. -/
def targets (s : Aoi Id) (order : PairsOrder Id) (cs : List Int) : List (Id × Int) :=
  cs.flatMap fun c => (order.watchers (s.watchersAt c)).map (·, c)

/-- The messages to some watchers, each in its cell. -/
def messagesTo (s : Aoi Id) (order : PairsOrder Id) (ts : List (Id × Int)) : List Message :=
  ts.flatMap fun t => s.watcherMessages order t.1 t.2

/-- The state in which an update that began in `s₀` has resolved the watchers `ts`. -/
structure Resolved (s₀ : Aoi Id) (order : PairsOrder Id) (ts : List (Id × Int))
    (t : Aoi Id × ResultTbl Id) : Prop where
  sent : Sent s₀ t.1 (s₀.messagesTo order ts)
  last : ∀ w c, (w, c) ∈ ts → t.1.lastWatchidToGrididx.get w = some c
  lastOther : ∀ w, w ∉ ts.map Prod.fst →
    t.1.lastWatchidToGrididx.get w = s₀.lastWatchidToGrididx.get w
  result : ∀ w c, (w, c) ∈ ts →
    (t.2.get w).getD [] = (s₀.watcherMessages order w c).filterMap s₀.data
  resultOther : ∀ w, w ∉ ts.map Prod.fst → t.2.get w = none

variable {order : PairsOrder Id} {ts : List (Id × Int)} {t : Aoi Id × ResultTbl Id}

/-- One watcher that has not been told yet. -/
theorem Resolved.resolveWatcher (h : Resolved s₀ order ts t) {w : Id} {cur : Int}
    (hw : w ∉ ts.map Prod.fst) :
    Resolved s₀ order (ts ++ [(w, cur)]) (Aoi.resolveWatcher order cur t w) := by
  have hlast := h.lastOther w hw
  obtain ⟨hsent, hkept, hret, hother⟩ := h.sent.messages w (s₀.watcherMessages order w cur)
  have hnotin : ∀ w' c, (w', c) ∈ ts → w' ≠ w := by
    rintro w' c hm rfl
    exact hw (List.mem_map_of_mem hm)
  have hmessages : s₀.messagesTo order (ts ++ [(w, cur)]) =
      s₀.messagesTo order ts ++ s₀.watcherMessages order w cur := by
    simp [messagesTo]
  unfold Aoi.resolveWatcher
  rw [h.sent.watcherMessages order cur hlast]
  rw [h.resultOther w hw, Option.getD_none, List.nil_append] at hret
  -- What is left is the table of the last cells, in the two branches alike.
  suffices hfinal : ∀ last : Table Id Int, last.get w = some cur →
      (∀ w' ≠ w, last.get w' = t.1.lastWatchidToGrididx.get w') →
      Resolved s₀ order (ts ++ [(w, cur)])
        ({ ((s₀.watcherMessages order w cur).foldl (Aoi.aoiDoMessage w) t).1 with
            lastWatchidToGrididx := last },
          ((s₀.watcherMessages order w cur).foldl (Aoi.aoiDoMessage w) t).2) by
    dsimp only
    split
    · rename_i hcur
      have := hfinal t.1.lastWatchidToGrididx hcur fun _ _ => rfl
      rw [← hkept] at this
      exact this
    · refine hfinal _ (Table.get_set_self ..) fun w' hne => ?_
      rw [Table.get_set_ne _ _ hne, hkept]
  intro last hself hne
  constructor
  · rw [hmessages]
    exact ⟨hsent.grid, hsent.marked, ⟨hsent.rest.1, hsent.rest.2, hsent.rest.3, hsent.rest.4,
      hsent.rest.5, hsent.rest.6, hsent.rest.7⟩⟩
  · intro w' c hm
    rcases List.mem_append.mp hm with hm | hm
    · exact (hne w' (hnotin w' c hm)).trans (h.last w' c hm)
    · cases List.mem_singleton.mp hm
      exact hself
  · intro w' hm
    simp only [List.map_append, List.map_cons, List.map_nil, List.mem_append, List.mem_singleton,
      not_or] at hm
    exact (hne w' hm.2).trans (h.lastOther w' hm.1)
  · intro w' c hm
    rcases List.mem_append.mp hm with hm | hm
    · rw [hother w' (hnotin w' c hm)]
      exact h.result w' c hm
    · cases List.mem_singleton.mp hm
      exact hret
  · intro w' hm
    simp only [List.map_append, List.map_cons, List.map_nil, List.mem_append, List.mem_singleton,
      not_or] at hm
    exact (hother w' hm.2).trans (h.resultOther w' hm.1)

/-- All watchers of a cell, by induction on them. -/
theorem Resolved.watchers (h : Resolved s₀ order ts t) {ws : List Id} {c : Int}
    (hnodup : ((ts ++ ws.map (·, c)).map Prod.fst).Nodup) :
    Resolved s₀ order (ts ++ ws.map (·, c)) (ws.foldl (Aoi.resolveWatcher order c) t) := by
  induction ws generalizing ts t with
  | nil => simpa using h
  | cons w ws ih =>
    rw [List.map_cons, List.append_cons] at hnodup ⊢
    refine ih (h.resolveWatcher ?_) hnodup
    simp only [List.map_append, List.map_cons, List.map_nil, List.append_assoc] at hnodup
    exact fun hm => List.disjoint_of_nodup_append hnodup hm (by simp)

/-- The same for `aoi_resolve_watcher`. -/
theorem Resolved.aoiResolveWatcher (h : Resolved s₀ order ts t) {c : Int}
    (hnodup : ((ts ++ s₀.targets order [c]).map Prod.fst).Nodup) :
    Resolved s₀ order (ts ++ s₀.targets order [c]) (Aoi.aoiResolveWatcher order t c) := by
  have hws : s₀.targets order [c] = (order.watchers (s₀.watchersAt c)).map (·, c) := by
    simp [targets]
  unfold Aoi.aoiResolveWatcher
  rw [h.sent.grid c]
  cases hc : s₀.gridPool.get c with
  | none =>
    have hnone : order.watchers (s₀.watchersAt c) = [] := by
      have hat : s₀.watchersAt c = [] := by unfold watchersAt; rw [hc]; rfl
      rw [hat]
      exact (order.watchers_perm []).eq_nil
    simpa [hws, hnone] using h
  | some g =>
    have hat : s₀.watchersAt c = (g.watchers.getD .empty).keys := by unfold watchersAt; rw [hc]; rfl
    rw [hws, hat] at hnodup ⊢
    exact h.watchers hnodup

/-- All cells, by induction on them. -/
theorem Resolved.cells (h : Resolved s₀ order ts t) {cs : List Int}
    (hnodup : ((ts ++ s₀.targets order cs).map Prod.fst).Nodup) :
    Resolved s₀ order (ts ++ s₀.targets order cs) (cs.foldl (Aoi.aoiResolveWatcher order) t) := by
  induction cs generalizing ts t with
  | nil => simpa [targets] using h
  | cons c cs ih =>
    have hcons : ts ++ s₀.targets order (c :: cs) =
        (ts ++ s₀.targets order [c]) ++ s₀.targets order cs := by
      simp [targets]
    rw [hcons] at hnodup ⊢
    refine ih (h.aoiResolveWatcher ?_) hnodup
    rw [List.map_append] at hnodup
    exact hnodup.of_append_left

end Aoi

/-! ## The end of the update -/

namespace Grid

/-- A cell after an update in which its `merge` was made, or not, and which touched it, or not. -/
def updated (g : Grid Id) (made touched : Prop) [Decidable made] [Decidable touched] : Grid Id :=
  if touched then (if made then g.withMerge else g).commit else if made then g.withMerge else g

/-- The touched objects are taken over and the results cleared, in either order. -/
theorem commit_clearResult (g : Grid Id) : g.commit.clearResult = g.clearResult.commit := by
  obtain ⟨_, _, _, touchs, merge, _⟩ := g
  cases merge with
  | some merge => rfl
  | none => cases touchs <;> rfl

omit [DecidableEq Id] in
/-- There is nothing to clear. -/
theorem clearResult_of_none {g : Grid Id} (h : ∀ st, g.result st = none) : g.clearResult = g := by
  unfold clearResult
  rw [← funext h]

/-- After the results are cleared only the merged objects of an A are left. -/
theorem cached_clearResult {g : Grid Id} (h : ∀ st, g.result st = none) (ms : List Message)
    (c : Int) : (g.cached ms c).clearResult = if (c, .GA) ∈ ms then g.withMerge else g := by
  unfold clearResult cached withMerge
  rw [← funext h]
  split <;> rfl

/-- What the end of the update makes of a cell with its caches. -/
theorem cached_updated {g : Grid Id} (h : ∀ st, g.result st = none) {ms : List Message} {c : Int}
    {marked touched : Prop} [Decidable marked] [Decidable touched]
    (hmarked : marked ↔ ∃ st, (c, st) ∈ ms ∧ (g.data st).isSome) :
    (if marked then (if touched then (g.cached ms c).commit else g.cached ms c).clearResult
      else if touched then (g.cached ms c).commit else g.cached ms c) =
      g.updated ((c, .GA) ∈ ms) touched := by
  have hclear : (if touched then (g.cached ms c).commit else g.cached ms c).clearResult =
      g.updated ((c, .GA) ∈ ms) touched := by
    unfold updated
    split
    · rw [commit_clearResult, cached_clearResult h]
    · rw [cached_clearResult h]
  split
  · exact hclear
  · rename_i hm
    -- No result is there to be dropped.
    have hnone : ∀ st, (g.cached ms c).result st = none := by
      intro st
      unfold cached
      dsimp only
      split
      · rename_i hst
        exact Option.not_isSome_iff_eq_none.mp fun hd => hm (hmarked.mpr ⟨st, hst, hd⟩)
      · rfl
    rw [← hclear]
    split
    · rw [commit_clearResult, clearResult_of_none hnone]
    · rw [clearResult_of_none hnone]

end Grid

namespace Aoi

/-- The state after an update of `s₀` over the cells `cs`, and what it sends. -/
structure Updated (s₀ : Aoi Id) (order : PairsOrder Id) (cs : List Int)
    (t : Aoi Id × ResultTbl Id) : Prop where
  grid : ∀ c, t.1.gridPool.get c = (s₀.gridPool.get c).map fun g =>
    g.updated ((c, .GA) ∈ s₀.messagesTo order (s₀.targets order cs))
      (s₀.touchGrididxMap.get c).isSome
  last : ∀ w c, (w, c) ∈ s₀.targets order cs → t.1.lastWatchidToGrididx.get w = some c
  lastOther : ∀ w, w ∉ (s₀.targets order cs).map Prod.fst →
    t.1.lastWatchidToGrididx.get w = s₀.lastWatchidToGrididx.get w
  result : ∀ w c, (w, c) ∈ s₀.targets order cs →
    (t.2.get w).getD [] = (s₀.watcherMessages order w c).filterMap s₀.data
  resultOther : ∀ w, w ∉ (s₀.targets order cs).map Prod.fst → t.2.get w = none
  touchGrididxMap : t.1.touchGrididxMap = .empty
  touchGridCount : t.1.touchGridCount = 0
  touchGridResult : t.1.touchGridResult = .empty
  map : t.1.map = s₀.map
  objidToGrididx : t.1.objidToGrididx = s₀.objidToGrididx
  objidToMarked : t.1.objidToMarked = s₀.objidToMarked
  watchGrididxMap : t.1.watchGrididxMap = s₀.watchGrididxMap
  watchGridCount : t.1.watchGridCount = s₀.watchGridCount

/-- The whole of an update on the cells `cs`. -/
theorem Uncached.updateCells {s₀ : Aoi Id} {order : PairsOrder Id} (h : s₀.Uncached) {cs : List Int}
    (hnodup : ((s₀.targets order cs).map Prod.fst).Nodup) :
    Updated s₀ order cs (s₀.updateCells order cs) := by
  have hstart : Resolved s₀ order [] (s₀, .empty) :=
    ⟨h.sent, nofun, fun _ _ => rfl, nofun, fun _ _ => Table.get_empty _⟩
  obtain ⟨hsent, hlast, hlastOther, hresult, hresultOther⟩ := hstart.cells hnodup
  refine ⟨fun c => ?_, hlast, hlastOther, hresult, hresultOther, rfl, rfl, rfl, hsent.rest.map,
    hsent.rest.objidToGrididx, hsent.rest.objidToMarked, hsent.rest.watchGrididxMap,
    hsent.rest.watchGridCount⟩
  have htouched := hsent.rest.touchGrididxMap
  have hmarked := hsent.marked c
  have hgrid := hsent.grid c
  rw [List.nil_append] at hmarked hgrid
  unfold Aoi.updateCells clearAllTouchResult clearAllTouchGridobjs
  dsimp only
  rw [Table.get_foldl_modify _ (Table.keys_nodup _), Table.get_foldl_modify _ (Table.keys_nodup _),
    htouched, hgrid]
  simp only [Table.mem_keys]
  cases hc : s₀.gridPool.get c with
  | none => simp
  | some g =>
    have hdata : ∀ st, s₀.data (c, st) = g.data st := fun st => by unfold Aoi.data; rw [hc]; rfl
    simp only [hdata] at hmarked
    refine Eq.trans ?_ (congrArg some (Grid.cached_updated (h.result c g hc) hmarked))
    rw [Option.map_some]
    split <;> split <;> rfl

end Aoi

end AntServer.Scene
