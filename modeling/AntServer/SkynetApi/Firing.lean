/-
# AntServer.SkynetApi.Firing — when a timer fires

Every timer of a `SkynetTimer` is a periodic task, and an update is a round: it fires the tasks that are
due, have a firing left and were not removed before it began. `pending` and `to_deleted` are never
emptied, so every update starts from all timers ever added; what makes the law hold all the same is that
the tables are determined by the history (`Counted`): a record by how often its function was called, and
`to_deleted` by the removals and the firings that are used up. While a function runs, its own call is
counted in `wakeup` and not yet in `times`, so the two are counted apart.
-/
import AntServer.LuaNumber
import AntServer.SkynetApi.SkynetTimer
import Mathlib.Algebra.Order.Ring.Int

namespace AntServer.SkynetApi

open Lib (Table Task Round fires)

variable {N F : Type*} [Lib.Clock N]

namespace Added

/-- A timer as a task. -/
def task (a : Added N F) : Task Nat N where
  key := a.handle
  added := a.second
  interval := a.data.interval
  immediate := a.data.immediate
  times := a.data.times.getD 0

/-- `v.times` of a timer after `n` countdowns. It stops at 1. -/
def rest (a : Added N F) (n : Nat) : Int :=
  if a.task.times ≤ 0 then a.task.times else max (a.task.times - n) 1

/-- The record of a timer whose function was called `called` times and whose `times` went down `spent`
times. -/
def record (a : Added N F) (called spent : Nat) : TimerRecord N F where
  interval := a.data.interval
  func := a.data.func
  wakeup := a.task.wait (called + 1)
  times := a.rest spent
  timestamp := a.second

/-- The record that `add_timer` makes. -/
theorem record_zero (a : Added N F) : a.record 0 0 =
    { interval := a.data.interval
      func := a.data.func
      wakeup := if a.data.immediate then 0 else a.data.interval
      times := a.data.times.getD 0
      timestamp := a.second } := by
  have hwait : a.task.wait 1 = if a.data.immediate then 0 else a.data.interval := rfl
  have hrest : a.rest 0 = a.data.times.getD 0 := by
    show (if a.data.times.getD 0 ≤ 0 then a.data.times.getD 0
      else max (a.data.times.getD 0 - 0) 1) = _
    split <;> omega
  rw [record, hwait, hrest]

end Added

/-- The tables hold what the history says: `called` and `spent` count, for each handle, the calls of its
function and the countdowns of its `times`. -/
structure Counted (w : Watched N F) (called spent : Nat → Nat) : Prop where
  nodup : (w.added.map Added.handle).Nodup
  below : ∀ h ∈ w.added.map Added.handle, h < w.timer.handle
  pending : ∀ h, w.timer.pending.get h = if h ∈ w.added.map Added.handle then some h else none
  timers : ∀ h r, w.timer.timers.get h = some r → r = h ∧ h ∈ w.added.map Added.handle
  record : ∀ a ∈ w.added,
    w.timer.records.get a.handle = some (a.record (called a.handle) (spent a.handle))
  deleted : ∀ h, (w.timer.toDeleted.get h).isSome ↔
    h ∈ w.removed ∨ ∃ a ∈ w.added, a.handle = h ∧ ¬ a.task.Left (spent h)
  unknown : ∀ h, h ∉ w.added.map Added.handle → called h = 0 ∧ spent h = 0

namespace Counted

variable {w : Watched N F} {called spent : Nat → Nat}

theorem newTimer (checkInterval : N) :
    Counted (Watched.newTimer checkInterval : Watched N F) (fun _ => 0) (fun _ => 0) where
  nodup := List.nodup_nil
  below h hh := by cases hh
  pending h := Table.get_empty h
  timers h r hr := by cases (Table.get_empty h).symm.trans hr
  record a ha := by cases ha
  deleted h := by
    rw [show (Watched.newTimer checkInterval : Watched N F).timer.toDeleted.get h = none from
      Table.get_empty h]
    simp [Watched.newTimer]
  unknown _ _ := ⟨rfl, rfl⟩

/-- Handles are given out once, so a handle names one timer. -/
theorem eq_of_handle (hw : Counted w called spent) {a b : Added N F} (ha : a ∈ w.added)
    (hb : b ∈ w.added) (h : a.handle = b.handle) : a = b :=
  List.inj_on_of_nodup_map hw.nodup ha hb h

/-- A timer added later has a handle that no earlier timer had. -/
theorem fresh (hw : Counted w called spent) {before : List (Added N F)} (hadded : before ⊆ w.added)
    {a : Added N F} (ha : a ∈ w.added) (hnew : a ∉ before) :
    a.handle ∉ before.map Added.handle := by
  intro hmem
  obtain ⟨b, hb, hba⟩ := List.mem_map.mp hmem
  exact hnew (hw.eq_of_handle (hadded hb) ha hba ▸ hb)

theorem addTimer (hw : Counted w called spent) (data : TimerData N F) (second : N) :
    Counted (w.addTimer data second) called spent := by
  unfold Watched.addTimer SkynetTimer.addTimer
  by_cases hi : data.interval ≥ w.timer.checkInterval
  · rw [if_pos hi]
    -- the new handle is above all handles given out
    have hfresh : w.timer.handle ∉ w.added.map Added.handle := fun h =>
      Nat.lt_irrefl _ (hw.below _ h)
    obtain ⟨hcalled, hspent⟩ := hw.unknown _ hfresh
    refine ⟨?_, ?_, ?_, ?_, ?_, ?_, ?_⟩
    · exact List.nodup_cons.mpr ⟨hfresh, hw.nodup⟩
    · intro h hh
      rcases List.mem_cons.mp hh with rfl | hh
      · exact Nat.lt_succ_self _
      · exact (hw.below h hh).trans (Nat.lt_succ_self _)
    · intro h
      show (w.timer.pending.set w.timer.handle w.timer.handle).get h = _
      rw [Table.get_set, hw.pending]
      by_cases hh : h = w.timer.handle
      · subst hh
        simp
      · simp [hh]
    · intro h r hr
      obtain ⟨rfl, hmem⟩ := hw.timers h r hr
      exact ⟨rfl, List.mem_cons_of_mem _ hmem⟩
    · intro a ha
      show (w.timer.records.set w.timer.handle _).get a.handle = _
      rcases List.mem_cons.mp ha with rfl | ha
      · rw [Table.get_set_self, hcalled, hspent, Added.record_zero]
      · rw [Table.get_set_ne]
        · exact hw.record a ha
        · intro heq
          exact hfresh (heq ▸ List.mem_map_of_mem ha)
    · intro h
      rw [hw.deleted]
      refine or_congr_right ⟨fun ⟨a, ha, hah⟩ => ⟨a, List.mem_cons_of_mem _ ha, hah⟩, ?_⟩
      rintro ⟨a, ha, rfl, hleft⟩
      rcases List.mem_cons.mp ha with rfl | ha
      · -- a timer that has not fired has a firing left
        rw [hspent] at hleft
        refine absurd ?_ hleft
        unfold Task.Left
        omega
      · exact ⟨a, ha, rfl, hleft⟩
    · intro h hh
      exact hw.unknown h fun hmem => hh (List.mem_cons_of_mem _ hmem)
  · rw [if_neg hi]
    exact hw

theorem removeTimer (hw : Counted w called spent) (handle : Nat) :
    Counted (w.removeTimer handle) called spent where
  nodup := hw.nodup
  below := hw.below
  pending := hw.pending
  timers := hw.timers
  record := hw.record
  deleted h := by
    show ((w.timer.toDeleted.set handle true).get h).isSome ↔ h ∈ handle :: w.removed ∨ _
    rw [Table.get_set, List.mem_cons]
    by_cases hh : h = handle
    · simp [hh]
    · rw [if_neg hh, hw.deleted]
      simp [hh]
      rfl
  unknown := hw.unknown

theorem op (hw : Counted w called spent) (o : TimerOp N F) : Counted (w.op o) called spent := by
  cases o with
  | add data second => exact hw.addTimer data second
  | remove handle => exact hw.removeTimer handle

theorem ops (hw : Counted w called spent) (os : List (TimerOp N F)) :
    Counted (os.foldl Watched.op w) called spent := by
  induction os generalizing w with
  | nil => exact hw
  | cons o os ih => exact ih (hw.op o)

theorem pcall (hw : Counted w called spent) (run : CallbackRun N F) :
    Counted (w.pcall run) called spent := by
  have h := hw.ops run.ops
  unfold Watched.pcall
  cases run.err with
  | none => exact h
  | some err => exact ⟨h.nodup, h.below, h.pending, h.timers, h.record, h.deleted, h.unknown⟩

/-! ### One firing -/

/-- `v.wakeup` goes up just before the call. -/
theorem wake (hw : Counted w called spent) {k : Nat} (hk : k ∈ w.added.map Added.handle) :
    Counted { w with timer := w.timer.wake k } (Function.update called k (called k + 1)) spent where
  nodup := hw.nodup
  below := hw.below
  pending := hw.pending
  timers := hw.timers
  record a ha := by
    show (w.timer.records.modify k _).get a.handle = _
    rw [Table.get_modify, hw.record a ha]
    by_cases hak : a.handle = k
    · rw [if_pos hak, hak, Function.update_self]
      show some { a.record (called k) (spent k) with
        wakeup := a.task.wait (called k + 1) + a.data.interval } = _
      rw [show a.task.wait (called k + 1) + a.data.interval = a.task.wait (called k + 1 + 1) from
      (a.task.wait_succ (called k)).symm]
      rfl
    · rw [if_neg hak, Function.update_of_ne hak]
  deleted := hw.deleted
  unknown h hh := by
    have hne : h ≠ k := fun heq => hh (heq ▸ hk)
    rw [Function.update_of_ne hne]
    exact hw.unknown h hh

/-- What a handle's own entries have to be for one more countdown of it, all others being left alone. -/
theorem spend (hw : Counted w called spent) {a : Added N F} (ha : a ∈ w.added)
    {records : Table Nat (TimerRecord N F)} {toDeleted : Table Nat Bool}
    (hothers : ∀ h, h ≠ a.handle →
      records.get h = w.timer.records.get h ∧ toDeleted.get h = w.timer.toDeleted.get h)
    (hrecord : records.get a.handle = some (a.record (called a.handle) (spent a.handle + 1)))
    (hdeleted : (toDeleted.get a.handle).isSome ↔
      a.handle ∈ w.removed ∨ ¬ a.task.Left (spent a.handle + 1)) :
    Counted { w with timer := { w.timer with records := records, toDeleted := toDeleted } } called
      (Function.update spent a.handle (spent a.handle + 1)) where
  nodup := hw.nodup
  below := hw.below
  pending := hw.pending
  timers := hw.timers
  record b hb := by
    by_cases hba : b.handle = a.handle
    · obtain rfl := hw.eq_of_handle hb ha hba
      rw [Function.update_self]
      exact hrecord
    · rw [Function.update_of_ne hba]
      exact (hothers _ hba).1.trans (hw.record b hb)
  deleted h := by
    by_cases hh : h = a.handle
    · subst hh
      rw [Function.update_self]
      refine hdeleted.trans (or_congr_right ⟨fun hleft => ⟨a, ha, rfl, hleft⟩, ?_⟩)
      rintro ⟨b, hb, hba, hleft⟩
      exact hw.eq_of_handle hb ha hba ▸ hleft
    · rw [Function.update_of_ne hh]
      exact (congrArg (fun v => v.isSome = true) (hothers h hh).2).to_iff.trans (hw.deleted h)
  unknown h hh := by
    have hne : h ≠ a.handle := fun heq => hh (heq ▸ List.mem_map_of_mem ha)
    rw [Function.update_of_ne hne]
    exact hw.unknown h hh

theorem deleted_self (hw : Counted w called spent) {a : Added N F} (ha : a ∈ w.added) :
    (w.timer.toDeleted.get a.handle).isSome ↔
      a.handle ∈ w.removed ∨ ¬ a.task.Left (spent a.handle) := by
  rw [hw.deleted]
  refine or_congr_right ⟨?_, fun hleft => ⟨a, ha, rfl, hleft⟩⟩
  rintro ⟨b, hb, hba, hleft⟩
  exact hw.eq_of_handle hb ha hba ▸ hleft

/-- The countdown after the call: the last firing removes the timer, the others take 1 from `times`. -/
theorem countDown (hw : Counted w called spent) {a : Added N F} (ha : a ∈ w.added) :
    Counted { w with timer := w.timer.countDown a.handle a.handle (a.rest (spent a.handle)) } called
      (Function.update spent a.handle (spent a.handle + 1)) := by
  -- unless the firing was the last one, there was one left and there still is
  have hkept : a.task.Left (spent a.handle) → a.task.Left (spent a.handle + 1) →
      ((w.timer.toDeleted.get a.handle).isSome ↔
        a.handle ∈ w.removed ∨ ¬ a.task.Left (spent a.handle + 1)) := by
    intro hleft hleft'
    rw [hw.deleted_self ha]
    simp [hleft, hleft']
  unfold SkynetTimer.countDown
  by_cases htimes : a.rest (spent a.handle) > 0
  · rw [if_pos htimes]
    have hlimit : 0 < a.task.times := by
      unfold Added.rest at htimes
      by_contra h
      rw [if_pos (by omega)] at htimes
      omega
    have hrest : ∀ n, a.rest n = max (a.task.times - n) 1 := fun n => if_neg (by omega)
    have hrest' := hrest (spent a.handle + 1)
    rw [hrest] at htimes ⊢
    push_cast at hrest'
    by_cases hone : max (a.task.times - spent a.handle) 1 = 1
    · rw [if_pos hone]
      refine hw.spend ha (fun h hh => ⟨rfl, Table.get_set_ne _ _ hh⟩) ?_ ?_
      · rw [hw.record a ha, Added.record, Added.record, hrest, hrest', hone]
        simp only [Option.some.injEq, TimerRecord.mk.injEq, true_and, and_true]
        omega
      · rw [Table.get_set_self]
        unfold Task.Left
        push_cast
        simp only [Option.isSome_some, true_iff]
        omega
    · rw [if_neg hone]
      refine hw.spend ha (fun h hh => ⟨?_, rfl⟩) ?_ (hkept (.inr ?_) (.inr ?_))
      · rw [Table.get_modify, if_neg hh]
      · rw [Table.get_modify, if_pos rfl, hw.record a ha, Added.record, Added.record, hrest']
        simp only [Option.map_some, Option.some.injEq, TimerRecord.mk.injEq, true_and, and_true]
        omega
      · omega
      · push_cast
        omega
  · rw [if_neg htimes]
    have hlimit : a.task.times ≤ 0 := by
      unfold Added.rest at htimes
      by_contra h
      rw [if_neg h] at htimes
      omega
    refine hw.spend ha (fun h hh => ⟨rfl, rfl⟩) ?_ (hkept (.inl hlimit) (.inl hlimit))
    rw [hw.record a ha, Added.record, Added.record, Added.rest, Added.rest, if_pos hlimit,
      if_pos hlimit]

/-! ### The start of an update -/

/-- An update goes through the timers that are neither removed nor used up. -/
theorem get_gather (hw : Counted w called spent) (k : Nat) : w.timer.gather.timers.get k =
    if k ∈ w.added.map Added.handle ∧ w.timer.toDeleted.get k = none then some k else none := by
  show ((w.timer.pending.overlay w.timer.timers).filterMap _).get k = _
  rw [Table.get_filterMap, Table.get_overlay, hw.pending]
  by_cases hk : k ∈ w.added.map Added.handle
  · rw [if_pos hk]
    cases hd : w.timer.toDeleted.get k with
    | none => simp [hk]
    | some b => simp
  · have hnone : w.timer.timers.get k = none := by
      by_contra h
      obtain ⟨r, hr⟩ := Option.ne_none_iff_exists'.mp h
      exact hk (hw.timers k r hr).2
    rw [if_neg hk, hnone]
    simp [hk]

theorem mem_gather (hw : Counted w called spent) {a : Added N F} (ha : a ∈ w.added) :
    a.handle ∈ w.timer.gather.timers.keys ↔
      a.handle ∉ w.removed ∧ a.task.Left (spent a.handle) := by
  rw [Table.mem_keys, hw.get_gather]
  have hd := hw.deleted_self ha
  have hmem : a.handle ∈ w.added.map Added.handle := List.mem_map_of_mem ha
  by_cases hnone : w.timer.toDeleted.get a.handle = none
  · rw [hnone] at hd
    simpa [hmem, hnone, not_or] using hd
  · obtain ⟨b, hb⟩ := Option.ne_none_iff_exists'.mp hnone
    rw [hb] at hd
    simp only [Option.isSome_some, true_iff] at hd
    rw [if_neg fun h => hnone h.2]
    simp only [Option.isSome_none, Bool.false_eq_true, false_iff, not_and_or, not_not]
    exact hd

theorem beginUpdate (hw : Counted w called spent) (second : N) :
    Counted (w.beginUpdate second) called spent where
  nodup := hw.nodup
  below := hw.below
  pending := hw.pending
  timers h r hr := by
    have hget : w.timer.gather.timers.get h = some r := hr
    rw [hw.get_gather] at hget
    split at hget
    · rename_i hh
      exact ⟨(Option.some.inj hget).symm, hh.1⟩
    · cases hget
  record := hw.record
  deleted := hw.deleted
  unknown := hw.unknown

end Counted

/-! ## What a function leaves alone -/

/-- A part of a run adds to what was there and leaves the updates and the table `timers` alone. -/
structure Extends (w w' : Watched N F) : Prop where
  rounds : w'.rounds = w.rounds
  timers : w'.timer.timers = w.timer.timers
  added : w.added ⊆ w'.added
  removed : w.removed ⊆ w'.removed

namespace Extends

omit [Lib.Clock N] in
theorem refl (w : Watched N F) : Extends w w := ⟨rfl, rfl, List.Subset.refl _, List.Subset.refl _⟩

omit [Lib.Clock N] in
theorem trans {w w' w'' : Watched N F} (h : Extends w w') (h' : Extends w' w'') : Extends w w'' :=
  ⟨h'.rounds.trans h.rounds, h'.timers.trans h.timers, List.Subset.trans h.added h'.added,
    List.Subset.trans h.removed h'.removed⟩

theorem addTimer (w : Watched N F) (data : TimerData N F) (second : N) :
    Extends w (w.addTimer data second) := by
  unfold Watched.addTimer SkynetTimer.addTimer
  by_cases hi : data.interval ≥ w.timer.checkInterval
  · rw [if_pos hi]
    exact ⟨rfl, rfl, List.subset_cons_self _ _, List.Subset.refl _⟩
  · rw [if_neg hi]
    exact refl w

theorem op (w : Watched N F) (o : TimerOp N F) : Extends w (w.op o) := by
  cases o with
  | add data second => exact addTimer w data second
  | remove handle => exact ⟨rfl, rfl, List.Subset.refl _, List.subset_cons_self _ _⟩

theorem ops (os : List (TimerOp N F)) (w : Watched N F) : Extends w (os.foldl Watched.op w) := by
  induction os generalizing w with
  | nil => exact refl w
  | cons o os ih => exact (op w o).trans (ih (w.op o))

theorem pcall (w : Watched N F) (run : CallbackRun N F) : Extends w (w.pcall run) := by
  have h := ops run.ops w
  unfold Watched.pcall
  cases run.err with
  | none => exact h
  | some err => exact ⟨h.rounds, h.timers, h.added, h.removed⟩

end Extends

/-! ## An update as a round -/

/-- An update of `w` at the time `second` that has gone through the keys `done`, and has called the
functions of `fired`. -/
structure Updating (w : Watched N F) (second : N) (done fired : List Nat) (w' : Watched N F) :
    Prop where
  counted : Counted w' (fires w'.rounds) (fires w'.rounds)
  rounds : w'.rounds =
    { moment := second, known := w.added.map Added.handle, cancelled := w.removed, fired := fired } ::
      w.rounds
  timers : w'.timer.timers = w.timer.gather.timers
  added : w.added ⊆ w'.added
  removed : w.removed ⊆ w'.removed
  nodup : fired.Nodup
  sub : ∀ k ∈ fired, k ∈ done
  law : ∀ a ∈ w.added, a.handle ∈ done → (a.handle ∈ fired ↔
    a.task.wait (fires w.rounds a.handle + 1) ≤ second - a.second)

namespace Updating

variable {w w' : Watched N F} {second : N} {done fired : List Nat}

theorem begins (hw : Counted w (fires w.rounds) (fires w.rounds)) (second : N) :
    Updating w second [] [] (w.beginUpdate second) where
  counted := by
    have hsame : fires (w.beginUpdate second).rounds = fires w.rounds := by
      funext k
      show fires (_ :: w.rounds) k = _
      rw [Lib.fires_cons]
      simp
    rw [hsame]
    exact hw.beginUpdate second
  rounds := rfl
  timers := rfl
  added := List.Subset.refl _
  removed := List.Subset.refl _
  nodup := List.nodup_nil
  sub k hk := by cases hk
  law a _ ha := by cases ha

/-- A law about the timers gone through, with one more of them. -/
theorem law_cons (h : Updating w second done fired w')
    (hw : Counted w (fires w.rounds) (fires w.rounds)) {a : Added N F} (ha : a ∈ w.added)
    {fired' : List Nat} (hothers : ∀ j, j ≠ a.handle → (j ∈ fired' ↔ j ∈ fired))
    (hself : a.handle ∈ fired' ↔ a.task.wait (fires w.rounds a.handle + 1) ≤ second - a.second) :
    ∀ b ∈ w.added, b.handle ∈ a.handle :: done → (b.handle ∈ fired' ↔
      b.task.wait (fires w.rounds b.handle + 1) ≤ second - b.second) := by
  intro b hb hdone
  by_cases hba : b.handle = a.handle
  · obtain rfl := hw.eq_of_handle hb ha hba
    exact hself
  · rw [hothers _ hba]
    exact h.law b hb ((List.mem_cons.mp hdone).resolve_left hba)

/-- A timer not gone through yet has fired as often as before the update. -/
theorem fires_eq (h : Updating w second done fired w') {k : Nat} (hk : k ∉ fired) :
    fires w'.rounds k = fires w.rounds k := by
  rw [h.rounds, Lib.fires_cons, if_neg hk, Nat.add_zero]

/-- One key whose timer is due. -/
theorem fire (h : Updating w second done fired w')
    (hw : Counted w (fires w.rounds) (fires w.rounds)) (run : CallbackRun N F) {a : Added N F}
    (ha : a ∈ w.added) (hnew : a.handle ∉ done)
    (hdue : a.task.wait (fires w.rounds a.handle + 1) ≤ second - a.second) {v x : Watched N F}
    (hv : v = { w' with timer := w'.timer.wake a.handle })
    (hx : x = (v.noteFired a.handle).pcall run) :
    Updating w second (a.handle :: done) (a.handle :: fired)
      { x with
        timer := x.timer.countDown a.handle a.handle (a.rest (fires w'.rounds a.handle)) } := by
  have hnf : a.handle ∉ fired := fun hf => hnew (h.sub _ hf)
  have hwake := h.counted.wake (List.mem_map_of_mem (h.added ha))
  rw [← hv] at hwake
  -- the call is noted and then made
  have hvw : v.rounds = w'.rounds ∧ v.timer.timers = w'.timer.timers ∧ v.added = w'.added ∧
      v.removed = w'.removed := by
    rw [hv]
    exact ⟨rfl, rfl, rfl, rfl⟩
  have hnote : v.noteFired a.handle =
      { v with
        rounds :=
          { moment := second
            known := w.added.map Added.handle
            cancelled := w.removed
            fired := a.handle :: fired } :: w.rounds } := by
    unfold Watched.noteFired
    rw [hvw.1, h.rounds]
  have hnoted : Counted (v.noteFired a.handle)
      (Function.update (fires w'.rounds) a.handle (fires w'.rounds a.handle + 1))
      (fires w'.rounds) := by
    rw [hnote]
    exact ⟨hwake.nodup, hwake.below, hwake.pending, hwake.timers, hwake.record, hwake.deleted,
      hwake.unknown⟩
  have hext : Extends (v.noteFired a.handle) x := hx ▸ Extends.pcall _ run
  rw [hnote] at hext
  have hadded : w.added ⊆ x.added := by
    refine List.Subset.trans h.added (List.Subset.trans ?_ hext.added)
    rw [← hvw.2.2.1]
    exact List.Subset.refl _
  have hremoved : w.removed ⊆ x.removed := by
    refine List.Subset.trans h.removed (List.Subset.trans ?_ hext.removed)
    rw [← hvw.2.2.2]
    exact List.Subset.refl _
  have hcounted := (hnoted.pcall run).countDown (by rw [← hx]; exact hadded ha)
  rw [← hx] at hcounted
  -- both counts have gone up by one at this handle
  have hfires : fires x.rounds =
      Function.update (fires w'.rounds) a.handle (fires w'.rounds a.handle + 1) := by
    funext j
    rw [hext.rounds, Lib.fires_cons]
    by_cases hj : j = a.handle
    · subst hj
      rw [Function.update_self, h.fires_eq hnf, if_pos List.mem_cons_self]
    · rw [Function.update_of_ne hj, h.rounds, Lib.fires_cons]
      simp [hj]
  refine ⟨?_, hext.rounds, ?_, hadded, hremoved, ?_, ?_, ?_⟩
  · rw [← hfires] at hcounted
    exact hcounted
  · refine Eq.trans ?_ (hext.timers.trans (hvw.2.1.trans h.timers))
    unfold SkynetTimer.countDown SkynetTimer.removeTimer
    split
    · split <;> rfl
    · rfl
  · exact List.nodup_cons.mpr ⟨hnf, h.nodup⟩
  · intro j hj
    rcases List.mem_cons.mp hj with rfl | hj
    · exact List.mem_cons_self
    · exact List.mem_cons_of_mem _ (h.sub j hj)
  · exact h.law_cons hw ha (fun j hj => by simp [hj]) (iff_of_true List.mem_cons_self hdue)

/-- One key. -/
theorem visit (h : Updating w second done fired w')
    (hw : Counted w (fires w.rounds) (fires w.rounds)) (run : Nat → F → CallbackRun N F) {k : Nat}
    (hk : k ∈ w.timer.gather.timers.keys) (hnew : k ∉ done) :
    ∃ fired', Updating w second (k :: done) fired' (Watched.visit second run w' k) := by
  have hget : w'.timer.timers.get k = some k ∧ k ∈ w.added.map Added.handle := by
    rw [h.timers]
    rw [Table.mem_keys, hw.get_gather] at hk
    rw [hw.get_gather]
    split at hk <;> rename_i hk'
    · exact ⟨if_pos hk', hk'.1⟩
    · cases hk
  obtain ⟨a, ha, rfl⟩ := List.mem_map.mp hget.2
  have hnf : a.handle ∉ fired := fun hf => hnew (h.sub _ hf)
  have hcount := h.fires_eq hnf
  unfold Watched.visit
  rw [hget.1]
  simp only [h.counted.record a (h.added ha)]
  by_cases hdue : a.task.wait (fires w.rounds a.handle + 1) ≤ second - a.second
  · rw [if_pos (by rw [hcount]; exact hdue)]
    exact ⟨_, h.fire hw _ ha hnew hdue rfl rfl⟩
  · rw [if_neg (by rw [hcount]; exact hdue)]
    refine ⟨fired, h.counted, h.rounds, h.timers, h.added, h.removed, h.nodup, ?_, ?_⟩
    · exact fun j hj => List.mem_cons_of_mem _ (h.sub j hj)
    · exact h.law_cons hw ha (fun j _ => Iff.rfl) (iff_of_false hnf hdue)

/-- The keys that are left, each once. -/
theorem visits (hw : Counted w (fires w.rounds) (fires w.rounds))
    (run : Nat → F → CallbackRun N F) {order : List Nat} (horder : order.Nodup)
    (hkeys : ∀ k ∈ order, k ∈ w.timer.gather.timers.keys) (hnew : ∀ k ∈ order, k ∉ done)
    (h : Updating w second done fired w') :
    ∃ done' fired', (∀ k, k ∈ done' ↔ k ∈ order ∨ k ∈ done) ∧
      Updating w second done' fired' (order.foldl (Watched.visit second run) w') := by
  induction order generalizing done fired w' with
  | nil => exact ⟨done, fired, fun k => by simp, h⟩
  | cons k ks ih =>
    obtain ⟨hk, hks⟩ := List.nodup_cons.mp horder
    obtain ⟨fired', h'⟩ := h.visit hw run (hkeys k List.mem_cons_self) (hnew k List.mem_cons_self)
    have hnew' : ∀ j ∈ ks, j ∉ k :: done := by
      intro j hj hmem
      rcases List.mem_cons.mp hmem with rfl | hmem
      · exact hk hj
      · exact hnew j (List.mem_cons_of_mem _ hj) hmem
    obtain ⟨done', fired'', hdone, hfin⟩ :=
      ih hks (fun j hj => hkeys j (List.mem_cons_of_mem _ hj)) hnew' h'
    refine ⟨done', fired'', fun j => ?_, hfin⟩
    rw [hdone, List.mem_cons, List.mem_cons]
    tauto

end Updating

/-! ## Every run -/

/-- What holds of a timer between two calls on it. -/
structure Scheduled (w : Watched N F) : Prop where
  counted : Counted w (fires w.rounds) (fires w.rounds)
  onSchedule : ∀ a ∈ w.added, a.task.OnSchedule w.rounds
  once : ∀ u ∈ w.rounds, u.fired.Nodup
  fired : ∀ u ∈ w.rounds, ∀ k ∈ u.fired, k ∈ u.known
  known : ∀ u ∈ w.rounds, ∀ k ∈ u.known, k ∈ w.added.map Added.handle
  removed : ∀ u ∈ w.rounds, u.cancelled ⊆ w.removed
  nested : w.rounds.Pairwise fun u u' => u'.cancelled ⊆ u.cancelled

/-- A task that no round has known of, and that has fired in none, is on schedule. -/
theorem onSchedule_fresh {t : Task Nat N} {rounds : List (Round Nat N)}
    (hknown : ∀ u ∈ rounds, t.key ∉ u.known) (hfired : ∀ u ∈ rounds, t.key ∉ u.fired)
    (hnested : rounds.Pairwise fun u u' => u'.cancelled ⊆ u.cancelled) : t.OnSchedule rounds := by
  induction rounds with
  | nil => trivial
  | cons u us ih =>
    obtain ⟨hu, hus⟩ := List.pairwise_cons.mp hnested
    refine ⟨?_, fun u' hu' hc => hu u' hu' hc, ?_⟩
    · exact iff_of_false (hfired u List.mem_cons_self) fun hf => hknown u List.mem_cons_self hf.1.1
    · exact ih (fun v hv => hknown v (List.mem_cons_of_mem _ hv))
        (fun v hv => hfired v (List.mem_cons_of_mem _ hv)) hus

namespace Scheduled

variable {w w' : Watched N F}

theorem newTimer (checkInterval : N) :
    Scheduled (Watched.newTimer checkInterval : Watched N F) where
  counted := Counted.newTimer checkInterval
  onSchedule a ha := by cases ha
  once u hu := by cases hu
  fired u hu := by cases hu
  known u hu := by cases hu
  removed u hu := by cases hu
  nested := List.Pairwise.nil

/-- Calls that make no update. -/
theorem extend (hw : Scheduled w) (h : Extends w w')
    (hcounted : Counted w' (fires w.rounds) (fires w.rounds)) : Scheduled w' where
  counted := by
    rw [h.rounds]
    exact hcounted
  onSchedule a ha := by
    rw [h.rounds]
    by_cases hold : a ∈ w.added
    · exact hw.onSchedule a hold
    · have hfresh := hcounted.fresh h.added ha hold
      refine onSchedule_fresh (fun u hu hk => hfresh (hw.known u hu _ hk)) (fun u hu hk => ?_)
        hw.nested
      exact hfresh (hw.known u hu _ (hw.fired u hu _ hk))
  once := by
    rw [h.rounds]
    exact hw.once
  fired := by
    rw [h.rounds]
    exact hw.fired
  known u hu k hk := by
    rw [h.rounds] at hu
    exact List.map_subset _ h.added (hw.known u hu k hk)
  removed u hu := by
    rw [h.rounds] at hu
    exact List.Subset.trans (hw.removed u hu) h.removed
  nested := by
    rw [h.rounds]
    exact hw.nested

/-- An update is a round that keeps the law of every timer. -/
theorem update (hw : Scheduled w) (second : N) {order : List Nat}
    (horder : order.Perm w.timer.gather.timers.keys) (run : Nat → F → CallbackRun N F) :
    Scheduled (w.update second order run) := by
  obtain ⟨done, fired, hdone, h⟩ := Updating.visits hw.counted run
    (horder.nodup_iff.mpr (Table.keys_nodup _)) (fun k hk => horder.mem_iff.mp hk)
    (fun k _ hk => by cases hk) (Updating.begins hw.counted second)
  have hkeys : ∀ k, k ∈ done ↔ k ∈ w.timer.gather.timers.keys := fun k => by
    rw [hdone, horder.mem_iff]
    simp
  have hfired : ∀ k ∈ fired, k ∈ w.added.map Added.handle := by
    intro k hk
    have hmem := (hkeys k).mp (h.sub k hk)
    rw [Table.mem_keys, hw.counted.get_gather] at hmem
    split at hmem <;> rename_i hk'
    · exact hk'.1
    · cases hmem
  have hlast : ∀ u ∈ w.rounds, u.cancelled ⊆ w.removed := hw.removed
  change Updating w second done fired (w.update second order run) at h
  generalize w.update second order run = w' at h
  have hnested : w'.rounds.Pairwise fun u u' => u'.cancelled ⊆ u.cancelled := by
    rw [h.rounds]
    exact List.pairwise_cons.mpr ⟨hlast, hw.nested⟩
  refine ⟨h.counted, fun a ha => ?_, ?_, ?_, ?_, ?_, hnested⟩
  · by_cases hold : a ∈ w.added
    · -- the round is right about the timers it began with
      rw [h.rounds]
      refine ⟨?_, fun u hu hc => hlast u hu hc, hw.onSchedule a hold⟩
      have hgather := (hkeys a.handle).trans (hw.counted.mem_gather hold)
      have hmem : a.handle ∈ w.added.map Added.handle := List.mem_map_of_mem hold
      by_cases hd : a.handle ∈ done
      · obtain ⟨hremoved, hleft⟩ := hgather.mp hd
        refine (h.law a hold hd).trans ⟨fun hdue => ⟨⟨hmem, hremoved, hdue⟩, hleft⟩, ?_⟩
        exact fun hf => hf.1.2.2
      · refine iff_of_false (fun hf => hd (h.sub _ hf)) fun hf => hd (hgather.mpr ?_)
        exact ⟨hf.1.2.1, hf.2⟩
    · -- a timer that a function has added in this update does not fire in it
      have hfresh := h.counted.fresh h.added ha hold
      refine onSchedule_fresh (fun u hu hk => hfresh ?_) (fun u hu hk => hfresh ?_) hnested
      · rw [h.rounds] at hu
        rcases List.mem_cons.mp hu with rfl | hu
        · exact hk
        · exact hw.known u hu _ hk
      · rw [h.rounds] at hu
        rcases List.mem_cons.mp hu with rfl | hu
        · exact hfired _ hk
        · exact hw.known u hu _ (hw.fired u hu _ hk)
  · intro u hu
    rw [h.rounds] at hu
    rcases List.mem_cons.mp hu with rfl | hu
    · exact h.nodup
    · exact hw.once u hu
  · intro u hu
    rw [h.rounds] at hu
    rcases List.mem_cons.mp hu with rfl | hu
    · exact hfired
    · exact hw.fired u hu
  · intro u hu k hk
    rw [h.rounds] at hu
    rcases List.mem_cons.mp hu with rfl | hu
    · exact List.map_subset _ h.added hk
    · exact List.map_subset _ h.added (hw.known u hu k hk)
  · intro u hu
    rw [h.rounds] at hu
    rcases List.mem_cons.mp hu with rfl | hu
    · exact h.removed
    · exact List.Subset.trans (hw.removed u hu) h.removed

/-- One call. -/
theorem step (hw : Scheduled w) {c : TimerCall N F} (h : w.step c = some w') : Scheduled w' := by
  cases c with
  | addTimer data second =>
    cases h
    exact hw.extend (Extends.addTimer w data second) (hw.counted.addTimer data second)
  | removeTimer handle =>
    cases h
    exact hw.extend (Extends.op w (.remove handle)) (hw.counted.removeTimer handle)
  | update second order run =>
    simp only [Watched.step] at h
    split at h
    · rename_i horder
      cases h
      exact hw.update second horder run
    · cases h

/-- Every run. -/
theorem reach {checkInterval : N} (h : (timing N F checkInterval).Reach w) : Scheduled w := by
  refine h.invariant Scheduled ?_ fun v c v' _ hv _ hstep => hv.step hstep
  rintro v rfl
  exact newTimer checkInterval

end Scheduled

/-! ## The law -/

/-- The firing law of the timers of one object: a handle names one timer; an update calls a function at
most once; the `n`-th firing of a timer is at the first update that is ready for it; a timer with a limit
has fired as often as updates have found it due, up to the limit; one without fires whenever an update
finds it due; and no update fires a timer that was removed before it began. -/
structure FiringLaw (w : Watched N F) : Prop where
  unique : (w.added.map Added.handle).Nodup
  once : ∀ u ∈ w.rounds, u.fired.Nodup
  nth : ∀ a ∈ w.added, ∀ later u earlier, w.rounds = later ++ u :: earlier →
    a.handle ∉ u.cancelled → ∀ n : Nat, 0 < n → a.task.times ≤ 0 ∨ (n : Int) ≤ a.task.times →
      ((a.handle ∈ u.fired ∧ fires earlier a.handle + 1 = n) ↔
        a.task.Ready n u earlier ∧
          ∀ later' u' earlier', earlier = later' ++ u' :: earlier' → ¬ a.task.Ready n u' earlier')
  limited : ∀ a ∈ w.added, 0 < a.task.times →
    (fires w.rounds a.handle : Int) = min a.task.times (a.task.found w.rounds)
  unlimited : ∀ a ∈ w.added, a.task.times = 0 → ∀ later u earlier, w.rounds = later ++ u :: earlier →
    (a.handle ∈ u.fired ↔ a.task.Finds u earlier)
  removed : ∀ u ∈ w.rounds, ∀ h ∈ u.cancelled, h ∉ u.fired

/-- Every timer fires by the law, whatever the functions do and in whatever order an update goes through
the timers. -/
theorem FiringLaw.of_reach {checkInterval : N} {w : Watched N F} (hw : (timing N F checkInterval).Reach w) :
    FiringLaw w where
  unique := (Scheduled.reach hw).counted.nodup
  once := (Scheduled.reach hw).once
  nth a ha later u earlier hsplit hc n hn hlimit :=
    ((Scheduled.reach hw).onSchedule a ha).fires_at_first_ready hsplit hc hn hlimit
  limited a ha htimes := ((Scheduled.reach hw).onSchedule a ha).fires_eq_min htimes
  unlimited a ha htimes later u earlier hsplit :=
    ((Scheduled.reach hw).onSchedule a ha).fired_iff_finds (by omega) hsplit
  removed u hu h hc hf := by
    have hall := Scheduled.reach hw
    obtain ⟨a, ha, rfl⟩ := List.mem_map.mp (hall.known u hu h (hall.fired u hu h hf))
    obtain ⟨later, earlier, hsplit⟩ := List.append_of_mem hu
    exact (hall.onSchedule a ha).not_fired hsplit hc hf

/-! ### In the numbers of Lua -/

instance : Lib.Clock LuaNumber where
  decLe := inferInstance

/-- How many intervals the `n`-th firing of a timer is to wait for. -/
def Added.intervals (a : Added N F) (n : Nat) : Nat := if a.data.immediate then n - 1 else n

/-- Integers add up without rounding. -/
theorem wait_of_int {a : Added LuaNumber F} {i : Int} (hi : a.data.interval = .int i) (hpos : 0 ≤ i)
    {n : Nat} (hn : 0 < n) (hmax : a.intervals n * i < 2 ^ 63) :
    a.task.wait n = .int (a.intervals n * i) := by
  obtain ⟨n, rfl⟩ := Nat.exists_eq_add_one.mpr hn
  induction n with
  | zero =>
    show (if a.data.immediate then 0 else a.data.interval) = _
    unfold Added.intervals
    split
    · rw [Nat.cast_zero, zero_mul]
      rfl
    · rw [hi, Nat.cast_one, one_mul]
  | succ n ih =>
    have hsucc : a.intervals (n + 1 + 1) = a.intervals (n + 1) + 1 := by
      unfold Added.intervals
      split <;> rfl
    rw [hsucc] at hmax ⊢
    have hmul : ((a.intervals (n + 1) + 1 : Nat) : Int) * i = a.intervals (n + 1) * i + i := by
      push_cast
      ring
    have hnonneg : 0 ≤ (a.intervals (n + 1) : Int) * i := mul_nonneg (Int.natCast_nonneg _) hpos
    rw [hmul] at hmax ⊢
    rw [Task.wait_succ, ih (Nat.succ_pos n) (by omega)]
    show LuaNumber.int _ + a.data.interval = _
    rw [hi]
    show LuaNumber.int (Int.bmod _ _) = _
    rw [Int.bmod_eq_of_le (by omega) (by omega)]

/-- The law of the timers of Lua: the `n`-th firing waits for the sum of its intervals, each added to the
last one by the addition of Lua. With integers that is `n` times the interval (one interval less when the
timer is immediate). -/
theorem firing_law {checkInterval : LuaNumber} {w : Watched LuaNumber F}
    (hw : (timing LuaNumber F checkInterval).Reach w) :
    FiringLaw w ∧ ∀ a ∈ w.added, ∀ i : Int, a.data.interval = .int i → 0 ≤ i → ∀ n : Nat, 0 < n →
      a.intervals n * i < 2 ^ 63 → a.task.wait n = .int (a.intervals n * i) :=
  ⟨.of_reach hw, fun _ _ _ hi hpos _ hn hmax => wait_of_int hi hpos hn hmax⟩

/-- Two timers, the first of which removes itself and adds another when it is called. -/
def twoTimers : List (TimerCall LuaNumber String) :=
  [.addTimer { interval := .int 1, func := "once", immediate := true, times := none } (.int 100),
    .addTimer { interval := .int 2, func := "twice", immediate := false, times := some 2 } (.int 100),
    .update (.int 100) [2, 1] fun _ func =>
      { ops :=
          if func = "once" then
            [.remove 1,
              .add { interval := .float 5.5, func := "late", immediate := true, times := none } (.int 100)]
          else []
        err := some "raised" },
    .update (.int 102) [3, 2] fun _ _ => { ops := [], err := none },
    .update (.int 103) [2, 3] fun _ _ => { ops := [], err := none },
    .update (.int 104) [2, 3] fun _ _ => { ops := [], err := none }]

theorem firing_law_twoTimers : ∃ w, (timing LuaNumber String (.int 1)).Reach w ∧
    w.rounds.map Round.fired = [[2], [], [2, 3], [1]] ∧ FiringLaw w := by
  have hrun : ∃ w ∈ (timing LuaNumber String (.int 1)).exec (Watched.newTimer (.int 1)) twoTimers,
      w.rounds.map Round.fired = [[2], [], [2, 3], [1]] := by
    decide +kernel
  obtain ⟨w, hw, hfired⟩ := hrun
  have hreach := Lib.Machine.Reach.exec (.start rfl) hw
  exact ⟨w, hreach, hfired, (firing_law hreach).1⟩

/-- The `n`-th firing is ready by the exact multiple of the interval. -/
def ReadyExactly (a : Added LuaNumber F) (n : Nat) (u : Round Nat LuaNumber)
    (earlier : List (Round Nat LuaNumber)) : Prop :=
  a.handle ∈ u.known ∧ a.intervals n * a.data.interval.toRat ≤ (u.moment - a.second).toRat ∧
    n ≤ fires earlier a.handle + 1

instance (a : Added LuaNumber F) (n : Nat) (u : Round Nat LuaNumber) (earlier : List (Round Nat LuaNumber)) :
    Decidable (ReadyExactly a n u earlier) := inferInstanceAs (Decidable (_ ∧ _ ∧ _))

/-- A timer of 1.4 seconds, and an update every second. -/
def everySecond : List (TimerCall LuaNumber String) :=
  .addTimer { interval := .float 1.4, func := "tick", immediate := false, times := none } (.int 100) ::
    (List.range 14).map fun k => .update (.int (101 + k)) [1] fun _ _ => { ops := [], err := none }

/-- Fourteen seconds are ten times the double next to 1.4 and a little more, but the rounded sum of the ten
is above fourteen: the tenth firing is missed there. -/
theorem not_firesExactly : ¬ ∀ (checkInterval : LuaNumber) (w : Watched LuaNumber String),
    (timing LuaNumber String checkInterval).Reach w → ∀ a ∈ w.added, ∀ later u earlier,
      w.rounds = later ++ u :: earlier → a.handle ∉ u.cancelled → ∀ n : Nat, 0 < n →
      a.task.times ≤ 0 ∨ (n : Int) ≤ a.task.times →
        ((a.handle ∈ u.fired ∧ fires earlier a.handle + 1 = n) ↔ ReadyExactly a n u earlier ∧
          ∀ later' u' earlier', earlier = later' ++ u' :: earlier' → ¬ ReadyExactly a n u' earlier') := by
  intro hall
  have hrun : ∃ w ∈ (timing LuaNumber String (.int 1)).exec (Watched.newTimer (.int 1)) everySecond,
      ∃ a ∈ w.added, ∃ u ∈ w.rounds.head?, a.task.times ≤ 0 ∧ a.handle ∉ u.cancelled ∧
        a.handle ∉ u.fired ∧ ReadyExactly a 10 u w.rounds.tail ∧
        ∀ u' ∈ w.rounds.tail, ¬ a.intervals 10 * a.data.interval.toRat ≤ (u'.moment - a.second).toRat := by
    decide +kernel
  obtain ⟨w, hw, a, ha, u, hu, htimes, hcancelled, hfired, hready, hbefore⟩ := hrun
  have hsplit : w.rounds = [] ++ u :: w.rounds.tail := (List.cons_head?_tail hu).symm
  have hlaw := hall _ w (Lib.Machine.Reach.exec (.start rfl) hw) a ha [] u _ hsplit hcancelled 10
    (by decide) (.inl htimes)
  refine hfired (hlaw.mpr ⟨hready, fun later' u' earlier' heq hready' => ?_⟩).1
  exact hbefore u' (heq ▸ by simp) hready'.2.1

end AntServer.SkynetApi
