/-
# AntServer.SkynetApi.Loops — the update loops of a timer

`mt:start` forks a coroutine that updates, sleeps and asks for `running` again; `mt:stop` takes `running`
back. A coroutine only reads the flag when it begins and when a sleep ends, so `stop` does not end the
loop: it lets it end. A `start` before that finds the flag down, forks a second loop, and its flag keeps
the first one running too.

The machine has the calls and the steps of the coroutines in any order. Its law is that the loops that
have not ended (`Looping.Live`) are exactly those that can still update, and that a `start` makes one
more of them unless `running` is set.
-/
import AntServer.SkynetApi.SkynetTimer
import Mathlib.Order.Basic
import Mathlib.Data.List.Induction

namespace AntServer.SkynetApi

/-- Where the coroutine of a loop is. -/
inductive LoopState where
  | forked
  | updating
  | sleeping
  | ended
  deriving DecidableEq, Repr

/-- A timer and the loops that its `start` has forked. -/
structure Looping (N F : Type*) where
  watched : Watched N F
  loops : List LoopState

/-- The calls of `start` and `stop`, the other calls on the timer, and the steps of the `i`-th loop: it
gets to the test of `running` (it was just forked, or its sleep is over), or its update returns. -/
inductive LoopAction (N F : Type*) where
  | start (second : N)
  | stop
  | addTimer (data : TimerData N F) (second : N)
  | removeTimer (handle : Nat)
  | wake (i : Nat) (second : N) (order : List Nat) (run : Nat → F → CallbackRun N F)
  | sleep (i : Nat)

namespace Looping

variable {N F : Type*} [Lib.Clock N]

/-- The test of `running`. A loop that finds it set updates, another one ends. -/
def wake (s : Looping N F) (i : Nat) (second : N) (order : List Nat)
    (run : Nat → F → CallbackRun N F) : Option (Looping N F) :=
  if s.watched.timer.running then
    (s.watched.step (.update second order run)).map fun w =>
      { watched := w, loops := s.loops.set i .updating }
  else some { s with loops := s.loops.set i .ended }

def step (s : Looping N F) : LoopAction N F → Option (Looping N F)
  | .start second =>
    let r := s.watched.timer.start second
    some
      { watched := { s.watched with timer := r.1 }
        loops := if r.2 then s.loops ++ [.forked] else s.loops }
  | .stop => some { s with watched := { s.watched with timer := s.watched.timer.stop } }
  | .addTimer data second => some { s with watched := s.watched.addTimer data second }
  | .removeTimer handle => some { s with watched := s.watched.removeTimer handle }
  | .wake i second order run =>
    if s.loops[i]? = some .forked ∨ s.loops[i]? = some .sleeping then s.wake i second order run
    else none
  | .sleep i =>
    if s.loops[i]? = some .updating then some { s with loops := s.loops.set i .sleeping } else none

/-- A timer that was just made. -/
def newTimer (checkInterval : N) : Looping N F where
  watched := Watched.newTimer checkInterval
  loops := []

end Looping

/-- The runs of a timer with its loops. -/
def looping (N F : Type*) [Lib.Clock N] (checkInterval : N) :
    Lib.Machine (Looping N F) (LoopAction N F) where
  start s := s = Looping.newTimer checkInterval
  step := Looping.step

namespace Looping

variable {N F : Type*} [Lib.Clock N] {s s' : Looping N F}

/-- `self.running`. -/
def running (s : Looping N F) : Bool := s.watched.timer.running

/-- A loop that has not ended. -/
def Live (s : Looping N F) (i : Nat) : Prop := ∃ l, s.loops[i]? = some l ∧ l ≠ .ended

/-- All loops have ended. -/
def Over (s : Looping N F) : Prop := ∀ l ∈ s.loops, l = .ended

instance (s : Looping N F) : Decidable s.Over := inferInstanceAs (Decidable (∀ _ ∈ _, _))

/-- A step in which the `i`-th loop updates. -/
def Updates (s : Looping N F) (i : Nat) : LoopAction N F → Prop
  | .wake j _ _ _ => j = i ∧ s.running = true
  | _ => False

/-- The `i`-th loop can still execute `update`: in some continuation it does. -/
def CanUpdate (checkInterval : N) (s : Looping N F) (i : Nat) : Prop :=
  i < s.loops.length ∧ ∃ as t a t', (looping N F checkInterval).exec s as = some t ∧
    t.step a = some t' ∧ t.Updates i a

/-! ## What a call leaves of the flag -/

theorem addTimer_running (w : Watched N F) (data : TimerData N F) (second : N) :
    (w.addTimer data second).timer.running = w.timer.running := by
  unfold Watched.addTimer SkynetTimer.addTimer
  split
  · rename_i heq
    split at heq
    · cases heq
      rfl
    · cases heq
  · rfl

theorem op_running (w : Watched N F) (o : TimerOp N F) : (w.op o).timer.running = w.timer.running := by
  cases o with
  | add data second => exact addTimer_running w data second
  | remove handle => rfl

theorem pcall_running (w : Watched N F) (run : CallbackRun N F) :
    (w.pcall run).timer.running = w.timer.running := by
  have hops : ∀ (os : List (TimerOp N F)) (w : Watched N F),
      (os.foldl Watched.op w).timer.running = w.timer.running := by
    intro os
    induction os with
    | nil => exact fun _ => rfl
    | cons o os ih => exact fun w => (ih (w.op o)).trans (op_running w o)
  unfold Watched.pcall
  cases run.err with
  | none => exact hops run.ops w
  | some err => exact hops run.ops w

theorem visit_running (second : N) (run : Nat → F → CallbackRun N F) (w : Watched N F) (k : Nat) :
    (Watched.visit second run w k).timer.running = w.timer.running := by
  have hcount : ∀ (t : SkynetTimer N F) (k r : Nat) (times : Int),
      (t.countDown k r times).running = t.running := by
    intro t k r times
    unfold SkynetTimer.countDown SkynetTimer.removeTimer
    split
    · split <;> rfl
    · rfl
  have hnote : ∀ w : Watched N F, (w.noteFired k).timer = w.timer := by
    intro w
    unfold Watched.noteFired
    split <;> rfl
  unfold Watched.visit
  split
  · rfl
  · split
    · rfl
    · split
      · simp only [hcount, pcall_running, hnote]
        rfl
      · rfl

theorem update_running (w : Watched N F) (second : N) (order : List Nat)
    (run : Nat → F → CallbackRun N F) :
    (w.update second order run).timer.running = w.timer.running := by
  have hvisits : ∀ (order : List Nat) (w : Watched N F),
      (order.foldl (Watched.visit second run) w).timer.running = w.timer.running := by
    intro order
    induction order with
    | nil => exact fun _ => rfl
    | cons k ks ih => exact fun w => (ih _).trans (visit_running second run w k)
  exact hvisits order _

/-! ## What a step does to the loops -/

/-- The steps, by what they do to the flag and the loops. -/
inductive StepCase (s : Looping N F) : LoopAction N F → Looping N F → Prop
  | forks {second : N} {s' : Looping N F} : s.running = false → s'.running = true →
    s'.loops = s.loops ++ [.forked] → StepCase s (.start second) s'
  | runs {second : N} : s.running = true → StepCase s (.start second) s
  | stop {s' : Looping N F} : s'.running = false → s'.loops = s.loops →
    s'.watched.rounds = s.watched.rounds → StepCase s .stop s'
  | addTimer {data : TimerData N F} {second : N} {s' : Looping N F} : s'.running = s.running →
    s'.loops = s.loops → s'.watched.rounds = s.watched.rounds → StepCase s (.addTimer data second) s'
  | removeTimer {handle : Nat} {s' : Looping N F} : s'.running = s.running →
    s'.loops = s.loops → s'.watched.rounds = s.watched.rounds → StepCase s (.removeTimer handle) s'
  | updates {i : Nat} {second : N} {order : List Nat} {run : Nat → F → CallbackRun N F}
    {s' : Looping N F} : s.Live i → s.running = true → s'.running = true →
    s'.loops = s.loops.set i .updating → StepCase s (.wake i second order run) s'
  | ends {i : Nat} {second : N} {order : List Nat} {run : Nat → F → CallbackRun N F} :
    s.Live i → s.running = false →
    StepCase s (.wake i second order run) { s with loops := s.loops.set i .ended }
  | sleep {i : Nat} : s.Live i →
    StepCase s (.sleep i) { s with loops := s.loops.set i .sleeping }

theorem step_cases {a : LoopAction N F} (h : s.step a = some s') : StepCase s a s' := by
  cases a with
  | start second =>
    simp only [step] at h
    by_cases hr : s.watched.timer.running = true
    · rw [SkynetTimer.start_of_running hr] at h
      obtain rfl := Option.some.inj h
      exact .runs hr
    · rw [Bool.not_eq_true] at hr
      rw [SkynetTimer.start_of_stopped hr] at h
      obtain rfl := Option.some.inj h
      exact .forks hr rfl rfl
  | stop =>
    obtain rfl := Option.some.inj h
    exact .stop rfl rfl rfl
  | addTimer data second =>
    obtain rfl := Option.some.inj h
    refine .addTimer (addTimer_running s.watched data second) rfl ?_
    show (s.watched.addTimer data second).rounds = _
    unfold Watched.addTimer
    split <;> rfl
  | removeTimer handle =>
    obtain rfl := Option.some.inj h
    exact .removeTimer rfl rfl rfl
  | wake i second order run =>
    simp only [step] at h
    split at h
    · rename_i hi
      have hlive : s.Live i := by
        rcases hi with hi | hi
        · exact ⟨_, hi, by simp⟩
        · exact ⟨_, hi, by simp⟩
      unfold wake at h
      by_cases hr : s.watched.timer.running = true
      · rw [if_pos hr] at h
        obtain ⟨w, hw, rfl⟩ := Option.map_eq_some_iff.mp h
        simp only [Watched.step] at hw
        split at hw
        · obtain rfl := Option.some.inj hw
          exact .updates hlive hr ((update_running _ _ _ _).trans hr) rfl
        · cases hw
      · rw [if_neg hr] at h
        obtain rfl := Option.some.inj h
        exact .ends hlive (Bool.not_eq_true _ ▸ hr)
    · cases h
  | sleep i =>
    simp only [step] at h
    split at h
    · rename_i hi
      obtain rfl := Option.some.inj h
      exact .sleep ⟨_, hi, by simp⟩
    · cases h

/-! ## Live loops -/

omit [Lib.Clock N] in
theorem live_lt {i : Nat} (h : s.Live i) : i < s.loops.length := by
  obtain ⟨l, hl, -⟩ := h
  exact (List.getElem?_eq_some_iff.mp hl).1

/-- A step forgets the loops that have ended and may add one at the end. -/
theorem live_of_step {a : LoopAction N F} (h : s.step a = some s') {i : Nat}
    (hi : i < s.loops.length) (hlive : s'.Live i) : s.Live i := by
  have hset : ∀ (j : Nat) (l : LoopState), s.Live j →
      (∃ k, (s.loops.set j l)[i]? = some k ∧ k ≠ .ended) → s.Live i := by
    rintro j l hj ⟨k, hk, hne⟩
    by_cases hji : j = i
    · exact hji ▸ hj
    · rw [List.getElem?_set_ne hji] at hk
      exact ⟨k, hk, hne⟩
  obtain ⟨l, hl, hne⟩ := hlive
  rcases step_cases h with ⟨-, -, hloops⟩ | - | ⟨-, hloops, -⟩ | ⟨-, hloops, -⟩ | ⟨-, hloops, -⟩ |
    ⟨hj, -, -, hloops⟩ | ⟨hj, -⟩ | hj
  · rw [hloops, List.getElem?_append_left hi] at hl
    exact ⟨l, hl, hne⟩
  · exact ⟨l, hl, hne⟩
  · exact ⟨l, hloops ▸ hl, hne⟩
  · exact ⟨l, hloops ▸ hl, hne⟩
  · exact ⟨l, hloops ▸ hl, hne⟩
  · exact hset _ _ hj ⟨l, hloops ▸ hl, hne⟩
  · exact hset _ _ hj ⟨l, hl, hne⟩
  · exact hset _ _ hj ⟨l, hl, hne⟩

theorem length_le_of_step {a : LoopAction N F} (h : s.step a = some s') :
    s.loops.length ≤ s'.loops.length := by
  rcases step_cases h with ⟨-, -, hloops⟩ | - | ⟨-, hloops, -⟩ | ⟨-, hloops, -⟩ | ⟨-, hloops, -⟩ |
    ⟨-, -, -, hloops⟩ | - | -
  all_goals simp [*]

theorem live_of_exec {checkInterval : N} {as : List (LoopAction N F)}
    (h : (looping N F checkInterval).exec s as = some s') {i : Nat} (hi : i < s.loops.length)
    (hlive : s'.Live i) : s.Live i := by
  induction as generalizing s with
  | nil =>
    obtain rfl := Option.some.inj h
    exact hlive
  | cons a as ih =>
    obtain ⟨t, ht, hrest⟩ := Option.bind_eq_some_iff.mp h
    exact live_of_step ht hi (ih hrest (hi.trans_le (length_le_of_step ht)))

/-- A loop at the test of `running`, with the flag set, updates. -/
theorem canUpdate_of_waiting {checkInterval : N} {i : Nat} (hr : s.running = true)
    (hi : s.loops[i]? = some .forked ∨ s.loops[i]? = some .sleeping) :
    s.CanUpdate checkInterval i := by
  have hlt : i < s.loops.length := by
    rcases hi with hi | hi <;> exact (List.getElem?_eq_some_iff.mp hi).1
  have hstep : ∃ t, s.step (.wake i 0 s.watched.timer.gather.timers.keys
      fun _ _ => { ops := [], err := none }) = some t := by
    simp only [step, if_pos hi, wake]
    rw [if_pos (show s.watched.timer.running = true from hr), Watched.step,
      if_pos (List.Perm.refl _)]
    exact ⟨_, rfl⟩
  obtain ⟨t, ht⟩ := hstep
  exact ⟨hlt, [], s, _, t, rfl, ht, rfl, hr⟩

theorem canUpdate_of_step {checkInterval : N} {a : LoopAction N F} (h : s.step a = some s') {i : Nat}
    (hi : i < s.loops.length) (hcan : s'.CanUpdate checkInterval i) : s.CanUpdate checkInterval i := by
  obtain ⟨-, as, t, b, t', has, hb, hup⟩ := hcan
  refine ⟨hi, a :: as, t, b, t', ?_, hb, hup⟩
  show (s.step a).bind _ = _
  rw [h]
  exact has

/-- The loops that can still update are those that have not ended. -/
theorem canUpdate_iff_live {checkInterval : N} {i : Nat} : s.CanUpdate checkInterval i ↔ s.Live i := by
  constructor
  · rintro ⟨hi, as, t, a, t', has, hstep, hup⟩
    refine live_of_exec has hi ?_
    -- a loop that updates is live
    cases a with
    | wake j second order run =>
      obtain ⟨rfl, hr⟩ := hup
      rcases step_cases hstep with - | - | - | - | - | ⟨hj, -, -, -⟩ | ⟨hj, -⟩
      · exact hj
      · exact hj
    | _ => cases hup
  · intro hlive
    have hlt := live_lt hlive
    obtain ⟨l, hl, hne⟩ := hlive
    -- let an update return, then set the flag
    have hwait : ∀ t : Looping N F,
        (t.loops[i]? = some .forked ∨ t.loops[i]? = some .sleeping) → t.CanUpdate checkInterval i := by
      intro t ht
      have htlt : i < t.loops.length := by
        rcases ht with ht | ht <;> exact (List.getElem?_eq_some_iff.mp ht).1
      by_cases hr : t.running = true
      · exact canUpdate_of_waiting hr ht
      · refine canUpdate_of_step (a := .start 0) rfl htlt (canUpdate_of_waiting ?_ ?_)
        · show (SkynetTimer.start _ _).1.running = true
          rw [SkynetTimer.start_of_stopped (Bool.not_eq_true _ ▸ hr)]
        · rw [SkynetTimer.start_of_stopped (Bool.not_eq_true _ ▸ hr)]
          simp only [if_true, List.getElem?_append_left htlt]
          exact ht
    cases l with
    | forked => exact hwait s (.inl hl)
    | sleeping => exact hwait s (.inr hl)
    | ended => exact absurd rfl hne
    | updating =>
      have hsleep : s.step (.sleep i) = some { s with loops := s.loops.set i .sleeping } := if_pos hl
      refine canUpdate_of_step hsleep hlt (hwait _ (.inr ?_))
      rw [List.getElem?_set_self hlt]

/-! ## The two halves -/

/-- At most one loop can still execute `update`. -/
def OneLoop (checkInterval : N) (s : Looping N F) : Prop :=
  ∀ i j, s.CanUpdate checkInterval i → s.CanUpdate checkInterval j → i = j

/-- After a `stop` here with no later `start`, no loop updates any more, and a loop that wakes ends. -/
def StopEnds (checkInterval : N) (s : Looping N F) : Prop :=
  ∀ as t u, s.step .stop = some t → (∀ second, .start second ∉ as) →
    (looping N F checkInterval).exec t as = some u →
    u.watched.rounds = s.watched.rounds ∧
      ∀ i second order run u', u.step (.wake i second order run) = some u' →
        u'.loops[i]? = some .ended ∧ u'.watched.rounds = s.watched.rounds

theorem oneLoop_iff {checkInterval : N} : s.OneLoop checkInterval ↔
    ∀ i j, s.Live i → s.Live j → i = j := by
  unfold OneLoop
  simp only [canUpdate_iff_live]

theorem stopEnds (checkInterval : N) (s : Looping N F) : s.StopEnds checkInterval := by
  intro as t u hstop hno hexec
  -- the flag stays down and nothing updates
  have hdown : t.running = false ∧ t.watched.rounds = s.watched.rounds := by
    obtain rfl := Option.some.inj hstop
    exact ⟨rfl, rfl⟩
  have hrun : u.running = false ∧ u.watched.rounds = s.watched.rounds := by
    clear hstop
    induction as generalizing t with
    | nil =>
      obtain rfl := Option.some.inj hexec
      exact hdown
    | cons a as ih =>
      obtain ⟨v, hv, hrest⟩ := Option.bind_eq_some_iff.mp hexec
      refine ih v (fun second hmem => hno second (List.mem_cons_of_mem _ hmem)) hrest ?_
      rcases step_cases hv with ⟨-, -, -⟩ | - | ⟨hr, -, hrounds⟩ | ⟨hr, -, hrounds⟩ |
        ⟨hr, -, hrounds⟩ | ⟨-, hr, -, -⟩ | - | -
      · exact absurd List.mem_cons_self (hno _)
      · exact hdown
      · exact ⟨hr, hrounds.trans hdown.2⟩
      · exact ⟨hr.trans hdown.1, hrounds.trans hdown.2⟩
      · exact ⟨hr.trans hdown.1, hrounds.trans hdown.2⟩
      · exact absurd hr (by simp [hdown.1])
      · exact hdown
      · exact hdown
  refine ⟨hrun.2, fun i second order run u' hwake => ?_⟩
  rcases step_cases hwake with - | - | - | - | - | ⟨-, hr, -, -⟩ | ⟨hlive, -⟩
  · exact absurd hr (by simp [hrun.1])
  · exact ⟨List.getElem?_set_self (live_lt hlive), hrun.2⟩

/-! ## One loop -/

/-- A `start` forks one more live loop. -/
theorem live_of_forks {second : N} (hr : s.running = false) {i : Nat}
    (h : s.step (.start second) = some s') :
    s'.Live i ↔ s.Live i ∨ i = s.loops.length := by
  rcases step_cases h with ⟨-, -, hloops⟩ | hr'
  · unfold Live
    rw [hloops]
    rcases Nat.lt_trichotomy i s.loops.length with hi | rfl | hi
    · rw [List.getElem?_append_left hi]
      simp only [Nat.ne_of_lt hi, or_false]
    · simp
    · rw [List.getElem?_eq_none (by simp; omega), List.getElem?_eq_none (Nat.le_of_lt hi)]
      simp
      omega
  · exact absurd hr' (by simp [hr])

omit [Lib.Clock N] in
theorem over_iff : s.Over ↔ ∀ i, ¬ s.Live i := by
  constructor
  · rintro h i ⟨l, hl, hne⟩
    exact hne (h l (List.mem_of_getElem? hl))
  · intro h l hl
    obtain ⟨i, hi⟩ := List.mem_iff_getElem?.mp hl
    by_contra hne
    exact h i ⟨l, hi, hne⟩

/-- What may call `start`: the flag is set, or every loop forked before has ended. -/
def StartsOver (s : Looping N F) : LoopAction N F → Prop
  | .start _ => s.running = true ∨ s.Over
  | _ => True

/-- One step. -/
theorem oneLoop_step {checkInterval : N} (hs : s.OneLoop checkInterval) {a : LoopAction N F}
    (h : s.step a = some s') : s'.OneLoop checkInterval ↔ s.StartsOver a := by
  rw [oneLoop_iff] at hs ⊢
  -- a step that forks nothing has no new live loop
  have hkeep : s'.loops.length ≤ s.loops.length → ∀ i j, s'.Live i → s'.Live j → i = j := by
    intro hlen i j hi hj
    exact hs i j (live_of_step h ((live_lt hi).trans_le hlen) hi)
      (live_of_step h ((live_lt hj).trans_le hlen) hj)
  rcases step_cases h with ⟨hr, -, hloops⟩ | hr | ⟨-, hloops, -⟩ | ⟨-, hloops, -⟩ |
    ⟨-, hloops, -⟩ | ⟨-, -, -, hloops⟩ | - | -
  · simp only [live_of_forks hr h]
    constructor
    · -- the new loop would be a second one
      intro hone
      refine .inr (over_iff.mpr fun i hi => ?_)
      exact (live_lt hi).ne (hone i _ (.inl hi) (.inr rfl))
    · rintro (hr' | hover)
      · exact absurd hr' (by simp [hr])
      · rw [over_iff] at hover
        rintro i j (hi | rfl) (hj | rfl)
        · exact absurd hi (hover i)
        · exact absurd hi (hover i)
        · exact absurd hj (hover j)
        · rfl
  · exact iff_of_true hs (.inl hr)
  · exact iff_of_true (hkeep (by rw [hloops])) trivial
  · exact iff_of_true (hkeep (by rw [hloops])) trivial
  · exact iff_of_true (hkeep (by rw [hloops])) trivial
  · exact iff_of_true (hkeep (by simp [hloops])) trivial
  · exact iff_of_true (hkeep (by simp)) trivial
  · exact iff_of_true (hkeep (by simp)) trivial

theorem oneLoop_newTimer (checkInterval : N) :
    (newTimer checkInterval : Looping N F).OneLoop checkInterval := by
  rw [oneLoop_iff]
  intro i j hi
  exact absurd (live_lt hi) (Nat.not_lt_zero i)

/-- A timer has one loop, and its loops end after a `stop`, all through a run exactly when every `start`
of the run finds the flag set or every earlier loop ended. -/
theorem oneLoop_run_iff (checkInterval : N) (as : List (LoopAction N F)) :
    (∀ before s, before <+: as →
        (looping N F checkInterval).exec (newTimer checkInterval) before = some s →
        s.OneLoop checkInterval ∧ s.StopEnds checkInterval) ↔
      ∀ before a s s', before ++ [a] <+: as →
        (looping N F checkInterval).exec (newTimer checkInterval) before = some s →
        s.step a = some s' → s.StartsOver a := by
  constructor
  · intro h before a s s' hpre hs hstep
    refine (oneLoop_step (h before s ?_ hs).1 hstep).mp (h (before ++ [a]) s' hpre ?_).1
    · exact (List.prefix_append _ _).trans hpre
    · rw [Lib.Machine.exec_append, hs]
      show (s.step a).bind _ = _
      rw [hstep]
      rfl
  · intro h before
    induction before using List.reverseRecOn with
    | nil =>
      intro s _ hs
      obtain rfl := Option.some.inj hs
      exact ⟨oneLoop_newTimer checkInterval, stopEnds checkInterval _⟩
    | append_singleton before a ih =>
      intro s' hpre hs'
      rw [Lib.Machine.exec_append] at hs'
      obtain ⟨s, hs, hrest⟩ := Option.bind_eq_some_iff.mp hs'
      obtain ⟨t, hstep, ht⟩ := Option.bind_eq_some_iff.mp hrest
      obtain rfl := Option.some.inj ht
      have hone := (ih s ((List.prefix_append _ _).trans hpre) hs).1
      exact ⟨(oneLoop_step hone hstep).mpr (h before a s _ hpre hs hstep), stopEnds checkInterval _⟩

/-- A `stop` and a `start` while the loop sleeps leave two loops. -/
theorem not_oneLoop : ∃ s, (looping Int String 1).exec (newTimer 1)
      [.start 100, .wake 0 100 [] fun _ _ => { ops := [], err := none }, .sleep 0, .stop, .start 100] =
        some s ∧ ¬ s.OneLoop 1 := by
  have hrun : ∃ s ∈ (looping Int String 1).exec (newTimer 1)
      [.start 100, .wake 0 100 [] fun _ _ => { ops := [], err := none }, .sleep 0, .stop, .start 100],
      s.loops = [.sleeping, .forked] := by
    decide +kernel
  obtain ⟨s, hs, hloops⟩ := hrun
  refine ⟨s, hs, fun hone => ?_⟩
  rw [oneLoop_iff] at hone
  have h := hone 0 1 ⟨.sleeping, by simp [hloops], by decide⟩ ⟨.forked, by simp [hloops], by decide⟩
  omega

end Looping

end AntServer.SkynetApi
