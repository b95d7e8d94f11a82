/-
# AntServer.SkynetApi.SkynetTimermgr — the timer manager

`service/skynet_api/skynet_timermgr.lua`. `new_timer` files an entry `{timer = timer}` under a number and
returns the timer. The other functions look their `timer_id` up in the map and call the method of the
timer on what they find. A caller that passes on what `new_timer` gave it looks a timer up in a map of
numbers: nothing is found and nothing is done. With the number the entry is found, and the entry has no
such method.

So nothing that is handed to the manager ever reaches a timer, and the only runs in which everything
accepted is carried out are those in which nothing was handed in.
-/
import AntServer.Lua
import Mathlib.Tactic.Ring
import AntServer.SkynetApi.Firing
import AntServer.SkynetApi.Loops

namespace AntServer.SkynetApi

open Lib (Table fires)

/-! ## The manager -/

/-- What is passed as `timer_id`: a number, or a timer (the `r`-th one made). -/
inductive TimerId where
  | number (n : Nat)
  | timer (r : Nat)
  deriving DecidableEq, Repr

/-- An entry of `_timer_map`. -/
structure TimerEntry where
  timer : Nat
  deriving DecidableEq, Repr

/-- A call of `add_timer` that returned. -/
structure Accepted (N F : Type*) where
  timerId : TimerId
  data : TimerData N F
  second : N

/-- The manager with the timers it has made, what `new_timer` returned and what `add_timer` accepted. -/
structure SkynetTimermgr (N F : Type*) where
  timerId : Nat
  timerMap : Table TimerId TimerEntry
  timers : List (Looping N F)
  returned : List TimerId
  accepted : List (Accepted N F)

/-- The calls on the manager and the steps of the loops of its timers. -/
inductive MgrAction (N F : Type*) where
  | newTimer (checkInterval : Option N) (second : N)
  | addTimer (timerId : TimerId) (data : TimerData N F) (second : N)
  | removeTimer (timerId : TimerId) (handleId : Nat)
  | stopTimer (timerId : TimerId)
  | wake (r i : Nat) (second : N) (order : List Nat) (run : Nat → F → CallbackRun N F)
  | sleep (r i : Nat)

namespace SkynetTimermgr

variable {N F : Type*}

/-- `SkynetTimerMgr:initialize`. -/
def initial : SkynetTimermgr N F where
  timerId := 0
  timerMap := Table.empty
  timers := []
  returned := []
  accepted := []

/-! ## The functions -/

/-- `SkynetTimerMgr:get_timer`. -/
def getTimer (m : SkynetTimermgr N F) (timerId : TimerId) : Option TimerEntry :=
  m.timerMap.get timerId

/-- A method of a timer, called on what `get_timer` returned: an entry has none of them. -/
def callMethod (name : String) (m : SkynetTimermgr N F) (timerId : TimerId) :
    Except LuaError Unit :=
  match m.getTimer timerId with
  | some _ => .error (.call name)
  | none => .ok ()

/-- `SkynetTimerMgr:add_timer`. -/
def addTimer (m : SkynetTimermgr N F) (timerId : TimerId) (data : TimerData N F) (second : N) :
    Except LuaError (SkynetTimermgr N F) :=
  (m.callMethod "add_timer" timerId).map fun _ =>
    { m with accepted := { timerId := timerId, data := data, second := second } :: m.accepted }

/-- `SkynetTimerMgr:remove_timer`. -/
def removeTimer (m : SkynetTimermgr N F) (timerId : TimerId) (_handleId : Nat) :
    Except LuaError (SkynetTimermgr N F) :=
  (m.callMethod "remove_timer" timerId).map fun _ => m

/-- `SkynetTimerMgr:stop_timer`. -/
def stopTimer (m : SkynetTimermgr N F) (timerId : TimerId) : Except LuaError (SkynetTimermgr N F) :=
  (m.callMethod "stop" timerId).map fun _ => m

variable [Lib.Clock N] [One N]

/-- `SkynetTimerMgr:new_timer`, at the time `second`. It starts the timer and returns it. -/
def newTimer (m : SkynetTimermgr N F) (checkInterval : Option N) (second : N) :
    SkynetTimermgr N F :=
  let timer : Looping N F := Looping.newTimer (checkInterval.getD 1)
  let r := m.timers.length
  { m with
    timerId := m.timerId + 1
    timerMap := m.timerMap.set (.number (m.timerId + 1)) { timer := r }
    timers := m.timers ++ [(timer.step (.start second)).getD timer]
    returned := .timer r :: m.returned }

/-- A step of a loop of the `r`-th timer. -/
def loop (m : SkynetTimermgr N F) (r : Nat) (a : LoopAction N F) : Option (SkynetTimermgr N F) :=
  match m.timers[r]? with
  | some timer => (timer.step a).map fun timer => { m with timers := m.timers.set r timer }
  | none => none

/-- A step. A `timer_id` is a value that `new_timer` returned, and a call that raises changes nothing. -/
def step (m : SkynetTimermgr N F) : MgrAction N F → Option (SkynetTimermgr N F)
  | .newTimer checkInterval second => some (m.newTimer checkInterval second)
  | .addTimer timerId data second =>
    if timerId ∈ m.returned then some ((m.addTimer timerId data second).toOption.getD m) else none
  | .removeTimer timerId handleId =>
    if timerId ∈ m.returned then some ((m.removeTimer timerId handleId).toOption.getD m) else none
  | .stopTimer timerId =>
    if timerId ∈ m.returned then some ((m.stopTimer timerId).toOption.getD m) else none
  | .wake r i second order run => m.loop r (.wake i second order run)
  | .sleep r i => m.loop r (.sleep i)

end SkynetTimermgr

/-! ## The machine -/

/-- The runs of the manager. -/
def managing (N F : Type*) [Lib.Clock N] [One N] :
    Lib.Machine (SkynetTimermgr N F) (MgrAction N F) where
  start m := m = SkynetTimermgr.initial
  step := SkynetTimermgr.step

namespace SkynetTimermgr

/-! ## What is asked of it -/

variable {N F : Type*} [Lib.Clock N] [One N] {m m' : SkynetTimermgr N F}

/-- What was accepted is carried out: the timer has it, and every update that finds it due with a firing
left calls its function. -/
def CarriesOut (m : SkynetTimermgr N F) (c : Accepted N F) : Prop :=
  ∃ r timer, c.timerId = .timer r ∧ m.timers[r]? = some timer ∧
    ∃ a ∈ timer.watched.added, a.data = c.data ∧ a.second = c.second ∧
      ∀ later u earlier, timer.watched.rounds = later ++ u :: earlier → a.task.Finds u earlier →
        a.task.Left (fires earlier a.handle) → a.handle ∈ u.fired

/-- No timer has anything to call, and no timer is a key of the map. -/
structure Idle (m : SkynetTimermgr N F) : Prop where
  idle : ∀ timer ∈ m.timers, Scheduled timer.watched ∧ timer.watched.added = []
  numbers : ∀ r, m.timerMap.get (.timer r) = none
  returned : ∀ id ∈ m.returned, ∃ r, id = .timer r

/-! ## No timer ever runs -/

omit [One N] in
/-- An update of a timer that has nothing leaves it with nothing. -/
theorem idle_update {w w' : Watched N F} (hw : Scheduled w) (hnone : w.added = []) {second : N}
    {order : List Nat} {run : Nat → F → CallbackRun N F}
    (h : w.step (.update second order run) = some w') : Scheduled w' ∧ w'.added = [] := by
  refine ⟨hw.step h, ?_⟩
  have hkeys : w.timer.gather.timers.keys = [] := by
    rw [List.eq_nil_iff_forall_not_mem]
    intro k hk
    rw [Table.mem_keys, hw.counted.get_gather, hnone] at hk
    simp at hk
  simp only [Watched.step, hkeys] at h
  split at h
  · rename_i horder
    obtain rfl := List.perm_nil.mp horder
    obtain rfl := Option.some.inj h
    exact hnone
  · cases h

omit [One N] in
theorem idle_loop {timer timer' : Looping N F} {i : Nat}
    (h : Scheduled timer.watched ∧ timer.watched.added = []) {a : LoopAction N F}
    (ha : (∃ second order run, a = .wake i second order run) ∨ a = .sleep i)
    (hstep : timer.step a = some timer') :
    Scheduled timer'.watched ∧ timer'.watched.added = [] := by
  rcases ha with ⟨second, order, run, rfl⟩ | rfl
  · simp only [Looping.step, Looping.wake] at hstep
    split at hstep
    · split at hstep
      · obtain ⟨w, hw, rfl⟩ := Option.map_eq_some_iff.mp hstep
        exact idle_update h.1 h.2 hw
      · obtain rfl := Option.some.inj hstep
        exact h
    · cases hstep
  · simp only [Looping.step] at hstep
    split at hstep
    · obtain rfl := Option.some.inj hstep
      exact h
    · cases hstep

namespace Idle

omit [One N] in
theorem loop (hm : Idle m) {r i : Nat} {a : LoopAction N F}
    (ha : (∃ second order run, a = .wake i second order run) ∨ a = .sleep i)
    (h : m.loop r a = some m') : Idle m' := by
  unfold SkynetTimermgr.loop at h
  split at h
  · rename_i timer htimer
    obtain ⟨timer', hstep, rfl⟩ := Option.map_eq_some_iff.mp h
    refine ⟨fun t ht => ?_, hm.numbers, hm.returned⟩
    rcases List.mem_or_eq_of_mem_set ht with ht | rfl
    · exact hm.idle t ht
    · exact idle_loop (hm.idle timer (List.mem_of_getElem? htimer)) ha hstep
  · cases h

omit [One N] in
/-- A call with a timer for its id finds nothing. -/
theorem callMethod (hm : Idle m) {timerId : TimerId} (hid : timerId ∈ m.returned) (name : String) :
    m.callMethod name timerId = .ok () := by
  obtain ⟨r, rfl⟩ := hm.returned timerId hid
  unfold SkynetTimermgr.callMethod getTimer
  rw [hm.numbers]

theorem step (hm : Idle m) {a : MgrAction N F} (h : m.step a = some m') : Idle m' := by
  cases a with
  | newTimer checkInterval second =>
    obtain rfl := Option.some.inj h
    refine ⟨fun t ht => ?_, fun r => ?_, fun id hid => ?_⟩
    · rcases List.mem_append.mp ht with ht | ht
      · exact hm.idle t ht
      · obtain rfl := List.mem_singleton.mp ht
        have hnew := Scheduled.newTimer (F := F) (checkInterval.getD 1)
        exact ⟨⟨⟨hnew.counted.nodup, hnew.counted.below, hnew.counted.pending, hnew.counted.timers,
          hnew.counted.record, hnew.counted.deleted, hnew.counted.unknown⟩, hnew.onSchedule,
          hnew.once, hnew.fired, hnew.known, hnew.removed, hnew.nested⟩, rfl⟩
    · show (m.timerMap.set (.number (m.timerId + 1)) _).get (.timer r) = none
      rw [Table.get_set_ne _ _ (by simp)]
      exact hm.numbers r
    · rcases List.mem_cons.mp hid with rfl | hid
      · exact ⟨_, rfl⟩
      · exact hm.returned id hid
  | addTimer timerId data second =>
    simp only [SkynetTimermgr.step] at h
    split at h
    · rename_i hid
      rw [addTimer, hm.callMethod hid] at h
      obtain rfl := Option.some.inj h
      exact ⟨hm.idle, hm.numbers, hm.returned⟩
    · cases h
  | removeTimer timerId handleId =>
    simp only [SkynetTimermgr.step] at h
    split at h
    · rename_i hid
      rw [removeTimer, hm.callMethod hid] at h
      obtain rfl := Option.some.inj h
      exact hm
    · cases h
  | stopTimer timerId =>
    simp only [SkynetTimermgr.step] at h
    split at h
    · rename_i hid
      rw [stopTimer, hm.callMethod hid] at h
      obtain rfl := Option.some.inj h
      exact hm
    · cases h
  | wake r i second order run => exact hm.loop (.inl ⟨second, order, run, rfl⟩) h
  | sleep r i => exact hm.loop (i := i) (.inr rfl) h

theorem reach (h : (managing N F).Reach m) : Idle m := by
  refine h.invariant Idle ?_ fun _ _ _ _ hm _ hstep => hm.step hstep
  rintro s rfl
  exact ⟨fun t ht => absurd ht List.not_mem_nil, fun r => Table.get_empty _,
    fun id hid => absurd hid List.not_mem_nil⟩

end Idle

/-! ## What is accepted is not carried out -/

/-- A step accepts something exactly when it is a call of `add_timer`. -/
theorem accepted_step (hm : Idle m) {a : MgrAction N F} (h : m.step a = some m') :
    m'.accepted = [] ↔ m.accepted = [] ∧ ∀ id data second, a ≠ .addTimer id data second := by
  have hloop : ∀ r b, m.loop r b = some m' → m'.accepted = m.accepted := by
    intro r b hb
    unfold loop at hb
    split at hb
    · obtain ⟨t, -, rfl⟩ := Option.map_eq_some_iff.mp hb
      rfl
    · cases hb
  cases a with
  | newTimer checkInterval second =>
    obtain rfl := Option.some.inj h
    simp [newTimer]
  | addTimer timerId data second =>
    simp only [SkynetTimermgr.step] at h
    split at h
    · rename_i hid
      rw [addTimer, hm.callMethod hid] at h
      obtain rfl := Option.some.inj h
      simp [Except.map, Except.toOption]
    · cases h
  | removeTimer timerId handleId =>
    simp only [SkynetTimermgr.step] at h
    split at h
    · rename_i hid
      rw [removeTimer, hm.callMethod hid] at h
      obtain rfl := Option.some.inj h
      simp [Except.map, Except.toOption]
    · cases h
  | stopTimer timerId =>
    simp only [SkynetTimermgr.step] at h
    split at h
    · rename_i hid
      rw [stopTimer, hm.callMethod hid] at h
      obtain rfl := Option.some.inj h
      simp [Except.map, Except.toOption]
    · cases h
  | wake r i second order run => simp [hloop r _ h]
  | sleep r i => simp [hloop r _ h]

theorem accepted_exec {as : List (MgrAction N F)} (hm : (managing N F).Reach m)
    (h : (managing N F).exec m as = some m') :
    m'.accepted = [] ↔ m.accepted = [] ∧ ∀ id data second, .addTimer id data second ∉ as := by
  induction as generalizing m with
  | nil =>
    obtain rfl := Option.some.inj h
    simp
  | cons a as ih =>
    obtain ⟨t, hstep, hrest⟩ := Option.bind_eq_some_iff.mp h
    rw [ih (.step hm trivial hstep) hrest, accepted_step (Idle.reach hm) hstep]
    simp only [List.mem_cons, not_or, forall_and, and_assoc, ne_eq, eq_comm]

/-- Everything the manager has accepted is carried out exactly in the runs that hand nothing to it. -/
theorem carriesOut_iff {as : List (MgrAction N F)}
    (h : (managing N F).exec initial as = some m) :
    (∀ c ∈ m.accepted, m.CarriesOut c) ↔ ∀ id data second, .addTimer id data second ∉ as := by
  have hidle := Idle.reach (Lib.Machine.Reach.exec (.start rfl) h)
  have hnone : (∀ c ∈ m.accepted, m.CarriesOut c) ↔ m.accepted = [] := by
    constructor
    · intro hc
      rw [List.eq_nil_iff_forall_not_mem]
      intro c hmem
      obtain ⟨r, timer, -, htimer, a, ha, -⟩ := hc c hmem
      rw [(hidle.idle timer (List.mem_of_getElem? htimer)).2] at ha
      cases ha
    · intro hc c hmem
      rw [hc] at hmem
      cases hmem
  rw [hnone, accepted_exec (.start rfl) h]
  exact ⟨fun hall => hall.2, fun hall => ⟨rfl, hall⟩⟩

/-- `mods/index.lua` with the timer it makes and what its `M.save` and `M.update` hand to it, and the
loop of that timer at work. -/
def modsRun : List (MgrAction Int String) :=
  [.newTimer (some 1) 0,
    .addTimer (.timer 0) { interval := 30, func := "on_mod_save", immediate := false, times := some 0 } 5,
    .addTimer (.timer 0) { interval := 1, func := "on_mod_update", immediate := false, times := some 0 } 5,
    .wake 0 0 5 [] (fun _ _ => { ops := [], err := none }), .sleep 0 0,
    .wake 0 0 60 [] (fun _ _ => { ops := [], err := none }), .sleep 0 0]

theorem carriesOut_iff_modsRun : ∃ m, (managing Int String).exec initial modsRun = some m ∧
    ¬ ∀ c ∈ m.accepted, m.CarriesOut c := by
  have hrun : ∃ m ∈ (managing Int String).exec initial modsRun, m.accepted.length = 2 := by
    decide +kernel
  obtain ⟨m, hm, -⟩ := hrun
  refine ⟨m, hm, fun hall => ?_⟩
  exact (carriesOut_iff hm).mp hall _ _ _ (List.mem_cons_of_mem _ List.mem_cons_self)

/-- The save and the update are accepted, and the updates at which they are due call nothing. -/
theorem not_carriesOut : ∃ m, (managing Int String).exec initial modsRun = some m ∧
    ∃ c ∈ m.accepted, ¬ m.CarriesOut c := by
  have hrun : ∃ m ∈ (managing Int String).exec initial modsRun,
      m.accepted.length = 2 ∧ m.timers.map (fun t => (t.watched.added.length,
        t.watched.rounds.map Lib.Round.fired)) = [(0, [[], []])] := by
    decide +kernel
  obtain ⟨m, hm, haccepted, htimers⟩ := hrun
  refine ⟨m, hm, m.accepted.head (by rw [← List.length_pos_iff]; omega), List.head_mem _, ?_⟩
  rintro ⟨r, timer, -, htimer, a, ha, -⟩
  have hmem := List.mem_map_of_mem (f := fun t : Looping Int String => (t.watched.added.length,
    t.watched.rounds.map Lib.Round.fired)) (List.mem_of_getElem? htimer)
  rw [htimers, List.mem_singleton, Prod.mk.injEq] at hmem
  rw [List.eq_nil_of_length_eq_zero hmem.1] at ha
  cases ha

end SkynetTimermgr

end AntServer.SkynetApi
