/-
# AntServer.SkynetApi.SkynetTimer — the timers of a service

`service/skynet_api/skynet_timer.lua`. A timer object keeps the records of its timers in three tables:
`pending` (every timer ever added), `timers` (those of the last update) and `to_deleted` (every handle
ever removed); none of the three is emptied. A record is one Lua table that `pending` and `timers` both
refer to, so the records are a table of their own, named by the handle they were made for.

Seconds and intervals are the elements `N` of an ordered group, the functions those of a type `F`. What
a function does when it is called is up to its caller's world: it adds and removes timers in some order
and then returns or raises (`CallbackRun`). The order of `pairs` is an argument of `update`.
-/
import AntServer.Lib.Machine
import AntServer.Lib.Schedule
import AntServer.Lib.Table

namespace AntServer.SkynetApi

open Lib (Table Task Round fires)

/-! ## The object and its timers -/

/-- The argument of `add_timer`. -/
structure TimerData (N F : Type*) where
  interval : N
  func : F
  immediate : Bool
  times : Option Int

/-- A record of `pending` and `timers`. -/
structure TimerRecord (N F : Type*) where
  interval : N
  func : F
  wakeup : N
  times : Int
  timestamp : N

/-- The object of `new_timer`, with the records its tables refer to. -/
structure SkynetTimer (N F : Type*) where
  running : Bool
  timestamp : N
  checkInterval : N
  handle : Nat
  toDeleted : Table Nat Bool
  pending : Table Nat Nat
  timers : Table Nat Nat
  records : Table Nat (TimerRecord N F)

/-- A call that a function makes on its own timer. An `add` reads the clock. -/
inductive TimerOp (N F : Type*) where
  | add (data : TimerData N F) (second : N)
  | remove (handle : Nat)

/-- One call of a function: what it does to the timer, and the error it raises after that, if any. -/
structure CallbackRun (N F : Type*) where
  ops : List (TimerOp N F)
  err : Option String

/-- What `add_timer` returned for which data, and when. -/
structure Added (N F : Type*) where
  handle : Nat
  data : TimerData N F
  second : N

namespace SkynetTimer

/-! ## The methods -/

variable {N F : Type*} [Lib.Clock N]

/-- `M.new_timer`. -/
def newTimer (checkInterval : N) : SkynetTimer N F where
  running := false
  timestamp := 0
  checkInterval := checkInterval
  handle := 1
  toDeleted := Table.empty
  pending := Table.empty
  timers := Table.empty
  records := Table.empty

/-- `mt:add_timer`, at the time `second`. The assertion raises the interval. -/
def addTimer (t : SkynetTimer N F) (data : TimerData N F) (second : N) :
    Except N (Nat × SkynetTimer N F) :=
  if data.interval ≥ t.checkInterval then
    .ok (t.handle,
      { t with
        handle := t.handle + 1
        pending := t.pending.set t.handle t.handle
        records := t.records.set t.handle
          { interval := data.interval
            func := data.func
            wakeup := if data.immediate then 0 else data.interval
            times := data.times.getD 0
            timestamp := second } })
  else .error data.interval

/-- `mt:remove_timer`. -/
def removeTimer (t : SkynetTimer N F) (handle : Nat) : SkynetTimer N F :=
  { t with toDeleted := t.toDeleted.set handle true }

/-- The first two loops of `mt:update`. -/
def gather (t : SkynetTimer N F) : SkynetTimer N F :=
  { t with
    timers := (t.pending.overlay t.timers).filterMap fun k r =>
      if (t.toDeleted.get k).isSome then none else some r }

/-- `v.wakeup = v.wakeup + v.interval`. -/
def wake (t : SkynetTimer N F) (r : Nat) : SkynetTimer N F :=
  { t with records := t.records.modify r fun v => { v with wakeup := v.wakeup + v.interval } }

/-- What `mt:update` does with `v.times` after the call. -/
def countDown (t : SkynetTimer N F) (k r : Nat) (times : Int) : SkynetTimer N F :=
  if times > 0 then
    if times = 1 then t.removeTimer k
    else { t with records := t.records.modify r fun v => { v with times := times - 1 } }
  else t

/-- `mt:start` up to the fork, at the time `second`: whether it forks a loop. -/
def start (t : SkynetTimer N F) (second : N) : SkynetTimer N F × Bool :=
  if t.running then (t, false) else ({ t with running := true, timestamp := second }, true)

omit [Lib.Clock N] in
theorem start_of_running {t : SkynetTimer N F} (h : t.running = true) (second : N) :
    t.start second = (t, false) := if_pos h

omit [Lib.Clock N] in
theorem start_of_stopped {t : SkynetTimer N F} (h : t.running = false) (second : N) :
    t.start second = ({ t with running := true, timestamp := second }, true) := if_neg (by simp [h])

/-- `mt:stop`. -/
def stop (t : SkynetTimer N F) : SkynetTimer N F := { t with running := false }

end SkynetTimer

/-! ## The record of what has fired -/

/-- A timer with what has been seen of it: the timers added, the handles passed to `remove_timer`, the
updates with the handles they called the functions of (the newest first), and the errors logged. -/
structure Watched (N F : Type*) where
  timer : SkynetTimer N F
  added : List (Added N F)
  removed : List Nat
  rounds : List (Round Nat N)
  errors : List String

namespace Watched

variable {N F : Type*} [Lib.Clock N]

/-- A timer that was just made. -/
def newTimer (checkInterval : N) : Watched N F where
  timer := SkynetTimer.newTimer checkInterval
  added := []
  removed := []
  rounds := []
  errors := []

/-- A call of `add_timer`. When it raises nothing is changed. -/
def addTimer (w : Watched N F) (data : TimerData N F) (second : N) : Watched N F :=
  match w.timer.addTimer data second with
  | .ok (handle, timer) =>
    { w with
      timer := timer
      added := { handle := handle, data := data, second := second } :: w.added }
  | .error _ => w

/-- A call of `remove_timer`. -/
def removeTimer (w : Watched N F) (handle : Nat) : Watched N F :=
  { w with timer := w.timer.removeTimer handle, removed := handle :: w.removed }

/-- One call that a function makes. -/
def op (w : Watched N F) : TimerOp N F → Watched N F
  | .add data second => w.addTimer data second
  | .remove handle => w.removeTimer handle

/-- `pcall(v.func)` with the log of its error. -/
def pcall (w : Watched N F) (run : CallbackRun N F) : Watched N F :=
  let w := run.ops.foldl op w
  match run.err with
  | some err => { w with errors := ("time mgr update err:" ++ err) :: w.errors }
  | none => w

/-- The function of `k` is about to be called: the latest update has it fire. -/
def noteFired (w : Watched N F) (k : Nat) : Watched N F :=
  match w.rounds with
  | u :: us => { w with rounds := { u with fired := k :: u.fired } :: us }
  | [] => w

/-- One turn of the last loop of `mt:update`, for the key `k`. -/
def visit (second : N) (run : Nat → F → CallbackRun N F) (w : Watched N F) (k : Nat) : Watched N F :=
  match w.timer.timers.get k with
  | none => w
  | some r =>
    match w.timer.records.get r with
    | none => w
    | some v =>
      if v.wakeup ≤ second - v.timestamp then
        let w := { w with timer := w.timer.wake r }
        let w := (w.noteFired k).pcall (run k v.func)
        { w with timer := w.timer.countDown k r v.times }
      else w

/-- The start of an update at the time `second`. -/
def beginUpdate (w : Watched N F) (second : N) : Watched N F :=
  { w with
    timer := w.timer.gather
    rounds :=
      { moment := second
        known := w.added.map Added.handle
        cancelled := w.removed
        fired := [] } :: w.rounds }

/-- `mt:update` at the time `second`, with `pairs(self.timers)` in the order `order`. -/
def update (w : Watched N F) (second : N) (order : List Nat) (run : Nat → F → CallbackRun N F) :
    Watched N F :=
  order.foldl (visit second run) (w.beginUpdate second)

end Watched

/-! ## The calls -/

/-- The calls on a timer. -/
inductive TimerCall (N F : Type*) where
  | addTimer (data : TimerData N F) (second : N)
  | removeTimer (handle : Nat)
  | update (second : N) (order : List Nat) (run : Nat → F → CallbackRun N F)

variable {N F : Type*} [Lib.Clock N]

/-- A call. An update goes through the keys that are left in `timers`, each once. -/
def Watched.step (w : Watched N F) : TimerCall N F → Option (Watched N F)
  | .addTimer data second => some (w.addTimer data second)
  | .removeTimer handle => some (w.removeTimer handle)
  | .update second order run =>
    if order.Perm w.timer.gather.timers.keys then some (w.update second order run) else none

/-- The runs of a timer made with a given interval. -/
def timing (N F : Type*) [Lib.Clock N] (checkInterval : N) :
    Lib.Machine (Watched N F) (TimerCall N F) where
  start w := w = Watched.newTimer checkInterval
  step := Watched.step

end AntServer.SkynetApi
