/-
# AntServer.SkynetApi.SkynetDataBinding — a bindable table and its watchers

`service/skynet_api/skynet_data_binding.lua`. A bindable table is empty; its values are in the
metatable, and so are, for each key, the list of the functions that watch it (`bind____`) and the
largest tag that was ever used in it (`maxn____`). An assignment that changes a value goes through the
list by tags. The functions it calls may assign, watch and unwatch in turn, so a state has the stack
of the loops and callbacks that are under way, and one of its steps is one thing done by what is on
top. Which border the length operator takes for a list with holes is up to Lua, and part of the action.

A function in a list is the number of the call of `watch` that has put it there. The log of what has
happened is not in the code: it says what the callbacks can observe. Keys are any but those the
metatable has for itself; callbacks return, and do not yield.
-/
import AntServer.Lib.Machine
import AntServer.Lib.Table

namespace AntServer.SkynetApi

open Lib (Table Machine)

/-! ## Data -/

/-- What a call of `watch` or `watchonce` has made: its key, the tag it returned, and whether the
function is one of `watchonce`, which unwatches that tag when it is done. -/
structure Watcher (K : Type) where
  key : K
  tag : Nat
  once : Bool
  deriving DecidableEq

/-- What has happened: watchers and assignments are numbered. -/
inductive Event (K V : Type) where
  | watched (w : Nat) (watcher : Watcher K)
  | unwatched (w : Nat)
  | begun (a : Nat) (key : K) (new old : Option V)
  | called (a w : Nat) (new old : Option V)
  | returned (w : Nat)
  | ended (a : Nat)
  deriving DecidableEq

/-- The event is an unwatch of the watcher. -/
def Event.isUnwatched {K V : Type} (w : Nat) : Event K V → Bool
  | .unwatched w' => w' == w
  | _ => false

/-- What is under way: the loop of an assignment, with the next tag, `maxn`, and the values it passes
on; or a callback. -/
inductive Frame (K V : Type) where
  | loop (a : Nat) (key : K) (i maxn : Nat) (new old : Option V)
  | call (w : Nat)
  deriving DecidableEq

/-- The frame is the callback of the watcher. -/
def Frame.isCall {K V : Type} (w : Nat) : Frame K V → Bool
  | .call w' => w' == w
  | _ => false

/-- A bindable table. -/
structure Bindable (K V : Type) where
  values : Table K V
  binds : Table K (Table Nat Nat)
  maxns : Table K Nat
  watchers : Table Nat (Watcher K)
  nextWatcher : Nat
  nextAssignment : Nat
  stack : List (Frame K V)
  /-- the newest first -/
  log : List (Event K V)

inductive Action (K V : Type) where
  /-- `watch` and `watchonce`, with the border that `#bind` is -/
  | watch (key : K) (once : Bool) (border : Nat)
  /-- `unwatch` with the key and the tag of a watcher -/
  | unwatch (w : Nat)
  /-- `t[key] = value` -/
  | assign (key : K) (value : Option V)
  /-- the loop on top goes on -/
  | next
  /-- the callback on top returns -/
  | giveBack

namespace Bindable

variable {K V : Type} [DecidableEq K]

/-- `binding.bindable`. What it is to start with are assignments like any other. -/
def bindable : Bindable K V where
  values := .empty
  binds := .empty
  maxns := .empty
  watchers := .empty
  nextWatcher := 0
  nextAssignment := 0
  stack := []
  log := []

/-- `bind____[key][tag]` -/
def slot (s : Bindable K V) (key : K) (tag : Nat) : Option Nat :=
  (s.binds.get key).bind fun bind => bind.get tag

/-- The length operator may give `n`: nothing is in the next place, and something is in this one if it
is not 0. -/
def IsBorder (bind : Table Nat Nat) (n : Nat) : Prop :=
  (n = 0 ∨ (bind.get n).isSome = true) ∧ bind.get (n + 1) = none

instance (bind : Table Nat Nat) (n : Nat) : Decidable (IsBorder bind n) :=
  inferInstanceAs (Decidable (_ ∧ _))

/-- `binding.watch`: the tag it returns, and what it leaves. -/
def watch (s : Bindable K V) (key : K) (func border : Nat) : Option (Nat × Bindable K V) :=
  -- The list and its `maxn` are made by the first watch of the key.
  let bind := (s.binds.get key).getD .empty
  let maxn := if (s.binds.get key).isSome then (s.maxns.get key).getD 0 else 0
  if IsBorder bind border then
    let tag := border + 1
    some (tag, { s with
      binds := s.binds.set key (bind.set tag func)
      maxns := s.maxns.set key (if tag > maxn then tag else maxn) })
  else none

/-- `binding.unwatch` -/
def unwatch (s : Bindable K V) (key : K) (tag : Nat) : Bindable K V :=
  match s.binds.get key with
  | some bind => { s with binds := s.binds.set key (bind.del tag) }
  | none => s

/-- `mt[key] = value` -/
def setValue (s : Bindable K V) (key : K) (value : Option V) : Bindable K V :=
  { s with values := match value with
      | some v => s.values.set key v
      | none => s.values.del key }

def record (s : Bindable K V) (e : Event K V) : Bindable K V := { s with log := e :: s.log }

/-- `__newindex` up to the loop. -/
def newindex [BEq V] (s : Bindable K V) (key : K) (value : Option V) : Bindable K V :=
  let old := s.values.get key
  if old == value then s
  else
    let a := s.nextAssignment
    let s := { (s.setValue key value).record (.begun a key value old) with nextAssignment := a + 1 }
    -- `maxn` is read here: a watcher that is added while the loop runs may be beyond it.
    match s.binds.get key with
    | some _ =>
      { s with stack := .loop a key 1 ((s.maxns.get key).getD 0) value old :: s.stack }
    | none => s.record (.ended a)

/-- The loop of `__newindex`, one step further. -/
def loop (s : Bindable K V) (a : Nat) (key : K) (i maxn : Nat) (new old : Option V)
    (rest : List (Frame K V)) : Bindable K V :=
  if i ≤ maxn then
    let next := Frame.loop a key (i + 1) maxn new old
    -- The place is read when the loop comes to it, whatever it was when the loop began.
    match s.slot key i with
    | some w => { s.record (.called a w new old) with stack := .call w :: next :: rest }
    | none => { s with stack := next :: rest }
  else { s.record (.ended a) with stack := rest }

/-- The end of a callback: the function of `watchonce` unwatches its tag. -/
def giveBack (s : Bindable K V) (w : Nat) (watcher : Watcher K) (rest : List (Frame K V)) :
    Bindable K V :=
  -- It clears the place of the tag, whoever is there by now.
  let s := if watcher.once then s.unwatch watcher.key watcher.tag else s
  { s.record (.returned w) with stack := rest }

/-- Whether the program or a callback is what runs, and no loop. -/
def free (s : Bindable K V) : Bool :=
  match s.stack with
  | .loop .. :: _ => false
  | _ => true

/-- One thing done by what is on top of the stack. The tag of a watcher is unwatched once at most. -/
def step [BEq V] (s : Bindable K V) : Action K V → Option (Bindable K V)
  | .watch key once border =>
    if s.free then
      (s.watch key s.nextWatcher border).map fun (tag, t) =>
        { t.record (.watched t.nextWatcher ⟨key, tag, once⟩) with
          watchers := t.watchers.set t.nextWatcher ⟨key, tag, once⟩
          nextWatcher := t.nextWatcher + 1 }
    else none
  | .unwatch w =>
    if s.free && !s.log.any (Event.isUnwatched w) then
      (s.watchers.get w).map fun watcher =>
        (s.unwatch watcher.key watcher.tag).record (.unwatched w)
    else none
  | .assign key value => if s.free then some (s.newindex key value) else none
  | .next =>
    match s.stack with
    | .loop a key i maxn new old :: rest => some (s.loop a key i maxn new old rest)
    | _ => none
  | .giveBack =>
    match s.stack with
    | .call w :: rest => (s.watchers.get w).map fun watcher => s.giveBack w watcher rest
    | _ => none

/-! ## What can go wrong -/

/-- The watcher is one of `watchonce`. -/
def isOnce (s : Bindable K V) (w : Nat) : Bool := (s.watchers.get w).any Watcher.once

/-- The callback of the watcher is under way. -/
def running (s : Bindable K V) (w : Nat) : Bool := s.stack.any (Frame.isCall w)

/-- No other function is at the tag of the watcher. -/
def ownTag (s : Bindable K V) (w : Nat) : Bool :=
  (s.watchers.get w).all fun watcher => (s.slot watcher.key watcher.tag).all fun w' => w' == w

/-- The loop on top does not come to a callback of `watchonce` that is under way, and no unwatch, of the
program or of `watchonce`, finds another function at its tag. -/
def orderly (s : Bindable K V) : Action K V → Bool
  | .watch _ _ _ => true
  | .unwatch w => s.ownTag w
  | .assign _ _ => true
  | .next =>
    match s.stack with
    | .loop _ key i maxn _ _ :: _ =>
      !(decide (i ≤ maxn) && (s.slot key i).any fun w => s.isOnce w && s.running w)
    | _ => true
  | .giveBack =>
    match s.stack with
    | .call w :: _ => !s.isOnce w || s.ownTag w
    | _ => true

end Bindable

/-- Everything a program and its callbacks may do to a bindable table. -/
def dataBinding (K V : Type) [DecidableEq K] [BEq V] : Machine (Bindable K V) (Action K V) where
  start s := s = .bindable
  step := Bindable.step

/-! ## What is observed -/

section Spec

variable {K V : Type}

/-- The watcher was not unwatched, neither by the program nor, if it is one of `watchonce`, by itself. -/
structure Live (log : List (Event K V)) (w : Nat) (watcher : Watcher K) : Prop where
  watched : .watched w watcher ∈ log
  unwatched : .unwatched w ∉ log
  once : watcher.once = true → .returned w ∉ log

/-- What was last assigned to the key. -/
def assigned [DecidableEq K] (key : K) : List (Event K V) → Option V
  | [] => none
  | .begun _ key' new _ :: past => if key' = key then new else assigned key past
  | _ :: past => assigned key past

/-- The assignment `a` has called the watcher with its values; or the watcher, one of `watchonce`, was
called by some assignment. -/
def Met (log : List (Event K V)) (a w : Nat) (watcher : Watcher K) (new old : Option V) : Prop :=
  if watcher.once then ∃ a' n o, .called a' w n o ∈ log else .called a w new old ∈ log

/-- What an event should be, after those before it.

`watched`: the watcher does not have the tag of a live one. `begun`: the value changes. `called`: the
assignment calls a watcher of its key, with its values, that was not unwatched, that it has not called
yet, that nothing has called if it is one of `watchonce`, and that has a larger tag than those it has
called. `ended`: of the watchers
there were when the assignment began and that were not unwatched since, each was called. -/
def Right [DecidableEq K] [BEq V] (past : List (Event K V)) : Event K V → Prop
  | .watched w watcher =>
    (∀ watcher', .watched w watcher' ∉ past) ∧
      ∀ w' watcher', Live past w' watcher' → watcher'.key = watcher.key → watcher'.tag ≠ watcher.tag
  | .unwatched w => (∃ watcher, .watched w watcher ∈ past) ∧ .unwatched w ∉ past
  | .begun a key new old =>
    (∀ key' new' old', .begun a key' new' old' ∉ past) ∧ old = assigned key past ∧
      (old == new) = false
  | .called a w new old =>
    ∃ watcher, .watched w watcher ∈ past ∧ .begun a watcher.key new old ∈ past ∧
      .unwatched w ∉ past ∧ (∀ n o, .called a w n o ∉ past) ∧
      (watcher.once = true → ∀ a' n o, .called a' w n o ∉ past) ∧
      ∀ w' watcher' n o, .called a w' n o ∈ past → .watched w' watcher' ∈ past →
        watcher'.tag < watcher.tag
  | .returned w => ∃ a n o, .called a w n o ∈ past
  | .ended a =>
    ∀ key new old before, (.begun a key new old :: before) <:+ past →
      ∀ w watcher, .watched w watcher ∈ before → watcher.key = key → .unwatched w ∉ past →
        Met past a w watcher new old

/-- Every event is as it should be. -/
def Sound [DecidableEq K] [BEq V] : List (Event K V) → Prop
  | [] => True
  | e :: past => Right past e ∧ Sound past

end Spec

end AntServer.SkynetApi
