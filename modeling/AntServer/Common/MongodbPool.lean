/-
# AntServer.Common.MongodbPool — the connections of `mongodbpool` and how a key selects one

`service/common/mongodbpool.lua`: `start` fills `pool` with `maxconn` slaves, a numeric key takes the slave
at its remainder, every other key the next one. `next_conn` moves `next_id` twice, so that it walks over
the even indexes only; when the size is odd it also comes by 0, where `pool` has no slave.

The walk is a cycle, so the calls it does not serve are known from their number (`nextConn_served`).
-/
import Mathlib.Data.List.Induction
import AntServer.Lua
import AntServer.LuaNumber

namespace AntServer

/-- The `key` of `getconn`: absent, a number or a string. -/
inductive Key where
  | nil
  | number (x : LuaNumber)
  | string (s : List Char)

/-- `tonumber(key)`. -/
def Key.tonumber : Key → Option LuaNumber
  | .nil => none
  | .number x => some x
  | .string s => LuaNumber.tonumber s

/-- What `start` leaves in `pool`: the addresses of `maxconn` slaves. -/
structure Slaves (Addr : Type*) where
  pool : List Addr
  maxconn_pos : 1 ≤ pool.length

variable {Addr : Type*}

def Slaves.maxconn (s : Slaves Addr) : Nat := s.pool.length

/-- The remainder of a number by `divisor`, plus `offset`, is an index of a pool of `maxconn`. An integer
has no rounding to fear. -/
def LuaNumber.Lands (x : LuaNumber) (divisor offset maxconn : Nat) : Prop :=
  match x with
  | .int _ => True
  | .float x =>
    ∃ n, LuaFloat.toInteger (LuaFloat.mod x (Float.ofInt divisor) + Float.ofInt offset) = some n ∧
      1 ≤ n ∧ n ≤ maxconn

/-- A pool has a slave at the remainder plus the offset exactly when that is an index of it. -/
theorem Slaves.index_served (s : Slaves Addr) (x : LuaNumber) {divisor : Nat} (offset : Nat)
    (hdivisor : 1 ≤ divisor) (hoffset : 1 ≤ offset) (hle : divisor + offset ≤ s.maxconn + 1) :
    (∃ a, ((x.modInt divisor).addInt offset).index s.pool = some a) ↔
      x.Lands divisor offset s.maxconn := by
  rw [LuaNumber.index_eq_some]
  unfold LuaNumber.Lands
  cases x with
  | float x => rfl
  | int n =>
    have hlow : 0 ≤ n.fmod divisor := Int.fmod_nonneg_of_pos n (by omega)
    have hhigh : n.fmod divisor < divisor := Int.fmod_lt_of_pos n (by omega)
    have hlen : s.maxconn = s.pool.length := rfl
    simp only [iff_true]
    exact ⟨n.fmod divisor + offset, rfl, by omega, by omega⟩

namespace MongodbPool

/-- The index that `next_conn` looks up, which is also what it leaves in `next_id`. -/
def advance (maxconn nextId : Nat) : Nat :=
  let nextId := nextId % maxconn + 1
  let nextId := nextId + 1
  if nextId > maxconn then 0 else nextId

/-- `next_conn`: the slave, or nil, and the new `next_id`. -/
def nextConn (s : Slaves Addr) (nextId : Nat) : Option Addr × Nat :=
  let nextId := advance s.maxconn nextId
  (luaIndex s.pool nextId, nextId)

/-- `getconn(key)`: the slave, or nil, and the new `next_id`. -/
def getconn (s : Slaves Addr) (key : Key) (nextId : Nat) : Option Addr × Nat :=
  match key.tonumber with
  | some x => (((x.modInt s.maxconn).addInt 1).index s.pool, nextId)
  | none => nextConn s nextId

/-- `next_id` behind the calls of a history, whether they found a slave or not. -/
def run (s : Slaves Addr) (history : List Key) : Nat :=
  history.foldl (fun nextId key => (getconn s key nextId).2) 0

/-- How many calls of a history went to `next_conn`. -/
def turns (history : List Key) : Nat := history.countP (·.tonumber.isNone)

@[simp] theorem turns_nil : turns [] = 0 := rfl

theorem turns_append (history : List Key) (key : Key) :
    turns (history ++ [key]) = turns history + if key.tonumber = none then 1 else 0 := by
  simp [turns, List.countP_append, List.countP_cons, Option.isNone_iff_eq_none]

/-- A numeric key leaves `next_id` alone, every other key advances it. -/
theorem run_append (s : Slaves Addr) (history : List Key) (key : Key) :
    run s (history ++ [key]) =
      if key.tonumber = none then advance s.maxconn (run s history) else run s history := by
  unfold run
  rw [List.foldl_append, List.foldl_cons, List.foldl_nil]
  unfold getconn
  cases key.tonumber with
  | none => rfl
  | some x => rfl

/-! ## The walk of `next_id` -/

/-- From an even index the walk goes two further, and from the last one to 0. -/
theorem advance_even {n i : Nat} (hi : 2 * i < n) :
    advance n (2 * i) = if 2 * i + 2 ≤ n then 2 * (i + 1) else 0 := by
  unfold advance
  rw [Nat.mod_eq_of_lt hi]
  dsimp only
  split_ifs <;> omega

/-- With an odd size the walk has `(n + 1) / 2` indexes, 0 among them. -/
theorem advance_odd {n : Nat} (hn : n % 2 = 1) (c : Nat) :
    advance n (2 * (c % ((n + 1) / 2))) = 2 * ((c + 1) % ((n + 1) / 2)) := by
  have hlt : c % ((n + 1) / 2) < (n + 1) / 2 := Nat.mod_lt _ (by omega)
  rw [advance_even (by omega), ← Nat.mod_add_mod c ((n + 1) / 2) 1]
  by_cases hlast : c % ((n + 1) / 2) + 1 = (n + 1) / 2
  · rw [if_neg (by omega), hlast, Nat.mod_self]
  · have hnext : c % ((n + 1) / 2) + 1 < (n + 1) / 2 := by omega
    rw [if_pos (by omega), Nat.mod_eq_of_lt hnext]

theorem run_odd (s : Slaves Addr) (hn : s.maxconn % 2 = 1) (history : List Key) :
    run s history = 2 * (turns history % ((s.maxconn + 1) / 2)) := by
  induction history using List.reverseRecOn with
  | nil => simp [run]
  | append_singleton history key ih =>
    rw [run_append, turns_append]
    split
    · rw [ih, advance_odd hn]
    · exact ih

/-- With an even size the walk stays on the even indexes, and comes back to 2 from the last one. -/
theorem advance_pos {n i : Nat} (hpos : 1 ≤ n) (hn : n % 2 = 0) (hi : i % 2 = 0) (hle : i ≤ n) :
    advance n i % 2 = 0 ∧ 1 ≤ advance n i ∧ advance n i ≤ n := by
  unfold advance
  dsimp only
  rcases hle.lt_or_eq with hlt | rfl
  · rw [Nat.mod_eq_of_lt hlt, if_neg (by omega)]
    omega
  · rw [Nat.mod_self, if_neg (by omega)]
    omega

theorem run_even (s : Slaves Addr) (hn : s.maxconn % 2 = 0) (history : List Key) :
    run s history % 2 = 0 ∧ run s history ≤ s.maxconn := by
  induction history using List.reverseRecOn with
  | nil => exact ⟨rfl, Nat.zero_le _⟩
  | append_singleton history key ih =>
    rw [run_append]
    split
    · have := advance_pos s.maxconn_pos hn ih.1 ih.2
      exact ⟨this.1, this.2.2⟩
    · exact ih

/-- `next_conn` finds a slave except, when the size is odd, in every `(maxconn + 1) / 2`-th call. -/
theorem nextConn_served (s : Slaves Addr) (history : List Key) :
    (∃ a, (nextConn s (run s history)).1 = some a) ↔
      s.maxconn % 2 = 0 ∨ ¬ (s.maxconn + 1) / 2 ∣ turns history + 1 := by
  have hindex : (∃ a, (nextConn s (run s history)).1 = some a) ↔
      1 ≤ advance s.maxconn (run s history) ∧ advance s.maxconn (run s history) ≤ s.maxconn :=
    luaIndex_isSome
  rw [hindex]
  rcases Nat.mod_two_eq_zero_or_one s.maxconn with hn | hn
  · obtain ⟨heven, hle⟩ := run_even s hn history
    exact ⟨fun _ => .inl hn, fun _ => (advance_pos s.maxconn_pos hn heven hle).2⟩
  · have hlt : (turns history + 1) % ((s.maxconn + 1) / 2) < (s.maxconn + 1) / 2 :=
      Nat.mod_lt _ (by omega)
    rw [run_odd s hn, advance_odd hn, Nat.dvd_iff_mod_eq_zero]
    omega

/-- When `getconn` of `mongodbpool` has a slave for a key, behind the calls of a history. -/
def Serves (maxconn : Nat) (history : List Key) (key : Key) : Prop :=
  match key.tonumber with
  | some x => x.Lands maxconn 1 maxconn
  | none => maxconn % 2 = 0 ∨ ¬ (maxconn + 1) / 2 ∣ turns history + 1

theorem getconn_served (s : Slaves Addr) (history : List Key) (key : Key) :
    (∃ a, (getconn s key (run s history)).1 = some a) ↔ Serves s.maxconn history key := by
  unfold getconn Serves
  cases key.tonumber with
  | some x => exact s.index_served x 1 s.maxconn_pos (by omega) (by omega)
  | none => exact nextConn_served s history

end MongodbPool

end AntServer
