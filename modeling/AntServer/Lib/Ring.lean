/-
# AntServer.Lib.Ring — a first-in first-out queue in a circular buffer that grows

A value is stored at the tail, the tail wraps around, and when it meets the head the buffer is copied,
in order, into one with `grow` more slots. Slots out of use hold anything. What the queue holds is a
list (`toList`): `push` appends to it, whether or not the buffer grows, and `pop` takes its head.

Nothing here names the modelled system.
-/
import Mathlib.Logic.Function.Basic
import Mathlib.Data.List.Basic
import Mathlib.Tactic.Ring

namespace AntServer.Lib

/-- The buffer: both ends are slots of it. -/
structure Ring (α : Type*) (grow : Nat) where
  cap : Nat
  head : Nat
  tail : Nat
  slots : Nat → α
  head_lt : head < cap
  tail_lt : tail < cap

namespace Ring

variable {α : Type*} {grow : Nat} [NeZero grow]

/-- The first buffer. -/
def empty [Inhabited α] : Ring α grow where
  cap := grow
  head := 0
  tail := 0
  slots := fun _ => default
  head_lt := Nat.pos_of_neZero grow
  tail_lt := Nat.pos_of_neZero grow

variable (r : Ring α grow)

/-- The slot after slot `i`. -/
def advance (i : Nat) : Nat := if i + 1 ≥ r.cap then i + 1 - r.cap else i + 1

omit [NeZero grow] in
theorem advance_lt {i : Nat} (hi : i < r.cap) : r.advance i < r.cap := by
  unfold advance
  split <;> omega

/-- `x` in the slot at the tail, and the tail in the next one. -/
def store (x : α) : Ring α grow where
  cap := r.cap
  head := r.head
  tail := r.advance r.tail
  slots := Function.update r.slots r.tail x
  head_lt := r.head_lt
  tail_lt := r.advance_lt r.tail_lt

/-- The full buffer, copied from its head on into a larger one. -/
def expand : Ring α grow where
  cap := r.cap + grow
  head := 0
  tail := r.cap
  slots := fun i => r.slots ((r.head + i) % r.cap)
  head_lt := Nat.add_pos_left (Nat.zero_lt_of_lt r.head_lt) _
  tail_lt := Nat.lt_add_of_pos_right (Nat.pos_of_neZero grow)

def push (x : α) : Ring α grow :=
  if (r.store x).head = (r.store x).tail then (r.store x).expand else r.store x

def pop : Option (α × Ring α grow) :=
  if r.head = r.tail then none
  else some (r.slots r.head,
    { r with head := r.advance r.head, head_lt := r.advance_lt r.head_lt })

/-! ## The list a buffer holds -/

/-- How many slots are in use. -/
def length : Nat := if r.head ≤ r.tail then r.tail - r.head else r.tail + r.cap - r.head

def toList : List α := (List.range r.length).map fun i => r.slots ((r.head + i) % r.cap)

omit [NeZero grow] in
/-- The slot of the `i`-th value in use: the buffer wraps at most once. -/
theorem index_eq {i : Nat} (hi : i < r.cap) : (r.head + i) % r.cap =
    if r.head + i < r.cap then r.head + i else r.head + i - r.cap := by
  have hhead := r.head_lt
  split
  · exact Nat.mod_eq_of_lt ‹_›
  · rw [Nat.mod_eq_sub_mod (by omega), Nat.mod_eq_of_lt (by omega)]

omit [NeZero grow] in
theorem length_lt : r.length < r.cap := by
  have hhead := r.head_lt
  have htail := r.tail_lt
  unfold length
  split <;> omega

omit [NeZero grow] in
/-- The slot after the last one in use is the tail, and no slot in use is. -/
theorem store_slots (x : α) {i : Nat} (hi : i ≤ r.length) :
    (r.store x).slots ((r.head + i) % r.cap) =
      if i = r.length then x else r.slots ((r.head + i) % r.cap) := by
  have hlt := r.length_lt
  have hhead := r.head_lt
  have htail := r.tail_lt
  show Function.update r.slots r.tail x _ = _
  rw [Function.update_apply]
  refine if_congr ?_ rfl rfl
  rw [r.index_eq (by omega)]
  unfold length at hi ⊢
  split at hi <;> split <;> omega

omit [NeZero grow] in
theorem map_store_slots (x : α) :
    (List.range (r.length + 1)).map (fun i => (r.store x).slots ((r.head + i) % r.cap)) =
      r.toList ++ [x] := by
  rw [List.range_succ, List.map_append, List.map_singleton, r.store_slots x (Nat.le_refl _), if_pos rfl]
  congr 1
  refine List.map_congr_left fun i hi => ?_
  have hlt : i < r.length := List.mem_range.mp hi
  rw [r.store_slots x (Nat.le_of_lt hlt), if_neg (Nat.ne_of_lt hlt)]

theorem toList_push (x : α) : (r.push x).toList = r.toList ++ [x] := by
  have hhead := r.head_lt
  have htail := r.tail_lt
  rw [← r.map_store_slots x]
  unfold push
  split
  · -- the buffer is full: every slot was in use but the one `x` went to
    rename_i hfull
    have hlen : r.length + 1 = r.cap := by
      change r.head = r.advance r.tail at hfull
      unfold advance at hfull
      unfold length
      split at hfull <;> split <;> omega
    have hexpand : (r.store x).expand.length = r.length + 1 := by
      rw [hlen]
      exact Nat.sub_zero _
    show List.map _ (List.range (r.store x).expand.length) = _
    rw [hexpand]
    refine List.map_congr_left fun i hi => ?_
    have hi' : i < r.cap := hlen ▸ List.mem_range.mp hi
    have hslot : (0 + i) % (r.cap + grow) = i := by rw [Nat.zero_add, Nat.mod_eq_of_lt (by omega)]
    show (r.store x).slots ((r.head + (0 + i) % (r.cap + grow)) % r.cap) = _
    rw [hslot]
  · rename_i hroom
    have hlen : (r.store x).length = r.length + 1 := by
      change r.head ≠ r.advance r.tail at hroom
      show (if r.head ≤ r.advance r.tail then r.advance r.tail - r.head
        else r.advance r.tail + r.cap - r.head) = _
      unfold advance at hroom ⊢
      unfold length
      split at hroom <;> rename_i hwrap
      · rw [if_pos hwrap]
        split <;> split <;> omega
      · rw [if_neg hwrap]
        split <;> split <;> omega
    show List.map _ (List.range (r.store x).length) = _
    rw [hlen]
    rfl

omit [NeZero grow] in
theorem pop_none (h : r.pop = none) : r.toList = [] := by
  unfold pop at h
  split at h
  · rename_i heq
    unfold toList length
    rw [if_pos (Nat.le_of_eq heq), heq, Nat.sub_self]
    rfl
  · cases h

omit [NeZero grow] in
variable {r} in
/-- `pop` takes the head of the list, and leaves its tail. -/
theorem pop_some {x : α} {r' : Ring α grow} (h : r.pop = some (x, r')) :
    r.toList = x :: r'.toList := by
  unfold pop at h
  split at h
  · cases h
  · rename_i hne
    cases h
    have hhead := r.head_lt
    have htail := r.tail_lt
    have hadv := r.advance_lt hhead
    have hlen : r.length =
        { r with head := r.advance r.head, head_lt := hadv : Ring α grow }.length + 1 := by
      show _ = (if r.advance r.head ≤ r.tail then r.tail - r.advance r.head
        else r.tail + r.cap - r.advance r.head) + 1
      unfold length advance
      split <;> split <;> split <;> omega
    have hlt := r.length_lt
    unfold toList
    rw [hlen, List.range_succ_eq_map, List.map_cons, List.map_map, Nat.add_zero,
      Nat.mod_eq_of_lt hhead]
    congr 1
    refine List.map_congr_left fun i hi => ?_
    have hi' := List.mem_range.mp hi
    show r.slots ((r.head + (i + 1)) % r.cap) = r.slots ((r.advance r.head + i) % r.cap)
    congr 1
    unfold advance
    split
    · rw [show r.head + (i + 1) = r.head + 1 - r.cap + i + r.cap by omega, Nat.add_mod_right]
    · rw [Nat.add_right_comm, Nat.add_assoc]

/-- Values pushed one after the other. -/
theorem toList_foldl_push (xs : List α) : (xs.foldl push r).toList = r.toList ++ xs := by
  induction xs generalizing r with
  | nil => exact (List.append_nil _).symm
  | cons x xs ih =>
    rw [List.foldl_cons, ih, toList_push, List.append_assoc]
    rfl

/-- Two slots are full with one value in them: the second push lets the buffer grow. -/
example : ((((empty : Ring Nat 2).push 1).push 2).push 3).toList = [1, 2, 3] := by decide

end Ring

end AntServer.Lib
