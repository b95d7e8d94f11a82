/-
# AntServer.Battle.PendingCommnads — the four rotating command slots of a lockstep battle

The class `PendingCommnads` of `service/battle/lockstep/core/pending_commnads.lua`. A battle keeps
four command arrays, one per turn in flight, and shifts them at every turn. A slot is what the Lua
field holds: `new_comands` gives a table with a `0` per player, while `initialize` leaves the number
`0` itself in `_nextNextCommands` and `_nextNextNextCommands`, and indexing a number raises.

`AddCommand` raises before it writes anything: on a slot that is still a number, on a second command
for the same player and turn, and on a turn outside the window of three (the `+` in the text of the
`ERROR` call is arithmetic on a string). So a failed call leaves the object as it was.
-/
import AntServer.Lua
import Mathlib.Data.Finset.Card
import Mathlib.Order.Interval.Finset.Nat

namespace AntServer.Battle

/-! ## The cells of a turn -/

/-- What one index of a command table holds. -/
inductive Cell (Cmd : Type*) where
  | absent
  | zero
  | command (cmd : Cmd)
  deriving DecidableEq, Repr

/-- `type(c) == "table"`. -/
def Cell.isCommand {Cmd : Type*} : Cell Cmd → Bool
  | .command _ => true
  | _ => false

/-- What a slot field holds: the number `0`, or a command table. -/
inductive Slot (Cmd : Type*) where
  | number
  | cells (commands : Nat → Cell Cmd)

namespace Slot

variable {Cmd : Type*}

/-- The cell of a player. A slot that is a number holds nobody's command. -/
def cell : Slot Cmd → Nat → Cell Cmd
  | .number, _ => .absent
  | .cells f, playerId => f playerId

/-- `new_comands(len)`: a `0` for every player. -/
def newComands (len : Nat) : Slot Cmd :=
  .cells fun i => if 1 ≤ i ∧ i ≤ len then .zero else .absent

/-- The three like branches of `AddCommand` on their slot: index it, refuse a second command,
store the command. -/
def add (name : String) (slot : Slot Cmd) (cmd : Cmd) (playerId : Nat) :
    Except LuaError (Slot Cmd) :=
  match slot with
  | .number => .error (.index "number" name)
  | .cells f =>
    if (f playerId).isCommand then .error (.arith "Recieved multiple actions for player ")
    else .ok (.cells (Function.update f playerId (.command cmd)))

/-- The players of `1..N` whose command is in the slot. -/
def players (slot : Slot Cmd) (N : Nat) : Finset Nat :=
  (Finset.Icc 1 N).filter fun p => (slot.cell p).isCommand

@[simp] theorem cell_number (p : Nat) : (Slot.number : Slot Cmd).cell p = .absent := rfl

theorem cell_newComands_ne (len p : Nat) (cmd : Cmd) : (newComands len).cell p ≠ .command cmd := by
  simp only [newComands, cell]
  split <;> simp

@[simp] theorem players_number (N : Nat) : (Slot.number : Slot Cmd).players N = ∅ := by
  simp [players, Cell.isCommand]

@[simp] theorem players_newComands (len N : Nat) : (newComands len : Slot Cmd).players N = ∅ := by
  refine Finset.filter_eq_empty_iff.mpr fun p _ => ?_
  simp only [newComands, cell]
  split <;> simp [Cell.isCommand]

/-- A slot accepts a command exactly when it is a table without a command of that player. -/
theorem add_ok_iff {name : String} {slot : Slot Cmd} {cmd : Cmd} {p : Nat} :
    (∃ slot', slot.add name cmd p = .ok slot') ↔
      slot ≠ .number ∧ ∀ c, slot.cell p ≠ .command c := by
  cases slot with
  | number => simp [add]
  | cells f =>
    simp only [add, cell]
    cases hf : f p <;> simp [Cell.isCommand]

/-- What an accepted command changes: the cell of its player, from no command to this one. -/
theorem add_ok {name : String} {slot slot' : Slot Cmd} {cmd : Cmd} {p : Nat}
    (h : slot.add name cmd p = .ok slot') :
    slot' ≠ .number ∧ (slot.cell p).isCommand = false ∧
      ∀ q, slot'.cell q = if q = p then .command cmd else slot.cell q := by
  cases slot with
  | number => simp [add] at h
  | cells f =>
    by_cases hf : (f p).isCommand = true
    · simp [add, hf] at h
    · simp only [add, hf] at h
      cases h
      refine ⟨by simp, by simpa [cell] using hf, fun q => ?_⟩
      simp [cell, Function.update_apply]

/-- An accepted command of a player of `1..N` adds that player to the slot. -/
theorem players_add {name : String} {slot slot' : Slot Cmd} {cmd : Cmd} {p N : Nat}
    (h : slot.add name cmd p = .ok slot') (hp : p ∈ Finset.Icc 1 N) :
    (slot'.players N).card = (slot.players N).card + 1 := by
  obtain ⟨-, hnone, hcell⟩ := add_ok h
  have hnot : p ∉ slot.players N := by simp [players, hnone]
  have hins : slot'.players N = insert p (slot.players N) := by
    ext q
    by_cases hq : q = p
    · subst hq
      simpa [players, hcell, Cell.isCommand] using hp
    · simp [players, hcell, hq]
  rw [hins, Finset.card_insert_of_notMem hnot]

/-- As many players with a command as there are players are all of them. -/
theorem all_players {slot : Slot Cmd} {N : Nat} (h : (slot.players N).card = N) :
    ∀ p ∈ Finset.Icc 1 N, ∃ cmd, slot.cell p = .command cmd := by
  have hall : slot.players N = Finset.Icc 1 N :=
    Finset.eq_of_subset_of_card_le (Finset.filter_subset _ _) (by rw [h, Nat.card_Icc]; omega)
  intro p hp
  rw [← hall] at hp
  have hcommand := (Finset.mem_filter.mp hp).2
  cases hcell : slot.cell p with
  | absent => rw [hcell] at hcommand; cases hcommand
  | zero => rw [hcell] at hcommand; cases hcommand
  | command cmd => exact ⟨cmd, rfl⟩

end Slot

/-! ## The queue -/

/-- The object: the number of players, the four slots and their counters. -/
structure PendingCommnads (Cmd : Type*) where
  numberOfPlayers : Nat
  currentCommands : Slot Cmd
  nextCommands : Slot Cmd
  nextNextCommands : Slot Cmd
  nextNextNextCommands : Slot Cmd
  currentCommandsCount : Nat
  nextCommandsCount : Nat
  nextNextCommandsCount : Nat
  nextNextNextCommandsCount : Nat

namespace PendingCommnads

variable {Cmd : Type*}

/-- `PendingCommnads:initialize`, with `constant.NumberOfPlayers = N`. -/
def initializeWith (N : Nat) : PendingCommnads Cmd where
  numberOfPlayers := N
  currentCommands := Slot.newComands N
  nextCommands := Slot.newComands N
  nextNextCommands := .number
  nextNextNextCommands := .number
  currentCommandsCount := 0
  nextCommandsCount := 0
  nextNextCommandsCount := 0
  nextNextNextCommandsCount := 0

/-- `PendingCommnads:NextTurn`: every slot moves one turn nearer, the last one is fresh. -/
def nextTurn (s : PendingCommnads Cmd) : PendingCommnads Cmd where
  numberOfPlayers := s.numberOfPlayers
  currentCommands := s.nextCommands
  currentCommandsCount := s.nextCommandsCount
  nextCommands := s.nextNextCommands
  nextCommandsCount := s.nextNextCommandsCount
  nextNextCommands := s.nextNextNextCommands
  nextNextCommandsCount := s.nextNextNextCommandsCount
  nextNextNextCommands := Slot.newComands s.numberOfPlayers
  nextNextNextCommandsCount := 0

/-- `PendingCommnads:AddCommand`. -/
def addCommand (s : PendingCommnads Cmd) (cmd : Cmd) (playerId : Nat)
    (currentLockStepTurn cmdsLockStepTurn : Int) : Except LuaError (PendingCommnads Cmd) :=
  if cmdsLockStepTurn = currentLockStepTurn + 1 then
    match s.nextNextNextCommands.add "_nextNextNextCommands" cmd playerId with
    | .ok slot => .ok { s with
        nextNextNextCommands := slot
        nextNextNextCommandsCount := s.nextNextNextCommandsCount + 1 }
    | .error e => .error e
  else if cmdsLockStepTurn = currentLockStepTurn then
    match s.nextNextCommands.add "_nextNextCommands" cmd playerId with
    | .ok slot => .ok { s with
        nextNextCommands := slot
        nextNextCommandsCount := s.nextNextCommandsCount + 1 }
    | .error e => .error e
  else if cmdsLockStepTurn = currentLockStepTurn - 1 then
    match s.nextCommands.add "_nextCommands" cmd playerId with
    | .ok slot => .ok { s with
        nextCommands := slot
        nextCommandsCount := s.nextCommandsCount + 1 }
    | .error e => .error e
  else .error (.arith " Unexpected lockstepID recieved : ")

/-! ## What an added command does -/

/-- The slot a command for turn `current + 1 - k` goes to, `k = 0, 1, 2`. -/
inductive AddCase (s : PendingCommnads Cmd) (cmd : Cmd) (p : Nat) (current t : Int)
    (s' : PendingCommnads Cmd) : Prop
  | nextNextNext (slot : Slot Cmd) : t = current + 1 →
      s.nextNextNextCommands.add "_nextNextNextCommands" cmd p = .ok slot →
      s' = { s with
        nextNextNextCommands := slot
        nextNextNextCommandsCount := s.nextNextNextCommandsCount + 1 } → AddCase s cmd p current t s'
  | nextNext (slot : Slot Cmd) : t = current →
      s.nextNextCommands.add "_nextNextCommands" cmd p = .ok slot →
      s' = { s with
        nextNextCommands := slot
        nextNextCommandsCount := s.nextNextCommandsCount + 1 } → AddCase s cmd p current t s'
  | next (slot : Slot Cmd) : t = current - 1 →
      s.nextCommands.add "_nextCommands" cmd p = .ok slot →
      s' = { s with
        nextCommands := slot
        nextCommandsCount := s.nextCommandsCount + 1 } → AddCase s cmd p current t s'

/-- Everything a successful `AddCommand` can have done. -/
theorem addCommand_cases {s s' : PendingCommnads Cmd} {cmd : Cmd} {p : Nat} {current t : Int}
    (h : s.addCommand cmd p current t = .ok s') : AddCase s cmd p current t s' := by
  unfold addCommand at h
  split at h
  · rename_i ht
    split at h
    · rename_i slot hslot
      cases h
      exact .nextNextNext slot ht hslot rfl
    · cases h
  · split at h
    · rename_i ht
      split at h
      · rename_i slot hslot
        cases h
        exact .nextNext slot ht hslot rfl
      · cases h
    · split at h
      · rename_i ht
        split at h
        · rename_i slot hslot
          cases h
          exact .next slot ht hslot rfl
        · cases h
      · cases h

/-- `AddCommand` succeeds exactly when the slot of the command's turn takes it. -/
theorem addCommand_ok_iff {s : PendingCommnads Cmd} {cmd : Cmd} {p : Nat} {current t : Int} :
    (∃ s', s.addCommand cmd p current t = .ok s') ↔
      (t = current + 1 ∧
        ∃ slot, s.nextNextNextCommands.add "_nextNextNextCommands" cmd p = .ok slot) ∨
      (t = current ∧ ∃ slot, s.nextNextCommands.add "_nextNextCommands" cmd p = .ok slot) ∨
      (t = current - 1 ∧ ∃ slot, s.nextCommands.add "_nextCommands" cmd p = .ok slot) := by
  constructor
  · rintro ⟨s', h⟩
    rcases addCommand_cases h with ⟨slot, ht, hs, -⟩ | ⟨slot, ht, hs, -⟩ | ⟨slot, ht, hs, -⟩
    · exact .inl ⟨ht, slot, hs⟩
    · exact .inr (.inl ⟨ht, slot, hs⟩)
    · exact .inr (.inr ⟨ht, slot, hs⟩)
  · rintro (⟨rfl, slot, hs⟩ | ⟨rfl, slot, hs⟩ | ⟨rfl, slot, hs⟩)
    · exact ⟨_, by rw [addCommand, if_pos rfl, hs]⟩
    · exact ⟨_, by rw [addCommand, if_neg (by omega), if_pos rfl, hs]⟩
    · exact ⟨_, by rw [addCommand, if_neg (by omega), if_neg (by omega), if_pos rfl, hs]⟩

/-! ## Who is ready -/

/-- `PendingCommnads:ReadyForNextTurn`, with the current and the first turn id. -/
def readyForNextTurn (s : PendingCommnads Cmd) (lockStepTurnId firstLockStepTurnID : Int) : Bool :=
  if s.nextNextCommandsCount = s.numberOfPlayers ∧
      (lockStepTurnId = firstLockStepTurnID + 1 ∨ s.nextCommandsCount = s.numberOfPlayers) then true
  else decide (lockStepTurnId = firstLockStepTurnID)

/-- After the first turn only the counters make `ReadyForNextTurn` say yes. -/
theorem counts_of_readyForNextTurn {s : PendingCommnads Cmd} {turn first : Int} (hturn : turn ≠ first)
    (h : s.readyForNextTurn turn first = true) :
    s.nextNextCommandsCount = s.numberOfPlayers ∧
      (turn = first + 1 ∨ s.nextCommandsCount = s.numberOfPlayers) := by
  unfold readyForNextTurn at h
  split at h
  · assumption
  · exact absurd (of_decide_eq_true h) hturn

/-- `PendingCommnads:DoWhosNotReady`. The object has no field `actions`, so the first pass of the
loop raises; `count < N` gives the loop a first pass. -/
def doWhosNotReady (s : PendingCommnads Cmd) (count : Nat) : Except LuaError (Option (List Nat)) :=
  if count < s.numberOfPlayers then .error (.index "nil" "actions") else .ok none

/-- `PendingCommnads:WhosNotReady`. -/
def whosNotReady (s : PendingCommnads Cmd) (lockStepTurnId firstLockStepTurnID : Int) :
    Except LuaError (Option (List Nat)) :=
  if s.nextNextCommandsCount = s.numberOfPlayers then
    if lockStepTurnId = firstLockStepTurnID + 1 then .ok none
    else if s.nextCommandsCount = s.numberOfPlayers then .ok none
    else s.doWhosNotReady s.nextCommandsCount
  else if lockStepTurnId = firstLockStepTurnID then .ok none
  else s.doWhosNotReady s.nextNextCommandsCount

end PendingCommnads

end AntServer.Battle
