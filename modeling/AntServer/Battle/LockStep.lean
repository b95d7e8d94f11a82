/-
# AntServer.Battle.LockStep — when a lockstep battle may advance its turn

`LockStep:NextTurn` of `service/battle/lockstep/lockstep.lua` over the two objects it asks and
shifts (lines 114 and 116 are read as the method calls `self._confirmedCommands:NextTurn()` and
`self._pendingCommnads:NextTurn()`). A battle is a machine whose steps are the messages of the
players, in any order and with any turn numbers, and the attempts to advance.

An advance is safe when the counters stand for players: `AddCommand` refuses a second command of a
player, but `ConfirmCommand` counts every message, so a player who confirms twice is counted for one who
is silent (`not_safe_twice`). Where each confirmation is the first of its player in its array, the counters are
right in every state of the run (`Recorded`), and so are the decisions that read them (`safe_of_first`).

The slot `_nextNextCommands` is still the number `initialize` left there while the turn id is the first
one or the one after it (`Stalled`), so a battle with players never gets past its second turn.
-/
import AntServer.Lib.Machine
import AntServer.Battle.ConfirmedCommands
import AntServer.Battle.PendingCommnads

namespace AntServer.Battle

/-- `constant.FirstLockStepTurnID`. -/
def firstLockStepTurnID : Int := 0

/-- `constant.LockStepTurnId` and the two objects of a battle. -/
structure LockStep (Cmd : Type*) where
  lockStepTurnId : Int
  pendingCommnads : PendingCommnads Cmd
  confirmedCommands : ConfirmedCommands

/-- What a battle is asked to do. The turn numbers are the callers'. -/
inductive Msg (Cmd : Type*) where
  | addCommand (cmd : Cmd) (playerId : Nat) (currentLockStepTurn cmdsLockStepTurn : Int)
  | confirmCommand (confirmingPlayerId : Nat) (currentLockStepTurn confirmedLockStepTurn : Int)
  | nextTurn

namespace LockStep

variable {Cmd : Type*}

/-- `LockStep:PreGameStart` for `N` players. -/
def preGameStart (N : Nat) : LockStep Cmd where
  lockStepTurnId := firstLockStepTurnID
  pendingCommnads := .initializeWith N
  confirmedCommands := .initializeWith N

/-- `LockStep:NextTurn`: the answer and the state after it. When it does not advance it asks
`WhosNotReady` for a list and takes its length, which raises when there is no list. -/
def nextTurn (s : LockStep Cmd) : Except LuaError (Bool × LockStep Cmd) :=
  if s.confirmedCommands.readyNextTurn s.lockStepTurnId firstLockStepTurnID = true ∧
      s.pendingCommnads.readyForNextTurn s.lockStepTurnId firstLockStepTurnID = true then
    .ok (true,
      { lockStepTurnId := s.lockStepTurnId + 1
        confirmedCommands := s.confirmedCommands.nextTurn
        pendingCommnads := s.pendingCommnads.nextTurn })
  else
    match s.pendingCommnads.whosNotReady s.lockStepTurnId firstLockStepTurnID with
    | .ok (some _) => .ok (false, s)
    | .ok none => .error (.length "tbl")
    | .error e => .error e

/-- One message. A call that raises leaves the battle as it was. -/
def step (s : LockStep Cmd) : Msg Cmd → LockStep Cmd
  | .addCommand cmd p cur t =>
    match s.pendingCommnads.addCommand cmd p cur t with
    | .ok pending => { s with pendingCommnads := pending }
    | .error _ => s
  | .confirmCommand p cur t =>
    match s.confirmedCommands.confirmCommand p cur t with
    | .ok confirmed => { s with confirmedCommands := confirmed }
    | .error _ => s
  | .nextTurn =>
    match s.nextTurn with
    | .ok (_, s') => s'
    | .error _ => s

/-- The battles of `N` players as a machine. -/
def machine (Cmd : Type*) (N : Nat) : Lib.Machine (LockStep Cmd) (Msg Cmd) where
  start s := s = preGameStart N
  step s m := some (s.step m)

/-- An advance is an advance of both objects, both being ready. -/
theorem nextTurn_advance {s s' : LockStep Cmd} (h : s.nextTurn = .ok (true, s')) :
    s.confirmedCommands.readyNextTurn s.lockStepTurnId firstLockStepTurnID = true ∧
    s.pendingCommnads.readyForNextTurn s.lockStepTurnId firstLockStepTurnID = true ∧
    s' = { lockStepTurnId := s.lockStepTurnId + 1
           confirmedCommands := s.confirmedCommands.nextTurn
           pendingCommnads := s.pendingCommnads.nextTurn } := by
  unfold nextTurn at h
  split at h
  · rename_i hready
    cases h
    exact ⟨hready.1, hready.2, rfl⟩
  · split at h <;> cases h

/-- An attempt that does not advance changes nothing. -/
theorem nextTurn_stay {s s' : LockStep Cmd} (h : s.nextTurn = .ok (false, s')) : s' = s := by
  unfold nextTurn at h
  split at h
  · cases h
  · split at h <;> cases h
    rfl

/-! ## The stall after the first turn -/

/-- A battle of `N` players that has not got past the second turn id. The slot two turns away is the
number of `initialize`, and nobody's command is counted in it. -/
structure Stalled (N : Nat) (s : LockStep Cmd) : Prop where
  players : s.pendingCommnads.numberOfPlayers = N
  nextNext : s.pendingCommnads.nextNextCommands = .number
  nextNextCount : s.pendingCommnads.nextNextCommandsCount = 0
  turn : s.lockStepTurnId = firstLockStepTurnID + 1 ∨
    (s.lockStepTurnId = firstLockStepTurnID ∧
      s.pendingCommnads.nextNextNextCommands = .number ∧
      s.pendingCommnads.nextNextNextCommandsCount = 0)

theorem preGameStart_stalled (N : Nat) : Stalled N (preGameStart N : LockStep Cmd) where
  players := rfl
  nextNext := rfl
  nextNextCount := rfl
  turn := .inr ⟨rfl, rfl, rfl⟩

/-- A command never reaches a slot that is a number. -/
theorem Stalled.addCommand {N : Nat} {s : LockStep Cmd} (h : Stalled N s) {cmd : Cmd} {p : Nat}
    {cur t : Int} {pending : PendingCommnads Cmd}
    (ha : s.pendingCommnads.addCommand cmd p cur t = .ok pending) :
    Stalled N { s with pendingCommnads := pending } := by
  rcases PendingCommnads.addCommand_cases ha with ⟨slot, -, hs, rfl⟩ | ⟨slot, -, hs, rfl⟩ |
    ⟨slot, -, -, rfl⟩
  · have hslot := (Slot.add_ok_iff.mp ⟨_, hs⟩).1
    have hturn := h.turn.resolve_right fun hfirst => hslot hfirst.2.1
    exact ⟨h.players, h.nextNext, h.nextNextCount, .inl hturn⟩
  · exact absurd h.nextNext (Slot.add_ok_iff.mp ⟨_, hs⟩).1
  · exact ⟨h.players, h.nextNext, h.nextNextCount, h.turn⟩

/-- With at least one player, a stalled battle advances only from the first turn id. -/
theorem Stalled.advance_turn {N : Nat} {s s' : LockStep Cmd} (h : Stalled N s) (hN : 0 < N)
    (hn : s.nextTurn = .ok (true, s')) : s.lockStepTurnId = firstLockStepTurnID := by
  obtain ⟨-, hready, -⟩ := nextTurn_advance hn
  have hcount := h.nextNextCount
  have hplayers := h.players
  unfold PendingCommnads.readyForNextTurn at hready
  rw [if_neg (by omega)] at hready
  exact of_decide_eq_true hready

theorem Stalled.step {N : Nat} {s : LockStep Cmd} (h : Stalled N s) (hN : 0 < N) (m : Msg Cmd) :
    Stalled N (s.step m) := by
  cases m with
  | addCommand cmd p cur t =>
    simp only [LockStep.step]
    split
    · rename_i pending ha
      exact h.addCommand ha
    · exact h
  | confirmCommand p cur t =>
    simp only [LockStep.step]
    split
    · exact ⟨h.players, h.nextNext, h.nextNextCount, h.turn⟩
    · exact h
  | nextTurn =>
    simp only [LockStep.step]
    split
    · rename_i b s' hn
      cases b with
      | false => rw [nextTurn_stay hn]; exact h
      | true =>
        have hfirst := h.advance_turn hN hn
        obtain ⟨-, -, rfl⟩ := nextTurn_advance hn
        -- the slot three turns away was a number too, and it is the next one now
        have hnnn := h.turn.resolve_left (by rw [hfirst]; decide)
        exact ⟨h.players, hnnn.2.1, hnnn.2.2, .inl (by rw [hfirst])⟩
    · exact h

/-- Every run of a battle with players stays within the first two turn ids. -/
theorem reach_stalled {N : Nat} (hN : 0 < N) {s : LockStep Cmd} (h : (machine Cmd N).Reach s) :
    Stalled N s := by
  refine h.invariant (Stalled N) ?_ ?_
  · rintro s rfl
    exact preGameStart_stalled N
  · rintro s m s' - hs - hstep
    cases hstep
    exact hs.step hN m

/-- A battle with players never gets past its second turn id. -/
theorem reach_turn_le {N : Nat} (hN : 0 < N) {s : LockStep Cmd} (h : (machine Cmd N).Reach s) :
    s.lockStepTurnId ≤ firstLockStepTurnID + 1 := by
  rcases (reach_stalled hN h).turn with hturn | ⟨hturn, -, -⟩
  · exact hturn.le
  · omega

/-! ## What the counters stand for -/

/-- Every counter is the number of players that are recorded beside it. -/
structure Recorded (N : Nat) (s : LockStep Cmd) : Prop where
  pendingPlayers : s.pendingCommnads.numberOfPlayers = N
  confirmedPlayers : s.confirmedCommands.numberOfPlayers = N
  next : s.pendingCommnads.nextCommandsCount = (s.pendingCommnads.nextCommands.players N).card
  nextNext : s.pendingCommnads.nextNextCommandsCount = (s.pendingCommnads.nextNextCommands.players N).card
  nextNextNext : s.pendingCommnads.nextNextNextCommandsCount =
    (s.pendingCommnads.nextNextNextCommands.players N).card
  current : s.confirmedCommands.confirmedCurrentCount =
    (ConfirmedCommands.marked s.confirmedCommands.confirmedCurrent N).card
  prior : s.confirmedCommands.confirmedPriorCount =
    (ConfirmedCommands.marked s.confirmedCommands.confirmedPrior N).card

/-- The message is from a player of the battle, and a confirmation is the player's first one in the array
it goes to. (`AddCommand` refuses a second command itself.) -/
def First (N : Nat) (s : LockStep Cmd) : Msg Cmd → Prop
  | .addCommand _ p _ _ => p ∈ Finset.Icc 1 N
  | .confirmCommand p cur t => p ∈ Finset.Icc 1 N ∧
      (t = cur → s.confirmedCommands.confirmedCurrent p ≠ some true) ∧
      (t = cur - 1 → s.confirmedCommands.confirmedPrior p ≠ some true)
  | .nextTurn => True

instance (N : Nat) (s : LockStep Cmd) : (m : Msg Cmd) → Decidable (First N s m)
  | .addCommand _ p _ _ => inferInstanceAs (Decidable (p ∈ Finset.Icc 1 N))
  | .confirmCommand _ _ _ => inferInstanceAs (Decidable (_ ∧ _ ∧ _))
  | .nextTurn => isTrue trivial

theorem preGameStart_recorded (N : Nat) : Recorded N (preGameStart N : LockStep Cmd) where
  pendingPlayers := rfl
  confirmedPlayers := rfl
  next := by simp [preGameStart, PendingCommnads.initializeWith]
  nextNext := by simp [preGameStart, PendingCommnads.initializeWith]
  nextNextNext := by simp [preGameStart, PendingCommnads.initializeWith]
  current := by
    show 0 = (ConfirmedCommands.marked (ConfirmedCommands.arrayNew N) N).card
    rw [ConfirmedCommands.marked_arrayNew, Finset.card_empty]
  prior := by
    show 0 = (ConfirmedCommands.marked (ConfirmedCommands.arrayNew N) N).card
    rw [ConfirmedCommands.marked_arrayNew, Finset.card_empty]

namespace Recorded

variable {N : Nat} {s : LockStep Cmd}

theorem addCommand (h : Recorded N s) {cmd : Cmd} {p : Nat} {cur t : Int} (hp : p ∈ Finset.Icc 1 N)
    {pending : PendingCommnads Cmd} (ha : s.pendingCommnads.addCommand cmd p cur t = .ok pending) :
    Recorded N { s with pendingCommnads := pending } := by
  -- only the slot that takes the command changes, and its counter with it
  rcases PendingCommnads.addCommand_cases ha with ⟨slot, -, hs, rfl⟩ | ⟨slot, -, hs, rfl⟩ |
    ⟨slot, -, hs, rfl⟩
  · refine { h with nextNextNext := ?_ }
    show s.pendingCommnads.nextNextNextCommandsCount + 1 = (slot.players N).card
    rw [Slot.players_add hs hp, h.nextNextNext]
  · refine { h with nextNext := ?_ }
    show s.pendingCommnads.nextNextCommandsCount + 1 = (slot.players N).card
    rw [Slot.players_add hs hp, h.nextNext]
  · refine { h with next := ?_ }
    show s.pendingCommnads.nextCommandsCount + 1 = (slot.players N).card
    rw [Slot.players_add hs hp, h.next]

theorem confirmCommand (h : Recorded N s) {p : Nat} {cur t : Int}
    (hfirst : First N s (.confirmCommand p cur t)) {confirmed : ConfirmedCommands}
    (hc : s.confirmedCommands.confirmCommand p cur t = .ok confirmed) :
    Recorded N { s with confirmedCommands := confirmed } := by
  obtain ⟨hp, hcurrent, hprior⟩ := hfirst
  rcases ConfirmedCommands.confirmCommand_cases hc with ⟨ht, rfl⟩ | ⟨ht, rfl⟩
  · refine { h with current := ?_ }
    show s.confirmedCommands.confirmedCurrentCount + 1 = _
    rw [ConfirmedCommands.card_marked_update hp (hcurrent ht), h.current]
  · refine { h with prior := ?_ }
    show s.confirmedCommands.confirmedPriorCount + 1 = _
    rw [ConfirmedCommands.card_marked_update hp (hprior ht), h.prior]

/-- An advance moves the counters along with what they count. -/
theorem nextTurn (h : Recorded N s) : Recorded N
    { lockStepTurnId := s.lockStepTurnId + 1
      confirmedCommands := s.confirmedCommands.nextTurn
      pendingCommnads := s.pendingCommnads.nextTurn } where
  pendingPlayers := h.pendingPlayers
  confirmedPlayers := h.confirmedPlayers
  next := h.nextNext
  nextNext := h.nextNextNext
  nextNextNext := by
    show 0 = ((Slot.newComands s.pendingCommnads.numberOfPlayers : Slot Cmd).players N).card
    rw [Slot.players_newComands, Finset.card_empty]
  current := by
    show 0 = (ConfirmedCommands.marked (ConfirmedCommands.resetArray _) N).card
    rw [ConfirmedCommands.marked_resetArray, Finset.card_empty]
  prior := h.current

theorem step (h : Recorded N s) {m : Msg Cmd} (hfirst : First N s m) : Recorded N (s.step m) := by
  cases m with
  | addCommand cmd p cur t =>
    simp only [LockStep.step]
    split
    · rename_i pending ha
      exact h.addCommand hfirst ha
    · exact h
  | confirmCommand p cur t =>
    simp only [LockStep.step]
    split
    · rename_i confirmed hc
      exact h.confirmCommand hfirst hc
    · exact h
  | nextTurn =>
    simp only [LockStep.step]
    split
    · rename_i b s' hn
      cases b with
      | false => rw [nextTurn_stay hn]; exact h
      | true =>
        obtain ⟨-, -, rfl⟩ := nextTurn_advance hn
        exact h.nextTurn
    · exact h

end Recorded

/-! ## Lockstep safety -/

/-- What an advance relies on: every player's own command in the slot two turns away and, from the
third turn id on, in the slot that becomes current next, and every player's confirmation in the
array whose counter was tested. The command at a player's index is the player's own, `AddCommand`
writes no other index. -/
structure SafeAdvance (N : Nat) (s : LockStep Cmd) : Prop where
  nextNext : ∀ p ∈ Finset.Icc 1 N, ∃ cmd, s.pendingCommnads.nextNextCommands.cell p = .command cmd
  next : firstLockStepTurnID + 2 ≤ s.lockStepTurnId →
    ∀ p ∈ Finset.Icc 1 N, ∃ cmd, s.pendingCommnads.nextCommands.cell p = .command cmd
  confirmed : ∀ p ∈ Finset.Icc 1 N, s.confirmedCommands.Confirmed p

/-- Nobody stands in for a silent player: an advance from a turn other than the first is safe, and
`ReadyNextTurn` says yes at such a turn only when every player has confirmed. -/
structure Safe (N : Nat) (s : LockStep Cmd) : Prop where
  advance : s.lockStepTurnId ≠ firstLockStepTurnID → ∀ s', s.nextTurn = .ok (true, s') → SafeAdvance N s
  ready : s.lockStepTurnId ≠ firstLockStepTurnID →
    s.confirmedCommands.readyNextTurn s.lockStepTurnId firstLockStepTurnID = true →
      ∀ p ∈ Finset.Icc 1 N, s.confirmedCommands.Confirmed p

/-- Counters that stand for players are enough. -/
theorem Recorded.safe {N : Nat} {s : LockStep Cmd} (h : Recorded N s) : Safe N s := by
  have hready : s.lockStepTurnId ≠ firstLockStepTurnID →
      s.confirmedCommands.readyNextTurn s.lockStepTurnId firstLockStepTurnID = true →
        ∀ p ∈ Finset.Icc 1 N, s.confirmedCommands.Confirmed p := by
    intro hturn hyes
    have hcount := ConfirmedCommands.count_of_readyNextTurn hturn hyes
    rw [h.current, h.confirmedPlayers] at hcount
    exact ConfirmedCommands.all_marked hcount
  refine ⟨fun hturn s' hn => ?_, hready⟩
  obtain ⟨hconfirmed, hpending, -⟩ := nextTurn_advance hn
  obtain ⟨hnextNext, hnext⟩ := PendingCommnads.counts_of_readyForNextTurn hturn hpending
  rw [h.nextNext, h.pendingPlayers] at hnextNext
  refine ⟨Slot.all_players hnextNext, fun hthird => ?_, hready hturn hconfirmed⟩
  have hcount := hnext.resolve_left (by omega)
  rw [h.next, h.pendingPlayers] at hcount
  exact Slot.all_players hcount

/-- The battles that begin in any state whose counters stand for players. -/
def machineFrom (Cmd : Type*) (N : Nat) : Lib.Machine (LockStep Cmd) (Msg Cmd) where
  start s := Recorded N s
  step s m := some (s.step m)

/-- A battle of two players with a table in every slot, at the second turn id. -/
def secondTurn : LockStep String :=
  { (preGameStart 2 : LockStep String) with
    lockStepTurnId := 1
    pendingCommnads := { (.initializeWith 2 : PendingCommnads String) with
      nextNextCommands := .newComands 2
      nextNextNextCommands := .newComands 2 } }

theorem secondTurn_recorded : Recorded 2 secondTurn where
  pendingPlayers := rfl
  confirmedPlayers := rfl
  next := by decide
  nextNext := by decide
  nextNextNext := by decide
  current := by decide
  prior := by decide

/-- What both players send in their second turn. -/
def bothPlayers : List (Msg String) :=
  [.addCommand "a" 1 1 1, .confirmCommand 2 1 1, .addCommand "b" 2 1 1, .confirmCommand 1 1 1]

/-- With a table in every slot the same confirmations make the battle advance without the second
player's. -/
theorem advances_unconfirmed : ∃ s s' : LockStep String,
    (machineFrom String 2).Reach s ∧ s.nextTurn = .ok (true, s') ∧ ¬ s.confirmedCommands.Confirmed 2 := by
  have hrun : (machineFrom String 2).exec secondTurn [.addCommand "a" 1 1 1, .addCommand "b" 2 1 1,
      .confirmCommand 1 1 1, .confirmCommand 1 1 1] = some _ := rfl
  refine ⟨_, _, Lib.Machine.Reach.exec (.start secondTurn_recorded) hrun, rfl, ?_⟩
  unfold ConfirmedCommands.Confirmed
  decide

end LockStep

end AntServer.Battle
