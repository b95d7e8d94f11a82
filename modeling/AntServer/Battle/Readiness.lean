/-
# AntServer.Battle.Readiness — whom a battle says it is waiting for

`WhosNotReady` and `WhosNotConfirmed` repeat the decisions of `ReadyForNextTurn` and `ReadyNextTurn`, to
say who is missing when the answer of those is no. They never do: `DoWhosNotReady` reads a field the
object does not have, and `DoWhosNotConfirmed` has no `return` for its list. So the explanation is right
exactly when there is nobody to name. `WhosNotReady` is not even that at the first turn id: with the slot
two turns away full it goes on to the next slot, which `ReadyForNextTurn` does not ask for then.
-/
import AntServer.Battle.LockStep

namespace AntServer.Battle

/-! ## An explanation -/

/-- What an explanation is to be: nothing exactly when the turn is ready, and else the ids of those who
are missing, each once. -/
structure Explains (ready : Bool) (answer : Except LuaError (Option (List Nat))) (missing : Finset Nat) :
    Prop where
  nothing : answer = .ok none ↔ ready = true
  ids : ready = false → ∃ ids : List Nat, answer = .ok (some ids) ∧ ids.Nodup ∧ ids.toFinset = missing

/-- An answer that never has a list explains a turn that is ready only. -/
theorem explains_iff_of_no_list {ready : Bool} {answer : Except LuaError (Option (List Nat))}
    {missing : Finset Nat} (hlist : ∀ ids, answer ≠ .ok (some ids)) :
    Explains ready answer missing ↔ ready = true ∧ answer = .ok none := by
  constructor
  · intro h
    cases ready with
    | true => exact ⟨rfl, h.nothing.mpr rfl⟩
    | false =>
      obtain ⟨ids, hids, -⟩ := h.ids rfl
      exact absurd hids (hlist ids)
  · rintro ⟨rfl, hnone⟩
    exact ⟨iff_of_true hnone rfl, fun h => by cases h⟩

namespace PendingCommnads

/-! ## Commands -/

variable {Cmd : Type*} (s : PendingCommnads Cmd) (lockStepTurnId firstLockStepTurnID : Int)

/-- The slot that blocks the turn: the one two turns away, or the next one when that is full. -/
def blocking : Slot Cmd :=
  if s.nextNextCommandsCount = s.numberOfPlayers then s.nextCommands else s.nextNextCommands

/-- The players without a command in that slot. -/
def missing : Finset Nat := Finset.Icc 1 s.numberOfPlayers \ s.blocking.players s.numberOfPlayers

theorem doWhosNotReady_ne (count : Nat) (ids : List Nat) : s.doWhosNotReady count ≠ .ok (some ids) := by
  unfold doWhosNotReady
  split <;> simp

theorem whosNotReady_ne (ids : List Nat) :
    s.whosNotReady lockStepTurnId firstLockStepTurnID ≠ .ok (some ids) := by
  unfold whosNotReady
  split
  · split
    · simp
    · split
      · simp
      · exact s.doWhosNotReady_ne _ ids
  · split
    · simp
    · exact s.doWhosNotReady_ne _ ids

/-- The counters have nobody to wait for: the slots that are asked for are full, or it is the first turn
and the slot two turns away is not full, or the next one holds more commands than there are players. -/
def NobodyMissing : Prop :=
  s.nextNextCommandsCount = s.numberOfPlayers ∧
      (lockStepTurnId = firstLockStepTurnID + 1 ∨ s.nextCommandsCount = s.numberOfPlayers) ∨
    lockStepTurnId = firstLockStepTurnID ∧
      (s.nextNextCommandsCount ≠ s.numberOfPlayers ∨ s.numberOfPlayers < s.nextCommandsCount)

theorem explains_iff :
    Explains (s.readyForNextTurn lockStepTurnId firstLockStepTurnID)
        (s.whosNotReady lockStepTurnId firstLockStepTurnID) s.missing ↔
      s.NobodyMissing lockStepTurnId firstLockStepTurnID := by
  rw [explains_iff_of_no_list (s.whosNotReady_ne lockStepTurnId firstLockStepTurnID)]
  unfold readyForNextTurn whosNotReady doWhosNotReady NobodyMissing
  by_cases hnn : s.nextNextCommandsCount = s.numberOfPlayers
  · by_cases hsecond : lockStepTurnId = firstLockStepTurnID + 1
    · simp [hnn, hsecond]
    · by_cases hn : s.nextCommandsCount = s.numberOfPlayers
      · simp [hnn, hn]
      · -- the first turn is ready whatever the next slot holds, but that slot is asked about
        by_cases hlt : s.nextCommandsCount < s.numberOfPlayers
        · simp [hnn, hsecond, hn, hlt, hlt.le]
        · have hgt : s.numberOfPlayers < s.nextCommandsCount := by omega
          simp [hnn, hsecond, hn, hlt, hgt]
  · by_cases hfirst : lockStepTurnId = firstLockStepTurnID
    · simp [hnn, hfirst]
    · simp [hnn, hfirst]

end PendingCommnads

namespace ConfirmedCommands

/-! ## Confirmations -/

variable (s : ConfirmedCommands) (lockStepTurnId firstLockStepTurnID : Int)

/-- The players without a confirmation in the array that `ReadyNextTurn` counts. -/
def missing : Finset Nat :=
  (Finset.Icc 1 s.numberOfPlayers).filter fun p => s.confirmedCurrent p ≠ some true

theorem doWhosNotConfirmed_eq (confirmed : Nat → Option Bool) (count : Nat) :
    s.doWhosNotConfirmed confirmed count = none := by
  unfold doWhosNotConfirmed
  split <;> rfl

theorem whosNotConfirmed_eq : s.whosNotConfirmed lockStepTurnId firstLockStepTurnID = none := by
  unfold whosNotConfirmed
  simp only [doWhosNotConfirmed_eq, ite_self]

theorem explains_iff :
    Explains (s.readyNextTurn lockStepTurnId firstLockStepTurnID)
        (.ok (s.whosNotConfirmed lockStepTurnId firstLockStepTurnID)) s.missing ↔
      s.confirmedCurrentCount = s.numberOfPlayers ∨ lockStepTurnId = firstLockStepTurnID := by
  rw [whosNotConfirmed_eq, explains_iff_of_no_list (fun ids h => by cases h)]
  unfold readyNextTurn
  by_cases hcount : s.confirmedCurrentCount = s.numberOfPlayers
  · simp [hcount]
  · by_cases hsecond : lockStepTurnId = firstLockStepTurnID + 1
    · simp [hcount, hsecond]
    · simp [hcount, hsecond]

end ConfirmedCommands

/-! ## Both -/

/-- In every state of the two objects and at every turn id, both explanations are right exactly when the
counters of both have nobody to wait for. -/
theorem explanations_iff {Cmd : Type*} (pending : PendingCommnads Cmd) (confirmed : ConfirmedCommands)
    (lockStepTurnId firstLockStepTurnID : Int) :
    (Explains (pending.readyForNextTurn lockStepTurnId firstLockStepTurnID)
          (pending.whosNotReady lockStepTurnId firstLockStepTurnID) pending.missing ∧
        Explains (confirmed.readyNextTurn lockStepTurnId firstLockStepTurnID)
          (.ok (confirmed.whosNotConfirmed lockStepTurnId firstLockStepTurnID)) confirmed.missing) ↔
      pending.NobodyMissing lockStepTurnId firstLockStepTurnID ∧
        (confirmed.confirmedCurrentCount = confirmed.numberOfPlayers ∨
          lockStepTurnId = firstLockStepTurnID) :=
  and_congr (pending.explains_iff lockStepTurnId firstLockStepTurnID)
    (confirmed.explains_iff lockStepTurnId firstLockStepTurnID)

/-- Two players after the first turn: nobody has sent a command, and `WhosNotReady` raises. -/
theorem not_explains : ¬ ∀ (N : Nat) (s : LockStep String), (LockStep.machine String N).Reach s →
    Explains (s.pendingCommnads.readyForNextTurn s.lockStepTurnId firstLockStepTurnID)
        (s.pendingCommnads.whosNotReady s.lockStepTurnId firstLockStepTurnID) s.pendingCommnads.missing ∧
      Explains (s.confirmedCommands.readyNextTurn s.lockStepTurnId firstLockStepTurnID)
        (.ok (s.confirmedCommands.whosNotConfirmed s.lockStepTurnId firstLockStepTurnID))
        s.confirmedCommands.missing := by
  intro hall
  have hrun : (LockStep.machine String 2).exec (.preGameStart 2) [.nextTurn] =
      some ((LockStep.preGameStart 2).step .nextTurn) := rfl
  obtain ⟨ids, hids, -⟩ := (hall 2 _ (Lib.Machine.Reach.exec (.start rfl) hrun)).1.ids rfl
  cases hids

end AntServer.Battle
