/-
# AntServer.Battle.ConfirmedCommands — the confirmations of a lockstep turn

The class `ConfirmedCommands` of `service/battle/lockstep/core/confirmed_commands.lua`: two arrays of
`FALSE`/`TRUE` marks, one for the commands of the current turn and one for those of the prior turn,
each with a counter. The stop watches (`_currentSw`, `_priorSw`) are written only, no decision reads
them, and they are left out.
-/
import AntServer.Lua
import Mathlib.Data.Finset.Card
import Mathlib.Order.Interval.Finset.Nat

namespace AntServer.Battle

/-! ## The object -/

/-- The object. A mark is `some true` for `TRUE`, `some false` for `FALSE`, `none` for an index the
array does not have. -/
structure ConfirmedCommands where
  numberOfPlayers : Nat
  confirmedCurrent : Nat → Option Bool
  confirmedPrior : Nat → Option Bool
  confirmedCurrentCount : Nat
  confirmedPriorCount : Nat

namespace ConfirmedCommands

/-- `array_new(len, constant.FALSE)`. -/
def arrayNew (len : Nat) : Nat → Option Bool := fun i => if 1 ≤ i ∧ i ≤ len then some false else none

/-- `ConfirmedCommands:initialize`, with `constant.NumberOfPlayers = N`. -/
def initializeWith (N : Nat) : ConfirmedCommands where
  numberOfPlayers := N
  confirmedCurrent := arrayNew N
  confirmedPrior := arrayNew N
  confirmedCurrentCount := 0
  confirmedPriorCount := 0

/-- `ConfirmedCommands:ResetArray`: every mark of the array becomes `FALSE`. -/
def resetArray (arr : Nat → Option Bool) : Nat → Option Bool := fun i => (arr i).map fun _ => false

/-- `ConfirmedCommands:NextTurn`: the current marks become the prior ones, and a cleared array the
current one. -/
def nextTurn (s : ConfirmedCommands) : ConfirmedCommands where
  numberOfPlayers := s.numberOfPlayers
  confirmedPrior := s.confirmedCurrent
  confirmedPriorCount := s.confirmedCurrentCount
  confirmedCurrent := resetArray s.confirmedPrior
  confirmedCurrentCount := 0

/-- `ConfirmedCommands:ConfirmCommand`. The counter grows with every message, also with a repeated
one; a turn that is neither the current nor the prior one raises in the text of the log call. -/
def confirmCommand (s : ConfirmedCommands) (confirmingPlayerId : Nat)
    (currentLockStepTurn confirmedCommandLockStepTurn : Int) : Except LuaError ConfirmedCommands :=
  if confirmedCommandLockStepTurn = currentLockStepTurn then
    .ok { s with
      confirmedCurrent := Function.update s.confirmedCurrent confirmingPlayerId (some true)
      confirmedCurrentCount := s.confirmedCurrentCount + 1 }
  else if confirmedCommandLockStepTurn = currentLockStepTurn - 1 then
    .ok { s with
      confirmedPrior := Function.update s.confirmedPrior confirmingPlayerId (some true)
      confirmedPriorCount := s.confirmedPriorCount + 1 }
  else .error (.arith "Unexpected lockstepID Confirmed : ")

/-- `ConfirmedCommands:ReadyNextTurn`. The middle test of the source repeats the first one. -/
def readyNextTurn (s : ConfirmedCommands) (lockStepTurnId firstLockStepTurnID : Int) : Bool :=
  if s.confirmedCurrentCount = s.numberOfPlayers then true
  else if lockStepTurnId = firstLockStepTurnID + 1 then
    decide (s.confirmedCurrentCount = s.numberOfPlayers)
  else decide (lockStepTurnId = firstLockStepTurnID)

/-- `ConfirmedCommands:DoWhosNotConfirmed`. It makes the list of the players marked `FALSE` and has no
`return` for it. -/
def doWhosNotConfirmed (s : ConfirmedCommands) (confirmed : Nat → Option Bool) (confirmedCount : Nat) :
    Option (List Nat) :=
  if confirmedCount < s.numberOfPlayers then
    let _notConfirmed := (List.range' 1 s.numberOfPlayers).filter fun p => confirmed p == some false
    none
  else none

/-- `ConfirmedCommands:WhosNotConfirmed`. -/
def whosNotConfirmed (s : ConfirmedCommands) (lockStepTurnId firstLockStepTurnID : Int) :
    Option (List Nat) :=
  if s.confirmedCurrentCount = s.numberOfPlayers then none
  else if lockStepTurnId = firstLockStepTurnID + 1 then
    if s.confirmedCurrentCount = s.numberOfPlayers then none
    else s.doWhosNotConfirmed s.confirmedCurrent s.confirmedCurrentCount
  else if lockStepTurnId = firstLockStepTurnID then none
  else s.doWhosNotConfirmed s.confirmedPrior s.confirmedPriorCount

/-! ## What the counts count -/

/-- The confirmation of a player is recorded for the current turn. -/
def Confirmed (s : ConfirmedCommands) (p : Nat) : Prop := s.confirmedCurrent p = some true

/-- The players of `1..N` whose mark in an array is `TRUE`. -/
def marked (arr : Nat → Option Bool) (N : Nat) : Finset Nat :=
  (Finset.Icc 1 N).filter fun p => arr p = some true

theorem marked_arrayNew (len N : Nat) : marked (arrayNew len) N = ∅ := by
  refine Finset.filter_eq_empty_iff.mpr fun p _ => ?_
  unfold arrayNew
  split <;> simp

theorem marked_resetArray (arr : Nat → Option Bool) (N : Nat) : marked (resetArray arr) N = ∅ := by
  refine Finset.filter_eq_empty_iff.mpr fun p _ => ?_
  unfold resetArray
  cases arr p <;> simp

/-- A player whose mark was not set makes one more. -/
theorem card_marked_update {arr : Nat → Option Bool} {N p : Nat} (hp : p ∈ Finset.Icc 1 N)
    (hnew : arr p ≠ some true) :
    (marked (Function.update arr p (some true)) N).card = (marked arr N).card + 1 := by
  have hnot : p ∉ marked arr N := fun h => hnew (Finset.mem_filter.mp h).2
  have hins : marked (Function.update arr p (some true)) N = insert p (marked arr N) := by
    ext q
    by_cases hq : q = p
    · subst hq
      simpa [marked] using hp
    · simp [marked, hq]
  rw [hins, Finset.card_insert_of_notMem hnot]

/-- As many marks as there are players are the marks of all. -/
theorem all_marked {arr : Nat → Option Bool} {N : Nat} (h : (marked arr N).card = N) :
    ∀ p ∈ Finset.Icc 1 N, arr p = some true := by
  have hall : marked arr N = Finset.Icc 1 N :=
    Finset.eq_of_subset_of_card_le (Finset.filter_subset _ _) (by rw [h, Nat.card_Icc]; omega)
  intro p hp
  rw [← hall] at hp
  exact (Finset.mem_filter.mp hp).2

/-- Everything a successful `ConfirmCommand` can have done. -/
theorem confirmCommand_cases {s s' : ConfirmedCommands} {p : Nat} {cur t : Int}
    (h : s.confirmCommand p cur t = .ok s') :
    (t = cur ∧ s' = { s with
      confirmedCurrent := Function.update s.confirmedCurrent p (some true)
      confirmedCurrentCount := s.confirmedCurrentCount + 1 }) ∨
    (t = cur - 1 ∧ s' = { s with
      confirmedPrior := Function.update s.confirmedPrior p (some true)
      confirmedPriorCount := s.confirmedPriorCount + 1 }) := by
  unfold confirmCommand at h
  split at h
  · rename_i ht
    cases h
    exact .inl ⟨ht, rfl⟩
  · split at h
    · rename_i ht
      cases h
      exact .inr ⟨ht, rfl⟩
    · cases h

/-- After the first turn only the counter makes `ReadyNextTurn` say yes. -/
theorem count_of_readyNextTurn {s : ConfirmedCommands} {turn first : Int} (hturn : turn ≠ first)
    (h : s.readyNextTurn turn first = true) : s.confirmedCurrentCount = s.numberOfPlayers := by
  unfold readyNextTurn at h
  split at h
  · assumption
  · split at h
    · exact of_decide_eq_true h
    · exact absurd (of_decide_eq_true h) hturn

/-- Two messages of player 1 count for two players. -/
example : ((initializeWith 2).confirmCommand 1 1 1 >>= fun s => s.confirmCommand 1 1 1).map
    (fun s => (s.readyNextTurn 1 0, s.confirmedCurrent 2)) = .ok (true, some false) := by
  rfl

end ConfirmedCommands

end AntServer.Battle
