/-
# AntServer.Battle.RollingAverage — the averages a lockstep battle keeps of its players

The class `RollingAverage` of `service/battle/lockstep/core/rolling_average.lua`: one average per
player, which rises at once to a larger sample and falls by a tenth of the distance to a smaller one.
The numbers are exact rationals. A player outside of the arrays makes the comparison in `Add` raise.
-/
import AntServer.Lua
import AntServer.LuaString
import Mathlib.Data.Rat.Floor
import Mathlib.Tactic.Linarith

namespace AntServer.Battle

/-- The object: the last sample and the average of every player. -/
structure RollingAverage where
  currentValues : List ℚ
  playerAverages : List ℚ
  deriving DecidableEq, Repr

namespace RollingAverage

/-- What `RollingAverage:initialize` makes of a number of players and a value. -/
def initializeWith (numberOfPlayers : Nat) (initValue : ℚ) : RollingAverage where
  currentValues := List.replicate numberOfPlayers initValue
  playerAverages := List.replicate numberOfPlayers initValue

/-- The fields that `RollingAverage:initialize` reads of its argument. -/
structure Settings where
  numberOfPlayers : Option Nat
  initValue : Option ℚ

/-- What `initialize` receives when the constructor is called as `require(..):new(data)` and `class.lua`
declares `cls.new(...)`: the class table, in which neither field is set. -/
def colonNew (_data : Settings) : Settings := ⟨none, none⟩

/-- `RollingAverage:initialize`. Without a number of players the loop of `array_new` has no limit. A value
`nil` leaves nothing in the arrays. -/
def initializeFrom (data : Settings) : Except LuaError RollingAverage :=
  match data.numberOfPlayers with
  | none => .error (.raised "'for' limit must be a number")
  | some numberOfPlayers => .ok (data.initValue.elim ⟨[], []⟩ (initializeWith numberOfPlayers))

/-- `RollingAverage:Add`. -/
def add (self : RollingAverage) (newValue : ℚ) (playerId : Nat) : Except LuaError RollingAverage :=
  match luaIndex self.playerAverages playerId with
  | none => .error (.raised "attempt to compare nil with number")
  | some average =>
    let average' := if newValue > average then newValue else (average * 9 + newValue * 1) / 10
    .ok
      { currentValues := self.currentValues.set (playerId - 1) newValue
        playerAverages := self.playerAverages.set (playerId - 1) average' }

/-- `RollingAverage:GetMax`. -/
def getMax (self : RollingAverage) : ℚ :=
  self.playerAverages.foldl (fun max average => if average > max then average else max) 0

/-- The loop of `GetMax` from any start ends at or above the start and every element. -/
theorem foldl_max (l : List ℚ) (m : ℚ) :
    m ≤ l.foldl (fun max average => if average > max then average else max) m ∧
      ∀ a ∈ l, a ≤ l.foldl (fun max average => if average > max then average else max) m := by
  induction l generalizing m with
  | nil => simp
  | cons x xs ih =>
    simp only [List.foldl_cons, List.mem_cons, forall_eq_or_imp]
    obtain ⟨hm, hxs⟩ := ih (if x > m then x else m)
    refine ⟨le_trans ?_ hm, le_trans ?_ hm, hxs⟩
    · split <;> linarith
    · split <;> linarith

theorem getMax_nonneg (self : RollingAverage) : 0 ≤ self.getMax := (foldl_max _ 0).1

/-- No average is above the maximum. -/
theorem le_getMax (self : RollingAverage) {a : ℚ} (h : a ∈ self.playerAverages) : a ≤ self.getMax :=
  (foldl_max _ 0).2 a h

end RollingAverage

end AntServer.Battle
