/-
# AntServer.Battle.FrameRate — the lengths of a game frame and of a lockstep turn

`LockStep:UpdateGameFrameRate` of `service/battle/lockstep/lockstep.lua` over exact rationals, its
`GetMax` calls read as method calls. The steps are those of an integer division: the number of frames in
a turn, one more unit for a frame when there is a remainder, and the turn made of whole frames again. But
`/` does not round, so the number of frames is a fraction whenever there is a remainder, and the last line
replaces it by the number of frames in a second, whatever the turn lasts (`updateGameFrameRate_product`).

So the fields fit together only where a turn lasts a second (`wholeFrames_iff`).
-/
import AntServer.Battle.RollingAverage
import Mathlib.Tactic.FieldSimp

namespace AntServer.Battle

/-! ## The computation -/

/-- The fields that `UpdateGameFrameRate` writes. -/
structure FrameRate where
  lockStepTurnLength : ℚ
  gameFrameTurnLength : ℚ
  gameFramesPerLockstepTurn : ℚ
  lockStepPerSecond : ℚ
  deriving DecidableEq, Repr

/-- `a / b`, `none` for a division by zero. -/
def luaDiv (a b : ℚ) : Option ℚ := if b = 0 then none else some (a / b)

/-- `a % b`, `none` for a division by zero. -/
def luaMod (a b : ℚ) : Option ℚ := if b = 0 then none else some (a - b * ⌊a / b⌋)

/-- `LockStep:UpdateGameFrameRate`, `none` when it divides by zero. -/
def updateGameFrameRate (networkAverage runtimeAverage : RollingAverage) : Option FrameRate := do
  let lockStepTurnLength := networkAverage.getMax * 2 + 1
  let gameFrameTurnLength := runtimeAverage.getMax
  let lockStepTurnLength :=
    if gameFrameTurnLength > lockStepTurnLength then gameFrameTurnLength else lockStepTurnLength
  let gameFramesPerLockstepTurn ← luaDiv lockStepTurnLength gameFrameTurnLength
  let remainder ← luaMod lockStepTurnLength gameFrameTurnLength
  let (gameFrameTurnLength, lockStepTurnLength) :=
    if remainder > 0 then
      (gameFrameTurnLength + 1, gameFramesPerLockstepTurn * (gameFrameTurnLength + 1))
    else (gameFrameTurnLength, lockStepTurnLength)
  let lockStepPerSecond ← luaDiv 1000 lockStepTurnLength
  let lockStepPerSecond := if lockStepPerSecond = 0 then 1 else lockStepPerSecond
  return {
    lockStepTurnLength := lockStepTurnLength
    gameFrameTurnLength := gameFrameTurnLength
    gameFramesPerLockstepTurn := lockStepPerSecond * gameFramesPerLockstepTurn
    lockStepPerSecond := lockStepPerSecond }

/-! ## Its cases -/

/-- The turn before the correction for a remainder: at least as long as one game frame. -/
def turnLength (networkAverage runtimeAverage : RollingAverage) : ℚ :=
  max (networkAverage.getMax * 2 + 1) runtimeAverage.getMax

theorem turnLength_pos (n r : RollingAverage) : 0 < turnLength n r := by
  have := n.getMax_nonneg
  exact lt_of_lt_of_le (by linarith) (le_max_left _ _)

/-- A division leaves no remainder exactly when its quotient is whole. -/
theorem luaMod_eq_zero {a b : ℚ} (hb : b ≠ 0) :
    luaMod a b = some 0 ↔ ∃ k : ℤ, a / b = k := by
  unfold luaMod
  rw [if_neg hb, Option.some.injEq, sub_eq_zero]
  constructor
  · intro h
    exact ⟨⌊a / b⌋, by rw [div_eq_iff hb, mul_comm]; exact h⟩
  · rintro ⟨k, hk⟩
    rw [hk, Int.floor_intCast, ← hk]
    field_simp

/-- The remainder is not negative when the divisor is positive. -/
theorem luaMod_nonneg {a b m : ℚ} (hb : 0 < b) (h : luaMod a b = some m) : 0 ≤ m := by
  unfold luaMod at h
  rw [if_neg hb.ne'] at h
  have hfloor : (⌊a / b⌋ : ℚ) ≤ a / b := Int.floor_le _
  rw [le_div_iff₀ hb] at hfloor
  have := Option.some.inj h
  linarith

/-- The two ways through `UpdateGameFrameRate`, with the turn `t` and the frame `r` it starts from: the
frame divides the turn, or both are longer in the end. -/
inductive RateCase (t r : ℚ) (f : FrameRate) : Prop
  | whole (hw : ∃ k : ℤ, t / r = k) :
      f = ⟨t, r, 1000 / t * (t / r), 1000 / t⟩ → RateCase t r f
  | corrected (hw : ¬ ∃ k : ℤ, t / r = k) :
      f = ⟨t / r * (r + 1), r + 1, 1000 / (t / r * (r + 1)) * (t / r), 1000 / (t / r * (r + 1))⟩ →
      RateCase t r f

/-- Without a slowest frame it divides by zero. -/
theorem updateGameFrameRate_none {n r : RollingAverage} (h : r.getMax = 0) :
    updateGameFrameRate n r = none := by
  simp [updateGameFrameRate, luaDiv, h]

/-- With one there is no division by zero, and one of the two cases. -/
theorem updateGameFrameRate_some {n r : RollingAverage} (hpos : 0 < r.getMax) :
    ∃ f, updateGameFrameRate n r = some f ∧ RateCase (turnLength n r) r.getMax f := by
  have ht := turnLength_pos n r
  have hturn : (if r.getMax > n.getMax * 2 + 1 then r.getMax else n.getMax * 2 + 1) = turnLength n r := by
    unfold turnLength
    split
    · rw [max_eq_right (by linarith)]
    · rw [max_eq_left (by linarith)]
  obtain ⟨m, hm⟩ : ∃ m, luaMod (turnLength n r) r.getMax = some m := ⟨_, if_neg hpos.ne'⟩
  have hdiv : luaDiv (turnLength n r) r.getMax = some (turnLength n r / r.getMax) := if_neg hpos.ne'
  simp only [updateGameFrameRate, hturn, Option.bind_eq_bind, Option.pure_def, hdiv, hm, Option.bind_some]
  by_cases hm0 : m > 0
  · have hlen : 0 < turnLength n r / r.getMax * (r.getMax + 1) := by positivity
    have hper : 1000 / (turnLength n r / r.getMax * (r.getMax + 1)) ≠ 0 := by positivity
    simp only [if_pos hm0, luaDiv, if_neg hlen.ne', Option.bind_some, if_neg hper, Option.some.injEq,
      exists_eq_left']
    refine .corrected (fun hw => ?_) rfl
    rw [(luaMod_eq_zero hpos.ne').mpr hw] at hm
    cases hm
    exact lt_irrefl _ hm0
  · have hzero : m = 0 := le_antisymm (not_lt.mp hm0) (luaMod_nonneg hpos hm)
    have hper : 1000 / turnLength n r ≠ 0 := by positivity
    simp only [if_neg hm0, luaDiv, if_neg ht.ne', Option.bind_some, if_neg hper, Option.some.injEq,
      exists_eq_left']
    exact .whole ((luaMod_eq_zero hpos.ne').mp (hzero ▸ hm)) rfl

/-- Everything `UpdateGameFrameRate` can have done. -/
theorem updateGameFrameRate_cases {n r : RollingAverage} {f : FrameRate}
    (h : updateGameFrameRate n r = some f) : 0 < r.getMax ∧ RateCase (turnLength n r) r.getMax f := by
  rcases r.getMax_nonneg.lt_or_eq with hpos | hzero
  · obtain ⟨f', hf', hcase⟩ := updateGameFrameRate_some (n := n) hpos
    rw [h] at hf'
    exact ⟨hpos, Option.some.inj hf' ▸ hcase⟩
  · rw [updateGameFrameRate_none hzero.symm] at h
    cases h

/-- The frames of a turn and the length of a frame always make up one second. -/
theorem updateGameFrameRate_product {n r : RollingAverage} {f : FrameRate}
    (h : updateGameFrameRate n r = some f) :
    f.gameFramesPerLockstepTurn * f.gameFrameTurnLength = 1000 := by
  have ht := turnLength_pos n r
  obtain ⟨hr, hcase⟩ := updateGameFrameRate_cases h
  rcases hcase with ⟨-, rfl⟩ | ⟨-, rfl⟩
  · show 1000 / turnLength n r * (turnLength n r / r.getMax) * r.getMax = 1000
    field_simp
  · show 1000 / (turnLength n r / r.getMax * (r.getMax + 1)) * (turnLength n r / r.getMax) *
      (r.getMax + 1) = 1000
    have : r.getMax + 1 ≠ 0 := by linarith
    field_simp

/-! ## Whole numbers of frames -/

/-- What the fields are for: a turn of a positive whole number of game frames, each at least as long as
the slowest player needs. -/
structure WholeFrames (r : RollingAverage) (f : FrameRate) : Prop where
  whole : ∃ k : ℕ, 0 < k ∧ f.gameFramesPerLockstepTurn = k
  slowest : ∀ a ∈ r.playerAverages, a ≤ f.gameFrameTurnLength
  oneFrame : f.gameFrameTurnLength ≤ f.lockStepTurnLength
  product : f.gameFramesPerLockstepTurn * f.gameFrameTurnLength = f.lockStepTurnLength

/-- The fields come out right exactly when the turn lasts a second before any correction and the slowest
frame divides it. -/
theorem wholeFrames_iff (networkAverage runtimeAverage : RollingAverage) :
    (∃ f, updateGameFrameRate networkAverage runtimeAverage = some f ∧ WholeFrames runtimeAverage f) ↔
      max (networkAverage.getMax * 2 + 1) runtimeAverage.getMax = 1000 ∧
        ∃ k : ℕ, k * runtimeAverage.getMax = 1000 := by
  show _ ↔ turnLength networkAverage runtimeAverage = 1000 ∧ _
  constructor
  · rintro ⟨f, hf, hwhole⟩
    have hproduct := updateGameFrameRate_product hf
    obtain ⟨hr, hcase⟩ := updateGameFrameRate_cases hf
    have hlen : f.lockStepTurnLength = 1000 := hwhole.product.symm.trans hproduct
    obtain ⟨k, -, hk⟩ := hwhole.whole
    rcases hcase with ⟨-, rfl⟩ | ⟨hw, rfl⟩
    · exact ⟨hlen, k, by rw [← hk]; exact hproduct⟩
    · -- a corrected turn of a second has the number of frames it was corrected for, a fraction
      have hlen : turnLength networkAverage runtimeAverage / runtimeAverage.getMax *
        (runtimeAverage.getMax + 1) = 1000 := hlen
      refine absurd ⟨k, ?_⟩ hw
      have hk : 1000 / (turnLength networkAverage runtimeAverage / runtimeAverage.getMax *
        (runtimeAverage.getMax + 1)) * (turnLength networkAverage runtimeAverage /
          runtimeAverage.getMax) = k := hk
      rw [hlen, div_self (by norm_num), one_mul] at hk
      rw [hk, Int.cast_natCast]
  · rintro ⟨ht, k, hk⟩
    have hr : runtimeAverage.getMax ≠ 0 := fun h0 => by simp [h0] at hk
    have hpos : 0 < runtimeAverage.getMax := lt_of_le_of_ne runtimeAverage.getMax_nonneg (Ne.symm hr)
    have hquot : turnLength networkAverage runtimeAverage / runtimeAverage.getMax = k := by
      rw [ht, div_eq_iff hr, hk]
    obtain ⟨f, hf, hcase⟩ := updateGameFrameRate_some (n := networkAverage) hpos
    have hproduct := updateGameFrameRate_product hf
    rcases hcase with ⟨-, rfl⟩ | ⟨hw, -⟩
    · refine ⟨_, hf, ⟨k, ?_, ?_⟩, fun a ha => runtimeAverage.le_getMax ha, le_max_right _ _,
        hproduct.trans ht.symm⟩
      · rcases Nat.eq_zero_or_pos k with rfl | hk0
        · simp at hk
        · exact hk0
      · show 1000 / _ * (_ / _) = (k : ℚ)
        rw [hquot, ht, div_self (by norm_num), one_mul]
    · exact absurd ⟨k, by rw [hquot, Int.cast_natCast]⟩ hw

/-- A battle of two players with the averages `LockStep` starts from. -/
theorem not_wholeFrames_initial :
    ¬ ∀ networkAverage runtimeAverage : RollingAverage,
      (∀ a ∈ networkAverage.playerAverages, 0 < a) → (∀ a ∈ runtimeAverage.playerAverages, 0 < a) →
      ∃ f, updateGameFrameRate networkAverage runtimeAverage = some f ∧ WholeFrames runtimeAverage f := by
  intro h
  obtain ⟨f, hf, hwhole⟩ := h (.initializeWith 2 200) (.initializeWith 2 50) (by decide +kernel)
    (by decide +kernel)
  have hproduct := hwhole.product.symm.trans (updateGameFrameRate_product hf)
  have hlen : (updateGameFrameRate (.initializeWith 2 200) (.initializeWith 2 50)).map
      FrameRate.lockStepTurnLength ≠ some 1000 := by
    decide +kernel
  exact hlen (by rw [hf, Option.map_some, hproduct])

end AntServer.Battle
