/-
# AntServer.Battle.AverageBounds — between which samples the averages of the players stay

A run on a `RollingAverage` is a list of calls of `Add`. The average of a player follows the samples
of that player alone: it jumps up to a larger one and gives way to a smaller one by a tenth, so that it
is never below the last sample and never leaves the range of the samples (`Bounded`). `GetMax` starts
from 0, and is the largest average as soon as one of them is not negative.
-/
import Mathlib.Data.List.Induction
import Mathlib.Order.Bounds.Basic
import AntServer.Battle.RollingAverage

namespace AntServer.Battle

namespace RollingAverage

/-! ## Runs -/

/-- A call `Add(newValue, playerId)`. One that raises has changed nothing. -/
def addCall (self : RollingAverage) (call : ℚ × Nat) : RollingAverage :=
  match self.add call.1 call.2 with
  | .ok self' => self'
  | .error _ => self

/-- The object after some calls. -/
def run (numberOfPlayers : Nat) (initValue : ℚ) (calls : List (ℚ × Nat)) : RollingAverage :=
  calls.foldl addCall (initializeWith numberOfPlayers initValue)

/-- What was added for a player, after the initial value. -/
def samples (initValue : ℚ) (calls : List (ℚ × Nat)) (playerId : Nat) : List ℚ :=
  initValue :: (calls.filter fun call => call.2 = playerId).map Prod.fst

theorem run_append (numberOfPlayers : Nat) (initValue : ℚ) (calls : List (ℚ × Nat)) (call : ℚ × Nat) :
    run numberOfPlayers initValue (calls ++ [call]) =
      (run numberOfPlayers initValue calls).addCall call := by
  unfold run
  rw [List.foldl_append]
  rfl

theorem samples_append_self (initValue : ℚ) (calls : List (ℚ × Nat)) (newValue : ℚ) (playerId : Nat) :
    samples initValue (calls ++ [(newValue, playerId)]) playerId =
      samples initValue calls playerId ++ [newValue] := by
  simp [samples]

theorem samples_append_ne (initValue : ℚ) (calls : List (ℚ × Nat)) (call : ℚ × Nat) {playerId : Nat}
    (h : playerId ≠ call.2) :
    samples initValue (calls ++ [call]) playerId = samples initValue calls playerId := by
  simp [samples, Ne.symm h]

/-! ## The average of a player -/

/-- The new average: up at once, down by a tenth. -/
def smoothed (average newValue : ℚ) : ℚ := max newValue ((average * 9 + newValue * 1) / 10)

/-- The two rules of `Add` are one maximum: a tenth of the way is below a larger sample, and above a
smaller one. -/
theorem smoothed_eq (average newValue : ℚ) : smoothed average newValue =
    if newValue > average then newValue else (average * 9 + newValue * 1) / 10 := by
  unfold smoothed
  split
  · exact max_eq_left (by linarith)
  · exact max_eq_right (by linarith)

theorem le_smoothed (average newValue : ℚ) : newValue ≤ smoothed average newValue := le_max_left ..

/-- The new average is above the old one or the sample, and below one of them. -/
theorem smoothed_between (average newValue : ℚ) :
    (average ≤ smoothed average newValue ∨ newValue ≤ smoothed average newValue) ∧
      (smoothed average newValue ≤ average ∨ smoothed average newValue ≤ newValue) := by
  refine ⟨.inr (le_smoothed ..), ?_⟩
  rw [smoothed_eq]
  split
  · exact .inr le_rfl
  · left
    linarith

/-- The average of a player is not below the last sample, and lies between two of the samples. -/
structure Bounded (current average : ℚ) (samples : List ℚ) : Prop where
  last : samples.getLast? = some current
  current_le : current ≤ average
  lower : ∃ v ∈ samples, v ≤ average
  upper : ∃ v ∈ samples, average ≤ v

theorem bounded_init (initValue : ℚ) : Bounded initValue initValue [initValue] :=
  ⟨rfl, le_rfl, ⟨initValue, by simp, le_rfl⟩, ⟨initValue, by simp, le_rfl⟩⟩

theorem Bounded.add {current average : ℚ} {samples : List ℚ} (h : Bounded current average samples)
    (newValue : ℚ) : Bounded newValue (smoothed average newValue) (samples ++ [newValue]) := by
  have hnew : newValue ∈ samples ++ [newValue] := by simp
  obtain ⟨lo, hlo, hle⟩ := h.lower
  obtain ⟨hi, hhi, hge⟩ := h.upper
  refine ⟨by simp, le_smoothed .., ?_, ?_⟩
  · exact ⟨newValue, hnew, le_smoothed ..⟩
  · -- Going down it stays below the old average, jumping up it is the sample.
    obtain hav | hav := (smoothed_between average newValue).2
    · exact ⟨hi, List.mem_append_left _ hhi, hav.trans hge⟩
    · exact ⟨newValue, hnew, hav⟩

/-! ## A call -/

variable {self self' : RollingAverage}

/-- What `Add` does: it goes through for the players of the object, and changes the two entries of one. -/
theorem add_ok {newValue : ℚ} {playerId : Nat} (h : self.add newValue playerId = .ok self') :
    ∃ average, luaIndex self.playerAverages playerId = some average ∧
      self' = { currentValues := self.currentValues.set (playerId - 1) newValue
                playerAverages :=
                  self.playerAverages.set (playerId - 1) (smoothed average newValue) } := by
  unfold RollingAverage.add at h
  split at h
  · cases h
  · rename_i average haverage
    cases h
    exact ⟨average, haverage, by rw [smoothed_eq]⟩

/-- The entries of the object for a player. -/
def Entries (self : RollingAverage) (playerId : Nat) (current average : ℚ) : Prop :=
  luaIndex self.currentValues playerId = some current ∧
    luaIndex self.playerAverages playerId = some average

theorem entries_initializeWith {numberOfPlayers : Nat} {initValue : ℚ} {playerId : Nat}
    (h : 1 ≤ playerId ∧ playerId ≤ numberOfPlayers) :
    (initializeWith numberOfPlayers initValue).Entries playerId initValue initValue := by
  have hindex : luaIndex (List.replicate numberOfPlayers initValue) playerId = some initValue := by
    unfold luaIndex
    rw [if_neg (by omega), List.getElem?_replicate, if_pos (by omega)]
  exact ⟨hindex, hindex⟩

/-- A call for a player of the object. -/
theorem Entries.addCall {playerId : Nat} {current average : ℚ}
    (h : self.Entries playerId current average) (newValue : ℚ) :
    (self.addCall (newValue, playerId)).Entries playerId newValue (smoothed average newValue) := by
  unfold RollingAverage.addCall RollingAverage.add
  rw [h.2]
  constructor
  · rw [luaIndex_set h.1, if_pos rfl]
  · rw [luaIndex_set h.2, if_pos rfl, smoothed_eq]

/-- A call leaves the entries of the other players. -/
theorem addCall_other (self : RollingAverage) (call : ℚ × Nat) {playerId : Nat}
    (h : playerId ≠ call.2) :
    luaIndex (self.addCall call).currentValues playerId = luaIndex self.currentValues playerId ∧
      luaIndex (self.addCall call).playerAverages playerId =
        luaIndex self.playerAverages playerId := by
  have hset : ∀ (l : List ℚ) (v : ℚ), 1 ≤ call.2 →
      luaIndex (l.set (call.2 - 1) v) playerId = luaIndex l playerId := by
    intro l v hcall
    unfold luaIndex
    split
    · rfl
    · exact List.getElem?_set_ne (by omega)
  unfold RollingAverage.addCall
  split
  · rename_i self' hadd
    obtain ⟨average, haverage, rfl⟩ := add_ok hadd
    have hcall := (luaIndex_eq_some haverage).1
    exact ⟨hset _ _ hcall, hset _ _ hcall⟩
  · exact ⟨rfl, rfl⟩

theorem addCall_length (self : RollingAverage) (call : ℚ × Nat) :
    (self.addCall call).currentValues.length = self.currentValues.length ∧
      (self.addCall call).playerAverages.length = self.playerAverages.length := by
  unfold RollingAverage.addCall
  split
  · rename_i self' hadd
    obtain ⟨average, -, rfl⟩ := add_ok hadd
    exact ⟨List.length_set, List.length_set⟩
  · exact ⟨rfl, rfl⟩

/-! ## Every run -/

theorem run_length (numberOfPlayers : Nat) (initValue : ℚ) (calls : List (ℚ × Nat)) :
    (run numberOfPlayers initValue calls).currentValues.length = numberOfPlayers ∧
      (run numberOfPlayers initValue calls).playerAverages.length = numberOfPlayers := by
  induction calls using List.reverseRecOn with
  | nil => exact ⟨List.length_replicate, List.length_replicate⟩
  | append_singleton calls call ih =>
    rw [run_append]
    obtain ⟨hcurrent, haverages⟩ := addCall_length (run numberOfPlayers initValue calls) call
    exact ⟨hcurrent.trans ih.1, haverages.trans ih.2⟩

/-- Every player has an average within the bounds of the samples of this player. -/
theorem run_bounded {numberOfPlayers : Nat} (initValue : ℚ) (calls : List (ℚ × Nat))
    {playerId : Nat} (h : 1 ≤ playerId ∧ playerId ≤ numberOfPlayers) :
    ∃ current average, (run numberOfPlayers initValue calls).Entries playerId current average ∧
      Bounded current average (samples initValue calls playerId) := by
  induction calls using List.reverseRecOn with
  | nil => exact ⟨initValue, initValue, entries_initializeWith h, bounded_init initValue⟩
  | append_singleton calls call ih =>
    obtain ⟨current, average, hentries, hbounded⟩ := ih
    rw [run_append]
    obtain ⟨newValue, callId⟩ := call
    by_cases hcall : playerId = callId
    · subst hcall
      rw [samples_append_self]
      exact ⟨_, _, hentries.addCall newValue, hbounded.add newValue⟩
    · rw [samples_append_ne initValue calls (newValue, callId) hcall]
      obtain ⟨hcurrent, haverages⟩ := addCall_other _ (newValue, callId) hcall
      exact ⟨current, average, ⟨hcurrent.trans hentries.1, haverages.trans hentries.2⟩, hbounded⟩

/-! ## The maximum -/

/-- The loop of `GetMax` ends at its start or at an element. -/
theorem foldl_max_mem (l : List ℚ) (m : ℚ) :
    l.foldl (fun max average => if average > max then average else max) m ∈ m :: l := by
  induction l generalizing m with
  | nil => simp
  | cons x xs ih =>
    rw [List.foldl_cons]
    obtain hstart | hmem := List.mem_cons.mp (ih (if x > m then x else m))
    · rw [hstart]
      split <;> simp
    · exact List.mem_cons_of_mem _ (List.mem_cons_of_mem _ hmem)

/-- `GetMax` is the largest average, if one of them is not negative. -/
theorem getMax_isGreatest (self : RollingAverage) {a : ℚ} (ha : a ∈ self.playerAverages) (hpos : 0 ≤ a) :
    IsGreatest {average | average ∈ self.playerAverages} self.getMax := by
  refine ⟨?_, fun average haverage => self.le_getMax haverage⟩
  obtain hzero | hmem := List.mem_cons.mp (foldl_max_mem self.playerAverages 0)
  · -- The loop has stayed at 0, so the average that is not negative is 0.
    have hmax : self.getMax = 0 := hzero
    have hale := self.le_getMax ha
    have haz : a = 0 := by linarith
    show self.getMax ∈ self.playerAverages
    rw [hmax, ← haz]
    exact ha
  · exact hmem

theorem mem_of_entries {playerId : Nat} {current average : ℚ}
    (h : self.Entries playerId current average) : average ∈ self.playerAverages :=
  mem_of_luaIndex h.2

/-- The averages of non-negative samples are not negative. -/
theorem Bounded.nonneg {current average initValue : ℚ} {calls : List (ℚ × Nat)} {playerId : Nat}
    (h : Bounded current average (samples initValue calls playerId)) (hinit : 0 ≤ initValue)
    (hcalls : ∀ call ∈ calls, 0 ≤ call.1) : 0 ≤ average := by
  obtain ⟨v, hv, hle⟩ := h.lower
  refine le_trans ?_ hle
  unfold samples at hv
  simp only [List.mem_cons, List.mem_map, List.mem_filter] at hv
  obtain rfl | ⟨call, ⟨hcall, -⟩, rfl⟩ := hv
  · exact hinit
  · exact hcalls call hcall

/-- Through any calls of `Add` the average of a player is at least the last sample of that player and
lies between the smallest and the largest one, a call changes only the entries of its player, and
`GetMax` is the largest average: no player's last sample is above it. -/
theorem average_bounds {numberOfPlayers : Nat} {initValue : ℚ} {calls : List (ℚ × Nat)}
    (hinit : 0 ≤ initValue) (hcalls : ∀ call ∈ calls, 0 ≤ call.1) :
    (∀ playerId, 1 ≤ playerId ∧ playerId ≤ numberOfPlayers → ∃ current average,
      (run numberOfPlayers initValue calls).Entries playerId current average ∧
        Bounded current average (samples initValue calls playerId)) ∧
    (∀ call playerId, playerId ≠ call.2 → ∀ current average,
      ((run numberOfPlayers initValue calls).addCall call).Entries playerId current average ↔
        (run numberOfPlayers initValue calls).Entries playerId current average) ∧
    (1 ≤ numberOfPlayers →
      IsGreatest {average | average ∈ (run numberOfPlayers initValue calls).playerAverages}
        (run numberOfPlayers initValue calls).getMax) ∧
    ∀ playerId current, luaIndex (run numberOfPlayers initValue calls).currentValues playerId =
      some current → current ≤ (run numberOfPlayers initValue calls).getMax := by
  refine ⟨fun playerId h => run_bounded initValue calls h, ?_, ?_, ?_⟩
  · intro call playerId h current average
    obtain ⟨hcurrent, haverages⟩ := addCall_other (run numberOfPlayers initValue calls) call h
    unfold Entries
    rw [hcurrent, haverages]
  · intro h
    have hfirst : 1 ≤ 1 ∧ 1 ≤ numberOfPlayers := ⟨le_rfl, h⟩
    obtain ⟨current, average, hentries, hbounded⟩ := run_bounded initValue calls hfirst
    exact getMax_isGreatest _ (mem_of_entries hentries) (hbounded.nonneg hinit hcalls)
  · intro playerId current h
    have hplayer := luaIndex_eq_some h
    rw [(run_length numberOfPlayers initValue calls).1] at hplayer
    obtain ⟨current', average, hentries, hbounded⟩ := run_bounded initValue calls hplayer
    have heq : current' = current := Option.some.inj (hentries.1.symm.trans h)
    rw [← heq]
    exact hbounded.current_le.trans (le_getMax _ (mem_of_entries hentries))

/-- Two players; the first goes up and down again, a call for a third raises. -/
theorem average_bounds_two :
    run 2 1 [(3, 1), (1, 1), (5, 3), (0, 2)] = ⟨[1, 0], [14 / 5, 9 / 10]⟩ ∧
      IsGreatest {average | average ∈ (run 2 1 [(3, 1), (1, 1), (5, 3), (0, 2)]).playerAverages}
        (run 2 1 [(3, 1), (1, 1), (5, 3), (0, 2)]).getMax :=
  ⟨by decide +kernel, (average_bounds (by decide) (by decide)).2.2.1 (by decide)⟩

end RollingAverage

end AntServer.Battle
