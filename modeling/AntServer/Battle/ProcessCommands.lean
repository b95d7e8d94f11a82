/-
# AntServer.Battle.ProcessCommands — the order in which the commands of a turn are executed

`LockStep:ProcessCommands` of `service/battle/lockstep/lockstep.lua`, its `Add` calls read as method
calls. Two loops are to make one rotation of the players: from the first player to process up to the last
one, and then from 1. The second loop runs up to the first player and not to the one before, so a turn
that completes has executed one command more than there are players (`processCommands_ok`).

And no turn completes. `PreGameStart` sets the first player to process to 0, at which the array holds
nothing, the call raises before it has changed anything, and so 0 it stays (`reach_first`).

The effects of a turn are kept in the state as a list, in their order: the commands executed and the
samples given to the averages.
-/
import AntServer.Battle.RollingAverage
import AntServer.Lib.Machine
import Mathlib.Order.Interval.Finset.Nat

namespace AntServer.Battle

/-- A command of `lockstep/command/command.lua`. Its `Execute` does nothing by itself. -/
structure Command where
  networkAverage : ℚ
  runtimeAverage : ℚ
  deriving DecidableEq, Repr

inductive Effect where
  | execute (playerId : Nat)
  | addRuntime (newValue : ℚ) (playerId : Nat)
  | addNetwork (newValue : ℚ) (playerId : Nat)
  deriving DecidableEq, Repr

/-- The fields of `LockStep` that `ProcessCommands` reads and writes, and the effects so far. -/
structure Processing where
  playerIdToProcessFirst : Nat
  networkAverage : RollingAverage
  runtimeAverage : RollingAverage
  effects : List Effect
  deriving DecidableEq, Repr

/-- A method of `LockStep`: it may raise, and what it did before stays done. -/
abbrev LockStepM := EStateM LuaError Processing

/-- `LockStep:PreGameStart` for `N` players, with the averages that it is to make of the two initial lengths
of `LockStep:initialize`. (It raises before it has made them; the first player is set by then, and from 0
`ProcessCommands` does not get as far as an average.) -/
def Processing.preGameStart (N : Nat) : Processing where
  playerIdToProcessFirst := 0
  networkAverage := .initializeWith N 200
  runtimeAverage := .initializeWith N 50
  effects := []

namespace ProcessCommands

/-- `cmd:Execute()`. -/
def execute (playerId : Nat) : LockStepM Unit :=
  modify fun s => { s with effects := s.effects ++ [.execute playerId] }

/-- `self._runtimeAverage:Add(newValue, playerId)`. -/
def addRuntime (newValue : ℚ) (playerId : Nat) : LockStepM Unit := do
  let s ← get
  match s.runtimeAverage.add newValue playerId with
  | .error e => throw e
  | .ok average =>
    set { s with
      runtimeAverage := average
      effects := s.effects ++ [Effect.addRuntime newValue playerId] }

/-- `self._networkAverage:Add(newValue, playerId)`. -/
def addNetwork (newValue : ℚ) (playerId : Nat) : LockStepM Unit := do
  let s ← get
  match s.networkAverage.add newValue playerId with
  | .error e => throw e
  | .ok average =>
    set { s with
      networkAverage := average
      effects := s.effects ++ [Effect.addNetwork newValue playerId] }

/-- The body of both loops. -/
def processPlayer (currentCommands : List Command) (idx : Nat) : LockStepM Unit :=
  match luaIndex currentCommands idx with
  | none => throw (.index "nil" "cmd")
  | some cmd => do
    execute idx
    addRuntime cmd.runtimeAverage idx
    addNetwork cmd.networkAverage idx

/-- `for idx = start, stop do .. end`. -/
def forLoop (start stop : Nat) (body : Nat → LockStepM Unit) : LockStepM Unit :=
  (List.range' start (stop + 1 - start)).forM body

/-- The last lines: the first player of the next turn. -/
def nextFirst (len first : Nat) : Nat := if first + 1 ≥ len then 1 else first + 1

/-- `LockStep:ProcessCommands`. -/
def processCommands (currentCommands : List Command) : LockStepM Unit := do
  let s ← get
  let len := currentCommands.length
  forLoop s.playerIdToProcessFirst len (processPlayer currentCommands)
  forLoop 1 s.playerIdToProcessFirst (processPlayer currentCommands)
  modify fun s => { s with playerIdToProcessFirst := nextFirst len s.playerIdToProcessFirst }

/-! ## What a turn does -/

/-- What the pass of one player is to do: one execution, and one sample for each average. -/
def effectsOf (currentCommands : List Command) (idx : Nat) : List Effect :=
  match luaIndex currentCommands idx with
  | none => []
  | some cmd => [.execute idx, .addRuntime cmd.runtimeAverage idx, .addNetwork cmd.networkAverage idx]

theorem effectsOf_length_le (currentCommands : List Command) (idx : Nat) :
    (effectsOf currentCommands idx).length ≤ 3 := by
  unfold effectsOf
  split <;> simp

/-- What holds after a completed part of a turn. -/
structure Does (effects : List Effect) (s s' : Processing) : Prop where
  first : s'.playerIdToProcessFirst = s.playerIdToProcessFirst
  effects : s'.effects = s.effects ++ effects

theorem Does.refl (s : Processing) : Does [] s s := ⟨rfl, (List.append_nil _).symm⟩

theorem Does.trans {xs ys : List Effect} {s t u : Processing} (h : Does xs s t) (h' : Does ys t u) :
    Does (xs ++ ys) s u where
  first := h'.first.trans h.first
  effects := by rw [h'.effects, h.effects, List.append_assoc]

/-- Two computations in a row complete when both do. -/
theorem bind_ok {α β : Type} {x : LockStepM α} {f : α → LockStepM β} {s s' : Processing} {b : β}
    (h : (x >>= f) s = .ok b s') : ∃ a t, x s = .ok a t ∧ f a t = .ok b s' := by
  simp only [bind, EStateM.bind] at h
  split at h
  · rename_i a t ht
    exact ⟨a, t, ht, h⟩
  · cases h

theorem addRuntime_ok {v : ℚ} {p : Nat} {s s' : Processing} (h : addRuntime v p s = .ok () s') :
    Does [.addRuntime v p] s s' := by
  obtain ⟨t, s₁, hget, h⟩ := bind_ok h
  cases hget
  cases hadd : s.runtimeAverage.add v p with
  | error e =>
    rw [hadd] at h
    cases h
  | ok average =>
    rw [hadd] at h
    cases h
    exact ⟨rfl, rfl⟩

theorem addNetwork_ok {v : ℚ} {p : Nat} {s s' : Processing} (h : addNetwork v p s = .ok () s') :
    Does [.addNetwork v p] s s' := by
  obtain ⟨t, s₁, hget, h⟩ := bind_ok h
  cases hget
  cases hadd : s.networkAverage.add v p with
  | error e =>
    rw [hadd] at h
    cases h
  | ok average =>
    rw [hadd] at h
    cases h
    exact ⟨rfl, rfl⟩

/-- A completed pass is that of a player of the array, with that player's effects. -/
theorem processPlayer_ok {cmds : List Command} {idx : Nat} {s s' : Processing}
    (h : processPlayer cmds idx s = .ok () s') :
    Does (effectsOf cmds idx) s s' ∧ (effectsOf cmds idx).length = 3 := by
  unfold processPlayer at h
  unfold effectsOf
  cases hcmd : luaIndex cmds idx with
  | none =>
    rw [hcmd] at h
    cases h
  | some cmd =>
    rw [hcmd] at h
    obtain ⟨_, s₁, hexec, h⟩ := bind_ok h
    obtain ⟨_, s₂, hrun, hnet⟩ := bind_ok h
    have hexec : Does [.execute idx] s s₁ := by
      cases hexec
      exact ⟨rfl, rfl⟩
    exact ⟨hexec.trans ((addRuntime_ok hrun).trans (addNetwork_ok hnet)), rfl⟩

/-- A completed loop has had a completed pass for every index. -/
theorem forM_ok {cmds : List Command} {idxs : List Nat} {s s' : Processing}
    (h : idxs.forM (processPlayer cmds) s = .ok () s') :
    Does (idxs.flatMap (effectsOf cmds)) s s' ∧
      (idxs.flatMap (effectsOf cmds)).length = 3 * idxs.length := by
  induction idxs generalizing s with
  | nil =>
    cases h
    exact ⟨.refl _, rfl⟩
  | cons i is ih =>
    have h : (processPlayer cmds i >>= fun _ => is.forM (processPlayer cmds)) s = .ok () s' := h
    obtain ⟨_, t, hi, his⟩ := bind_ok h
    obtain ⟨hdo, hlen⟩ := processPlayer_ok hi
    obtain ⟨hdos, hlens⟩ := ih his
    rw [List.flatMap_cons]
    refine ⟨hdo.trans hdos, ?_⟩
    rw [List.length_append, List.length_cons]
    omega

/-- A completed turn has executed one command more than there are players. -/
theorem processCommands_ok {cmds : List Command} {s s' : Processing}
    (h : processCommands cmds s = .ok () s') :
    ∃ effects, s'.effects = s.effects ++ effects ∧ 3 * (cmds.length + 1) ≤ effects.length := by
  obtain ⟨t, s₁, hget, h⟩ := bind_ok h
  cases hget
  obtain ⟨_, s₂, hfirst, h⟩ := bind_ok h
  obtain ⟨_, s₃, hsecond, h⟩ := bind_ok h
  have heffects : s'.effects = s₃.effects := by
    cases h
    rfl
  obtain ⟨hdo, hlen⟩ := forM_ok hfirst
  obtain ⟨hdo', hlen'⟩ := forM_ok hsecond
  refine ⟨_, heffects.trans (hdo.trans hdo').effects, ?_⟩
  rw [List.length_append, hlen, hlen', List.length_range', List.length_range']
  omega

/-! ## Each command once per turn -/

/-- The players in the cyclic order that starts at `first`. -/
def rotation (len first : Nat) : List Nat := (List.range len).map fun k => (first - 1 + k) % len + 1

/-- What a turn is to do: every player once, in the cyclic order from the first player to process; and in
as many turns as there are players, every player is that first one once. -/
structure EachOnce (currentCommands : List Command) (s : Processing) : Prop where
  turn : ∃ s', processCommands currentCommands s = .ok () s' ∧ s'.effects = s.effects ++
    (rotation currentCommands.length s.playerIdToProcessFirst).flatMap (effectsOf currentCommands)
  starts : ∀ p ∈ Finset.Icc 1 currentCommands.length, ∃! k, k < currentCommands.length ∧
    (nextFirst currentCommands.length)^[k] s.playerIdToProcessFirst = p

/-- No turn does, from whatever first player. -/
theorem not_eachOnce (cmds : List Command) (s : Processing) : ¬ EachOnce cmds s := by
  intro h
  obtain ⟨s', hs', heffects⟩ := h.turn
  obtain ⟨effects, happend, hlen⟩ := processCommands_ok hs'
  have heq : effects = (rotation cmds.length s.playerIdToProcessFirst).flatMap (effectsOf cmds) :=
    List.append_cancel_left (happend.symm.trans heffects)
  have hle : ∀ idxs : List Nat, (idxs.flatMap (effectsOf cmds)).length ≤ 3 * idxs.length := by
    intro idxs
    induction idxs with
    | nil => simp
    | cons i is ih =>
      have := effectsOf_length_le cmds i
      simp only [List.flatMap_cons, List.length_append, List.length_cons]
      omega
  have := hle (rotation cmds.length s.playerIdToProcessFirst)
  rw [← heq, rotation, List.length_map, List.length_range] at this
  omega

/-! ## Every turn of a battle -/

/-- What a turn leaves, completed or not. -/
def after : EStateM.Result LuaError Processing Unit → Processing
  | .ok _ s => s
  | .error _ s => s

/-- The turns of a battle of `N` players, each with everybody's command. -/
def turns (N : Nat) : Lib.Machine Processing (List Command) where
  start s := s = .preGameStart N
  step s cmds := if cmds.length = N then some (after (processCommands cmds s)) else none

/-- At the first player 0 a turn raises before it has changed anything. -/
theorem processCommands_zero (cmds : List Command) {s : Processing} (h : s.playerIdToProcessFirst = 0) :
    processCommands cmds s = .error (.index "nil" "cmd") s := by
  have hloop : forLoop 0 cmds.length (processPlayer cmds) s = .error (.index "nil" "cmd") s := by
    unfold forLoop
    rw [Nat.sub_zero, List.range'_succ]
    rfl
  have hget : ∀ f : Processing → LockStepM Unit, ((get : LockStepM Processing) >>= f) s = f s s :=
    fun _ => rfl
  unfold processCommands
  rw [hget, h]
  simp only [bind, EStateM.bind, hloop]

/-- The first player to process stays the one of `PreGameStart`. -/
theorem reach_first {N : Nat} {s : Processing} (h : (turns N).Reach s) : s.playerIdToProcessFirst = 0 := by
  refine h.invariant (fun s => s.playerIdToProcessFirst = 0) ?_ ?_
  · rintro s rfl
    rfl
  · intro s cmds s' _ hs _ hstep
    simp only [turns] at hstep
    split at hstep
    · cases hstep
      rw [processCommands_zero cmds hs]
      exact hs
    · cases hstep

/-- In no reachable state, and from no other first player either, does a turn execute every command once.
In the reachable ones it raises and leaves everything as it was. -/
theorem processCommands_never (N : Nat) :
    (∀ s, (turns N).Reach s → ∀ cmds : List Command, cmds.length = N →
      processCommands cmds s = .error (.index "nil" "cmd") s) ∧
    ∀ s (cmds : List Command), ¬ EachOnce cmds s :=
  ⟨fun _ hs cmds _ => processCommands_zero cmds (reach_first hs), fun s cmds => not_eachOnce cmds s⟩

/-- The first turn of a battle of two players. -/
theorem not_eachOnce_preGameStart : ¬ ∀ (N : Nat) (s : Processing), (turns N).Reach s →
    ∀ cmds : List Command, cmds.length = N → EachOnce cmds s := fun h =>
  not_eachOnce _ _ (h 2 _ (.start rfl) [⟨10, 10⟩, ⟨20, 20⟩] rfl)

end ProcessCommands

end AntServer.Battle
