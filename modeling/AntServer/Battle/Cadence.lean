/-
# AntServer.Battle.Cadence — in which game frames a battle attempts its lockstep turns

`LockStep:Update`, `GameFrameTurn` and `LockStepTurn` of `service/battle/lockstep/lockstep.lua`. A battle
is to attempt a lockstep turn at game frame 0, and after one that succeeds to count game frames up to the
number `UpdateGameFrameRate` gives it, before it begins again at 0.

No turn gets that far. `PreGameStart` makes the averages with `require(..):new({..})`, but `class.lua`
declares `cls.new(...)`: `initialize` receives the class table, the loop of `array_new` has no limit, and
`PreGameStart` raises. What it leaves has no averages, so `UpdateGameFrameRate` raises behind every
`NextTurn`, and an update that has the time for a game frame does not return (`cadence_iff`).

With averages the counter would not work either: `GameFrameTurn` returns when the turn has succeeded, and
does nothing when it has not; only a game frame other than 0 is counted, and there is none
(`cadence_id_iff`).

What `NextTurn` answers and which commands there are is not fixed here: a `Turns` gives it for whatever
the battle has received, and a run may receive anything between two updates. The times are rational numbers,
and `round` stands for what the numbers of Lua make of an exact result; nothing is assumed of it.
-/
import AntServer.Battle.FrameRate
import AntServer.Battle.LockStep
import AntServer.Battle.ProcessCommands
import Mathlib.Algebra.Order.Archimedean.Basic

namespace AntServer.Battle

/-- What `LockStepTurn` asks of the battle. An answer of `NextTurn` comes with the battle after it. -/
structure Turns (σ : Type*) where
  lockStepTurnId : σ → Int
  nextTurn : σ → Except LuaError (Bool × σ)
  currentCommands : σ → List Command

/-- What a game frame has done about a lockstep turn: it attempted none, or one with the answer of
`LockStepTurn`, or one that raised. -/
inductive Attempt where
  | none
  | turn (nextTurn : Bool)
  | raised (e : LuaError)
  deriving DecidableEq, Repr

/-- A game frame that was run: `_gameFrame` before and after it, its attempt, and the
`_gameFramesPerLockstepTurn` it left. -/
structure GameFrame where
  gameFrame : Nat
  turn : Attempt
  after : Nat
  gameFramesPerLockstepTurn : ℚ

/-- The fields of `LockStep` that `Update` reads and writes, and the game frames so far. -/
structure Frames (σ : Type*) where
  battle : σ
  playerIdToProcessFirst : Nat
  networkAverage : Option RollingAverage
  runtimeAverage : Option RollingAverage
  rate : FrameRate
  accumilatedTime : ℚ
  gameFrame : Nat
  frames : List GameFrame

namespace Frames

variable {σ : Type*}

/-- `PreGameStart` up to the averages. The fields of the rate it does not set are not read before
`UpdateGameFrameRate` has set them. -/
def withoutAverages (battle : σ) : Frames σ where
  battle := battle
  playerIdToProcessFirst := 0
  networkAverage := none
  runtimeAverage := none
  rate := ⟨0, 0, 0, 0⟩
  accumilatedTime := 0
  gameFrame := 0
  frames := []

/-- `PreGameStart` for `N` players, with the two initial lengths of `initialize`: what it returns, and what
it leaves. `construct` is what `initialize` of the averages receives of the data it is called with:
`RollingAverage.colonNew` as the lines 33 and 34 are written. -/
def preGameStart (construct : RollingAverage.Settings → RollingAverage.Settings) (N : Nat)
    (initialLockStepTurnLength initialGameFrameTurnLength : Int) (battle : σ) :
    Except LuaError Unit × Frames σ :=
  let s := withoutAverages battle
  match RollingAverage.initializeFrom (construct ⟨some N, some initialLockStepTurnLength⟩) with
  | .error e => (.error e, s)
  | .ok network =>
    match RollingAverage.initializeFrom (construct ⟨some N, some initialGameFrameTurnLength⟩) with
    | .error e => (.error e, { s with networkAverage := some network })
    | .ok runtime => (.ok (), { s with networkAverage := some network, runtimeAverage := some runtime })

variable (T : Turns σ)

/-- The error of `ProcessCommands` when an average is missing: at the first index of its loops that has no
command, or behind the first command. -/
def errorWithoutAverage (currentCommands : List Command) (first : Nat) : LuaError :=
  match luaIndex currentCommands (if first ≤ currentCommands.length then first else 1) with
  | none => .index "nil" "cmd"
  | some _ => .index "nil" "_runtimeAverage"

/-- The part of `LockStepTurn` behind `NextTurn`: from the third turn id on the commands are processed,
if there was a turn. -/
def processTurn (nextTurn : Bool) (s : Frames σ) : Except LuaError Unit × Frames σ :=
  if nextTurn = true ∧ T.lockStepTurnId s.battle ≥ firstLockStepTurnID + 3 then
    match s.networkAverage, s.runtimeAverage with
    | some network, some runtime =>
      let kept (p : Processing) : Frames σ := { s with
        playerIdToProcessFirst := p.playerIdToProcessFirst
        networkAverage := some p.networkAverage
        runtimeAverage := some p.runtimeAverage }
      match ProcessCommands.processCommands (T.currentCommands s.battle)
          ⟨s.playerIdToProcessFirst, network, runtime, []⟩ with
      | .ok _ p => (.ok (), kept p)
      | .error e p => (.error e, kept p)
    | _, _ => (.error (errorWithoutAverage (T.currentCommands s.battle) s.playerIdToProcessFirst), s)
  else (.ok (), s)

/-- `LockStep:UpdateGameFrameRate`. -/
def updateRate (s : Frames σ) : Except LuaError Unit × Frames σ :=
  match s.networkAverage with
  | none => (.error (.index "nil" "_networkAverage"), s)
  | some network =>
    match s.runtimeAverage with
    | none => (.error (.index "nil" "_runtimeAverage"),
        { s with rate := { s.rate with lockStepTurnLength := network.getMax * 2 + 1 } })
    | some runtime =>
      match updateGameFrameRate network runtime with
      | none => (.error (.raised "attempt to perform 'n%%0'"), s)
      | some rate => (.ok (), { s with rate := rate })

/-- `LockStep:LockStepTurn`. -/
def lockStepTurn (s : Frames σ) : Except LuaError Bool × Frames σ :=
  match T.nextTurn s.battle with
  | .error e => (.error e, s)
  | .ok (nextTurn, battle) =>
    match processTurn T nextTurn { s with battle := battle } with
    | (.error e, s) => (.error e, s)
    | (.ok (), s) => ((updateRate s).1.map fun _ => nextTurn, (updateRate s).2)

/-- `LockStep:GameFrameTurn`. Nothing follows a turn, successful or not. -/
def gameFrameTurn (s : Frames σ) : Except LuaError Unit × Frames σ :=
  if s.gameFrame = 0 then ((lockStepTurn T s).1.map fun _ => (), (lockStepTurn T s).2)
  else
    (.ok (), { s with gameFrame :=
      if ((s.gameFrame + 1 : Nat) : ℚ) = s.rate.gameFramesPerLockstepTurn then 0 else s.gameFrame + 1 })

/-- What a game frame does about a lockstep turn. -/
def attempt (s : Frames σ) : Attempt :=
  if s.gameFrame = 0 then
    match (lockStepTurn T s).1 with
    | .ok nextTurn => .turn nextTurn
    | .error e => .raised e
  else .none

/-- A game frame, noted in the list. -/
def frame (s : Frames σ) : Except LuaError Unit × Frames σ :=
  let (r, t) := gameFrameTurn T s
  (r, { t with frames := t.frames ++
    [GameFrame.mk s.gameFrame (attempt T s) t.gameFrame t.rate.gameFramesPerLockstepTurn] })

variable (round : ℚ → ℚ)

/-- The loop of `Update`, with a bound on its rounds. -/
def frameLoop : Nat → Frames σ → Option (Except LuaError Unit × Frames σ)
  | 0, _ => none
  | n + 1, s =>
    if s.accumilatedTime ≥ s.rate.gameFrameTurnLength then
      match frame T s with
      | (.error e, t) => some (.error e, t)
      | (.ok (), t) =>
        frameLoop n { t with accumilatedTime := round (t.accumilatedTime - t.rate.gameFrameTurnLength) }
    else some (.ok (), s)

/-- `self._accumilatedTime + (deltaTime * 1000)` -/
def elapsed (s : Frames σ) (deltaTime : ℚ) : ℚ := round (s.accumilatedTime + round (deltaTime * 1000))

/-- `LockStep:Update`. -/
def update (rounds : Nat) (deltaTime : ℚ) (s : Frames σ) : Option (Except LuaError Unit × Frames σ) :=
  frameLoop T round rounds { s with accumilatedTime := s.elapsed round deltaTime }

/-- What happens to a battle. -/
inductive Act (σ : Type*) where
  | update (rounds : Nat) (deltaTime : ℚ)
  | received (battle : σ)

/-- The runs of `Update`: any elapsed times, and anything received between two updates. A call that
raises ends, and the next one goes on with what it left; that goes for `PreGameStart` too. -/
def machine (construct : RollingAverage.Settings → RollingAverage.Settings) (N : Nat)
    (initialLockStepTurnLength initialGameFrameTurnLength : Int) : Lib.Machine (Frames σ) (Act σ) where
  start s := ∃ battle,
    s = (preGameStart construct N initialLockStepTurnLength initialGameFrameTurnLength battle).2
  step s
    | .update rounds deltaTime => (update T round rounds deltaTime s).map Prod.snd
    | .received battle => some { s with battle := battle }

/-! ## What a game frame does -/

/-- The averages of a battle that has both. -/
abbrev Averages := Option (RollingAverage × RollingAverage)

/-- What the averages of a battle make of the frame rate. -/
def newRate (averages : Averages) : Option FrameRate := averages.bind fun p => updateGameFrameRate p.1 p.2

/-- A frame that attempts a turn at game frame 0 and stays there, with the frame rate of the averages
unless the turn raises. -/
structure Attempted (averages : Averages) (f : GameFrame) : Prop where
  gameFrame : f.gameFrame = 0
  after : f.after = 0
  attempted : f.turn ≠ .none
  rate : ∀ nextTurn, f.turn = .turn nextTurn → ∃ rate, newRate averages = some rate ∧
    f.gameFramesPerLockstepTurn = rate.gameFramesPerLockstepTurn

/-- What every battle keeps: the game frame 0, the first player 0, and the averages it began with. -/
structure Steady (averages : Averages) (s : Frames σ) : Prop where
  gameFrame : s.gameFrame = 0
  first : s.playerIdToProcessFirst = 0
  network : s.networkAverage = averages.map Prod.fst
  runtime : s.runtimeAverage = averages.map Prod.snd
  length : 0 ≤ s.rate.gameFrameTurnLength
  frames : ∀ f ∈ s.frames, Attempted averages f

/-- The rate of a frame has a positive length. -/
theorem newRate_length_pos {averages : Averages} {rate : FrameRate} (h : newRate averages = some rate) :
    0 < rate.gameFrameTurnLength := by
  obtain ⟨⟨network, runtime⟩, -, hrate⟩ := Option.bind_eq_some_iff.mp h
  obtain ⟨hpos, hcase⟩ := updateGameFrameRate_cases hrate
  rcases hcase with ⟨-, rfl⟩ | ⟨-, rfl⟩
  · exact hpos
  · show 0 < runtime.getMax + 1
    linarith

variable {T} {round} {averages : Averages}

/-- Processing the commands changes nothing: it raises at the first player 0. -/
theorem processTurn_snd {nextTurn : Bool} {s : Frames σ} (hfirst : s.playerIdToProcessFirst = 0) :
    (processTurn T nextTurn s).2 = s := by
  obtain ⟨battle, first, network, runtime, rate, time, frame, frames⟩ := s
  obtain rfl : first = 0 := hfirst
  unfold processTurn
  split
  · cases network with
    | none => rfl
    | some network =>
      cases runtime with
      | none => rfl
      | some runtime =>
        dsimp only
        rw [ProcessCommands.processCommands_zero _ rfl]
  · rfl

/-- `UpdateGameFrameRate` sets the rate of the averages, or raises. -/
theorem updateRate_cases {s : Frames σ} (hs : Steady averages s) :
    (∃ e, updateRate s = (.error e, s)) ∨
      ∃ rate, newRate averages = some rate ∧ updateRate s = (.ok (), { s with rate := rate }) := by
  unfold updateRate
  rw [hs.network, hs.runtime]
  cases averages with
  | none => exact .inl ⟨_, rfl⟩
  | some p =>
    simp only [Option.map_some]
    cases hrate : updateGameFrameRate p.1 p.2 with
    | none => exact .inl ⟨_, rfl⟩
    | some rate => exact .inr ⟨rate, hrate, rfl⟩

theorem Steady.battle {s : Frames σ} (h : Steady averages s) (battle : σ) :
    Steady averages { s with battle := battle } :=
  ⟨h.gameFrame, h.first, h.network, h.runtime, h.length, h.frames⟩

/-- All that a lockstep turn can change: the battle, and the rate when it does not raise. -/
theorem lockStepTurn_cases (T : Turns σ) {s : Frames σ} (hs : Steady averages s) :
    ∃ battle, (∃ e, lockStepTurn T s = (.error e, { s with battle := battle })) ∨
      ∃ nextTurn rate, newRate averages = some rate ∧
        lockStepTurn T s = (.ok nextTurn, { s with battle := battle, rate := rate }) := by
  unfold lockStepTurn
  cases hnext : T.nextTurn s.battle with
  | error e => exact ⟨s.battle, .inl ⟨e, rfl⟩⟩
  | ok answer =>
    obtain ⟨nextTurn, battle⟩ := answer
    have hsame : (processTurn T nextTurn { s with battle := battle }).2 = { s with battle := battle } :=
      processTurn_snd hs.first
    refine ⟨battle, ?_⟩
    dsimp only
    generalize processTurn T nextTurn { s with battle := battle } = processed at hsame
    obtain ⟨r, t⟩ := processed
    obtain rfl : t = { s with battle := battle } := hsame
    cases r with
    | error e => exact .inl ⟨e, rfl⟩
    | ok u =>
      dsimp only
      rcases updateRate_cases (hs.battle battle) with ⟨e, hrate⟩ | ⟨rate, hnew, hrate⟩
      · exact .inl ⟨e, by rw [hrate]; rfl⟩
      · exact .inr ⟨nextTurn, rate, hnew, by rw [hrate]; rfl⟩

/-- A game frame of a steady battle attempts a turn and leaves it steady. One that returns leaves the
rate of the averages. -/
theorem frame_steady (T : Turns σ) {s : Frames σ} (h : Steady averages s) :
    Steady averages (frame T s).2 ∧ (frame T s).2.accumilatedTime = s.accumilatedTime ∧
      ((frame T s).1 = .ok () → newRate averages = some (frame T s).2.rate) ∧
      ∃ f, (frame T s).2.frames = s.frames ++ [f] := by
  obtain ⟨battle, hturn⟩ := lockStepTurn_cases T h
  have hzero := h.gameFrame
  rcases hturn with ⟨e, hturn⟩ | ⟨nextTurn, rate, hrate, hturn⟩
  · -- the turn raised, and nothing of the frame follows it
    have hframe : frame T s = (.error e, { s with
        battle := battle
        frames := s.frames ++ [GameFrame.mk 0 (.raised e) 0 s.rate.gameFramesPerLockstepTurn] }) := by
      simp only [frame, gameFrameTurn, attempt, hzero, if_true, hturn]
      rfl
    rw [hframe]
    refine ⟨⟨hzero, h.first, h.network, h.runtime, h.length, ?_⟩, rfl, fun hok => (by cases hok), _, rfl⟩
    intro f hf
    rcases List.mem_append.mp hf with hf | hf
    · exact h.frames f hf
    · obtain rfl := List.mem_singleton.mp hf
      exact ⟨rfl, rfl, fun h => (by cases h), fun _ h => (by cases h)⟩
  · -- the turn returned, and `GameFrameTurn` does so too, whatever the answer was
    have hframe : frame T s = (.ok (), { s with
        battle := battle
        rate := rate
        frames := s.frames ++ [GameFrame.mk 0 (.turn nextTurn) 0 rate.gameFramesPerLockstepTurn] }) := by
      simp only [frame, gameFrameTurn, attempt, hzero, if_true, hturn]
      rfl
    rw [hframe]
    refine ⟨⟨hzero, h.first, h.network, h.runtime, (newRate_length_pos hrate).le, ?_⟩, rfl,
      fun _ => hrate, _, rfl⟩
    intro f hf
    rcases List.mem_append.mp hf with hf | hf
    · exact h.frames f hf
    · obtain rfl := List.mem_singleton.mp hf
      exact ⟨rfl, rfl, fun h => (by cases h), fun _ _ => ⟨rate, hrate, rfl⟩⟩

/-! ## The loop -/

theorem Steady.elapse {s : Frames σ} (h : Steady averages s) (time : ℚ) :
    Steady averages { s with accumilatedTime := time } :=
  ⟨h.gameFrame, h.first, h.network, h.runtime, h.length, h.frames⟩

theorem frameLoop_steady {n : Nat} {s t : Frames σ} {r : Except LuaError Unit} (h : Steady averages s)
    (hloop : frameLoop T round n s = some (r, t)) : Steady averages t := by
  induction n generalizing s with
  | zero => cases hloop
  | succ n ih =>
    obtain ⟨hsteady, -⟩ := frame_steady T h
    rw [frameLoop] at hloop
    split at hloop
    · split at hloop
      · rename_i e u hframe
        cases hloop
        rw [hframe] at hsteady
        exact hsteady
      · rename_i u hframe
        rw [hframe] at hsteady
        exact ih (hsteady.elapse _) hloop
    · cases hloop
      exact h

/-- With less than `n` frames of time left, `n + 1` rounds are enough, if nothing is rounded. -/
theorem frameLoop_ends (T : Turns σ) {length : ℚ}
    (hlength : ∀ rate, newRate averages = some rate → length = rate.gameFrameTurnLength) (n : Nat)
    {s : Frames σ} (h : Steady averages s) (htime : s.accumilatedTime < n * length) :
    ∃ r, frameLoop T id (n + 1) s = some r := by
  induction n generalizing s with
  | zero =>
    have hlen := h.length
    rw [Nat.cast_zero, zero_mul] at htime
    exact ⟨_, by rw [frameLoop, if_neg (by linarith)]⟩
  | succ n ih =>
    obtain ⟨hsteady, htime', hrate, -⟩ := frame_steady T h
    rw [frameLoop]
    split
    · generalize frame T s = framed at hsteady htime' hrate
      obtain ⟨r, t⟩ := framed
      cases r with
      | error e => exact ⟨_, rfl⟩
      | ok u =>
        -- the frame takes the length of the averages off the time, one of the `n + 1` there are
        refine ih (hsteady.elapse _) ?_
        have hlen := hlength _ (hrate rfl)
        push_cast at htime
        simp only [id] at htime' hlen ⊢
        linarith
    · exact ⟨_, rfl⟩

/-- The loop of `Update` ends, whatever time has elapsed, if nothing is rounded. -/
theorem update_ends (T : Turns σ) {s : Frames σ} {rate : FrameRate} (h : Steady averages s)
    (hrate : newRate averages = some rate) (deltaTime : ℚ) :
    ∃ rounds r, update T id rounds deltaTime s = some r := by
  have hpos := newRate_length_pos hrate
  obtain ⟨n, hn⟩ := exists_nat_gt (s.elapsed id deltaTime / rate.gameFrameTurnLength)
  obtain ⟨r, hr⟩ := frameLoop_ends T (fun rate' h => by rw [hrate] at h; cases h; rfl) n
    (h.elapse (s.elapsed id deltaTime)) ((div_lt_iff₀ hpos).mp hn)
  exact ⟨n + 1, r, hr⟩

/-- Where the averages give no rate every frame raises, and the loop ends with the first one. -/
theorem update_ends_of_raise (T : Turns σ) (round : ℚ → ℚ) {s : Frames σ} (h : Steady averages s)
    (hrate : newRate averages = none) (deltaTime : ℚ) :
    ∃ rounds r, update T round rounds deltaTime s = some r := by
  obtain ⟨-, -, hreturns, -⟩ := frame_steady T (h.elapse (s.elapsed round deltaTime))
  refine ⟨1, ?_⟩
  rw [update, frameLoop]
  split
  · generalize frame T _ = framed at hreturns
    obtain ⟨r, t⟩ := framed
    cases r with
    | error e => exact ⟨_, rfl⟩
    | ok u => rw [hrate] at hreturns; cases hreturns rfl
  · exact ⟨_, rfl⟩

/-- One action on a battle. -/
theorem step_steady {construct : RollingAverage.Settings → RollingAverage.Settings} {N : Nat} {L G : Int}
    {s s' : Frames σ} {a : Act σ} (hs : Steady averages s)
    (hstep : (machine T round construct N L G).step s a = some s') : Steady averages s' := by
  cases a with
  | update rounds deltaTime =>
    obtain ⟨⟨r, t⟩, hupdate, rfl⟩ := Option.map_eq_some_iff.mp hstep
    exact frameLoop_steady (hs.elapse _) hupdate
  | received battle =>
    cases hstep
    exact hs.battle battle

theorem exec_steady {construct : RollingAverage.Settings → RollingAverage.Settings} {N : Nat} {L G : Int}
    {s s' : Frames σ} {acts : List (Act σ)} (hs : Steady averages s)
    (he : (machine T round construct N L G).exec s acts = some s') : Steady averages s' :=
  Lib.Machine.exec_invariant (P := fun _ => True) (Steady averages)
    (fun _ _ _ _ h hstep => step_steady h hstep) (fun _ _ => trivial) hs he

/-- As the lines 33 and 34 are written `PreGameStart` raises, and leaves a battle without averages. -/
theorem preGameStart_colonNew (N : Nat) (L G : Int) (battle : σ) :
    preGameStart RollingAverage.colonNew N L G battle =
      (.error (.raised "'for' limit must be a number"), withoutAverages battle) := rfl

theorem withoutAverages_steady (battle : σ) : Steady none (withoutAverages battle) :=
  ⟨rfl, rfl, rfl, rfl, le_rfl, fun f hf => by cases hf⟩

/-- With calls that pass their data on it would leave one with the averages of `N` players. -/
theorem preGameStart_id (N : Nat) (L G : Int) (battle : σ) :
    preGameStart id N L G battle = (.ok (), { withoutAverages battle with
      networkAverage := some (.initializeWith N L), runtimeAverage := some (.initializeWith N G) }) := rfl

/-- The averages of `N` players at the start of a battle. -/
def initial (N : Nat) (L G : Int) : Averages := some (.initializeWith N L, .initializeWith N G)

theorem preGameStart_id_steady (N : Nat) (L G : Int) (battle : σ) :
    Steady (initial N L G) (preGameStart id N L G battle).2 := by
  rw [preGameStart_id]
  exact ⟨rfl, rfl, rfl, rfl, le_rfl, fun f hf => by cases hf⟩

/-! ## The cadence -/

/-- The frame `j` is the next one after `i` that attempts a turn. -/
def NextAttempt (frames : List GameFrame) (i j : Nat) : Prop :=
  (∃ g, frames[j]? = some g ∧ g.turn ≠ .none) ∧
    ∀ k g, i < k → k < j → frames[k]? = some g → g.turn = .none

/-- Every game frame gets to its end, and turns are attempted at game frame 0 only. After one that succeeds
the next is attempted as many frames later as `_gameFramesPerLockstepTurn` says; after one that does not, in
the next frame, without advancing the counter. -/
structure Cadence (frames : List GameFrame) : Prop where
  returns : ∀ f ∈ frames, ∀ e, f.turn ≠ .raised e
  atZero : ∀ f ∈ frames, f.turn ≠ .none → f.gameFrame = 0
  period : ∀ i f, frames[i]? = some f → f.turn = .turn true → ∀ j, i < j → j < frames.length →
    (NextAttempt frames i j ↔ ((j - i : Nat) : ℚ) = f.gameFramesPerLockstepTurn)
  retry : ∀ i f, frames[i]? = some f → f.turn = .turn false →
    f.after = f.gameFrame ∧ ∀ g, frames[i + 1]? = some g → g.turn ≠ .none

/-- Where every frame attempts a turn, the next one after a frame is the one right behind it. -/
theorem nextAttempt_iff {frames : List GameFrame} (hall : ∀ f ∈ frames, f.turn ≠ .none) {i j : Nat}
    (hij : i < j) (hj : j < frames.length) : NextAttempt frames i j ↔ j = i + 1 := by
  constructor
  · rintro ⟨-, hnone⟩
    by_contra hne
    have hlt : i + 1 < frames.length := by omega
    exact hall frames[i + 1] (List.getElem_mem hlt)
      (hnone (i + 1) frames[i + 1] (by omega) (by omega) (List.getElem?_eq_getElem hlt))
  · rintro rfl
    refine ⟨⟨_, List.getElem?_eq_getElem hj, hall _ (List.getElem_mem hj)⟩, fun k g hik hk => ?_⟩
    omega

/-- Where every frame attempts a turn, the cadence is that no turn raises, and that those which succeed
and are followed by another frame last one frame. -/
theorem cadence_iff_of_attempts {frames : List GameFrame} (hall : ∀ f ∈ frames, f.turn ≠ .none)
    (hzero : ∀ f ∈ frames, f.gameFrame = 0 ∧ f.after = 0) :
    Cadence frames ↔ (∀ f ∈ frames, ∀ e, f.turn ≠ .raised e) ∧
      ∀ i f, frames[i]? = some f → f.turn = .turn true → i + 1 < frames.length →
        f.gameFramesPerLockstepTurn = 1 := by
  constructor
  · refine fun h => ⟨h.returns, fun i f hf htrue hlt => ?_⟩
    have hper := (h.period i f hf htrue (i + 1) (by omega) hlt).mp
      ((nextAttempt_iff hall (by omega) hlt).mpr rfl)
    rw [Nat.add_sub_cancel_left, Nat.cast_one] at hper
    exact hper.symm
  · rintro ⟨hreturns, hone⟩
    refine ⟨hreturns, fun f hf _ => (hzero f hf).1, ?_, ?_⟩
    · -- the next attempt is in the next frame, and the period is 1
      intro i f hf htrue j hij hj
      rw [nextAttempt_iff hall hij hj, hone i f hf htrue (by omega), Nat.cast_eq_one]
      omega
    · intro i f hf _
      have hf0 := hzero f (List.mem_of_getElem? hf)
      exact ⟨hf0.2.trans hf0.1.symm, fun g hg => hall g (List.mem_of_getElem? hg)⟩

theorem Steady.cadence_iff_one {s : Frames σ} (hs : Steady averages s) :
    Cadence s.frames ↔ (∀ f ∈ s.frames, ∀ e, f.turn ≠ .raised e) ∧
      ∀ i f, s.frames[i]? = some f → f.turn = .turn true → i + 1 < s.frames.length →
        f.gameFramesPerLockstepTurn = 1 :=
  cadence_iff_of_attempts (fun f hf => (hs.frames f hf).attempted)
    fun f hf => ⟨(hs.frames f hf).gameFrame, (hs.frames f hf).after⟩

/-! ### Without averages -/

/-- Without averages every game frame raises. -/
theorem Steady.raised {s : Frames σ} (hs : Steady none s) {f : GameFrame} (hf : f ∈ s.frames) :
    ∃ e, f.turn = .raised e := by
  have hattempt := hs.frames f hf
  cases hturn : f.turn with
  | none => exact absurd hturn hattempt.attempted
  | raised e => exact ⟨e, rfl⟩
  | turn nextTurn =>
    obtain ⟨rate, hrate, -⟩ := hattempt.rate nextTurn hturn
    cases hrate

/-- So the cadence is kept only where there is no game frame. -/
theorem Steady.cadence_none_iff {s : Frames σ} (hs : Steady none s) : Cadence s.frames ↔ s.frames = [] := by
  constructor
  · intro h
    by_contra hne
    obtain ⟨f, hf⟩ := List.exists_mem_of_ne_nil _ hne
    obtain ⟨e, he⟩ := hs.raised hf
    exact h.returns f hf e he
  · intro h
    rw [h]
    exact ⟨fun f hf => (by cases hf), fun f hf => (by cases hf), fun i f hf => (by cases hf),
      fun i f hf => (by cases hf)⟩

/-- The time that has elapsed is not enough for a game frame. -/
def NoFrame (round : ℚ → ℚ) (s : Frames σ) : Act σ → Prop
  | .update _ deltaTime => s.elapsed round deltaTime < s.rate.gameFrameTurnLength
  | .received _ => True

/-- An update with enough time for a game frame runs one, the others change the time only. -/
theorem frameLoop_frames {s t : Frames σ} {n : Nat} {r : Except LuaError Unit} (hs : Steady none s)
    (hloop : frameLoop T round n s = some (r, t)) :
    (s.accumilatedTime < s.rate.gameFrameTurnLength ∧ t = s) ∨
      (¬ s.accumilatedTime < s.rate.gameFrameTurnLength ∧ ∃ f, t.frames = s.frames ++ [f]) := by
  cases n with
  | zero => cases hloop
  | succ n =>
    obtain ⟨-, -, hrate, hframes⟩ := frame_steady T hs
    rw [frameLoop] at hloop
    split at hloop
    · rename_i hdue
      refine .inr ⟨not_lt.mpr hdue, ?_⟩
      split at hloop
      · rename_i e u hframe
        cases hloop
        rw [hframe] at hframes
        exact hframes
      · -- without averages no frame returns
        rename_i u hframe
        rw [hframe] at hrate
        cases hrate rfl
    · rename_i hdue
      cases hloop
      exact .inl ⟨not_le.mp hdue, rfl⟩

theorem step_frames {construct : RollingAverage.Settings → RollingAverage.Settings} {N : Nat} {L G : Int}
    {s s' : Frames σ} {a : Act σ} (hs : Steady none s)
    (hstep : (machine T round construct N L G).step s a = some s') :
    (NoFrame round s a ∧ s'.frames = s.frames) ∨ (¬ NoFrame round s a ∧ ∃ f, s'.frames = s.frames ++ [f]) := by
  cases a with
  | received battle =>
    cases hstep
    exact .inl ⟨trivial, rfl⟩
  | update rounds deltaTime =>
    obtain ⟨⟨r, t⟩, hupdate, rfl⟩ := Option.map_eq_some_iff.mp hstep
    rcases frameLoop_frames (hs.elapse _) hupdate with ⟨hlt, rfl⟩ | ⟨hlt, hframes⟩
    · exact .inl ⟨hlt, rfl⟩
    · exact .inr ⟨hlt, hframes⟩

/-- The game frames of a run only grow. -/
theorem exec_frames {construct : RollingAverage.Settings → RollingAverage.Settings} {N : Nat} {L G : Int}
    {s s' : Frames σ} {acts : List (Act σ)} (hs : Steady none s)
    (he : (machine T round construct N L G).exec s acts = some s') : s.frames <+: s'.frames := by
  induction acts generalizing s with
  | nil => cases he; exact List.prefix_refl _
  | cons a acts ih =>
    obtain ⟨t, ht, hrest⟩ := Option.bind_eq_some_iff.mp he
    refine List.IsPrefix.trans ?_ (ih (step_steady hs ht) hrest)
    rcases step_frames hs ht with ⟨-, hsame⟩ | ⟨-, f, hmore⟩
    · rw [hsame]
    · rw [hmore]
      exact List.prefix_append _ _

/-- A run has no game frames exactly when no update of it has the time for one. -/
theorem frames_nil_iff {construct : RollingAverage.Settings → RollingAverage.Settings} {N : Nat} {L G : Int}
    {s s' : Frames σ} {acts : List (Act σ)} (hs : Steady none s) (hnil : s.frames = [])
    (he : (machine T round construct N L G).exec s acts = some s') :
    s'.frames = [] ↔ (machine T round construct N L G).Meets (NoFrame round) s acts := by
  induction acts generalizing s with
  | nil =>
    cases he
    exact iff_of_true hnil trivial
  | cons a acts ih =>
    obtain ⟨t, ht, hrest⟩ := Option.bind_eq_some_iff.mp he
    have hsteady := step_steady hs ht
    rcases step_frames hs ht with ⟨hno, hsame⟩ | ⟨hframe, f, hmore⟩
    · rw [ih hsteady (hsame.trans hnil) hrest]
      refine ⟨fun h => ⟨hno, fun u hu => ?_⟩, fun h => h.2 t ht⟩
      obtain rfl := Option.some.inj (ht.symm.trans hu)
      exact h
    · -- a frame that was run stays in the list
      refine iff_of_false (fun h => ?_) fun h => hframe h.1
      have hpre := exec_frames hsteady hrest
      rw [h, hmore, List.prefix_nil] at hpre
      exact absurd hpre (by simp)

/-- The averages give a lockstep turn one game frame: the slowest one takes a second and divides the
turn, or it takes a millisecond less and does not. -/
def OneFrame (network runtime : RollingAverage) : Prop :=
  runtime.getMax = 1000 ∧ (∃ k : ℤ, turnLength network runtime / 1000 = k) ∨
    runtime.getMax = 999 ∧ ¬ ∃ k : ℤ, turnLength network runtime / 999 = k

theorem newRate_one {network runtime : RollingAverage} {rate : FrameRate}
    (h : updateGameFrameRate network runtime = some rate) :
    rate.gameFramesPerLockstepTurn = 1 ↔ OneFrame network runtime := by
  have hproduct := updateGameFrameRate_product h
  have hone : rate.gameFramesPerLockstepTurn = 1 ↔ rate.gameFrameTurnLength = 1000 := by
    constructor
    · intro h1
      rw [h1, one_mul] at hproduct
      exact hproduct
    · intro h1
      rw [h1] at hproduct
      linarith
  obtain ⟨-, hcase⟩ := updateGameFrameRate_cases h
  rw [hone]
  unfold OneFrame
  rcases hcase with ⟨hw, rfl⟩ | ⟨hw, rfl⟩
  · show runtime.getMax = 1000 ↔ _
    constructor
    · intro h1
      rw [h1] at hw
      exact .inl ⟨h1, hw⟩
    · rintro (⟨h1, -⟩ | ⟨h1, hnot⟩)
      · exact h1
      · rw [h1] at hw
        exact absurd hw hnot
  · show runtime.getMax + 1 = 1000 ↔ _
    constructor
    · intro h1
      have h1 : runtime.getMax = 999 := by linarith
      rw [h1] at hw
      exact .inr ⟨h1, hw⟩
    · rintro (⟨h1, hk⟩ | ⟨h1, -⟩)
      · rw [h1] at hw
        exact absurd hk hw
      · linarith

/-- The constructor is not all that is in the way. With calls that pass their data on, the battles whose
turns do not raise would have their cadence exactly when the averages make a turn one game frame long, or
no frame comes after a turn that succeeded: `GameFrameTurn` never advances the counter. -/
theorem cadence_id_iff (T : Turns σ) (round : ℚ → ℚ) (N : Nat) (L G : Int) (battle : σ) (acts : List (Act σ))
    (s : Frames σ) (hs : (machine T round id N L G).exec (preGameStart id N L G battle).2 acts = some s) :
    Cadence s.frames ↔ (∀ f ∈ s.frames, ∀ e, f.turn ≠ .raised e) ∧
      ∀ i f, s.frames[i]? = some f → f.turn = .turn true → i + 1 < s.frames.length →
        OneFrame (.initializeWith N L) (.initializeWith N G) := by
  have hsteady := exec_steady (preGameStart_id_steady N L G battle) hs
  rw [hsteady.cadence_iff_one]
  refine and_congr_right fun _ => ?_
  refine forall₄_congr fun i f hf htrue => imp_congr_right fun _ => ?_
  obtain ⟨rate, hrate, hper⟩ := (hsteady.frames f (List.mem_of_getElem? hf)).rate true htrue
  rw [hper]
  exact newRate_one hrate

/-- With averages, and numbers that are not rounded, every update ends. -/
theorem updates_end (T : Turns σ) {N : Nat} {L G : Int} {s : Frames σ} (hs : (machine T id id N L G).Reach s)
    (deltaTime : ℚ) : ∃ rounds r, update T id rounds deltaTime s = some r := by
  have hsteady : Steady (initial N L G) s := by
    refine hs.invariant (Steady (initial N L G)) ?_ fun s a s' _ h _ hstep => step_steady h hstep
    rintro s ⟨battle, rfl⟩
    exact preGameStart_id_steady N L G battle
  cases hrate : newRate (initial N L G) with
  | none => exact update_ends_of_raise T id hsteady hrate deltaTime
  | some rate => exact update_ends T hsteady hrate deltaTime

/-! ## Two players -/

/-- The answers of `LockStep:NextTurn`, and the commands of the players `1..N`. -/
def lockStepTurns (N : Nat) : Turns (LockStep Command) where
  lockStepTurnId s := s.lockStepTurnId
  nextTurn s := s.nextTurn
  currentCommands s := (List.range N).filterMap fun k =>
    match s.pendingCommnads.currentCommands.cell (k + 1) with
    | .command cmd => some cmd
    | _ => none

end Frames

end AntServer.Battle
