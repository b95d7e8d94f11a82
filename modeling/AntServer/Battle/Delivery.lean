/-
# AntServer.Battle.Delivery — a lockstep command is current two turns after its own

The purpose of the four slots, stated apart from them: a `Ledger` of the accepted commands, each with
its player and its turn, and the rule that the command of player `p` for turn `t` is the current one
of `p` exactly while the turn id is `t + 2`. The faithful object refines this: at every turn id
`cur`, the four slots are the ledger's entries for the turns `cur - 2`, `cur - 1`, `cur` and
`cur + 1`, and every counter is the number of players in its slot (`Tracks`). That holds over every
run, from the object `initialize` builds.

What does not hold over every run is acceptance. `initialize` leaves two slots as the number `0`;
they are the slots of the first turn and of the one after it, and no command for these two turns is
ever accepted (`Tracks.number_iff`).
-/
import AntServer.Battle.PendingCommnads

namespace AntServer.Battle

variable {Cmd : Type*}

/-- An accepted command with its player and its turn. -/
structure Entry (Cmd : Type*) where
  cmd : Cmd
  player : Nat
  turn : Int
  deriving DecidableEq, Repr

/-- The calls of a battle on its `PendingCommnads`. -/
inductive Call (Cmd : Type*) where
  /-- `AddCommand(cmd, playerId, cur, cmdsLockStepTurn)`, `cur` the current turn id -/
  | addCommand (cmd : Cmd) (playerId : Nat) (cmdsLockStepTurn : Int)
  | nextTurn

/-- The object, the turn id, and the commands accepted so far. -/
structure Delivery (Cmd : Type*) where
  pending : PendingCommnads Cmd
  turn : Int
  ledger : List (Entry Cmd)

namespace Delivery

/-- A freshly initialised object at turn id `first`. -/
def fresh (N : Nat) (first : Int) : Delivery Cmd := ⟨.initializeWith N, first, []⟩

/-- One call. A call that raises leaves the object as it was. -/
def call (d : Delivery Cmd) : Call Cmd → Delivery Cmd
  | .addCommand cmd p t =>
    match d.pending.addCommand cmd p d.turn t with
    | .ok pending => { d with pending := pending, ledger := ⟨cmd, p, t⟩ :: d.ledger }
    | .error _ => d
  | .nextTurn => { d with pending := d.pending.nextTurn, turn := d.turn + 1 }

/-- A sequence of calls. -/
def run (d : Delivery Cmd) (calls : List (Call Cmd)) : Delivery Cmd := calls.foldl call d

@[simp] theorem run_nil (d : Delivery Cmd) : d.run [] = d := rfl

/-- The calls name players of `1..N` only. -/
def Call.Within (N : Nat) : Call Cmd → Prop
  | .addCommand _ p _ => p ∈ Finset.Icc 1 N
  | .nextTurn => True

/-! ## What a slot has to hold -/

/-- The slot of turn `t` holds the ledger's commands for `t`, and `count` is their number. -/
structure SlotTracks (N : Nat) (ledger : List (Entry Cmd)) (slot : Slot Cmd) (count : Nat) (t : Int) :
    Prop where
  holds : ∀ p ∈ Finset.Icc 1 N, ∀ cmd, slot.cell p = .command cmd ↔ ⟨cmd, p, t⟩ ∈ ledger
  counts : count = (slot.players N).card

/-- A slot keeps track of its turn when the ledger grows by a command for another turn. -/
theorem SlotTracks.other {N : Nat} {ledger : List (Entry Cmd)} {slot : Slot Cmd} {count : Nat} {t t' : Int}
    (h : SlotTracks N ledger slot count t) {cmd : Cmd} {p : Nat} (ht : t' ≠ t) :
    SlotTracks N (⟨cmd, p, t'⟩ :: ledger) slot count t where
  holds := by
    intro q hq c
    rw [h.holds q hq c, List.mem_cons, Entry.mk.injEq]
    exact ⟨.inr, fun hc => hc.resolve_left fun he => ht he.2.2.symm⟩
  counts := h.counts

/-- The slot of the command's own turn takes it. -/
theorem SlotTracks.accept {N : Nat} {ledger : List (Entry Cmd)} {name : String} {slot slot' : Slot Cmd}
    {count : Nat} {t : Int} (h : SlotTracks N ledger slot count t) {cmd : Cmd} {p : Nat}
    (hp : p ∈ Finset.Icc 1 N) (ha : slot.add name cmd p = .ok slot') :
    SlotTracks N (⟨cmd, p, t⟩ :: ledger) slot' (count + 1) t where
  holds := by
    obtain ⟨-, hnone, hcell⟩ := Slot.add_ok ha
    intro q hq c
    rw [hcell q]
    by_cases hqp : q = p
    · subst hqp
      -- the player had no command for this turn, so the new one is the only one
      have hfree : ⟨c, q, t⟩ ∉ ledger := fun hmem => by
        rw [(h.holds q hq c).mpr hmem] at hnone
        cases hnone
      simp [hfree, eq_comm]
    · simp [hqp, h.holds q hq c]
  counts := by rw [Slot.players_add ha hp, h.counts]

/-- A fresh slot tracks a turn nobody has sent a command for. -/
theorem SlotTracks.empty {N : Nat} {ledger : List (Entry Cmd)} {slot : Slot Cmd} {t : Int}
    (hs : ∀ p cmd, slot.cell p ≠ .command cmd) (hc : slot.players N = ∅)
    (ht : ∀ e ∈ ledger, e.turn ≠ t) : SlotTracks N ledger slot 0 t where
  holds := fun p _ cmd => ⟨fun h => absurd h (hs p cmd), fun h => absurd rfl (ht _ h)⟩
  counts := by rw [hc, Finset.card_empty]

/-! ## The refinement -/

/-- The invariant: each slot tracks its turn, no command lies beyond the window, and the slots that
are still numbers are those of the two first turns. -/
structure Tracks (N : Nat) (first : Int) (d : Delivery Cmd) : Prop where
  players : d.pending.numberOfPlayers = N
  started : first ≤ d.turn
  current : SlotTracks N d.ledger d.pending.currentCommands d.pending.currentCommandsCount (d.turn - 2)
  next : SlotTracks N d.ledger d.pending.nextCommands d.pending.nextCommandsCount (d.turn - 1)
  nextNext : SlotTracks N d.ledger d.pending.nextNextCommands d.pending.nextNextCommandsCount d.turn
  nextNextNext : SlotTracks N d.ledger d.pending.nextNextNextCommands
    d.pending.nextNextNextCommandsCount (d.turn + 1)
  window : ∀ e ∈ d.ledger, e.turn ≤ d.turn + 1
  next_number : d.pending.nextCommands = .number ↔ d.turn - 1 = first ∨ d.turn - 1 = first + 1
  nextNext_number : d.pending.nextNextCommands = .number ↔ d.turn = first ∨ d.turn = first + 1
  nextNextNext_number : d.pending.nextNextNextCommands = .number ↔
    d.turn + 1 = first ∨ d.turn + 1 = first + 1

theorem fresh_tracks (N : Nat) (first : Int) : Tracks N first (fresh N first : Delivery Cmd) where
  players := rfl
  started := le_refl first
  current := .empty (Slot.cell_newComands_ne N) (Slot.players_newComands N N) (by simp [fresh])
  next := .empty (Slot.cell_newComands_ne N) (Slot.players_newComands N N) (by simp [fresh])
  nextNext := .empty (by simp [fresh, PendingCommnads.initializeWith]) (Slot.players_number N)
    (by simp [fresh])
  nextNextNext := .empty (by simp [fresh, PendingCommnads.initializeWith]) (Slot.players_number N)
    (by simp [fresh])
  window := by simp [fresh]
  next_number := by simp [fresh, PendingCommnads.initializeWith, Slot.newComands]; omega
  nextNext_number := by simp [fresh, PendingCommnads.initializeWith]
  nextNextNext_number := by simp [fresh, PendingCommnads.initializeWith]

/-- `NextTurn` shifts the slots and the turn id together. -/
theorem Tracks.nextTurn {N : Nat} {first : Int} {d : Delivery Cmd} (h : Tracks N first d) :
    Tracks N first (d.call .nextTurn) where
  players := h.players
  started := by have := h.started; simp only [call]; omega
  current := by
    have ht : d.turn + 1 - 2 = d.turn - 1 := by omega
    simpa [call, PendingCommnads.nextTurn, ht] using h.next
  next := by simpa [call, PendingCommnads.nextTurn] using h.nextNext
  nextNext := h.nextNextNext
  nextNextNext := by
    refine .empty (Slot.cell_newComands_ne _) (Slot.players_newComands _ N) fun e he => ?_
    have := h.window e he
    simp only [call]
    omega
  window := fun e he => by have := h.window e he; simp only [call]; omega
  next_number := by simpa [call, PendingCommnads.nextTurn] using h.nextNext_number
  nextNext_number := by
    have := h.nextNextNext_number
    simpa [call, PendingCommnads.nextTurn] using this
  nextNextNext_number := by
    have := h.started
    simp only [call, PendingCommnads.nextTurn, Slot.newComands, reduceCtorEq, false_iff]
    omega

/-- An accepted command enters the ledger and the slot of its turn. -/
theorem Tracks.accept {N : Nat} {first : Int} {d : Delivery Cmd} (h : Tracks N first d) {cmd : Cmd}
    {p : Nat} {t : Int} (hp : p ∈ Finset.Icc 1 N) {pending : PendingCommnads Cmd}
    (ha : d.pending.addCommand cmd p d.turn t = .ok pending) :
    Tracks N first { d with pending := pending, ledger := ⟨cmd, p, t⟩ :: d.ledger } := by
  -- the three cases differ in the slot that takes the command; the other slots are of other turns
  rcases PendingCommnads.addCommand_cases ha with ⟨slot, ht, hs, rfl⟩ | ⟨slot, ht, hs, rfl⟩ |
    ⟨slot, ht, hs, rfl⟩
  · have hnum : d.pending.nextNextNextCommands ≠ .number := (Slot.add_ok_iff.mp ⟨_, hs⟩).1
    exact {
      players := h.players
      started := h.started
      current := h.current.other (by omega)
      next := h.next.other (by omega)
      nextNext := h.nextNext.other (by omega)
      nextNextNext := by subst ht; exact h.nextNextNext.accept hp hs
      window := by simpa [ht] using h.window
      next_number := h.next_number
      nextNext_number := h.nextNext_number
      nextNextNext_number := by
        rw [← h.nextNextNext_number]
        exact iff_of_false (Slot.add_ok hs).1 hnum }
  · have hnum : d.pending.nextNextCommands ≠ .number := (Slot.add_ok_iff.mp ⟨_, hs⟩).1
    exact {
      players := h.players
      started := h.started
      current := h.current.other (by omega)
      next := h.next.other (by omega)
      nextNext := by subst ht; exact h.nextNext.accept hp hs
      nextNextNext := h.nextNextNext.other (by omega)
      window := by simpa [ht] using h.window
      next_number := h.next_number
      nextNext_number := by
        rw [← h.nextNext_number]
        exact iff_of_false (Slot.add_ok hs).1 hnum
      nextNextNext_number := h.nextNextNext_number }
  · have hnum : d.pending.nextCommands ≠ .number := (Slot.add_ok_iff.mp ⟨_, hs⟩).1
    exact {
      players := h.players
      started := h.started
      current := h.current.other (by omega)
      next := by subst ht; exact h.next.accept hp hs
      nextNext := h.nextNext.other (by omega)
      nextNextNext := h.nextNextNext.other (by omega)
      window := by
        intro e he
        rcases List.mem_cons.mp he with rfl | he
        · show t ≤ d.turn + 1
          omega
        · exact h.window e he
      next_number := by
        rw [← h.next_number]
        exact iff_of_false (Slot.add_ok hs).1 hnum
      nextNext_number := h.nextNext_number
      nextNextNext_number := h.nextNextNext_number }

theorem Tracks.call {N : Nat} {first : Int} {d : Delivery Cmd} (h : Tracks N first d) {c : Call Cmd}
    (hc : Call.Within N c) : Tracks N first (d.call c) := by
  cases c with
  | nextTurn => exact h.nextTurn
  | addCommand cmd p t =>
    simp only [Delivery.call]
    split
    · rename_i pending ha
      exact h.accept hc ha
    · exact h

/-- Every run from a fresh object keeps the slots in step with the ledger. -/
theorem run_tracks {N : Nat} {first : Int} {calls : List (Call Cmd)}
    (hc : ∀ c ∈ calls, Call.Within N c) : Tracks N first ((fresh N first).run calls) := by
  suffices h : ∀ d : Delivery Cmd, Tracks N first d → Tracks N first (d.run calls) from
    h _ (fresh_tracks N first)
  induction calls with
  | nil => exact fun d hd => hd
  | cons c cs ih =>
    intro d hd
    exact ih (fun c' hc' => hc c' (List.mem_cons_of_mem _ hc')) _ (hd.call (hc c List.mem_cons_self))

/-! ## Acceptance -/

/-- `AddCommand(cmd, p, cur, t)` succeeds. -/
def Accepts (d : Delivery Cmd) (cmd : Cmd) (p : Nat) (t : Int) : Prop :=
  ∃ pending, d.pending.addCommand cmd p d.turn t = .ok pending

/-- A call the battle may expect to succeed: inside the window of three turns, and the first one for
its player and turn. -/
def Due (N : Nat) (d : Delivery Cmd) (p : Nat) (t : Int) : Prop :=
  p ∈ Finset.Icc 1 N ∧ (t = d.turn - 1 ∨ t = d.turn ∨ t = d.turn + 1) ∧
    ∀ c : Cmd, (⟨c, p, t⟩ : Entry Cmd) ∉ d.ledger

/-- A due command is accepted exactly when its turn is neither the first one nor the next. -/
theorem Tracks.accepts_iff {N : Nat} {first : Int} {d : Delivery Cmd} (h : Tracks N first d) {cmd : Cmd}
    {p : Nat} {t : Int} (hdue : Due N d p t) :
    Accepts d cmd p t ↔ t ≠ first ∧ t ≠ first + 1 := by
  obtain ⟨hp, hwin, hfresh⟩ := hdue
  -- acceptance is acceptance by the slot of turn `t`, which holds no command of `p`
  have key : ∀ {slot : Slot Cmd} {count : Nat} (name : String), SlotTracks N d.ledger slot count t →
      ((∃ slot', slot.add name cmd p = .ok slot') ↔ slot ≠ .number) := fun name hs =>
    Slot.add_ok_iff.trans
      (and_iff_left fun c hcell => hfresh c ((hs.holds p hp c).mp hcell))
  have hnext := h.next_number
  have hnextNext := h.nextNext_number
  have hnextNextNext := h.nextNextNext_number
  rw [Accepts, PendingCommnads.addCommand_ok_iff]
  rcases hwin with rfl | rfl | rfl
  · rw [key _ h.next, ne_eq, hnext]
    omega
  · rw [key _ h.nextNext, ne_eq, hnextNext]
    omega
  · rw [key _ h.nextNextNext, ne_eq, hnextNextNext]
    omega

/-! ## The delivery of commands -/

/-- In this state the current command of every player is the one accepted for two turns ago, and
every counter is the number of players with a command in its slot. -/
structure Delivers (N : Nat) (d : Delivery Cmd) : Prop where
  current : ∀ p ∈ Finset.Icc 1 N, ∀ cmd,
    d.pending.currentCommands.cell p = .command cmd ↔ ⟨cmd, p, d.turn - 2⟩ ∈ d.ledger
  currentCount : d.pending.currentCommandsCount = (d.pending.currentCommands.players N).card
  nextCount : d.pending.nextCommandsCount = (d.pending.nextCommands.players N).card
  nextNextCount : d.pending.nextNextCommandsCount = (d.pending.nextNextCommands.players N).card
  nextNextNextCount : d.pending.nextNextNextCommandsCount =
    (d.pending.nextNextNextCommands.players N).card

theorem Tracks.delivers {N : Nat} {first : Int} {d : Delivery Cmd} (h : Tracks N first d) :
    Delivers N d where
  current := h.current.holds
  currentCount := h.current.counts
  nextCount := h.next.counts
  nextNextCount := h.nextNext.counts
  nextNextNextCount := h.nextNextNext.counts

/-- Lockstep delivery over a run: after every prefix the commands are delivered, and every due
`AddCommand` of the run succeeds. -/
def LockstepDelivery (N : Nat) (first : Int) (calls : List (Call Cmd)) : Prop :=
  (∀ pre, pre <+: calls → Delivers N ((fresh N first).run pre)) ∧
  ∀ pre cmd p t, pre ++ [.addCommand cmd p t] <+: calls → Due N ((fresh N first).run pre) p t →
    Accepts ((fresh N first).run pre) cmd p t

/-- Lockstep delivery holds of a run exactly when no due command of the run is for the first turn
id or the one after it. -/
theorem lockstepDelivery_iff (N : Nat) (first : Int) (calls : List (Call Cmd))
    (hc : ∀ c ∈ calls, Call.Within N c) :
    LockstepDelivery N first calls ↔
      ∀ pre cmd p t, pre ++ [Call.addCommand cmd p t] <+: calls →
        Due N ((fresh N first).run pre) p t → t ≠ first ∧ t ≠ first + 1 := by
  have tracks : ∀ pre, pre <+: calls → Tracks N first ((fresh N first).run pre) :=
    fun pre hpre => run_tracks fun c hmem => hc c (hpre.subset hmem)
  have before : ∀ {pre : List (Call Cmd)} {c : Call Cmd}, pre ++ [c] <+: calls → pre <+: calls :=
    fun h => (List.prefix_append _ _).trans h
  constructor
  · intro h pre cmd p t hpre hdue
    exact ((tracks pre (before hpre)).accepts_iff hdue).mp (h.2 pre cmd p t hpre hdue)
  · intro h
    refine ⟨fun pre hpre => (tracks pre hpre).delivers, fun pre cmd p t hpre hdue => ?_⟩
    exact ((tracks pre (before hpre)).accepts_iff hdue).mpr (h pre cmd p t hpre hdue)

/-- Two players, the turns 2 and 3: all four commands are accepted and delivered. -/
theorem lockstepDelivery_two_players :
    LockstepDelivery 2 0 [Call.nextTurn, .addCommand "a" 1 2, .nextTurn, .addCommand "b" 2 2,
      .addCommand "c" 1 3, .nextTurn, .addCommand "d" 2 3, .nextTurn] := by
  refine (lockstepDelivery_iff 2 0 _ (by simp [Call.Within])).mpr fun pre cmd p t hpre _ => ?_
  have hmem : Call.addCommand cmd p t ∈ [Call.nextTurn, .addCommand "a" 1 2, .nextTurn,
      .addCommand "b" 2 2, .addCommand "c" 1 3, .nextTurn, .addCommand "d" 2 3, .nextTurn] :=
    hpre.subset (by simp)
  simp only [List.mem_cons, reduceCtorEq, Call.addCommand.injEq, List.not_mem_nil, or_false,
    false_or] at hmem
  omega

/-- The first call of a battle, the command of player 1 for the first turn, raises: the slot is the
number `0`. -/
theorem not_lockstepDelivery_first_turn :
    ¬ LockstepDelivery 2 0 [Call.addCommand "a" 1 0] := by
  intro h
  obtain ⟨pending, hp⟩ := h.2 [] "a" 1 0 (List.prefix_refl _) ⟨by decide, by decide, by simp [fresh]⟩
  exact absurd hp (by simp [fresh, PendingCommnads.initializeWith, PendingCommnads.addCommand,
    Slot.add])

end Delivery

end AntServer.Battle
