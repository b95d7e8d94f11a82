/-
# AntServer.Behavior3.Executions — one node over a sequence of ticks

A node that executes other nodes, seen alone: `execute` is any computation for each child, which stands
for whatever the children are and come to, and between two executions of the node anything may happen
to the state. A `Visit` is one `_execute` of the node, with the children its `tick` executed and what it
came to.
-/
import AntServer.Behavior3.BehaviorTree

namespace AntServer.Behavior3

open Lib (Comp)

/-- How a computation ended; nothing if it does not end. -/
abbrev Ended (α : Type) := Option (Except LuaError α)

/-- One `_execute` of a node: whether it opened the node, the children it executed, and its result. -/
structure Visit (ρ : Type) where
  opened : Bool
  ran : List ρ
  outcome : Ended (Option Status)

/-- The statuses that a list of executions returned. -/
def statuses (ran : List (Ended (Option Status))) : List (Option Status) :=
  ran.filterMap fun result => result.bind Except.toOption

/-! ## Visits -/

section Visits

variable {ρ : Type} (env : Env) (tick : M (Option Status × List (Option Status)))
  (observe : State → List ρ) (node : Node)

/-- ENTER and OPEN in `_execute`. -/
def enterAndOpen : M Unit := do
  enter env node
  openIfClosed env node

/-- What the `tick` executes in a visit that begins in `s`; nothing if `open` raises. -/
def observeTick (s : State) : List ρ :=
  match enterAndOpen env node s with
  | some (.ok _, s') => observe s'
  | _ => []

def visit (s : State) : Visit ρ where
  opened := !(s.memory node.id).isOpen
  ran := observeTick env observe node s
  outcome := (baseExecute env tick node s).map Prod.fst

/-- The visits of a node, each after a change of the state. A visit that does not end is the last one. -/
def visits : List (State → State) → State → List (Visit ρ)
  | [], _ => []
  | change :: changes, s =>
    visit env tick observe node (change s) ::
      match baseExecute env tick node (change s) with
      | none => []
      | some (_, s') => visits changes s'

variable {env tick observe node} in
/-- What holds of every visit that begins well holds of those of a run, when a visit ends well and a change
goes on from there. -/
theorem forall_mem_visits_of_invariant {Inv Begun : State → Prop} {P : Visit ρ → Prop}
    (hvisit : ∀ s, Begun s → P (visit env tick observe node s))
    (hstep : ∀ s, Begun s → (baseExecute env tick node).Ends s fun _ s' => Inv s')
    {changes : List (State → State)} (hchange : ∀ change ∈ changes, ∀ s, Inv s → Begun (change s))
    {s : State} (hs : Inv s) : ∀ v ∈ visits env tick observe node changes s, P v := by
  induction changes generalizing s with
  | nil => simp [visits]
  | cons change changes ih =>
    have hbegun : Begun (change s) := hchange change List.mem_cons_self s hs
    intro v hv
    rw [visits, List.mem_cons] at hv
    obtain rfl | hv := hv
    · exact hvisit _ hbegun
    · split at hv
      · simp at hv
      · rename_i r s' hrun
        exact ih (fun c hc => hchange c (List.mem_cons_of_mem _ hc)) (hstep _ hbegun r s' hrun) v hv

/-- What holds of every visit holds of those of a run. -/
theorem forall_mem_visits {P : Visit ρ → Prop} (h : ∀ s, P (visit env tick observe node s))
    (changes : List (State → State)) (s : State) :
    ∀ v ∈ visits env tick observe node changes s, P v :=
  @forall_mem_visits_of_invariant ρ env tick observe node (fun _ => True) (fun _ => True) P
    (fun s _ => h s) (fun _ _ _ _ _ => trivial) changes (fun _ _ _ _ => trivial) s trivial

/-- CLOSE ends and does not raise. -/
theorem closeIfDone_returns (status : Option Status) (s : State) :
    ∃ s', closeIfDone node status s = some (.ok ⟨⟩, s') := by
  unfold closeIfDone
  split
  · exact ⟨s, rfl⟩
  · exact ⟨_, rfl⟩

/-- An execution, in its two halves. -/
theorem baseExecute_eq (s : State) :
    baseExecute env tick node s =
      (enterAndOpen env node >>= fun _ => do
        let result ← tick
        closeIfDone node result.1
        log fun s => .executed (s.key node.id) node result.2 result.1
        return result.1) s := by
  simp only [baseExecute, enterAndOpen, Comp.bind_apply]
  rcases enter env node s with - | ⟨e | ⟨⟨⟩⟩, s₁⟩
  · rfl
  · rfl
  · rfl

/-- An execution comes to what ENTER and OPEN come to if they raise, and else to what the `tick` returns
or raises. -/
theorem baseExecute_outcome (s : State) :
    (baseExecute env tick node s).map Prod.fst =
      match enterAndOpen env node s with
      | none => none
      | some (.error e, _) => some (.error e)
      | some (.ok _, s') => (tick s').map fun r => r.1.map Prod.fst := by
  rw [baseExecute_eq, Comp.bind_apply]
  rcases enterAndOpen env node s with - | ⟨e | ⟨⟨⟩⟩, s₁⟩
  · rfl
  · rfl
  · simp only [Comp.bind_apply]
    rcases tick s₁ with - | ⟨e | result, s₂⟩
    · rfl
    · rfl
    · obtain ⟨s₃, hclose⟩ := closeIfDone_returns node result.1 s₂
      simp only [hclose]
      rfl

end Visits

end AntServer.Behavior3
