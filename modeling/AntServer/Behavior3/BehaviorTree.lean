/-
# AntServer.Behavior3.BehaviorTree — a tick of a behaviour tree

`BaseNode:_execute` and `BehaviorTree:tick` over the classes of `Behavior3.Nodes`. The recursion over
the tree and through `SubTree` takes a bound, which also bounds the rounds of a `Repeater`: a tick that
does not end has no result under any bound.

`_openNodes` is filled by `table.insert`, so it begins at the index 1, and the tick reads its index 0.
That is nil, whatever the tick entered: the `openNodes` of the blackboard are always empty, and the loop
that is to close the nodes of the last tick closes none (`State.Unlisted`).

A run is a sequence of ticks on one blackboard. The trace of a tick is what happened in it.
-/
import AntServer.Behavior3.Nodes

namespace AntServer.Behavior3

open Lib (Table Comp)

/-- The element of an array at an index, which begins at 1. -/
def arrayGet (array : List Node) (i : Nat) : Option Node :=
  if i = 0 then none else array[i - 1]?

/-- What a value is as an array: a node has no elements. -/
def asArray : Option Node → List Node
  | none => []
  | some _ => []

section Execute

variable (env : Env)

/-- `_enter`: the count and the list of the tick. -/
def enter (node : Node) : M Unit := do
  log fun s => .entered (s.key node.id) node (s.memory node.id) (env.leaf s.leaves)
  Comp.update fun s => { s with tick :=
    { s.tick with nodeCount := s.tick.nodeCount + 1, openNodes := s.tick.openNodes ++ [node] } }

/-- `_open`. -/
def openNode (node : Node) : M Unit := do
  log fun s => .opened (s.key node.id)
  setMemory node.id fun m => { m with isOpen := true }
  openHook env node

/-- `_close`: no class has a `close`. -/
def closeNode (node : Node) : M Unit := do
  log fun s => .closed (s.key node.id)
  setMemory node.id fun m => { m with isOpen := false }

/-- OPEN in `_execute`. -/
def openIfClosed (node : Node) : M Unit := do
  let memory ← getMemory node.id
  if memory.isOpen then return ⟨⟩ else openNode env node

/-- CLOSE in `_execute`. -/
def closeIfDone (node : Node) (status : Option Status) : M Unit :=
  if status = some .running then return ⟨⟩ else closeNode node

/-- `_execute`, given `tick` of the node's class. -/
def baseExecute (tick : M (Option Status × List (Option Status))) (node : Node) :
    M (Option Status) := do
  enter env node
  openIfClosed env node
  let result ← tick
  closeIfDone node result.1
  log fun s => .executed (s.key node.id) node result.2 result.1
  return result.1

/-- The loop over the open nodes of the last tick, from the last one down to the index 0. -/
def closeLast (lastOpenNodes : List Node) : Nat → M Unit
  | 0 =>
    match arrayGet lastOpenNodes 0 with
    | none => return ⟨⟩
    | some node => closeNode node
  | i + 1 => do
    match arrayGet lastOpenNodes (i + 1) with
    | none => pure ⟨⟩
    | some node => closeNode node
    closeLast lastOpenNodes i

/-- `behaviorTree:tick`, after `tick.tree` is set. The index at which the two lists begin to differ is
computed there too, and not used. -/
def treeTick (execute : Node → M (Option Status)) (tree : Tree) : M (Option Status) := do
  let outer ← Comp.read State.tick
  Comp.update fun s => { s with tick := { tree := tree.id } }
  let state ← execute tree.root
  let lastOpenNodes ← Comp.read fun s => (s.blackboard.openNodes.get tree.id).getD []
  closeLast lastOpenNodes lastOpenNodes.length
  Comp.update fun s => { s with
    tick := outer
    blackboard := { s.blackboard with
      openNodes := s.blackboard.openNodes.set tree.id (asArray (arrayGet s.tick.openNodes 0))
      nodeCount := s.blackboard.nodeCount.set tree.id s.tick.nodeCount } }
  return state

/-- `node:_execute(tick)`. -/
def execute : Nat → Node → M (Option Status)
  | 0, _ => Comp.diverge
  | fuel + 1, node =>
    baseExecute env (tickHook env (execute fuel) (treeTick (execute fuel)) fuel node) node

/-- `tree:tick(target, blackboard)`, with a trace of its own. -/
def tickTree (fuel : Nat) (tree : Tree) (s : State) : Option (Except LuaError (Option Status) × State) :=
  treeTick (execute env fuel) tree { s with trace := [] }

/-- A sequence of ticks on one blackboard; a tick that raises ends, and the next one goes on with what
it left. -/
def ticks (fuel : Nat) : List Tree → State → Option State
  | [], s => some s
  | tree :: trees, s => (tickTree env fuel tree s).bind fun r => ticks fuel trees r.2

end Execute

/-- A new blackboard. -/
def State.initial : State where
  blackboard := .new
  tick := { tree := "" }
  leaves := 0
  clocks := 0
  trace := []

end AntServer.Behavior3
