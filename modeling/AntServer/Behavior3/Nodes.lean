/-
# AntServer.Behavior3.Nodes — the node classes of the behaviour trees

`service/scene/behavior3/`: the blackboard, the object of a tick, and what each class of nodes does in
`open` and `tick`. The recursion over the tree is in `Behavior3.BehaviorTree`; here the execution of a
child is the argument `execute`.

Several classes cannot do what they say. `Selector` calls `table.getn`, which Lua no longer has; `Wait`
and `Limiter` compare with a field that is never set; `Limiter`, `MaxTime` and the two `RepeatUntil` call
a method of the blackboard with a dot; `MaxTime` has its work in `open`; the loop of `Repeater` assigns
a `status` of its own. Each of them is here as it is.

A `tick` also gives the statuses of the children it executed, which the source does not collect.
-/
import AntServer.Lib.Comp
import AntServer.Lib.Table
import AntServer.Lua

namespace AntServer.Behavior3

open Lib (Table Comp)

/-- `b3.SUCCESS`, `b3.FAILURE`, `b3.RUNNING`, `b3.ERROR`. -/
inductive Status where
  | success
  | failure
  | running
  | error
  deriving DecidableEq, Repr

inductive ActionClass where
  | error
  | failer
  | runner
  | succeeder
  | wait
  deriving DecidableEq, Repr

inductive CompositeClass where
  | memPriority
  | memSequence
  | priority
  | selector
  | sequence
  deriving DecidableEq, Repr

/-- `maxLoop` is a number, or a value that cannot be compared with one. -/
inductive DecoratorClass where
  | inverter
  | limiter
  | maxTime
  | repeatUntilFailure
  | repeatUntilSuccess
  | repeater (maxLoop : Option Rat)
  deriving DecidableEq, Repr

/-- A node with its id. `base` is one whose class leaves `tick` to `BaseNode`, `custom` one of a class
that is not of the framework. -/
inductive Node where
  | base (id : String)
  | custom (id : String)
  | action (id : String) (cls : ActionClass)
  | subTree (id : String) (name : String)
  | composite (id : String) (cls : CompositeClass) (children : List Node)
  | decorator (id : String) (cls : DecoratorClass) (child : Option Node)

def Node.id : Node → String
  | .base id | .custom id | .action id _ | .subTree id _ | .composite id _ _ | .decorator id _ _ => id

/-- A behaviour tree: its id and its root. -/
structure Tree where
  id : String
  root : Node

/-- What the blackboard keeps for a node; a field that was never set is nil. -/
structure NodeMemory where
  isOpen : Bool := false
  runningChild : Option Nat := none
  i : Option Int := none
  startTime : Option Int := none
  deriving DecidableEq, Repr

/-- A node in the memory of a blackboard: the ids of its tree and of itself. -/
abbrev Key := String × String

/-- `Blackboard`: the memories of the nodes, and `openNodes` and `nodeCount` of the trees. -/
structure Blackboard where
  nodeMemory : Table Key NodeMemory
  openNodes : Table String (List Node)
  nodeCount : Table String Nat

/-- `Blackboard.new()`. -/
def Blackboard.new : Blackboard where
  nodeMemory := Table.empty
  openNodes := Table.empty
  nodeCount := Table.empty

/-- `_getNodeMemory`: a memory is made empty when it is asked for. -/
def Blackboard.memory (b : Blackboard) (k : Key) : NodeMemory := (b.nodeMemory.get k).getD {}

def Blackboard.setMemory (b : Blackboard) (k : Key) (f : NodeMemory → NodeMemory) : Blackboard :=
  { b with nodeMemory := b.nodeMemory.set k (f (b.memory k)) }

theorem Blackboard.memory_setMemory (b : Blackboard) (k k' : Key) (f : NodeMemory → NodeMemory) :
    (b.setMemory k f).memory k' = if k' = k then f (b.memory k) else b.memory k' := by
  unfold setMemory memory
  rw [Table.get_set]
  split <;> rfl

/-- `Tick`: the id of its tree, and what `_enterNode` writes. -/
structure Tick where
  tree : String
  openNodes : List Node := []
  nodeCount : Nat := 0

/-- What the `tick` of a custom node comes to. -/
inductive LeafResult where
  | value (status : Option Status)
  | raised
  deriving DecidableEq, Repr

/-- What the framework is given: the function of `SetSubTreeLoadFunc`, the results of the custom nodes
and the values of `os.time()` in the order in which they are asked for. -/
structure Env where
  subTreeLoadFunc : Option (String → Option Tree)
  leaf : Nat → LeafResult
  time : Nat → Int

/-- What happens in a tick. `entered` has the memory of the node and the next result of a custom node,
`executed` the statuses of the children it executed and its own. -/
inductive Event where
  | entered (key : Key) (node : Node) (memory : NodeMemory) (next : LeafResult)
  | opened (key : Key)
  | closed (key : Key)
  | executed (key : Key) (node : Node) (ran : List (Option Status)) (status : Option Status)

def Event.key : Event → Key
  | .entered key _ _ _ | .opened key | .closed key | .executed key _ _ _ => key

structure State where
  blackboard : Blackboard
  tick : Tick
  leaves : Nat
  clocks : Nat
  trace : List Event

/-- A computation of the framework. -/
abbrev M := Comp State LuaError

/-- The key of a node of the tree that is ticked. -/
def State.key (s : State) (id : String) : Key := (s.tick.tree, id)

def State.memory (s : State) (id : String) : NodeMemory := s.blackboard.memory (s.key id)

/-- `tick.blackboard:get(.., tick.tree.id, self.id)`. -/
def getMemory (id : String) : M NodeMemory := Comp.read fun s => s.memory id

/-- `tick.blackboard:set(.., tick.tree.id, self.id)`. -/
def setMemory (id : String) (f : NodeMemory → NodeMemory) : M Unit :=
  Comp.update fun s => { s with blackboard := s.blackboard.setMemory (s.key id) f }

def log (event : State → Event) : M Unit :=
  Comp.update fun s => { s with trace := s.trace ++ [event s] }

/-- `os.time()`. -/
def osTime (env : Env) : M Int := do
  let n ← Comp.read State.clocks
  Comp.update fun s => { s with clocks := s.clocks + 1 }
  return env.time n

/-- The `tick` of a custom node. -/
def customTick (env : Env) : M (Option Status) := do
  let n ← Comp.read State.leaves
  Comp.update fun s => { s with leaves := s.leaves + 1 }
  match env.leaf n with
  | .value status => return status
  | .raised => Comp.raise (.raised "tick")

/-! ## Actions -/

/-- `wait:tick`: `self.endTime` is never set. -/
def waitTick (env : Env) (id : String) : M (Option Status) := do
  let currTime ← osTime env
  let memory ← getMemory id
  if memory.startTime = none ∨ memory.startTime = some 0 then
    setMemory id fun m => { m with startTime := some currTime }
  Comp.raise (.raised "attempt to compare nil with number")

def actionTick (env : Env) (id : String) : ActionClass → M (Option Status)
  | .error => return some .error
  | .failer => return some .failure
  | .runner => return some .running
  | .succeeder => return some .success
  | .wait => waitTick env id

/-! ## Composites -/

section Composites

variable (execute : Node → M (Option Status))

/-- The loop of the composites: go on with the next child while the status is `go`; `onRunning` is what
the class does with the index of a child that is running. -/
def childLoop (go : Status) (onRunning : Nat → M Unit) :
    Nat → List Node → List (Option Status) → M (Option Status × List (Option Status))
  | _, [], ran => return (some go, ran)
  | i, v :: vs, ran => do
    let status ← execute v
    if status ≠ some go then
      if status = some .running then
        onRunning i
      return (status, ran ++ [status])
    else
      childLoop go onRunning (i + 1) vs (ran ++ [status])

/-- `sequence:tick`. -/
def sequenceTick (children : List Node) : M (Option Status × List (Option Status)) :=
  childLoop execute .success (fun _ => return ⟨⟩) 1 children []

/-- `priority:tick`. -/
def priorityTick (children : List Node) : M (Option Status × List (Option Status)) :=
  childLoop execute .failure (fun _ => return ⟨⟩) 1 children []

/-- `memSequence:tick`: `runningChild` is read into a local that is not used. -/
def memSequenceTick (id : String) (children : List Node) :
    M (Option Status × List (Option Status)) := do
  let _child ← getMemory id
  childLoop execute .success
    (fun i => setMemory id fun m => { m with runningChild := some i }) 1 children []

/-- `memPriority:tick`. -/
def memPriorityTick (id : String) (children : List Node) :
    M (Option Status × List (Option Status)) := do
  let _child ← getMemory id
  childLoop execute .failure
    (fun i => setMemory id fun m => { m with runningChild := some i }) 1 children []

def compositeTick (id : String) (children : List Node) :
    CompositeClass → M (Option Status × List (Option Status))
  | .memPriority => memPriorityTick execute id children
  | .memSequence => memSequenceTick execute id children
  | .priority => priorityTick execute children
  | .selector => Comp.raise (.call "getn")
  | .sequence => sequenceTick execute children

end Composites

/-! ## Decorators -/

section Decorators

variable (execute : Node → M (Option Status))

/-- `inverter:tick` after the execution of the child. -/
def invert : Option Status → Option Status
  | some .success => some .failure
  | some .failure => some .success
  | status => status

/-- The condition of the loop of `repeater:tick`. -/
def repeaterGoesOn (maxLoop : Option Rat) (i : Option Int) : M Bool :=
  match maxLoop with
  | none => Comp.raise (.raised "attempt to compare")
  | some m =>
    if m < 0 then return true
    else
      match i with
      | none => Comp.raise (.raised "attempt to compare nil with number")
      | some i => return decide (i < m)

/-- The loop of `repeater:tick`, with a bound on its rounds. -/
def repeaterLoop (maxLoop : Option Rat) (child : Node) :
    Nat → Option Int → List (Option Status) → M (Option Int × List (Option Status))
  | 0, _, _ => Comp.diverge
  | n + 1, i, ran => do
    if ← repeaterGoesOn maxLoop i then
      let status ← execute child
      if status = some .success ∨ status = some .failure then
        match i with
        | none => Comp.raise (.arith "i")
        | some i => repeaterLoop maxLoop child n (some (i + 1)) (ran ++ [status])
      else
        return (i, ran ++ [status])
    else
      return (i, ran)

/-- `repeater:tick`: the `status` it returns is the outer one, which nothing assigns. -/
def repeaterTick (rounds : Nat) (id : String) (maxLoop : Option Rat) (child : Node) :
    M (Option Status × List (Option Status)) := do
  let memory ← getMemory id
  let ran ← repeaterLoop execute maxLoop child rounds memory.i []
  setMemory id fun m => { m with i := ran.1 }
  return (some .success, ran.2)

def decoratorTick (rounds : Nat) (id : String) :
    DecoratorClass → Option Node → M (Option Status × List (Option Status))
  | .maxTime, _ => return (none, [])
  | _, none => return (some .error, [])
  | .inverter, some child => do
    let status ← execute child
    return (invert status, [status])
  | .limiter, some _ => Comp.raise (.raised "attempt to compare with nil")
  | .repeatUntilFailure, some _ => Comp.raise (.call "_getMemory")
  | .repeatUntilSuccess, some _ => Comp.raise (.call "_getMemory")
  | .repeater maxLoop, some child => repeaterTick execute rounds id maxLoop child

end Decorators

/-! ## The hooks by class -/

/-- `open` of the node's class. What it returns is dropped. -/
def openHook (env : Env) : Node → M Unit
  | .composite id .memPriority _ => setMemory id fun m => { m with runningChild := some 0 }
  | .composite id .memSequence _ => setMemory id fun m => { m with runningChild := some 0 }
  | .decorator _ .limiter _ => Comp.raise (.call "_getMemory")
  | .decorator _ .maxTime none => return ⟨⟩
  | .decorator _ .maxTime (some _) => do
    let _currTime ← osTime env
    Comp.raise (.call "_getMemory")
  | .decorator _ .repeatUntilFailure _ => Comp.raise (.call "_getMemory")
  | .decorator _ .repeatUntilSuccess _ => Comp.raise (.call "_getMemory")
  | .decorator id (.repeater _) _ => setMemory id fun m => { m with i := some 0 }
  | _ => return ⟨⟩

/-- `tick` of the node's class. -/
def tickHook (env : Env) (execute : Node → M (Option Status)) (tickTree : Tree → M (Option Status))
    (rounds : Nat) : Node → M (Option Status × List (Option Status))
  | .base _ => return (none, [])
  | .custom _ => do
    let status ← customTick env
    return (status, [])
  | .action id cls => do
    let status ← actionTick env id cls
    return (status, [])
  | .subTree _ name =>
    match env.subTreeLoadFunc with
    | none => Comp.raise (.call "subTreeLoadFunc")
    | some load =>
      match load name with
      | none => Comp.raise (.raised ("subtree tick error:" ++ name))
      | some tree => do
        let status ← tickTree tree
        return (status, [])
  | .composite id cls children => compositeTick execute id children cls
  | .decorator id cls child => decoratorTick execute rounds id cls child

end AntServer.Behavior3
