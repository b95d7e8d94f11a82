/-
# AntServer.Entitas.Context — entities, their components, and groups

The entity component system of `lualib/entitas`. A context makes entities, and takes the destroyed ones
again for new entities. An entity has components, each under the name of its type, and a component is a
table of fields; a released component is made again from what is in it. A group is the set of the entities
that a matcher matches: the context looks at it when a component is added, removed or replaced that
concerns the matcher (`match_one`), and the functions of its delegates are told of each change.

An entity is the number of its object, so that a handle of a destroyed entity is one of the entity made
from it. The functions of the delegates are one function of an event and their own state, which gives no
state when it raises an error; what they do to the context is not here. An argument is a value, or none for
`nil` and `false`.
-/
import AntServer.Lib.Machine
import AntServer.Lib.Table
import Mathlib.Data.Finset.Basic

namespace AntServer.Entitas

open Lib

variable {N F V L : Type*} [DecidableEq N] [DecidableEq F]

/-! ## Components -/

/-- `_replace` of a component: the fields of `keys` are given values, up to the first argument without
one. -/
def replaceFields : List F → List (Option V) → Table F V → Table F V
  | key :: keys, some n :: args, t => replaceFields keys args (t.set key n)
  | _, _, t => t

/-! ## Entities -/

structure Entity (N F V : Type*) where
  uid : Nat
  enabled : Bool
  components : Table N (Table F V)

/-- `has`. -/
def Entity.has (e : Entity N F V) (name : N) : Bool := (e.components.get name).isSome

/-- `activate`. -/
def Entity.activate (uid : Nat) (e : Entity N F V) : Entity N F V := { e with uid := uid, enabled := true }

/-! ## Matchers -/

structure Matcher (N : Type*) where
  allOf : Option (List N)
  anyOf : Option (List N)
  noneOf : Option (List N)
  deriving DecidableEq

/-- `has_all`, of an entity that has the components `has`. -/
def hasAll (has : N → Bool) (compTypes : List N) : Bool :=
  if compTypes.isEmpty then false else compTypes.all has

/-- `has_any`. -/
def hasAny (has : N → Bool) (compTypes : List N) : Bool :=
  if compTypes.isEmpty then false else compTypes.any has

namespace Matcher

def matchNames (m : Matcher N) (has : N → Bool) : Bool :=
  m.allOf.all (hasAll has) && m.anyOf.all (hasAny has) && m.noneOf.all fun l => !hasAny has l

/-- `match_entity`. -/
def matchEntity (m : Matcher N) (e : Entity N F V) : Bool := m.matchNames e.has

/-- `match_one`. -/
def matchOne (m : Matcher N) (name : N) : Bool :=
  m.allOf.all (·.contains name) && m.anyOf.all (·.contains name) && m.noneOf.all (!·.contains name)

end Matcher

/-! ## Groups -/

/-- The delegates of a group. -/
inductive Kind where
  | added
  | removed
  | updated
  deriving DecidableEq

/-- A call of the functions of a delegate. -/
structure Event (N F V : Type*) where
  matcher : Matcher N
  kind : Kind
  entity : Nat
  name : N
  value : Table F V

/-- `handle_entity_silently`. -/
def handleEntitySilently (m : Matcher N) (o : Nat) (e : Entity N F V) (group : Finset Nat) : Finset Nat :=
  if m.matchEntity e then insert o group else group.erase o

/-- `handle_entity`: the group, and the delegate that is called. -/
def handleEntity (o : Nat) (e : Entity N F V) (isremove : Bool) (m : Matcher N) (group : Finset Nat) :
    Finset Nat × Option Kind :=
  if !isremove && m.matchEntity e then (insert o group, if o ∈ group then none else some .added)
  else (group.erase o, if o ∈ group then some .removed else none)

/-- `update_entity`. -/
def updateEntity (o : Nat) (_ : Matcher N) (group : Finset Nat) : Finset Nat × Option Kind :=
  (group, if o ∈ group then some .updated else none)

/-! ## The context -/

structure Context (N F V L : Type*) where
  /-- every entity that was made -/
  objects : List (Entity N F V)
  /-- the entity of a uid -/
  entities : Table Nat Nat
  /-- the last one first -/
  pool : List Nat
  uuid : Nat
  size : Int
  groups : Table (Matcher N) (Finset Nat)
  /-- the released components of a type, the last one first -/
  caches : Table N (List (Table F V))
  listeners : L

namespace Context

def new (listeners : L) : Context N F V L := ⟨[], .empty, [], 1, 0, .empty, .empty, listeners⟩

/-- `create_entity`. -/
def createEntity (s : Context N F V L) : Context N F V L :=
  let o := s.pool.head?.getD s.objects.length
  { s with
    objects := match s.pool with
      | o :: _ => s.objects.modify o (Entity.activate s.uuid)
      | [] => s.objects ++ [Entity.activate s.uuid ⟨0, false, .empty⟩]
    pool := s.pool.tail
    uuid := s.uuid + 1
    entities := s.entities.set s.uuid o
    size := s.size + 1 }

/-- One turn of the loop of `get_group`. -/
def handleNext (s : Context N F V L) (m : Matcher N) (group : Finset Nat) (uid : Nat) : Finset Nat :=
  match s.entities.get uid with
  | some o => match s.objects[o]? with
    | some e => handleEntitySilently m o e group
    | none => group
  | none => group

/-- `get_group`. -/
def getGroup (s : Context N F V L) (m : Matcher N) : Context N F V L :=
  match s.groups.get m with
  | some _ => s
  | none => { s with groups := s.groups.set m (s.entities.keys.foldl (s.handleNext m) ∅) }

/-- The groups after `f` has handled those that a component concerns. -/
def handled (s : Context N F V L) (name : N) (f : Matcher N → Finset Nat → Finset Nat × Option Kind) :
    Table (Matcher N) (Finset Nat) :=
  s.groups.filterMap fun m group => some (if m.matchOne name then (f m group).1 else group)

/-- The delegates that are called when `f` handles the groups. -/
def calls (s : Context N F V L) (o : Nat) (name : N) (value : Table F V)
    (f : Matcher N → Finset Nat → Finset Nat × Option Kind) : List (Event N F V) :=
  s.groups.keys.filterMap fun m => (s.groups.get m).bind fun group =>
    if m.matchOne name then (f m group).2.map (Event.mk m · o name value) else none

variable (on : Event N F V → L → Option L)

/-- `_comp_added`, `_comp_removed` and `_comp_replaced`, where `f` handles a group. -/
def dispatch (s : Context N F V L) (o : Nat) (name : N) (value : Table F V)
    (f : Matcher N → Finset Nat → Finset Nat × Option Kind) : Option (Context N F V L) :=
  ((s.calls o name value f).foldlM (fun l e => on e l) s.listeners).map fun l =>
    { s with groups := s.handled name f, listeners := l }

/-- The object of an entity is changed. -/
def setEntity (s : Context N F V L) (o : Nat) (e : Entity N F V) : Context N F V L :=
  { s with objects := s.objects.set o e }

/-- A component is put into an entity, and the context is told of it: `comp_added`. -/
def addComponent (s : Context N F V L) (o : Nat) (e : Entity N F V) (name : N) (value : Table F V) :
    Option (Context N F V L) :=
  let e := { e with components := e.components.set name value }
  (s.setEntity o e).dispatch on o name value (handleEntity o e false)

/-- `_replace` of an entity without a value: the component is taken out and released, and the context is
told of it: `comp_removed`. -/
def removeComponent (s : Context N F V L) (o : Nat) (e : Entity N F V) (name : N) (value : Table F V) :
    Option (Context N F V L) :=
  let e := { e with components := e.components.del name }
  let cache := (s.caches.get name).getD []
  ({ s.setEntity o e with caches := s.caches.set name (value :: cache) } : Context N F V L).dispatch on o
    name value (handleEntity o e true)

/-- A component has new values, and the context is told of it: `comp_replaced`. -/
def replaceComponent (s : Context N F V L) (o : Nat) (e : Entity N F V) (name : N) (value : Table F V) :
    Option (Context N F V L) :=
  (s.setEntity o { e with components := e.components.set name value }).dispatch on o name value
    (updateEntity o)

variable (keys : N → List F)

/-- `add`; none when an error is raised. The component is one of the released ones, if there are any. -/
def add (s : Context N F V L) (o : Nat) (name : N) (args : List (Option V)) : Option (Context N F V L) :=
  (s.objects[o]?).bind fun e =>
    if !e.enabled then none
    else if e.has name then none
    else
      let cache := (s.caches.get name).getD []
      let value := replaceFields (keys name) args (cache.head?.getD .empty)
      ({ s with caches := s.caches.set name cache.tail } : Context N F V L).addComponent on o e name value

/-- `remove`. -/
def remove (s : Context N F V L) (o : Nat) (name : N) : Option (Context N F V L) :=
  (s.objects[o]?).bind fun e =>
    if !e.enabled then none
    else (e.components.get name).bind fun value => s.removeComponent on o e name value

/-- `replace`. Without a value for the first argument the component is removed. -/
def replace (s : Context N F V L) (o : Nat) (name : N) (args : List (Option V)) :
    Option (Context N F V L) :=
  (s.objects[o]?).bind fun e =>
    if !e.enabled then none
    else
      match e.components.get name, args with
      | none, args => s.add on keys o name args
      | some value, some n :: args =>
        s.replaceComponent on o e name (replaceFields (keys name) (some n :: args) value)
      | some value, _ => s.removeComponent on o e name value

/-- One turn of the loop of `remove_all`. -/
def removeNext (o : Nat) (s : Context N F V L) (name : N) : Option (Context N F V L) :=
  (s.objects[o]?).bind fun e =>
    match e.components.get name with
    | some value => s.removeComponent on o e name value
    | none => some s

/-- `remove_all`. -/
def removeAll (s : Context N F V L) (o : Nat) : Option (Context N F V L) :=
  (s.objects[o]?).bind fun e => e.components.keys.foldlM (removeNext on o) s

/-- `destroy_entity`. -/
def destroyEntity (s : Context N F V L) (o : Nat) : Option (Context N F V L) :=
  (s.objects[o]?).bind fun e =>
    if (s.entities.get e.uid).isNone then none
    else ((s.setEntity o { e with enabled := false }).removeAll on o).map fun s => { s with
      entities := s.entities.del e.uid
      pool := o :: s.pool
      size := s.size - 1 }

end Context

inductive Action (N V : Type*) where
  | createEntity
  | destroyEntity (o : Nat)
  | getGroup (m : Matcher N)
  | add (o : Nat) (name : N) (args : List (Option V))
  | remove (o : Nat) (name : N)
  | replace (o : Nat) (name : N) (args : List (Option V))

variable (on : Event N F V → L → Option L) (keys : N → List F)

def step (s : Context N F V L) : Action N V → Option (Context N F V L)
  | .createEntity => some s.createEntity
  | .destroyEntity o => s.destroyEntity on o
  | .getGroup m => some (s.getGroup m)
  | .add o name args => s.add on keys o name args
  | .remove o name => s.remove on o name
  | .replace o name args => s.replace on keys o name args

/-- The context from its making on. An action that raises an error is not a step. -/
def context : Machine (Context N F V L) (Action N V) where
  start s := ∃ l, s = .new l
  step := step on keys

end AntServer.Entitas
