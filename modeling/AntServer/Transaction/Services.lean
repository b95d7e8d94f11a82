/-
# AntServer.Transaction.Services — clients, services and transactiond

The system around `lualib/transaction/transaction.lua`: clients that create a session, call services
and release it; services whose dispatch function is `transaction.dispatch`; and `transactiond`.
Messages are delivered in any order.

A service keeps one object for each session in `session_pool`, with a `skynet.queue` of its own. A
queue holds the coroutine that has it (`current_thread`) and the coroutines that wait for it; the
first call of a session holds it while it queries the lock, and every call holds it while its action
runs. An action may call services for its session, and returns when these calls have returned; what
else an action does, and for how long it runs, is left open.
-/
import AntServer.Lib.Machine
import AntServer.Lib.Mailbox
import AntServer.Transaction.Lock

namespace AntServer.Transaction

open Lib Mailbox

/-- The address of a service. -/
abbrev Service := Nat

/-! ## The parties and what they send -/

/-- A call of a service, by a client or by a running action (`parent`). -/
structure Call where
  id : Nat
  service : Service
  session : Session
  parent : Option Nat
  deriving DecidableEq

/-- What the coroutine that holds a queue does. -/
inductive Stage where
  /-- `query_lock`: it waits for the answer to its query -/
  | query
  /-- it was woken up, and is to run its action -/
  | woken
  /-- its action runs -/
  | action
  deriving DecidableEq

/-- The object `query_session` returns, with the state of its `_queue`. -/
structure Object where
  service : Service
  session : Session
  current : Option (Call × Stage)
  threads : List Call
  deriving DecidableEq

/-- Who has sent a request to `transactiond`. -/
inductive Sender where
  | create (client : Nat)
  | query (object : Nat) (session : Session)
  | link (service : Service) (session : Session)
  | release (session : Session)
  deriving DecidableEq

inductive Msg where
  | create (client : Nat)
  | created (client : Nat) (session : Session)
  | call (c : Call)
  | callRet (c : Call)
  | query (object : Nat) (session : Session)
  | queryRet (object : Nat) (session : Session)
  | link (service : Service) (session : Session)
  | linkRet (service : Service) (session : Session)
  | release (session : Session)
  | releaseRet (session : Session)
  deriving DecidableEq

structure World where
  transactiond : Pool Sender
  /-- the objects that were made, a number each -/
  objects : List Object
  /-- `session_pool` of the services -/
  sessionPool : Table (Service × Session) Nat
  /-- the sessions that clients have got -/
  sessions : List Session
  /-- the sessions that clients have released -/
  released : List Session
  /-- the calls that have not returned to their caller -/
  pending : List Call
  /-- the number of the next call -/
  calls : Nat
  net : List Msg

/-- What happens next. -/
inductive Action where
  /-- a client calls `transaction.create` -/
  | create (client : Nat)
  /-- a client calls a service for its session -/
  | call (session : Session) (service : Service)
  /-- a client releases its session -/
  | release (session : Session)
  /-- a message is delivered -/
  | deliver (m : Msg)
  /-- a coroutine that was woken up runs -/
  | wake (object : Nat)
  /-- the running action calls a service for its session -/
  | nested (object : Nat) (service : Service)
  /-- the running action returns -/
  | finish (object : Nat)

namespace Object

/-! ## The queue of an object -/

/-- Make a coroutine wait for the queue, or run its action. -/
def enter (o : Object) (c : Call) : Object :=
  match o.current with
  | none => { o with current := some (c, .action) }
  | some _ => { o with threads := o.threads ++ [c] }

/-- The coroutine that has the queue leaves it: the next one is woken up. -/
def leave (o : Object) : Object :=
  match o.threads with
  | [] => { o with current := none }
  | d :: ds => { o with current := some (d, .woken), threads := ds }

/-- The calls whose coroutines are in the queue. -/
def calls (o : Object) : List Call := (o.current.map Prod.fst).toList ++ o.threads

/-- The queue is held for the query. -/
def Querying (o : Object) : Prop := ∃ c, o.current = some (c, .query)

end Object

/-! ## The world -/

/-- The answer of `transactiond` to a request. -/
def Sender.answer (pool : Pool Sender) : Sender → Msg
  | .create client => .created client pool.id
  | .query object session => .queryRet object session
  | .link service session => .linkRet service session
  | .release session => .releaseRet session

namespace World

def init : World where
  transactiond := .init
  objects := []
  sessionPool := .empty
  sessions := []
  released := []
  pending := []
  calls := 0
  net := []

def send (w : World) (ms : List Msg) : World := { w with net := w.net ++ ms }

def setObject (w : World) (i : Nat) (o : Object) : World := { w with objects := w.objects.set i o }

/-- `transactiond` handles a request; its answers are sent. -/
def ask (w : World) (sender : Sender) (request : Request) : World :=
  let pool := after (dispatch sender request { w.transactiond with sent := [] })
  { w with
    transactiond := pool
    net := w.net ++ pool.sent.map fun x => x.1.answer pool }

/-! ## What a party does -/

/-- Call a service for a session. -/
def newCall (w : World) (session : Session) (service : Service) (parent : Option Nat) : World :=
  let c : Call := ⟨w.calls, service, session, parent⟩
  { w with
    calls := w.calls + 1
    pending := w.pending ++ [c]
    net := w.net ++ [.call c] }

/-- `transaction.dispatch`: the object of the session, or a new one whose queue is held for the
query. -/
def dispatchCall (w : World) (c : Call) : World :=
  match w.sessionPool.get (c.service, c.session) with
  | some i =>
    match w.objects[i]? with
    | some o => w.setObject i (o.enter c)
    | none => w
  | none =>
    { w with
      objects := w.objects ++ [⟨c.service, c.session, some (c, .query), []⟩]
      sessionPool := w.sessionPool.set (c.service, c.session) w.objects.length
      net := w.net ++ [.query w.objects.length c.session] }

/-- The rest of the first call: the query is answered, the queue is left and entered again for the
action, and `watch_session` is forked. -/
def queryDone (w : World) (i : Nat) : World :=
  match w.objects[i]? with
  | some o =>
    match o.current with
    | some (c, .query) => (w.setObject i (o.leave.enter c)).send [.link o.service o.session]
    | _ => w
  | none => w

/-- Handle a message. -/
def handle (w : World) : Msg → World
  | .create client => w.ask (.create client) .create
  | .created _ session => { w with sessions := w.sessions ++ [session] }
  | .call c => w.dispatchCall c
  | .callRet c => { w with pending := w.pending.erase c }
  | .query object session => w.ask (.query object session) (.query session)
  | .queryRet object _ => w.queryDone object
  | .link service session => w.ask (.link service session) (.link session)
  | .linkRet service session => { w with sessionPool := w.sessionPool.del (service, session) }
  | .release session => w.ask (.release session) (.release session)
  | .releaseRet _ => w

/-! ## The steps -/

/-- One step of the system. -/
def step (w : World) : Action → Option World
  | .create client => some (w.send [.create client])
  | .call session service =>
    if session ∈ w.sessions ∧ session ∉ w.released then
      some (w.newCall session service none)
    else none
  | .release session =>
    if session ∈ w.sessions ∧ session ∉ w.released ∧
        ∀ c ∈ w.pending, c.session = session → c.parent.isSome then
      some ({ w with released := w.released ++ [session] }.send [.release session])
    else none
  | .deliver m =>
    if m ∈ w.net then some ({ w with net := w.net.erase m }.handle m) else none
  | .wake i =>
    match w.objects[i]? with
    | some o =>
      match o.current with
      | some (c, .woken) => some (w.setObject i { o with current := some (c, .action) })
      | _ => none
    | none => none
  | .nested i service =>
    match w.objects[i]? with
    | some o =>
      match o.current with
      | some (c, .action) => some (w.newCall o.session service (some c.id))
      | _ => none
    | none => none
  | .finish i =>
    match w.objects[i]? with
    | some o =>
      match o.current with
      | some (c, .action) =>
        if ∀ d ∈ w.pending, d.parent ≠ some c.id then
          some ((w.setObject i o.leave).send [.callRet c])
        else none
      | _ => none
    | none => none

/-- The system as a machine. -/
def system : Machine World Action where
  start w := w = init
  step := step

/-! ## The sessions -/

/-- An action of the session runs. -/
def Runs (w : World) (s : Session) : Prop :=
  ∃ o ∈ w.objects, o.session = s ∧ o.current.map Prod.snd = some .action

instance (w : World) (s : Session) : Decidable (w.Runs s) := inferInstanceAs (Decidable (∃ _ ∈ _, _))

end World

end AntServer.Transaction
