/-
# AntServer.Game.System — a game node

The services of `Game.Gated`, `Game.HubSlave`, `Game.Hubd` and `Game.AgentPool` with the agents and
`agent_mgr`, and the messages between them. A step handles one message, or is something from outside:
a socket event, a message of the login node, a round of the token timeout, the answer of the launcher
or the database. A service handles its messages in the order they were sent, so what a step may choose is the
service; the answers from outside come in any order, and a call outside may fail. Every call is a
message and its answer, so every call is a point where anything else may happen.

A message of the login node and a socket event are handled when they happen; they could have been sent
at any time before, so this is no restriction. Of an agent only what the rest depends on is here: the
socket it talks to, and (`live`, a ghost) the accounts it has processed a `start` of and no `logout`
since. A call that fails ends the coroutine that made it.

`agent_slave` kills an agent that comes back to a full pool; what is sent to a killed agent is lost.
-/
import AntServer.Game.AgentPool
import AntServer.Game.Gated
import AntServer.Game.HubSlave
import AntServer.Lib.Machine
import AntServer.Lib.Mailbox

namespace AntServer.Game

open Lib (Table)

/-! ## The parties -/

/-- `_fd` of `lualib/service/client.lua` and `sessions.session` of an agent. -/
structure Agent where
  fd : Fd
  session : Session
  deriving DecidableEq, Repr

/-- A game node. An agent without an entry in `agents` has not been started for anybody yet. -/
structure Sys where
  gates : Protocol → Gate
  hub : Hub
  pools : Protocol → Pool
  agents : Table AgentAddr Agent
  killed : List AgentAddr
  live : List (AgentAddr × String)
  nextFd : Nat
  nextAgent : Nat
  net : List Msg

/-- The steps. An answer from outside is `none` when the call fails; of a loaded profile it is what
`start` returns. -/
inductive Action where
  | deliver (d : Addr)
  | resume (m : Msg) (answer : Option Nat)
  | connect (gate : Protocol) (ip : String)
  | data (fd : Fd) (req : ClientReq)
  | disconnect (fd : Fd)
  | access (uid secret serverId : String) (tm : Int)
  | loginKick (uid : String)
  | sweep (now : Int)
  deriving DecidableEq, Repr

namespace Sys

/-! ## The handling of a message -/

def send (s : Sys) (ms : List Msg) : Sys := { s with net := s.net ++ ms }

def setGate (s : Sys) (p : Protocol) (g : Gate) : Sys := { s with gates := Function.update s.gates p g }

def setPool (s : Sys) (p : Protocol) (P : Pool) : Sys := { s with pools := Function.update s.pools p P }

def setHub (s : Sys) (h : Hub) : Sys := { s with hub := h }

/-- `Commands:start` up to its first yield. -/
def agentStart (s : Sys) (a : AgentAddr) (session : Session) : Sys :=
  { s with
    agents := s.agents.set a { fd := session.fd, session := session }
    live := (a, session.openid) :: s.live }

/-- The next agent the launcher starts for `p`. -/
def newAgent (s : Sys) (p : Protocol) : AgentAddr := { protocol := p, id := s.nextAgent }

/-- A message that is taken from the messages in flight is handled. -/
def react (s : Sys) (answer : Option Nat) : Msg → Sys
  -- gated
  | .gateConnectRet conn => s.setGate conn.fd.gate ((s.gates conn.fd.gate).connectRet conn)
  | .gateLogoutRet fd cause => s.setGate fd.gate ((s.gates fd.gate).logoutRet fd cause)
  | .gateRegister gate uid agent co role =>
    let r := (s.gates gate).register co.fd uid agent
    (s.setGate gate r.1).send [.hubRegisterRet co agent role r.2]
  | .gateKick fd raw origin =>
    let r := (s.gates fd.gate).kick fd raw origin
    (s.setGate fd.gate r.1).send r.2
  -- hub_slave
  | .slaveConnect conn => s.send (HubSlave.connect conn)
  | .slaveConnectRet conn => s.send (HubSlave.connectRet conn)
  | .slaveLogout conn cause => s.send (HubSlave.logout conn cause)
  | .slaveKick _ uid origin => s.send (HubSlave.kick uid origin)
  | .slaveClient fd req => s.send (HubSlave.request fd req)
  | .slaveHandshakeRet fd args res => s.send (HubSlave.requestRet fd args res)
  -- hubd
  | .hubConnect conn => (s.setHub (s.hub.connect conn)).send [.slaveConnectRet conn]
  | .hubLogout conn _ => (s.setHub (s.hub.logout conn).1).send (s.hub.logout conn).2
  | .hubKick uid origin => s.send (s.hub.kick uid origin)
  | .hubHandshake fd args => (s.setHub (s.hub.handshake fd args).1).send (s.hub.handshake fd args).2
  | .hubGetRet co agent => (s.setHub (s.hub.getRet co agent).1).send (s.hub.getRet co agent).2
  | .hubStartRet co _ role => s.send (s.hub.startRet co role)
  | .hubRegisterRet co _ role res =>
    (s.setHub (s.hub.registerRet co role res).1).send (s.hub.registerRet co role res).2
  -- agent_mgr
  | .mgrGet protocol co => s.send [.poolGet protocol co]
  | .mgrGetRet co agent => s.send [.hubGetRet co agent]
  | .mgrRecycle agent => s.send [.poolRecycle agent]
  -- agent_slave
  | .poolGet protocol co =>
    let r := (s.pools protocol).get protocol co
    (s.setPool protocol r.1).send r.2
  | .poolRecycle agent =>
    let r := (s.pools agent.protocol).recycle agent
    { s.setPool agent.protocol r.1 with
      killed := if r.2 then agent :: s.killed else s.killed
      live := if r.2 then s.live.filter (·.1 ≠ agent) else s.live }
  -- an agent
  | .agentStart agent session co =>
    if agent ∈ s.killed then s else (s.agentStart agent session).send [.load agent co]
  | .agentLogout agent => if agent ∈ s.killed then s else s.send [.save agent]
  | .agentClient _ _ _ => s
  -- the launcher and the database
  | .spawn protocol co =>
    match answer with
    | none => s
    | some _ =>
      let r := (s.pools protocol).spawned protocol co (s.newAgent protocol)
      { (s.setPool protocol r.1).send r.2 with nextAgent := s.nextAgent + 1 }
  | .expand protocol co agent i =>
    match answer with
    | none => s
    | some _ =>
      let r := (s.pools protocol).expanded protocol co agent i (s.newAgent protocol)
      { (s.setPool protocol r.1).send r.2 with nextAgent := s.nextAgent + 1 }
  | .load agent co =>
    match answer with
    | none => s
    | some role => if agent ∈ s.killed then s else s.send [.hubStartRet co agent role]
  | .save agent =>
    let s := { s with live := s.live.filter (·.1 ≠ agent) }
    match answer with
    | none => s
    | some _ => if agent ∈ s.killed then s else s.send [.mgrRecycle agent]

/-! ## The steps -/

/-- The message a service handles next. -/
def next (s : Sys) (d : Addr) : Option (Msg × List Msg) := Lib.Mailbox.take Msg.dst d s.net

def step (s : Sys) : Action → Option Sys
  | .deliver d =>
    if d = .outside then none
    else (s.next d).map fun t => { s with net := t.2 }.react none t.1
  | .resume m answer =>
    if m.dst = .outside ∧ m ∈ s.net then some ({ s with net := s.net.erase m }.react answer m)
    else none
  | .connect p ip =>
    let r := (s.gates p).openSocket { gate := p, id := s.nextFd } ip
    some { (s.setGate p r.1).send r.2 with nextFd := s.nextFd + 1 }
  | .data fd req =>
    if ((s.gates fd.gate).sock.get fd).isSome then some (s.send ((s.gates fd.gate).message fd req))
    else none
  | .disconnect fd =>
    if ((s.gates fd.gate).sock.get fd).isSome then
      let r := (s.gates fd.gate).disconnect fd
      some ((s.setGate fd.gate r.1).send r.2)
    else none
  | .access uid secret serverId tm => some (s.setHub (s.hub.access uid secret serverId tm))
  | .loginKick uid => some (s.send (s.hub.kick uid none))
  | .sweep now => some (s.setHub (s.hub.handshakeTimeout now))

end Sys

/-- The agents in the two pools when the node opens: those of a pool have its protocol, and each is
there once. -/
structure Warm where
  agents : Protocol → List AgentAddr
  next : Nat
  protocol : ∀ p, ∀ a ∈ agents p, a.protocol = p
  below : ∀ p, ∀ a ∈ agents p, a.id < next
  nodup : ∀ p, (agents p).Nodup

/-- A game node that opens. -/
def Sys.init (warm : Warm) (maxclient : Protocol → Nat) : Sys where
  gates p :=
    { connection := Table.empty, client := Table.empty, clientNumber := 0, maxclient := maxclient p
      sock := Table.empty }
  hub :=
    { subid := 1, users := Table.empty, userMap := Table.empty, fdMap := Table.empty, notices := [] }
  pools p := { pool := warm.agents p, agentMap := warm.agents p, bound := [] }
  agents := Table.empty
  killed := []
  live := []
  nextFd := 1
  nextAgent := warm.next
  net := []

/-- The runs of a game node. -/
def node : Lib.Machine Sys Action where
  start s := ∃ warm maxclient, s = Sys.init warm maxclient
  step := Sys.step

namespace Sys

/-! ## What an action is about -/

/-- The message a step handles. -/
def handled (s : Sys) : Action → Option Msg
  | .deliver d => (s.next d).map Prod.fst
  | .resume m _ => some m
  | _ => none

/-- The account that the connection of a socket is registered for. -/
def account (s : Sys) (fd : Fd) : Option String :=
  ((s.gates fd.gate).connection.get fd).bind fun c => c.user.map ConnUser.uid

/-- The connection for which a step runs `close_agent` with its `logout`: at the command `kick` and at
the close event. -/
def closes (s : Sys) (a : Action) : Option Fd :=
  match s.handled a, a with
  | some (.gateKick fd false _), _ => some fd
  | _, .disconnect fd => some fd
  | _, _ => none

/-- The handshake that a step begins as a first login. -/
def logsIn (s : Sys) (a : Action) : Option HandshakeCo :=
  match s.handled a with
  | some (.hubHandshake fd args) =>
    match s.hub.verdict fd args with
    | .firstLogin subid _ _ => some { fd := fd, args := args, user := subid }
    | _ => none
  | _ => none

/-- The handshake that a step takes for a reconnect. -/
def reconnects (s : Sys) (a : Action) : Option HandshakeCo :=
  match s.handled a with
  | some (.hubHandshake fd args) =>
    match s.hub.verdict fd args with
    | .reconnect subid _ _ => some { fd := fd, args := args, user := subid }
    | _ => none
  | _ => none

theorem account_eq {s : Sys} {fd : Fd} {uid : String} : s.account fd = some uid ↔
    ∃ c user, (s.gates fd.gate).connection.get fd = some c ∧ c.user = some user ∧ user.uid = uid := by
  simp only [account, Option.bind_eq_some_iff, Option.map_eq_some_iff]
  constructor
  · rintro ⟨c, hc, user, huser, huid⟩
    exact ⟨c, user, hc, huser, huid⟩
  · rintro ⟨c, user, hc, huser, huid⟩
    exact ⟨c, hc, user, huser, huid⟩

/-- A property of the registered connections, checked along the gates. -/
theorem forall_account {s : Sys} {P : Fd → String → Prop} :
    (∀ fd uid, s.account fd = some uid → P fd uid) ↔
      ∀ p ∈ [Protocol.ws, .tcp], ∀ fd ∈ (s.gates p).connection.keys, ∀ uid ∈ s.account fd, P fd uid := by
  refine ⟨fun h p _ fd _ uid huid => h fd uid huid, fun h fd uid huid => ?_⟩
  obtain ⟨c, -, hc, -⟩ := account_eq.mp huid
  refine h fd.gate ?_ fd ((Table.mem_keys _ _).mpr (by rw [hc]; rfl)) uid huid
  cases fd.gate <;> simp

/-- A step handles one message in flight, or is something from outside. -/
inductive StepCase (s : Sys) : Action → Sys → Prop
  | message {a : Action} {m : Msg} {rest : List Msg} {answer : Option Nat} :
    s.handled a = some m → s.net.Perm (m :: rest) →
      StepCase s a ({ s with net := rest }.react answer m)
  | connect (p : Protocol) (ip : String) :
    StepCase s (.connect p ip)
      { (s.setGate p ((s.gates p).openSocket ⟨p, s.nextFd⟩ ip).1).send
        ((s.gates p).openSocket ⟨p, s.nextFd⟩ ip).2 with nextFd := s.nextFd + 1 }
  | data (fd : Fd) (req : ClientReq) :
    StepCase s (.data fd req) (s.send ((s.gates fd.gate).message fd req))
  | disconnect (fd : Fd) :
    StepCase s (.disconnect fd)
      ((s.setGate fd.gate ((s.gates fd.gate).disconnect fd).1).send ((s.gates fd.gate).disconnect fd).2)
  | access (uid secret serverId : String) (tm : Int) :
    StepCase s (.access uid secret serverId tm) (s.setHub (s.hub.access uid secret serverId tm))
  | loginKick (uid : String) : StepCase s (.loginKick uid) (s.send (s.hub.kick uid none))
  | sweep (now : Int) : StepCase s (.sweep now) (s.setHub (s.hub.handshakeTimeout now))

theorem step_cases {s s' : Sys} {a : Action} (h : s.step a = some s') : StepCase s a s' := by
  cases a with
  | deliver d =>
    simp only [step] at h
    split at h
    · cases h
    · obtain ⟨⟨m, rest⟩, hnext, rfl⟩ := Option.map_eq_some_iff.mp h
      exact .message (by rw [handled, hnext]; rfl) (Lib.Mailbox.take_perm hnext)
  | resume m answer =>
    simp only [step] at h
    split at h
    · rename_i hm
      cases h
      exact .message rfl (List.perm_cons_erase hm.2)
    · cases h
  | connect p ip =>
    cases h
    exact .connect p ip
  | data fd req =>
    simp only [step] at h
    split at h
    · cases h
      exact .data fd req
    · cases h
  | disconnect fd =>
    simp only [step] at h
    split at h
    · cases h
      exact .disconnect fd
    · cases h
  | access uid secret serverId tm =>
    cases h
    exact .access uid secret serverId tm
  | loginKick uid =>
    cases h
    exact .loginKick uid
  | sweep now =>
    cases h
    exact .sweep now

end Sys

/-! ## A node to run -/

/-- Each pool with two agents. -/
def twoAgents : Warm where
  agents p := [⟨p, 1⟩, ⟨p, 2⟩]
  next := 3
  protocol := by
    intro p a ha
    simp only [List.mem_cons, List.not_mem_nil, or_false] at ha
    rcases ha with rfl | rfl <;> rfl
  below := by
    intro p a ha
    simp only [List.mem_cons, List.not_mem_nil, or_false] at ha
    rcases ha with rfl | rfl <;> simp
  nodup := by intro p; cases p <;> decide

/-- A node that opens with them. -/
def opened : Sys := Sys.init twoAgents fun _ => 1024

theorem opened_start : node.start opened := ⟨_, _, rfl⟩

/-- A client connects, with nothing else in flight. -/
def connecting (p : Protocol) : List Action :=
  [.connect p "10.0.0.1:5000", .deliver (.slave p), .deliver .hubd, .deliver (.slave p),
    .deliver (.gate p)]

/-- A handshake request reaches `hubd` and is judged, with nothing else in flight. -/
def asking (fd : Fd) (args : HandshakeArgs) : List Action :=
  [.data fd (.handshake args), .deliver (.slave fd.gate), .deliver .hubd]

/-- A first login from the request to the registration of the connection, with nothing else in flight.
`agent` is the last one of the pool and `user` the record. -/
def enrolling (fd : Fd) (args : HandshakeArgs) (agent : AgentAddr) (user : Nat) : List Action :=
  asking fd args ++
    [.deliver .mgr, .deliver (.pool fd.gate), .deliver .mgr, .deliver .hubd, .deliver (.agent agent),
      .resume (.load agent ⟨fd, args, user⟩) (some 1), .deliver .hubd, .deliver (.gate fd.gate)]

/-- The same with the success and its answer. -/
def loggingIn (fd : Fd) (args : HandshakeArgs) (agent : AgentAddr) (user : Nat) : List Action :=
  enrolling fd args agent user ++ [.deliver .hubd, .deliver (.slave fd.gate)]

end AntServer.Game
