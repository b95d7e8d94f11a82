/-
# AntServer.Game.Messages — what the services of a game node say to each other

The services of a game node are the two gates (`gated` over `gateserver_ws` and `gateserver_tcp`),
a `hub_slave` for each gate, `hubd`, `agent_mgr`, an `agent_slave` for each protocol, and the agents.
They share nothing and send messages; a `skynet_call` is a message and, later, its answer, and at the
answer the calling coroutine goes on. What it then still needs travels with the message: the
handshake coroutine of `hubd` is `HandshakeCo`.

A socket id is one number in the whole node. `Fd.gate` is the gate that accepted the socket, which
`gated` passes on as `conn.protocol` and `hubd` keeps as `conn.gate`. A record of `User_Map` is a Lua
table that coroutines hold on to after it is replaced; its identity is the subid of its token.
-/
import Mathlib.Data.String.Basic

namespace AntServer.Game

/-- The protocols, each with a gate, a hub slave and an agent slave. -/
inductive Protocol where
  | ws
  | tcp
  deriving DecidableEq, Repr

/-- A socket id, and the gate that accepted the socket. -/
structure Fd where
  gate : Protocol
  id : Nat
  deriving DecidableEq, Repr

/-- The address of an agent, and the protocol it was started with. -/
structure AgentAddr where
  protocol : Protocol
  id : Nat
  deriving DecidableEq, Repr

/-- `conn.uid` and `conn.agent`, which `register` sets together. -/
structure ConnUser where
  uid : String
  agent : AgentAddr
  deriving DecidableEq, Repr

/-- A connection as a gate has it. -/
structure Conn where
  fd : Fd
  ip : String
  user : Option ConnUser
  deriving DecidableEq, Repr

/-- A connection as `hubd` has it. -/
structure HubConn where
  fd : Fd
  ip : String
  deriving DecidableEq, Repr

/-- The arguments of the client's `handshake` request. -/
structure HandshakeArgs where
  uid : String
  secret : String
  subid : String
  deriving DecidableEq, Repr

/-- A request of a client. What else than `handshake` it may be is the agent's business. -/
inductive ClientReq where
  | handshake (args : HandshakeArgs)
  | other (name : String)
  deriving DecidableEq, Repr

/-- What `CMD.handshake` of `hubd` returns: a code, and for some codes a pack with the role. -/
structure HandshakeRes where
  errcode : Nat
  pack : Option (Option Nat)
  deriving DecidableEq, Repr

/-- The handshake coroutine of `hubd`: its arguments and the record it works on. -/
structure HandshakeCo where
  fd : Fd
  args : HandshakeArgs
  user : Nat
  deriving DecidableEq, Repr

/-- The session table of a `start` message. -/
structure Session where
  fd : Fd
  openid : String
  secret : String
  serverId : String
  isReconnect : Bool
  deriving DecidableEq, Repr

/-- Who called `close_agent`: the command `kick`, or the close or error event of the socket. The
`origin` is a ghost: the connection whose rejected handshake the kick follows up. -/
inductive Cause where
  | kick (origin : Option Fd)
  | event
  deriving DecidableEq, Repr

/-- The rejected handshake a `close_agent` follows up. -/
def Cause.origin : Cause → Option Fd
  | kick origin => origin
  | event => none

/-- The services. `outside` stands for the launcher and the database. -/
inductive Addr where
  | gate (p : Protocol)
  | slave (p : Protocol)
  | hubd
  | mgr
  | pool (p : Protocol)
  | agent (a : AgentAddr)
  | outside
  deriving DecidableEq, Repr

/-- The messages, and the coroutines that wait for a service outside. An `origin` is a ghost: the
connection whose rejected handshake a kick or its logout follows up. -/
inductive Msg where
  -- to a gate
  | gateConnectRet (conn : Conn)
  | gateLogoutRet (fd : Fd) (cause : Cause)
  | gateRegister (gate : Protocol) (uid : String) (agent : AgentAddr) (co : HandshakeCo) (role : Nat)
  | gateKick (fd : Fd) (raw : Bool) (origin : Option Fd)
  -- to a hub slave
  | slaveConnect (conn : Conn)
  | slaveConnectRet (conn : Conn)
  | slaveLogout (conn : Conn) (cause : Cause)
  | slaveKick (slave : Protocol) (uid : String) (origin : Option Fd)
  | slaveClient (fd : Fd) (req : ClientReq)
  | slaveHandshakeRet (fd : Fd) (args : HandshakeArgs) (res : HandshakeRes)
  -- to hubd
  | hubConnect (conn : Conn)
  | hubLogout (conn : Conn) (origin : Option Fd)
  | hubKick (uid : String) (origin : Option Fd)
  | hubHandshake (fd : Fd) (args : HandshakeArgs)
  | hubGetRet (co : HandshakeCo) (agent : AgentAddr)
  | hubStartRet (co : HandshakeCo) (agent : AgentAddr) (role : Nat)
  | hubRegisterRet (co : HandshakeCo) (agent : AgentAddr) (role : Nat) (res : Bool)
  -- to agent_mgr
  | mgrGet (protocol : Protocol) (co : HandshakeCo)
  | mgrGetRet (co : HandshakeCo) (agent : AgentAddr)
  | mgrRecycle (agent : AgentAddr)
  -- to an agent slave
  | poolGet (protocol : Protocol) (co : HandshakeCo)
  | poolRecycle (agent : AgentAddr)
  -- to an agent
  | agentStart (agent : AgentAddr) (session : Session) (co : HandshakeCo)
  | agentLogout (agent : AgentAddr)
  | agentClient (agent : AgentAddr) (fd : Fd) (req : ClientReq)
  -- waiting for the launcher: `CMD.get` for its agent, and for the `i`-th one of `expand_pool`
  | spawn (protocol : Protocol) (co : HandshakeCo)
  | expand (protocol : Protocol) (co : HandshakeCo) (agent : AgentAddr) (i : Nat)
  -- waiting for the database: an agent in `start` and in `logout`
  | load (agent : AgentAddr) (co : HandshakeCo)
  | save (agent : AgentAddr)
  deriving DecidableEq, Repr

namespace Msg

/-- Where a message goes. -/
def dst : Msg → Addr
  | gateConnectRet conn => .gate conn.fd.gate
  | gateLogoutRet fd _ => .gate fd.gate
  | gateRegister gate _ _ _ _ => .gate gate
  | gateKick fd _ _ => .gate fd.gate
  | slaveConnect conn => .slave conn.fd.gate
  | slaveConnectRet conn => .slave conn.fd.gate
  | slaveLogout conn _ => .slave conn.fd.gate
  | slaveKick slave _ _ => .slave slave
  | slaveClient fd _ => .slave fd.gate
  | slaveHandshakeRet fd _ _ => .slave fd.gate
  | hubConnect _ => .hubd
  | hubLogout _ _ => .hubd
  | hubKick _ _ => .hubd
  | hubHandshake _ _ => .hubd
  | hubGetRet _ _ => .hubd
  | hubStartRet _ _ _ => .hubd
  | hubRegisterRet _ _ _ _ => .hubd
  | mgrGet _ _ => .mgr
  | mgrGetRet _ _ => .mgr
  | mgrRecycle _ => .mgr
  | poolGet protocol _ => .pool protocol
  | poolRecycle agent => .pool agent.protocol
  | agentStart agent _ _ => .agent agent
  | agentLogout agent => .agent agent
  | agentClient agent _ _ => .agent agent
  | spawn _ _ => .outside
  | expand _ _ _ _ => .outside
  | load _ _ => .outside
  | save _ => .outside

/-! ## Views of a message -/

/-- The agent whose logout or recycle a message carries. -/
def returning : Msg → Option AgentAddr
  | slaveLogout conn _ => conn.user.map ConnUser.agent
  | hubLogout conn _ => conn.user.map ConnUser.agent
  | agentLogout agent => some agent
  | save agent => some agent
  | mgrRecycle agent => some agent
  | poolRecycle agent => some agent
  | _ => none

/-- The handshake in progress a message is part of. -/
def handshake : Msg → Option HandshakeCo
  | gateRegister _ _ _ co _ => some co
  | hubGetRet co _ => some co
  | hubStartRet co _ _ => some co
  | hubRegisterRet co _ _ _ => some co
  | mgrGet _ co => some co
  | mgrGetRet co _ => some co
  | poolGet _ co => some co
  | agentStart _ _ co => some co
  | spawn _ co => some co
  | expand _ co _ _ => some co
  | load _ co => some co
  | _ => none

/-- The handshake that waits for an agent. -/
def getting : Msg → Option HandshakeCo
  | hubGetRet co _ => some co
  | mgrGet _ co => some co
  | mgrGetRet co _ => some co
  | poolGet _ co => some co
  | spawn _ co => some co
  | expand _ co _ _ => some co
  | _ => none

/-- A message of a handshake that waits for an agent is part of the handshake. -/
theorem handshake_of_getting {m : Msg} {co : HandshakeCo} (h : m.getting = some co) : m.handshake = some co := by
  cases m <;> first | exact h | cases h

/-- The agent that has been started for the handshake a message is part of. -/
def serving : Msg → Option AgentAddr
  | gateRegister _ _ agent _ _ => some agent
  | hubStartRet _ agent _ => some agent
  | hubRegisterRet _ agent _ _ => some agent
  | load agent _ => some agent
  | _ => none

/-- The connection whose successful registration a message reports to `hubd`. -/
def registering : Msg → Option Fd
  | hubRegisterRet co _ _ true => some co.fd
  | _ => none

/-- The `start` a message carries: the agent and the account. -/
def starting : Msg → Option (AgentAddr × String)
  | agentStart agent session _ => some (agent, session.openid)
  | _ => none

/-- The connection whose logout a message carries. -/
def loggingOut : Msg → Option Conn
  | slaveLogout conn _ => some conn
  | hubLogout conn _ => some conn
  | _ => none

/-- The connection whose `connect` a message carries. -/
def opening : Msg → Option Conn
  | slaveConnect conn => some conn
  | hubConnect conn => some conn
  | slaveConnectRet conn => some conn
  | gateConnectRet conn => some conn
  | _ => none

/-- The connection that asks for a handshake with a message. -/
def asking : Msg → Option Fd
  | slaveClient fd _ => some fd
  | hubHandshake fd _ => some fd
  | _ => none

/-- The connection a message tells to close, or whose close is under way. -/
def closing : Msg → Option Fd
  | gateKick fd _ _ => some fd
  | slaveLogout conn _ => some conn.fd
  | gateLogoutRet fd _ => some fd
  | _ => none

/-- The connection whose rejected handshake a message follows up. -/
def origin : Msg → Option Fd
  | gateLogoutRet _ cause => cause.origin
  | gateKick _ _ origin => origin
  | slaveLogout _ cause => cause.origin
  | slaveKick _ _ origin => origin
  | hubLogout _ origin => origin
  | hubKick _ origin => origin
  | _ => none

end Msg

end AntServer.Game
