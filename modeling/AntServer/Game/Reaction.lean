/-
# AntServer.Game.Reaction — what the handling of a message sends and changes

Two facts about `Sys.react` from which the arguments about runs proceed. What is sent is what `Sends`
lists, with the facts of the state it is sent in (`react_net`). And only the service that handles the
message changes: the gates, the hub and the agents are as before a message for another service
(`react_gates`, `react_hub`, `react_agents`).
-/
import AntServer.Game.System

namespace AntServer.Game

open Lib (Table)
open Lib.Mailbox (view)

namespace Sys

/-- The `start` of the agent of a record for a handshake. -/
def startFor (user : User) (conn : HubConn) (agent : AgentAddr) (co : HandshakeCo) (isReconnect : Bool) :
    Msg :=
  .agentStart agent
    { fd := conn.fd
      openid := co.args.uid
      secret := user.token.secret
      serverId := user.token.serverId
      isReconnect := isReconnect } co

/-- The handling of the first message may send the second one. -/
inductive Sends (s : Sys) : Msg → Msg → Prop
  -- the gates
  | registered (gate : Protocol) (uid : String) (agent : AgentAddr) (co : HandshakeCo) (role : Nat) :
    Sends s (.gateRegister gate uid agent co role)
      (.hubRegisterRet co agent role ((s.gates gate).register co.fd uid agent).2)
  | kicked {fd : Fd} {c : Conn} (origin : Option Fd) :
    (s.gates fd.gate).connection.get fd = some c →
      Sends s (.gateKick fd false origin) (.slaveLogout c (.kick origin))
  -- the hub slaves
  | connect (conn : Conn) : Sends s (.slaveConnect conn) (.hubConnect conn)
  | connectRet (conn : Conn) : Sends s (.slaveConnectRet conn) (.gateConnectRet conn)
  | logout (conn : Conn) (cause : Cause) : Sends s (.slaveLogout conn cause) (.hubLogout conn cause.origin)
  | logoutRet (conn : Conn) (cause : Cause) :
    Sends s (.slaveLogout conn cause) (.gateLogoutRet conn.fd cause)
  | kick (p : Protocol) (uid : String) (origin : Option Fd) :
    Sends s (.slaveKick p uid origin) (.hubKick uid origin)
  | request (fd : Fd) (args : HandshakeArgs) :
    Sends s (.slaveClient fd (.handshake args)) (.hubHandshake fd args)
  | requestRet {fd : Fd} {args : HandshakeArgs} {res : HandshakeRes} : res.errcode ≠ success →
      Sends s (.slaveHandshakeRet fd args res) (.slaveKick fd.gate args.uid (some fd))
  -- the hub
  | connected (conn : Conn) : Sends s (.hubConnect conn) (.slaveConnectRet conn)
  | agentLogout {conn : Conn} {user : ConnUser} (origin : Option Fd) : conn.user = some user →
      Sends s (.hubLogout conn origin) (.agentLogout user.agent)
  | hubKick {uid : String} {user : User} {conn : HubConn} (origin : Option Fd) :
    s.hub.user uid = some user → user.conn = some conn →
      Sends s (.hubKick uid origin) (.gateKick conn.fd false origin)
  | refused {fd : Fd} {args : HandshakeArgs} (res : HandshakeRes) :
    s.hub.verdict fd args = .noConn ∨ s.hub.verdict fd args = .noToken ∨
        s.hub.verdict fd args = .badToken → res.errcode ≠ success →
      Sends s (.hubHandshake fd args) (.slaveHandshakeRet fd args res)
  | replaced {fd : Fd} {args : HandshakeArgs} {subid : Nat} {user : User} {old : HubConn} :
    s.hub.verdict fd args = .reconnect subid user old →
      Sends s (.hubHandshake fd args) (.gateKick old.fd true none)
  | restart {fd : Fd} {args : HandshakeArgs} {subid : Nat} {user : User} {old : HubConn}
      {agent : AgentAddr} :
    s.hub.verdict fd args = .reconnect subid user old → user.agent = some agent →
      Sends s (.hubHandshake fd args) (startFor user old agent ⟨fd, args, subid⟩ true)
  | get {fd : Fd} {args : HandshakeArgs} {subid : Nat} {user : User} {conn : HubConn} :
    s.hub.verdict fd args = .firstLogin subid user conn →
      Sends s (.hubHandshake fd args) (.mgrGet conn.fd.gate ⟨fd, args, subid⟩)
  | start {co : HandshakeCo} {agent : AgentAddr} {user : User} {conn : HubConn} :
    s.hub.users.get co.user = some user → user.conn = some conn →
      Sends s (.hubGetRet co agent) (startFor user conn agent co false)
  | register {co : HandshakeCo} {agent a : AgentAddr} {role : Nat} {user : User} {conn : HubConn} :
    s.hub.users.get co.user = some user → user.conn = some conn → user.agent = some a →
      Sends s (.hubStartRet co agent role) (.gateRegister conn.fd.gate user.token.uid a co role)
  | succeeded (co : HandshakeCo) (agent : AgentAddr) (role : Nat) :
    Sends s (.hubRegisterRet co agent role true)
      (.slaveHandshakeRet co.fd co.args { errcode := success, pack := some (some role) })
  -- `agent_mgr` and the agent slaves
  | mgrGet (p : Protocol) (co : HandshakeCo) : Sends s (.mgrGet p co) (.poolGet p co)
  | mgrGetRet (co : HandshakeCo) (agent : AgentAddr) : Sends s (.mgrGetRet co agent) (.hubGetRet co agent)
  | mgrRecycle (agent : AgentAddr) : Sends s (.mgrRecycle agent) (.poolRecycle agent)
  | got {p : Protocol} {co : HandshakeCo} {agent : AgentAddr} {others : List AgentAddr} :
    Pool.remove (s.pools p).pool = some (agent, others) → Sends s (.poolGet p co) (.mgrGetRet co agent)
  | spawn (p : Protocol) (co : HandshakeCo) : Sends s (.poolGet p co) (.spawn p co)
  | spawned (p : Protocol) (co : HandshakeCo) :
    Sends s (.spawn p co) (.expand p co (s.newAgent p) 1)
  | expand (p : Protocol) (co : HandshakeCo) (agent : AgentAddr) (i : Nat) :
    Sends s (.expand p co agent i) (.expand p co agent (i + 1))
  | expanded (p : Protocol) (co : HandshakeCo) (agent : AgentAddr) (i : Nat) :
    Sends s (.expand p co agent i) (.mgrGetRet co agent)
  -- the agents
  | load {agent : AgentAddr} (session : Session) (co : HandshakeCo) : agent ∉ s.killed →
      Sends s (.agentStart agent session co) (.load agent co)
  | loaded (agent : AgentAddr) (co : HandshakeCo) (role : Nat) :
    Sends s (.load agent co) (.hubStartRet co agent role)
  | save (agent : AgentAddr) : Sends s (.agentLogout agent) (.save agent)
  | saved (agent : AgentAddr) : Sends s (.save agent) (.mgrRecycle agent)

/-- The verdicts of a handshake and what each sends. -/
theorem handshake_sends {s : Sys} {fd : Fd} {args : HandshakeArgs} {x : Msg}
    (hx : x ∈ (s.hub.handshake fd args).2) : Sends s (.hubHandshake fd args) x := by
  unfold Hub.handshake at hx
  split at hx
  · rename_i hv
    rw [List.mem_singleton.mp hx]
    exact .refused _ (.inl hv) (by decide)
  · rename_i hv
    rw [List.mem_singleton.mp hx]
    exact .refused _ (.inr (.inl hv)) (by decide)
  · rename_i hv
    rw [List.mem_singleton.mp hx]
    exact .refused _ (.inr (.inr hv)) (by decide)
  · rename_i hv
    rcases List.mem_cons.mp hx with rfl | hx
    · exact .replaced hv
    · obtain ⟨agent, conn, hagent, hconn, rfl⟩ := Hub.callStart_sends hx
      rw [(Hub.verdict_reconnect hv).2.2] at hconn
      cases hconn
      exact .restart hv hagent
  · rename_i hv
    rw [List.mem_singleton.mp hx]
    exact .get hv

/-- A `start` is one message, or none when the record has no agent or no connection. -/
theorem callStart_length (user : User) (co : HandshakeCo) (isReconnect : Bool) :
    (Hub.callStart user co isReconnect).length ≤ 1 := by
  unfold Hub.callStart
  split
  · exact Nat.le_refl 1
  · exact Nat.zero_le 1

/-! ## What a message that is sent is about -/

/-- A `connect` is only passed on. -/
theorem Sends.opening {s : Sys} {m x : Msg} (h : Sends s m x) {conn : Conn} (hx : x.opening = some conn) :
    m.opening = some conn := by
  cases h <;> exact hx

/-- So is a request for a handshake. -/
theorem Sends.asking {s : Sys} {m x : Msg} (h : Sends s m x) {fd : Fd} (hx : x.asking = some fd) :
    m.asking = some fd := by
  cases h <;> first | exact hx | cases hx

/-- A message of a handshake is sent for one of the same handshake, or for the request of its socket. -/
theorem Sends.handshake {s : Sys} {m x : Msg} (h : Sends s m x) {co : HandshakeCo}
    (hx : x.handshake = some co) : m.handshake = some co ∨ m.asking = some co.fd := by
  cases h <;> first | exact .inl hx | (cases hx; exact .inr rfl) | cases hx

/-- A handshake that waits for an agent is passed on, or begins. -/
theorem Sends.getting {s : Sys} {m x : Msg} (h : Sends s m x) {co : HandshakeCo}
    (hx : x.getting = some co) : m.getting = some co ∨ ∃ fd args, m = .hubHandshake fd args := by
  cases h <;> first | exact .inl hx | exact .inr ⟨_, _, rfl⟩ | cases hx

/-- Agents are started by the hub alone, for a handshake. -/
theorem Sends.starting {s : Sys} {m x : Msg} (h : Sends s m x) {y : AgentAddr × String}
    (hx : x.starting = some y) : (∃ fd args, m = .hubHandshake fd args) ∨ ∃ co a, m = .hubGetRet co a := by
  cases h <;> first | cases hx; done | exact .inl ⟨_, _, rfl⟩ | exact .inr ⟨_, _, rfl⟩

/-- A handshake that waits for an agent is a handshake. -/
theorem length_getting_le (net : List Msg) :
    (view Msg.getting net).length ≤ (view Msg.handshake net).length := by
  induction net with
  | nil => exact Nat.le_refl 0
  | cons m net ih =>
    rw [Lib.Mailbox.view_cons, Lib.Mailbox.view_cons, List.length_append, List.length_append]
    refine Nat.add_le_add ?_ ih
    cases hm : m.getting with
    | none => exact Nat.zero_le _
    | some co => rw [Msg.handshake_of_getting hm]

/-! ## What the handling of a message sends -/

/-- What the handling of a message sends: what `Sends` lists, and at most one message of it is part of a
handshake, and at most one of a `connect`. -/
structure Emits (s : Sys) (m : Msg) (outs : List Msg) : Prop where
  sends : ∀ x ∈ outs, Sends s m x
  handshake : (view Msg.handshake outs).length ≤ 1
  opening : (view Msg.opening outs).length ≤ 1

namespace Emits

variable {s : Sys} {m : Msg} {outs : List Msg}

/-- One message at most. -/
theorem of_length (hsends : ∀ x ∈ outs, Sends s m x) (hlen : outs.length ≤ 1) : Emits s m outs :=
  ⟨hsends, (List.length_filterMap_le _ _).trans hlen, (List.length_filterMap_le _ _).trans hlen⟩

/-- No message. -/
theorem nil : Emits s m [] := of_length (fun _ hx => absurd hx List.not_mem_nil) (Nat.zero_le 1)

/-- One message. -/
theorem one {x : Msg} (hx : Sends s m x) : Emits s m [x] :=
  of_length (fun _ hy => List.mem_singleton.mp hy ▸ hx) (Nat.le_refl 1)

/-- None of the messages is part of a handshake or of a `connect`. -/
theorem plain (hsends : ∀ x ∈ outs, Sends s m x)
    (hplain : ∀ x ∈ outs, x.handshake = none ∧ x.opening = none) : Emits s m outs where
  sends := hsends
  handshake := by
    rw [Lib.Mailbox.view_eq_nil fun x hx => (hplain x hx).1]
    exact Nat.zero_le 1
  opening := by
    rw [Lib.Mailbox.view_eq_nil fun x hx => (hplain x hx).2]
    exact Nat.zero_le 1

end Emits

variable (s : Sys)

/-! ### The gates and the hub slaves -/

/-- A kick is a logout, if the connection is there and the kick is not raw. -/
theorem emits_gateKick (fd : Fd) (raw : Bool) (origin : Option Fd) :
    Emits s (.gateKick fd raw origin) ((s.gates fd.gate).kick fd raw origin).2 := by
  show Emits s _ ((s.gates fd.gate).closeAgent fd raw (.kick origin)).2
  rcases (s.gates fd.gate).closeAgent_cases fd raw (.kick origin) with
    ⟨-, -, hout⟩ | ⟨c, hc, ⟨-, -, hout⟩ | ⟨rfl, -, hout⟩⟩
  · rw [hout]
    exact .nil
  · rw [hout]
    exact .nil
  · rw [hout]
    exact .one (.kicked origin hc)

/-- A logout is passed on, and the gate is answered. -/
theorem emits_slaveLogout (conn : Conn) (cause : Cause) :
    Emits s (.slaveLogout conn cause) (HubSlave.logout conn cause) := by
  refine .plain (fun x hx => ?_) (fun x hx => ?_)
  all_goals rcases List.mem_cons.mp hx with rfl | hx
  · exact .logout conn cause
  · rw [List.mem_singleton.mp hx]
    exact .logoutRet conn cause
  · exact ⟨rfl, rfl⟩
  · rw [List.mem_singleton.mp hx]
    exact ⟨rfl, rfl⟩

/-- A request of a client is passed on when it is a handshake. -/
theorem emits_slaveClient (fd : Fd) (req : ClientReq) :
    Emits s (.slaveClient fd req) (HubSlave.request fd req) := by
  refine .plain (fun x hx => ?_) (fun x hx => ?_)
  · obtain ⟨args, rfl, rfl⟩ := HubSlave.request_sends hx
    exact .request fd args
  · obtain ⟨args, -, rfl⟩ := HubSlave.request_sends hx
    exact ⟨rfl, rfl⟩

/-- A handshake that fails is followed by a kick. -/
theorem emits_slaveHandshakeRet (fd : Fd) (args : HandshakeArgs) (res : HandshakeRes) :
    Emits s (.slaveHandshakeRet fd args res) (HubSlave.requestRet fd args res) := by
  refine .plain (fun x hx => ?_) (fun x hx => ?_)
  · obtain ⟨hcode, rfl⟩ := HubSlave.requestRet_sends hx
    exact .requestRet hcode
  · rw [(HubSlave.requestRet_sends hx).2]
    exact ⟨rfl, rfl⟩

/-! ### The hub -/

/-- The agent of the user is told. -/
theorem emits_hubLogout (conn : Conn) (origin : Option Fd) :
    Emits s (.hubLogout conn origin) (s.hub.logout conn).2 := by
  refine .plain (fun x hx => ?_) (fun x hx => ?_)
  · obtain ⟨user, huser, rfl⟩ := Hub.logout_sends hx
    exact .agentLogout origin huser
  · obtain ⟨user, -, rfl⟩ := Hub.logout_sends hx
    exact ⟨rfl, rfl⟩

/-- The gate of the record is told. -/
theorem emits_hubKick (uid : String) (origin : Option Fd) :
    Emits s (.hubKick uid origin) (s.hub.kick uid origin) := by
  refine .plain (fun x hx => ?_) (fun x hx => ?_)
  · obtain ⟨user, conn, huser, hconn, rfl⟩ := Hub.kick_sends hx
    exact .hubKick origin huser hconn
  · obtain ⟨user, conn, -, -, rfl⟩ := Hub.kick_sends hx
    exact ⟨rfl, rfl⟩

/-- A reconnect sends two messages, of which the `start` is part of the handshake. -/
theorem emits_hubHandshake (fd : Fd) (args : HandshakeArgs) :
    Emits s (.hubHandshake fd args) (s.hub.handshake fd args).2 := by
  have hopen : view Msg.opening (s.hub.handshake fd args).2 = [] := by
    refine Lib.Mailbox.view_eq_nil fun x hx => Option.eq_none_iff_forall_ne_some.mpr fun conn hc => ?_
    cases (handshake_sends hx).opening hc
  refine ⟨fun x hx => handshake_sends hx, ?_, by rw [hopen]; exact Nat.zero_le 1⟩
  unfold Hub.handshake
  split
  · exact Nat.zero_le 1
  · exact Nat.zero_le 1
  · exact Nat.zero_le 1
  · rw [Lib.Mailbox.view_cons]
    exact (List.length_filterMap_le _ _).trans (callStart_length _ _ _)
  · exact Nat.le_refl 1

/-- The agent is started. -/
theorem emits_hubGetRet (co : HandshakeCo) (agent : AgentAddr) :
    Emits s (.hubGetRet co agent) (s.hub.getRet co agent).2 := by
  unfold Hub.getRet
  split
  · rename_i user huser
    refine .of_length (fun x hx => ?_) (callStart_length _ _ _)
    obtain ⟨a, conn, hagent, hconn, rfl⟩ := Hub.callStart_sends hx
    cases hagent
    show Sends s _ (startFor user conn agent co false)
    exact .start huser hconn
  · exact .nil

/-- The connection is registered. -/
theorem emits_hubStartRet (co : HandshakeCo) (agent : AgentAddr) (role : Nat) :
    Emits s (.hubStartRet co agent role) (s.hub.startRet co role) := by
  refine .of_length (fun x hx => ?_) ?_
  · obtain ⟨user, conn, a, huser, hconn, hagent, rfl⟩ := Hub.startRet_sends hx
    exact .register huser hconn hagent
  · unfold Hub.startRet
    split
    · split
      · exact Nat.le_refl 1
      · exact Nat.zero_le 1
    · exact Nat.zero_le 1

/-- The handshake is answered. -/
theorem emits_hubRegisterRet (co : HandshakeCo) (agent : AgentAddr) (role : Nat) (res : Bool) :
    Emits s (.hubRegisterRet co agent role res) (s.hub.registerRet co role res).2 := by
  cases res with
  | true => exact .one (.succeeded co agent role)
  | false => exact .nil

/-! ### The pools -/

/-- An agent is taken from the pool, or one is spawned. -/
theorem emits_poolGet (p : Protocol) (co : HandshakeCo) :
    Emits s (.poolGet p co) ((s.pools p).get p co).2 := by
  unfold Pool.get
  split
  · rename_i agent others hpop
    exact .one (.got hpop)
  · exact .one (.spawn p co)

/-- The pool is expanded by one more agent, or the expansion is over. -/
theorem emits_expand (p : Protocol) (co : HandshakeCo) (agent : AgentAddr) (i : Nat) :
    Emits s (.expand p co agent i) ((s.pools p).expanded p co agent i (s.newAgent p)).2 := by
  unfold Pool.expanded
  dsimp only
  split
  · exact .one (.expand p co agent i)
  · exact .one (.expanded p co agent i)

/-- What is sent is what `Sends` lists. -/
theorem react_net (rest : List Msg) (answer : Option Nat) (m : Msg) :
    ∃ outs, ({ s with net := rest }.react answer m).net = rest ++ outs ∧ Emits s m outs := by
  have hnil : ∃ outs, rest = rest ++ outs ∧ Emits s m outs := ⟨[], (List.append_nil rest).symm, .nil⟩
  have hone {x : Msg} (hx : Sends s m x) : ∃ outs, rest ++ [x] = rest ++ outs ∧ Emits s m outs :=
    ⟨[x], rfl, .one hx⟩
  cases m with
  | gateConnectRet conn => exact hnil
  | gateLogoutRet fd cause => exact hnil
  | gateRegister gate uid agent co role => exact hone (.registered gate uid agent co role)
  | gateKick fd raw origin => exact ⟨_, rfl, emits_gateKick s fd raw origin⟩
  | slaveConnect conn => exact hone (.connect conn)
  | slaveConnectRet conn => exact hone (.connectRet conn)
  | slaveLogout conn cause => exact ⟨_, rfl, emits_slaveLogout s conn cause⟩
  | slaveKick slave uid origin => exact hone (.kick slave uid origin)
  | slaveClient fd req => exact ⟨_, rfl, emits_slaveClient s fd req⟩
  | slaveHandshakeRet fd args res => exact ⟨_, rfl, emits_slaveHandshakeRet s fd args res⟩
  | hubConnect conn => exact hone (.connected conn)
  | hubLogout conn origin => exact ⟨_, rfl, emits_hubLogout s conn origin⟩
  | hubKick uid origin => exact ⟨_, rfl, emits_hubKick s uid origin⟩
  | hubHandshake fd args => exact ⟨_, rfl, emits_hubHandshake s fd args⟩
  | hubGetRet co agent => exact ⟨_, rfl, emits_hubGetRet s co agent⟩
  | hubStartRet co agent role => exact ⟨_, rfl, emits_hubStartRet s co agent role⟩
  | hubRegisterRet co agent role res => exact ⟨_, rfl, emits_hubRegisterRet s co agent role res⟩
  | mgrGet protocol co => exact hone (.mgrGet protocol co)
  | mgrGetRet co agent => exact hone (.mgrGetRet co agent)
  | mgrRecycle agent => exact hone (.mgrRecycle agent)
  | poolGet protocol co => exact ⟨_, rfl, emits_poolGet s protocol co⟩
  | poolRecycle agent => exact hnil
  | agentClient agent fd req => exact hnil
  -- an agent that was killed answers nothing
  | agentStart agent session co =>
    by_cases hk : agent ∈ s.killed
    · simp only [react, if_pos hk]
      exact hnil
    · simp only [react, if_neg hk]
      exact hone (.load session co hk)
  | agentLogout agent =>
    by_cases hk : agent ∈ s.killed
    · simp only [react, if_pos hk]
      exact hnil
    · simp only [react, if_neg hk]
      exact hone (.save agent)
  -- the launcher and the database may fail
  | spawn protocol co =>
    cases answer with
    | none => exact hnil
    | some n => exact hone (.spawned protocol co)
  | expand protocol co agent i =>
    cases answer with
    | none => exact hnil
    | some n => exact ⟨_, rfl, emits_expand s protocol co agent i⟩
  | load agent co =>
    cases answer with
    | none => exact hnil
    | some role =>
      by_cases hk : agent ∈ s.killed
      · simp only [react, if_pos hk]
        exact hnil
      · simp only [react, if_neg hk]
        exact hone (.loaded agent co role)
  | save agent =>
    cases answer with
    | none => exact hnil
    | some n =>
      by_cases hk : agent ∈ s.killed
      · simp only [react, if_pos hk]
        exact hnil
      · simp only [react, if_neg hk]
        exact hone (.saved agent)

variable {s}

/-! ## What a step puts in flight -/

/-- A step from outside may send the message. -/
inductive Arrives (s : Sys) : Action → Msg → Prop
  | connect (p : Protocol) (ip : String) :
    Arrives s (.connect p ip) (.slaveConnect { fd := ⟨p, s.nextFd⟩, ip := ip, user := none })
  | request {fd : Fd} {c : Conn} (req : ClientReq) :
    (s.gates fd.gate).connection.get fd = some c → Arrives s (.data fd req) (.slaveClient fd req)
  | play {fd : Fd} {c : Conn} {user : ConnUser} (req : ClientReq) :
    (s.gates fd.gate).connection.get fd = some c → c.user = some user →
      Arrives s (.data fd req) (.agentClient user.agent fd req)
  | disconnect {fd : Fd} {c : Conn} :
    (s.gates fd.gate).connection.get fd = some c → Arrives s (.disconnect fd) (.slaveLogout c .event)
  | loginKick {uid : String} {user : User} {conn : HubConn} :
    s.hub.user uid = some user → user.conn = some conn →
      Arrives s (.loginKick uid) (.gateKick conn.fd false none)

/-- A step that handles a message takes it from the messages in flight and reacts to it. -/
theorem step_message {s s' : Sys} {a : Action} (h : s.step a = some s') {m : Msg}
    (hm : s.handled a = some m) :
    ∃ rest answer, s.net.Perm (m :: rest) ∧ s' = { s with net := rest }.react answer m := by
  cases step_cases h with
  | @message _ m' rest answer hm' hperm =>
    obtain rfl : m' = m := Option.some.inj (hm'.symm.trans hm)
    exact ⟨rest, answer, hperm, rfl⟩
  | _ => cases hm

/-- The message that a step handles was in flight. -/
theorem handled_mem {s s' : Sys} {a : Action} (h : s.step a = some s') {m : Msg}
    (hm : s.handled a = some m) : m ∈ s.net := by
  obtain ⟨rest, answer, hperm, -⟩ := step_message h hm
  exact hperm.mem_iff.mpr List.mem_cons_self

/-- The messages in flight after a step: those that stay, and those that are sent. -/
theorem step_outs {s s' : Sys} {a : Action} (h : s.step a = some s') :
    ∃ rest outs, s'.net = rest ++ outs ∧
      ((s.handled a = none ∧ rest = s.net ∧ ∀ x ∈ outs, Arrives s a x) ∨
        ∃ m, s.handled a = some m ∧ s.net.Perm (m :: rest) ∧ (∀ x ∈ outs, Sends s m x) ∧
          (view Msg.handshake outs).length ≤ 1) := by
  cases step_cases h with
  | @message _ m rest answer hm hperm =>
    obtain ⟨outs, hnet, hout⟩ := react_net s rest answer m
    exact ⟨rest, outs, hnet, .inr ⟨m, hm, hperm, hout.sends, hout.handshake⟩⟩
  | connect p ip =>
    refine ⟨s.net, _, rfl, .inl ⟨rfl, rfl, fun x hx => ?_⟩⟩
    rw [Gate.openSocket_sends hx]
    exact .connect p ip
  | data fd req =>
    refine ⟨s.net, _, rfl, .inl ⟨rfl, rfl, fun x hx => ?_⟩⟩
    obtain ⟨c, hc, ⟨user, huser, rfl⟩ | ⟨-, rfl⟩⟩ := Gate.message_sends hx
    · exact .play req hc huser
    · exact .request req hc
  | disconnect fd =>
    refine ⟨s.net, _, rfl, .inl ⟨rfl, rfl, fun x hx => ?_⟩⟩
    rcases Gate.closeAgent_cases { s.gates fd.gate with sock := (s.gates fd.gate).sock.del fd } fd false
      .event with ⟨-, -, hout⟩ | ⟨c, hc, ⟨-, -, hout⟩ | ⟨-, -, hout⟩⟩
    · exact absurd (hout ▸ hx) List.not_mem_nil
    · exact absurd (hout ▸ hx) List.not_mem_nil
    · have hx : x ∈ [Msg.slaveLogout c .event] := hout ▸ hx
      rw [List.mem_singleton.mp hx]
      exact .disconnect hc
  | access uid secret serverId tm =>
    exact ⟨s.net, [], (List.append_nil _).symm, .inl ⟨rfl, rfl, fun x hx => by cases hx⟩⟩
  | loginKick uid =>
    refine ⟨s.net, _, rfl, .inl ⟨rfl, rfl, fun x hx => ?_⟩⟩
    obtain ⟨user, conn, huser, hconn, rfl⟩ := Hub.kick_sends hx
    exact .loginKick huser hconn
  | sweep now =>
    exact ⟨s.net, [], (List.append_nil _).symm, .inl ⟨rfl, rfl, fun x hx => by cases hx⟩⟩

/-- A message in flight was there before, or has come from outside, or was sent for the message that
the step handles. -/
theorem step_net {s s' : Sys} {a : Action} (h : s.step a = some s') {x : Msg} (hx : x ∈ s'.net) :
    x ∈ s.net ∨ Arrives s a x ∨ ∃ m, s.handled a = some m ∧ m ∈ s.net ∧ Sends s m x := by
  obtain ⟨rest, outs, hnet, ⟨-, rfl, hout⟩ | ⟨m, hm, hperm, hout, -⟩⟩ := step_outs h
  · rw [hnet] at hx
    exact (List.mem_append.mp hx).imp id fun hx => .inl (hout x hx)
  · rw [hnet] at hx
    rcases List.mem_append.mp hx with hx | hx
    · exact .inl (hperm.mem_iff.mpr (List.mem_cons_of_mem _ hx))
    · exact .inr (.inr ⟨m, hm, hperm.mem_iff.mpr List.mem_cons_self, hout x hx⟩)

/-! ## Only the service that handles a message changes -/

/-- Only a gate changes the tables of the gates. -/
theorem react_gates (s : Sys) (answer : Option Nat) {m : Msg} (h : ∀ p, m.dst ≠ .gate p) :
    (s.react answer m).gates = s.gates := by
  cases m with
  | gateConnectRet conn => exact absurd rfl (h conn.fd.gate)
  | gateLogoutRet fd cause => exact absurd rfl (h fd.gate)
  | gateRegister gate uid agent co role => exact absurd rfl (h gate)
  | gateKick fd raw origin => exact absurd rfl (h fd.gate)
  | agentStart agent session co => simp only [react]; split <;> rfl
  | agentLogout agent => simp only [react]; split <;> rfl
  | spawn protocol co => cases answer <;> rfl
  | expand protocol co agent i => cases answer <;> rfl
  | load agent co => cases answer <;> simp only [react]; split <;> rfl
  | save agent => cases answer <;> simp only [react]; split <;> rfl
  | _ => rfl

/-- No message opens a socket. -/
theorem react_nextFd (s : Sys) (answer : Option Nat) (m : Msg) : (s.react answer m).nextFd = s.nextFd := by
  cases m with
  | agentStart agent session co => simp only [react]; split <;> rfl
  | agentLogout agent => simp only [react]; split <;> rfl
  | spawn protocol co => cases answer <;> rfl
  | expand protocol co agent i => cases answer <;> rfl
  | load agent co => cases answer <;> simp only [react]; split <;> rfl
  | save agent => cases answer <;> simp only [react]; split <;> rfl
  | _ => rfl

/-- Only `hubd` changes its tables. -/
theorem react_hub (s : Sys) (answer : Option Nat) {m : Msg} (h : m.dst ≠ .hubd) :
    (s.react answer m).hub = s.hub := by
  cases m with
  | hubConnect conn => exact absurd rfl h
  | hubLogout conn origin => exact absurd rfl h
  | hubKick uid origin => exact absurd rfl h
  | hubHandshake fd args => exact absurd rfl h
  | hubGetRet co agent => exact absurd rfl h
  | hubStartRet co agent role => exact absurd rfl h
  | hubRegisterRet co agent role res => exact absurd rfl h
  | agentStart agent session co => simp only [react]; split <;> rfl
  | agentLogout agent => simp only [react]; split <;> rfl
  | spawn protocol co => cases answer <;> rfl
  | expand protocol co agent i => cases answer <;> rfl
  | load agent co => cases answer <;> simp only [react]; split <;> rfl
  | save agent => cases answer <;> simp only [react]; split <;> rfl
  | _ => rfl

/-! ## What becomes of the connections and of `User_Map` -/

/-- What a step does to a connection that it leaves at a gate: nothing, or the connection is new, or it
is registered. -/
inductive Kept (s : Sys) (h : Option Msg) (p : Protocol) (fd : Fd) (c' : Conn) : Prop
  | same : (s.gates p).connection.get fd = some c' → Kept s h p fd c'
  | opened : h = some (.gateConnectRet c') → fd = c'.fd → p = fd.gate → Kept s h p fd c'
  | registered {c : Conn} {uid : String} {agent : AgentAddr} {co : HandshakeCo} {role : Nat} :
    h = some (.gateRegister p uid agent co role) → fd = co.fd →
      (s.gates p).connection.get fd = some c → c' = { c with user := some ⟨uid, agent⟩ } →
      Kept s h p fd c'

/-- A gate `g` takes the place of the gate `p`. -/
theorem update_kept {s : Sys} {h : Option Msg} {p : Protocol} {g : Gate}
    (hg : ∀ fd c', g.connection.get fd = some c' → Kept s h p fd c') {q : Protocol} {fd : Fd} {c' : Conn}
    (hc : (Function.update s.gates p g q).connection.get fd = some c') : Kept s h q fd c' := by
  by_cases hq : q = p
  · subst hq
    rw [Function.update_self] at hc
    exact hg fd c' hc
  · rw [Function.update_of_ne hq] at hc
    exact .same hc

/-- A connection was there before, was opened or was registered. -/
theorem react_kept {s : Sys} {rest : List Msg} (answer : Option Nat) {m : Msg} {p : Protocol} {fd : Fd}
    {c' : Conn} (hc : (({ s with net := rest }.react answer m).gates p).connection.get fd = some c') :
    Kept s (some m) p fd c' := by
  by_cases hm : ∃ q, m.dst = .gate q
  · cases m with
    | gateConnectRet conn =>
      refine update_kept (fun fd' c hc => ?_) hc
      have hc : (((s.gates conn.fd.gate).connection).set conn.fd conn).get fd' = some c := hc
      rw [Table.get_set] at hc
      split at hc
      · rename_i hfd
        cases hc
        exact .opened rfl hfd (by rw [hfd])
      · exact .same hc
    | gateLogoutRet fd₀ cause =>
      refine update_kept (fun fd' c hc => ?_) hc
      rw [Gate.logoutRet_connection, Table.get_del] at hc
      split at hc
      · cases hc
      · exact .same hc
    | gateRegister gate uid agent co role =>
      refine update_kept (fun fd' c hc => ?_) hc
      have hc : ((s.gates gate).register co.fd uid agent).1.connection.get fd' = some c := hc
      rcases (s.gates gate).register_cases co.fd uid agent with ⟨-, hr⟩ | ⟨conn, hconn, hr⟩
      · rw [hr] at hc
        exact .same hc
      · rw [hr, Table.get_set] at hc
        split at hc
        · rename_i hfd
          exact .registered rfl hfd (hfd ▸ hconn) (Option.some.inj hc).symm
        · exact .same hc
    | gateKick fd₀ raw origin =>
      refine update_kept (fun fd' c hc => .same ?_) hc
      exact Gate.closeAgent_conn (s.gates fd₀.gate) fd₀ raw (.kick origin) fd' c hc
    | _ => obtain ⟨q, hq⟩ := hm; cases hq
  · exact .same (by rw [react_gates _ answer (fun q hq => hm ⟨q, hq⟩)] at hc; exact hc)

/-- The same for any step. -/
theorem step_kept {s s' : Sys} {a : Action} (h : s.step a = some s') {p : Protocol} {fd : Fd} {c' : Conn}
    (hc : (s'.gates p).connection.get fd = some c') : Kept s (s.handled a) p fd c' := by
  cases step_cases h with
  | message hm hperm =>
    rw [hm]
    exact react_kept _ hc
  | connect q ip =>
    refine update_kept (fun fd' c hc => .same ?_) hc
    rwa [Gate.openSocket_connection] at hc
  | data fd' req => exact .same hc
  | disconnect fd₀ =>
    let g : Gate := { s.gates fd₀.gate with sock := (s.gates fd₀.gate).sock.del fd₀ }
    exact update_kept (fun fd' c hc => .same (g.closeAgent_conn fd₀ false .event fd' c hc)) hc
  | access uid secret serverId tm => exact .same hc
  | loginKick uid => exact .same hc
  | sweep now => exact .same hc

/-- The message opens, closes or registers the connection at its gate. -/
inductive Touches (fd : Fd) : Msg → Prop
  | opened {conn : Conn} : conn.fd = fd → Touches fd (.gateConnectRet conn)
  | closed (cause : Cause) : Touches fd (.gateLogoutRet fd cause)
  | silenced (origin : Option Fd) : Touches fd (.gateKick fd true origin)
  | registered {co : HandshakeCo} (gate : Protocol) (uid : String) (agent : AgentAddr) (role : Nat) :
    co.fd = fd → Touches fd (.gateRegister gate uid agent co role)

/-- A connection stays as it is unless a message is handled that touches it. -/
theorem step_conn {s s' : Sys} {a : Action} (h : s.step a = some s') {fd : Fd} {c : Conn}
    (hc : (s.gates fd.gate).connection.get fd = some c) :
    (s'.gates fd.gate).connection.get fd = some c ∨ ∃ m, s.handled a = some m ∧ Touches fd m := by
  have hupdate : ∀ {p : Protocol} {g : Gate}, (p = fd.gate → g.connection.get fd = some c) →
      (Function.update s.gates p g fd.gate).connection.get fd = some c := by
    intro p g hg
    by_cases hp : fd.gate = p
    · subst hp
      rw [Function.update_self]
      exact hg rfl
    · rw [Function.update_of_ne hp]
      exact hc
  -- `close_agent` leaves a connection that it finds until its `logout` call has returned
  have hclose : ∀ {g : Gate} {fd' : Fd} {raw : Bool} {cause : Cause}, g.connection.get fd = some c →
      fd ≠ fd' ∨ raw = false → (g.closeAgent fd' raw cause).1.connection.get fd = some c := by
    intro g fd' raw cause hg hne
    rcases g.closeAgent_cases fd' raw cause with ⟨-, hconn, -⟩ | ⟨c', -, ⟨hraw, hconn, -⟩ | ⟨-, hconn, -⟩⟩
    · rw [hconn, hg]
    · rw [hconn, Table.get_del_ne _ (hne.resolve_right (by rw [hraw]; decide)), hg]
    · rw [hconn, hg]
  cases step_cases h with
  | @message _ m rest answer hm hperm =>
    by_cases hgate : ∃ q, m.dst = .gate q
    · cases m with
      | gateConnectRet conn =>
        by_cases hfd : conn.fd = fd
        · exact .inr ⟨_, hm, .opened hfd⟩
        · refine .inl (hupdate fun hp => ?_)
          exact (Table.get_set_ne _ _ (Ne.symm hfd)).trans (hp ▸ hc)
      | gateLogoutRet fd' cause =>
        by_cases hfd : fd = fd'
        · exact .inr ⟨_, hm, hfd ▸ .closed cause⟩
        · refine .inl (hupdate fun hp => ?_)
          rw [Gate.logoutRet_connection, Table.get_del_ne _ hfd]
          exact hp ▸ hc
      | gateRegister gate uid agent co role =>
        by_cases hfd : co.fd = fd
        · exact .inr ⟨_, hm, .registered gate uid agent role hfd⟩
        · refine .inl (hupdate fun hp => ?_)
          show ((s.gates gate).register co.fd uid agent).1.connection.get fd = some c
          rcases (s.gates gate).register_cases co.fd uid agent with ⟨-, hr⟩ | ⟨conn, -, hr⟩
          · rw [hr]
            exact hp ▸ hc
          · rw [hr]
            exact (Table.get_set_ne _ _ (Ne.symm hfd)).trans (hp ▸ hc)
      | gateKick fd' raw origin =>
        by_cases hfd : fd = fd' ∧ raw = true
        · obtain ⟨rfl, rfl⟩ := hfd
          exact .inr ⟨_, hm, .silenced origin⟩
        · refine .inl (hupdate fun hp => hclose (hp ▸ hc) ?_)
          rw [not_and_or, Bool.not_eq_true] at hfd
          exact hfd
      | _ => obtain ⟨q, hq⟩ := hgate; cases hq
    · refine .inl ?_
      rw [react_gates _ answer (fun q hq => hgate ⟨q, hq⟩)]
      exact hc
  | connect p ip =>
    refine .inl (hupdate fun hp => ?_)
    rw [Gate.openSocket_connection]
    exact hp ▸ hc
  | data fd' req => exact .inl hc
  | disconnect fd' => exact .inl (hupdate fun hp => hclose (hp ▸ hc) (.inr rfl))
  | access uid secret serverId tm => exact .inl hc
  | loginKick uid => exact .inl hc
  | sweep now => exact .inl hc

/-- The hub after a step: one of the operations of `hubd` was carried out, or none. -/
inductive HubCase (s : Sys) (a : Action) : Hub → Prop
  | same : HubCase s a s.hub
  | connect {conn : Conn} : s.handled a = some (.hubConnect conn) → HubCase s a (s.hub.connect conn)
  | logout {conn : Conn} {origin : Option Fd} : s.handled a = some (.hubLogout conn origin) →
      HubCase s a (s.hub.logout conn).1
  | handshake {fd : Fd} {args : HandshakeArgs} : s.handled a = some (.hubHandshake fd args) →
      HubCase s a (s.hub.handshake fd args).1
  | getRet {co : HandshakeCo} {agent : AgentAddr} : s.handled a = some (.hubGetRet co agent) →
      HubCase s a (s.hub.getRet co agent).1
  | registerRet {co : HandshakeCo} {agent : AgentAddr} {role : Nat} {res : Bool} :
    s.handled a = some (.hubRegisterRet co agent role res) →
      HubCase s a (s.hub.registerRet co role res).1
  | access {uid secret serverId : String} {tm : Int} : a = .access uid secret serverId tm →
      HubCase s a (s.hub.access uid secret serverId tm)
  | sweep {now : Int} : a = .sweep now → HubCase s a (s.hub.handshakeTimeout now)

/-- What a step does to the tables of `hubd`. -/
theorem step_hub {s s' : Sys} {a : Action} (h : s.step a = some s') : HubCase s a s'.hub := by
  cases step_cases h with
  | @message _ m rest answer hm hperm =>
    by_cases hhub : m.dst = .hubd
    · cases m with
      | hubConnect conn => exact .connect hm
      | hubLogout conn origin => exact .logout hm
      | hubKick uid origin => exact .same
      | hubHandshake fd args => exact .handshake hm
      | hubGetRet co agent => exact .getRet hm
      | hubStartRet co agent role => exact .same
      | hubRegisterRet co agent role res => exact .registerRet hm
      | _ => cases hhub
    · rw [react_hub _ answer hhub]
      exact .same
  | connect p ip => exact .same
  | data fd req => exact .same
  | disconnect fd => exact .same
  | access uid secret serverId tm => exact .access rfl
  | loginKick uid => exact .same
  | sweep now => exact .sweep rfl

/-- What a step does to the record of a uid: it stays, or an access replaces it, its time is up, or the
logout of a connection of the uid takes it. -/
inductive Stays (s : Sys) (a : Action) (h' : Hub) (uid : String) (r : Nat) (user : User) : Prop
  | kept : h'.userMap.get uid = some r → Stays s a h' uid r user
  | replaced {secret serverId : String} {tm : Int} : a = .access uid secret serverId tm →
      Stays s a h' uid r user
  | timedOut {now : Int} : a = .sweep now → user.conn = none → now - user.tm ≥ tcount →
      Stays s a h' uid r user
  | loggedOut {conn : Conn} {origin : Option Fd} {account : ConnUser} :
    s.handled a = some (.hubLogout conn origin) → conn.user = some account → account.uid = uid →
      Stays s a h' uid r user

/-- An entry of `User_Map` stays, or one of the operations that remove it was carried out. -/
theorem hub_stays {s : Sys} {a : Action} {h' : Hub} (hcase : HubCase s a h') {uid : String} {r : Nat}
    {user : User} (hr : s.hub.userMap.get uid = some r) (huser : s.hub.users.get r = some user) :
    Stays s a h' uid r user := by
  cases hcase with
  | same => exact .kept hr
  | connect => exact .kept hr
  | @logout conn origin hm =>
    unfold Hub.logout
    split
    · rename_i account haccount
      by_cases huid : uid = account.uid
      · exact .loggedOut hm haccount huid.symm
      · exact .kept ((Table.get_del_ne _ huid).trans hr)
    · exact .kept hr
  | handshake =>
    unfold Hub.handshake
    split <;> exact .kept hr
  | getRet =>
    unfold Hub.getRet
    split <;> exact .kept hr
  | @registerRet co agent role res => cases res <;> exact .kept hr
  | @access uid' secret serverId tm ha =>
    by_cases hu : uid = uid'
    · exact .replaced (hu ▸ ha)
    · exact .kept (by rw [Hub.access_userMap, if_neg hu]; exact hr)
  | @sweep now ha =>
    by_cases hlive : user.conn ≠ none ∨ now - user.tm < tcount
    · exact .kept ((Hub.handshakeTimeout_timesOut s.hub now).kept uid r user hr huser hlive)
    · rw [not_or, not_not, not_lt] at hlive
      exact .timedOut ha hlive.1 hlive.2

/-- What a step does to a record: it may get a connection when it has none, and the agent that its
handshake has waited for. -/
structure Recorded (s : Sys) (a : Action) (r : Nat) (user user' : User) : Prop where
  token : user'.token = user.token
  conn : user'.conn = user.conn ∨ user.conn = none
  agent : user'.agent = user.agent ∨ ∃ co agent, s.handled a = some (.hubGetRet co agent) ∧ co.user = r ∧
    user'.agent = some agent

/-- A record that is put in the place of one keeps the others. -/
theorem recorded_set {s : Sys} {a : Action} {t : Table Nat User} {q r : Nat} {user₀ user user' : User}
    (hq : t.get q = some user₀) (hr : t.get r = some user) (hnew : Recorded s a q user₀ user') :
    ∃ user'', (t.set q user').get r = some user'' ∧ Recorded s a r user user'' := by
  by_cases hrq : r = q
  · subst hrq
    rw [hr] at hq
    cases hq
    exact ⟨user', Table.get_set_self _ _ _, hnew⟩
  · exact ⟨user, (Table.get_set_ne _ _ hrq).trans hr, rfl, .inl rfl, .inl rfl⟩

/-- A record stays, or changes in a handshake. -/
theorem hub_recorded {s : Sys} {a : Action} {h' : Hub} (hok : s.hub.Ok) (hcase : HubCase s a h') {r : Nat}
    {user : User} (huser : s.hub.users.get r = some user) :
    ∃ user', h'.users.get r = some user' ∧ Recorded s a r user user' := by
  have hforgets : ∀ {h' : Hub}, Hub.Forgets s.hub h' →
      ∃ user', h'.users.get r = some user' ∧ Recorded s a r user user' := by
    intro h' hh
    obtain ⟨user', huser', hcore⟩ := hh.record' huser
    obtain ⟨htoken, hconn, hagent⟩ := Hub.core_eq hcore
    exact ⟨user', huser', htoken, .inl hconn, .inl hagent⟩
  cases hcase with
  | same => exact ⟨user, huser, rfl, .inl rfl, .inl rfl⟩
  | connect => exact hforgets (Hub.connect_forgets _ _)
  | logout => exact hforgets (Hub.logout_forgets _ _)
  | handshake =>
    unfold Hub.handshake
    split
    · exact ⟨user, huser, rfl, .inl rfl, .inl rfl⟩
    · exact ⟨user, huser, rfl, .inl rfl, .inl rfl⟩
    · exact ⟨user, huser, rfl, .inl rfl, .inl rfl⟩
    · exact ⟨user, huser, rfl, .inl rfl, .inl rfl⟩
    · rename_i hv
      obtain ⟨-, -, hq, hnone⟩ := Hub.verdict_firstLogin hv
      exact recorded_set hq huser ⟨rfl, .inr hnone, .inl rfl⟩
  | @getRet co agent hm =>
    unfold Hub.getRet
    split
    · rename_i hq
      exact recorded_set hq huser ⟨rfl, .inl rfl, .inr ⟨co, agent, hm, rfl, rfl⟩⟩
    · exact ⟨user, huser, rfl, .inl rfl, .inl rfl⟩
  | registerRet => exact hforgets (Hub.registerRet_forgets _ _ _ _)
  | access => exact ⟨user, hok.access_get _ _ _ _ huser, rfl, .inl rfl, .inl rfl⟩
  | sweep => exact hforgets (Hub.handshakeTimeout_timesOut _ _).toForgets

/-! ## What becomes of the agents -/

/-- Only a `start` changes what an agent knows. -/
theorem step_agents {s s' : Sys} {a : Action} (h : s.step a = some s') (agent : AgentAddr) :
    s'.agents.get agent = s.agents.get agent ∨
      ∃ session co, s.handled a = some (.agentStart agent session co) := by
  cases step_cases h with
  | @message _ m rest answer hm hperm =>
    cases m with
    | agentStart agent' session co =>
      by_cases hk : agent' ∈ s.killed
      · refine .inl ?_
        simp only [react, if_pos hk]
      · by_cases hne : agent = agent'
        · exact .inr ⟨session, co, hne ▸ hm⟩
        · refine .inl ?_
          simp only [react, if_neg hk]
          exact Table.get_set_ne _ _ hne
    | agentLogout agent' => refine .inl ?_; simp only [react]; split <;> rfl
    | spawn protocol co => cases answer <;> exact .inl rfl
    | expand protocol co agent i => cases answer <;> exact .inl rfl
    | load agent' co => refine .inl ?_; cases answer <;> simp only [react]; split <;> rfl
    | save agent' => refine .inl ?_; cases answer <;> simp only [react]; split <;> rfl
    | _ => exact .inl rfl
  | _ => exact .inl rfl

/-- An agent is killed when it is recycled and the pool is full. -/
theorem step_killed {s s' : Sys} {a : Action} (h : s.step a = some s') {agent : AgentAddr}
    (hk : agent ∈ s'.killed) : agent ∈ s.killed ∨
      s.handled a = some (.poolRecycle agent) ∧ maxnum < (s.pools agent.protocol).pool.length := by
  cases step_cases h with
  | @message _ m rest answer hm hperm =>
    cases m with
    | poolRecycle agent' =>
      by_cases hfull : (s.pools agent'.protocol).pool.length > maxnum
      · have hk : agent ∈ agent' :: s.killed := by
          have hrec : ((s.pools agent'.protocol).recycle agent').2 = true := by
            simp only [Pool.recycle, if_pos hfull]
          simpa only [react, hrec, if_true] using hk
        rcases List.mem_cons.mp hk with rfl | hk
        · exact .inr ⟨hm, hfull⟩
        · exact .inl hk
      · have hrec : ((s.pools agent'.protocol).recycle agent').2 = false := by
          simp only [Pool.recycle, if_neg hfull]
        refine .inl ?_
        simpa only [react, hrec, Bool.false_eq_true, if_false] using hk
    | agentStart agent' session co =>
      refine .inl ?_
      simp only [react] at hk
      split at hk <;> exact hk
    | agentLogout agent' =>
      refine .inl ?_
      simp only [react] at hk
      split at hk <;> exact hk
    | spawn protocol co => cases answer <;> exact .inl hk
    | expand protocol co agent i => cases answer <;> exact .inl hk
    | load agent' co =>
      refine .inl ?_
      cases answer with
      | none => exact hk
      | some role =>
        simp only [react] at hk
        split at hk <;> exact hk
    | save agent' =>
      refine .inl ?_
      cases answer with
      | none => exact hk
      | some n =>
        simp only [react] at hk
        split at hk <;> exact hk
    | _ => exact .inl hk
  | _ => exact .inl hk

end Sys

end AntServer.Game
