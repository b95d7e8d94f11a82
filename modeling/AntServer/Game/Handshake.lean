/-
# AntServer.Game.Handshake — what a successful handshake has agreed on

When `CMD.handshake` returns success, three services have a copy of the connection: the record of
`User_Map`, `connection[fd]` of the gate and `_fd` of the agent. A first login writes all three. The
reconnect branch writes one: it registers the new socket at the gate, while the record and the agent
keep the old one.

The run argument follows a handshake from message to message. What has been agreed on so far is
`OnCourse`, by the message the handshake is at. The runs in which nothing else interferes are
`Steady`; a reconnect is excluded there, the other conditions are about what may happen between the
messages of a first login.
-/
import AntServer.Game.Reaction
import AntServer.Game.Tables

namespace AntServer.Game

open Lib (Table)
open Lib.Mailbox (view)

namespace Sys

/-- `hubd`, the gate and the agent agree on the connection of the handshake, and every other connection
that is registered for its account has been told to close. -/
structure Agreement (s : Sys) (co : HandshakeCo) (agent : AgentAddr) : Prop where
  hub : ∃ user ∈ s.hub.user co.args.uid, user.conn.map HubConn.fd = some co.fd ∧ user.agent = some agent
  gate : ∃ c ∈ (s.gates co.fd.gate).connection.get co.fd, c.user = some ⟨co.args.uid, agent⟩
  client : (s.agents.get agent).map Agent.fd = some co.fd ∧ agent ∉ s.killed
  others : ∀ fd, s.account fd = some co.args.uid → fd ≠ co.fd → fd ∈ view Msg.closing s.net

/-- No access of a uid comes while a handshake of it is in progress. -/
def steadyAccess (s : Sys) : Action → Prop
  | .access uid _ _ _ => ∀ co ∈ view Msg.handshake s.net, co.args.uid ≠ uid
  | _ => True

/-- While a handshake is in progress no logout of its uid is handled and its agent is neither started
again nor killed; when the gate has registered its connection, it does not clear or register it before
`hubd` has the answer. -/
def steadyMsg (s : Sys) : Msg → Prop
  | .hubLogout conn _ => ∀ user ∈ conn.user, ∀ co ∈ view Msg.handshake s.net, co.args.uid ≠ user.uid
  | .gateLogoutRet fd _ => fd ∉ view Msg.registering s.net
  | .gateKick fd raw _ => raw = true → fd ∉ view Msg.registering s.net
  | .gateRegister _ _ _ co _ => co.fd ∉ view Msg.registering s.net
  | .agentStart agent _ _ => agent ∉ view Msg.serving s.net
  | .poolRecycle agent =>
    maxnum < (s.pools agent.protocol).pool.length → agent ∉ view Msg.serving s.net
  | _ => True

instance (s : Sys) : (a : Action) → Decidable (steadyAccess s a)
  | .access uid _ _ _ =>
    inferInstanceAs (Decidable (∀ co ∈ view Msg.handshake s.net, co.args.uid ≠ uid))
  | .deliver .. | .resume .. | .connect .. | .data .. | .disconnect .. | .loginKick .. | .sweep .. =>
    .isTrue trivial

instance (s : Sys) : (m : Msg) → Decidable (steadyMsg s m)
  | .hubLogout conn _ =>
    inferInstanceAs (Decidable
      (∀ user ∈ conn.user, ∀ co ∈ view Msg.handshake s.net, co.args.uid ≠ user.uid))
  | .gateLogoutRet fd _ => inferInstanceAs (Decidable (fd ∉ view Msg.registering s.net))
  | .gateKick fd raw _ => inferInstanceAs (Decidable (raw = true → fd ∉ view Msg.registering s.net))
  | .gateRegister _ _ _ co _ => inferInstanceAs (Decidable (co.fd ∉ view Msg.registering s.net))
  | .agentStart agent _ _ => inferInstanceAs (Decidable (agent ∉ view Msg.serving s.net))
  | .poolRecycle agent =>
    inferInstanceAs (Decidable
      (maxnum < (s.pools agent.protocol).pool.length → agent ∉ view Msg.serving s.net))
  | .gateConnectRet .. | .slaveConnect .. | .slaveConnectRet .. | .slaveLogout .. |
    .slaveKick .. | .slaveClient .. | .slaveHandshakeRet .. | .hubConnect .. | .hubKick .. |
    .hubHandshake .. | .hubGetRet .. | .hubStartRet .. | .hubRegisterRet .. | .mgrGet .. |
    .mgrGetRet .. | .mgrRecycle .. | .poolGet .. | .agentLogout .. | .agentClient .. |
    .spawn .. | .expand .. | .load .. | .save .. => .isTrue trivial

/-- No handshake is taken for a reconnect, a first login begins when every connection that is
registered for its uid has been told to close, and nothing interferes. -/
structure Steady (s : Sys) (a : Action) : Prop where
  reconnect : s.reconnects a = none
  login : ∀ co ∈ s.logsIn a, ∀ fd uid, s.account fd = some uid → uid = co.args.uid →
    fd ∈ view Msg.closing s.net
  access : steadyAccess s a
  message : ∀ m ∈ s.handled a, steadyMsg s m

instance (s : Sys) (a : Action) : Decidable (Steady s a) :=
  have : Decidable (∀ co ∈ s.logsIn a, ∀ fd uid, s.account fd = some uid → uid = co.args.uid →
      fd ∈ view Msg.closing s.net) :=
    decidable_of_iff _ (forall₂_congr fun _ _ => forall_account.symm)
  decidable_of_iff (s.reconnects a = none ∧ (∀ co ∈ s.logsIn a, ∀ fd uid, s.account fd = some uid →
      uid = co.args.uid → fd ∈ view Msg.closing s.net) ∧ steadyAccess s a ∧
      ∀ m ∈ s.handled a, steadyMsg s m)
    ⟨fun ⟨h₁, h₂, h₃, h₄⟩ => ⟨h₁, h₂, h₃, h₄⟩, fun ⟨h₁, h₂, h₃, h₄⟩ => ⟨h₁, h₂, h₃, h₄⟩⟩

/-! ## How far a handshake has got -/

/-- The record of the handshake is that of its uid and has its connection. -/
structure Mine (h : Hub) (co : HandshakeCo) (user : User) : Prop where
  map : h.userMap.get co.args.uid = some co.user
  record : h.users.get co.user = some user
  conn : user.conn.map HubConn.fd = some co.fd

/-- The record has the agent, and the agent has been started for the connection. -/
structure Served (s : Sys) (co : HandshakeCo) (agent : AgentAddr) : Prop where
  mine : ∃ user, Mine s.hub co user ∧ user.agent = some agent
  client : (s.agents.get agent).map Agent.fd = some co.fd
  alive : agent ∉ s.killed

/-- The connection is registered for the account and the agent. -/
def Enrolled (s : Sys) (co : HandshakeCo) (agent : AgentAddr) : Prop :=
  ∃ c, (s.gates co.fd.gate).connection.get co.fd = some c ∧ c.user = some ⟨co.args.uid, agent⟩

/-- What holds when the handshake has got to a message. -/
def OnCourse (s : Sys) : Msg → Prop
  | .agentStart agent session co =>
    (∃ user, Mine s.hub co user ∧ user.agent = some agent) ∧ session.fd = co.fd
  | .load agent co => Served s co agent
  | .hubStartRet co agent _ => Served s co agent
  | .gateRegister gate uid agent co _ => Served s co agent ∧ gate = co.fd.gate ∧ uid = co.args.uid
  | .hubRegisterRet co agent _ res => Served s co agent ∧ (res = true → Enrolled s co agent)
  | m => ∀ co, m.handshake = some co → ∃ user, Mine s.hub co user

theorem OnCourse.mine {s : Sys} {m : Msg} (h : OnCourse s m) {co : HandshakeCo}
    (hco : m.handshake = some co) : ∃ user, Mine s.hub co user := by
  cases m with
  | agentStart agent session co' =>
    cases hco
    obtain ⟨⟨user, hmine, -⟩, -⟩ := h
    exact ⟨user, hmine⟩
  | load agent co' | hubStartRet co' agent role =>
    cases hco
    obtain ⟨user, hmine, -⟩ := Served.mine h
    exact ⟨user, hmine⟩
  | gateRegister gate uid agent co' role | hubRegisterRet co' agent role res =>
    cases hco
    obtain ⟨user, hmine, -⟩ := h.1.mine
    exact ⟨user, hmine⟩
  | _ => exact h co hco

structure Shaking (s : Sys) : Prop where
  single : ((view Msg.handshake s.net).map HandshakeCo.user).Nodup
  course : ∀ m ∈ s.net, OnCourse s m
  told : ∀ co ∈ view Msg.handshake s.net, ∀ fd, s.account fd = some co.args.uid → fd ≠ co.fd →
    fd ∈ view Msg.closing s.net

theorem init_shaking (warm : Warm) (maxclient : Protocol → Nat) : Shaking (Sys.init warm maxclient) where
  single := List.nodup_nil
  course _ hm := absurd hm List.not_mem_nil
  told _ hco := absurd hco List.not_mem_nil

/-- Two handshakes in progress that have got the same record are one. -/
theorem Shaking.rest {s : Sys} (h : Shaking s) {m : Msg} {rest : List Msg} (hperm : s.net.Perm (m :: rest))
    {co co' : HandshakeCo} (hm : m.handshake = some co) (hco : co' ∈ view Msg.handshake rest) :
    co'.user ≠ co.user := by
  have hnodup := ((Lib.Mailbox.view_perm Msg.handshake hperm).map HandshakeCo.user).nodup_iff.mp h.single
  rw [Lib.Mailbox.view_cons, hm, Option.toList_some, List.singleton_append, List.map_cons,
    List.nodup_cons] at hnodup
  exact fun he => hnodup.1 (List.mem_map.mpr ⟨co', hco, he⟩)

/-! ## What a step leaves of it -/

/-- The record stays that of the handshake; its agent changes only for a handshake with the record. -/
theorem mine_step {s s' : Sys} {a : Action} (hg : Steady s a) (hr : Formed s) (hs : s.step a = some s')
    {co : HandshakeCo} {user : User} (hin : co ∈ view Msg.handshake s.net) (h : Mine s.hub co user) :
    ∃ user', Mine s'.hub co user' ∧ (user'.agent = user.agent ∨
      ∃ co' agent, s.handled a = some (.hubGetRet co' agent) ∧ co'.user = co.user ∧
        user'.agent = some agent) := by
  have hmap : s'.hub.userMap.get co.args.uid = some co.user := by
    cases hub_stays (step_hub hs) h.map h.record with
    | kept hkept => exact hkept
    | replaced ha =>
      subst ha
      exact absurd rfl (hg.access co hin)
    | timedOut _ hnone =>
      have hconn := h.conn
      rw [hnone] at hconn
      cases hconn
    | loggedOut hm haccount huid => exact absurd huid.symm (hg.message _ hm _ haccount co hin)
  obtain ⟨user', huser', -, hconn, hagent⟩ := hub_recorded hr.hub (step_hub hs) h.record
  refine ⟨user', ⟨hmap, huser', ?_⟩, hagent⟩
  rcases hconn with hconn | hnone
  · rw [hconn]
    exact h.conn
  · have hconn := h.conn
    rw [hnone] at hconn
    cases hconn

/-- An agent that has been started for a handshake stays as it is. -/
theorem served_step {s s' : Sys} {a : Action} (hg : Steady s a) (hr : Formed s) (hs : s.step a = some s')
    {co : HandshakeCo} {agent : AgentAddr} (hin : co ∈ view Msg.handshake s.net)
    (hserv : agent ∈ view Msg.serving s.net)
    (hget : ∀ co' agent', s.handled a = some (.hubGetRet co' agent') → co'.user ≠ co.user)
    (h : Served s co agent) : Served s' co agent := by
  obtain ⟨⟨user, hmine, hagent⟩, hclient, halive⟩ := h
  refine ⟨?_, ?_, fun hk => ?_⟩
  · obtain ⟨user', hmine', hsame | ⟨co', agent', hm, he, -⟩⟩ := mine_step hg hr hs hin hmine
    · exact ⟨user', hmine', hsame.trans hagent⟩
    · exact absurd he (hget co' agent' hm)
  · rcases step_agents hs agent with hsame | ⟨session, co', hm⟩
    · rw [hsame]
      exact hclient
    · exact absurd hserv (hg.message _ hm)
  · rcases step_killed hs hk with hk | ⟨hm, hfull⟩
    · exact halive hk
    · exact hg.message _ hm hfull hserv

/-- A registered connection stays so until `hubd` has the answer. -/
theorem enrolled_step {s s' : Sys} {a : Action} (hg : Steady s a) (hr : Formed s) (hs : s.step a = some s')
    {co : HandshakeCo} {agent : AgentAddr} (hin : co ∈ view Msg.handshake s.net)
    (hreg : co.fd ∈ view Msg.registering s.net) (h : Enrolled s co agent) : Enrolled s' co agent := by
  obtain ⟨c, hc, huser⟩ := h
  refine ⟨c, (step_conn hs hc).resolve_right ?_, huser⟩
  rintro ⟨m, hm, htouch⟩
  have hsteady := hg.message m hm
  cases htouch with
  | @opened conn hfd =>
    exact (hr.coKnown co hin).2 conn (Lib.Mailbox.mem_view.mpr ⟨_, handled_mem hs hm, rfl⟩) hfd
  | closed cause => exact hsteady hreg
  | silenced origin => exact hsteady rfl hreg
  | registered gate uid agent role hfd => exact hsteady (hfd ▸ hreg)

/-- A handshake that is not at the handled message stays on course. -/
theorem onCourse_step {s s' : Sys} {a : Action} (hg : Steady s a) (hr : Formed s)
    (hs : s.step a = some s') {x : Msg} (hx : x ∈ s.net) (h : OnCourse s x)
    (hget : ∀ co, x.handshake = some co → ∀ co' agent', s.handled a = some (.hubGetRet co' agent') →
      co'.user ≠ co.user) : OnCourse s' x := by
  have hin : ∀ co, x.handshake = some co → co ∈ view Msg.handshake s.net :=
    fun co hco => Lib.Mailbox.mem_view.mpr ⟨x, hx, hco⟩
  have hserved : ∀ co agent, x.handshake = some co → x.serving = some agent → Served s co agent →
      Served s' co agent := fun co agent hco hserv =>
    served_step hg hr hs (hin co hco) (Lib.Mailbox.mem_view.mpr ⟨x, hx, hserv⟩) (hget co hco)
  have hmine : ∀ co user, x.handshake = some co → Mine s.hub co user → ∃ user', Mine s'.hub co user' ∧
      user'.agent = user.agent := by
    intro co user hco hmine
    obtain ⟨user', hmine', hsame | ⟨co', agent', hm, he, -⟩⟩ := mine_step hg hr hs (hin co hco) hmine
    · exact ⟨user', hmine', hsame⟩
    · exact absurd he (hget co hco co' agent' hm)
  cases x with
  | agentStart agent session co =>
    obtain ⟨⟨user, hm, hagent⟩, hfd⟩ := h
    obtain ⟨user', hm', hsame⟩ := hmine co user rfl hm
    exact ⟨⟨user', hm', hsame.trans hagent⟩, hfd⟩
  | load agent co => exact hserved co agent rfl rfl h
  | hubStartRet co agent role => exact hserved co agent rfl rfl h
  | gateRegister gate uid agent co role => exact ⟨hserved co agent rfl rfl h.1, h.2⟩
  | hubRegisterRet co agent role res =>
    refine ⟨hserved co agent rfl rfl h.1, fun hres => ?_⟩
    subst hres
    exact enrolled_step hg hr hs (hin co rfl) (Lib.Mailbox.mem_view.mpr ⟨_, hx, rfl⟩) (h.2 rfl)
  | _ =>
    intro co hco
    obtain ⟨user, hm⟩ := h co hco
    obtain ⟨user', hm', -⟩ := hmine co user hco hm
    exact ⟨user', hm'⟩

/-! ## The next message of a handshake -/

/-- A first login begins: its record gets the connection. -/
theorem onCourse_get {s : Sys} (hr : Formed s) {rest : List Msg} (answer : Option Nat) {fd : Fd}
    {args : HandshakeArgs} {subid : Nat} {user : User} {conn : HubConn}
    (hv : s.hub.verdict fd args = .firstLogin subid user conn) :
    ∃ user', Mine ({ s with net := rest }.react answer (.hubHandshake fd args)).hub ⟨fd, args, subid⟩ user' := by
  obtain ⟨hfd, hmap, -, -⟩ := Hub.verdict_firstLogin hv
  have hhub : ({ s with net := rest }.react answer (.hubHandshake fd args)).hub =
      { s.hub with users := s.hub.users.set subid { user with conn := some conn } } := by
    show (s.hub.handshake fd args).1 = _
    rw [Hub.handshake, hv]
  rw [hhub]
  refine ⟨{ user with conn := some conn }, hmap, Table.get_set_self _ _ _, ?_⟩
  rw [Option.map_some, hr.hub.socket fd conn hfd]

/-- The record gets the agent, and the agent is to be started for the connection of the record. -/
theorem onCourse_start {s : Sys} {rest : List Msg} (answer : Option Nat) {co : HandshakeCo}
    {agent : AgentAddr} {user : User} {conn : HubConn} (huser : s.hub.users.get co.user = some user)
    (hconn : user.conn = some conn) (h : ∃ user, Mine s.hub co user) :
    OnCourse ({ s with net := rest }.react answer (.hubGetRet co agent))
      (startFor user conn agent co false) := by
  obtain ⟨user₀, hmine⟩ := h
  obtain rfl : user₀ = user := Option.some.inj (hmine.record.symm.trans huser)
  have hfd : conn.fd = co.fd := by
    have hmap := hmine.conn
    rw [hconn] at hmap
    exact Option.some.inj hmap
  have hhub : ({ s with net := rest }.react answer (.hubGetRet co agent)).hub =
      { s.hub with users := s.hub.users.set co.user { user₀ with agent := some agent } } := by
    show (s.hub.getRet co agent).1 = _
    simp only [Hub.getRet, huser]
  refine ⟨⟨{ user₀ with agent := some agent }, ?_, rfl⟩, hfd⟩
  rw [hhub]
  exact ⟨hmine.map, Table.get_set_self _ _ _, hmine.conn⟩

/-- The agent has been started. -/
theorem onCourse_load {s : Sys} {rest : List Msg} (answer : Option Nat) {co : HandshakeCo}
    {agent : AgentAddr} {session : Session} (hk : agent ∉ s.killed)
    (h : OnCourse s (.agentStart agent session co)) :
    OnCourse ({ s with net := rest }.react answer (.agentStart agent session co)) (.load agent co) := by
  obtain ⟨hmine, hfd⟩ := h
  simp only [react, if_neg hk]
  refine ⟨hmine, ?_, hk⟩
  show ((s.agents.set agent { fd := session.fd, session := session }).get agent).map Agent.fd = some co.fd
  rw [Table.get_set_self, Option.map_some, hfd]

/-- The gate has answered. -/
theorem onCourse_registered {s s' : Sys} {a : Action} (hs : s.step a = some s') {gate : Protocol}
    {uid : String} {agent : AgentAddr} {co : HandshakeCo} {role : Nat}
    (hm : s.handled a = some (.gateRegister gate uid agent co role)) (hserved : Served s' co agent)
    (h : OnCourse s (.gateRegister gate uid agent co role)) :
    OnCourse s' (.hubRegisterRet co agent role ((s.gates gate).register co.fd uid agent).2) := by
  obtain ⟨-, rfl, rfl⟩ := h
  refine ⟨hserved, fun hres => ?_⟩
  rcases (s.gates co.fd.gate).register_cases co.fd co.args.uid agent with ⟨-, hreg⟩ | ⟨conn, -, hreg⟩
  · rw [hreg] at hres
    cases hres
  · obtain ⟨rest, answer, -, rfl⟩ := step_message hs hm
    refine ⟨{ conn with user := some ⟨co.args.uid, agent⟩ }, ?_, rfl⟩
    show (Function.update s.gates co.fd.gate ((s.gates co.fd.gate).register co.fd co.args.uid agent).1
      co.fd.gate).connection.get co.fd = _
    rw [Function.update_self, hreg, Table.get_set_self]

/-- What is sent on in a handshake is on course. -/
theorem onCourse_sent {s s' : Sys} {a : Action} (hg : Steady s a) (hr : Formed s)
    (hs : s.step a = some s') {m x : Msg} (hm : s.handled a = some m) (hx : Sends s m x)
    (h : OnCourse s m) : OnCourse s' x := by
  have hmem := handled_mem hs hm
  have hserved : ∀ {co agent}, m.handshake = some co → m.serving = some agent →
      (∀ co' agent', m ≠ .hubGetRet co' agent') → Served s co agent → Served s' co agent := by
    intro co agent hco hserv hne
    refine served_step hg hr hs (Lib.Mailbox.mem_view.mpr ⟨m, hmem, hco⟩)
      (Lib.Mailbox.mem_view.mpr ⟨m, hmem, hserv⟩) fun co' agent' hget => ?_
    rw [hm] at hget
    exact absurd (Option.some.inj hget) (hne co' agent')
  -- a handshake that still waits for its agent is passed on with the same record
  have hpass : ∀ {co}, m.handshake = some co → m.dst ≠ .hubd → ∃ user, Mine s'.hub co user := by
    intro co hco hdst
    obtain ⟨rest, answer, -, rfl⟩ := step_message hs hm
    rw [react_hub _ answer hdst]
    exact h.mine hco
  cases hx with
  | registered gate uid agent co role =>
    exact onCourse_registered hs hm (hserved rfl rfl (fun _ _ hne => by cases hne) h.1) h
  | restart hv hagent =>
    have hrec := hg.reconnect
    simp only [reconnects, hm, hv] at hrec
    cases hrec
  | get hv =>
    obtain ⟨rest, answer, -, rfl⟩ := step_message hs hm
    intro co hco
    cases hco
    exact onCourse_get hr answer hv
  | start huser hconn =>
    obtain ⟨rest, answer, -, rfl⟩ := step_message hs hm
    exact onCourse_start answer huser hconn (h _ rfl)
  | @register co agent a' role user conn huser hconn hagent =>
    obtain ⟨user₀, hmine, hagent₀⟩ := Served.mine h
    obtain rfl : user₀ = user := Option.some.inj (hmine.record.symm.trans huser)
    obtain rfl : agent = a' := Option.some.inj (hagent₀.symm.trans hagent)
    have hfd := hmine.conn
    rw [hconn] at hfd
    refine ⟨hserved rfl rfl (fun _ _ hne => by cases hne) h, ?_, hr.hub.token hmine.map huser⟩
    rw [← Option.some.inj hfd]
  | mgrGet p co | mgrGetRet co agent | got hpop | spawn p co | spawned p co | expand p co agent i
  | expanded p co agent i =>
    intro co' hco
    cases hco
    exact hpass rfl (by simp [Msg.dst])
  | load session co hk =>
    obtain ⟨rest, answer, -, rfl⟩ := step_message hs hm
    exact onCourse_load answer hk h
  | loaded agent co role => exact hserved rfl rfl (fun _ _ hne => by cases hne) h
  | _ => intro co hco; cases hco

/-! ## The connections that have been told to close -/

/-- A connection that has been told to close is still being told as long as it is at its gate. -/
theorem closing_step {s s' : Sys} {a : Action} (hr : Formed s) (hs : s.step a = some s') {fd : Fd}
    {c' : Conn} (hc : (s'.gates fd.gate).connection.get fd = some c')
    (hclosing : fd ∈ view Msg.closing s.net) : fd ∈ view Msg.closing s'.net := by
  obtain ⟨x, hx, hxfd⟩ := Lib.Mailbox.mem_view.mp hclosing
  by_cases hm : s.handled a = some x
  · obtain ⟨rest, answer, -, rfl⟩ := step_message hs hm
    cases x with
    | gateLogoutRet fd' cause =>
      obtain rfl : fd' = fd := Option.some.inj hxfd
      have hget : (Function.update s.gates fd'.gate ((s.gates fd'.gate).logoutRet fd' cause)
        fd'.gate).connection.get fd' = some c' := hc
      rw [Function.update_self, Gate.logoutRet_connection, Table.get_del_self] at hget
      cases hget
    | gateKick fd' raw origin =>
      obtain rfl : fd' = fd := Option.some.inj hxfd
      have hget : (Function.update s.gates fd'.gate ((s.gates fd'.gate).kick fd' raw origin).1
        fd'.gate).connection.get fd' = some c' := hc
      rw [Function.update_self] at hget
      rcases (s.gates fd'.gate).closeAgent_cases fd' raw (.kick origin) with
        ⟨hnone, hconn, -⟩ | ⟨c, hc₀, ⟨-, hconn, -⟩ | ⟨-, -, hout⟩⟩
      · rw [show ((s.gates fd'.gate).kick fd' raw origin).1.connection = _ from hconn, hnone] at hget
        cases hget
      · rw [show ((s.gates fd'.gate).kick fd' raw origin).1.connection = _ from hconn,
          Table.get_del_self] at hget
        cases hget
      · refine Lib.Mailbox.mem_view.mpr ⟨.slaveLogout c (.kick origin), ?_, ?_⟩
        · show _ ∈ rest ++ ((s.gates fd'.gate).kick fd' raw origin).2
          rw [show ((s.gates fd'.gate).kick fd' raw origin).2 = _ from hout]
          exact List.mem_append_right _ (List.mem_singleton_self _)
        · exact congrArg some (hr.gates _ _ _ hc₀).1
    | slaveLogout conn cause =>
      obtain rfl : conn.fd = fd := Option.some.inj hxfd
      refine Lib.Mailbox.mem_view.mpr ⟨.gateLogoutRet conn.fd cause, ?_, rfl⟩
      exact List.mem_append_right _ (List.mem_cons_of_mem _ List.mem_cons_self)
    | _ => cases hxfd
  · obtain ⟨rest, outs, hnet, ⟨-, rfl, -⟩ | ⟨m, hm', hperm, -, -⟩⟩ := step_outs hs
    · rw [hnet]
      exact Lib.Mailbox.mem_view.mpr ⟨x, List.mem_append_left _ hx, hxfd⟩
    · have hne : x ≠ m := fun he => hm (he ▸ hm')
      rw [hnet]
      refine Lib.Mailbox.mem_view.mpr ⟨x, List.mem_append_left _ ?_, hxfd⟩
      exact (List.mem_cons.mp (hperm.mem_iff.mp hx)).resolve_left hne

/-- A connection registered for an account was so before, or the step has registered it. -/
theorem account_step {s s' : Sys} {a : Action} (hr : Formed s) (hs : s.step a = some s') {fd : Fd}
    {uid : String} (hacc : s'.account fd = some uid) :
    s.account fd = some uid ∨ ∃ agent co role,
      s.handled a = some (.gateRegister fd.gate uid agent co role) ∧ co.fd = fd := by
  obtain ⟨c', user, hc', huser, rfl⟩ := account_eq.mp hacc
  cases step_kept hs hc' with
  | same hc => exact .inl (account_eq.mpr ⟨c', user, hc, huser, rfl⟩)
  | opened hm =>
    rw [hr.newConn c' (Lib.Mailbox.mem_view.mpr ⟨_, handled_mem hs hm, rfl⟩)] at huser
    cases huser
  | @registered c uid agent co role hm hfd hc hc' =>
    subst hc'
    cases huser
    exact .inr ⟨agent, co, role, hm, hfd.symm⟩

/-! ## A step, and a run -/

/-- The handshake of a message that is sent is that of the handled message, or a first login begins. -/
theorem sends_handshake {s : Sys} {a : Action} (hg : Steady s a) {m x : Msg} (hm : s.handled a = some m)
    (hx : Sends s m x) {co : HandshakeCo} (hco : x.handshake = some co) :
    m.handshake = some co ∨ s.logsIn a = some co ∧ ∃ fd args subid user conn,
      s.hub.verdict fd args = .firstLogin subid user conn ∧ co = ⟨fd, args, subid⟩ := by
  cases hx with
  | restart hv hagent =>
    have hrec := hg.reconnect
    simp only [reconnects, hm, hv] at hrec
    cases hrec
  | get hv =>
    cases hco
    refine .inr ⟨?_, _, _, _, _, _, hv, rfl⟩
    simp only [logsIn, hm, hv]
  | registered gate uid agent co role | start huser hconn | register huser hconn hagent | mgrGet p co
  | mgrGetRet co agent | got hpop | spawn p co | spawned p co | expand p co agent i
  | expanded p co agent i | load session co hk | loaded agent co role => exact .inl hco
  | _ => cases hco

/-- The record of a first login is no handshake's yet. -/
theorem Shaking.fresh {s : Sys} (h : Shaking s) {fd : Fd} {args : HandshakeArgs} {subid : Nat} {user : User}
    {conn : HubConn} (hv : s.hub.verdict fd args = .firstLogin subid user conn) {co : HandshakeCo}
    (hco : co ∈ view Msg.handshake s.net) : co.user ≠ subid := by
  rintro rfl
  obtain ⟨x, hx, hxco⟩ := Lib.Mailbox.mem_view.mp hco
  obtain ⟨user', hmine⟩ := (h.course x hx).mine hxco
  obtain ⟨-, -, huser, hnone⟩ := Hub.verdict_firstLogin hv
  obtain rfl : user' = user := Option.some.inj (hmine.record.symm.trans huser)
  have hconn := hmine.conn
  rw [hnone] at hconn
  cases hconn

theorem single_step {s s' : Sys} {a : Action} (h : Shaking s) (hg : Steady s a)
    (hs : s.step a = some s') : ((view Msg.handshake s'.net).map HandshakeCo.user).Nodup := by
  obtain ⟨rest, outs, hnet, ⟨-, rfl, hout⟩ | ⟨m, hm, hperm, hout, hlength⟩⟩ := step_outs hs
  · have hnone : view Msg.handshake outs = [] :=
      Lib.Mailbox.view_eq_nil fun x hx => by cases hout x hx <;> rfl
    rw [hnet, Lib.Mailbox.view_append, hnone, List.append_nil]
    exact h.single
  · have hold := ((Lib.Mailbox.view_perm Msg.handshake hperm).map HandshakeCo.user).nodup_iff.mp h.single
    rw [Lib.Mailbox.view_cons, List.map_append] at hold
    rw [hnet, Lib.Mailbox.view_append, List.map_append]
    refine List.nodup_append.mpr ⟨(List.nodup_append.mp hold).2.1, ?_, ?_⟩
    · generalize view Msg.handshake outs = cos at hlength
      match cos, hlength with
      | [], _ => exact List.nodup_nil
      | [co], _ => exact List.nodup_singleton _
    · rintro u hu v hv rfl
      obtain ⟨co, hco, rfl⟩ := List.mem_map.mp hu
      obtain ⟨co', hco', he⟩ := List.mem_map.mp hv
      obtain ⟨x, hx, hxco⟩ := Lib.Mailbox.mem_view.mp hco'
      rcases sends_handshake hg hm (hout x hx) hxco with hmco | ⟨-, fd, args, subid, user, conn, hv, rfl⟩
      · exact h.rest hperm hmco hco he.symm
      · refine h.fresh hv ?_ he.symm
        refine (Lib.Mailbox.view_perm Msg.handshake hperm).mem_iff.mpr ?_
        rw [Lib.Mailbox.view_cons]
        exact List.mem_append_right _ hco

theorem told_step {s s' : Sys} {a : Action} (h : Shaking s) (hr : Formed s) (hg : Steady s a)
    (hs : s.step a = some s') {co : HandshakeCo} (hco : co ∈ view Msg.handshake s'.net) {fd : Fd}
    (hacc : s'.account fd = some co.args.uid) (hne : fd ≠ co.fd) : fd ∈ view Msg.closing s'.net := by
  obtain ⟨c', -, hc', -⟩ := account_eq.mp hacc
  obtain ⟨x, hx, hxco⟩ := Lib.Mailbox.mem_view.mp hco
  rcases account_step hr hs hacc with hacc | ⟨agent, co', role, hm, rfl⟩
  · refine closing_step hr hs hc' ?_
    rcases step_net hs hx with hx | hx | ⟨m, hm, hmem, hsends⟩
    · exact h.told co (Lib.Mailbox.mem_view.mpr ⟨x, hx, hxco⟩) fd hacc hne
    · cases hx <;> cases hxco
    · rcases sends_handshake hg hm hsends hxco with hmco | ⟨hlog, -⟩
      · exact h.told co (Lib.Mailbox.mem_view.mpr ⟨m, hmem, hmco⟩) fd hacc hne
      · exact hg.login co hlog fd _ hacc rfl
  · -- the connection is being registered, so this is its own handshake
    refine absurd ?_ hne
    obtain ⟨-, -, huid⟩ := h.course _ (handled_mem hs hm)
    obtain ⟨user', hmine'⟩ := (h.course _ (handled_mem hs hm)).mine (show Msg.handshake _ = some co' from rfl)
    obtain ⟨rest, outs, hnet, ⟨hnone, -, -⟩ | ⟨m, hm', hperm, hout, -⟩⟩ := step_outs hs
    · rw [hnone] at hm
      cases hm
    · obtain rfl := Option.some.inj (hm'.symm.trans hm)
      rw [hnet] at hx
      rcases List.mem_append.mp hx with hx | hx
      · have hold : x ∈ s.net := hperm.mem_iff.mpr (List.mem_cons_of_mem _ hx)
        obtain ⟨user, hmine⟩ := (h.course x hold).mine hxco
        have hsame : co.user = co'.user := by
          have hmap := hmine.map
          rw [huid, hmine'.map] at hmap
          exact (Option.some.inj hmap).symm
        exact absurd hsame (h.rest hperm rfl (Lib.Mailbox.mem_view.mpr ⟨x, hx, hxco⟩))
      · cases hout x hx
        cases hxco
        rfl

theorem shaking_step {s s' : Sys} {a : Action} (h : Shaking s) (hr : Formed s) (hg : Steady s a)
    (hs : s.step a = some s') : Shaking s' where
  single := single_step h hg hs
  course x hx := by
    obtain ⟨rest, outs, hnet, ⟨hnone, rfl, hout⟩ | ⟨m, hm, hperm, hout, -⟩⟩ := step_outs hs
    · rw [hnet] at hx
      rcases List.mem_append.mp hx with hx | hx
      · refine onCourse_step hg hr hs hx (h.course x hx) fun co hco co' agent' hget => ?_
        rw [hnone] at hget
        cases hget
      · cases hout x hx <;> exact fun co hco => by cases hco
    · rw [hnet] at hx
      rcases List.mem_append.mp hx with hx | hx
      · have hold : x ∈ s.net := hperm.mem_iff.mpr (List.mem_cons_of_mem _ hx)
        refine onCourse_step hg hr hs hold (h.course x hold) fun co hco co' agent' hget => ?_
        obtain rfl := Option.some.inj (hm.symm.trans hget)
        exact (h.rest hperm rfl (Lib.Mailbox.mem_view.mpr ⟨x, hx, hco⟩)).symm
      · exact onCourse_sent hg hr hs hm (hout x hx) (h.course m (hperm.mem_iff.mpr List.mem_cons_self))
  told _ hco _ hacc hne := told_step h hr hg hs hco hacc hne

theorem reach_shaking {s : Sys} (h : node.ReachUnder Steady s) : Shaking s :=
  h.invariant Shaking (by rintro _ ⟨warm, maxclient, rfl⟩; exact init_shaking warm maxclient)
    fun _ _ _ hr hI hg hs => shaking_step hI (reach_formed hr.reach) hg hs

/-- In a steady run, a handshake that returns success has brought hub, gate and agent to agree. -/
theorem agreement_of_steady (s s' : Sys) (a : Action) (co : HandshakeCo) (agent : AgentAddr) (role : Nat)
    (hr : node.ReachUnder Steady s) (hs : s.step a = some s')
    (hm : s.handled a = some (.hubRegisterRet co agent role true)) : Agreement s' co agent := by
  have h := reach_shaking hr
  have hmem := handled_mem hs hm
  obtain ⟨⟨⟨user, hmine, hagent⟩, hclient, halive⟩, henrolled⟩ := h.course _ hmem
  obtain ⟨c, hc, huser⟩ := henrolled rfl
  have hclosing : ∀ fd, s'.account fd = some co.args.uid → fd ≠ co.fd → fd ∈ view Msg.closing s'.net := by
    intro fd hacc hne
    obtain ⟨c', -, hc', -⟩ := account_eq.mp hacc
    refine closing_step (reach_formed hr.reach) hs hc' ?_
    rcases account_step (reach_formed hr.reach) hs hacc with hacc | ⟨agent', co', role', hm', -⟩
    · exact h.told co (Lib.Mailbox.mem_view.mpr ⟨_, hmem, rfl⟩) fd hacc hne
    · rw [hm] at hm'
      cases hm'
  obtain ⟨rest, answer, -, rfl⟩ := step_message hs hm
  exact ⟨⟨user, Hub.user_eq.mpr ⟨co.user, hmine.map, hmine.record⟩, hmine.conn, hagent⟩, ⟨c, hc, huser⟩,
    ⟨hclient, halive⟩, hclosing⟩

/-- A player logs in, is kicked by the login node, and logs in again at the other gate while the kick
has not reached the first one. -/
theorem agreement_of_steady_relogin :
    ∃ s s', node.exec opened
        (connecting .tcp ++ [Action.access "u" "k" "1" 0] ++
          loggingIn ⟨.tcp, 1⟩ ⟨"u", "k", "2"⟩ ⟨.tcp, 2⟩ 2 ++ [Action.loginKick "u", .access "u" "l" "1" 0] ++
          connecting .ws ++ enrolling ⟨.ws, 2⟩ ⟨"u", "l", "3"⟩ ⟨.ws, 2⟩ 3) = some s ∧
      s.step (.deliver .hubd) = some s' ∧ s'.account ⟨.tcp, 1⟩ = some "u" ∧
      Agreement s' ⟨⟨.ws, 2⟩, ⟨"u", "l", "3"⟩, 3⟩ ⟨.ws, 2⟩ := by
  have hrun : ∃ s ∈ node.execWhile (fun s a => decide (Steady s a)) opened
      (connecting .tcp ++ [Action.access "u" "k" "1" 0] ++
        loggingIn ⟨.tcp, 1⟩ ⟨"u", "k", "2"⟩ ⟨.tcp, 2⟩ 2 ++ [Action.loginKick "u", .access "u" "l" "1" 0] ++
        connecting .ws ++ enrolling ⟨.ws, 2⟩ ⟨"u", "l", "3"⟩ ⟨.ws, 2⟩ 3),
      s.handled (.deliver .hubd) =
        some (.hubRegisterRet ⟨⟨.ws, 2⟩, ⟨"u", "l", "3"⟩, 3⟩ ⟨.ws, 2⟩ 1 true) ∧
      ∃ s' ∈ s.step (.deliver .hubd), s'.account ⟨.tcp, 1⟩ = some "u" := by
    decide +kernel
  obtain ⟨s, hs, hm, s', hs', hold⟩ := hrun
  exact ⟨s, s', Lib.Machine.exec_of_execWhile hs, hs', hold, agreement_of_steady s s' _ _ _ _
    (Lib.Machine.ReachUnder.execWhile (fun _ _ h => of_decide_eq_true h) (.start opened_start) hs) hs' hm⟩

/-- A player reconnects with another socket of the same gate. The handshake returns success, while the
record and the agent still have the old socket. -/
theorem not_agreement_reconnect :
    ¬ ∀ s s' a co agent role, node.Reach s → s.step a = some s' →
      s.handled a = some (.hubRegisterRet co agent role true) → Agreement s' co agent := by
  intro h
  have hrun : ∃ s ∈ node.exec opened
      (connecting .tcp ++ [Action.access "u" "k" "1" 0] ++
        loggingIn ⟨.tcp, 1⟩ ⟨"u", "k", "2"⟩ ⟨.tcp, 2⟩ 2 ++
        connecting .tcp ++ asking ⟨.tcp, 2⟩ ⟨"u", "k", "2"⟩ ++
        [Action.deliver (.gate .tcp), .deliver (.agent ⟨.tcp, 2⟩),
          .resume (.load ⟨.tcp, 2⟩ ⟨⟨.tcp, 2⟩, ⟨"u", "k", "2"⟩, 2⟩) (some 1), .deliver .hubd,
          .deliver (.gate .tcp)]),
      s.handled (.deliver .hubd) =
        some (.hubRegisterRet ⟨⟨.tcp, 2⟩, ⟨"u", "k", "2"⟩, 2⟩ ⟨.tcp, 2⟩ 1 true) ∧
      ∃ s' ∈ s.step (.deliver .hubd),
        ∀ user ∈ s'.hub.user "u", user.conn.map HubConn.fd = some ⟨.tcp, 1⟩ := by
    decide +kernel
  obtain ⟨s, hs, hm, s', hs', hold⟩ := hrun
  obtain ⟨user, huser, hconn, -⟩ :=
    (h s s' _ _ _ _ (Lib.Machine.Reach.exec (.start opened_start) hs) hs' hm).hub
  rw [hold user huser] at hconn
  cases hconn

end Sys

end AntServer.Game
