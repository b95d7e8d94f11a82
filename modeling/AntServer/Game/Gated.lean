/-
# AntServer.Game.Gated — a gate

`service/game/gated.lua` over its `gateserver`, which for the two protocols differs in what
`closeclient` does with the entry of the socket: `gateserver_tcp` leaves `false` until the close event
comes, `gateserver_ws` removes the entry and counts the client off. An operation gives the gate after
it and the messages it sends.

`close_agent` yields at its `logout` call and clears `connection[fd]` only when the call returns; that
second half is `logoutRet`. The websocket upgrade, before which no message reaches `handler.message`,
is not modelled.
-/
import AntServer.Game.Messages
import AntServer.Lib.Table

namespace AntServer.Game

open Lib (Table)

/-- `connection` of `gated`, and of `gateserver` its own `connection`, the number of clients and its
bound; `sock` are the sockets whose close or error event has not come yet. -/
structure Gate where
  connection : Table Fd Conn
  client : Table Fd Bool
  clientNumber : Nat
  maxclient : Nat
  sock : Table Fd Unit

namespace Gate

/-- `gateserver.closeclient`. -/
def closeclient (g : Gate) (fd : Fd) : Gate :=
  match g.client.get fd, fd.gate with
  | some true, .tcp => { g with client := g.client.set fd false }
  | some true, .ws => { g with client := g.client.del fd, clientNumber := g.clientNumber - 1 }
  | _, _ => g

/-- `close_fd`, after the handler of a close or error event. -/
def closeFd (g : Gate) (fd : Fd) : Gate :=
  match g.client.get fd with
  | some _ => { g with client := g.client.del fd, clientNumber := g.clientNumber - 1 }
  | none => g

/-- The end of `close_agent`. -/
def finishClose (g : Gate) (fd : Fd) : Gate :=
  { g with connection := g.connection.del fd }.closeclient fd

/-- What follows `close_agent` in its caller. -/
def afterClose (g : Gate) (fd : Fd) : Cause → Gate
  | .kick _ => g
  | .event => g.closeFd fd

/-- `close_agent` up to its `logout` call. -/
def closeAgent (g : Gate) (fd : Fd) (raw : Bool) (cause : Cause) : Gate × List Msg :=
  match g.connection.get fd with
  | some c => if raw then ((g.finishClose fd).afterClose fd cause, []) else (g, [.slaveLogout c cause])
  | none => (g.afterClose fd cause, [])

/-- `close_agent` from the answer of its `logout` call. -/
def logoutRet (g : Gate) (fd : Fd) (cause : Cause) : Gate := (g.finishClose fd).afterClose fd cause

/-- `CMD.kick`. -/
def kick (g : Gate) (fd : Fd) (raw : Bool) (origin : Option Fd) : Gate × List Msg :=
  g.closeAgent fd raw (.kick origin)

/-- `CMD.register`. -/
def register (g : Gate) (fd : Fd) (uid : String) (agent : AgentAddr) : Gate × Bool :=
  match g.connection.get fd with
  | none => (g, false)
  | some conn =>
    ({ g with connection := g.connection.set fd { conn with user := some ⟨uid, agent⟩ } }, true)

/-- `MSG.open` up to the `connect` call of `create_conn_data`. -/
def openSocket (g : Gate) (fd : Fd) (ip : String) : Gate × List Msg :=
  if g.clientNumber ≥ g.maxclient then (g, [])
  else
    ({ g with
        client := g.client.set fd true
        clientNumber := g.clientNumber + 1
        sock := g.sock.set fd () },
      [.slaveConnect { fd := fd, ip := ip, user := none }])

/-- `handler.connect` from the answer of its `connect` call. -/
def connectRet (g : Gate) (conn : Conn) : Gate := { g with connection := g.connection.set conn.fd conn }

/-- A message of the client: `dispatch_msg` and `handler.message`, which raises without a
`connection[fd]`. -/
def message (g : Gate) (fd : Fd) (req : ClientReq) : List Msg :=
  match g.client.get fd with
  | some true =>
    match g.connection.get fd with
    | none => []
    | some c =>
      match c.user with
      | some user => [.agentClient user.agent fd req]
      | none => [.slaveClient fd req]
  | _ => []

/-- The close or error event of a socket. -/
def disconnect (g : Gate) (fd : Fd) : Gate × List Msg :=
  { g with sock := g.sock.del fd }.closeAgent fd false .event

/-! ## What they do to `connection` -/

@[simp] theorem closeclient_connection (g : Gate) (fd : Fd) :
    (g.closeclient fd).connection = g.connection := by
  unfold closeclient
  split <;> rfl

@[simp] theorem closeFd_connection (g : Gate) (fd : Fd) : (g.closeFd fd).connection = g.connection := by
  unfold closeFd
  split <;> rfl

@[simp] theorem finishClose_connection (g : Gate) (fd : Fd) :
    (g.finishClose fd).connection = g.connection.del fd := closeclient_connection _ _

@[simp] theorem afterClose_connection (g : Gate) (fd : Fd) (cause : Cause) :
    (g.afterClose fd cause).connection = g.connection := by
  cases cause
  · rfl
  · exact closeFd_connection g fd

@[simp] theorem logoutRet_connection (g : Gate) (fd : Fd) (cause : Cause) :
    (g.logoutRet fd cause).connection = g.connection.del fd := by
  rw [logoutRet, afterClose_connection, finishClose_connection]

/-- What `close_agent` does before it yields, by the connection it finds. -/
theorem closeAgent_cases (g : Gate) (fd : Fd) (raw : Bool) (cause : Cause) :
    (g.connection.get fd = none ∧ (g.closeAgent fd raw cause).1.connection = g.connection ∧
      (g.closeAgent fd raw cause).2 = []) ∨
    ∃ c, g.connection.get fd = some c ∧
      (raw = true ∧ (g.closeAgent fd raw cause).1.connection = g.connection.del fd ∧
        (g.closeAgent fd raw cause).2 = [] ∨
      raw = false ∧ (g.closeAgent fd raw cause).1.connection = g.connection ∧
        (g.closeAgent fd raw cause).2 = [.slaveLogout c cause]) := by
  unfold closeAgent
  cases hc : g.connection.get fd with
  | none => exact .inl ⟨rfl, afterClose_connection _ _ _, rfl⟩
  | some c =>
    refine .inr ⟨c, rfl, ?_⟩
    cases raw with
    | true =>
      refine .inl ⟨rfl, ?_, rfl⟩
      simp only [if_true, afterClose_connection, finishClose_connection]
    | false => exact .inr ⟨rfl, rfl, rfl⟩

/-- `close_agent` gives no socket a connection. -/
theorem closeAgent_conn (g : Gate) (fd : Fd) (raw : Bool) (cause : Cause) (fd' : Fd) (c : Conn)
    (hc : (g.closeAgent fd raw cause).1.connection.get fd' = some c) :
    g.connection.get fd' = some c := by
  rcases g.closeAgent_cases fd raw cause with ⟨-, hconn, -⟩ | ⟨_, -, ⟨-, hconn, -⟩ | ⟨-, hconn, -⟩⟩
  · exact hconn ▸ hc
  · rw [hconn, Table.get_del] at hc
    split at hc
    · cases hc
    · exact hc
  · exact hconn ▸ hc

/-! ## What they send -/

/-- A message of a client goes to the agent of its connection, or to a slave of the hub if it has none. -/
theorem message_sends {g : Gate} {fd : Fd} {req : ClientReq} {m : Msg} (hm : m ∈ g.message fd req) :
    ∃ c, g.connection.get fd = some c ∧
      ((∃ user, c.user = some user ∧ m = .agentClient user.agent fd req) ∨
        c.user = none ∧ m = .slaveClient fd req) := by
  unfold message at hm
  split at hm
  · split at hm
    · cases hm
    · rename_i c hc
      refine ⟨c, hc, ?_⟩
      split at hm
      · rename_i user huser
        exact .inl ⟨user, huser, List.mem_singleton.mp hm⟩
      · rename_i huser
        exact .inr ⟨huser, List.mem_singleton.mp hm⟩
  · cases hm

/-- The only message of a new socket is the `connect` to a slave. -/
theorem openSocket_sends {g : Gate} {fd : Fd} {ip : String} {m : Msg} (hm : m ∈ (g.openSocket fd ip).2) :
    m = .slaveConnect { fd := fd, ip := ip, user := none } := by
  unfold openSocket at hm
  split at hm
  · cases hm
  · exact List.mem_singleton.mp hm

@[simp] theorem openSocket_connection (g : Gate) (fd : Fd) (ip : String) :
    (g.openSocket fd ip).1.connection = g.connection := by
  unfold openSocket
  split <;> rfl

/-! ## The table is well formed -/

/-- A socket id has the connection of the socket, at the gate that accepted it. -/
def Ok (p : Protocol) (g : Gate) : Prop := ∀ fd c, g.connection.get fd = some c → c.fd = fd ∧ fd.gate = p

/-- A connection is removed. -/
theorem Ok.del {p : Protocol} {g g' : Gate} (h : g.Ok p) {fd : Fd}
    (hc : g'.connection = g.connection.del fd) : g'.Ok p := by
  intro fd' c hget
  rw [hc, Table.get_del] at hget
  split at hget
  · cases hget
  · exact h fd' c hget

/-- The connections are the same. -/
theorem Ok.congr {p : Protocol} {g g' : Gate} (h : g.Ok p) (hc : g'.connection = g.connection) : g'.Ok p := by
  intro fd c hget
  rw [hc] at hget
  exact h fd c hget

/-- `close_agent` up to its `logout` call. -/
theorem closeAgent_ok {p : Protocol} {g : Gate} (h : g.Ok p) (fd : Fd) (raw : Bool) (cause : Cause) :
    (g.closeAgent fd raw cause).1.Ok p := by
  rcases g.closeAgent_cases fd raw cause with ⟨-, hc, -⟩ | ⟨c, -, ⟨-, hc, -⟩ | ⟨-, hc, -⟩⟩
  · exact h.congr hc
  · exact h.del hc
  · exact h.congr hc

/-- `close_agent` from the answer of that call. -/
theorem logoutRet_ok {p : Protocol} {g : Gate} (h : g.Ok p) (fd : Fd) (cause : Cause) :
    (g.logoutRet fd cause).Ok p := h.del (g.logoutRet_connection fd cause)

/-- `create_conn_data` puts the connection under its own socket. -/
theorem connectRet_ok {g : Gate} (conn : Conn) (h : g.Ok conn.fd.gate) :
    (g.connectRet conn).Ok conn.fd.gate := by
  intro fd c hget
  have hget : (g.connection.set conn.fd conn).get fd = some c := hget
  rw [Table.get_set] at hget
  split at hget
  · rename_i hfd
    cases hget
    exact ⟨hfd.symm, hfd ▸ rfl⟩
  · exact h fd c hget

/-- What `register` does to `connection`. -/
theorem register_cases (g : Gate) (fd : Fd) (uid : String) (agent : AgentAddr) :
    g.connection.get fd = none ∧ g.register fd uid agent = (g, false) ∨
    ∃ conn, g.connection.get fd = some conn ∧ g.register fd uid agent =
      ({ g with connection := g.connection.set fd { conn with user := some ⟨uid, agent⟩ } }, true) := by
  unfold register
  cases hc : g.connection.get fd with
  | none => exact .inl ⟨rfl, rfl⟩
  | some conn => exact .inr ⟨conn, rfl, rfl⟩

/-- `register` changes the user of a connection and not its socket. -/
theorem register_ok {p : Protocol} {g : Gate} (h : g.Ok p) (fd : Fd) (uid : String) (agent : AgentAddr) :
    (g.register fd uid agent).1.Ok p := by
  rcases g.register_cases fd uid agent with ⟨-, hr⟩ | ⟨conn, hconn, hr⟩
  · rw [hr]
    exact h
  · rw [hr]
    intro fd' c hget
    have hget : (g.connection.set fd _).get fd' = some c := hget
    rw [Table.get_set] at hget
    split at hget
    · rename_i hfd
      cases hget
      subst hfd
      exact h fd' conn hconn
    · exact h fd' c hget

/-! ## The other sockets -/

/-- Every socket but `fd` has at the gate what it had. -/
structure Elsewhere (fd : Fd) (g g' : Gate) : Prop where
  connection : ∀ fd', fd' ≠ fd → g'.connection.get fd' = g.connection.get fd'
  client : ∀ fd', fd' ≠ fd → g'.client.get fd' = g.client.get fd'
  sock : ∀ fd', fd' ≠ fd → g'.sock.get fd' = g.sock.get fd'

/-- Nothing changes. -/
theorem Elsewhere.refl (fd : Fd) (g : Gate) : Elsewhere fd g g :=
  ⟨fun _ _ => rfl, fun _ _ => rfl, fun _ _ => rfl⟩

/-- Two changes at one socket. -/
theorem Elsewhere.trans {fd : Fd} {g g' g'' : Gate} (h : Elsewhere fd g g') (h' : Elsewhere fd g' g'') :
    Elsewhere fd g g'' where
  connection fd' hne := (h'.connection fd' hne).trans (h.connection fd' hne)
  client fd' hne := (h'.client fd' hne).trans (h.client fd' hne)
  sock fd' hne := (h'.sock fd' hne).trans (h.sock fd' hne)

/-- `closeclient` changes the entry of one socket. -/
theorem closeclient_elsewhere (g : Gate) (fd : Fd) : Elsewhere fd g (g.closeclient fd) := by
  unfold closeclient
  split
  · exact ⟨fun _ _ => rfl, fun _ hne => Table.get_set_ne _ _ hne, fun _ _ => rfl⟩
  · exact ⟨fun _ _ => rfl, fun _ hne => Table.get_del_ne _ hne, fun _ _ => rfl⟩
  · exact .refl fd g

/-- So does `close_fd`. -/
theorem closeFd_elsewhere (g : Gate) (fd : Fd) : Elsewhere fd g (g.closeFd fd) := by
  unfold closeFd
  split
  · exact ⟨fun _ _ => rfl, fun _ hne => Table.get_del_ne _ hne, fun _ _ => rfl⟩
  · exact .refl fd g

/-- So does the end of `close_agent`. -/
theorem finishClose_elsewhere (g : Gate) (fd : Fd) : Elsewhere fd g (g.finishClose fd) := by
  have hdel : Elsewhere fd g { g with connection := g.connection.del fd } :=
    ⟨fun _ hne => Table.get_del_ne _ hne, fun _ _ => rfl, fun _ _ => rfl⟩
  exact hdel.trans (closeclient_elsewhere _ fd)

/-- So does what follows it in its caller. -/
theorem afterClose_elsewhere (g : Gate) (fd : Fd) (cause : Cause) :
    Elsewhere fd g (g.afterClose fd cause) := by
  cases cause with
  | kick origin => exact .refl fd g
  | event => exact closeFd_elsewhere g fd

/-- So does `close_agent` before it yields. -/
theorem closeAgent_elsewhere (g : Gate) (fd : Fd) (raw : Bool) (cause : Cause) :
    Elsewhere fd g (g.closeAgent fd raw cause).1 := by
  unfold closeAgent
  split
  · cases raw with
    | true => exact (finishClose_elsewhere g fd).trans (afterClose_elsewhere _ fd cause)
    | false => exact .refl fd g
  · exact afterClose_elsewhere g fd cause

/-- And after it has yielded. -/
theorem logoutRet_elsewhere (g : Gate) (fd : Fd) (cause : Cause) : Elsewhere fd g (g.logoutRet fd cause) :=
  (finishClose_elsewhere g fd).trans (afterClose_elsewhere _ fd cause)

end Gate

end AntServer.Game
