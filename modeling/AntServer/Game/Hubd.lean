/-
# AntServer.Game.Hubd — the hub of a game node

`service/game/hubd.lua`. `User_Map` maps a uid to a record, `FD_Map` a socket id to a connection that
has not shaken hands yet. An operation gives the hub after it and the messages it sends.

`CMD.handshake` yields three times: at the `get` of an agent (first login only), at the `start` of
the agent and at the `register` of the connection. The four pieces are `handshake`, `getRet`,
`startRet` and `registerRet`; between them any other message may be handled. A record is shared by the
table and the coroutines that hold it, so the records are a table of their own (`users`), by subid.
-/
import AntServer.Game.Messages
import AntServer.Lib.Table

namespace AntServer.Game

open Lib (Table)

/-- The token of an `access`, with the subid stored into it. -/
structure Token where
  uid : String
  secret : String
  serverId : String
  subid : Nat
  deriving DecidableEq, Repr

/-- A record of `User_Map`. -/
structure User where
  token : Token
  conn : Option HubConn
  agent : Option AgentAddr
  tm : Int
  deriving DecidableEq, Repr

/-- A record without the time its token was last seen. -/
def User.core (user : User) : Token × Option HubConn × Option AgentAddr :=
  (user.token, user.conn, user.agent)

/-- `subid`, the records, `User_Map` and `FD_Map`; `notices` are the uids whose logout the login node
has been told. -/
structure Hub where
  subid : Nat
  users : Table Nat User
  userMap : Table String Nat
  fdMap : Table Fd HubConn
  notices : List String

/-- `SYSTEM_ERROR.success`. -/
def success : Nat := 0

/-- `tcount`, the time a token waits for its handshake. -/
def tcount : Int := 15

namespace Hub

/-- The record of a uid. -/
def user (h : Hub) (uid : String) : Option User := (h.userMap.get uid).bind h.users.get

/-- `CMD.access`, at the time `tm`. -/
def access (h : Hub) (uid secret serverId : String) (tm : Int) : Hub :=
  let subid := h.subid + 1
  { h with
    subid := subid
    users := h.users.set subid
      { token := { uid := uid, secret := secret, serverId := serverId, subid := subid }
        conn := none, agent := none, tm := tm }
    userMap := h.userMap.set uid subid }

/-- `CMD.connect`. -/
def connect (h : Hub) (conn : Conn) : Hub :=
  { h with fdMap := h.fdMap.set conn.fd { fd := conn.fd, ip := conn.ip } }

/-- `CMD.logout`. -/
def logout (h : Hub) (conn : Conn) : Hub × List Msg :=
  match conn.user with
  | some user =>
    ({ h with notices := user.uid :: h.notices, userMap := h.userMap.del user.uid },
      [.agentLogout user.agent])
  | none => ({ h with fdMap := h.fdMap.del conn.fd }, [])

/-- The loop body of `handshake_timeout` for one uid, at the time `now`. -/
def timeoutUser (now : Int) (h : Hub) (uid : String) : Hub :=
  match h.userMap.get uid with
  | none => h
  | some subid =>
    match h.users.get subid with
    | none => h
    | some user =>
      match user.conn with
      | some _ => { h with users := h.users.set subid { user with tm := now } }
      | none =>
        if now - user.tm ≥ tcount then
          { h with notices := uid :: h.notices, userMap := h.userMap.del uid }
        else h

/-- One round of `handshake_timeout`. -/
def handshakeTimeout (h : Hub) (now : Int) : Hub := h.userMap.keys.foldl (timeoutUser now) h

/-- `CMD.kick`. A record without a connection makes it raise. -/
def kick (h : Hub) (uid : String) (origin : Option Fd) : List Msg :=
  match h.user uid with
  | some user =>
    match user.conn with
    | some conn => [.gateKick conn.fd false origin]
    | none => []
  | none => []

/-- The `start` call of `CMD.handshake`, which raises without an agent. -/
def callStart (user : User) (co : HandshakeCo) (isReconnect : Bool) : List Msg :=
  match user.agent, user.conn with
  | some agent, some conn =>
    [.agentStart agent
      { fd := conn.fd
        openid := co.args.uid
        secret := user.token.secret
        serverId := user.token.serverId
        isReconnect := isReconnect } co]
  | _, _ => []

/-- What a handshake request is to `hubd`. -/
inductive Verdict where
  | noConn
  | noToken
  | badToken
  | reconnect (subid : Nat) (user : User) (conn : HubConn)
  | firstLogin (subid : Nat) (user : User) (conn : HubConn)

/-- The checks of `CMD.handshake`. -/
def verdict (h : Hub) (fd : Fd) (args : HandshakeArgs) : Verdict :=
  match h.fdMap.get fd with
  | none => .noConn
  | some conn =>
    match h.userMap.get args.uid with
    | none => .noToken
    | some subid =>
      match h.users.get subid with
      | none => .noToken
      | some user =>
        if user.token.secret ≠ args.secret ∨ toString user.token.subid ≠ args.subid then .badToken
        else
          match user.conn with
          | some old => .reconnect subid user old
          | none => .firstLogin subid user conn

/-- `CMD.handshake` up to its first yield. -/
def handshake (h : Hub) (fd : Fd) (args : HandshakeArgs) : Hub × List Msg :=
  match h.verdict fd args with
  | .noConn => (h, [.slaveHandshakeRet fd args { errcode := 1, pack := none }])
  | .noToken => (h, [.slaveHandshakeRet fd args { errcode := 2, pack := none }])
  | .badToken => (h, [.slaveHandshakeRet fd args { errcode := 3, pack := some none }])
  | .reconnect subid user old =>
    (h, .gateKick old.fd true none :: callStart user { fd := fd, args := args, user := subid } true)
  | .firstLogin subid user conn =>
    ({ h with users := h.users.set subid { user with conn := some conn } },
      [.mgrGet conn.fd.gate { fd := fd, args := args, user := subid }])

/-- `CMD.handshake` from the answer of `get`. -/
def getRet (h : Hub) (co : HandshakeCo) (agent : AgentAddr) : Hub × List Msg :=
  match h.users.get co.user with
  | some user =>
    let user := { user with agent := some agent }
    ({ h with users := h.users.set co.user user }, callStart user co false)
  | none => (h, [])

/-- `CMD.handshake` from the answer of `start`. -/
def startRet (h : Hub) (co : HandshakeCo) (role : Nat) : List Msg :=
  match h.users.get co.user with
  | some user =>
    match user.conn, user.agent with
    | some conn, some agent => [.gateRegister conn.fd.gate user.token.uid agent co role]
    | _, _ => []
  | none => []

/-- `CMD.handshake` from the answer of `register`, which it asserts. -/
def registerRet (h : Hub) (co : HandshakeCo) (role : Nat) (res : Bool) : Hub × List Msg :=
  if res then
    ({ h with fdMap := h.fdMap.del co.fd },
      [.slaveHandshakeRet co.fd co.args { errcode := success, pack := some (some role) }])
  else (h, [])

/-! ## What they send -/

/-- `CMD.kick` is passed on to the gate of the connection of the record. -/
theorem kick_sends {h : Hub} {uid : String} {origin : Option Fd} {m : Msg} (hm : m ∈ h.kick uid origin) :
    ∃ user conn, h.user uid = some user ∧ user.conn = some conn ∧ m = .gateKick conn.fd false origin := by
  unfold kick at hm
  split at hm
  · rename_i user huser
    split at hm
    · rename_i conn hconn
      exact ⟨user, conn, huser, hconn, List.mem_singleton.mp hm⟩
    · cases hm
  · cases hm

/-- The `start` goes to the agent of the record, with the connection of the record: on a reconnect that
is still the old one. -/
theorem callStart_sends {user : User} {co : HandshakeCo} {isReconnect : Bool} {m : Msg}
    (hm : m ∈ callStart user co isReconnect) :
    ∃ agent conn, user.agent = some agent ∧ user.conn = some conn ∧
      m = .agentStart agent
        { fd := conn.fd
          openid := co.args.uid
          secret := user.token.secret
          serverId := user.token.serverId
          isReconnect := isReconnect } co := by
  unfold callStart at hm
  split at hm
  · rename_i agent conn hagent hconn
    exact ⟨agent, conn, hagent, hconn, List.mem_singleton.mp hm⟩
  · cases hm

/-- So does the `register`. -/
theorem startRet_sends {h : Hub} {co : HandshakeCo} {role : Nat} {m : Msg} (hm : m ∈ h.startRet co role) :
    ∃ user conn agent, h.users.get co.user = some user ∧ user.conn = some conn ∧
      user.agent = some agent ∧ m = .gateRegister conn.fd.gate user.token.uid agent co role := by
  unfold startRet at hm
  split at hm
  · rename_i user huser
    split at hm
    · rename_i conn agent hconn hagent
      exact ⟨user, conn, agent, huser, hconn, hagent, List.mem_singleton.mp hm⟩
    · cases hm
  · cases hm

/-- The handshake is answered when the gate has registered the connection. -/
theorem registerRet_sends {h : Hub} {co : HandshakeCo} {role : Nat} {res : Bool} {m : Msg}
    (hm : m ∈ (h.registerRet co role res).2) :
    m = .slaveHandshakeRet co.fd co.args { errcode := success, pack := some (some role) } := by
  cases res with
  | true => exact List.mem_singleton.mp hm
  | false => cases hm

/-- A logout of a connection that has a user is passed on to the agent. -/
theorem logout_sends {h : Hub} {conn : Conn} {m : Msg} (hm : m ∈ (h.logout conn).2) :
    ∃ user, conn.user = some user ∧ m = .agentLogout user.agent := by
  unfold logout at hm
  split at hm
  · rename_i user huser
    exact ⟨user, huser, List.mem_singleton.mp hm⟩
  · cases hm

/-- The agent that was got is started. -/
theorem getRet_sends {h : Hub} {co : HandshakeCo} {agent : AgentAddr} {m : Msg}
    (hm : m ∈ (h.getRet co agent).2) :
    ∃ a session, m = .agentStart a session co := by
  unfold getRet at hm
  split at hm
  · obtain ⟨a, conn, -, -, rfl⟩ := callStart_sends hm
    exact ⟨a, _, rfl⟩
  · cases hm

/-- What a handshake request may send at once: an answer, a kick, a `start` or a `get`. -/
theorem handshake_sends {h : Hub} {fd : Fd} {args : HandshakeArgs} {m : Msg}
    (hm : m ∈ (h.handshake fd args).2) :
    (∃ res, m = .slaveHandshakeRet fd args res) ∨ (∃ old, m = .gateKick old true none) ∨
      (∃ a session co, m = .agentStart a session co) ∨ ∃ p co, m = .mgrGet p co := by
  unfold handshake at hm
  split at hm
  · exact .inl ⟨_, List.mem_singleton.mp hm⟩
  · exact .inl ⟨_, List.mem_singleton.mp hm⟩
  · exact .inl ⟨_, List.mem_singleton.mp hm⟩
  · rcases List.mem_cons.mp hm with rfl | hm
    · exact .inr (.inl ⟨_, rfl⟩)
    · obtain ⟨a, conn, -, -, rfl⟩ := callStart_sends hm
      exact .inr (.inr (.inl ⟨a, _, _, rfl⟩))
  · exact .inr (.inr (.inr ⟨_, _, List.mem_singleton.mp hm⟩))

/-! ## What a verdict says of the tables -/

/-- The record of a uid, by the two tables. -/
theorem user_eq {h : Hub} {uid : String} {user : User} : h.user uid = some user ↔
    ∃ r, h.userMap.get uid = some r ∧ h.users.get r = some user := Option.bind_eq_some_iff

/-- A first login: the token fits, and its record has no connection. -/
theorem verdict_firstLogin {h : Hub} {fd : Fd} {args : HandshakeArgs} {subid : Nat} {user : User}
    {conn : HubConn} (hv : h.verdict fd args = .firstLogin subid user conn) :
    h.fdMap.get fd = some conn ∧ h.userMap.get args.uid = some subid ∧
      h.users.get subid = some user ∧ user.conn = none := by
  unfold verdict at hv
  split at hv
  · cases hv
  · rename_i hfd
    split at hv
    · cases hv
    · rename_i huid
      split at hv
      · cases hv
      · rename_i huser
        split at hv
        · cases hv
        · split at hv
          · cases hv
          · rename_i hconn
            cases hv
            exact ⟨hfd, huid, huser, hconn⟩

/-- A reconnect: the record has a connection already. -/
theorem verdict_reconnect {h : Hub} {fd : Fd} {args : HandshakeArgs} {subid : Nat} {user : User}
    {old : HubConn} (hv : h.verdict fd args = .reconnect subid user old) :
    h.userMap.get args.uid = some subid ∧ h.users.get subid = some user ∧ user.conn = some old := by
  unfold verdict at hv
  split at hv
  · cases hv
  · split at hv
    · cases hv
    · rename_i huid
      split at hv
      · cases hv
      · rename_i huser
        split at hv
        · cases hv
        · split at hv
          · rename_i hconn
            cases hv
            exact ⟨huid, huser, hconn⟩
          · cases hv

/-! ## Operations that only forget -/

/-- Of the records and `User_Map` at most entries of `User_Map` and times of records are lost. -/
structure Forgets (h h' : Hub) : Prop where
  subid : h'.subid = h.subid
  userMap : ∀ uid r, h'.userMap.get uid = some r → h.userMap.get uid = some r
  users : ∀ r, (h'.users.get r).map User.core = (h.users.get r).map User.core

/-- Nothing changes. -/
theorem Forgets.refl (h : Hub) : Forgets h h := ⟨rfl, fun _ _ hr => hr, fun _ => rfl⟩

/-- Two operations of this kind. -/
theorem Forgets.trans {h h' h'' : Hub} (hh : Forgets h h') (hh' : Forgets h' h'') : Forgets h h'' where
  subid := hh'.subid.trans hh.subid
  userMap uid r hr := hh.userMap uid r (hh'.userMap uid r hr)
  users r := (hh'.users r).trans (hh.users r)

/-- A record afterwards is a record before, up to its time. -/
theorem Forgets.record {h h' : Hub} (hh : Forgets h h') {r : Nat} {user' : User}
    (hr : h'.users.get r = some user') : ∃ user, h.users.get r = some user ∧ user.core = user'.core := by
  have hcore := hh.users r
  rw [hr] at hcore
  exact Option.map_eq_some_iff.mp hcore.symm

/-- A record before is a record afterwards, up to its time. -/
theorem Forgets.record' {h h' : Hub} (hh : Forgets h h') {r : Nat} {user : User}
    (hr : h.users.get r = some user) : ∃ user', h'.users.get r = some user' ∧ user'.core = user.core := by
  have hcore := hh.users r
  rw [hr] at hcore
  exact Option.map_eq_some_iff.mp hcore

/-- A connection that is noted in `FD_Map`. -/
theorem connect_forgets (h : Hub) (conn : Conn) : Forgets h (h.connect conn) :=
  ⟨rfl, fun _ _ hr => hr, fun _ => rfl⟩

/-- A logout, of whichever connection. -/
theorem logout_forgets (h : Hub) (conn : Conn) : Forgets h (h.logout conn).1 := by
  unfold logout
  split
  · refine ⟨rfl, fun uid r hr => ?_, fun _ => rfl⟩
    rw [Table.get_del] at hr
    split at hr
    · cases hr
    · exact hr
  · exact ⟨rfl, fun _ _ hr => hr, fun _ => rfl⟩

/-- The end of a handshake. -/
theorem registerRet_forgets (h : Hub) (co : HandshakeCo) (role : Nat) (res : Bool) :
    Forgets h (h.registerRet co role res).1 := by
  cases res <;> exact ⟨rfl, fun _ _ hr => hr, fun _ => rfl⟩

/-- A round of the timeout at `now` touches no socket, and removes an entry only when its record has
no connection and its time is up. -/
structure TimesOut (now : Int) (h h' : Hub) : Prop extends Forgets h h' where
  fdMap : h'.fdMap = h.fdMap
  idle : ∀ r user, h.users.get r = some user → user.conn = none → h'.users.get r = some user
  kept : ∀ uid r user, h.userMap.get uid = some r → h.users.get r = some user →
    (user.conn ≠ none ∨ now - user.tm < tcount) → h'.userMap.get uid = some r

/-- Nothing changes. -/
theorem TimesOut.refl (now : Int) (h : Hub) : TimesOut now h h :=
  ⟨.refl h, rfl, fun _ _ hr _ => hr, fun _ _ _ hr _ _ => hr⟩

/-- One uid of a round. -/
theorem timeoutUser_timesOut (now : Int) (h : Hub) (uid : String) :
    TimesOut now h (timeoutUser now h uid) := by
  unfold timeoutUser
  split
  · exact .refl now h
  · rename_i r hmap
    split
    · exact .refl now h
    · rename_i user huser
      split
      · rename_i conn hconn
        refine ⟨⟨rfl, fun _ _ hr => hr, fun q => ?_⟩, rfl, fun q user' hq hc => ?_, fun _ _ _ hr _ _ => hr⟩
        · by_cases hq : q = r
          · subst hq
            rw [Table.get_set_self, huser]
            rfl
          · rw [Table.get_set_ne _ _ hq]
        · have hqr : q ≠ r := by
            rintro rfl
            rw [huser] at hq
            cases hq
            rw [hconn] at hc
            cases hc
          exact (Table.get_set_ne _ _ hqr).trans hq
      · rename_i hconn
        split
        · rename_i htime
          refine ⟨⟨rfl, fun uid' q hq => ?_, fun _ => rfl⟩, rfl, fun _ _ hr _ => hr,
            fun uid' q user' hq huser' hlive => ?_⟩
          · rw [Table.get_del] at hq
            split at hq
            · cases hq
            · exact hq
          · have hne : uid' ≠ uid := by
              rintro rfl
              rw [hmap] at hq
              cases hq
              rw [huser] at huser'
              cases huser'
              exact hlive.elim (fun hc => hc hconn) (fun ht => absurd htime (by omega))
            exact (Table.get_del_ne _ hne).trans hq
        · exact .refl now h

/-- Two parts of a round. A record with a connection may get a new time from the first. -/
theorem TimesOut.trans {now : Int} {h h' h'' : Hub} (hh : TimesOut now h h') (hh' : TimesOut now h' h'') :
    TimesOut now h h'' where
  toForgets := hh.toForgets.trans hh'.toForgets
  fdMap := hh'.fdMap.trans hh.fdMap
  idle r user hr hc := hh'.idle r user (hh.idle r user hr hc) hc
  kept uid r user hr huser hlive := by
    have hr' := hh.kept uid r user hr huser hlive
    cases hc : user.conn with
    | none =>
      have htime := hlive.resolve_left (fun hne => hne hc)
      exact hh'.kept uid r user hr' (hh.idle r user huser hc) (.inr htime)
    | some conn =>
      obtain ⟨user', huser', hcore⟩ := hh.toForgets.record' huser
      have hconn' : user'.conn = some conn := (congrArg (fun core => core.2.1) hcore).trans hc
      exact hh'.kept uid r user' hr' huser' (.inl (by rw [hconn']; simp))

/-- A whole round, by induction on the uids that are left. -/
theorem handshakeTimeout_timesOut (h : Hub) (now : Int) : TimesOut now h (h.handshakeTimeout now) := by
  unfold handshakeTimeout
  generalize h.userMap.keys = uids
  induction uids generalizing h with
  | nil => exact .refl now h
  | cons uid uids ih => exact (timeoutUser_timesOut now h uid).trans (ih (timeoutUser now h uid))

/-! ## The tables are well formed -/

/-- A uid has a record with a token of the uid, no record is newer than `subid`, and a socket id has
the connection of the socket. -/
structure Ok (h : Hub) : Prop where
  owner : ∀ uid r, h.userMap.get uid = some r → ∃ user, h.users.get r = some user ∧ user.token.uid = uid
  below : ∀ r user, h.users.get r = some user → r ≤ h.subid
  socket : ∀ fd conn, h.fdMap.get fd = some conn → conn.fd = fd

/-- The token of the record of a uid is a token of the uid. -/
theorem Ok.token {h : Hub} (hok : h.Ok) {uid : String} {r : Nat} {user : User}
    (hr : h.userMap.get uid = some r) (huser : h.users.get r = some user) : user.token.uid = uid := by
  obtain ⟨user', huser', huid⟩ := hok.owner uid r hr
  rw [huser] at huser'
  cases huser'
  exact huid

/-- The three parts of what a record is without its time. -/
theorem core_eq {user user' : User} (h : user.core = user'.core) :
    user.token = user'.token ∧ user.conn = user'.conn ∧ user.agent = user'.agent := by
  simpa only [User.core, Prod.mk.injEq] using h

/-- An operation that only forgets keeps them well formed, if it keeps `FD_Map` so. -/
theorem Ok.forgets {h h' : Hub} (hok : h.Ok) (hh : Forgets h h')
    (hfd : ∀ fd conn, h'.fdMap.get fd = some conn → conn.fd = fd) : h'.Ok where
  owner uid r hr := by
    obtain ⟨user, huser, huid⟩ := hok.owner uid r (hh.userMap uid r hr)
    obtain ⟨user', huser', hcore⟩ := hh.record' huser
    exact ⟨user', huser', by rw [(core_eq hcore).1, huid]⟩
  below r user' huser' := by
    obtain ⟨user, huser, -⟩ := hh.record huser'
    exact hh.subid ▸ hok.below r user huser
  socket := hfd

/-- A socket id is removed. -/
theorem socket_del {t : Table Fd HubConn} (h : ∀ fd conn, t.get fd = some conn → conn.fd = fd) (fd₀ : Fd) :
    ∀ fd conn, (t.del fd₀).get fd = some conn → conn.fd = fd := by
  intro fd conn hc
  rw [Table.get_del] at hc
  split at hc
  · cases hc
  · exact h fd conn hc

/-- A record changes, its token apart. -/
theorem Ok.setUser {h : Hub} (hok : h.Ok) {r : Nat} {user user' : User} (huser : h.users.get r = some user)
    (htoken : user'.token = user.token) : Ok { h with users := h.users.set r user' } where
  owner uid q hq := by
    obtain ⟨user₁, huser₁, huid⟩ := hok.owner uid q hq
    by_cases hqr : q = r
    · subst hqr
      rw [huser] at huser₁
      cases huser₁
      exact ⟨user', Table.get_set_self _ _ _, by rw [htoken, huid]⟩
    · exact ⟨user₁, (Table.get_set_ne _ _ hqr).trans huser₁, huid⟩
  below q user₁ huser₁ := by
    by_cases hqr : q = r
    · subst hqr
      exact hok.below q user huser
    · exact hok.below q user₁ ((Table.get_set_ne _ _ hqr).symm.trans huser₁)
  socket := hok.socket

/-- `CMD.connect`. -/
theorem connect_ok {h : Hub} (hok : h.Ok) (conn : Conn) : (h.connect conn).Ok :=
  hok.forgets (connect_forgets h conn) fun fd c hc => by
    have hc : (h.fdMap.set conn.fd _).get fd = some c := hc
    rw [Table.get_set] at hc
    split at hc
    · rename_i hfd
      cases hc
      exact hfd.symm
    · exact hok.socket fd c hc

/-- `CMD.logout`. -/
theorem logout_ok {h : Hub} (hok : h.Ok) (conn : Conn) : (h.logout conn).1.Ok :=
  hok.forgets (logout_forgets h conn) (by
    unfold logout
    split
    · exact hok.socket
    · exact socket_del hok.socket conn.fd)

/-- `CMD.handshake` from the answer of `register`. -/
theorem registerRet_ok {h : Hub} (hok : h.Ok) (co : HandshakeCo) (role : Nat) (res : Bool) :
    (h.registerRet co role res).1.Ok :=
  hok.forgets (registerRet_forgets h co role res) (by
    cases res
    · exact hok.socket
    · exact socket_del hok.socket co.fd)

/-- A round of the timeout. -/
theorem handshakeTimeout_ok {h : Hub} (hok : h.Ok) (now : Int) : (h.handshakeTimeout now).Ok :=
  hok.forgets (handshakeTimeout_timesOut h now).toForgets
    (by rw [(handshakeTimeout_timesOut h now).fdMap]; exact hok.socket)

/-- `CMD.handshake` up to its first yield: a first login puts the connection into the record. -/
theorem handshake_ok {h : Hub} (hok : h.Ok) (fd : Fd) (args : HandshakeArgs) : (h.handshake fd args).1.Ok := by
  unfold handshake
  split
  · exact hok
  · exact hok
  · exact hok
  · exact hok
  · rename_i hv
    exact hok.setUser (verdict_firstLogin hv).2.2.1 rfl

/-- `CMD.handshake` from the answer of `get`: the agent is put into the record. -/
theorem getRet_ok {h : Hub} (hok : h.Ok) (co : HandshakeCo) (agent : AgentAddr) :
    (h.getRet co agent).1.Ok := by
  unfold getRet
  split
  · rename_i huser
    exact hok.setUser huser rfl
  · exact hok

/-- The record of an access is a new one. -/
theorem Ok.access_get {h : Hub} (hok : h.Ok) (uid secret serverId : String) (tm : Int) {r : Nat}
    {user : User} (huser : h.users.get r = some user) :
    (h.access uid secret serverId tm).users.get r = some user := by
  refine (Table.get_set_ne _ _ ?_).trans huser
  intro he
  exact absurd (hok.below r user huser) (by omega)

/-- A record after an access is the new one, or one from before. -/
theorem access_users {h : Hub} {uid secret serverId : String} {tm : Int} {r : Nat} {user : User}
    (huser : (h.access uid secret serverId tm).users.get r = some user) :
    r = h.subid + 1 ∧ user.token.uid = uid ∧ user.conn = none ∧ user.agent = none ∨
      r ≠ h.subid + 1 ∧ h.users.get r = some user := by
  have huser : (h.users.set (h.subid + 1) _).get r = some user := huser
  by_cases hr : r = h.subid + 1
  · subst hr
    obtain rfl := Option.some.inj ((Table.get_set_self _ _ _).symm.trans huser)
    exact .inl ⟨rfl, rfl, rfl, rfl⟩
  · exact .inr ⟨hr, (Table.get_set_ne _ _ hr).symm.trans huser⟩

/-- `User_Map` after an access. -/
theorem access_userMap {h : Hub} {uid secret serverId : String} {tm : Int} (u : String) :
    (h.access uid secret serverId tm).userMap.get u =
      if u = uid then some (h.subid + 1) else h.userMap.get u := Table.get_set _ _ _ _

/-- `CMD.access`: the new record has a subid of its own. -/
theorem access_ok {h : Hub} (hok : h.Ok) (uid secret serverId : String) (tm : Int) :
    (h.access uid secret serverId tm).Ok where
  owner u r hr := by
    rw [access_userMap] at hr
    split at hr
    · rename_i hu
      obtain rfl := Option.some.inj hr
      exact ⟨_, Table.get_set_self _ _ _, hu.symm⟩
    · obtain ⟨user, huser, huid⟩ := hok.owner u r hr
      exact ⟨user, hok.access_get uid secret serverId tm huser, huid⟩
  below r user huser := by
    rcases access_users huser with ⟨rfl, -⟩ | ⟨-, hold⟩
    · exact Nat.le_refl _
    · exact (hok.below r user hold).trans (Nat.le_succ _)
  socket := hok.socket

end Hub

end AntServer.Game
