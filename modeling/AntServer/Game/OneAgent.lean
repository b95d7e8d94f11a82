/-
# AntServer.Game.OneAgent — at most one agent of an account

An agent has started for an account from the moment it handles `start` until it has handled `logout`.
At most one agent at a time is to have started for an account. The invariant speaks of the agents that
have started or have a `start` on its way (`Started`) and of the handshakes that wait for an agent:
for an account there is one of the former or one of the latter, and a record of `User_Map` with an
agent has that one.

What the code lacks is a look at the agent of a replaced record: `access` stores a new record while
the agent of the old one still serves the account, and the next handshake is a first login with
another agent. The runs without such a first login are `FreshLogin`.
-/
import AntServer.Game.Reaction

namespace AntServer.Game

open Lib (Table)
open Lib.Mailbox (view)

namespace Sys

/-! ## Who serves an account -/

/-- The agent has started for the account, or is being started. -/
def Started (s : Sys) (a : AgentAddr) (uid : String) : Prop :=
  (a, uid) ∈ s.live ∨ (a, uid) ∈ view Msg.starting s.net

/-- At most one agent has started for an account. -/
def OneAgent (s : Sys) : Prop :=
  ∀ uid a b, (a, uid) ∈ s.live → (b, uid) ∈ s.live → a = b

/-- A first login begins only for an account for which no agent has started or is being started and
no other handshake waits for one. -/
def FreshLogin (s : Sys) (a : Action) : Prop :=
  ∀ co ∈ s.logsIn a,
    (∀ x ∈ s.live ++ view Msg.starting s.net, x.2 ≠ co.args.uid) ∧
      ∀ co' ∈ view Msg.getting s.net, co'.args.uid ≠ co.args.uid

instance (s : Sys) (a : Action) : Decidable (FreshLogin s a) := by
  unfold FreshLogin
  infer_instance

/-! ## The invariant -/

/-- What `User_Map` and the records say of a handshake that waits for an agent. -/
structure Waits (h : Hub) (co : HandshakeCo) : Prop where
  own : ∃ user conn, h.users.get co.user = some user ∧ user.token.uid = co.args.uid ∧
    user.conn = some conn
  none : ∀ r user, h.userMap.get co.args.uid = some r → h.users.get r = some user → user.agent = none

structure Serves (s : Sys) : Prop where
  one : ∀ uid a b, Started s a uid → Started s b uid → a = b
  alone : ∀ co ∈ view Msg.getting s.net, ∀ a, ¬ Started s a co.args.uid
  single : ((view Msg.getting s.net).map (·.args.uid)).Nodup
  waits : ∀ co ∈ view Msg.getting s.net, Waits s.hub co
  record : ∀ uid r user a b, s.hub.userMap.get uid = some r → s.hub.users.get r = some user →
    user.agent = some b → Started s a uid → a = b
  withConn : ∀ r user, s.hub.users.get r = some user → user.conn = none → user.agent = none
  owner : ∀ uid r, s.hub.userMap.get uid = some r →
    ∃ user, s.hub.users.get r = some user ∧ user.token.uid = uid
  below : ∀ r user, s.hub.users.get r = some user → r ≤ s.hub.subid

/-- No account is served by two agents. -/
theorem Serves.oneAgent {s : Sys} (h : Serves s) : OneAgent s :=
  fun uid a b ha hb => h.one uid a b (.inl ha) (.inl hb)

/-- At the start nobody is served. -/
theorem init_serves (warm : Warm) (maxclient : Protocol → Nat) : Serves (Sys.init warm maxclient) where
  one uid a b ha := ha.elim (fun h => absurd h List.not_mem_nil) (fun h => absurd h List.not_mem_nil)
  alone co hco := absurd hco List.not_mem_nil
  single := List.nodup_nil
  waits co hco := absurd hco List.not_mem_nil
  record uid r user a b hr := by
    rw [show (Sys.init warm maxclient).hub.userMap.get uid = none from Table.get_empty uid] at hr
    cases hr
  withConn r user hr := by
    rw [show (Sys.init warm maxclient).hub.users.get r = none from Table.get_empty r] at hr
    cases hr
  owner uid r hr := by
    rw [show (Sys.init warm maxclient).hub.userMap.get uid = none from Table.get_empty uid] at hr
    cases hr
  below r user hr := by
    rw [show (Sys.init warm maxclient).hub.users.get r = none from Table.get_empty r] at hr
    cases hr

/-! ## What other steps keep -/

/-- A hub that only forgets keeps what it says of a waiting handshake. -/
theorem Waits.forgets {h h' : Hub} {co : HandshakeCo} (hw : Waits h co) (hh : Hub.Forgets h h') :
    Waits h' co where
  own := by
    obtain ⟨user, conn, huser, huid, hconn⟩ := hw.own
    obtain ⟨user', huser', hcore⟩ := hh.record' huser
    obtain ⟨htoken, hconn', -⟩ := Hub.core_eq hcore
    exact ⟨user', conn, huser', by rw [htoken, huid], hconn'.trans hconn⟩
  none r user' hr huser' := by
    obtain ⟨user, huser, hcore⟩ := hh.record huser'
    exact (Hub.core_eq hcore).2.2.symm.trans (hw.none r user (hh.userMap _ r hr) huser)

/-- The invariant survives when agents stop, handshakes end and the hub forgets. -/
theorem Serves.mono {s s' : Sys} (h : Serves s) (hh : Hub.Forgets s.hub s'.hub)
    (hstart : ∀ a uid, Started s' a uid → Started s a uid)
    (hget : (view Msg.getting s'.net).Subperm (view Msg.getting s.net)) : Serves s' where
  one uid a b ha hb := h.one uid a b (hstart a uid ha) (hstart b uid hb)
  alone co hco a ha := h.alone co (hget.subset hco) a (hstart a _ ha)
  single := by
    obtain ⟨l, hperm, hsub⟩ := hget
    exact (hperm.map _).nodup_iff.mp (h.single.sublist (hsub.map _))
  waits co hco := (h.waits co (hget.subset hco)).forgets hh
  record uid r user' a b hr huser' hb ha := by
    obtain ⟨user, huser, hcore⟩ := hh.record huser'
    exact h.record uid r user a b (hh.userMap uid r hr) huser ((Hub.core_eq hcore).2.2.trans hb)
      (hstart a uid ha)
  withConn r user' huser' hconn := by
    obtain ⟨user, huser, hcore⟩ := hh.record huser'
    exact (Hub.core_eq hcore).2.2.symm.trans (h.withConn r user huser ((Hub.core_eq hcore).2.1.trans hconn))
  owner uid r hr := by
    obtain ⟨user, huser, huid⟩ := h.owner uid r (hh.userMap uid r hr)
    obtain ⟨user', huser', hcore⟩ := hh.record' huser
    exact ⟨user', huser', by rw [(Hub.core_eq hcore).1, huid]⟩
  below r user' huser' := by
    obtain ⟨user, huser, -⟩ := hh.record huser'
    exact hh.subid ▸ h.below r user huser

/-- A message is handled that starts no agent, and what is sent starts none; of a handshake that waits
for an agent at most the same is passed on. -/
theorem Serves.pass {s s' : Sys} {m : Msg} {rest outs : List Msg} (h : Serves { s with net := m :: rest })
    (hh : Hub.Forgets s.hub s'.hub) (hlive : s'.live ⊆ s.live) (hnet : s'.net = rest ++ outs)
    (hstart : ∀ x ∈ outs, x.starting = none)
    (hget : (view Msg.getting outs).Subperm m.getting.toList) : Serves s' := by
  refine h.mono hh (fun a uid ha => ?_) ?_
  · rcases ha with ha | ha
    · exact .inl (hlive ha)
    · rw [hnet, Lib.Mailbox.view_append, Lib.Mailbox.view_eq_nil hstart, List.append_nil] at ha
      refine .inr ?_
      show (a, uid) ∈ view Msg.starting (m :: rest)
      rw [Lib.Mailbox.view_cons]
      exact List.mem_append_right _ ha
  · show (view Msg.getting s'.net).Subperm (view Msg.getting (m :: rest))
    rw [hnet, Lib.Mailbox.view_append, Lib.Mailbox.view_cons]
    exact List.perm_append_comm.subperm.trans ((List.subperm_append_right _).mpr hget)

/-- The same when nothing that is sent belongs to a handshake that waits for an agent. -/
theorem Serves.quiet {s s' : Sys} {m : Msg} {rest outs : List Msg}
    (h : Serves { s with net := m :: rest }) (hh : Hub.Forgets s.hub s'.hub) (hlive : s'.live ⊆ s.live)
    (hnet : s'.net = rest ++ outs) (hout : ∀ x ∈ outs, x.starting = none ∧ x.getting = none) :
    Serves s' :=
  h.pass hh hlive hnet (fun x hx => (hout x hx).1)
    (by rw [Lib.Mailbox.view_eq_nil fun x hx => (hout x hx).2]; exact List.nil_subperm)

/-- Something is sent from outside. -/
theorem Serves.send {s s' : Sys} {outs : List Msg} (h : Serves s) (hh : Hub.Forgets s.hub s'.hub)
    (hlive : s'.live = s.live) (hnet : s'.net = s.net ++ outs)
    (hout : ∀ x ∈ outs, x.starting = none ∧ x.getting = none) : Serves s' := by
  refine h.mono hh (fun a uid ha => ?_) ?_
  · rw [Started, hlive, hnet, Lib.Mailbox.view_append,
      Lib.Mailbox.view_eq_nil fun x hx => (hout x hx).1, List.append_nil] at ha
    exact ha
  · rw [hnet, Lib.Mailbox.view_append, Lib.Mailbox.view_eq_nil fun x hx => (hout x hx).2,
      List.append_nil]

/-! ## The steps of a handshake -/

/-- An agent is started for an account of which it is the only one. -/
theorem Serves.start {s s' : Sys} (h : Serves s) (agent : AgentAddr) (uid : String)
    (hh : s'.hub = s.hub) (hstart : ∀ a u, Started s' a u → Started s a u ∨ a = agent ∧ u = uid)
    (hget : (view Msg.getting s'.net).Subperm (view Msg.getting s.net))
    (hone : ∀ a, Started s a uid → a = agent) (halone : ∀ co ∈ view Msg.getting s'.net, co.args.uid ≠ uid)
    (hrecord : ∀ r user b, s.hub.userMap.get uid = some r → s.hub.users.get r = some user →
      user.agent = some b → b = agent) : Serves s' where
  one u a b ha hb := by
    rcases hstart a u ha with ha | ⟨rfl, rfl⟩
    · rcases hstart b u hb with hb | ⟨rfl, rfl⟩
      · exact h.one u a b ha hb
      · exact hone a ha
    · rcases hstart b u hb with hb | ⟨rfl, -⟩
      · exact (hone b hb).symm
      · rfl
  alone co hco a ha := by
    rcases hstart a _ ha with ha | ⟨-, huid⟩
    · exact h.alone co (hget.subset hco) a ha
    · exact halone co hco huid
  single := by
    obtain ⟨l, hperm, hsub⟩ := hget
    exact (hperm.map _).nodup_iff.mp (h.single.sublist (hsub.map _))
  waits co hco := hh ▸ h.waits co (hget.subset hco)
  record u r user a b hr huser hb ha := by
    rw [hh] at hr huser
    rcases hstart a u ha with ha | ⟨rfl, rfl⟩
    · exact h.record u r user a b hr huser hb ha
    · exact (hrecord r user b hr huser hb).symm
  withConn r user := hh ▸ h.withConn r user
  owner u r := hh ▸ h.owner u r
  below r user := hh ▸ h.below r user

/-- An agent that is served afterwards was before, or its `start` is one of the new messages. -/
theorem started_append {s : Sys} {net outs : List Msg} {a : AgentAddr} {uid : String}
    (h : Started { s with net := net ++ outs } a uid) :
    Started { s with net := net } a uid ∨ (a, uid) ∈ view Msg.starting outs := by
  rcases h with h | h
  · exact .inl (.inl h)
  · rw [show ({ s with net := net ++ outs } : Sys).net = net ++ outs from rfl,
      Lib.Mailbox.view_append] at h
    exact (List.mem_append.mp h).imp .inr id

/-- The start of an agent is the start of the one agent in the message. -/
theorem callStart_starting {user : User} {co : HandshakeCo} {isReconnect : Bool} {a : AgentAddr}
    {uid : String} (h : (a, uid) ∈ view Msg.starting (Hub.callStart user co isReconnect)) :
    user.agent = some a ∧ uid = co.args.uid := by
  obtain ⟨m, hm, hstart⟩ := Lib.Mailbox.mem_view.mp h
  obtain ⟨agent, conn, hagent, -, rfl⟩ := Hub.callStart_sends hm
  cases hstart
  exact ⟨hagent, rfl⟩

/-- A `start` waits for no agent. -/
theorem callStart_getting (user : User) (co : HandshakeCo) (isReconnect : Bool) :
    view Msg.getting (Hub.callStart user co isReconnect) = [] :=
  Lib.Mailbox.view_eq_nil fun m hm => by
    obtain ⟨agent, conn, -, -, rfl⟩ := Hub.callStart_sends hm
    rfl

/-- A reconnect starts the agent of the record. -/
theorem serves_reconnect {s : Sys} {fd : Fd} {args : HandshakeArgs} {rest : List Msg}
    (answer : Option Nat) (h : Serves { s with net := .hubHandshake fd args :: rest }) {subid : Nat}
    {user : User} {old : HubConn} (hv : s.hub.verdict fd args = .reconnect subid user old) :
    Serves ({ s with net := rest }.react answer (.hubHandshake fd args)) := by
  have hs : ({ s with net := rest } : Sys).react answer (.hubHandshake fd args) =
      { s with net := rest ++ (.gateKick old.fd true none ::
        Hub.callStart user { fd := fd, args := args, user := subid } true) } := by
    show ({ s with net := rest }.setHub (s.hub.handshake fd args).1).send (s.hub.handshake fd args).2 = _
    rw [Hub.handshake, hv]
    rfl
  rw [hs]
  obtain ⟨huid, huser, hconn⟩ := Hub.verdict_reconnect hv
  have h₀ : Serves { s with net := rest } :=
    h.quiet (.refl _) (List.Subset.refl _) (List.append_nil rest).symm (fun x hx => by cases hx)
  cases hagent : user.agent with
  | none =>
    refine h₀.send (.refl _) rfl rfl fun x hx => ?_
    rcases List.mem_cons.mp hx with rfl | hx
    · exact ⟨rfl, rfl⟩
    · obtain ⟨agent, conn, hagent', -⟩ := Hub.callStart_sends hx
      rw [hagent] at hagent'
      cases hagent'
  | some agent =>
    have hgetting : view Msg.getting (rest ++ (.gateKick old.fd true none ::
        Hub.callStart user { fd := fd, args := args, user := subid } true)) = view Msg.getting rest := by
      rw [Lib.Mailbox.view_append, Lib.Mailbox.view_cons, callStart_getting]
      exact List.append_nil _
    refine h₀.start agent args.uid rfl (fun a u ha => ?_) ?_ (fun a ha => ?_)
      (fun co hco hne => ?_) (fun r user' b hr huser' hb => ?_)
    · rcases started_append ha with ha | ha
      · exact .inl ha
      · rw [Lib.Mailbox.view_cons] at ha
        obtain ⟨ha, hu⟩ := callStart_starting (List.mem_append.mp ha |>.resolve_left List.not_mem_nil)
        rw [hagent] at ha
        exact .inr ⟨(Option.some.inj ha).symm, hu⟩
    · rw [hgetting]
    · exact h₀.record _ _ _ a agent huid huser hagent ha
    · -- a handshake of the account that waits for an agent would have found the record without one
      rw [hgetting] at hco
      have hnone := (h₀.waits co hco).none subid user (hne ▸ huid) huser
      rw [hagent] at hnone
      cases hnone
    · rw [show s.hub.userMap.get args.uid = some subid from huid] at hr
      cases hr
      rw [show s.hub.users.get subid = some user from huser] at huser'
      cases huser'
      rw [hagent] at hb
      exact (Option.some.inj hb).symm

/-- A record changes, its token apart. With an agent it has to have the one that serves its account. -/
theorem Serves.setUser {s : Sys} (h : Serves s) {r : Nat} {user user' : User}
    (huser : s.hub.users.get r = some user) (htoken : user'.token = user.token)
    (hconn : ∃ conn, user'.conn = some conn)
    (hagent : ∀ uid b, s.hub.userMap.get uid = some r → user'.agent = some b →
      (∀ a, Started s a uid → a = b) ∧ ∀ co ∈ view Msg.getting s.net, co.args.uid ≠ uid) :
    Serves { s with hub := { s.hub with users := s.hub.users.set r user' } } := by
  have hne : ∀ q, q ≠ r → (s.hub.users.set r user').get q = s.hub.users.get q :=
    fun q hq => Table.get_set_ne _ _ hq
  have hself : (s.hub.users.set r user').get r = some user' := Table.get_set_self _ _ _
  obtain ⟨conn, hconn⟩ := hconn
  constructor
  case one => exact h.one
  case alone => exact h.alone
  case single => exact h.single
  case waits =>
    intro co hco
    obtain ⟨⟨user₀, conn₀, huser₀, huid₀, hconn₀⟩, hnone⟩ := h.waits co hco
    refine ⟨?_, fun q user₁ hq huser₁ => ?_⟩
    · by_cases hq : co.user = r
      · rw [hq] at huser₀
        rw [huser] at huser₀
        cases huser₀
        exact ⟨user', conn, hq ▸ hself, by rw [htoken, huid₀], hconn⟩
      · exact ⟨user₀, conn₀, (hne _ hq).trans huser₀, huid₀, hconn₀⟩
    · by_cases hqr : q = r
      · subst hqr
        obtain rfl : user' = user₁ := Option.some.inj (hself.symm.trans huser₁)
        cases hb : user'.agent with
        | none => rfl
        | some b => exact absurd rfl ((hagent _ b hq hb).2 co hco)
      · exact hnone q user₁ hq ((hne q hqr).symm.trans huser₁)
  case record =>
    intro uid q user₁ a b hq huser₁ hb ha
    by_cases hqr : q = r
    · subst hqr
      obtain rfl : user' = user₁ := Option.some.inj (hself.symm.trans huser₁)
      exact (hagent uid b hq hb).1 a ha
    · exact h.record uid q user₁ a b hq ((hne q hqr).symm.trans huser₁) hb ha
  case withConn =>
    intro q user₁ huser₁ hc
    by_cases hqr : q = r
    · subst hqr
      obtain rfl : user' = user₁ := Option.some.inj (hself.symm.trans huser₁)
      rw [hconn] at hc
      cases hc
    · exact h.withConn q user₁ ((hne q hqr).symm.trans huser₁) hc
  case owner =>
    intro uid q hq
    obtain ⟨user₁, huser₁, huid⟩ := h.owner uid q hq
    by_cases hqr : q = r
    · subst hqr
      rw [huser] at huser₁
      cases huser₁
      exact ⟨user', hself, by rw [htoken, huid]⟩
    · exact ⟨user₁, (hne q hqr).trans huser₁, huid⟩
  case below =>
    intro q user₁ huser₁
    by_cases hqr : q = r
    · subst hqr
      exact h.below q user huser
    · exact h.below q user₁ ((hne q hqr).symm.trans huser₁)

/-- A handshake begins to wait for an agent of an account that has none. -/
theorem Serves.wait {s : Sys} {p : Protocol} {co : HandshakeCo} (h : Serves s) (hw : Waits s.hub co)
    (hnone : ∀ a, ¬ Started s a co.args.uid)
    (hfree : ∀ co' ∈ view Msg.getting s.net, co'.args.uid ≠ co.args.uid) :
    Serves { s with net := s.net ++ [Msg.mgrGet p co] } := by
  have hstart : ∀ a u, Started { s with net := s.net ++ [Msg.mgrGet p co] } a u → Started s a u :=
    fun a u ha => (started_append ha).elim id (fun hm => absurd hm List.not_mem_nil)
  have hmem : ∀ co', co' ∈ view Msg.getting (s.net ++ [Msg.mgrGet p co]) →
      co' ∈ view Msg.getting s.net ∨ co' = co := by
    intro co' hco'
    rw [Lib.Mailbox.view_append] at hco'
    exact (List.mem_append.mp hco').imp id List.mem_singleton.mp
  constructor
  case one => exact fun uid a b ha hb => h.one uid a b (hstart a uid ha) (hstart b uid hb)
  case alone =>
    intro co' hco' a ha
    rcases hmem co' hco' with hco' | rfl
    · exact h.alone co' hco' a (hstart a _ ha)
    · exact hnone a (hstart a _ ha)
  case single =>
    show ((view Msg.getting (s.net ++ [Msg.mgrGet p co])).map _).Nodup
    rw [Lib.Mailbox.view_append, List.map_append]
    refine List.nodup_append.mpr ⟨h.single, List.nodup_singleton _, fun u hu v hv huv => ?_⟩
    obtain ⟨co', hco', rfl⟩ := List.mem_map.mp hu
    exact hfree co' hco' (huv.trans (List.mem_singleton.mp hv))
  case waits =>
    intro co' hco'
    rcases hmem co' hco' with hco' | rfl
    · exact h.waits co' hco'
    · exact hw
  case record =>
    exact fun uid r user a b hr huser hb ha => h.record uid r user a b hr huser hb (hstart a uid ha)
  case withConn => exact h.withConn
  case owner => exact h.owner
  case below => exact h.below

/-- The record of a uid has a token of the uid. -/
theorem Serves.token {s : Sys} (h : Serves s) {uid : String} {r : Nat} {user : User}
    (hr : s.hub.userMap.get uid = some r) (huser : s.hub.users.get r = some user) :
    user.token.uid = uid := by
  obtain ⟨user', huser', huid⟩ := h.owner uid r hr
  rw [huser] at huser'
  cases huser'
  exact huid

/-- What remains when a message is taken that is gone with it. -/
theorem Serves.drop {s : Sys} {m : Msg} {rest : List Msg} (h : Serves { s with net := m :: rest }) :
    Serves { s with net := rest } :=
  h.quiet (.refl _) (List.Subset.refl _) (List.append_nil rest).symm (fun x hx => by cases hx)

/-- A first login waits for an agent: under its guard nobody else serves the account. -/
theorem serves_firstLogin {s : Sys} {fd : Fd} {args : HandshakeArgs} {rest : List Msg}
    (answer : Option Nat) (h : Serves { s with net := .hubHandshake fd args :: rest }) {subid : Nat}
    {user : User} {conn : HubConn} (hv : s.hub.verdict fd args = .firstLogin subid user conn)
    (hnone : ∀ a, ¬ Started { s with net := rest } a args.uid)
    (hfree : ∀ co ∈ view Msg.getting rest, co.args.uid ≠ args.uid) :
    Serves ({ s with net := rest }.react answer (.hubHandshake fd args)) := by
  have hs : ({ s with net := rest } : Sys).react answer (.hubHandshake fd args) =
      { s with
        hub := { s.hub with users := s.hub.users.set subid { user with conn := some conn } }
        net := rest ++ [Msg.mgrGet conn.fd.gate { fd := fd, args := args, user := subid }] } := by
    show ({ s with net := rest }.setHub (s.hub.handshake fd args).1).send (s.hub.handshake fd args).2 = _
    rw [Hub.handshake, hv]
    rfl
  rw [hs]
  obtain ⟨-, huid, huser, hconn⟩ := Hub.verdict_firstLogin hv
  have hagent : user.agent = none := h.withConn subid user huser hconn
  have hset : Serves { s with
      hub := { s.hub with users := s.hub.users.set subid { user with conn := some conn } }
      net := rest } :=
    h.drop.setUser huser rfl ⟨conn, rfl⟩ fun uid b _ hb => by
      rw [show user.agent = some b from hb] at hagent
      cases hagent
  have htoken : user.token.uid = args.uid := h.token huid huser
  refine hset.wait ⟨⟨_, conn, Table.get_set_self _ _ _, htoken, rfl⟩, ?_⟩ hnone hfree
  intro r user' hr huser'
  obtain rfl : subid = r := Option.some.inj (huid.symm.trans hr)
  obtain rfl := Option.some.inj ((Table.get_set_self _ _ _).symm.trans huser')
  exact hagent

/-- The agent that was got is put into the record and started. -/
theorem serves_getRet {s : Sys} {co : HandshakeCo} {agent : AgentAddr} {rest : List Msg}
    (answer : Option Nat) (h : Serves { s with net := .hubGetRet co agent :: rest }) :
    Serves ({ s with net := rest }.react answer (.hubGetRet co agent)) := by
  have hco : co ∈ view Msg.getting (.hubGetRet co agent :: rest) := by
    rw [Lib.Mailbox.view_cons]
    exact List.mem_cons_self
  obtain ⟨⟨user, conn, huser, huid, hconn⟩, hnone⟩ := h.waits co hco
  have hs : ({ s with net := rest } : Sys).react answer (.hubGetRet co agent) =
      { s with
        hub := { s.hub with users := s.hub.users.set co.user { user with agent := some agent } }
        net := rest ++ Hub.callStart { user with agent := some agent } co false } := by
    show ({ s with net := rest }.setHub (s.hub.getRet co agent).1).send (s.hub.getRet co agent).2 = _
    simp only [Hub.getRet, show s.hub.users.get co.user = some user from huser]
    rfl
  -- nothing else serves the account, and no other handshake of it waits
  have hfresh : ∀ a, ¬ Started { s with net := rest } a co.args.uid := by
    intro a ha
    refine h.alone co hco a (ha.imp id fun ha => ?_)
    show (a, co.args.uid) ∈ view Msg.starting (.hubGetRet co agent :: rest)
    rw [Lib.Mailbox.view_cons]
    exact List.mem_append_right _ ha
  have hfree : ∀ co' ∈ view Msg.getting rest, co'.args.uid ≠ co.args.uid := by
    intro co' hco' he
    have hsingle := h.single
    rw [show Sys.net _ = .hubGetRet co agent :: rest from rfl, Lib.Mailbox.view_cons] at hsingle
    exact (List.nodup_cons.mp hsingle).1 (List.mem_map.mpr ⟨co', hco', he⟩)
  have hset : Serves { s with
      hub := { s.hub with users := s.hub.users.set co.user { user with agent := some agent } }
      net := rest } := by
    refine h.drop.setUser huser rfl ⟨conn, hconn⟩ fun uid b huid' _ => ?_
    obtain rfl : uid = co.args.uid := (h.token huid' huser).symm.trans huid
    exact ⟨fun a ha => absurd ha (hfresh a), hfree⟩
  have hgetting : view Msg.getting (rest ++ Hub.callStart { user with agent := some agent } co false) =
      view Msg.getting rest := by
    rw [Lib.Mailbox.view_append, callStart_getting, List.append_nil]
  rw [hs]
  refine hset.start agent co.args.uid rfl (fun a u ha => ?_) ?_ (fun a ha => absurd ha (hfresh a))
    (fun co' hco' => ?_) (fun r user' b hr huser' hb => ?_)
  · rcases started_append ha with ha | ha
    · exact .inl ha
    · obtain ⟨hagent, hu⟩ := callStart_starting ha
      exact .inr ⟨(Option.some.inj hagent).symm, hu⟩
  · rw [hgetting]
  · rw [hgetting] at hco'
    exact hfree co' hco'
  · by_cases hrco : r = co.user
    · subst hrco
      obtain rfl := Option.some.inj ((Table.get_set_self _ _ _).symm.trans huser')
      exact (Option.some.inj hb).symm
    · rw [show Sys.hub _ = _ from rfl, Table.get_set_ne _ _ hrco] at huser'
      rw [hnone r user' hr huser'] at hb
      cases hb

/-- A `start` that was in flight is handled: the agent is live. -/
theorem serves_agentStart {s : Sys} {agent : AgentAddr} {session : Session} {co : HandshakeCo}
    {rest : List Msg} (answer : Option Nat)
    (h : Serves { s with net := .agentStart agent session co :: rest }) :
    Serves ({ s with net := rest }.react answer (.agentStart agent session co)) := by
  by_cases hk : agent ∈ s.killed
  · simp only [react, if_pos hk]
    exact h.drop
  · simp only [react, if_neg hk]
    refine h.mono (.refl _) (fun a uid ha => ?_) ?_
    · show (a, uid) ∈ s.live ∨ (a, uid) ∈ view Msg.starting (.agentStart agent session co :: rest)
      rw [Lib.Mailbox.view_cons]
      rcases ha with ha | ha
      · rcases List.mem_cons.mp ha with he | ha
        · exact .inr (List.mem_append_left _ (he ▸ List.mem_singleton_self _))
        · exact .inl ha
      · refine .inr (List.mem_append_right _ ?_)
        rw [show Sys.net _ = rest ++ [Msg.load agent co] from rfl, Lib.Mailbox.view_append] at ha
        exact (List.mem_append.mp ha).resolve_right List.not_mem_nil
    · show (view Msg.getting (rest ++ [Msg.load agent co])).Subperm (view Msg.getting (_ :: rest))
      rw [Lib.Mailbox.view_append, Lib.Mailbox.view_cons]
      exact (List.Perm.of_eq (List.append_nil _)).subperm

/-! ## An access -/

/-- A new record has neither connection nor agent. -/
theorem serves_access {s : Sys} (h : Serves s) (uid secret serverId : String) (tm : Int) :
    Serves (s.setHub (s.hub.access uid secret serverId tm)) := by
  have hfresh : ∀ r user, s.hub.users.get r = some user → r ≠ s.hub.subid + 1 :=
    fun r user huser he => absurd (h.below r user huser) (by omega)
  have hrecord : ∀ r user, (s.hub.access uid secret serverId tm).users.get r = some user →
      r = s.hub.subid + 1 ∧ user.token.uid = uid ∧ user.agent = none ∨
        r ≠ s.hub.subid + 1 ∧ s.hub.users.get r = some user := by
    intro r user huser
    have huser : (s.hub.users.set (s.hub.subid + 1) _).get r = some user := huser
    by_cases hr : r = s.hub.subid + 1
    · subst hr
      obtain rfl := Option.some.inj ((Table.get_set_self _ _ _).symm.trans huser)
      exact .inl ⟨rfl, rfl, rfl⟩
    · exact .inr ⟨hr, (Table.get_set_ne _ _ hr).symm.trans huser⟩
  have hmap : ∀ u r, (s.hub.access uid secret serverId tm).userMap.get u = some r →
      r ≠ s.hub.subid + 1 → s.hub.userMap.get u = some r := by
    intro u r hr hne
    have hr : (s.hub.userMap.set uid (s.hub.subid + 1)).get u = some r := hr
    rw [Table.get_set] at hr
    split at hr
    · exact absurd (Option.some.inj hr).symm hne
    · exact hr
  constructor
  case one => exact h.one
  case alone => exact h.alone
  case single => exact h.single
  case waits =>
    intro co hco
    obtain ⟨⟨user, conn, huser, huid, hconn⟩, hnone⟩ := h.waits co hco
    refine ⟨⟨user, conn, (Table.get_set_ne _ _ (hfresh _ _ huser)).trans huser, huid, hconn⟩, ?_⟩
    intro r user' hr huser'
    rcases hrecord r user' huser' with ⟨-, -, hagent⟩ | ⟨hne, hold⟩
    · exact hagent
    · exact hnone r user' (hmap _ _ hr hne) hold
  case record =>
    intro u r user a b hr huser hb ha
    rcases hrecord r user huser with ⟨-, -, hagent⟩ | ⟨hne, hold⟩
    · rw [hagent] at hb
      cases hb
    · exact h.record u r user a b (hmap u r hr hne) hold hb ha
  case withConn =>
    intro r user huser hconn
    rcases hrecord r user huser with ⟨-, -, hagent⟩ | ⟨-, hold⟩
    · exact hagent
    · exact h.withConn r user hold hconn
  case owner =>
    intro u r hr
    have hr : (s.hub.userMap.set uid (s.hub.subid + 1)).get u = some r := hr
    rw [Table.get_set] at hr
    split at hr
    · rename_i hu
      obtain rfl := Option.some.inj hr
      exact ⟨_, Table.get_set_self _ _ _, hu.symm⟩
    · obtain ⟨user, huser, huid⟩ := h.owner u r hr
      exact ⟨user, (Table.get_set_ne _ _ (hfresh _ _ huser)).trans huser, huid⟩
  case below =>
    intro r user huser
    rcases hrecord r user huser with ⟨rfl, -, -⟩ | ⟨-, hold⟩
    · exact Nat.le_refl _
    · exact (h.below r user hold).trans (Nat.le_succ _)

/-! ## A step, and a run -/

/-- The hub gives a record a connection or an agent in a handshake only; otherwise it forgets. -/
theorem react_forgets (s : Sys) (answer : Option Nat) {m : Msg} (hhand : ∀ fd args, m ≠ .hubHandshake fd args)
    (hget : ∀ co agent, m ≠ .hubGetRet co agent) : Hub.Forgets s.hub (s.react answer m).hub := by
  by_cases hm : m.dst = .hubd
  · cases m with
    | hubConnect conn => exact Hub.connect_forgets _ conn
    | hubLogout conn origin => exact Hub.logout_forgets _ conn
    | hubKick uid origin => exact .refl _
    | hubHandshake fd args => exact absurd rfl (hhand fd args)
    | hubGetRet co agent => exact absurd rfl (hget co agent)
    | hubStartRet co agent role => exact .refl _
    | hubRegisterRet co agent role res => exact Hub.registerRet_forgets _ co role res
    | _ => cases hm
  · rw [react_hub s answer hm]
    exact .refl _

/-- What is live changes with a `start`, with a recycling and with a save only. -/
theorem react_live_eq (s : Sys) (answer : Option Nat) {m : Msg}
    (hstart : ∀ agent session co, m ≠ .agentStart agent session co)
    (hrecycle : ∀ agent, m ≠ .poolRecycle agent) (hsave : ∀ agent, m ≠ .save agent) :
    (s.react answer m).live = s.live := by
  cases m with
  | poolRecycle agent => exact absurd rfl (hrecycle agent)
  | agentStart agent session co => exact absurd rfl (hstart agent session co)
  | save agent => exact absurd rfl (hsave agent)
  | agentLogout agent => simp only [react]; split <;> rfl
  | spawn protocol co => cases answer <;> rfl
  | expand protocol co agent i => cases answer <;> rfl
  | load agent co => cases answer <;> simp only [react]; split <;> rfl
  | _ => rfl

/-- Only a `start` makes an agent live. -/
theorem react_live (s : Sys) (answer : Option Nat) {m : Msg}
    (hstart : ∀ agent session co, m ≠ .agentStart agent session co) : (s.react answer m).live ⊆ s.live := by
  by_cases hrecycle : ∃ agent, m = .poolRecycle agent
  · obtain ⟨agent, rfl⟩ := hrecycle
    show (if _ then _ else s.live) ⊆ s.live
    split
    · exact List.filter_subset_self _
    · exact List.Subset.refl _
  by_cases hsave : ∃ agent, m = .save agent
  · obtain ⟨agent, rfl⟩ := hsave
    have hlive : (s.react answer (.save agent)).live = s.live.filter (·.1 ≠ agent) := by
      cases answer <;> simp only [react]; split <;> rfl
    rw [hlive]
    exact List.filter_subset_self _
  rw [react_live_eq s answer hstart (fun agent hm => hrecycle ⟨agent, hm⟩) fun agent hm => hsave ⟨agent, hm⟩]
  exact List.Subset.refl _

/-- A message that neither begins a handshake nor starts an agent. -/
theorem serves_other {s : Sys} {m : Msg} {rest : List Msg} (answer : Option Nat)
    (h : Serves { s with net := m :: rest }) (hhand : ∀ fd args, m ≠ .hubHandshake fd args)
    (hget : ∀ co agent, m ≠ .hubGetRet co agent)
    (hstart : ∀ agent session co, m ≠ .agentStart agent session co) :
    Serves ({ s with net := rest }.react answer m) := by
  obtain ⟨outs, hnet, hout⟩ := react_net s rest answer m
  refine h.pass (react_forgets { s with net := rest } answer hhand hget)
    (react_live { s with net := rest } answer hstart) hnet (fun x hx => ?_) (Lib.Mailbox.view_subperm (fun x hx co hc => ?_) ?_)
  · refine Option.eq_none_iff_forall_ne_some.mpr fun y hy => ?_
    rcases (hout.sends x hx).starting hy with ⟨fd, args, hm⟩ | ⟨co, agent, hm⟩
    · exact hhand fd args hm
    · exact hget co agent hm
  · refine ((hout.sends x hx).getting hc).resolve_right ?_
    rintro ⟨fd, args, hm⟩
    exact hhand fd args hm
  · exact (length_getting_le outs).trans hout.handshake

/-- One message; a first login is under its guard. -/
theorem serves_react {s : Sys} {m : Msg} {rest : List Msg} (answer : Option Nat)
    (h : Serves { s with net := m :: rest })
    (hg : ∀ fd args subid user conn, m = .hubHandshake fd args →
      s.hub.verdict fd args = .firstLogin subid user conn →
      (∀ x ∈ s.live ++ view Msg.starting rest, x.2 ≠ args.uid) ∧
        ∀ co ∈ view Msg.getting rest, co.args.uid ≠ args.uid) :
    Serves ({ s with net := rest }.react answer m) := by
  by_cases hhand : ∃ fd args, m = .hubHandshake fd args
  · obtain ⟨fd, args, rfl⟩ := hhand
    cases hv : s.hub.verdict fd args with
    | reconnect subid user old => exact serves_reconnect answer h hv
    | firstLogin subid user conn =>
      obtain ⟨hnone, hfree⟩ := hg fd args subid user conn rfl hv
      refine serves_firstLogin answer h hv (fun a ha => ?_) hfree
      exact hnone (a, args.uid) (List.mem_append.mpr ha) rfl
    | noConn | noToken | badToken =>
      -- the handshake is refused, and the hub stays as it is
      refine h.quiet ?_ (List.Subset.refl _) rfl ?_
      · show Hub.Forgets s.hub (s.hub.handshake fd args).1
        rw [Hub.handshake, hv]
        exact .refl _
      · rw [show Sys.hub _ = s.hub from rfl, Hub.handshake, hv]
        intro x hx
        rw [List.mem_singleton.mp hx]
        exact ⟨rfl, rfl⟩
  by_cases hget : ∃ co agent, m = .hubGetRet co agent
  · obtain ⟨co, agent, rfl⟩ := hget
    exact serves_getRet answer h
  by_cases hstart : ∃ agent session co, m = .agentStart agent session co
  · obtain ⟨agent, session, co, rfl⟩ := hstart
    exact serves_agentStart answer h
  exact serves_other answer h (fun fd args hm => hhand ⟨fd, args, hm⟩)
    (fun co agent hm => hget ⟨co, agent, hm⟩) fun agent session co hm => hstart ⟨agent, session, co, hm⟩

/-- Any step, a first login under its guard. -/
theorem serves_step {s s' : Sys} {a : Action} (h : Serves s) (hg : FreshLogin s a)
    (hs : s.step a = some s') : Serves s' := by
  cases step_cases hs with
  | @message _ m rest answer hm hperm =>
    have h' : Serves { s with net := m :: rest } :=
      h.mono (.refl _) (fun _ _ ha => ha.imp id (Lib.Mailbox.view_perm _ hperm).mem_iff.mpr)
        (Lib.Mailbox.view_perm _ hperm).symm.subperm
    refine serves_react answer h' fun fd args subid user conn hmsg hv => ?_
    have hlog : s.logsIn a = some { fd := fd, args := args, user := subid } := by
      rw [logsIn, hm, hmsg]
      simp only [hv]
    obtain ⟨hnone, hfree⟩ := hg _ hlog
    subst hmsg
    refine ⟨fun x hx => hnone x ?_, fun co hco => hfree co ?_⟩
    · rw [List.mem_append] at hx ⊢
      refine hx.imp id fun hx => (Lib.Mailbox.view_perm Msg.starting hperm).mem_iff.mpr ?_
      exact hx
    · exact (Lib.Mailbox.view_perm Msg.getting hperm).mem_iff.mpr hco
  | connect p ip =>
    refine h.send (.refl _) rfl rfl fun x hx => ?_
    rw [Gate.openSocket_sends hx]
    exact ⟨rfl, rfl⟩
  | data fd req =>
    refine h.send (.refl _) rfl rfl fun x hx => ?_
    obtain ⟨c, -, ⟨user, -, rfl⟩ | ⟨-, rfl⟩⟩ := Gate.message_sends hx <;> exact ⟨rfl, rfl⟩
  | disconnect fd =>
    refine h.send (.refl _) rfl rfl fun x hx => ?_
    rcases Gate.closeAgent_cases { s.gates fd.gate with sock := (s.gates fd.gate).sock.del fd } fd false
      .event with ⟨-, -, hout⟩ | ⟨c, -, ⟨-, -, hout⟩ | ⟨-, -, hout⟩⟩
    · exact absurd (hout ▸ hx) List.not_mem_nil
    · exact absurd (hout ▸ hx) List.not_mem_nil
    · have hx : x ∈ [Msg.slaveLogout c .event] := hout ▸ hx
      rw [List.mem_singleton.mp hx]
      exact ⟨rfl, rfl⟩
  | access uid secret serverId tm => exact serves_access h uid secret serverId tm
  | loginKick uid =>
    refine h.send (.refl _) rfl rfl fun x hx => ?_
    obtain ⟨user, conn, -, -, rfl⟩ := Hub.kick_sends hx
    exact ⟨rfl, rfl⟩
  | sweep now =>
    exact h.mono (Hub.handshakeTimeout_timesOut _ now).toForgets (fun _ _ ha => ha) (.refl _)

/-- In a run in which every first login is fresh, at most one agent at a time has started for an
account. -/
theorem oneAgent_of_freshLogin (s : Sys) (h : node.ReachUnder FreshLogin s) : OneAgent s :=
  (h.invariant Serves (by rintro _ ⟨warm, maxclient, rfl⟩; exact init_serves warm maxclient)
    fun _ _ _ _ hI hg hs => serves_step hI hg hs).oneAgent

/-- A player logs in, leaves, and logs in again when the agent has saved and is back in its pool. -/
theorem oneAgent_of_freshLogin_relogin :
    ∃ s, node.exec opened
        (connecting .tcp ++ [Action.access "u" "k" "1" 0] ++
          loggingIn ⟨.tcp, 1⟩ ⟨"u", "k", "2"⟩ ⟨.tcp, 2⟩ 2 ++
          [Action.disconnect ⟨.tcp, 1⟩, .deliver (.slave .tcp), .deliver .hubd, .deliver (.gate .tcp),
            .deliver (.agent ⟨.tcp, 2⟩), .resume (.save ⟨.tcp, 2⟩) (some 0),
            .deliver .mgr, .deliver (.pool .tcp)] ++
          connecting .tcp ++ [Action.access "u" "l" "1" 0] ++
          loggingIn ⟨.tcp, 2⟩ ⟨"u", "l", "3"⟩ ⟨.tcp, 2⟩ 3) = some s ∧
      OneAgent s := by
  have hrun : (node.execWhile (fun s a => decide (FreshLogin s a)) opened
      (connecting .tcp ++ [Action.access "u" "k" "1" 0] ++
        loggingIn ⟨.tcp, 1⟩ ⟨"u", "k", "2"⟩ ⟨.tcp, 2⟩ 2 ++
        [Action.disconnect ⟨.tcp, 1⟩, .deliver (.slave .tcp), .deliver .hubd, .deliver (.gate .tcp),
          .deliver (.agent ⟨.tcp, 2⟩), .resume (.save ⟨.tcp, 2⟩) (some 0),
          .deliver .mgr, .deliver (.pool .tcp)] ++
        connecting .tcp ++ [Action.access "u" "l" "1" 0] ++
        loggingIn ⟨.tcp, 2⟩ ⟨"u", "l", "3"⟩ ⟨.tcp, 2⟩ 3)).isSome := by
    decide +kernel
  obtain ⟨s, hs⟩ := Option.isSome_iff_exists.mp hrun
  exact ⟨s, Lib.Machine.exec_of_execWhile hs, oneAgent_of_freshLogin s
    (Lib.Machine.ReachUnder.execWhile (fun _ _ h => of_decide_eq_true h) (.start opened_start) hs)⟩

/-- A player with an agent logs in on the login node again: the new token has no agent, and the next
handshake starts a second one. -/
theorem not_oneAgent_second_access : ¬ ∀ s, node.Reach s → OneAgent s := by
  intro h
  have hrun : ∃ s ∈ node.exec opened
      (connecting .tcp ++ [Action.access "u" "k" "1" 0] ++
        loggingIn ⟨.tcp, 1⟩ ⟨"u", "k", "2"⟩ ⟨.tcp, 2⟩ 2 ++
        connecting .tcp ++ [Action.access "u" "l" "1" 0] ++
        loggingIn ⟨.tcp, 2⟩ ⟨"u", "l", "3"⟩ ⟨.tcp, 1⟩ 3),
      (⟨.tcp, 1⟩, "u") ∈ s.live ∧ (⟨.tcp, 2⟩, "u") ∈ s.live := by
    decide +kernel
  obtain ⟨s, hs, h₁, h₂⟩ := hrun
  have := h s (Lib.Machine.Reach.exec (.start opened_start) hs) "u" _ _ h₁ h₂
  revert this
  decide

end Sys

end AntServer.Game
