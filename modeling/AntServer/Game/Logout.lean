/-
# AntServer.Game.Logout — which session a logout ends

`CMD.logout` of `hubd` removes the entry of `User_Map` for the uid of the connection that is closed. It
does not look at the connection of the record it removes. So a connection that is registered for a uid,
or whose logout is on its way, has to be the connection of the record of that uid (`Owned`). An
`access` breaks this, since its record has no connection; so does the registration of another
connection than the record's.

The runs without such an `access` and such a registration are `OwnSession`.
-/
import AntServer.Game.Reaction
import AntServer.Game.Tables

namespace AntServer.Game

open Lib (Table)
open Lib.Mailbox (view)

/-- The record of the uid, if there is one, has the connection `fd`. -/
def Hub.Current (h : Hub) (uid : String) (fd : Fd) : Prop :=
  ∀ user ∈ h.user uid, user.conn.map HubConn.fd = some fd

instance (h : Hub) (uid : String) (fd : Fd) : Decidable (h.Current uid fd) := by
  unfold Hub.Current
  infer_instance

namespace Sys

/-- What may take the record of a uid out of `User_Map`: a newer access, the timeout, or the logout of
the connection of the record. -/
inductive Ends (s : Sys) (a : Action) (uid : String) (user : User) : Prop
  | replaced {secret serverId : String} {tm : Int} : a = .access uid secret serverId tm → Ends s a uid user
  | timedOut {now : Int} : a = .sweep now → user.conn = none → now - user.tm ≥ tcount → Ends s a uid user
  | logout {conn : Conn} {origin : Option Fd} {account : ConnUser} :
    s.handled a = some (.hubLogout conn origin) → conn.user = some account → account.uid = uid →
      user.conn.map HubConn.fd = some conn.fd → Ends s a uid user

/-- Every record of `User_Map` stays, or the step ends its session. -/
def KeepsSession (s : Sys) (a : Action) (s' : Sys) : Prop :=
  ∀ uid r user, s.hub.userMap.get uid = some r → s.hub.users.get r = some user →
    s'.hub.userMap.get uid = some r ∨ Ends s a uid user

/-- An access comes when no connection is registered for its uid and no logout of one is on its way. -/
def freshAccess (s : Sys) : Action → Prop
  | .access uid _ _ _ => (∀ fd uid', s.account fd = some uid' → uid' ≠ uid) ∧
      ∀ conn ∈ view Msg.loggingOut s.net, ∀ user ∈ conn.user, user.uid ≠ uid
  | _ => True

instance (s : Sys) : (a : Action) → Decidable (freshAccess s a)
  | .access uid _ _ _ =>
    decidable_of_iff ((∀ p ∈ [Protocol.ws, .tcp], ∀ fd ∈ (s.gates p).connection.keys,
        ∀ uid' ∈ s.account fd, uid' ≠ uid) ∧
        ∀ conn ∈ view Msg.loggingOut s.net, ∀ user ∈ conn.user, user.uid ≠ uid)
      (and_congr_left' forall_account.symm)
  | .deliver .. | .resume .. | .connect .. | .data .. | .disconnect .. | .loginKick .. | .sweep .. =>
    .isTrue trivial

/-- A connection is registered for a uid whose record has that connection. -/
def ownRegister (s : Sys) : Msg → Prop
  | .gateRegister gate uid _ co _ =>
    ((s.gates gate).connection.get co.fd).isSome → s.hub.Current uid co.fd
  | _ => True

instance (s : Sys) : (m : Msg) → Decidable (ownRegister s m)
  | .gateRegister gate uid _ co _ =>
    inferInstanceAs (Decidable
      (((s.gates gate).connection.get co.fd).isSome → s.hub.Current uid co.fd))
  | .gateConnectRet .. | .gateLogoutRet .. | .gateKick .. | .slaveConnect .. |
    .slaveConnectRet .. | .slaveLogout .. | .slaveKick .. | .slaveClient .. |
    .slaveHandshakeRet .. | .hubConnect .. | .hubLogout .. | .hubKick .. | .hubHandshake .. |
    .hubGetRet .. | .hubStartRet .. | .hubRegisterRet .. | .mgrGet .. | .mgrGetRet .. |
    .mgrRecycle .. | .poolGet .. | .poolRecycle .. | .agentStart .. | .agentLogout .. |
    .agentClient .. | .spawn .. | .expand .. | .load .. | .save .. => .isTrue trivial

def OwnSession (s : Sys) (a : Action) : Prop := freshAccess s a ∧ ∀ m ∈ s.handled a, ownRegister s m

instance (s : Sys) (a : Action) : Decidable (OwnSession s a) := by
  unfold OwnSession
  infer_instance

/-! ## The records and their connections -/

theorem current_forgets {h h' : Hub} {uid : String} {fd : Fd} (hcur : h.Current uid fd)
    (hh : Hub.Forgets h h') : h'.Current uid fd := by
  intro user' huser'
  obtain ⟨r, hr, hget⟩ := Hub.user_eq.mp huser'
  obtain ⟨user, huser, hcore⟩ := hh.record hget
  rw [← (Hub.core_eq hcore).2.1]
  exact hcur user (Hub.user_eq.mpr ⟨r, hh.userMap uid r hr, huser⟩)

/-- A record changes that keeps its connection, or that had none. -/
theorem current_setUser {h : Hub} {uid : String} {fd : Fd} (hcur : h.Current uid fd) {r : Nat}
    {user user' : User} (huser : h.users.get r = some user)
    (hconn : user.conn = none ∨ user'.conn = user.conn) :
    Hub.Current { h with users := h.users.set r user' } uid fd := by
  intro user₁ huser₁
  obtain ⟨q, hq, hget⟩ := Hub.user_eq.mp huser₁
  by_cases hqr : q = r
  · subst hqr
    obtain rfl := Option.some.inj ((Table.get_set_self _ _ _).symm.trans hget)
    have hfd := hcur user (Hub.user_eq.mpr ⟨q, hq, huser⟩)
    rcases hconn with hconn | hconn
    · rw [hconn] at hfd
      cases hfd
    · rw [hconn]
      exact hfd
  · exact hcur user₁ (Hub.user_eq.mpr ⟨q, hq, (Table.get_set_ne _ _ hqr).symm.trans hget⟩)

/-- The connection of a uid stays that of its record in every step but an access of the uid. -/
theorem current_step {s : Sys} {a : Action} {h' : Hub} {uid : String} {fd : Fd} (hok : s.hub.Ok)
    (hcase : HubCase s a h') (hcur : s.hub.Current uid fd)
    (hne : ∀ secret serverId tm, a ≠ .access uid secret serverId tm) : h'.Current uid fd := by
  cases hcase with
  | same => exact hcur
  | connect => exact current_forgets hcur (Hub.connect_forgets _ _)
  | logout => exact current_forgets hcur (Hub.logout_forgets _ _)
  | handshake =>
    unfold Hub.handshake
    split
    · exact hcur
    · exact hcur
    · exact hcur
    · exact hcur
    · rename_i hv
      obtain ⟨-, -, huser, hnone⟩ := Hub.verdict_firstLogin hv
      exact current_setUser hcur huser (.inl hnone)
  | getRet =>
    unfold Hub.getRet
    split
    · rename_i huser
      exact current_setUser hcur huser (.inr rfl)
    · exact hcur
  | registerRet => exact current_forgets hcur (Hub.registerRet_forgets _ _ _ _)
  | @access uid' secret serverId tm ha =>
    intro user huser
    obtain ⟨r, hr, hget⟩ := Hub.user_eq.mp huser
    rw [Hub.access_userMap] at hr
    split at hr
    · rename_i hu
      exact absurd (hu ▸ ha) (hne secret serverId tm)
    · obtain ⟨user₀, huser₀, -⟩ := hok.owner uid r hr
      have hsame := hok.access_get uid' secret serverId tm huser₀
      rw [hget] at hsame
      exact hcur user (Hub.user_eq.mpr ⟨r, hr, huser₀.trans hsame.symm⟩)
  | sweep => exact current_forgets hcur (Hub.handshakeTimeout_timesOut _ _).toForgets

/-! ## The invariant -/

/-- A connection that is registered for a uid, or whose logout is on its way, is the connection of the
record of the uid. -/
structure Owned (s : Sys) : Prop where
  registered : ∀ fd uid, s.account fd = some uid → s.hub.Current uid fd
  leaving : ∀ conn ∈ view Msg.loggingOut s.net, ∀ user ∈ conn.user, s.hub.Current user.uid conn.fd

theorem init_owned (warm : Warm) (maxclient : Protocol → Nat) : Owned (Sys.init warm maxclient) where
  registered fd uid _ user huser := by
    obtain ⟨r, hr, -⟩ := Hub.user_eq.mp huser
    rw [show (Sys.init warm maxclient).hub.userMap.get uid = none from Table.get_empty uid] at hr
    cases hr
  leaving conn hconn := absurd hconn List.not_mem_nil

/-- A connection at a gate is the connection of its uid. -/
theorem Owned.atGate {s : Sys} (h : Owned s) (hr : Formed s) {p : Protocol} {fd : Fd} {c : Conn}
    {user : ConnUser} (hc : (s.gates p).connection.get fd = some c) (huser : c.user = some user) :
    s.hub.Current user.uid c.fd ∧ s.account fd = some user.uid := by
  obtain ⟨hfd, rfl⟩ := hr.gates p fd c hc
  have hacc := account_eq.mpr ⟨c, user, hc, huser, rfl⟩
  exact ⟨hfd.symm ▸ h.registered fd user.uid hacc, hacc⟩

theorem owned_step {s s' : Sys} {a : Action} (h : Owned s) (hr : Formed s) (hg : OwnSession s a)
    (hs : s.step a = some s') : Owned s' := by
  have hhub := step_hub hs
  constructor
  case registered =>
    intro fd uid hacc
    obtain ⟨c', user', hc', huser', rfl⟩ := account_eq.mp hacc
    cases step_kept hs hc' with
    | same hc =>
      obtain ⟨hcur, hacc₀⟩ := h.atGate hr hc huser'
      rw [(hr.gates _ fd c' hc).1] at hcur
      refine current_step hr.hub hhub hcur fun secret serverId tm ha => ?_
      subst ha
      exact hg.1.1 fd user'.uid hacc₀ rfl
    | opened hm =>
      have hnone := hr.newConn c' (Lib.Mailbox.mem_view.mpr ⟨_, handled_mem hs hm, rfl⟩)
      rw [hnone] at huser'
      cases huser'
    | @registered c uid agent co role hm hfd hc hc' =>
      subst hc' hfd
      cases huser'
      refine current_step hr.hub hhub (hg.2 _ hm (by rw [hc]; rfl)) fun secret serverId tm ha => ?_
      subst ha
      cases hm
  case leaving =>
    intro conn hconn user huser
    obtain ⟨x, hx, hxc⟩ := Lib.Mailbox.mem_view.mp hconn
    rcases step_net hs hx with hx | hx | ⟨m, hm, hmem, hsends⟩
    · have hconn₀ : conn ∈ view Msg.loggingOut s.net := Lib.Mailbox.mem_view.mpr ⟨x, hx, hxc⟩
      refine current_step hr.hub hhub (h.leaving conn hconn₀ user huser) fun secret serverId tm ha => ?_
      subst ha
      exact hg.1.2 conn hconn₀ user huser rfl
    · cases hx with
      | disconnect hc =>
        cases hxc
        exact current_step hr.hub hhub (h.atGate hr hc huser).1 fun secret serverId tm ha => by cases ha
      | _ => cases hxc
    · have hne : ∀ secret serverId tm, a ≠ .access user.uid secret serverId tm := by
        rintro secret serverId tm rfl
        cases hm
      cases hsends with
      | kicked origin hc =>
        cases hxc
        exact current_step hr.hub hhub (h.atGate hr hc huser).1 hne
      | logout conn' cause =>
        cases hxc
        refine current_step hr.hub hhub (h.leaving conn ?_ user huser) hne
        exact Lib.Mailbox.mem_view.mpr ⟨_, hmem, rfl⟩
      | _ => cases hxc

theorem reach_owned {s : Sys} (h : node.ReachUnder OwnSession s) : Owned s :=
  h.invariant Owned (by rintro _ ⟨warm, maxclient, rfl⟩; exact init_owned warm maxclient)
    fun _ _ _ hr hI hg hs => owned_step hI (reach_formed hr.reach) hg hs

/-! ## A step, and a run -/

theorem Owned.keepsSession {s s' : Sys} {a : Action} (h : Owned s) (hs : s.step a = some s') :
    KeepsSession s a s' := by
  intro uid r user hr huser
  cases hub_stays (step_hub hs) hr huser with
  | kept hr' => exact .inl hr'
  | replaced ha => exact .inr (.replaced ha)
  | timedOut ha hconn htime => exact .inr (.timedOut ha hconn htime)
  | @loggedOut conn origin account hm haccount huid =>
    subst huid
    refine .inr (.logout hm haccount rfl ?_)
    have hconn : conn ∈ view Msg.loggingOut s.net := Lib.Mailbox.mem_view.mpr ⟨_, handled_mem hs hm, rfl⟩
    exact h.leaving conn hconn account haccount user (Hub.user_eq.mpr ⟨r, hr, huser⟩)

/-- In a run in which every access comes after the logout of its uid, and every connection is
registered for the uid of its own record, a logout only ends its own session. -/
theorem keepsSession_of_ownSession (s s' : Sys) (a : Action) (hr : node.ReachUnder OwnSession s)
    (hs : s.step a = some s') : KeepsSession s a s' := (reach_owned hr).keepsSession hs

/-- A player logs in and leaves: the logout removes the record of the session that ends. -/
theorem keepsSession_of_ownSession_leaving :
    ∃ s s', node.exec opened
        (connecting .tcp ++ [Action.access "u" "k" "1" 0] ++
          loggingIn ⟨.tcp, 1⟩ ⟨"u", "k", "2"⟩ ⟨.tcp, 2⟩ 2 ++
          [Action.disconnect ⟨.tcp, 1⟩, .deliver (.slave .tcp)]) = some s ∧
      s.step (.deliver .hubd) = some s' ∧ s'.hub.userMap.get "u" = none ∧
      KeepsSession s (.deliver .hubd) s' := by
  have hrun : ∃ s ∈ node.execWhile (fun s a => decide (OwnSession s a)) opened
      (connecting .tcp ++ [Action.access "u" "k" "1" 0] ++
        loggingIn ⟨.tcp, 1⟩ ⟨"u", "k", "2"⟩ ⟨.tcp, 2⟩ 2 ++
        [Action.disconnect ⟨.tcp, 1⟩, .deliver (.slave .tcp)]),
      ∃ s' ∈ s.step (.deliver .hubd), s'.hub.userMap.get "u" = none := by
    decide +kernel
  obtain ⟨s, hs, s', hs', hgone⟩ := hrun
  exact ⟨s, s', Lib.Machine.exec_of_execWhile hs, hs', hgone, keepsSession_of_ownSession s s' _
    (Lib.Machine.ReachUnder.execWhile (fun _ _ h => of_decide_eq_true h) (.start opened_start) hs) hs'⟩

/-- A player logs in on the login node again. The kick of the old session and the access of the new
one are sent back to back, the logout of the old connection comes after the access, and it takes the
new token. -/
theorem not_keepsSession_relogin :
    ¬ ∀ s s' a, node.Reach s → s.step a = some s' → KeepsSession s a s' := by
  intro h
  have hrun : ∃ s ∈ node.exec opened
      (connecting .tcp ++ [Action.access "u" "k" "1" 0] ++
        loggingIn ⟨.tcp, 1⟩ ⟨"u", "k", "2"⟩ ⟨.tcp, 2⟩ 2 ++
        [Action.loginKick "u", .access "u" "l" "1" 0, .deliver (.gate .tcp), .deliver (.slave .tcp)]),
      ∃ s' ∈ s.step (.deliver .hubd), s.hub.userMap.get "u" = some 3 ∧
        (∃ user ∈ s.hub.users.get 3, user.conn = none) ∧ s'.hub.userMap.get "u" = none := by
    decide +kernel
  obtain ⟨s, hs, s', hs', hr, ⟨user, huser, hnone⟩, hgone⟩ := hrun
  rcases h s s' _ (Lib.Machine.Reach.exec (.start opened_start) hs) hs' "u" 3 user hr huser with
    hkept | ⟨ha⟩ | ⟨ha, -, -⟩ | ⟨-, -, -, hconn⟩
  · rw [hgone] at hkept
    cases hkept
  · cases ha
  · cases ha
  · rw [hnone] at hconn
    cases hconn

end Sys

end AntServer.Game
