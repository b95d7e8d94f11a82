/-
# AntServer.Game.Rejected — what a rejected handshake does to others

A handshake request is rejected when its uid has no token, or the secret or the subid is not the
token's. Its handling are the judgement of `hubd`, the answer to the hub slave, and what follows: with
the code 3 the slave sends itself a `kick` with the uid of the request, `hubd` kicks the connection of
that uid, and its gate closes it. The uid is the one the client has sent, so the connection closed is
that of whoever plays under it.

The runs in which this hits nobody else are `Spares`: the connection that `hubd` finds for the uid is
the one that asked, and it has no account yet when its gate closes it.
-/
import AntServer.Game.Reaction
import AntServer.Game.Tables

namespace AntServer.Game

open Lib (Table)

/-- The message concerns the rejected handshake of `fd` and closes or logs out nothing but that
connection, which has no account. -/
def Msg.About (fd : Fd) : Msg → Prop
  | slaveHandshakeRet fd' _ _ => fd' = fd
  | slaveKick _ _ origin => origin = some fd
  | hubKick _ origin => origin = some fd
  | gateKick fd' _ origin => fd' = fd ∧ origin = some fd
  | slaveLogout conn cause => conn.fd = fd ∧ conn.user = none ∧ cause.origin = some fd
  | hubLogout conn origin => conn.fd = fd ∧ conn.user = none ∧ origin = some fd
  | gateLogoutRet fd' cause => fd' = fd ∧ cause.origin = some fd
  | _ => False

namespace Sys

/-- The connection whose rejected handshake the handling of a message is part of. -/
def follows (s : Sys) : Msg → Option Fd
  | .hubHandshake fd args =>
    match s.hub.verdict fd args with
    | .noToken => some fd
    | .badToken => some fd
    | _ => none
  | .slaveHandshakeRet fd _ res => if res.errcode = 2 ∨ res.errcode = 3 then some fd else none
  | m => m.origin

/-- The handling of `m`, a part of that of a rejected handshake of `fd`, leaves the records of
`User_Map`, the agents and every other connection as they were, and what it sends is about that
connection. -/
structure Harmless (fd : Fd) (m : Msg) (s s' : Sys) : Prop where
  userMap : s'.hub.userMap = s.hub.userMap
  users : s'.hub.users = s.hub.users
  fdMap : ∀ fd', fd' ≠ fd → s'.hub.fdMap.get fd' = s.hub.fdMap.get fd'
  gates : ∀ p, Gate.Elsewhere fd (s.gates p) (s'.gates p)
  agents : s'.agents = s.agents
  live : s'.live = s.live
  sends : ∃ others outs, s.net.Perm (m :: others) ∧ s'.net = others ++ outs ∧ ∀ x ∈ outs, x.About fd

/-- The kick that follows a rejected handshake of `fd` finds at `hubd` no other connection, and at the
gate no account. -/
def sparesMsg (s : Sys) (fd : Fd) : Msg → Prop
  | .hubKick uid _ => ∀ user ∈ s.hub.user uid, ∀ conn ∈ user.conn, conn.fd = fd
  | .gateKick fd' _ _ => ∀ c ∈ (s.gates fd'.gate).connection.get fd', c.user = none
  | _ => True

instance (s : Sys) (fd : Fd) : (m : Msg) → Decidable (sparesMsg s fd m)
  | .hubKick uid _ =>
    inferInstanceAs (Decidable (∀ user ∈ s.hub.user uid, ∀ conn ∈ user.conn, conn.fd = fd))
  | .gateKick fd' _ _ =>
    inferInstanceAs (Decidable (∀ c ∈ (s.gates fd'.gate).connection.get fd', c.user = none))
  | .gateConnectRet .. | .gateLogoutRet .. | .gateRegister .. | .slaveConnect .. |
    .slaveConnectRet .. | .slaveLogout .. | .slaveKick .. | .slaveClient .. |
    .slaveHandshakeRet .. | .hubConnect .. | .hubLogout .. | .hubHandshake .. | .hubGetRet .. |
    .hubStartRet .. | .hubRegisterRet .. | .mgrGet .. | .mgrGetRet .. | .mgrRecycle .. |
    .poolGet .. | .poolRecycle .. | .agentStart .. | .agentLogout .. | .agentClient .. |
    .spawn .. | .expand .. | .load .. | .save .. => .isTrue trivial

def Spares (s : Sys) (a : Action) : Prop := ∀ m ∈ s.handled a, ∀ fd ∈ m.origin, sparesMsg s fd m

instance (s : Sys) (a : Action) : Decidable (Spares s a) := by
  unfold Spares
  infer_instance

/-! ## The messages in flight -/

/-- What follows a rejected handshake is about its connection. -/
def Contained (s : Sys) : Prop := ∀ m ∈ s.net, ∀ fd, m.origin = some fd → m.About fd

/-- What is sent for a message that is about the connection is about it again. -/
theorem Sends.about {s : Sys} (hok : ∀ p, (s.gates p).Ok p) {m x : Msg} (hx : Sends s m x) {fd : Fd}
    (hm : m.origin = some fd → m.About fd ∧ sparesMsg s fd m) (hfd : x.origin = some fd) : x.About fd := by
  cases hx with
  | kicked origin hc =>
    obtain ⟨⟨rfl, -⟩, hnone⟩ := hm hfd
    exact ⟨(hok _ _ _ hc).1, hnone _ hc, hfd⟩
  | logout conn cause =>
    obtain ⟨⟨hconn, hnone, -⟩, -⟩ := hm hfd
    exact ⟨hconn, hnone, hfd⟩
  | logoutRet conn cause =>
    obtain ⟨⟨hconn, -⟩, -⟩ := hm hfd
    exact ⟨hconn, hfd⟩
  | kick p uid origin => exact hfd
  | requestRet hcode => exact hfd
  | hubKick origin huser hconn =>
    obtain ⟨-, hspares⟩ := hm hfd
    exact ⟨hspares _ huser _ hconn, hfd⟩
  | _ => cases hfd

theorem contained_step {s s' : Sys} {a : Action} (h : Contained s) (hr : Formed s) (hg : Spares s a)
    (hs : s.step a = some s') : Contained s' := by
  intro x hx fd hfd
  rcases step_net hs hx with hx | hx | ⟨m, hm, hmem, hsends⟩
  · exact h x hx fd hfd
  · cases hx <;> cases hfd
  · exact hsends.about hr.gates (fun ho => ⟨h m hmem fd ho, hg m hm fd ho⟩) hfd

theorem reach_contained {s : Sys} (h : node.ReachUnder Spares s) : Contained s :=
  h.invariant Contained (by rintro _ ⟨warm, maxclient, rfl⟩ m hm; cases hm)
    fun _ _ _ hr hI hg hs => contained_step hI (reach_formed hr.reach) hg hs

/-! ## The handling of a rejected handshake -/

/-- A gate closes the connection, and no other. -/
theorem setGate_elsewhere {s : Sys} {fd : Fd} {g : Gate} (h : Gate.Elsewhere fd (s.gates fd.gate) g)
    (p : Protocol) : Gate.Elsewhere fd (s.gates p) ((s.setGate fd.gate g).gates p) := by
  show Gate.Elsewhere fd (s.gates p) (Function.update s.gates fd.gate g p)
  by_cases hp : p = fd.gate
  · subst hp
    rw [Function.update_self]
    exact h
  · rw [Function.update_of_ne hp]
    exact .refl fd _

/-- What is sent for a part of the handling is about the connection again. -/
theorem Sends.follows_about {s : Sys} (hok : ∀ p, (s.gates p).Ok p) {m x : Msg} (hx : Sends s m x)
    {fd : Fd} (hf : s.follows m = some fd) (hm : m.origin = some fd → m.About fd ∧ sparesMsg s fd m) :
    x.About fd := by
  cases hx with
  | kicked origin hc => exact (Sends.kicked origin hc).about hok hm hf
  | logout conn cause => exact (Sends.logout conn cause).about hok hm hf
  | logoutRet conn cause => exact (Sends.logoutRet conn cause).about hok hm hf
  | kick p uid origin => exact hf
  | requestRet hcode =>
    simp only [follows] at hf
    split at hf
    · exact hf
    · cases hf
  | hubKick origin huser hconn => exact (Sends.hubKick origin huser hconn).about hok hm hf
  | agentLogout origin huser =>
    obtain ⟨⟨-, hnone, -⟩, -⟩ := hm hf
    rw [hnone] at huser
    cases huser
  | refused res hv hcode =>
    rcases hv with hv | hv | hv <;> simp only [follows, hv] at hf
    · cases hf
    · exact Option.some.inj hf
    · exact Option.some.inj hf
  | replaced hv | restart hv _ | get hv =>
    simp only [follows, hv] at hf
    cases hf
  | _ => cases hf

/-- A part of the handling changes nothing but the connection. -/
theorem harmless_react {s : Sys} {m : Msg} {rest : List Msg} {fd : Fd} (answer : Option Nat)
    (hperm : s.net.Perm (m :: rest)) (hok : ∀ p, (s.gates p).Ok p) (hf : s.follows m = some fd)
    (hm : m.origin = some fd → m.About fd ∧ sparesMsg s fd m) :
    Harmless fd m s ({ s with net := rest }.react answer m) := by
  obtain ⟨outs, hnet, hout⟩ := react_net s rest answer m
  have hsends : ∃ others outs, s.net.Perm (m :: others) ∧
      ({ s with net := rest }.react answer m).net = others ++ outs ∧ ∀ x ∈ outs, x.About fd :=
    ⟨rest, outs, hperm, hnet, fun x hx => (hout.sends x hx).follows_about hok hf hm⟩
  have hquiet : ∀ g, (∀ p, Gate.Elsewhere fd (s.gates p) (g p)) →
      ({ s with net := rest }.react answer m).hub = s.hub →
      ({ s with net := rest }.react answer m).gates = g →
      ({ s with net := rest }.react answer m).agents = s.agents →
      ({ s with net := rest }.react answer m).live = s.live →
      Harmless fd m s ({ s with net := rest }.react answer m) := by
    intro g hg hhub hgates hagents hlive
    exact ⟨by rw [hhub], by rw [hhub], fun fd' _ => by rw [hhub], hgates ▸ hg, hagents, hlive, hsends⟩
  have hsame : ∀ p, Gate.Elsewhere fd (s.gates p) (s.gates p) := fun p => .refl fd _
  cases m with
  | gateLogoutRet fd' cause =>
    obtain ⟨⟨rfl, -⟩, -⟩ := hm hf
    exact hquiet _ (setGate_elsewhere (Gate.logoutRet_elsewhere _ fd' cause)) rfl rfl rfl rfl
  | gateKick fd' raw origin =>
    obtain ⟨⟨rfl, -⟩, -⟩ := hm hf
    exact hquiet _ (setGate_elsewhere (Gate.closeAgent_elsewhere _ fd' raw (.kick origin))) rfl rfl rfl rfl
  | slaveLogout conn cause => exact hquiet _ hsame rfl rfl rfl rfl
  | slaveKick slave uid origin => exact hquiet _ hsame rfl rfl rfl rfl
  | slaveHandshakeRet fd' args res => exact hquiet _ hsame rfl rfl rfl rfl
  | hubLogout conn origin =>
    obtain ⟨⟨rfl, hnone, -⟩, -⟩ := hm hf
    have hhub : (s.hub.logout conn).1 = { s.hub with fdMap := s.hub.fdMap.del conn.fd } := by
      rw [Hub.logout, hnone]
    refine ⟨?_, ?_, fun fd' hne => ?_, hsame, rfl, rfl, hsends⟩
    · show (s.hub.logout conn).1.userMap = _
      rw [hhub]
    · show (s.hub.logout conn).1.users = _
      rw [hhub]
    · show (s.hub.logout conn).1.fdMap.get fd' = _
      rw [hhub]
      exact Table.get_del_ne _ hne
  | hubKick uid origin => exact hquiet _ hsame rfl rfl rfl rfl
  | hubHandshake fd' args =>
    have hhub : (s.hub.handshake fd' args).1 = s.hub := by
      cases hv : s.hub.verdict fd' args with
      | noToken => rw [Hub.handshake, hv]
      | badToken => rw [Hub.handshake, hv]
      | noConn | reconnect subid user conn | firstLogin subid user conn =>
        simp only [follows, hv] at hf
        cases hf
    exact hquiet _ hsame hhub rfl rfl rfl
  | _ => cases hf

/-- In a run in which the kick of a rejected handshake finds no other connection and no account, its
handling harms nobody else. -/
theorem rejected_harmless (s s' : Sys) (a : Action) (m : Msg) (fd : Fd) (hr : node.ReachUnder Spares s)
    (hg : Spares s a) (hs : s.step a = some s') (hm : s.handled a = some m)
    (hf : s.follows m = some fd) : Harmless fd m s s' := by
  have hformed := reach_formed hr.reach
  cases step_cases hs with
  | @message _ m' rest answer hm' hperm =>
    obtain rfl : m' = m := Option.some.inj (hm'.symm.trans hm)
    refine harmless_react answer hperm hformed.gates hf fun ho => ⟨?_, hg m' hm fd ho⟩
    exact reach_contained hr m' (hperm.mem_iff.mpr List.mem_cons_self) fd ho
  | _ => cases hm

/-- A client sends a wrong secret while its own handshake waits for an agent: its own connection, which
has no account yet, is closed, and nothing else happens. -/
theorem rejected_harmless_own :
    ∃ s s', node.exec opened
        (connecting .tcp ++ [Action.access "u" "k" "1" 0] ++ asking ⟨.tcp, 1⟩ ⟨"u", "k", "2"⟩ ++
          asking ⟨.tcp, 1⟩ ⟨"u", "x", "2"⟩ ++
          [Action.deliver (.slave .tcp), .deliver (.slave .tcp), .deliver .hubd]) = some s ∧
      s.step (.deliver (.gate .tcp)) = some s' ∧
      Harmless ⟨.tcp, 1⟩ (.gateKick ⟨.tcp, 1⟩ false (some ⟨.tcp, 1⟩)) s s' := by
  have hrun : ∃ s ∈ node.execWhile (fun s a => decide (Spares s a)) opened
      (connecting .tcp ++ [Action.access "u" "k" "1" 0] ++ asking ⟨.tcp, 1⟩ ⟨"u", "k", "2"⟩ ++
        asking ⟨.tcp, 1⟩ ⟨"u", "x", "2"⟩ ++
        [Action.deliver (.slave .tcp), .deliver (.slave .tcp), .deliver .hubd]),
      (s.step (.deliver (.gate .tcp))).isSome ∧ Spares s (.deliver (.gate .tcp)) ∧
        s.handled (.deliver (.gate .tcp)) = some (.gateKick ⟨.tcp, 1⟩ false (some ⟨.tcp, 1⟩)) := by
    decide +kernel
  obtain ⟨s, hs, hstep, hg, hm⟩ := hrun
  obtain ⟨s', hs'⟩ := Option.isSome_iff_exists.mp hstep
  exact ⟨s, s', Lib.Machine.exec_of_execWhile hs, hs', rejected_harmless s s' _ _ _
    (Lib.Machine.ReachUnder.execWhile (fun _ _ h => of_decide_eq_true h) (.start opened_start) hs)
    hg hs' hm rfl⟩

/-- A client names the uid of a player and a wrong secret: `hubd` kicks the connection of the player. -/
theorem not_rejected_harmless_victim :
    ¬ ∀ s s' a m fd, node.Reach s → s.step a = some s' → s.handled a = some m →
      s.follows m = some fd → Harmless fd m s s' := by
  intro h
  have hrun : ∃ s ∈ node.exec opened
      (connecting .tcp ++ [Action.access "u" "k" "1" 0] ++
        loggingIn ⟨.tcp, 1⟩ ⟨"u", "k", "2"⟩ ⟨.tcp, 2⟩ 2 ++
        connecting .tcp ++ asking ⟨.tcp, 2⟩ ⟨"u", "x", "2"⟩ ++
        [Action.deliver (.slave .tcp), .deliver (.slave .tcp)]),
      ∃ s' ∈ s.step (.deliver .hubd),
        s.handled (.deliver .hubd) = some (.hubKick "u" (some ⟨.tcp, 2⟩)) ∧
        .gateKick ⟨.tcp, 1⟩ false (some ⟨.tcp, 2⟩) ∈ s'.net ∧
        .gateKick ⟨.tcp, 1⟩ false (some ⟨.tcp, 2⟩) ∉ s.net := by
    decide +kernel
  obtain ⟨s, hs, s', hs', hm, hsent, hnew⟩ := hrun
  obtain ⟨others, outs, hperm, hnet, hout⟩ :=
    (h s s' _ _ _ (Lib.Machine.Reach.exec (.start opened_start) hs) hs' hm rfl).sends
  rw [hnet] at hsent
  rcases List.mem_append.mp hsent with hsent | hsent
  · exact hnew (hperm.mem_iff.mpr (List.mem_cons_of_mem _ hsent))
  · -- the kick would have to be of the client's own connection
    obtain ⟨hfd, -⟩ : (⟨.tcp, 1⟩ : Fd) = ⟨.tcp, 2⟩ ∧ _ := hout _ hsent
    cases hfd

end Sys

end AntServer.Game
