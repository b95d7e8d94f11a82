/-
# AntServer.Game.FailedHandshake — what a handshake that fails leaves behind

`CMD.handshake` of `service/game/hubd.lua` writes the connection into the record of the uid before its
first call and the agent after it; no path takes them out again. A failed call, a connection that is
closed meanwhile and a `register` that answers false all end the coroutine where it is. So every
handshake that gets past the token check leaves a record with a connection: a sweep takes it for a
player in the game, and the next handshake of the uid for a reconnect.

What a failed attempt should leave is `NoTrace`; it holds after none, wherever it fails and whatever
else is handled meanwhile (`not_noTrace`). The handshake of a reconnect writes nothing, and finds the
connection of the earlier login, and leaves it (`reconnect_leaves_hub`).
-/
import AntServer.Game.Reaction
import AntServer.Game.Tables

namespace AntServer.Game

open Lib (Table)

namespace Sys

/-! ## An attempt that fails -/

/-- A step begins a handshake that passes the token check. -/
def Begins (s : Sys) (a : Action) (co : HandshakeCo) : Prop :=
  s.logsIn a = some co ∨ s.reconnects a = some co

instance (s : Sys) (a : Action) (co : HandshakeCo) : Decidable (s.Begins a co) :=
  inferInstanceAs (Decidable (_ ∨ _))

/-- In a run the gate's registration for the handshake gets to `hubd`. -/
def succeeds (co : HandshakeCo) : Sys → List Action → Bool
  | _, [] => false
  | s, a :: as =>
    (match s.handled a with
      | some (.hubRegisterRet co' _ _ true) => decide (co' = co)
      | _ => false) ||
    match s.step a with
    | some s' => succeeds co s' as
    | none => false

/-- After a run the handshake is over, without a registration. -/
def Failed (co : HandshakeCo) (s : Sys) (as : List Action) (s' : Sys) : Prop :=
  succeeds co s as = false ∧ ∀ m ∈ s'.net, m.handshake ≠ some co

instance (co : HandshakeCo) (s : Sys) (as : List Action) (s' : Sys) :
    Decidable (Failed co s as s') := inferInstanceAs (Decidable (_ ∧ _))

/-- Nothing is left of a handshake: its record has no connection and no agent, so that the token can be
used or its time runs out, and no agent is handed out for its account. -/
structure NoTrace (s : Sys) (co : HandshakeCo) : Prop where
  record : ∃ user, s.hub.users.get co.user = some user ∧ user.conn = none ∧ user.agent = none
  agents : ∀ agent, (agent, co.args.uid) ∉ (s.pools agent.protocol).bound

/-! ## The connection stays in the record -/

/-- The record has a connection. -/
def Connected (s : Sys) (r : Nat) : Prop :=
  ∃ user, s.hub.users.get r = some user ∧ user.conn ≠ none

/-- The record of a handshake has a connection from its first step on. -/
theorem connected_of_begins {s s' : Sys} {a : Action} {co : HandshakeCo} (hr : node.Reach s)
    (hbegins : s.Begins a co) (h : s.step a = some s') : s'.Connected co.user := by
  rcases hbegins with hlogin | hreconnect
  · -- a first login puts its connection there
    unfold logsIn at hlogin
    split at hlogin
    · rename_i fd args hm
      split at hlogin
      · rename_i subid user conn hv
        obtain rfl := Option.some.inj hlogin
        have hhub : s'.hub = (s.hub.handshake fd args).1 := by
          obtain ⟨rest, answer, -, rfl⟩ := step_message h hm
          rfl
        refine ⟨{ user with conn := some conn }, ?_, by simp⟩
        rw [hhub, Hub.handshake, hv]
        exact Table.get_set_self _ _ _
      · cases hlogin
    · cases hlogin
  · -- a reconnect finds one
    unfold reconnects at hreconnect
    split at hreconnect
    · rename_i fd args hm
      split at hreconnect
      · rename_i subid user old hv
        obtain rfl := Option.some.inj hreconnect
        obtain ⟨-, huser, hold⟩ := Hub.verdict_reconnect hv
        obtain ⟨user', huser', hrec⟩ :=
          hub_recorded (reach_formed hr).hub (step_hub h) huser
        refine ⟨user', huser', ?_⟩
        rcases hrec.conn with hc | hc
        · rw [hc, hold]
          simp
        · rw [hold] at hc
          cases hc
      · cases hreconnect
    · cases hreconnect

/-- No step takes a connection out of a record. -/
theorem connected_step {s s' : Sys} {a : Action} (hr : node.Reach s) (h : s.step a = some s') {r : Nat}
    (hc : s.Connected r) : s'.Connected r := by
  obtain ⟨user, huser, hconn⟩ := hc
  obtain ⟨user', huser', hrec⟩ := hub_recorded (reach_formed hr).hub (step_hub h) huser
  refine ⟨user', huser', ?_⟩
  rcases hrec.conn with hc' | hc'
  · rw [hc']
    exact hconn
  · exact absurd hc' hconn

theorem connected_exec {s s' : Sys} {as : List Action} (hr : node.Reach s)
    (h : node.exec s as = some s') {r : Nat} (hc : s.Connected r) : s'.Connected r := by
  induction as generalizing s with
  | nil =>
    obtain rfl := Option.some.inj h
    exact hc
  | cons a as ih =>
    obtain ⟨t, ht, hrest⟩ := Option.bind_eq_some_iff.mp h
    exact ih (.step hr trivial ht) hrest (connected_step hr ht hc)

/-- A handshake that fails after the token check never ends without a trace. -/
theorem not_noTrace (s s₁ s₂ : Sys) (a : Action) (as : List Action) (co : HandshakeCo)
    (hr : node.Reach s) (hbegins : s.Begins a co) (hstep : s.step a = some s₁)
    (hexec : node.exec s₁ as = some s₂) : Failed co s₁ as s₂ → ¬ s₂.NoTrace co := by
  intro _ hno
  obtain ⟨user, huser, hnone, -⟩ := hno.record
  obtain ⟨user', huser', hconn⟩ :=
    connected_exec (.step hr trivial hstep) hexec (connected_of_begins hr hbegins hstep)
  rw [huser] at huser'
  exact hconn (Option.some.inj huser' ▸ hnone)

/-! ## Attempts -/

/-- A player asks for a first login; the database fails in the `start` of the agent. -/
def startFails : List Action :=
  [Action.deliver .mgr, .deliver (.pool .tcp), .deliver .mgr, .deliver .hubd, .deliver (.agent ⟨.tcp, 2⟩),
    .resume (.load ⟨.tcp, 2⟩ ⟨⟨.tcp, 1⟩, ⟨"u", "k", "2"⟩, 2⟩) none]

theorem not_noTrace_startFails : ∃ s s₁ s₂,
    node.exec opened (connecting .tcp ++ [Action.access "u" "k" "1" 0] ++
      [Action.data ⟨.tcp, 1⟩ (.handshake ⟨"u", "k", "2"⟩), .deliver (.slave .tcp)]) = some s ∧
    s.step (.deliver .hubd) = some s₁ ∧ node.exec s₁ startFails = some s₂ ∧
    ¬ s₂.NoTrace ⟨⟨.tcp, 1⟩, ⟨"u", "k", "2"⟩, 2⟩ := by
  have hrun : ∃ s ∈ node.exec opened (connecting .tcp ++ [Action.access "u" "k" "1" 0] ++
      [Action.data ⟨.tcp, 1⟩ (.handshake ⟨"u", "k", "2"⟩), .deliver (.slave .tcp)]),
      s.Begins (.deliver .hubd) ⟨⟨.tcp, 1⟩, ⟨"u", "k", "2"⟩, 2⟩ ∧
      ∃ s₁ ∈ s.step (.deliver .hubd), ∃ s₂ ∈ node.exec s₁ startFails,
        Failed ⟨⟨.tcp, 1⟩, ⟨"u", "k", "2"⟩, 2⟩ s₁ startFails s₂ := by
    decide +kernel
  obtain ⟨s, hs, hbegins, s₁, hs₁, s₂, hs₂, hfailed⟩ := hrun
  exact ⟨s, s₁, s₂, hs, hs₁, hs₂, not_noTrace s s₁ s₂ _ _ _
    (Lib.Machine.Reach.exec (.start opened_start) hs) hbegins hs₁ hs₂ hfailed⟩

/-- From the first step of `hubd` on: the agent is got, the connection is closed while it starts, and
the gate refuses the registration. -/
def closedMeanwhile : List Action :=
  [Action.deliver .mgr, .deliver (.pool .tcp), .deliver .mgr, .deliver .hubd,
    .disconnect ⟨.tcp, 1⟩, .deliver (.slave .tcp), .deliver .hubd, .deliver (.gate .tcp),
    .deliver (.agent ⟨.tcp, 2⟩), .resume (.load ⟨.tcp, 2⟩ ⟨⟨.tcp, 1⟩, ⟨"u", "k", "2"⟩, 2⟩) (some 1),
    .deliver .hubd, .deliver (.gate .tcp), .deliver .hubd]

/-- After it the record has the closed connection and the agent, the agent is handed out, and the sweep
of any later time leaves the record alone. -/
theorem trace_closedMeanwhile : ∃ s s₁ s₂,
    node.exec opened (connecting .tcp ++ [Action.access "u" "k" "1" 0] ++
      [Action.data ⟨.tcp, 1⟩ (.handshake ⟨"u", "k", "2"⟩), .deliver (.slave .tcp)]) = some s ∧
    s.Begins (.deliver .hubd) ⟨⟨.tcp, 1⟩, ⟨"u", "k", "2"⟩, 2⟩ ∧ s.step (.deliver .hubd) = some s₁ ∧
    node.exec s₁ closedMeanwhile = some s₂ ∧
    Failed ⟨⟨.tcp, 1⟩, ⟨"u", "k", "2"⟩, 2⟩ s₁ closedMeanwhile s₂ ∧
    ¬ s₂.NoTrace ⟨⟨.tcp, 1⟩, ⟨"u", "k", "2"⟩, 2⟩ ∧
    ∀ now, (s₂.hub.handshakeTimeout now).userMap.get "u" = some 2 := by
  have hrun : ∃ s ∈ node.exec opened (connecting .tcp ++ [Action.access "u" "k" "1" 0] ++
      [Action.data ⟨.tcp, 1⟩ (.handshake ⟨"u", "k", "2"⟩), .deliver (.slave .tcp)]),
      s.Begins (.deliver .hubd) ⟨⟨.tcp, 1⟩, ⟨"u", "k", "2"⟩, 2⟩ ∧
      ∃ s₁ ∈ s.step (.deliver .hubd), ∃ s₂ ∈ node.exec s₁ closedMeanwhile,
        Failed ⟨⟨.tcp, 1⟩, ⟨"u", "k", "2"⟩, 2⟩ s₁ closedMeanwhile s₂ ∧
        s₂.hub.userMap.get "u" = some 2 ∧
        s₂.hub.users.get 2 = some ⟨⟨"u", "k", "1", 2⟩, some ⟨⟨.tcp, 1⟩, "10.0.0.1:5000"⟩,
          some ⟨.tcp, 2⟩, 0⟩ := by
    decide +kernel
  obtain ⟨s, hs, hbegins, s₁, hs₁, s₂, hs₂, hfailed, hmap, huser⟩ := hrun
  refine ⟨s, s₁, s₂, hs, hbegins, hs₁, hs₂, hfailed, fun hno => ?_, fun now => ?_⟩
  · obtain ⟨user, huser', hnone, -⟩ := hno.record
    obtain rfl := Option.some.inj (huser.symm.trans huser')
    cases hnone
  · exact (Hub.handshakeTimeout_timesOut s₂.hub now).kept "u" 2 _ hmap huser (.inl (by simp))

/-! ## A reconnect -/

/-- The coroutine of a reconnect leaves the tables of `hubd` as they are up to its last step. -/
theorem reconnect_leaves_hub {h : Hub} {fd : Fd} {args : HandshakeArgs} {subid : Nat} {user : User}
    {old : HubConn} (hv : h.verdict fd args = .reconnect subid user old) (co : HandshakeCo)
    (role : Nat) : (h.handshake fd args).1 = h ∧ (h.registerRet co role false).1 = h := by
  refine ⟨?_, rfl⟩
  rw [Hub.handshake, hv]

end Sys

end AntServer.Game
