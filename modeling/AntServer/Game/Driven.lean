/-
# AntServer.Game.Driven — whose requests an agent carries out

`dispatch` of `lualib/service/client.lua` compares the socket of a request with `_fd`, and `_fd` is what the
last `start` has put there: `Commands:logout` leaves it as it is. So a request of a connection whose logout
the agent has handled is carried out as before, until the next `start`. The gate goes on redirecting to the
agent until the answer of the `logout` call has come back to `close_agent`, and the logout itself has a
shorter way, by `hubd`. A request is also forked, and `join` or `born` wait for other services: such a handler
goes on when its answer comes, whatever the agent has handled since.

A `Driven` node is a node with two ghosts: the session to which an agent is bound, from a `start` to the
next `logout`, and the handlers that wait. Whether an agent has a handler of the name is left open: what
`dispatch` does not refuse counts as carried out.
-/
import AntServer.Game.Reaction
import AntServer.Game.Tables

namespace AntServer.Game

open Lib (Table)
open Lib.Mailbox (view queue Meets)

/-! ## What an agent is driven by -/

/-- The connection that `hubd` has in a record of the account is the one of the session. -/
def Hub.Owns (h : Hub) (session : Session) : Prop :=
  ∃ r user, h.users.get r = some user ∧ user.token.uid = session.openid ∧
    user.conn.map HubConn.fd = some session.fd

/-- The agent to which a gate redirects a request, and the socket of the request. -/
def Msg.redirected : Msg → Option (AgentAddr × Fd)
  | agentClient agent fd _ => some (agent, fd)
  | _ => none

/-- The agent that is told to log out. -/
def Msg.releasing : Msg → Option AgentAddr
  | agentLogout agent => some agent
  | _ => none

/-- A request that an agent carries out: the socket it came from, and the account of the last `start`. -/
structure Handler where
  agent : AgentAddr
  fd : Fd
  openid : String
  deriving DecidableEq, Repr

/-- `dispatch`: the request that an agent carries out in a step. -/
def Sys.executes (s : Sys) (a : Action) : Option Handler :=
  match s.handled a with
  | some (.agentClient agent fd _) =>
    (s.agents.get agent).bind fun ag =>
      if agent ∉ s.killed ∧ ag.fd = fd then some ⟨agent, fd, ag.session.openid⟩ else none
  | _ => none

/-- `_fd` of an agent, and the session of its last `start` as long as no `logout` has come since. -/
structure Binding where
  fd : Option Fd
  session : Option Session
  deriving DecidableEq, Repr

namespace Binding

/-- What a message to the agent does to them. -/
def after (b : Binding) : Msg → Binding
  | .agentStart _ session _ => { fd := some session.fd, session := some session }
  | .agentLogout _ => { b with session := none }
  | _ => b

/-- A request that passes the check of `dispatch` finds the agent bound. -/
def Ready (b : Binding) (m : Msg) : Prop :=
  ∀ x ∈ m.redirected, b.fd = some x.2 → b.session ≠ none

instance (b : Binding) (m : Msg) : Decidable (b.Ready m) := by
  unfold Ready
  infer_instance

end Binding

/-! ## The node with its handlers -/

/-- A node, the sessions its agents are bound to, and the handlers that wait. -/
structure Driven where
  sys : Sys
  bound : AgentAddr → Option Session
  running : List Handler

/-- The node takes a step, or a handler that has waited goes on. A handler may wait (`blocks`) or not. -/
inductive DrivenAction where
  | act (a : Action) (blocks : Bool)
  | resume (i : Nat) (blocks : Bool)
  deriving DecidableEq, Repr

namespace Driven

/-- What a step does to the sessions the agents are bound to; what is sent to a killed agent is lost. -/
def rebind (d : Driven) (a : Action) : AgentAddr → Option Session :=
  match d.sys.handled a with
  | some (.agentStart agent session _) =>
    if agent ∈ d.sys.killed then d.bound else Function.update d.bound agent (some session)
  | some (.agentLogout agent) =>
    if agent ∈ d.sys.killed then d.bound else Function.update d.bound agent none
  | _ => d.bound

def step (d : Driven) : DrivenAction → Option Driven
  | .act a blocks =>
    (d.sys.step a).map fun sys =>
      { sys := sys
        bound := d.rebind a
        running := d.running ++ if blocks then (d.sys.executes a).toList else [] }
  | .resume i blocks =>
    match d.running[i]? with
    | some h =>
      if h.agent ∈ d.sys.killed then none
      else some { d with running := if blocks then d.running else d.running.eraseIdx i }
    | none => none

end Driven

/-- The runs of a node with its handlers. -/
def drivenNode : Lib.Machine Driven DrivenAction where
  start d := node.start d.sys ∧ d.bound = (fun _ => none) ∧ d.running = []
  step := Driven.step

namespace Driven

/-! ## The condition -/

/-- What a step carries out comes from the user to whom the agent is bound: a request from the
connection of the session, which is the one of a record of the account, and a handler that goes on is
one of the account. -/
def Drives (d : Driven) : DrivenAction → Prop
  | .act a _ => ∀ h, d.sys.executes a = some h →
      ∃ session, d.bound h.agent = some session ∧ session.fd = h.fd ∧ d.sys.hub.Owns session
  | .resume i _ => ∀ h, d.running[i]? = some h →
      ∃ session, d.bound h.agent = some session ∧ session.openid = h.openid

/-- What the messages to an agent go by. -/
def binding (d : Driven) (agent : AgentAddr) : Binding where
  fd := (d.sys.agents.get agent).map Agent.fd
  session := d.bound agent

/-- What a message to an agent that is sent now will find, behind those that are on their way. -/
def awaits (d : Driven) (agent : AgentAddr) : Binding :=
  (queue Msg.dst (.agent agent) d.sys.net).foldl Binding.after (d.binding agent)

/-- A request that is redirected in a step will find its agent bound. -/
def Timely (d : Driven) : Action → Prop
  | .data fd req => ∀ m ∈ (d.sys.gates fd.gate).message fd req, ∀ x ∈ m.redirected,
      (d.awaits x.1).Ready m
  | _ => True

/-- No handler of a living agent waits at its `logout`, and none of another account at its `start`. -/
def Settled (d : Driven) (m : Msg) : Prop :=
  (∀ agent ∈ m.releasing, agent ∉ d.sys.killed → ∀ h ∈ d.running, h.agent ≠ agent) ∧
    ∀ x ∈ m.starting, x.1 ∉ d.sys.killed → ∀ h ∈ d.running, h.agent = x.1 → h.openid = x.2

/-- No request is redirected to an agent that by then will have handled a `logout` and no `start` since,
and the handlers that wait are over when the user of an agent changes. -/
def Orderly (d : Driven) : DrivenAction → Prop
  | .act a _ => d.Timely a ∧ ∀ m ∈ d.sys.handled a, d.Settled m
  | .resume _ _ => True

instance (d : Driven) : (a : Action) → Decidable (d.Timely a)
  | .data fd req => inferInstanceAs (Decidable (∀ m ∈ (d.sys.gates fd.gate).message fd req,
      ∀ x ∈ m.redirected, (d.awaits x.1).Ready m))
  | .deliver _ | .resume _ _ | .connect _ _ | .disconnect _ | .access _ _ _ _ | .loginKick _ | .sweep _ =>
    isTrue trivial

instance (d : Driven) (m : Msg) : Decidable (d.Settled m) := by
  unfold Settled
  infer_instance

instance (d : Driven) : (a : DrivenAction) → Decidable (d.Orderly a)
  | .act a _ => inferInstanceAs (Decidable (d.Timely a ∧ ∀ m ∈ d.sys.handled a, d.Settled m))
  | .resume _ _ => isTrue trivial

end Driven

namespace Sys

/-! ## The session of an agent is one of `hubd` -/

/-- An agent after a step is as before, or it has handled a `start`. -/
theorem step_agent {s s' : Sys} {a : Action} (h : s.step a = some s') (agent : AgentAddr) :
    (s'.agents.get agent = s.agents.get agent ∧
      ∀ session co, s.handled a = some (.agentStart agent session co) → agent ∈ s.killed) ∨
    ∃ session co, s.handled a = some (.agentStart agent session co) ∧ agent ∉ s.killed ∧
      s'.agents.get agent = some { fd := session.fd, session := session } := by
  by_cases hstart : ∃ session co, s.handled a = some (.agentStart agent session co)
  · obtain ⟨session, co, hm⟩ := hstart
    obtain ⟨rest, answer, -, rfl⟩ := step_message h hm
    by_cases hk : agent ∈ s.killed
    · refine .inl ⟨?_, fun _ _ _ => hk⟩
      simp only [react, if_pos hk]
    · refine .inr ⟨session, co, hm, hk, ?_⟩
      simp only [react, if_neg hk]
      exact Table.get_set_self _ _ _
  · refine .inl ⟨(step_agents h agent).resolve_right hstart, fun session co hm => ?_⟩
    exact absurd ⟨session, co, hm⟩ hstart

/-- A killed agent stays killed. -/
theorem killed_step {s s' : Sys} {a : Action} (h : s.step a = some s') {agent : AgentAddr}
    (hk : agent ∈ s.killed) : agent ∈ s'.killed := by
  cases step_cases h with
  | @message _ m rest answer hm hperm =>
    cases m with
    | poolRecycle agent' =>
      simp only [react]
      split
      · exact List.mem_cons_of_mem _ hk
      · exact hk
    | agentStart agent' session co | agentLogout agent' =>
      simp only [react]
      split <;> exact hk
    | spawn protocol co | expand protocol co agent' i => cases answer <;> exact hk
    | load agent' co | save agent' =>
      cases answer with
      | none => exact hk
      | some n =>
        simp only [react]
        split <;> exact hk
    | _ => exact hk
  | _ => exact hk

theorem owns_step {s s' : Sys} {a : Action} (hr : node.Reach s) (h : s.step a = some s')
    {session : Session} (ho : s.hub.Owns session) : s'.hub.Owns session := by
  obtain ⟨r, user, huser, huid, hfd⟩ := ho
  obtain ⟨user', huser', htoken, hconn, -⟩ := hub_recorded (reach_formed hr).hub (step_hub h) huser
  refine ⟨r, user', huser', by rw [htoken, huid], ?_⟩
  rcases hconn with hconn | hnone
  · rw [hconn, hfd]
  · rw [hnone] at hfd
    cases hfd

/-- A handshake that waits for an agent has a record of its uid, and a `start` that is on its way or has
been handled is for the connection of a record of its account. -/
structure Issued (s : Sys) : Prop where
  waiting : ∀ co ∈ view Msg.getting s.net, ∃ user, s.hub.users.get co.user = some user ∧
    user.token.uid = co.args.uid
  started : ∀ agent session co, .agentStart agent session co ∈ s.net → s.hub.Owns session
  kept : ∀ agent ag, s.agents.get agent = some ag → ag.fd = ag.session.fd ∧ s.hub.Owns ag.session

theorem init_issued (warm : Warm) (maxclient : Protocol → Nat) : Issued (Sys.init warm maxclient) where
  waiting co hco := absurd hco List.not_mem_nil
  started agent session co hm := absurd hm List.not_mem_nil
  kept agent ag hag := by
    rw [show (Sys.init warm maxclient).agents.get agent = none from Table.get_empty agent] at hag
    cases hag

/-- A handshake that a step leaves waiting has waited before, or begins as a first login. -/
theorem getting_step {s s' : Sys} {a : Action} (h : s.step a = some s') {co : HandshakeCo}
    (hco : co ∈ view Msg.getting s'.net) : co ∈ view Msg.getting s.net ∨
      ∃ fd args subid user conn, s.hub.verdict fd args = .firstLogin subid user conn ∧
        co = ⟨fd, args, subid⟩ := by
  obtain ⟨x, hx, hget⟩ := Lib.Mailbox.mem_view.mp hco
  rcases step_net h hx with hx | harrives | ⟨m, -, hm, hsends⟩
  · exact .inl (Lib.Mailbox.mem_view.mpr ⟨x, hx, hget⟩)
  · cases harrives <;> cases hget
  · have hwaits : m.getting = some co → co ∈ view Msg.getting s.net :=
      fun hg => Lib.Mailbox.mem_view.mpr ⟨m, hm, hg⟩
    cases hsends with
    | get hv =>
      cases hget
      exact .inr ⟨_, _, _, _, _, hv, rfl⟩
    | mgrGet | mgrGetRet | got | spawn | spawned | expand | expanded =>
      cases hget
      exact .inl (hwaits rfl)
    | _ => cases hget

theorem issued_step {s s' : Sys} {a : Action} (hr : node.Reach s) (hi : Issued s)
    (h : s.step a = some s') : Issued s' := by
  have hok := (reach_formed hr).hub
  have hrecord : ∀ {r : Nat} {user : User}, s.hub.users.get r = some user →
      ∃ user', s'.hub.users.get r = some user' ∧ user'.token = user.token := by
    intro r user huser
    obtain ⟨user', huser', htoken, -, -⟩ := hub_recorded hok (step_hub h) huser
    exact ⟨user', huser', htoken⟩
  refine ⟨fun co hco => ?_, fun agent session co hin => ?_, fun agent ag hag => ?_⟩
  · have hown : ∃ user, s.hub.users.get co.user = some user ∧ user.token.uid = co.args.uid := by
      rcases getting_step h hco with hco | ⟨fd, args, subid, user, conn, hv, rfl⟩
      · exact hi.waiting co hco
      · obtain ⟨-, hmap, huser, -⟩ := Hub.verdict_firstLogin hv
        exact ⟨user, huser, hok.token hmap huser⟩
    obtain ⟨user, huser, huid⟩ := hown
    obtain ⟨user', huser', htoken⟩ := hrecord huser
    exact ⟨user', huser', by rw [htoken, huid]⟩
  · refine owns_step hr h ?_
    rcases step_net h hin with hin | harrives | ⟨m, -, hm, hsends⟩
    · exact hi.started agent session co hin
    · cases harrives
    · generalize hx : Msg.agentStart agent session co = x at hsends
      cases hsends with
      | @restart fd args subid user old agent' hv hagent =>
        obtain ⟨hmap, huser, hconn⟩ := Hub.verdict_reconnect hv
        cases hx
        exact ⟨subid, user, huser, hok.token hmap huser, by rw [hconn]; rfl⟩
      | @start co' agent' user conn huser hconn =>
        obtain ⟨user', huser', huid⟩ := hi.waiting co' (Lib.Mailbox.mem_view.mpr ⟨_, hm, rfl⟩)
        obtain rfl := Option.some.inj (huser.symm.trans huser')
        cases hx
        exact ⟨co.user, user, huser, huid, by rw [hconn]; rfl⟩
      | _ => cases hx
  · rcases step_agent h agent with ⟨hsame, -⟩ | ⟨session, co, hm, -, hnew⟩
    · obtain ⟨hfd, ho⟩ := hi.kept agent ag (hsame ▸ hag)
      exact ⟨hfd, owns_step hr h ho⟩
    · obtain rfl := Option.some.inj (hnew.symm.trans hag)
      exact ⟨rfl, owns_step hr h (hi.started agent session co (handled_mem h hm))⟩

theorem reach_issued {s : Sys} (h : node.Reach s) : Issued s :=
  h.invariant Issued (by rintro _ ⟨warm, maxclient, rfl⟩; exact init_issued warm maxclient)
    fun _ _ _ hr hi _ hs => issued_step hr hi hs

/-! ## The queue of an agent -/

/-- What a step does to the queue of an agent: it takes the head when it handles a message to the agent,
and a request comes behind the others only from a gate. -/
theorem step_queue {s s' : Sys} {a : Action} (h : s.step a = some s') (agent : AgentAddr) :
    ∃ rest outs, queue Msg.dst (.agent agent) s'.net = rest ++ outs ∧
      ((∃ m, s.handled a = some m ∧ m.dst = .agent agent ∧
          queue Msg.dst (.agent agent) s.net = m :: rest) ∨
        (∀ m, s.handled a = some m → m.dst ≠ .agent agent) ∧
          queue Msg.dst (.agent agent) s.net = rest) ∧
      ((∀ m ∈ outs, m.redirected = none) ∨ ∃ fd req, a = .data fd req ∧
        ∀ m ∈ outs, m.dst = .agent agent ∧ m ∈ (s.gates fd.gate).message fd req) := by
  have hsplit : ∀ net outs : List Msg, s'.net = net ++ outs →
      ∃ outs', queue Msg.dst (.agent agent) s'.net = queue Msg.dst (.agent agent) net ++ outs' ∧
        ∀ m ∈ outs', m.dst = .agent agent ∧ m ∈ outs := by
    intro net outs hnet
    refine ⟨queue Msg.dst (.agent agent) outs, by rw [hnet, Lib.Mailbox.queue_append], fun m hm => ?_⟩
    obtain ⟨hm, hdst⟩ := List.mem_filter.mp hm
    exact ⟨of_decide_eq_true hdst, hm⟩
  cases hact : a with
  | deliver d =>
    subst hact
    simp only [step] at h
    split at h
    · cases h
    · obtain ⟨⟨m, rest⟩, hnext, rfl⟩ := Option.map_eq_some_iff.mp h
      obtain ⟨outs, hnet, hout⟩ := react_net s rest none m
      obtain ⟨outs', hqueue, hsub⟩ := hsplit rest outs hnet
      have hm : s.handled (.deliver d) = some m := by rw [handled, hnext]; rfl
      obtain ⟨hself, hother⟩ := Lib.Mailbox.queue_take hnext
      refine ⟨_, outs', hqueue, ?_, .inl fun x hx => ?_⟩
      · by_cases hd : d = .agent agent
        · subst hd
          exact .inl ⟨m, hm, Lib.Mailbox.take_dst hnext, hself⟩
        · refine .inr ⟨fun m' hm' => ?_, hother _ (Ne.symm hd)⟩
          obtain rfl := Option.some.inj (hm.symm.trans hm')
          rw [Lib.Mailbox.take_dst hnext]
          exact hd
      · cases hout.sends x (hsub x hx).2 <;> rfl
  | resume m answer =>
    subst hact
    simp only [step] at h
    split at h
    · rename_i hm
      obtain rfl := Option.some.inj h
      obtain ⟨outs, hnet, hout⟩ := react_net s (s.net.erase m) answer m
      obtain ⟨outs', hqueue, hsub⟩ := hsplit _ outs hnet
      have hdst : m.dst ≠ .agent agent := by rw [hm.1]; simp
      refine ⟨_, outs', hqueue, .inr ⟨fun m' hm' => ?_, ?_⟩, .inl fun x hx => ?_⟩
      · obtain rfl := Option.some.inj hm'
        exact hdst
      · exact (Lib.Mailbox.queue_erase hdst s.net).symm
      · cases hout.sends x (hsub x hx).2 <;> rfl
    · cases h
  | data fd req =>
    subst hact
    simp only [step] at h
    split at h
    · obtain rfl := Option.some.inj h
      obtain ⟨outs', hqueue, hsub⟩ := hsplit s.net _ rfl
      exact ⟨_, outs', hqueue, .inr ⟨fun m hm => (by cases hm), rfl⟩, .inr ⟨fd, req, rfl, hsub⟩⟩
    · cases h
  | _ =>
    subst hact
    obtain ⟨net, outs, hnet, ⟨hnone, rfl, hout⟩ | ⟨m, hm, -⟩⟩ := step_outs h
    · obtain ⟨outs', hqueue, hsub⟩ := hsplit s.net outs hnet
      refine ⟨_, outs', hqueue, .inr ⟨fun m hm => ?_, rfl⟩, .inl fun x hx => ?_⟩
      · rw [hnone] at hm
        cases hm
      · cases hout x (hsub x hx).2 <;> rfl
    · cases hm

end Sys

/-! ## The invariant -/

namespace Driven

/-- The session an agent is bound to is that of its last `start`; every request on its way to a living
agent will find it bound; and a handler of a living agent waits for the account it is bound to. -/
structure Attended (d : Driven) : Prop where
  reach : node.Reach d.sys
  session : ∀ agent session, d.bound agent = some session →
    d.sys.agents.get agent = some { fd := session.fd, session := session }
  ready : ∀ agent, agent ∉ d.sys.killed →
    Meets Binding.after Binding.Ready (d.binding agent) (queue Msg.dst (.agent agent) d.sys.net)
  running : ∀ h ∈ d.running, h.agent ∉ d.sys.killed →
    ∃ session, d.bound h.agent = some session ∧ session.openid = h.openid

/-- A message to an agent does to its binding what `after` says, and other messages do nothing. -/
theorem bound_handled (d : Driven) {a : Action} {m : Msg} (hm : d.sys.handled a = some m)
    {agent : AgentAddr} (hdst : m.dst = .agent agent) (hk : agent ∉ d.sys.killed) :
    d.rebind a agent = ((d.binding agent).after m).session := by
  unfold rebind
  rw [hm]
  cases m <;> cases hdst
  · simp only [if_neg hk, Function.update_self, Binding.after]
  · simp only [if_neg hk, Function.update_self, Binding.after]
  · rfl

theorem bound_other (d : Driven) {a : Action} {agent : AgentAddr}
    (hother : ∀ m, d.sys.handled a = some m → m.dst ≠ .agent agent) : d.rebind a agent = d.bound agent := by
  unfold rebind
  cases hm : d.sys.handled a with
  | none => rfl
  | some m =>
    cases m with
    | agentStart agent' session co =>
      have hne : agent ≠ agent' := fun he => hother _ hm (by rw [he]; rfl)
      simp only
      split
      · rfl
      · rw [Function.update_of_ne hne]
    | agentLogout agent' =>
      have hne : agent ≠ agent' := fun he => hother _ hm (by rw [he]; rfl)
      simp only
      split
      · rfl
      · rw [Function.update_of_ne hne]
    | _ => rfl

/-- An agent that has a session after a step had it before, or has handled the `start` for it. -/
theorem rebind_some (d : Driven) {a : Action} {agent : AgentAddr} {session : Session}
    (h : d.rebind a agent = some session) : d.bound agent = some session ∨
      ∃ co, d.sys.handled a = some (.agentStart agent session co) ∧ agent ∉ d.sys.killed := by
  by_cases hdst : ∃ m, d.sys.handled a = some m ∧ m.dst = .agent agent
  · obtain ⟨m, hm, hdst⟩ := hdst
    by_cases hk : agent ∈ d.sys.killed
    · refine .inl ?_
      unfold rebind at h
      rw [hm] at h
      cases m <;> cases hdst <;> simpa only [if_pos hk] using h
    · rw [d.bound_handled hm hdst hk] at h
      cases m <;> cases hdst
      · obtain rfl := Option.some.inj h
        exact .inr ⟨_, hm, hk⟩
      · cases h
      · exact .inl h
  · rw [d.bound_other fun m hm hd => hdst ⟨m, hm, hd⟩] at h
    exact .inl h

/-- What the messages to a living agent go by, after a step. -/
theorem binding_act (d : Driven) {a : Action} {sys : Sys} (hs : d.sys.step a = some sys)
    {agent : AgentAddr} (hk : agent ∉ d.sys.killed) {running : List Handler} :
    (∀ m, d.sys.handled a = some m → m.dst = .agent agent →
      (⟨sys, d.rebind a, running⟩ : Driven).binding agent = (d.binding agent).after m) ∧
    ((∀ m, d.sys.handled a = some m → m.dst ≠ .agent agent) →
      (⟨sys, d.rebind a, running⟩ : Driven).binding agent = d.binding agent) := by
  refine ⟨fun m hm hdst => ?_, fun hother => ?_⟩
  · have hbound := d.bound_handled hm hdst hk
    have hfd : (sys.agents.get agent).map Agent.fd = ((d.binding agent).after m).fd := by
      rcases Sys.step_agent hs agent with ⟨hsame, hdead⟩ | ⟨session, co, hm', -, hnew⟩
      · rw [hsame]
        cases m <;> cases hdst
        · exact absurd (hdead _ _ hm) hk
        · rfl
        · rfl
      · obtain rfl := Option.some.inj (hm.symm.trans hm')
        rw [hnew]
        rfl
    show Binding.mk ((sys.agents.get agent).map Agent.fd) (d.rebind a agent) = _
    rw [hfd, hbound]
  · have hsame : sys.agents.get agent = d.sys.agents.get agent := by
      rcases Sys.step_agent hs agent with ⟨hsame, -⟩ | ⟨session, co, hm, -⟩
      · exact hsame
      · exact absurd rfl (hother _ hm)
    show Binding.mk ((sys.agents.get agent).map Agent.fd) (d.rebind a agent) = d.binding agent
    rw [d.bound_other hother, hsame]
    rfl

/-- The agent that carries out a request is bound to the session of the request's socket. -/
theorem Attended.carriesOut {d : Driven} (hd : Attended d) {a : Action} {sys : Sys}
    (hs : d.sys.step a = some sys) {h : Handler} (hx : d.sys.executes a = some h) :
    ∃ session req, d.sys.handled a = some (.agentClient h.agent h.fd req) ∧ h.agent ∉ d.sys.killed ∧
      d.bound h.agent = some session ∧ session.fd = h.fd ∧ session.openid = h.openid := by
  unfold Sys.executes at hx
  split at hx
  · rename_i agent fd req hm
    obtain ⟨ag, hag, hx⟩ := Option.bind_eq_some_iff.mp hx
    split at hx
    · rename_i hcheck
      obtain ⟨hk, hfd⟩ := hcheck
      obtain rfl := Option.some.inj hx
      -- the request is the head of the agent's queue
      obtain ⟨rest, outs, -, hqueue, -⟩ := Sys.step_queue hs agent
      have hready : (d.binding agent).Ready (.agentClient agent fd req) := by
        rcases hqueue with ⟨m, hm', -, hqueue⟩ | ⟨hother, -⟩
        · obtain rfl := Option.some.inj (hm.symm.trans hm')
          have hmeets := hd.ready agent hk
          rw [hqueue] at hmeets
          exact hmeets.1
        · exact absurd rfl (hother _ hm)
      have hbound : d.bound agent ≠ none :=
        hready (agent, fd) rfl (by simp only [binding, hag, Option.map_some, hfd])
      obtain ⟨session, hsession⟩ := Option.ne_none_iff_exists'.mp hbound
      have hsame := hd.session agent session hsession
      rw [hag] at hsame
      obtain rfl := Option.some.inj hsame
      exact ⟨session, req, hm, hk, hsession, hfd, rfl⟩
    · cases hx
  · cases hx

theorem Attended.act {d : Driven} (hd : Attended d) {a : Action} {blocks : Bool}
    (hg : d.Orderly (.act a blocks)) {sys : Sys} (hs : d.sys.step a = some sys) :
    Attended ⟨sys, d.rebind a, d.running ++ if blocks then (d.sys.executes a).toList else []⟩ := by
  have halive : ∀ {agent}, agent ∉ sys.killed → agent ∉ d.sys.killed :=
    fun hk hdead => hk (Sys.killed_step hs hdead)
  refine ⟨.step hd.reach trivial hs, fun agent session hsession => ?_, fun agent hk => ?_, fun h hin hk => ?_⟩
  · rcases Sys.step_agent hs agent with ⟨hsame, hdead⟩ | ⟨session', co, hm, hk, hnew⟩
    · rcases d.rebind_some hsession with hbound | ⟨co, hm, hk⟩
      · exact hsame.trans (hd.session agent session hbound)
      · exact absurd (hdead _ _ hm) hk
    · have hbound := d.bound_handled hm rfl hk
      obtain rfl := Option.some.inj (hsession.symm.trans hbound)
      exact hnew
  · have hk := halive hk
    obtain ⟨hown, hother⟩ := d.binding_act hs hk
    obtain ⟨rest, outs, hqueue', hqueue, hout⟩ := Sys.step_queue hs agent
    have hmeets := hd.ready agent hk
    rw [hqueue', Lib.Mailbox.meets_append]
    constructor
    · rcases hqueue with ⟨m, hm, hdst, hqueue⟩ | ⟨hno, hqueue⟩
      · rw [hqueue] at hmeets
        rw [hown m hm hdst]
        exact hmeets.2
      · rw [hqueue] at hmeets
        rw [hother hno]
        exact hmeets
    · rcases hout with hnone | ⟨fd, req, rfl, hsent⟩
      · refine Lib.Mailbox.meets_of_forall fun m hm b x hx => ?_
        rw [hnone m hm] at hx
        cases hx
      · refine Lib.Mailbox.meets_of_still fun m hm => ?_
        obtain ⟨hdst, hm⟩ := hsent m hm
        obtain ⟨c, -, ⟨user, -, rfl⟩ | ⟨-, rfl⟩⟩ := Gate.message_sends hm
        · obtain rfl : user.agent = agent := by simpa [Msg.dst] using hdst
          have hrest : queue Msg.dst (.agent user.agent) d.sys.net = rest := by
            rcases hqueue with ⟨m', hm', -⟩ | ⟨-, hqueue⟩
            · cases hm'
            · exact hqueue
          have hready := hg.1 _ hm _ rfl
          unfold awaits at hready
          rw [hrest] at hready
          rw [hother fun m hm => by cases hm]
          exact ⟨hready, rfl⟩
        · cases hdst
  · have hk := halive hk
    rcases List.mem_append.mp hin with hin | hin
    · obtain ⟨session, hsession, hopenid⟩ := hd.running h hin hk
      show ∃ session, d.rebind a h.agent = some session ∧ _
      by_cases hdst : ∃ m, d.sys.handled a = some m ∧ m.dst = .agent h.agent
      · obtain ⟨m, hm, hdst⟩ := hdst
        obtain ⟨hlogout, hstart⟩ := hg.2 m hm
        rw [d.bound_handled hm hdst hk]
        cases m <;> cases hdst
        · exact ⟨_, rfl, (hstart _ rfl hk h hin rfl).symm⟩
        · exact absurd rfl (hlogout _ rfl hk h hin)
        · exact ⟨session, hsession, hopenid⟩
      · rw [d.bound_other fun m hm hd => hdst ⟨m, hm, hd⟩]
        exact ⟨session, hsession, hopenid⟩
    · have hx : d.sys.executes a = some h := by
        cases blocks with
        | true => simpa using hin
        | false => cases hin
      obtain ⟨session, req, hm, -, hsession, -, hopenid⟩ := hd.carriesOut hs hx
      refine ⟨session, ?_, hopenid⟩
      show d.rebind a h.agent = _
      rw [d.bound_handled hm rfl hk]
      exact hsession

theorem Attended.resume {d d' : Driven} (hd : Attended d) {i : Nat} {blocks : Bool}
    (hs : d.step (.resume i blocks) = some d') : Attended d' := by
  simp only [step] at hs
  split at hs
  · split at hs
    · cases hs
    · obtain rfl := Option.some.inj hs
      refine ⟨hd.reach, hd.session, hd.ready, fun h hin hk => hd.running h ?_ hk⟩
      cases blocks with
      | true => exact hin
      | false => exact List.mem_of_mem_eraseIdx hin
  · cases hs

/-! ## Every run -/

theorem reach_attended {d : Driven} (h : drivenNode.ReachUnder Orderly d) : Attended d := by
  refine h.invariant Attended ?_ ?_
  · rintro ⟨sys, bound, running⟩ ⟨hstart, rfl, rfl⟩
    obtain ⟨warm, maxclient, rfl⟩ := id hstart
    exact ⟨.start hstart, fun _ _ h => (by cases h), fun _ _ => trivial, fun _ hin => (by cases hin)⟩
  · intro d a d' _ hd hg hs
    cases a with
    | act a blocks =>
      obtain ⟨sys, hsys, rfl⟩ := Option.map_eq_some_iff.mp hs
      exact hd.act hg hsys
    | resume i blocks => exact hd.resume hs

/-- In an orderly run an agent carries out nothing for a user it is not bound to. -/
theorem drives_of_orderly (d d' : Driven) (a : DrivenAction) (h : drivenNode.ReachUnder Orderly d)
    (hs : d.step a = some d') : d.Drives a := by
  have hd := reach_attended h
  cases a with
  | act a blocks =>
    obtain ⟨sys, hsys, rfl⟩ := Option.map_eq_some_iff.mp hs
    intro h hx
    obtain ⟨session, req, -, -, hsession, hfd, -⟩ := hd.carriesOut hsys hx
    refine ⟨session, hsession, hfd, ?_⟩
    exact ((Sys.reach_issued hd.reach).kept _ _ (hd.session _ _ hsession)).2
  | resume i blocks =>
    intro h hx
    have hin : h ∈ d.running := List.mem_of_getElem? hx
    refine hd.running h hin fun hk => ?_
    simp only [step, hx, if_pos hk] at hs
    cases hs

/-- A node that has just started. -/
def opened : Driven := { sys := Game.opened, bound := fun _ => none, running := [] }

theorem opened_start : drivenNode.start opened := ⟨Game.opened_start, rfl, rfl⟩

/-- A player connects and logs in. -/
def entering : List DrivenAction :=
  (connecting .tcp ++ [Action.access "u" "k" "1" 0] ++
    loggingIn ⟨.tcp, 1⟩ ⟨"u", "k", "2"⟩ ⟨.tcp, 2⟩ 2).map (.act · false)

/-- The player asks for a battle. The handler waits for the answer of the battle server and goes on. -/
theorem drives_of_orderly_join :
    ∃ d d', drivenNode.exec opened
        (entering ++ [DrivenAction.act (.data ⟨.tcp, 1⟩ (.other "join")) false,
          .act (.deliver (.agent ⟨.tcp, 2⟩)) true]) = some d ∧
      d.step (.resume 0 false) = some d' ∧ d.running = [⟨⟨.tcp, 2⟩, ⟨.tcp, 1⟩, "u"⟩] ∧
      d.Drives (.resume 0 false) := by
  have hrun : ∃ d ∈ drivenNode.execWhile (fun d a => decide (Orderly d a)) opened
      (entering ++ [DrivenAction.act (.data ⟨.tcp, 1⟩ (.other "join")) false,
        .act (.deliver (.agent ⟨.tcp, 2⟩)) true]),
      d.running = [⟨⟨.tcp, 2⟩, ⟨.tcp, 1⟩, "u"⟩] ∧ (d.step (.resume 0 false)).isSome := by
    decide +kernel
  obtain ⟨d, hd, hrunning, hstep⟩ := hrun
  obtain ⟨d', hd'⟩ := Option.isSome_iff_exists.mp hstep
  exact ⟨d, d', Lib.Machine.exec_of_execWhile hd, hd', hrunning, drives_of_orderly d d' _
    (Lib.Machine.ReachUnder.execWhile (fun _ _ h => of_decide_eq_true h) (.start opened_start) hd) hd'⟩

/-- The login node kicks a player. The agent has handled the logout and saved, and the answer of the
logout has not reached the gate: a request that the player sends now is carried out. -/
theorem not_drives_kicked :
    ¬ ∀ d d' a, drivenNode.Reach d → d.step a = some d' → d.Drives a := by
  intro h
  have hrun : ∃ d ∈ drivenNode.exec opened
      (entering ++ ([Action.loginKick "u", .deliver (.gate .tcp), .deliver (.slave .tcp), .deliver .hubd,
        .deliver (.agent ⟨.tcp, 2⟩), .resume (.save ⟨.tcp, 2⟩) (some 1),
        .data ⟨.tcp, 1⟩ (.other "join")] : List Action).map (.act · false)),
      d.sys.executes (.deliver (.agent ⟨.tcp, 2⟩)) = some ⟨⟨.tcp, 2⟩, ⟨.tcp, 1⟩, "u"⟩ ∧
        d.bound ⟨.tcp, 2⟩ = none ∧ (d.step (.act (.deliver (.agent ⟨.tcp, 2⟩)) false)).isSome := by
    decide +kernel
  obtain ⟨d, hd, hexec, hbound, hstep⟩ := hrun
  obtain ⟨d', hd'⟩ := Option.isSome_iff_exists.mp hstep
  obtain ⟨session, hsession, -⟩ :=
    h d d' _ (Lib.Machine.Reach.exec (.start opened_start) hd) hd' _ hexec
  rw [hbound] at hsession
  cases hsession

end Driven

end AntServer.Game
