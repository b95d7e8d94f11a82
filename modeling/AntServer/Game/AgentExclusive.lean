/-
# AntServer.Game.AgentExclusive — an agent is in its pool or bound to one user

The two pools are lessors (`Lib.Lease`): what is in `pool` is free, what `CMD.get` has handed out is
leased, and the agents whose `logout` or `recycle` is on its way, anywhere between a gate and the
pool, are returning. Every operation of the node is one of the operations of a lessor or changes none
of the three.

Nothing in the code keeps an agent from being asked back twice. `close_agent` clears `connection[fd]`
only after its `logout` call has returned, so a kick and the close event of the socket both send a
`logout`; and two connections may carry one agent. A run in which this does not happen is
`FreshClose`.
-/
import AntServer.Game.System
import AntServer.Lib.Lease

namespace AntServer.Game

namespace Sys

/-! ## Agents that are lent -/

/-- The agents whose logout or recycle is on its way. -/
def returns (net : List Msg) : List AgentAddr := Lib.Mailbox.view Msg.returning net

theorem returns_append (net net' : List Msg) : returns (net ++ net') = returns net ++ returns net' :=
  Lib.Mailbox.view_append _ _ _

theorem returns_cons (m : Msg) (net : List Msg) :
    returns (m :: net) = m.returning.toList ++ returns net := Lib.Mailbox.view_cons _ _ _

/-- The agent slave of a protocol as a lessor. -/
def lessor (s : Sys) (p : Protocol) : Lib.Lease AgentAddr where
  free := (s.pools p).pool
  leased := (s.pools p).bound.map Prod.fst
  returning := (returns s.net).filter (·.protocol = p)

/-- Agent exclusivity: every agent of a slave is in its pool, once, or bound to one user. -/
structure AgentsExclusive (s : Sys) : Prop where
  once : ∀ p, (s.pools p).pool.Nodup
  apart : ∀ p, ∀ a ∈ (s.pools p).pool, ∀ uid, (a, uid) ∉ (s.pools p).bound
  oneUser : ∀ p, ((s.pools p).bound.map Prod.fst).Nodup
  somewhere : ∀ p, ∀ a ∈ (s.pools p).agentMap, a ∈ (s.pools p).pool ∨ ∃ uid, (a, uid) ∈ (s.pools p).bound
  /-- `CMD.get` returns no agent that is bound. -/
  handsOut : ∀ p a rest, Pool.remove (s.pools p).pool = some (a, rest) →
    ∀ uid, (a, uid) ∉ (s.pools p).bound

/-- Where a step runs `close_agent` with its `logout` on a connection with an agent, the agent is bound
and no logout or recycle of it is on its way. -/
def FreshClose (s : Sys) (a : Action) : Prop :=
  ∀ fd ∈ s.closes a, ∀ c ∈ (s.gates fd.gate).connection.get fd, ∀ user ∈ c.user,
    user.agent ∈ (s.pools user.agent.protocol).bound.map Prod.fst ∧ user.agent ∉ returns s.net

instance (s : Sys) (a : Action) : Decidable (FreshClose s a) := by
  unfold FreshClose
  infer_instance

/-! ## The invariant -/

structure Leased (s : Sys) : Prop where
  exclusive : ∀ p, (s.lessor p).Exclusive
  below : ∀ p, ∀ a, a ∈ (s.pools p).pool ∨ a ∈ (s.pools p).bound.map Prod.fst → a.id < s.nextAgent
  somewhere : ∀ p, ∀ a ∈ (s.pools p).agentMap,
    a ∈ (s.pools p).pool ∨ a ∈ (s.pools p).bound.map Prod.fst

theorem Leased.agentsExclusive {s : Sys} (h : Leased s) : AgentsExclusive s where
  once p := (h.exclusive p).free_nodup
  apart p a ha uid hb := (h.exclusive p).apart ha (List.mem_map.mpr ⟨_, hb, rfl⟩)
  oneUser p := (h.exclusive p).leased_nodup
  somewhere p a ha := (h.somewhere p a ha).imp id fun hb => by
    obtain ⟨⟨_, uid⟩, hmem, rfl⟩ := List.mem_map.mp hb
    exact ⟨uid, hmem⟩
  handsOut p a rest hr uid hb := by
    have hin : a ∈ (s.pools p).pool := by
      rw [Pool.remove_eq_some hr]
      exact List.mem_append_right _ List.mem_cons_self
    exact (h.exclusive p).apart hin (List.mem_map.mpr ⟨_, hb, rfl⟩)

/-- The invariant depends on the pools, the next address and what is returning, in any order. -/
theorem Leased.congr {s s' : Sys} (h : Leased s) (hp : s'.pools = s.pools)
    (hn : s'.nextAgent = s.nextAgent) (hr : (returns s.net).Perm (returns s'.net)) : Leased s' where
  exclusive p := (h.exclusive p).perm (by simp only [lessor, hp, List.Perm.refl])
    (by simp only [lessor, hp, List.Perm.refl]) (hr.filter _)
  below p a := by rw [hp, hn]; exact h.below p a
  somewhere p a := by rw [hp]; exact h.somewhere p a

theorem init_leased (warm : Warm) (maxclient : Protocol → Nat) : Leased (Sys.init warm maxclient) where
  exclusive p :=
    { nodup := by
        show (warm.agents p ++ []).Nodup
        rw [List.append_nil]
        exact warm.nodup p
      returnOnce := List.nodup_nil
      returnLeased := fun a ha => absurd ha List.not_mem_nil }
  below p a ha := ha.elim (warm.below p a) (fun hb => absurd hb List.not_mem_nil)
  somewhere p a ha := .inl ha

/-! ### The steps that change a pool -/

/-- An operation of one slave, as an operation of its lessor. -/
theorem Leased.setPool {s s' : Sys} {p : Protocol} {P : Pool} (h : Leased s)
    (hp : s'.pools = Function.update s.pools p P) (hn : s.nextAgent ≤ s'.nextAgent)
    (hx : (s'.lessor p).Exclusive)
    (hr : ∀ q, q ≠ p → ((returns s.net).filter (·.protocol = q)).Perm
      ((returns s'.net).filter (·.protocol = q)))
    (hb : ∀ a, a ∈ P.pool ∨ a ∈ P.bound.map Prod.fst → a.id < s'.nextAgent)
    (hs : ∀ a ∈ P.agentMap, a ∈ P.pool ∨ a ∈ P.bound.map Prod.fst) : Leased s' where
  exclusive q := by
    by_cases hq : q = p
    · exact hq ▸ hx
    · refine (h.exclusive q).perm ?_ ?_ (hr q hq) <;>
        simp only [lessor, hp, Function.update_of_ne hq, List.Perm.refl]
  below q a ha := by
    rw [hp] at ha
    by_cases hq : q = p
    · subst hq
      rw [Function.update_self] at ha
      exact hb a ha
    · rw [Function.update_of_ne hq] at ha
      exact (h.below q a ha).trans_le hn
  somewhere q a ha := by
    rw [hp] at ha ⊢
    by_cases hq : q = p
    · subst hq
      rw [Function.update_self] at ha ⊢
      exact hs a ha
    · rw [Function.update_of_ne hq] at ha ⊢
      exact h.somewhere q a ha

/-- A message that is not about a logout is handled, or one that is about a logout is passed on. -/
theorem Leased.pass {s s' : Sys} {m : Msg} {rest outs : List Msg} (h : Leased { s with net := m :: rest })
    (hp : s'.pools = s.pools) (hn : s'.nextAgent = s.nextAgent) (hnet : s'.net = rest ++ outs)
    (hm : m.returning.toList = returns outs) : Leased s' :=
  h.congr hp hn (hnet ▸ Lib.Mailbox.view_pass hm)

/-- The same when nothing that is sent is about a logout. -/
theorem Leased.quiet {s s' : Sys} {m : Msg} {rest outs : List Msg}
    (h : Leased { s with net := m :: rest }) (hp : s'.pools = s.pools) (hn : s'.nextAgent = s.nextAgent)
    (hnet : s'.net = rest ++ outs) (hm : m.returning = none) (hout : ∀ x ∈ outs, x.returning = none) :
    Leased s' :=
  h.pass hp hn hnet (by rw [hm, show returns outs = [] from Lib.Mailbox.view_eq_nil hout]; rfl)

/-- Something is sent that is not about a logout. -/
theorem Leased.send {s s' : Sys} {outs : List Msg} (h : Leased s) (hp : s'.pools = s.pools)
    (hn : s'.nextAgent = s.nextAgent) (hnet : s'.net = s.net ++ outs)
    (hout : ∀ x ∈ outs, x.returning = none) : Leased s' := by
  refine h.congr hp hn (List.Perm.of_eq ?_)
  rw [hnet, returns_append, show returns outs = [] from Lib.Mailbox.view_eq_nil hout, List.append_nil]

/-- An agent is asked back while it is bound and not on its way back. -/
theorem Leased.ask {s s' : Sys} {a : AgentAddr} (h : Leased s) (hp : s'.pools = s.pools)
    (hn : s'.nextAgent = s.nextAgent) (hr : (a :: returns s.net).Perm (returns s'.net))
    (ha : a ∈ (s.pools a.protocol).bound.map Prod.fst ∧ a ∉ returns s.net) : Leased s' where
  exclusive p := by
    have hfilter := hr.filter (·.protocol = p)
    by_cases hap : a.protocol = p
    · subst hap
      have hnot : a ∉ (returns s.net).filter (·.protocol = a.protocol) :=
        fun hm => ha.2 (List.mem_of_mem_filter hm)
      refine ((h.exclusive a.protocol).ask ha.1 hnot).perm ?_ ?_ ?_
      · simp only [lessor, hp, List.Perm.refl]
      · simp only [lessor, hp, List.Perm.refl]
      · rw [List.filter_cons_of_pos (by simp)] at hfilter
        exact hfilter
    · rw [List.filter_cons_of_neg (by simpa using hap)] at hfilter
      refine (h.exclusive p).perm ?_ ?_ hfilter <;> simp only [lessor, hp, List.Perm.refl]
  below p b := by rw [hp, hn]; exact h.below p b
  somewhere p b := by rw [hp]; exact h.somewhere p b

/-- An agent on its way back is lost there. -/
theorem Leased.lose {s s' : Sys} {a : AgentAddr} (h : Leased s) (hp : s'.pools = s.pools)
    (hn : s'.nextAgent = s.nextAgent) (hr : (returns s.net).Perm (a :: returns s'.net)) : Leased s' where
  exclusive p := by
    have hfilter := hr.filter (·.protocol = p)
    have hx := h.exclusive p
    by_cases hap : a.protocol = p
    · rw [List.filter_cons_of_pos (by simpa using hap)] at hfilter
      have hx' : (⟨(s.lessor p).free, (s.lessor p).leased,
          a :: (returns s'.net).filter (·.protocol = p)⟩ : Lib.Lease AgentAddr).Exclusive :=
        hx.perm (.refl _) (.refl _) hfilter
      refine hx'.lose.perm ?_ ?_ (.refl _) <;> simp only [lessor, hp, List.Perm.refl]
    · rw [List.filter_cons_of_neg (by simpa using hap)] at hfilter
      refine hx.perm ?_ ?_ hfilter <;> simp only [lessor, hp, List.Perm.refl]
  below p b := by rw [hp, hn]; exact h.below p b
  somewhere p b := by rw [hp]; exact h.somewhere p b

/-- A close that begins asks the agent of its connection back, under its guard. -/
theorem Leased.closeAgent {s s' : Sys} (h : Leased s) (g : Gate) {fd : Fd} {raw : Bool} (cause : Cause)
    (hg : g.connection = (s.gates fd.gate).connection) (hp : s'.pools = s.pools)
    (hn : s'.nextAgent = s.nextAgent) (hnet : s'.net = s.net ++ (g.closeAgent fd raw cause).2)
    (hfresh : raw = false → ∀ c ∈ (s.gates fd.gate).connection.get fd, ∀ user ∈ c.user,
      user.agent ∈ (s.pools user.agent.protocol).bound.map Prod.fst ∧ user.agent ∉ returns s.net) :
    Leased s' := by
  have hquiet : (g.closeAgent fd raw cause).2 = [] → Leased s' := fun hout =>
    h.congr hp hn (by rw [hnet, hout, List.append_nil])
  rcases g.closeAgent_cases fd raw cause with ⟨-, -, hout⟩ | ⟨c, hc, ⟨-, -, hout⟩ | ⟨hraw, -, hout⟩⟩
  · exact hquiet hout
  · exact hquiet hout
  · rw [hout] at hnet
    cases hu : c.user with
    | none =>
      refine h.send hp hn hnet fun x hx => ?_
      rw [List.mem_singleton.mp hx]
      simp only [Msg.returning, hu, Option.map_none]
    | some user =>
      have hr : (user.agent :: returns s.net).Perm (returns s'.net) := by
        have hview : returns [.slaveLogout c cause] = [user.agent] := by
          rw [returns_cons]
          simp only [Msg.returning, hu, Option.map_some]
          rfl
        rw [hnet, returns_append]
        exact hview ▸ (List.perm_append_singleton _ _).symm
      exact h.ask hp hn hr (hfresh hraw c (hg ▸ hc) user hu)

/-! ## The agent slaves -/

theorem leased_poolGet {s : Sys} {p : Protocol} {co : HandshakeCo} {rest : List Msg} (answer : Option Nat)
    (h : Leased { s with net := .poolGet p co :: rest }) :
    Leased ({ s with net := rest }.react answer (.poolGet p co)) := by
  have hx := h.exclusive p
  cases hr : Pool.remove (s.pools p).pool with
  | none =>
    have hget : (s.pools p).get p co = (s.pools p, [.spawn p co]) := by rw [Pool.get, hr]
    have hpools : (({ s with net := rest } : Sys).react answer (.poolGet p co)).pools = s.pools := by
      show Function.update s.pools p ((s.pools p).get p co).1 = s.pools
      rw [hget, Function.update_eq_self]
    have hnet : (({ s with net := rest } : Sys).react answer (.poolGet p co)).net = rest ++ [Msg.spawn p co] := by
      show rest ++ ((s.pools p).get p co).2 = _
      rw [hget]
    exact h.pass hpools rfl hnet rfl
  | some t =>
    obtain ⟨a, free⟩ := t
    have hpool := Pool.remove_eq_some hr
    have hget : (s.pools p).get p co =
        ({ s.pools p with pool := free, bound := (a, co.args.uid) :: (s.pools p).bound },
          [.mgrGetRet co a]) := by rw [Pool.get, hr]
    have hnet : (({ s with net := rest } : Sys).react answer (.poolGet p co)).net =
        rest ++ [Msg.mgrGetRet co a] := by
      show rest ++ ((s.pools p).get p co).2 = _
      rw [hget]
    have hpools : (({ s with net := rest } : Sys).react answer (.poolGet p co)).pools =
        Function.update s.pools p
          { s.pools p with pool := free, bound := (a, co.args.uid) :: (s.pools p).bound } := by
      show Function.update s.pools p ((s.pools p).get p co).1 = _
      rw [hget]
    have hreturns : returns (rest ++ [Msg.mgrGetRet co a]) = returns (.poolGet p co :: rest) := by
      rw [returns_append]
      exact List.append_nil _
    have hmem : ∀ b, b ∈ free ∨ b ∈ a :: (s.pools p).bound.map Prod.fst →
        b ∈ (s.pools p).pool ∨ b ∈ (s.pools p).bound.map Prod.fst := by
      intro b hb
      rw [hpool, List.mem_append, List.mem_singleton]
      simp only [List.mem_cons] at hb
      tauto
    refine h.setPool hpools (Nat.le_refl _) ?_ (fun q _ => ?_) (fun b hb => h.below p b (hmem b hb)) ?_
    · simp only [lessor, hpools, Function.update_self, hnet, hreturns, List.map_cons]
      refine Lib.Lease.Exclusive.lease ?_
      rw [← hpool]
      exact hx
    · rw [hnet, hreturns]
    · intro b hb
      have hb' := h.somewhere p b hb
      simp only [hpool, List.mem_append, List.mem_singleton] at hb'
      simp only [List.map_cons, List.mem_cons]
      tauto

/-- The address of a new agent is in no pool and bound to nobody. -/
theorem Leased.newAgent_fresh {s : Sys} (h : Leased s) (p : Protocol) :
    s.newAgent p ∉ (s.pools p).pool ∧ s.newAgent p ∉ (s.pools p).bound.map Prod.fst :=
  ⟨fun hf => (h.below p _ (.inl hf)).false, fun hb => (h.below p _ (.inr hb)).false⟩

theorem leased_spawned {s : Sys} {p : Protocol} {co : HandshakeCo} {rest : List Msg} {n : Nat}
    (h : Leased { s with net := .spawn p co :: rest }) :
    Leased ({ s with net := rest }.react (some n) (.spawn p co)) := by
  obtain ⟨hfree, hbound⟩ := h.newAgent_fresh p
  have hreturns : returns (rest ++ [Msg.expand p co (s.newAgent p) 1]) = returns (.spawn p co :: rest) := by
    rw [returns_append]
    exact List.append_nil _
  refine h.setPool rfl (Nat.le_succ _) ?_ (fun q _ => ?_) (fun b hb => ?_) (fun b hb => ?_)
  · have hx := (h.exclusive p).enlistLeased hfree hbound
    refine hx.perm ?_ ?_ ?_
    · simp only [lessor, react, send, setPool, Pool.spawned, Function.update_self, List.Perm.refl]
    · simp only [lessor, react, send, setPool, Pool.spawned, Function.update_self, List.map_cons]
      exact .refl _
    · exact List.Perm.of_eq (congrArg (List.filter _) hreturns.symm)
  · exact List.Perm.of_eq (congrArg (List.filter _) hreturns.symm)
  · have hb : b ∈ (s.pools p).pool ∨ b ∈ s.newAgent p :: (s.pools p).bound.map Prod.fst := hb
    rcases hb with hb | hb
    · exact (h.below p b (.inl hb)).trans (Nat.lt_succ_self _)
    · rcases List.mem_cons.mp hb with rfl | hb
      · exact Nat.lt_succ_self _
      · exact (h.below p b (.inr hb)).trans (Nat.lt_succ_self _)
  · have hb : b ∈ s.newAgent p :: (s.pools p).agentMap := hb
    show b ∈ (s.pools p).pool ∨ b ∈ s.newAgent p :: (s.pools p).bound.map Prod.fst
    rcases List.mem_cons.mp hb with rfl | hb
    · exact .inr List.mem_cons_self
    · exact (h.somewhere p b hb).imp id (List.mem_cons_of_mem _)

theorem leased_expanded {s : Sys} {p : Protocol} {co : HandshakeCo} {a : AgentAddr} {i : Nat}
    {rest : List Msg} {n : Nat} (h : Leased { s with net := .expand p co a i :: rest }) :
    Leased ({ s with net := rest }.react (some n) (.expand p co a i)) := by
  obtain ⟨hfree, hbound⟩ := h.newAgent_fresh p
  have hreturns : returns (rest ++ ((s.pools p).expanded p co a i (s.newAgent p)).2) =
      returns (.expand p co a i :: rest) := by
    rw [returns_append]
    unfold Pool.expanded
    dsimp only
    split <;> exact List.append_nil _
  refine h.setPool rfl (Nat.le_succ _) ?_ (fun q _ => ?_) (fun b hb => ?_) (fun b hb => ?_)
  · refine ((h.exclusive p).enlist hfree hbound).perm ?_ ?_ ?_
    · simp only [lessor, react, send, setPool, Pool.expanded, Function.update_self]
      exact .refl _
    · simp only [lessor, react, send, setPool, Pool.expanded, Function.update_self, List.Perm.refl]
    · exact List.Perm.of_eq (congrArg (List.filter _) hreturns.symm)
  · exact List.Perm.of_eq (congrArg (List.filter _) hreturns.symm)
  · have hb : b ∈ (s.pools p).pool ++ [s.newAgent p] ∨ b ∈ (s.pools p).bound.map Prod.fst := hb
    rw [List.mem_append, List.mem_singleton] at hb
    rcases hb with (hb | rfl) | hb
    · exact (h.below p b (.inl hb)).trans (Nat.lt_succ_self _)
    · exact Nat.lt_succ_self _
    · exact (h.below p b (.inr hb)).trans (Nat.lt_succ_self _)
  · have hb : b ∈ s.newAgent p :: (s.pools p).agentMap := hb
    show b ∈ (s.pools p).pool ++ [s.newAgent p] ∨ b ∈ (s.pools p).bound.map Prod.fst
    rw [List.mem_append, List.mem_singleton]
    rcases List.mem_cons.mp hb with rfl | hb
    · exact .inl (.inr rfl)
    · exact (h.somewhere p b hb).imp .inl id

/-- The ghost of a recycled agent goes as the lessor's does. -/
theorem bound_filter {bound : List (AgentAddr × String)} (hb : (bound.map Prod.fst).Nodup)
    (a : AgentAddr) : (bound.filter (·.1 ≠ a)).map Prod.fst = (bound.map Prod.fst).erase a := by
  rw [hb.erase_eq_filter, List.filter_map]
  congr 1
  refine List.filter_congr fun x _ => ?_
  simp [Function.comp, bne, beq_eq_decide]

theorem leased_recycle {s : Sys} {a : AgentAddr} {rest : List Msg} (answer : Option Nat)
    (h : Leased { s with net := .poolRecycle a :: rest }) :
    Leased ({ s with net := rest }.react answer (.poolRecycle a)) := by
  have hx : (⟨(s.pools a.protocol).pool, (s.pools a.protocol).bound.map Prod.fst,
      a :: (returns rest).filter (·.protocol = a.protocol)⟩ : Lib.Lease AgentAddr).Exclusive := by
    refine (h.exclusive a.protocol).perm (.refl _) (.refl _) ?_
    simp only [lessor, returns_cons, Msg.returning, Option.toList_some, List.singleton_append]
    rw [List.filter_cons_of_pos (by simp)]
  have hbound := bound_filter hx.leased_nodup a
  have hother : ∀ q, q ≠ a.protocol → ((returns (.poolRecycle a :: rest)).filter (·.protocol = q)).Perm
      ((returns rest).filter (·.protocol = q)) := by
    intro q hq
    rw [returns_cons]
    simp only [Msg.returning, Option.toList_some, List.singleton_append]
    rw [List.filter_cons_of_neg (by simpa using fun h => hq h.symm)]
  by_cases hfull : (s.pools a.protocol).pool.length > maxnum
  · have hrec : (s.pools a.protocol).recycle a =
        ({ s.pools a.protocol with
            agentMap := (s.pools a.protocol).agentMap.filter (· ≠ a)
            bound := (s.pools a.protocol).bound.filter (·.1 ≠ a) }, true) := if_pos hfull
    have hpools : (({ s with net := rest } : Sys).react answer (.poolRecycle a)).pools =
        Function.update s.pools a.protocol
          { s.pools a.protocol with
            agentMap := (s.pools a.protocol).agentMap.filter (· ≠ a)
            bound := (s.pools a.protocol).bound.filter (·.1 ≠ a) } := by
      show Function.update s.pools a.protocol ((s.pools a.protocol).recycle a).1 = _
      rw [hrec]
    refine h.setPool hpools (Nat.le_refl _) ?_ hother (fun b hb => ?_) (fun b hb => ?_)
    · simp only [lessor, hpools, Function.update_self, hbound]
      exact hx.retire
    · refine h.below a.protocol b (hb.imp id fun hb => ?_)
      rw [hbound] at hb
      exact List.mem_of_mem_erase hb
    · obtain ⟨hb, hne⟩ := List.mem_filter.mp hb
      refine (h.somewhere a.protocol b hb).imp id fun hb => ?_
      rw [hbound]
      exact (List.mem_erase_of_ne (by simpa using hne)).mpr hb
  · have hrec : (s.pools a.protocol).recycle a =
        ({ s.pools a.protocol with
            pool := (s.pools a.protocol).pool ++ [a]
            bound := (s.pools a.protocol).bound.filter (·.1 ≠ a) }, false) := if_neg hfull
    have hpools : (({ s with net := rest } : Sys).react answer (.poolRecycle a)).pools =
        Function.update s.pools a.protocol
          { s.pools a.protocol with
            pool := (s.pools a.protocol).pool ++ [a]
            bound := (s.pools a.protocol).bound.filter (·.1 ≠ a) } := by
      show Function.update s.pools a.protocol ((s.pools a.protocol).recycle a).1 = _
      rw [hrec]
    refine h.setPool hpools (Nat.le_refl _) ?_ hother (fun b hb => ?_) (fun b hb => ?_)
    · simp only [lessor, hpools, Function.update_self, hbound]
      exact hx.accept
    · rw [List.mem_append, List.mem_singleton] at hb
      rcases hb with (hb | rfl) | hb
      · exact h.below a.protocol b (.inl hb)
      · exact h.below b.protocol b (.inr (hx.returnLeased b List.mem_cons_self))
      · rw [hbound] at hb
        exact h.below a.protocol b (.inr (List.mem_of_mem_erase hb))
    · rw [List.mem_append, List.mem_singleton]
      by_cases hba : b = a
      · exact .inl (.inr hba)
      · refine (h.somewhere a.protocol b hb).imp .inl fun hb => ?_
        rw [hbound]
        exact (List.mem_erase_of_ne hba).mpr hb

/-! ## A step, and a run -/

/-- One message, of which a `kick` that is not silent is under its guard. -/
theorem leased_react {s : Sys} {m : Msg} {rest : List Msg} (answer : Option Nat)
    (h : Leased { s with net := m :: rest })
    (hg : ∀ fd origin, m = .gateKick fd false origin →
      ∀ c ∈ (s.gates fd.gate).connection.get fd, ∀ user ∈ c.user,
        user.agent ∈ (s.pools user.agent.protocol).bound.map Prod.fst ∧ user.agent ∉ returns (m :: rest)) :
    Leased ({ s with net := rest }.react answer m) := by
  have hnil : rest = rest ++ [] := (List.append_nil rest).symm
  cases m with
  | gateConnectRet conn => exact h.pass rfl rfl hnil rfl
  | gateLogoutRet fd cause => exact h.pass rfl rfl hnil rfl
  | gateRegister gate uid agent co role => exact h.pass rfl rfl rfl rfl
  | gateKick fd raw origin =>
    have h₀ : Leased { s with net := rest } := h.congr rfl rfl (.refl _)
    refine h₀.closeAgent (s.gates fd.gate) (.kick origin) rfl rfl rfl rfl fun hraw => ?_
    subst hraw
    exact hg fd origin rfl
  | slaveConnect conn => exact h.pass rfl rfl rfl rfl
  | slaveConnectRet conn => exact h.pass rfl rfl rfl rfl
  | slaveLogout conn cause =>
    refine h.pass rfl rfl rfl ?_
    simp only [HubSlave.logout, returns_cons]
    exact (List.append_nil _).symm
  | slaveKick slave uid origin => exact h.pass rfl rfl rfl rfl
  | slaveClient fd req =>
    refine h.quiet rfl rfl rfl rfl fun x hx => ?_
    obtain ⟨args, -, rfl⟩ := HubSlave.request_sends hx
    rfl
  | slaveHandshakeRet fd args res =>
    refine h.quiet rfl rfl rfl rfl fun x hx => ?_
    rw [(HubSlave.requestRet_sends hx).2]
    rfl
  | hubConnect conn => exact h.pass rfl rfl rfl rfl
  | hubLogout conn origin =>
    refine h.pass rfl rfl rfl ?_
    show (conn.user.map ConnUser.agent).toList = returns (s.hub.logout conn).2
    unfold Hub.logout
    cases conn.user <;> rfl
  | hubKick uid origin =>
    refine h.quiet rfl rfl rfl rfl fun x hx => ?_
    obtain ⟨user, conn, -, -, rfl⟩ := Hub.kick_sends hx
    rfl
  | hubHandshake fd args =>
    refine h.quiet rfl rfl rfl rfl fun x hx => ?_
    rcases Hub.handshake_sends hx with ⟨_, rfl⟩ | ⟨_, rfl⟩ | ⟨_, _, _, rfl⟩ | ⟨_, _, rfl⟩ <;> rfl
  | hubGetRet co agent =>
    refine h.quiet rfl rfl rfl rfl fun x hx => ?_
    obtain ⟨a, session, rfl⟩ := Hub.getRet_sends hx
    rfl
  | hubStartRet co agent role =>
    refine h.quiet rfl rfl rfl rfl fun x hx => ?_
    obtain ⟨user, conn, a, -, -, -, rfl⟩ := Hub.startRet_sends hx
    rfl
  | hubRegisterRet co agent role res =>
    refine h.quiet rfl rfl rfl rfl fun x hx => ?_
    rw [Hub.registerRet_sends hx]
    rfl
  | mgrGet protocol co => exact h.pass rfl rfl rfl rfl
  | mgrGetRet co agent => exact h.pass rfl rfl rfl rfl
  | mgrRecycle agent => exact h.pass rfl rfl rfl rfl
  | poolGet protocol co => exact leased_poolGet answer h
  | poolRecycle agent => exact leased_recycle answer h
  | agentStart agent session co =>
    by_cases hk : agent ∈ s.killed
    · simp only [react, if_pos hk]
      exact h.pass rfl rfl hnil rfl
    · simp only [react, if_neg hk]
      exact h.pass rfl rfl rfl rfl
  | agentLogout agent =>
    by_cases hk : agent ∈ s.killed
    · simp only [react, if_pos hk]
      exact h.lose rfl rfl (.refl _)
    · simp only [react, if_neg hk]
      exact h.pass rfl rfl rfl rfl
  | agentClient agent fd req => exact h.pass rfl rfl hnil rfl
  | spawn protocol co =>
    cases answer with
    | none => exact h.pass rfl rfl hnil rfl
    | some n => exact leased_spawned h
  | expand protocol co agent i =>
    cases answer with
    | none => exact h.pass rfl rfl hnil rfl
    | some n => exact leased_expanded h
  | load agent co =>
    cases answer with
    | none => exact h.pass rfl rfl hnil rfl
    | some role =>
      by_cases hk : agent ∈ s.killed
      · simp only [react, if_pos hk]
        exact h.pass rfl rfl hnil rfl
      · simp only [react, if_neg hk]
        exact h.pass rfl rfl rfl rfl
  | save agent =>
    cases answer with
    | none => exact h.lose rfl rfl (.refl _)
    | some n =>
      by_cases hk : agent ∈ s.killed
      · simp only [react, if_pos hk]
        exact h.lose rfl rfl (.refl _)
      · simp only [react, if_neg hk]
        exact h.pass rfl rfl rfl rfl

theorem leased_step {s s' : Sys} {a : Action} (h : Leased s) (hg : FreshClose s a)
    (hs : s.step a = some s') : Leased s' := by
  cases step_cases hs with
  | @message _ m rest answer hm hperm =>
    refine leased_react answer (h.congr rfl rfl (Lib.Mailbox.view_perm Msg.returning hperm)) fun fd origin hkick => ?_
    intro c hc user hu
    have hclose : s.closes a = some fd := by
      unfold closes
      rw [hm, hkick]
    obtain ⟨hbound, hnot⟩ := hg fd hclose c hc user hu
    exact ⟨hbound, fun hin => hnot ((Lib.Mailbox.view_perm Msg.returning hperm).mem_iff.mpr hin)⟩
  | connect p ip =>
    refine h.send rfl rfl rfl fun x hx => ?_
    rw [Gate.openSocket_sends hx]
    rfl
  | data fd req =>
    refine h.send rfl rfl rfl fun x hx => ?_
    obtain ⟨c, -, ⟨user, -, rfl⟩ | ⟨-, rfl⟩⟩ := Gate.message_sends hx <;> rfl
  | disconnect fd =>
    exact h.closeAgent { s.gates fd.gate with sock := (s.gates fd.gate).sock.del fd } .event rfl rfl rfl
      rfl fun _ => hg fd rfl
  | access uid secret serverId tm => exact h.congr rfl rfl (.refl _)
  | loginKick uid =>
    refine h.send rfl rfl rfl fun x hx => ?_
    obtain ⟨user, conn, -, -, rfl⟩ := Hub.kick_sends hx
    rfl
  | sweep now => exact h.congr rfl rfl (.refl _)

/-- In a run in which every close that asks an agent back is fresh, the agents are exclusive. -/
theorem agentsExclusive_of_freshClose (s : Sys) (h : node.ReachUnder FreshClose s) : AgentsExclusive s :=
  (h.invariant Leased (by rintro _ ⟨warm, maxclient, rfl⟩; exact init_leased warm maxclient)
    fun _ _ _ _ hI hg hs => leased_step hI hg hs).agentsExclusive

/-- One player logs in, is kicked by the login node and leaves; another logs in with the agent of
the first. -/
theorem agentsExclusive_of_freshClose_relogin :
    ∃ s, node.exec opened
        (connecting .tcp ++ [Action.access "u" "k" "1" 0] ++
          loggingIn ⟨.tcp, 1⟩ ⟨"u", "k", "2"⟩ ⟨.tcp, 2⟩ 2 ++
          [Action.loginKick "u", .deliver (.gate .tcp), .deliver (.slave .tcp), .deliver .hubd,
            .deliver (.gate .tcp), .disconnect ⟨.tcp, 1⟩, .deliver (.agent ⟨.tcp, 2⟩),
            .resume (.save ⟨.tcp, 2⟩) (some 0), .deliver .mgr, .deliver (.pool .tcp)] ++
          connecting .tcp ++ [Action.access "v" "l" "1" 0] ++
          loggingIn ⟨.tcp, 2⟩ ⟨"v", "l", "3"⟩ ⟨.tcp, 2⟩ 3) = some s ∧
      AgentsExclusive s := by
  have hrun : (node.execWhile (fun s a => decide (FreshClose s a)) opened
      (connecting .tcp ++ [Action.access "u" "k" "1" 0] ++
        loggingIn ⟨.tcp, 1⟩ ⟨"u", "k", "2"⟩ ⟨.tcp, 2⟩ 2 ++
        [Action.loginKick "u", .deliver (.gate .tcp), .deliver (.slave .tcp), .deliver .hubd,
          .deliver (.gate .tcp), .disconnect ⟨.tcp, 1⟩, .deliver (.agent ⟨.tcp, 2⟩),
          .resume (.save ⟨.tcp, 2⟩) (some 0), .deliver .mgr, .deliver (.pool .tcp)] ++
        connecting .tcp ++ [Action.access "v" "l" "1" 0] ++
        loggingIn ⟨.tcp, 2⟩ ⟨"v", "l", "3"⟩ ⟨.tcp, 2⟩ 3)).isSome := by
    decide +kernel
  obtain ⟨s, hs⟩ := Option.isSome_iff_exists.mp hrun
  exact ⟨s, Lib.Machine.exec_of_execWhile hs, agentsExclusive_of_freshClose s
    (Lib.Machine.ReachUnder.execWhile (fun _ _ h => of_decide_eq_true h) (.start opened_start) hs)⟩

/-- The player is kicked, and the socket closes before the `logout` call of the kick has returned: the
agent goes back to the pool twice. -/
theorem not_agentsExclusive_kick_and_close : ¬ ∀ s, node.Reach s → AgentsExclusive s := by
  intro h
  have hrun : ∃ s ∈ node.exec opened
      (connecting .tcp ++ [Action.access "u" "k" "1" 0] ++
        loggingIn ⟨.tcp, 1⟩ ⟨"u", "k", "2"⟩ ⟨.tcp, 2⟩ 2 ++
        [Action.loginKick "u", .deliver (.gate .tcp), .disconnect ⟨.tcp, 1⟩, .deliver (.slave .tcp),
          .deliver (.slave .tcp), .deliver .hubd, .deliver .hubd, .deliver (.agent ⟨.tcp, 2⟩),
          .deliver (.agent ⟨.tcp, 2⟩), .resume (.save ⟨.tcp, 2⟩) (some 0),
          .resume (.save ⟨.tcp, 2⟩) (some 0), .deliver .mgr, .deliver .mgr, .deliver (.pool .tcp),
          .deliver (.pool .tcp)]),
      ¬ (s.pools .tcp).pool.Nodup := by
    decide +kernel
  obtain ⟨s, hs, htwice⟩ := hrun
  exact htwice ((h s (Lib.Machine.Reach.exec (.start opened_start) hs)).once .tcp)

end Sys

end AntServer.Game
