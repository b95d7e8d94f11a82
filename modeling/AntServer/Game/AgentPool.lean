/-
# AntServer.Game.AgentPool — the pools of agents

`service/agent/agent_slave.lua`. An agent slave hands out agents from the end of its pool and puts
them back there. Without one it starts a new agent, and ten more for the pool, one after another; at
each start it yields. The ghost `bound` has the agents handed out and not recycled since, each with
the user it was got for; an agent started for a `get` is bound from its start.
-/
import AntServer.Game.Messages

namespace AntServer.Game

/-- `pool`, `agent_map` and the ghost. -/
structure Pool where
  pool : List AgentAddr
  agentMap : List AgentAddr
  bound : List (AgentAddr × String)

/-- `maxnum`. -/
def maxnum : Nat := 1024

/-- How many agents `expand_pool` starts. -/
def expandCount : Nat := 10

namespace Pool

/-- `table.remove(pool)`: the last agent, and the rest. -/
def remove (agents : List AgentAddr) : Option (AgentAddr × List AgentAddr) :=
  match agents.getLast? with
  | some a => some (a, agents.dropLast)
  | none => none

/-- `CMD.get` up to its first yield: an agent of the pool, or the start of a new one. -/
def get (P : Pool) (protocol : Protocol) (co : HandshakeCo) : Pool × List Msg :=
  match remove P.pool with
  | some (a, rest) =>
    ({ P with pool := rest, bound := (a, co.args.uid) :: P.bound }, [.mgrGetRet co a])
  | none => (P, [.spawn protocol co])

/-- `CMD.get` from the start of its agent. -/
def spawned (P : Pool) (protocol : Protocol) (co : HandshakeCo) (a : AgentAddr) : Pool × List Msg :=
  ({ P with agentMap := a :: P.agentMap, bound := (a, co.args.uid) :: P.bound },
    [.expand protocol co a 1])

/-- `expand_pool` from the start of its `i`-th agent `new`; after the last one `CMD.get` returns
`a`. -/
def expanded (P : Pool) (protocol : Protocol) (co : HandshakeCo) (a : AgentAddr) (i : Nat)
    (new : AgentAddr) : Pool × List Msg :=
  ({ P with pool := P.pool ++ [new], agentMap := new :: P.agentMap },
    if i < expandCount then [.expand protocol co a (i + 1)] else [.mgrGetRet co a])

/-- `CMD.recycle`, and whether the agent is killed. -/
def recycle (P : Pool) (a : AgentAddr) : Pool × Bool :=
  let bound := P.bound.filter (·.1 ≠ a)
  if P.pool.length > maxnum then
    ({ P with agentMap := P.agentMap.filter (· ≠ a), bound := bound }, true)
  else ({ P with pool := P.pool ++ [a], bound := bound }, false)

theorem remove_eq_some {agents rest : List AgentAddr} {a : AgentAddr}
    (h : remove agents = some (a, rest)) : agents = rest ++ [a] := by
  unfold remove at h
  split at h
  · rename_i b hb
    cases h
    obtain ⟨ys, hys⟩ := List.getLast?_eq_some_iff.mp hb
    rw [hys, List.dropLast_concat]
  · cases h

end Pool

end AntServer.Game
