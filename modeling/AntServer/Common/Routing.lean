/-
# AntServer.Common.Routing — which keys the two connection pools send to a connection

The pools of `mongodbpool` and `redispool` are meant to have a connection for every key, and the same one
for the same player. An integer always has one (`routed_int`). A key that is no number has none in
`mongodbpool` whenever the walk of `next_id` comes by 0, which with one connection is always, and in
`redispool` a string that is no numeral raises as soon as there are two connections (`routed_iff`).
-/
import AntServer.Common.RedisPool

namespace AntServer

variable {Addr : Type*}

/-- The slave that `mongodbpool` sends a key to, behind the calls of a history. -/
def MongodbPool.routed (s : Slaves Addr) (history : List Key) (key : Key) : Option Addr :=
  (getconn s key (run s history)).1

/-- Both pools have a connection for a key, and a numeric key has the same one after every history. That
of `redispool` does not depend on the history. -/
structure Routed (mongodb redis : Slaves Addr) (history : List Key) (key : Key) : Prop where
  inMongodb : ∃ a ∈ mongodb.pool, MongodbPool.routed mongodb history key = some a
  inRedis : ∃ a ∈ redis.pool, RedisPool.getconn redis key = .ok a
  same : key.tonumber ≠ none → ∀ history', MongodbPool.routed mongodb history' key =
    MongodbPool.routed mongodb history key

/-- A numeric key is routed without a look at `next_id`. -/
theorem MongodbPool.routed_numeric (s : Slaves Addr) {key : Key} (hkey : key.tonumber ≠ none)
    (history history' : List Key) : routed s history' key = routed s history key := by
  unfold routed getconn
  cases h : key.tonumber with
  | none => exact absurd h hkey
  | some x => rfl

/-- What `mongodbpool` routes to is in the pool. -/
theorem MongodbPool.mem_of_routed {s : Slaves Addr} {history : List Key} {key : Key} {a : Addr}
    (h : routed s history key = some a) : a ∈ s.pool := by
  unfold routed getconn at h
  cases hx : key.tonumber with
  | none =>
    rw [hx] at h
    exact mem_of_luaIndex h
  | some x =>
    rw [hx] at h
    exact LuaNumber.mem_of_index h

theorem RedisPool.mem_of_getconn {s : Slaves Addr} {uid : Key} {a : Addr}
    (h : getconn s uid = .ok a) : a ∈ s.pool := by
  obtain ⟨i, -, hi⟩ := getconn_eq_ok.mp h
  exact LuaNumber.mem_of_index hi

/-- Finding a connection in both pools is all there is to it. -/
theorem Routed.of_served {mongodb redis : Slaves Addr} {history : List Key} {key : Key}
    (hmongodb : MongodbPool.Serves mongodb.maxconn history key)
    (hredis : RedisPool.Serves redis.maxconn key) : Routed mongodb redis history key := by
  obtain ⟨a, ha⟩ := (MongodbPool.getconn_served mongodb history key).mpr hmongodb
  obtain ⟨b, hb⟩ := (RedisPool.getconn_served redis key).mpr hredis
  exact
    { inMongodb := ⟨a, MongodbPool.mem_of_routed ha, ha⟩
      inRedis := ⟨b, RedisPool.mem_of_getconn hb, hb⟩
      same := fun hkey history' => MongodbPool.routed_numeric mongodb hkey history history' }

/-- A key is routed exactly when both pools have a connection for it. -/
theorem routed_iff (mongodb redis : Slaves Addr) (history : List Key) (key : Key) :
    Routed mongodb redis history key ↔
      MongodbPool.Serves mongodb.maxconn history key ∧ RedisPool.Serves redis.maxconn key := by
  constructor
  · intro h
    obtain ⟨a, -, ha⟩ := h.inMongodb
    obtain ⟨b, -, hb⟩ := h.inRedis
    exact ⟨(MongodbPool.getconn_served mongodb history key).mp ⟨a, ha⟩,
      (RedisPool.getconn_served redis key).mp ⟨b, hb⟩⟩
  · rintro ⟨hmongodb, hredis⟩
    exact Routed.of_served hmongodb hredis

/-- A pool of one connection. -/
def oneSlave : Slaves Nat := ⟨[0], le_refl 1⟩

/-- The first call without a key, on pools of the size they have without a setting. -/
theorem not_routed_oneSlave : ¬ Routed oneSlave oneSlave [] .nil := by
  intro h
  obtain ⟨a, -, ha⟩ := h.inMongodb
  have hnil : MongodbPool.routed oneSlave [] .nil = none := by decide
  rw [hnil] at ha
  cases ha

/-- A player whose id is an integer always has a connection in both pools. -/
theorem routed_int (mongodb redis : Slaves Addr) (history : List Key) (n : Int) :
    Routed mongodb redis history (.number (.int n)) :=
  Routed.of_served trivial (.inr (.inr ⟨.int n, rfl, trivial⟩))

end AntServer
