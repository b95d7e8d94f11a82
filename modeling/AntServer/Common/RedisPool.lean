/-
# AntServer.Common.RedisPool — the connections of `redispool` and how an id selects one

`service/common/redispool.lua`: the first slave serves the calls without an id, the others share the ids by
their remainder. The id is not converted but taken into the arithmetic as it is, so that a string which is
no numeral raises, and one that is becomes a double.
-/
import AntServer.Common.MongodbPool

namespace AntServer

variable {Addr : Type*}

def Key.absent : Key → Bool
  | .nil => true
  | _ => false

namespace RedisPool

/-- What an arithmetic operator makes of `uid`. -/
def operand : Key → Except LuaError LuaNumber
  | .nil => .error (.arith "uid")
  | .number x => .ok x
  | .string s =>
    match LuaNumber.tonumber s with
    | some x => .ok (.float x.toFloat)
    | none => .error (.arith "uid")

/-- The index that `getconn` looks up. -/
def select (maxconn : Nat) (uid : Key) : Except LuaError LuaNumber :=
  if uid.absent ∨ maxconn = 1 then return .int 1
  else do
    let x ← operand uid
    return (x.modInt (maxconn - 1 : Nat)).addInt 2

/-- `getconn(uid)`. -/
def getconn (s : Slaves Addr) (uid : Key) : Except LuaError Addr :=
  match select s.maxconn uid with
  | .ok i =>
    match i.index s.pool with
    | some db => .ok db
    | none => .error .assertion
  | .error e => .error e

/-- When `getconn` of `redispool` has a slave for an id. -/
def Serves (maxconn : Nat) (uid : Key) : Prop :=
  uid.absent ∨ maxconn = 1 ∨ ∃ x, operand uid = .ok x ∧ x.Lands (maxconn - 1) 2 maxconn

theorem getconn_eq_ok {s : Slaves Addr} {uid : Key} {a : Addr} :
    getconn s uid = .ok a ↔ ∃ i, select s.maxconn uid = .ok i ∧ i.index s.pool = some a := by
  unfold getconn
  cases select s.maxconn uid with
  | error e => simp
  | ok i =>
    simp only [Except.ok.injEq, exists_eq_left']
    cases i.index s.pool with
    | none => simp
    | some db => simp

theorem getconn_served (s : Slaves Addr) (uid : Key) :
    (∃ a, getconn s uid = .ok a) ↔ Serves s.maxconn uid := by
  simp only [getconn_eq_ok]
  unfold select Serves
  by_cases hfirst : uid.absent ∨ s.maxconn = 1
  · rw [if_pos hfirst, ← or_assoc]
    have hone : ∃ a, (LuaNumber.int 1).index s.pool = some a :=
      LuaNumber.index_eq_some.mpr ⟨1, rfl, le_refl 1, by exact_mod_cast s.maxconn_pos⟩
    obtain ⟨a, ha⟩ := hone
    exact iff_of_true ⟨a, _, rfl, ha⟩ (.inl hfirst)
  · rw [if_neg hfirst, ← or_assoc, or_iff_right hfirst]
    have hone : s.maxconn ≠ 1 := fun h => hfirst (.inr h)
    have hpos : 1 ≤ s.maxconn := s.maxconn_pos
    have hserved (x : LuaNumber) :
        (∃ a, ((x.modInt (s.maxconn - 1 : Nat)).addInt (2 : Nat)).index s.pool = some a) ↔
          x.Lands (s.maxconn - 1) 2 s.maxconn :=
      s.index_served x 2 (by omega) (by omega) (by omega)
    cases operand uid with
    | error e => simp [bind, Except.bind]
    | ok x =>
      simp only [bind, Except.bind, pure, Except.pure, Except.ok.injEq, exists_eq_left']
      exact hserved x

end RedisPool

end AntServer
