/-
# AntServer.Battle.Battled — the datagram sessions of a battle node

`service/battle/battled.lua`. `register` files a session under the next number and answers with two
tables; `udpdispatch` reads the number of a datagram, compares the 16 bytes after it with the secret and
hands the rest to the arena; `unregister` and `keepalive` take sessions away.

The number is counted in 32 bits without a sign and read from the datagram with one, and the secret is
only looked at when the datagram does *not* come from the address of the session: a datagram from that
very address is dropped (`udpdispatch_eq`).
-/
import AntServer.Lib.Machine
import AntServer.Lib.Table
import AntServer.Lua
import Mathlib.Tactic.Ring

namespace AntServer.Battle

open Lib (Table)

/-- A Lua string: its bytes. -/
abbrev LuaString := List UInt8

/-- `string.pack("<I4", n)`. -/
def packI4 (n : Nat) : LuaString :=
  [UInt8.ofNat n, UInt8.ofNat (n / 256), UInt8.ofNat (n / 256 ^ 2), UInt8.ofNat (n / 256 ^ 3)]

/-- The number that four bytes spell, the least significant first. -/
def littleEndian : LuaString → Nat
  | [] => 0
  | b :: bs => b.toNat + 256 * littleEndian bs

/-- `string.unpack("<i4", msg)` of a message of at least four bytes. -/
def unpackI4 (msg : LuaString) : Int :=
  let n : Nat := littleEndian (msg.take 4)
  if n < 2 ^ 31 then n else n - 2 ^ 32

/-- What `fill_arena_data` makes of a join request. -/
structure ArenaData where
  session : Int
  model : Nat
  uid : Option Nat
  secret : Option LuaString
  ip : Option LuaString
  agent : Nat
  skynetNodeName : LuaString
  deriving DecidableEq, Repr

/-- An entry of `S`. -/
structure BattleSession where
  secret : Option LuaString
  ip : Option LuaString
  arenaAddr : Nat
  time : Int
  deriving DecidableEq, Repr

/-- What of an entry no datagram changes. -/
def BattleSession.core (s : BattleSession) : Option LuaString × Option LuaString × Nat :=
  (s.secret, s.ip, s.arenaAddr)

/-- The first table that `register` returns. -/
structure SessionInfo where
  session : Nat
  host : LuaString
  port : Nat
  secret : Option LuaString
  deriving DecidableEq, Repr

/-- The second one. -/
structure ArenaInfo where
  battleNode : LuaString
  arenaAddr : Nat
  deriving DecidableEq, Repr

/-- The message `dispatch` to an arena. -/
structure Dispatch where
  arenaAddr : Nat
  fd : Nat
  origin : LuaString
  data : LuaString
  deriving DecidableEq, Repr

/-- A battle node: `S`, `SESSION`, the host and the port of `_conf`, `U` and `skynet_node_name`. -/
structure Battled where
  S : Table Int BattleSession
  SESSION : Nat
  host : LuaString
  port : Nat
  U : Nat
  skynetNodeName : LuaString

/-- `timeout`, 10 minutes in hundredths of a second. -/
def timeout : Int := 10 * 60 * 100

namespace Battled

/-- `CMD.register` at the time `now`. `find` is the answer of `.arena_mgr`, `none` when the call fails. -/
def register (b : Battled) (data : ArenaData) (find : Option Nat) (now : Int) :
    Except LuaError ((SessionInfo × ArenaInfo) × Battled) :=
  if data.session = 0 then
    match find with
    | none => .error (.raised "call failed")
    | some arenaAddr =>
      let session := (b.SESSION + 1) % 2 ^ 32
      .ok
        (({ session := session, host := b.host, port := b.port, secret := data.secret },
          { battleNode := b.skynetNodeName, arenaAddr := arenaAddr }),
        { b with
          SESSION := session
          S := b.S.set session
            { secret := data.secret, ip := data.ip, arenaAddr := arenaAddr, time := now } })
  else .error .assertion

/-- A registration that returns is one of a new battle with an arena. -/
theorem register_ok {b : Battled} {data : ArenaData} {find : Option Nat} {now : Int}
    {r : (SessionInfo × ArenaInfo) × Battled} (h : b.register data find now = .ok r) :
    data.session = 0 ∧ find = some r.1.2.arenaAddr ∧ r.1.1.session = (b.SESSION + 1) % 2 ^ 32 ∧
      r.1.1.secret = data.secret ∧ r.2.U = b.U ∧ r.2.S = b.S.set r.1.1.session
        { secret := data.secret, ip := data.ip, arenaAddr := r.1.2.arenaAddr, time := now } := by
  unfold register at h
  split at h
  · rename_i h0
    cases find with
    | none => cases h
    | some arenaAddr =>
      cases h
      exact ⟨h0, rfl, rfl, rfl, rfl, rfl⟩
  · cases h

/-- `CMD.unregister`. -/
def unregister (b : Battled) (session : Int) : Battled := { b with S := b.S.del session }

/-- The test of `keepalive` for one session, with the time `ti` it read. -/
def keepalive (b : Battled) (ti : Int) (session : Int) : Battled :=
  match b.S.get session with
  | some s => if ti > s.time + timeout then { b with S := b.S.del session } else b
  | none => b

/-- `udpdispatch` at the time `now`, with the message it sends. -/
def udpdispatch (b : Battled) (msg origin : LuaString) (now : Int) : Battled × Option Dispatch :=
  if msg.length < 20 then (b, none)
  else
    let session := unpackI4 msg
    match b.S.get session with
    | none => (b, none)
    | some s =>
      if s.ip ≠ some origin then
        let secret := (msg.drop 4).take 16
        if s.secret ≠ some secret then (b, none)
        else
          ({ b with S := b.S.set session { s with time := now } },
            some { arenaAddr := s.arenaAddr, fd := b.U, origin := origin, data := msg.drop 20 })
      else (b, none)

end Battled

/-- What happens to a battle node. -/
inductive BattledAction where
  | register (data : ArenaData) (find : Option Nat) (now : Int)
  | unregister (session : Int)
  | keepalive (ti : Int) (session : Int)
  | datagram (msg origin : LuaString) (now : Int)
  deriving DecidableEq, Repr

/-- One of them. A call that raises changes nothing. -/
def Battled.step (b : Battled) : BattledAction → Battled
  | .register data find now =>
    match b.register data find now with
    | .ok r => r.2
    | .error _ => b
  | .unregister session => b.unregister session
  | .keepalive ti session => b.keepalive ti session
  | .datagram msg origin now => (b.udpdispatch msg origin now).1

/-- The runs of a battle node from one of its states. -/
def battling (b : Battled) : Lib.Machine Battled BattledAction where
  start b' := b' = b
  step b a := some (b.step a)

/-! ## Datagrams -/

theorem toNat_ofNat (n : Nat) : (UInt8.ofNat n).toNat = n % 256 := by simp

/-- A number of 32 bits is read back from a datagram that begins with it, with a sign. -/
theorem unpackI4_packI4 {n : Nat} (hn : n < 2 ^ 32) (rest : LuaString) :
    unpackI4 (packI4 n ++ rest) = if n < 2 ^ 31 then (n : Int) else n - 2 ^ 32 := by
  have hspell : littleEndian ((packI4 n ++ rest).take 4) = n := by
    show littleEndian (packI4 n) = n
    simp only [packI4, littleEndian, toNat_ofNat]
    omega
  unfold unpackI4
  rw [hspell]

/-- The datagram of a session: its number, its secret and the payload. -/
def datagram (session : Nat) (secret payload : LuaString) : LuaString :=
  packI4 session ++ (secret ++ payload)

theorem datagram_parts (session : Nat) {secret : LuaString} (payload : LuaString)
    (hsecret : secret.length = 16) :
    ¬ (datagram session secret payload).length < 20 ∧
      ((datagram session secret payload).drop 4).take 16 = secret ∧
      (datagram session secret payload).drop 20 = payload := by
  have hdrop : (datagram session secret payload).drop 4 = secret ++ payload := rfl
  refine ⟨?_, ?_, ?_⟩
  · unfold datagram
    simp [packI4, hsecret]
  · rw [hdrop, List.take_left' hsecret]
  · rw [show 20 = 4 + 16 from rfl, ← List.drop_drop, hdrop, List.drop_left' hsecret]

/-- A datagram of a session with a number below 2^31 is dispatched to its arena exactly when it carries
the secret and does not come from the address of the session. -/
theorem udpdispatch_eq {b : Battled} {session : Nat} {s : BattleSession} {secret : LuaString}
    (hs : b.S.get session = some s) (hlt : session < 2 ^ 31) (hsecret : secret.length = 16)
    (payload origin : LuaString) (now : Int) :
    (b.udpdispatch (datagram session secret payload) origin now).2 =
      if s.ip ≠ some origin ∧ s.secret = some secret then
        some { arenaAddr := s.arenaAddr, fd := b.U, origin := origin, data := payload }
      else none := by
  obtain ⟨hlen, htake, hdrop⟩ := datagram_parts session payload hsecret
  have hunpack : unpackI4 (datagram session secret payload) = session := by
    unfold datagram
    rw [unpackI4_packI4 (by omega), if_pos hlt]
  unfold Battled.udpdispatch
  rw [if_neg hlen]
  simp only [hunpack, hs, htake, hdrop]
  by_cases hip : s.ip = some origin
  · simp [hip]
  · by_cases hsec : s.secret = some secret
    · simp [hip, hsec]
    · simp [hip, hsec]

/-! ## How long a session stays -/

/-- An action that takes a session away, or gives its number to another one. -/
def Battled.Takes (b : Battled) (session : Nat) : BattledAction → Prop
  | .unregister n => n = session
  | .keepalive ti n => n = session ∧ ∀ s, b.S.get session = some s → ti > s.time + timeout
  | .register data find _ => data.session = 0 ∧ find.isSome ∧ (b.SESSION + 1) % 2 ^ 32 = session
  | .datagram _ _ _ => False

/-- Any other action leaves the session its secret, its address and its arena. -/
theorem Battled.step_core {b : Battled} {session : Nat} {a : BattledAction} (ha : ¬ b.Takes session a) :
    ((b.step a).S.get session).map BattleSession.core = (b.S.get session).map BattleSession.core := by
  cases a with
  | register data find now =>
    show ((match b.register data find now with
      | .ok r => r.2
      | .error _ => b).S.get session).map _ = _
    cases hr : b.register data find now with
    | error e => rfl
    | ok r =>
      obtain ⟨h0, hfind, hsession, -, -, hS⟩ := Battled.register_ok hr
      have hne : (session : Int) ≠ r.1.1.session := fun heq => ha ⟨h0, by simp [hfind], by omega⟩
      show (r.2.S.get session).map _ = _
      rw [hS, Table.get_set_ne _ _ hne]
  | unregister n =>
    exact congrArg _ (Table.get_del_ne _ (Ne.symm ha))
  | keepalive ti n =>
    show ((b.keepalive ti n).S.get session).map _ = _
    unfold Battled.keepalive
    by_cases hn : n = session
    · subst hn
      cases hs : b.S.get (session : Int) with
      | none => simp [hs]
      | some s =>
        have hti : ¬ ti > s.time + timeout := fun hti => ha ⟨rfl, fun s' hs' => by
          rw [hs] at hs'
          exact Option.some.inj hs' ▸ hti⟩
        simp only [if_neg hti, hs]
    · split
      · split
        · exact congrArg _ (Table.get_del_ne _ (Ne.symm hn))
        · rfl
      · rfl
  | datagram msg origin now =>
    show ((b.udpdispatch msg origin now).1.S.get session).map _ = _
    unfold Battled.udpdispatch
    by_cases hlen : msg.length < 20
    · rw [if_pos hlen]
    · rw [if_neg hlen]
      cases hs : b.S.get (unpackI4 msg) with
      | none => simp only [hs]
      | some s =>
        simp only [hs]
        split
        · split
          · rfl
          · rw [Table.get_set]
            split
            · rename_i heq
              rw [heq, hs]
              rfl
            · rfl
        · rfl

end AntServer.Battle
