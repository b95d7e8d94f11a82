/-
# AntServer.Battle.Authentication — which datagrams a battle node forwards, and where it answers

A datagram is authentic when it carries the number of a live session and its secret. `udpdispatch` of
`service/battle/battled.lua` is to forward exactly the authentic ones, and `CMD.post` to answer to where the
last one came from.

The secret is compared only with a datagram that comes from another address than the session's own, and
only such a datagram is forwarded (`udpdispatch_isSome`). `post` reads the field `address`; `register`
builds the entry with a field `ip` instead, no line of the service writes `address`, and so nothing is
ever sent. What the node does with a datagram is thus right only when it has nothing to do
(`authenticates_iff`).
-/
import AntServer.Battle.Battled

namespace AntServer.Battle

open Lib (Table)

/-! ## What a datagram is to be -/

/-- The field `address` of an entry of `S`: `register` builds an entry without it. -/
def BattleSession.address (_ : BattleSession) : Option LuaString := none

namespace Battled

/-- `CMD.post`: the address and the data given to `socket.sendto`. -/
def post (b : Battled) (session : Int) (data : LuaString) : Option (LuaString × LuaString) :=
  match b.S.get session with
  | some s =>
    match s.address with
    | some address => some (address, data)
    | none => none
  | none => none

/-- The datagram carries the number of a live session and that session's secret. -/
def Authentic (b : Battled) (msg : LuaString) : Prop :=
  20 ≤ msg.length ∧
    ∃ s, b.S.get (unpackI4 msg) = some s ∧ s.secret = some ((msg.drop 4).take 16)

/-- The datagram comes from the address its session was registered with. -/
def FromOwnAddress (b : Battled) (msg origin : LuaString) : Prop :=
  ∃ s, b.S.get (unpackI4 msg) = some s ∧ s.ip = some origin

/-! ## What is forwarded -/

/-- A forwarded datagram is authentic and comes from another address; its bytes after the twentieth go to
the arena of its session, and the time of that session is the only thing that changes. -/
theorem udpdispatch_some {b b' : Battled} {msg origin : LuaString} {now : Int} {d : Dispatch}
    (h : b.udpdispatch msg origin now = (b', some d)) :
    20 ≤ msg.length ∧ ∃ s, b.S.get (unpackI4 msg) = some s ∧
      s.secret = some ((msg.drop 4).take 16) ∧ s.ip ≠ some origin ∧
      d = { arenaAddr := s.arenaAddr, fd := b.U, origin := origin, data := msg.drop 20 } ∧
      b' = { b with S := b.S.set (unpackI4 msg) { s with time := now } } := by
  unfold udpdispatch at h
  by_cases hlen : msg.length < 20
  · rw [if_pos hlen] at h
    cases h
  rw [if_neg hlen] at h
  cases hs : b.S.get (unpackI4 msg) with
  | none =>
    simp only [hs] at h
    cases h
  | some s =>
    simp only [hs] at h
    split at h
    · rename_i hip
      split at h
      · cases h
      · rename_i hsecret
        cases h
        exact ⟨by omega, s, rfl, not_not.mp hsecret, hip, rfl, rfl⟩
    · cases h

/-- The same, from what `udpdispatch` forwards. -/
theorem udpdispatch_forwards {b : Battled} {msg origin : LuaString} {now : Int} {d : Dispatch}
    (hd : (b.udpdispatch msg origin now).2 = some d) :
    20 ≤ msg.length ∧ ∃ s, b.S.get (unpackI4 msg) = some s ∧
      s.secret = some ((msg.drop 4).take 16) ∧ s.ip ≠ some origin ∧
      d = { arenaAddr := s.arenaAddr, fd := b.U, origin := origin, data := msg.drop 20 } ∧
      (b.udpdispatch msg origin now).1 =
        { b with S := b.S.set (unpackI4 msg) { s with time := now } } :=
  udpdispatch_some (Prod.ext rfl hd)

/-- The authentic datagrams from another address are forwarded, and no others. -/
theorem udpdispatch_isSome (b : Battled) (msg origin : LuaString) (now : Int) :
    (b.udpdispatch msg origin now).2.isSome ↔ b.Authentic msg ∧ ¬ b.FromOwnAddress msg origin := by
  constructor
  · intro h
    obtain ⟨d, hd⟩ := Option.isSome_iff_exists.mp h
    obtain ⟨hlen, s, hs, hsecret, hip, -, -⟩ := udpdispatch_forwards hd
    refine ⟨⟨hlen, s, hs, hsecret⟩, ?_⟩
    rintro ⟨s', hs', hip'⟩
    rw [hs] at hs'
    exact hip (Option.some.inj hs' ▸ hip')
  · rintro ⟨⟨hlen, s, hs, hsecret⟩, hown⟩
    have hip : s.ip ≠ some origin := fun hip => hown ⟨s, hs, hip⟩
    unfold udpdispatch
    rw [if_neg (by omega)]
    simp only [hs, if_pos hip]
    rw [if_neg (not_not.mpr hsecret)]
    rfl

/-- Nothing is ever sent to a player. -/
theorem post_none (b : Battled) (session : Int) (data : LuaString) : b.post session data = none := by
  unfold post
  cases b.S.get session <;> rfl

/-! ## When that is right -/

/-- What the node is to do with a datagram. -/
structure Forwards (b : Battled) (msg origin : LuaString) (now : Int) : Prop where
  /-- exactly the authentic datagrams are forwarded -/
  authentic : (b.udpdispatch msg origin now).2.isSome ↔ b.Authentic msg
  /-- what is forwarded are the bytes after the twentieth, to the arena of the session -/
  payload : ∀ d ∈ (b.udpdispatch msg origin now).2, ∃ s, b.S.get (unpackI4 msg) = some s ∧
    d.arenaAddr = s.arenaAddr ∧ d.origin = origin ∧ d.data = msg.drop 20
  /-- and the time of the session is all that changes -/
  refreshes : (b.udpdispatch msg origin now).2.isSome →
    ∀ n, (b.udpdispatch msg origin now).1.S.get n =
      if n = unpackI4 msg then (b.S.get n).map fun s => { s with time := now } else b.S.get n

/-- And afterwards: `post` answers to where the datagram came from. -/
structure Authenticates (b : Battled) (msg origin : LuaString) (now : Int) : Prop
    extends Forwards b msg origin now where
  answers : b.Authentic msg → ∀ data,
    (b.udpdispatch msg origin now).1.post (unpackI4 msg) data = some (origin, data)

/-- The forwarding is right for every datagram but an authentic one from the address of its session. -/
theorem forwards_iff (b : Battled) (msg origin : LuaString) (now : Int) :
    b.Forwards msg origin now ↔ ¬ (b.Authentic msg ∧ b.FromOwnAddress msg origin) := by
  constructor
  · rintro h ⟨hauth, hown⟩
    exact ((udpdispatch_isSome b msg origin now).mp (h.authentic.mpr hauth)).2 hown
  · intro h
    refine ⟨?_, fun d hd => ?_, fun hsome n => ?_⟩
    · rw [udpdispatch_isSome]
      exact ⟨fun hs => hs.1, fun hauth => ⟨hauth, fun hown => h ⟨hauth, hown⟩⟩⟩
    · obtain ⟨-, s, hs, -, -, rfl, -⟩ := udpdispatch_forwards hd
      exact ⟨s, hs, rfl, rfl, rfl⟩
    · obtain ⟨d, hd⟩ := Option.isSome_iff_exists.mp hsome
      obtain ⟨-, s, hs, -, -, -, hb'⟩ := udpdispatch_forwards hd
      rw [hb']
      show (b.S.set (unpackI4 msg) _).get n = _
      rw [Table.get_set]
      split
      · rename_i hn
        rw [hn, hs]
        rfl
      · rfl

/-- All of it is right exactly for the datagrams that are not authentic. -/
theorem authenticates_iff (b : Battled) (msg origin : LuaString) (now : Int) :
    b.Authenticates msg origin now ↔ ¬ b.Authentic msg := by
  constructor
  · intro h hauth
    have hanswer := h.answers hauth []
    rw [post_none] at hanswer
    cases hanswer
  · intro h
    exact ⟨(forwards_iff b msg origin now).mpr fun hboth => h hboth.1, fun hauth => absurd hauth h⟩

/-- A node with one session, registered from the address `[9]`. -/
def oneSession : Battled where
  S := Table.empty.set 1
    { secret := some (List.replicate 16 7), ip := some [9], arenaAddr := 5, time := 0 }
  SESSION := 1
  host := []
  port := 15220
  U := 1
  skynetNodeName := []

/-- An authentic datagram from that address is not forwarded, and one from another address is not
answered. -/
theorem not_authenticates :
    ¬ oneSession.Authenticates (datagram 1 (List.replicate 16 7) [3]) [9] 100 ∧
      ¬ oneSession.Authenticates (datagram 1 (List.replicate 16 7) [3]) [8] 100 := by
  have hauth : oneSession.Authentic (datagram 1 (List.replicate 16 7) [3]) :=
    ⟨by decide, _, rfl, by decide⟩
  refine ⟨fun h => ?_, fun h => ?_⟩
  · exact ((udpdispatch_isSome _ _ _ _).mp (h.authentic.mpr hauth)).2 ⟨_, rfl, rfl⟩
  · have hanswer := h.answers hauth []
    rw [post_none] at hanswer
    cases hanswer

end Battled

end AntServer.Battle
