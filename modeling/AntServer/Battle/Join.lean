/-
# AntServer.Battle.Join — how an agent joins a battle

`M.join` of `service/agent/mods/battle/battle.lua` with `service/agent/globals/sessions/init.lua`, over
the battle node of `Battle.Battled`. The agent unpacks `ok, session, arena` from a call whose answer has
two values: the table of the session becomes `ok`, the table of the arena becomes `session`, and `arena`
is nil. So every join that gets a session registered raises at `arena.battle_node`, and leaves the
session behind.
-/
import AntServer.Battle.Battled
import Mathlib.Data.List.Induction

namespace AntServer.Battle

open Lib (Table)

/-- An entry of `settings.battles`. -/
structure BattleConf where
  battleName : String
  battledName : String
  deriving DecidableEq, Repr

/-- The session of a player. -/
structure PlayerSession where
  uin : Option Nat
  secret : Option LuaString
  ip : Option LuaString
  skynetNodeName : LuaString
  deriving DecidableEq, Repr

/-- `M.session` and the names in `M.proxy_map`. -/
structure Sessions where
  session : PlayerSession
  proxyMap : List String
  deriving DecidableEq, Repr

/-- The arguments of a join request. -/
structure JoinArgs where
  session : Int
  model : Nat
  deriving DecidableEq, Repr

namespace Sessions

/-- `M.set_uin`, with the proxies of all battles. -/
def setUin (s : Sessions) (battles : List BattleConf) (uin : Nat) : Sessions where
  session := { s.session with uin := some uin }
  proxyMap := battles.map BattleConf.battledName

/-- `M.get_proxy`. -/
def getProxy (s : Sessions) (name : String) : Option String :=
  if name ∈ s.proxyMap then some name else none

/-- `M.fill_arena_data`, for the agent with the address `self`. -/
def fillArenaData (s : Sessions) (self : Nat) (args : JoinArgs) : ArenaData where
  session := args.session
  model := args.model
  uid := s.session.uin
  secret := s.session.secret
  ip := s.session.ip
  agent := self
  skynetNodeName := s.session.skynetNodeName

end Sessions

/-- `SYSTEM_ERROR.success` and `SYSTEM_ERROR.arena_forbid`. -/
def success : Nat := 0
def arenaForbid : Nat := 106

/-- A value that the call of `register` returns. -/
inductive RegisterRet where
  | info (info : SessionInfo)
  | arena (arena : ArenaInfo)
  deriving DecidableEq, Repr

/-- The values that the call of `register` returns, in order. -/
def returned (r : SessionInfo × ArenaInfo) : List RegisterRet := [.info r.1, .arena r.2]

/-- `M.join` for the entries left of `settings.battles`: its answer and the battle node after it. -/
def joinLoop (s : Sessions) (self : Nat) (args : JoinArgs) (find : Option Nat) (now : Int)
    (b : Battled) : List BattleConf → Except LuaError (Nat × Option RegisterRet) × Battled
  | [] => (.ok (arenaForbid, none), b)
  | _ :: battles =>
    match s.getProxy "battle1d" with
    | none => (.error .assertion, b)
    | some _ =>
      match b.register (s.fillArenaData self args) find now with
      | .error e => (.error e, b)
      | .ok (r, b) =>
        let ok := (returned r)[0]?
        let session := (returned r)[1]?
        let arena := (returned r)[2]?
        if ok.isSome then
          match arena with
          | none => (.error (.index "nil" "arena"), b)
          | some _ => (.ok (success, session), b)
        else joinLoop s self args find now b battles

/-- `M.join`. -/
def join (battles : List BattleConf) (s : Sessions) (self : Nat) (args : JoinArgs) (find : Option Nat)
    (now : Int) (b : Battled) : Except LuaError (Nat × Option RegisterRet) × Battled :=
  joinLoop s self args find now b battles

/-- What the datagrams of a session do from now on: as long as it is neither unregistered nor timed
out, every one with its secret reaches the arena, whatever its payload and its address. -/
def Reaches (b : Battled) (session arenaAddr : Nat) (secret : LuaString) : Prop :=
  ∀ as t, (battling b).exec b as = some t →
    (∀ a ∈ as, a ≠ .unregister session ∧ ∀ ti, a ≠ .keepalive ti session) →
    ∀ payload origin now, (t.udpdispatch (datagram session secret payload) origin now).2 =
      some { arenaAddr := arenaAddr, fd := t.U, origin := origin, data := payload }

/-- The join agreement: if the battle node registers a session for the request, the answer is a success
with that registration, and its datagrams reach the arena. -/
def Agreement (battles : List BattleConf) (s : Sessions) (self : Nat) (args : JoinArgs)
    (find : Option Nat) (now : Int) (b : Battled) : Prop :=
  ∀ r b', battles ≠ [] → s.getProxy "battle1d" ≠ none →
    b.register (s.fillArenaData self args) find now = .ok (r, b') →
    (join battles s self args find now b).1 = .ok (success, some (.info r.1)) ∧
      ∀ secret, r.1.secret = some secret → secret.length = 16 →
        Reaches b' r.1.session r.2.arenaAddr secret

/-- A join whose request is registered raises. -/
theorem join_raises {battles : List BattleConf} {s : Sessions} {self : Nat} {args : JoinArgs}
    {find : Option Nat} {now : Int} {b b' : Battled} {r : SessionInfo × ArenaInfo}
    (hbattles : battles ≠ []) (hproxy : s.getProxy "battle1d" ≠ none)
    (hreg : b.register (s.fillArenaData self args) find now = .ok (r, b')) :
    join battles s self args find now b = (.error (.index "nil" "arena"), b') := by
  obtain ⟨conf, rest, rfl⟩ := List.exists_cons_of_ne_nil hbattles
  obtain ⟨proxy, hproxy⟩ := Option.ne_none_iff_exists'.mp hproxy
  unfold join joinLoop
  rw [hproxy]
  simp only [hreg, returned]
  rfl

/-- A join for a new battle keeps the agreement exactly when nothing is registered for it: there is no
battle in the settings, no proxy of the battle node, or no arena. -/
theorem agreement_iff {battles : List BattleConf} {s : Sessions} {self : Nat} {args : JoinArgs}
    {find : Option Nat} {now : Int} {b : Battled} (hnew : args.session = 0) :
    Agreement battles s self args find now b ↔
      battles = [] ∨ s.getProxy "battle1d" = none ∨ find = none := by
  constructor
  · intro h
    by_contra hno
    simp only [not_or] at hno
    obtain ⟨hbattles, hproxy, hfind⟩ := hno
    obtain ⟨arenaAddr, rfl⟩ := Option.ne_none_iff_exists'.mp hfind
    have hreg : ∃ r b', b.register (s.fillArenaData self args) (some arenaAddr) now = .ok (r, b') :=
      ⟨_, _, if_pos hnew⟩
    obtain ⟨r, b', hreg⟩ := hreg
    have hanswer := (h r b' hbattles hproxy hreg).1
    rw [join_raises hbattles hproxy hreg] at hanswer
    cases hanswer
  · rintro (rfl | hproxy | rfl) r b' hbattles hproxy' hreg
    · exact absurd rfl hbattles
    · exact absurd hproxy hproxy'
    · exact absurd (Battled.register_ok hreg).2.1 (by simp)

/-- A battle node that has just opened, and a player who joins. -/
def freshBattled : Battled where
  S := Table.empty
  SESSION := 0
  host := []
  port := 15220
  U := 1
  skynetNodeName := []

def player : Sessions :=
  { session := { uin := none, secret := some (List.replicate 16 7), ip := none, skynetNodeName := [] }
    proxyMap := [] : Sessions }.setUin [⟨"battle1", "battle1d"⟩] 42

theorem agreement_iff_noArena :
    Agreement [⟨"battle1", "battle1d"⟩] player 9 ⟨0, 1⟩ none 0 freshBattled :=
  (agreement_iff rfl).mpr (.inr (.inr rfl))

/-- A player who joins gets session 1 registered and an error for an answer. -/
theorem not_agreement : (join [⟨"battle1", "battle1d"⟩] player 9 ⟨0, 1⟩ (some 5) 0 freshBattled).1 =
      .error (.index "nil" "arena") ∧
    ¬ Agreement [⟨"battle1", "battle1d"⟩] player 9 ⟨0, 1⟩ (some 5) 0 freshBattled := by
  refine ⟨by decide +kernel, fun h => ?_⟩
  have hreg : freshBattled.register (player.fillArenaData 9 ⟨0, 1⟩) (some 5) 0 = .ok
      (({ session := 1, host := [], port := 15220, secret := some (List.replicate 16 7) },
        { battleNode := [], arenaAddr := 5 }),
      { freshBattled with
        SESSION := 1
        S := freshBattled.S.set 1
          { secret := some (List.replicate 16 7), ip := none, arenaAddr := 5, time := 0 } }) := rfl
  have hanswer := (h _ _ (by simp) (by decide) hreg).1
  rw [join_raises (by simp) (by decide) hreg] at hanswer
  cases hanswer

/-! ## What the battle node does keep -/

/-- The number of a session below 2^31, an address that is not the session's own, and no action that
takes the session away: then the datagrams of a registered session reach its arena. -/
theorem registered_reached {b b' t : Battled} {data : ArenaData} {find : Option Nat} {now : Int}
    {r : SessionInfo × ArenaInfo} {secret : LuaString} {as : List BattledAction}
    (hreg : b.register data find now = .ok (r, b')) (hlt : r.1.session < 2 ^ 31)
    (hsecret : data.secret = some secret) (hlen : secret.length = 16)
    (hexec : (battling b').exec b' as = some t)
    (hkeep : ∀ before a u, before ++ [a] <+: as → (battling b').exec b' before = some u →
      ¬ u.Takes r.1.session a)
    (payload origin : LuaString) (horigin : data.ip ≠ some origin) (time : Int) :
    (t.udpdispatch (datagram r.1.session secret payload) origin time).2 =
      some { arenaAddr := r.2.arenaAddr, fd := t.U, origin := origin, data := payload } := by
  obtain ⟨-, -, -, -, -, hS⟩ := Battled.register_ok hreg
  have hcore : (t.S.get r.1.session).map BattleSession.core =
      some (data.secret, data.ip, r.2.arenaAddr) := by
    have hstart : (b'.S.get r.1.session).map BattleSession.core =
        some (data.secret, data.ip, r.2.arenaAddr) := by
      rw [hS, Table.get_set_self]
      rfl
    clear hreg hS
    -- the session keeps what it was registered with, action by action
    induction as using List.reverseRecOn generalizing t with
    | nil =>
      obtain rfl := Option.some.inj hexec
      exact hstart
    | append_singleton before a ih =>
      rw [Lib.Machine.exec_append] at hexec
      obtain ⟨u, hu, hrest⟩ := Option.bind_eq_some_iff.mp hexec
      obtain rfl := Option.some.inj hrest
      rw [Battled.step_core (hkeep before a u (List.prefix_refl _) hu)]
      exact ih hu fun before' a' u' hpre hu' =>
        hkeep before' a' u' (hpre.trans (List.prefix_append _ _)) hu'
  obtain ⟨session, hs, hfields⟩ := Option.map_eq_some_iff.mp hcore
  simp only [BattleSession.core, Prod.mk.injEq] at hfields
  obtain ⟨hsec, hip, harena⟩ := hfields
  rw [udpdispatch_eq hs hlt hlen, hsec, hip, harena, if_pos ⟨horigin, hsecret⟩]

end AntServer.Battle
