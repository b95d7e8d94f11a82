/-
# AntServer.Game.UniqueUins — no player id is handed out twice

The servers that share the hash `max_uin`, started, stopped and started again in any order, with `born`
called on those that run. What carries the proof is what the field of a server holds (`Counted`): nothing
before its first start, and then its first number plus all that was added to it, restarts notwithstanding.
So the uins of one server grow, and those of two servers lie in disjoint ranges.
-/
import AntServer.Game.MaxUin
import AntServer.Lib.Machine
import Mathlib.Data.List.Induction

namespace AntServer.Game

open LuaNumber (integerText tonumber)
open Lib

/-! ## Servers that share a database -/

/-- The ids of the settings: a platform and a set of servers, of at most four digits each. -/
structure UinSettings (Server : Type*) where
  platformId : Nat
  serverId : Server → Nat
  platform_pos : 0 < platformId
  platform_lt : platformId < 10 ^ 4
  server_lt (i : Server) : serverId i < 10 ^ 4
  distinct : Function.Injective serverId

/-- The store of redis, which servers run, and, for the statements only, what `born` returned on which
server so far. -/
structure UinState (redis : Redis) (Server : Type*) where
  store : redis.Store
  running : Server → Bool
  uins : List (Server × List Char)

inductive UinCall (Server : Type*) where
  | start (i : Server)
  | stop (i : Server)
  | born (i : Server) (random : Fin 10)

namespace UinSettings

variable {Server : Type*} (settings : UinSettings Server) (redis : Redis)

/-- The field of a server in `max_uin`. -/
def field (i : Server) : List Char := tostring (settings.serverId i)

/-- The number of the first uin of a server. -/
def first (i : Server) : Nat := firstNumber settings.platformId (settings.serverId i)

variable {settings}

theorem field_injective {i j : Server} (h : settings.field i = settings.field j) : i = j :=
  settings.distinct (Decimal.toDigits_injective h)

/-- Every number that is counted to fits an integer. -/
theorem first_add_lt (settings : UinSettings Server) (i : Server) {c : Nat} (hc : c < 10 ^ 10) :
    settings.first i + c < 2 ^ 63 := by
  have hserver := settings.server_lt i
  have hplatform := settings.platform_lt
  unfold first firstNumber
  omega

theorem first_lt (settings : UinSettings Server) (i : Server) : settings.first i < 2 ^ 63 := by
  have := first_add_lt settings i (by decide : 0 < 10 ^ 10)
  rwa [Nat.add_zero] at this

/-- The ranges of two servers have no number in common. -/
theorem first_add_inj {i j : Server} {c d : Nat} (hc : c < 10 ^ 10) (hd : d < 10 ^ 10)
    (h : settings.first i + c = settings.first j + d) : i = j ∧ c = d := by
  have hi := settings.server_lt i
  have hj := settings.server_lt j
  unfold first firstNumber at h
  have hid : settings.serverId i = settings.serverId j := by omega
  exact ⟨settings.distinct hid, by omega⟩

/-- `init` leaves the field of its server at its number, or sets it to the first one. -/
theorem initAgentUin_eq (settings : UinSettings Server) (i : Server) {redis : Redis}
    (s : redis.Store) :
    initAgentUin redis settings.platformId (settings.serverId i) s =
      some (redis.hsetnx s maxUinKey (settings.field i) (integerText (settings.first i))) := by
  have htonumber : tonumber (firstUin settings.platformId (settings.serverId i)) =
      some (.int (settings.first i)) := by
    rw [firstUin_eq settings.platform_pos (settings.server_lt i)]
    exact LuaNumber.tonumber_toDigits (settings.first_lt i)
  unfold initAgentUin
  rw [htonumber, Option.map_some, redis.arg_int]
  rfl

/-! ## The calls -/

/-- The servers of the `born` calls, in their order. -/
def bornOn (calls : List (UinCall Server)) : List Server :=
  calls.filterMap fun
    | .born i _ => some i
    | _ => none

theorem bornOn_append (calls : List (UinCall Server)) (call : UinCall Server) :
    bornOn (calls ++ [call]) = bornOn calls ++ bornOn [call] := by
  simp [bornOn]

variable [DecidableEq Server] (settings)

/-- The servers of the settings over one redis. `hubd` dispatches nothing before `init` is through, so
`born` comes to servers that run only; when redis answers with an error it raises. -/
def machine : Machine (UinState redis Server) (UinCall Server) where
  start s :=
    (∀ i, redis.hget s.store maxUinKey (settings.field i) = none) ∧ (∀ i, s.running i = false) ∧
      s.uins = []
  step s
    | .start i =>
      (initAgentUin redis settings.platformId (settings.serverId i) s.store).map fun store =>
        { s with store := store, running := Function.update s.running i true }
    | .stop i => some { s with running := Function.update s.running i false }
    | .born i random =>
      if s.running i then
        match born redis (settings.field i) random s.store with
        | some (store, uin) => some { s with store := store, uins := s.uins ++ [(i, uin)] }
        | none => some s
      else none

/-! ## What the calls add up to -/

/-- What a call adds to the counter of a server. -/
def increment (i : Server) : UinCall Server → Nat
  | .born j random => if j = i then random.val + 1 else 0
  | _ => 0

/-- What the calls add to the counter of a server altogether. -/
def total (i : Server) (calls : List (UinCall Server)) : Nat := (calls.map (increment i)).sum

/-- What is promised of the uins handed out: one for each `born` call, no two equal, each an integer below
2^63 that is made of the platform, four digits of its server and ten of a counter, and that gives its
server away. -/
structure Unique (calls : List (UinCall Server)) (uins : List (Server × List Char)) : Prop where
  served : uins.map Prod.fst = bornOn calls
  distinct : (uins.map Prod.snd).Nodup
  integer : ∀ e ∈ uins, ∃ n : Nat, n < 2 ^ 63 ∧ e.2 = integerText n ∧ tonumber e.2 = some (.int n)
  decimal : ∀ e ∈ uins, ∃ counter < 10 ^ 10, e.2 = tostring settings.platformId ++
    fillString (tostring (settings.serverId e.1)) 4 ['0'] ++ fillString (tostring counter) 10 ['0']
  server : ∀ e ∈ uins, Nat.ofDigitChars 10 e.2 0 / 10 ^ 10 % 10 ^ 4 = settings.serverId e.1

/-! ## What the fields hold -/

/-- The store and the uins behind a run. -/
structure Counted (calls : List (UinCall Server)) (s : UinState redis Server) : Prop where
  field : ∀ i,
    redis.hget s.store maxUinKey (settings.field i) = none ∧ s.running i = false ∧ total i calls = 0 ∨
    redis.hget s.store maxUinKey (settings.field i) =
      some (integerText (settings.first i + total i calls : Nat))
  counted : ∀ e ∈ s.uins, ∃ c ≤ total e.1 calls,
    e.2 = Nat.toDigits 10 (settings.first e.1 + c)
  distinct : (s.uins.map Prod.snd).Nodup
  served : s.uins.map Prod.fst = bornOn calls

variable {settings redis}

section Calls

variable (i j : Server) (random : Fin 10) (calls : List (UinCall Server))

@[simp] theorem total_start : total j (calls ++ [UinCall.start i]) = total j calls := by
  simp [total, increment]

@[simp] theorem total_stop : total j (calls ++ [UinCall.stop i]) = total j calls := by
  simp [total, increment]

theorem total_born : total j (calls ++ [UinCall.born i random]) =
    total j calls + if i = j then random.val + 1 else 0 := by
  simp [total, increment]

end Calls

theorem Counted.start {calls : List (UinCall Server)} {s : UinState redis Server} (i : Server)
    (h : Counted settings redis calls s) :
    Counted settings redis (calls ++ [UinCall.start i])
      { s with
        store := redis.hsetnx s.store maxUinKey (settings.field i) (integerText (settings.first i))
        running := Function.update s.running i true } where
  field j := by
    rw [total_start, redis.hget_hsetnx]
    by_cases hj : j = i
    · subst hj
      rw [if_pos ⟨rfl, rfl⟩]
      rcases h.field j with ⟨hnone, -, htotal⟩ | hsome
      · exact .inr (by rw [hnone, htotal, Nat.add_zero, Option.getD_none])
      · exact .inr (by rw [hsome, Option.getD_some])
    · have hfield : settings.field j ≠ settings.field i := fun he => hj (field_injective he)
      have hrunning : Function.update s.running i true j = s.running j := Function.update_of_ne hj ..
      rw [if_neg fun hif => hfield hif.2]
      exact (h.field j).imp_left fun hstopped => ⟨hstopped.1, hrunning.trans hstopped.2.1, hstopped.2.2⟩
  counted e he := by
    rw [total_start]
    exact h.counted e he
  distinct := h.distinct
  served := by
    rw [bornOn_append, h.served]
    simp [bornOn]

theorem Counted.stop {calls : List (UinCall Server)} {s : UinState redis Server} (i : Server)
    (h : Counted settings redis calls s) :
    Counted settings redis (calls ++ [UinCall.stop i])
      { s with running := Function.update s.running i false } where
  field j := by
    rw [total_stop]
    rcases h.field j with ⟨hnone, hrunning, htotal⟩ | hsome
    · have hstopped : Function.update s.running i false j = false := by
        rw [Function.update_apply, hrunning, ite_self]
      exact .inl ⟨hnone, hstopped, htotal⟩
    · exact .inr hsome
  counted e he := by
    rw [total_stop]
    exact h.counted e he
  distinct := h.distinct
  served := by
    rw [bornOn_append, h.served]
    simp [bornOn]

/-- `born` on a running server counts on, to a number that nobody has yet. -/
theorem Counted.born {calls : List (UinCall Server)} {s : UinState redis Server} {i : Server}
    {random : Fin 10} (h : Counted settings redis calls s) (hrunning : s.running i = true)
    (htotal : ∀ j, total j (calls ++ [UinCall.born i random]) < 10 ^ 10) :
    ∃ store uin, Game.born redis (settings.field i) random s.store = some (store, uin) ∧
      Counted settings redis (calls ++ [UinCall.born i random])
        { s with store := store, uins := s.uins ++ [(i, uin)] } := by
  have hi : total i (calls ++ [UinCall.born i random]) = total i calls + (random.val + 1) := by
    rw [total_born, if_pos rfl]
  have hle (j : Server) : total j calls ≤ total j (calls ++ [UinCall.born i random]) := by
    rw [total_born]
    exact Nat.le_add_right _ _
  have hfield : redis.hget s.store maxUinKey (settings.field i) =
      some (integerText (settings.first i + total i calls : Nat)) := by
    rcases h.field i with ⟨-, hstopped, -⟩ | hsome
    · rw [hrunning] at hstopped
      cases hstopped
    · exact hsome
  have hsum : ((settings.first i + total i calls : Nat) : Int) + (random.val + 1) =
      ((settings.first i + total i (calls ++ [UinCall.born i random]) : Nat) : Int) := by
    rw [hi]
    push_cast
    ring
  have hlt := settings.first_add_lt i (htotal i)
  obtain ⟨store, hincrby, hget⟩ := redis.hincrby_integer s.store maxUinKey (settings.field i)
    (random.val + 1) (settings.first i + total i calls : Nat) (by rw [hfield, Option.getD_some])
    (by omega) (by omega) (by omega) (by omega)
  rw [hsum] at hincrby hget
  have hborn : Game.born redis (settings.field i) random s.store =
      some (store, Nat.toDigits 10 (settings.first i + total i (calls ++ [UinCall.born i random]))) := by
    unfold Game.born
    rw [hincrby]
    rfl
  refine ⟨store, _, hborn, ?_⟩
  exact
    { field := fun j => by
        by_cases hj : j = i
        · subst hj
          exact .inr (by rw [hget, if_pos ⟨rfl, rfl⟩])
        · have hfield : settings.field j ≠ settings.field i := fun he => hj (field_injective he)
          have hkeep : total j (calls ++ [UinCall.born i random]) = total j calls := by
            rw [total_born, if_neg (Ne.symm hj), Nat.add_zero]
          rw [hget, if_neg fun hif => hfield hif.2, hkeep]
          exact h.field j
      counted := fun e he => by
        rcases List.mem_append.mp he with he | he
        · obtain ⟨c, hc, hdigits⟩ := h.counted e he
          exact ⟨c, hc.trans (hle e.1), hdigits⟩
        · rw [List.mem_singleton.mp he]
          exact ⟨_, le_refl _, rfl⟩
      distinct := by
        rw [List.map_append, List.nodup_append]
        refine ⟨h.distinct, by simp, ?_⟩
        intro u hu v hv huv
        obtain ⟨e, he, rfl⟩ := List.mem_map.mp hu
        obtain ⟨c, hc, hdigits⟩ := h.counted e he
        -- the uin before would be the number now counted to, above all of its server
        rw [hdigits, List.mem_singleton.mp hv] at huv
        obtain ⟨hei, hcount⟩ := first_add_inj (hc.trans_lt ((hle e.1).trans_lt (htotal e.1)))
          (htotal i) (Decimal.toDigits_injective huv)
        rw [hei] at hc
        omega
      served := by
        rw [List.map_append, bornOn_append, h.served]
        simp [bornOn] }

/-! ## Every run -/

theorem counted_exec {s s' : UinState redis Server} {calls : List (UinCall Server)}
    (hstart : (settings.machine redis).start s) (hrun : (settings.machine redis).exec s calls = some s')
    (htotal : ∀ i, total i calls < 10 ^ 10) : Counted settings redis calls s' := by
  induction calls using List.reverseRecOn generalizing s' with
  | nil =>
    obtain rfl : s = s' := Option.some.inj hrun
    obtain ⟨hnone, hstopped, huins⟩ := hstart
    exact
      { field := fun i => .inl ⟨hnone i, hstopped i, rfl⟩
        counted := fun e he => by rw [huins] at he; cases he
        distinct := by rw [huins]; exact List.nodup_nil
        served := by rw [huins]; rfl }
  | append_singleton calls call ih =>
    rw [Machine.exec_append] at hrun
    obtain ⟨t, ht, hcall⟩ := Option.bind_eq_some_iff.mp hrun
    rw [Machine.exec_cons] at hcall
    obtain ⟨t', hstep, hnil⟩ := Option.bind_eq_some_iff.mp hcall
    obtain rfl : t' = s' := Option.some.inj hnil
    have hcounted : Counted settings redis calls t := by
      refine ih ht fun i => lt_of_le_of_lt ?_ (htotal i)
      simp [total]
    unfold machine at hstep
    cases call with
    | start i =>
      simp only [initAgentUin_eq, Option.map_some, Option.some.injEq] at hstep
      exact hstep ▸ hcounted.start i
    | stop i =>
      simp only [Option.some.injEq] at hstep
      exact hstep ▸ hcounted.stop i
    | born i random =>
      simp only [Option.ite_none_right_eq_some] at hstep
      obtain ⟨hrunning, hstep⟩ := hstep
      obtain ⟨store, uin, hborn, hnext⟩ := hcounted.born hrunning htotal
      rw [hborn] at hstep
      exact Option.some.inj hstep ▸ hnext

/-- The uins handed out on servers that share `max_uin` are unique. -/
theorem uins_unique (settings : UinSettings Server) (redis : Redis) {s s' : UinState redis Server}
    {calls : List (UinCall Server)} (hstart : (settings.machine redis).start s)
    (hrun : (settings.machine redis).exec s calls = some s')
    (htotal : ∀ i, total i calls < 10 ^ 10) : settings.Unique calls s'.uins := by
  have hcounted := counted_exec hstart hrun htotal
  exact
    { served := hcounted.served
      distinct := hcounted.distinct
      integer := fun e he => by
        obtain ⟨c, hc, hdigits⟩ := hcounted.counted e he
        have hlt := settings.first_add_lt e.1 (hc.trans_lt (htotal e.1))
        exact ⟨_, hlt, hdigits, hdigits ▸ LuaNumber.tonumber_toDigits hlt⟩
      decimal := fun e he => by
        obtain ⟨c, hc, hdigits⟩ := hcounted.counted e he
        have hlt := hc.trans_lt (htotal e.1)
        exact ⟨c, hlt, hdigits.trans (toDigits_uin settings.platform_pos (settings.server_lt e.1) hlt)⟩
      server := fun e he => by
        obtain ⟨c, hc, hdigits⟩ := hcounted.counted e he
        have hlt := hc.trans_lt (htotal e.1)
        have hserver := settings.server_lt e.1
        rw [hdigits, Nat.ofDigitChars_ten_toDigits]
        unfold first firstNumber
        omega }

/-- Servers 1 and 2 of platform 1. -/
def twoServers : UinSettings Bool where
  platformId := 1
  serverId i := if i then 2 else 1
  platform_pos := by decide
  platform_lt := by decide
  server_lt := by decide
  distinct := by unfold Function.Injective; decide

/-- The hash `max_uin` is empty, and no server runs. -/
def beforeFirstStart : UinState Redis.table Bool where
  store := Table.empty
  running _ := false
  uins := []

/-- A role is born on server 1, which is restarted before the next one; then one on server 2. -/
theorem uins_unique_twoServers :
    let calls := [.start false, .born false 2, .stop false, .start false, .born false 0, .start true,
      .born true 9]
    twoServers.Unique calls [(false, "100010000000003".toList), (false, "100010000000004".toList),
      (true, "100020000000010".toList)] := by
  intro calls
  have hrun : ((twoServers.machine Redis.table).exec beforeFirstStart calls).map (·.uins) =
      some [(false, "100010000000003".toList), (false, "100010000000004".toList),
        (true, "100020000000010".toList)] := by decide +kernel
  obtain ⟨s', hexec, huins⟩ := Option.map_eq_some_iff.mp hrun
  rw [← huins]
  exact uins_unique twoServers Redis.table ⟨fun _ => rfl, fun _ => rfl, rfl⟩ hexec (by decide)

end UinSettings

end AntServer.Game
