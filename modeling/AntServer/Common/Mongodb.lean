/-
# AntServer.Common.Mongodb — the counters of `mongodb:incr`

`service/common/mongodb/mongodb.lua`: `incr` reads the `uuid` of a key in `tb_key` with `findOne` and writes
the next one with `update`. They are two requests to the database, so other calls may come between them.
A call is pending from its `findOne` to its `update`; when this fails, the `assert` raises and the call
returns nothing.

Two calls of one key that are pending together read the same `uuid` and return the same id. While no
`findOne` comes in between the two requests of another call of its key, and the 64 bits of a Lua integer
do not run over, the ids of a key go up and the last one is what is stored (`unique_of_apart`); in a run
in which every call returned nothing else can be (`apart_of_unique`).
-/
import AntServer.Lib.Machine
import Mathlib.Data.List.Nodup
import Mathlib.Tactic.Ring

namespace AntServer.Common.Mongodb

open Lib (Machine)

/-! ## The database and its callers -/

/-- A Lua integer. -/
abbrev Integer := BitVec 64

/-- A call of `incr` between its two requests, with the id it is going to write. -/
structure Call (ι κ : Type) where
  caller : ι
  key : κ
  id : Integer
  deriving DecidableEq

/-- The `uuid` of each key in `tb_key`, the calls that are pending, and the ids that were returned. -/
structure State (ι κ : Type) where
  db : κ → Option Integer
  pending : List (Call ι κ)
  returned : List (κ × Integer)

/-- The requests to the database: `ok` is what `update` returns. -/
inductive Action (ι κ : Type) where
  | findOne (caller : ι) (key : κ)
  | update (caller : ι) (ok : Bool)
  deriving DecidableEq

/-- The id of `incr` from the document that `findOne` gives. -/
def nextId (ret : Option Integer) : Integer := ret.getD 0 + 1

section Machine

variable {ι κ : Type} [DecidableEq ι] [DecidableEq κ]

/-- `update` with `upsert`, and what follows it in `incr`. -/
def finish (s : State ι κ) (c : Call ι κ) (ok : Bool) : State ι κ :=
  if ok then
    { db := fun key => if key = c.key then some c.id else s.db key
      pending := s.pending.erase c
      returned := s.returned ++ [(c.key, c.id)] }
  else
    { s with pending := s.pending.erase c }

def step (s : State ι κ) : Action ι κ → Option (State ι κ)
  | .findOne caller key =>
    if s.pending.any fun c => c.caller = caller then none
    else some { s with pending := ⟨caller, key, nextId (s.db key)⟩ :: s.pending }
  | .update caller ok => (s.pending.find? fun c => c.caller = caller).map fun c => finish s c ok

/-- Any number of callers on any documents. -/
def machine (ι κ : Type) [DecidableEq ι] [DecidableEq κ] : Machine (State ι κ) (Action ι κ) where
  start s := s.pending = [] ∧ s.returned = []
  step := step

/-- The ids that were returned for a key, in order. -/
def State.idsOf (s : State ι κ) (key : κ) : List Integer :=
  (s.returned.filter fun r => r.1 = key).map Prod.snd

/-- The ids of a key are distinct, and the largest one is stored. -/
structure Unique (s : State ι κ) : Prop where
  distinct : ∀ key, (s.idsOf key).Nodup
  largest : ∀ key, s.idsOf key ≠ [] →
    ∃ id, s.db key = some id ∧ id ∈ s.idsOf key ∧ ∀ id' ∈ s.idsOf key, id'.toInt ≤ id.toInt

/-- The last integer before they run over. -/
def maxInteger : Integer := BitVec.intMax 64

/-- No `findOne` comes in between the requests of another call of its key, nor finds the last integer
when an id was returned before. -/
def Apart (s : State ι κ) : Action ι κ → Prop
  | .findOne _ key => (∀ c ∈ s.pending, c.key ≠ key) ∧ (s.idsOf key ≠ [] → s.db key ≠ some maxInteger)
  | .update _ _ => True

/-! ## The numbers -/

theorem toInt_le_maxInteger (x : Integer) : x.toInt ≤ maxInteger.toInt := by
  have hmax : maxInteger.toInt = 2 ^ 63 - 1 := by decide
  have hlt := BitVec.toInt_lt (x := x)
  rw [hmax]
  omega

theorem toInt_nextId {x : Integer} (h : x ≠ maxInteger) : (nextId (some x)).toInt = x.toInt + 1 := by
  have hne : x.toInt ≠ maxInteger.toInt := fun heq => h (BitVec.eq_of_toInt_eq heq)
  have hmax : maxInteger.toInt = 2 ^ 63 - 1 := by decide
  have hle := toInt_le_maxInteger x
  have hlow := BitVec.le_toInt (x := x)
  change (x + 1).toInt = _
  rw [BitVec.toInt_add]
  change (x.toInt + 1).bmod (2 ^ 64) = _
  rw [Int.bmod_eq_of_le]
  · omega
  · omega

/-! ## One step -/

/-- What a request does: a caller that is not pending becomes pending, or a pending call is finished. -/
theorem step_cases {s s' : State ι κ} {a : Action ι κ} (h : step s a = some s') :
    (∃ caller key, a = .findOne caller key ∧
      s' = { s with pending := ⟨caller, key, nextId (s.db key)⟩ :: s.pending }) ∨
    (∃ caller ok, ∃ c ∈ s.pending, a = .update caller ok ∧ s' = finish s c ok) := by
  cases a with
  | findOne caller key =>
    simp only [step] at h
    split at h
    · cases h
    · exact .inl ⟨caller, key, rfl, (Option.some.inj h).symm⟩
  | update caller ok =>
    obtain ⟨c, hc, rfl⟩ := Option.map_eq_some_iff.mp h
    exact .inr ⟨caller, ok, c, List.mem_of_find?_eq_some hc, rfl, rfl⟩

theorem idsOf_finish (s : State ι κ) (c : Call ι κ) (key : κ) :
    (finish s c true).idsOf key = s.idsOf key ++ if c.key = key then [c.id] else [] := by
  by_cases hkey : c.key = key
  · simp [State.idsOf, finish, List.filter_append, hkey]
  · simp [State.idsOf, finish, List.filter_append, hkey]

theorem db_finish (s : State ι κ) (c : Call ι κ) (key : κ) :
    (finish s c true).db key = if key = c.key then some c.id else s.db key := rfl

theorem pending_finish (s : State ι κ) (c : Call ι κ) (ok : Bool) :
    (finish s c ok).pending = s.pending.erase c := by
  cases ok
  · rfl
  · rfl

/-! ## Calls that stay apart -/

/-- The states of runs in which the calls stay apart: a key has one pending call at most, which read what
is stored. -/
structure Ordered (s : State ι κ) : Prop extends Unique s where
  single : s.pending.Pairwise fun c c' => c.key ≠ c'.key
  read : ∀ c ∈ s.pending, c.id = nextId (s.db c.key)
  room : ∀ c ∈ s.pending, s.idsOf c.key ≠ [] → s.db c.key ≠ some maxInteger

omit [DecidableEq ι] in
theorem Ordered.findOne {s : State ι κ} (h : Ordered s) {caller : ι} {key : κ}
    (hapart : Apart s (.findOne caller key)) :
    Ordered { s with pending := ⟨caller, key, nextId (s.db key)⟩ :: s.pending } where
  distinct := h.distinct
  largest := h.largest
  single := List.pairwise_cons.mpr ⟨fun c hc => (hapart.1 c hc).symm, h.single⟩
  read := List.forall_mem_cons.mpr ⟨rfl, h.read⟩
  room := List.forall_mem_cons.mpr ⟨hapart.2, h.room⟩

omit [DecidableEq ι] in
/-- The id of a pending call is larger than those that were returned for its key. -/
theorem Ordered.toInt_lt {s : State ι κ} (h : Ordered s) {c : Call ι κ} (hc : c ∈ s.pending) :
    ∀ id ∈ s.idsOf c.key, id.toInt < c.id.toInt := by
  intro id hid
  have hne : s.idsOf c.key ≠ [] := List.ne_nil_of_mem hid
  obtain ⟨last, hstored, -, hmax⟩ := h.largest c.key hne
  have hroom : last ≠ maxInteger := fun heq => h.room c hc hne (heq ▸ hstored)
  have hle := hmax id hid
  rw [h.read c hc, hstored, toInt_nextId hroom]
  omega

/-- Another pending call is one of another key. -/
theorem Ordered.key_ne {s : State ι κ} (h : Ordered s) {c c' : Call ι κ} (hc : c ∈ s.pending)
    (hc' : c' ∈ s.pending.erase c) : c'.key ≠ c.key := by
  have hperm := List.perm_cons_erase hc
  have hpair := (hperm.pairwise_iff fun hne => Ne.symm hne).mp h.single
  exact ((List.pairwise_cons.mp hpair).1 c' hc').symm

theorem Ordered.finish {s : State ι κ} (h : Ordered s) {c : Call ι κ} (hc : c ∈ s.pending) (ok : Bool) :
    Ordered (finish s c ok) := by
  have hsub : ∀ c' ∈ s.pending.erase c, c' ∈ s.pending := fun c' => List.mem_of_mem_erase
  have hsingle : (s.pending.erase c).Pairwise fun c c' => c.key ≠ c'.key :=
    h.single.sublist List.erase_sublist
  cases ok with
  | false => exact ⟨⟨h.distinct, h.largest⟩, hsingle, fun c' hc' => h.read c' (hsub c' hc'),
      fun c' hc' => h.room c' (hsub c' hc')⟩
  | true =>
    refine ⟨⟨fun key => ?_, fun key hne => ?_⟩, hsingle, fun c' hc' => ?_, fun c' hc' => ?_⟩
    · rw [idsOf_finish]
      split
      · -- the id that is returned is larger than those before it
        rename_i hkey
        subst hkey
        refine List.nodup_append.mpr ⟨h.distinct c.key, List.nodup_singleton _, ?_⟩
        intro id hid id' hid'
        obtain rfl := List.mem_singleton.mp hid'
        have hlt := h.toInt_lt hc id hid
        rintro rfl
        omega
      · rw [List.append_nil]
        exact h.distinct key
    · rw [idsOf_finish] at hne ⊢
      rw [db_finish]
      split
      · rename_i hkey
        subst hkey
        rw [if_pos rfl] at hne ⊢
        refine ⟨c.id, rfl, by simp, fun id hid => ?_⟩
        rcases List.mem_append.mp hid with hid | hid
        · exact (h.toInt_lt hc id hid).le
        · rw [List.mem_singleton.mp hid]
      · rename_i hkey
        rw [if_neg (Ne.symm hkey), List.append_nil] at hne ⊢
        exact h.largest key hne
    · -- the calls that are still pending are of other keys
      rw [db_finish, if_neg (h.key_ne hc hc')]
      exact h.read c' (hsub c' hc')
    · rw [idsOf_finish, if_neg (h.key_ne hc hc').symm, List.append_nil, db_finish, if_neg (h.key_ne hc hc')]
      exact h.room c' (hsub c' hc')

theorem ordered_step {s s' : State ι κ} {a : Action ι κ} (h : Ordered s) (hapart : Apart s a)
    (hstep : step s a = some s') : Ordered s' := by
  obtain ⟨caller, key, rfl, rfl⟩ | ⟨caller, ok, c, hc, -, rfl⟩ := step_cases hstep
  · exact h.findOne hapart
  · exact h.finish hc ok

theorem ordered_start {s : State ι κ} (h : (machine ι κ).start s) : Ordered s := by
  obtain ⟨hpending, hreturned⟩ := h
  have hids : ∀ key, s.idsOf key = [] := fun key => by simp [State.idsOf, hreturned]
  refine ⟨⟨fun key => ?_, fun key hne => absurd (hids key) hne⟩, ?_, ?_, ?_⟩
  · rw [hids]
    exact List.nodup_nil
  · rw [hpending]
    exact List.Pairwise.nil
  · simp [hpending]
  · simp [hpending]

/-- In every run in which the calls stay apart, whatever fails, the ids of each key are distinct and the
largest one is stored, all along. -/
theorem unique_of_apart {s : State ι κ} (h : (machine ι κ).ReachUnder Apart s) : Unique s :=
  (h.invariant Ordered (fun _ => ordered_start) fun _ _ _ _ hordered hapart hstep =>
    ordered_step hordered hapart hstep).toUnique

/-! ## Calls that all return -/

/-- An `update` that does not fail. -/
def Succeeds : Action ι κ → Prop
  | .findOne _ _ => True
  | .update _ ok => ok = true

/-- How often an id was returned for a key or is going to be. -/
def State.total (s : State ι κ) (key : κ) (id : Integer) : Nat :=
  (s.idsOf key).count id + s.pending.countP fun c => c.key = key ∧ c.id = id

/-- Ids that two calls have are returned twice. -/
theorem total_le_step {s s' : State ι κ} {a : Action ι κ} (ha : Succeeds a) (hstep : step s a = some s')
    (key : κ) (id : Integer) : s.total key id ≤ s'.total key id := by
  obtain ⟨caller, key', rfl, rfl⟩ | ⟨caller, ok, c, hc, rfl, rfl⟩ := step_cases hstep
  · simp only [State.total, State.idsOf, List.countP_cons]
    omega
  · obtain rfl : ok = true := ha
    have hperm := (List.perm_cons_erase hc).countP_eq fun c => decide (c.key = key ∧ c.id = id)
    rw [List.countP_cons] at hperm
    simp only [State.total, idsOf_finish, pending_finish, List.count_append]
    rw [hperm]
    by_cases hkey : c.key = key
    · by_cases hid : c.id = id
      · simp [hkey, hid]
        omega
      · simp [hkey, hid]
    · simp [hkey]

/-- The ids of a key from some point on: none yet and a call that is pending, or the last one is stored. -/
def Since (key : κ) (before : List Integer) (s : State ι κ) : Prop :=
  ((∃ c ∈ s.pending, c.key = key) ∧ s.idsOf key = before) ∨
    ∃ ids id, s.idsOf key = before ++ ids ++ [id] ∧ s.db key = some id

theorem since_step {s s' : State ι κ} {a : Action ι κ} (ha : Succeeds a) {key : κ} {before : List Integer}
    (h : Since key before s) (hstep : step s a = some s') : Since key before s' := by
  obtain ⟨caller, key', rfl, rfl⟩ | ⟨caller, ok, c, hc, rfl, rfl⟩ := step_cases hstep
  · rcases h with ⟨⟨c, hc, hkey⟩, hids⟩ | h
    · exact .inl ⟨⟨c, List.mem_cons_of_mem _ hc, hkey⟩, hids⟩
    · exact .inr h
  · obtain rfl : ok = true := ha
    by_cases hkey : c.key = key
    · -- this call returns an id of the key, and stores it
      right
      rw [idsOf_finish, db_finish, if_pos hkey, if_pos hkey.symm]
      rcases h with ⟨-, hids⟩ | ⟨ids, id, hids, -⟩
      · exact ⟨[], c.id, by simp [hids], rfl⟩
      · exact ⟨ids ++ [id], c.id, by simp [hids], rfl⟩
    · rw [Since, idsOf_finish, db_finish, pending_finish, if_neg hkey, if_neg (Ne.symm hkey), List.append_nil]
      rcases h with ⟨⟨c', hc', hkey'⟩, hids⟩ | h
      · have hne : c' ≠ c := fun heq => hkey (heq ▸ hkey')
        exact .inl ⟨⟨c', (List.mem_erase_of_ne hne).mpr hc', hkey'⟩, hids⟩
      · exact .inr h

/-- A `findOne` that does not keep apart is followed by two equal ids, or by a smaller one. -/
theorem apart_of_unique_after {s s₁ s' : State ι κ} {caller : ι} {key : κ} {as : List (Action ι κ)}
    (h : Ordered s) (hstep : step s (.findOne caller key) = some s₁) (has : ∀ a ∈ as, Succeeds a)
    (hrun : (machine ι κ).exec s₁ as = some s') (hdone : s'.pending = []) (hunique : Unique s') :
    Apart s (.findOne caller key) := by
  obtain ⟨caller', key', heq, rfl⟩ | ⟨caller', ok, c, -, heq, -⟩ := step_cases hstep
  swap
  · cases heq
  obtain ⟨rfl, rfl⟩ := Action.findOne.inj heq
  constructor
  · intro c hc hkey
    -- both calls have the next id of what is stored
    have htwo : 2 ≤ State.total { s with pending := ⟨caller, key, nextId (s.db key)⟩ :: s.pending } key
        (nextId (s.db key)) := by
      have hpos : 0 < s.pending.countP fun c => c.key = key ∧ c.id = nextId (s.db key) :=
        List.countP_pos_iff.mpr ⟨c, hc, by simp [hkey, h.read c hc]⟩
      simp only [State.total, List.countP_cons, and_self, decide_true, if_true]
      omega
    have hend := Machine.exec_invariant (fun t : State ι κ => 2 ≤ t.total key (nextId (s.db key)))
      (fun t a t' ha hle hstep => hle.trans (total_le_step ha hstep _ _)) has htwo hrun
    have hone := List.nodup_iff_count_le_one.mp (hunique.distinct key) (nextId (s.db key))
    simp only [State.total, hdone, List.countP_nil] at hend
    omega
  · intro hne hstored
    have hsince : Since key (s.idsOf key)
        { s with pending := ⟨caller, key, nextId (s.db key)⟩ :: s.pending } :=
      .inl ⟨⟨_, List.mem_cons_self, rfl⟩, rfl⟩
    have hend := Machine.exec_invariant (Since key (s.idsOf key))
      (fun t a t' ha hs hstep => since_step ha hs hstep) has hsince hrun
    rcases hend with ⟨⟨c, hc, -⟩, -⟩ | ⟨ids, id, hids, hlast⟩
    · rw [hdone] at hc
      cases hc
    · -- the last integer was returned, so it is the largest one, and it is not the last
      obtain ⟨top, htop, hmem, -⟩ := h.largest key hne
      obtain rfl : top = maxInteger := Option.some.inj (htop.symm.trans hstored)
      obtain ⟨id', hid', -, hmax⟩ := hunique.largest key (by simp [hids])
      obtain rfl : id' = id := Option.some.inj (hid'.symm.trans hlast)
      have hle := hmax maxInteger (by rw [hids]; simp [hmem])
      have heq : id' = maxInteger := BitVec.eq_of_toInt_eq (le_antisymm (toInt_le_maxInteger id') hle)
      have hnodup := hunique.distinct key
      rw [hids, List.append_assoc, List.nodup_append] at hnodup
      exact hnodup.2.2 maxInteger hmem id' (by simp) heq.symm

/-- From an ordered state: a run in which every call returned, with distinct ids and the largest one stored,
kept its calls apart. -/
theorem apart_of_unique {s s' : State ι κ} {as : List (Action ι κ)} (h : Ordered s)
    (has : ∀ a ∈ as, Succeeds a) (hrun : (machine ι κ).exec s as = some s') (hdone : s'.pending = [])
    (hunique : Unique s') : (machine ι κ).Meets Apart s as := by
  induction as generalizing s with
  | nil => trivial
  | cons a as ih =>
    obtain ⟨t, ht, hrest⟩ := Option.bind_eq_some_iff.mp hrun
    have hsucceed := List.forall_mem_cons.mp has
    have hapart : Apart s a := by
      cases a with
      | findOne caller key => exact apart_of_unique_after h ht hsucceed.2 hrest hdone hunique
      | update _ _ => trivial
    refine ⟨hapart, fun t' ht' => ?_⟩
    obtain rfl : t = t' := Option.some.inj (ht.symm.trans ht')
    exact ih (ordered_step h hapart ht) hsucceed.2 hrest

/-- Every run of calls of `incr` on any documents: while they stay apart the ids of each key are distinct and
the largest one is stored; and where every call has returned, only then. -/
theorem incr_iff {s s' : State ι κ} (as : List (Action ι κ)) (hs : (machine ι κ).start s)
    (hrun : (machine ι κ).exec s as = some s') :
    ((machine ι κ).Meets Apart s as → Unique s') ∧
      (s'.pending = [] → (∀ a ∈ as, Succeeds a) → Unique s' → (machine ι κ).Meets Apart s as) :=
  ⟨fun hapart => unique_of_apart (Machine.ReachUnder.exec (.start hs) hapart hrun),
    fun hdone has hunique => apart_of_unique (ordered_start hs) has hrun hdone hunique⟩

end Machine

/-- Two calls one after the other on a missing key. -/
theorem incr_iff_twice : ∃ s', (machine Bool Unit).exec ⟨fun _ => none, [], []⟩
    [.findOne false ⟨⟩, .update false true, .findOne true ⟨⟩, .update true true] = some s' ∧
      s'.idsOf ⟨⟩ = [1, 2] ∧ Unique s' := by
  have hend : ∃ s', (machine Bool Unit).exec ⟨fun _ => none, [], []⟩
      [.findOne false ⟨⟩, .update false true, .findOne true ⟨⟩, .update true true] = some s' ∧
        s'.idsOf ⟨⟩ = [1, 2] := ⟨_, rfl, by decide⟩
  obtain ⟨s', hrun, hids⟩ := hend
  refine ⟨s', hrun, hids, (incr_iff _ ⟨rfl, rfl⟩ hrun).1 ?_⟩
  refine ⟨⟨by simp, by simp [State.idsOf]⟩, fun s₁ h₁ => ?_⟩
  obtain rfl := Option.some.inj h₁
  refine ⟨trivial, fun s₂ h₂ => ?_⟩
  obtain rfl := Option.some.inj h₂
  refine ⟨⟨by decide, fun _ => by decide⟩, fun s₃ h₃ => ?_⟩
  obtain rfl := Option.some.inj h₃
  exact ⟨trivial, fun _ _ => trivial⟩

/-- Two calls read a missing key before either writes it: both return 1. -/
theorem not_unique : ∃ s', (machine Bool Unit).exec ⟨fun _ => none, [], []⟩
    [.findOne false ⟨⟩, .findOne true ⟨⟩, .update false true, .update true true] = some s' ∧
      s'.pending = [] ∧ s'.idsOf ⟨⟩ = [1, 1] ∧ ¬ Unique s' := by
  refine ⟨_, rfl, by decide, by decide, fun h => ?_⟩
  exact absurd (h.distinct ⟨⟩) (by decide)

end AntServer.Common.Mongodb
