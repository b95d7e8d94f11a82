/-
# AntServer.Game.TokenExpiry — when a token is taken back

`CMD.access` of `service/game/hubd.lua` stamps a record with `os.time()`, in seconds since 1970;
`handshake_timeout` stamps it with `skynet.now()`, in hundredths of a second since the node started, and
compares the stamp with `skynet.now()` and with `tcount = 15`. A record that never had a connection only
has the stamp of its access. So it goes when the hundredths of the uptime have caught up with the date
(half a year after the start, by today's date), and from then on at once, whatever its age.

A `Timed` node is a node with its clock: `access` reads the one and a sweep the other time of it. The
age of a record is what the clock says it is, and a sweep is right about a record without a connection
exactly when the code's comparison and the age agree (`sweepRight_iff`).
-/
import AntServer.Game.Reaction
import AntServer.Game.Tables
import Mathlib.Data.List.Induction

namespace AntServer.Game

open Lib (Table)

/-! ## One sweep, entry by entry -/

namespace Hub

/-- What a sweep at `now` takes: the record of the uid has no connection, and its time is up. -/
def Expired (h : Hub) (now : Int) (uid : String) : Prop :=
  ∃ r user, h.userMap.get uid = some r ∧ h.users.get r = some user ∧ user.conn = none ∧
    now - user.tm ≥ tcount

/-- What one turn of a sweep, or several, do: they take the entries `taken` and tell of them. -/
structure Takes (now : Int) (h h' : Hub) (taken : String → Prop) : Prop where
  userMap : ∀ uid, ¬ taken uid → h'.userMap.get uid = h.userMap.get uid
  gone : ∀ uid, taken uid → h'.userMap.get uid = none
  told : ∀ uid, taken uid → h'.notices.count uid = h.notices.count uid + 1
  quiet : ∀ uid, ¬ taken uid → h'.notices.count uid = h.notices.count uid
  users : ∀ r user, h.users.get r = some user → user.conn = none → h'.users.get r = some user
  users' : ∀ r user, h'.users.get r = some user → user.conn = none → h.users.get r = some user

/-- A turn takes the entry of its uid, if it has expired. -/
theorem timeoutUser_takes (now : Int) (h : Hub) (uid : String) :
    Takes now h (timeoutUser now h uid) fun k => k = uid ∧ h.Expired now uid := by
  have hkept : (¬ h.Expired now uid) → ∀ users : Table Nat User,
      (∀ r user, h.users.get r = some user → user.conn = none → users.get r = some user) →
      (∀ r user, users.get r = some user → user.conn = none → h.users.get r = some user) →
      Takes now h { h with users := users } fun k => k = uid ∧ h.Expired now uid := by
    intro hno users hold hnew
    exact ⟨fun _ _ => rfl, fun k hk => absurd hk.2 hno, fun k hk => absurd hk.2 hno, fun _ _ => rfl,
      hold, hnew⟩
  have hsame : (¬ h.Expired now uid) → Takes now h h fun k => k = uid ∧ h.Expired now uid :=
    fun hno => hkept hno h.users (fun _ _ hr _ => hr) fun _ _ hr _ => hr
  unfold timeoutUser
  cases hmap : h.userMap.get uid with
  | none =>
    refine hsame ?_
    rintro ⟨r, user, hr, -⟩
    rw [hmap] at hr
    cases hr
  | some r =>
    simp only
    cases huser : h.users.get r with
    | none =>
      refine hsame ?_
      rintro ⟨q, user, hq, hu, -⟩
      rw [hmap] at hq
      obtain rfl := Option.some.inj hq
      rw [huser] at hu
      cases hu
    | some user =>
      have hexpired : h.Expired now uid ↔ user.conn = none ∧ now - user.tm ≥ tcount := by
        constructor
        · rintro ⟨q, user', hq, hu, hold⟩
          rw [hmap] at hq
          obtain rfl := Option.some.inj hq
          rw [huser] at hu
          exact Option.some.inj hu ▸ hold
        · exact fun hold => ⟨r, user, hmap, huser, hold⟩
      simp only
      cases hconn : user.conn with
      | some conn =>
        -- the record is stamped
        refine hkept (fun hex => ?_) _ (fun q user' hq hnone => ?_) fun q user' hq hnone => ?_
        · rw [hexpired, hconn] at hex
          cases hex.1
        · by_cases hqr : q = r
          · subst hqr
            rw [huser] at hq
            obtain rfl := Option.some.inj hq
            rw [hconn] at hnone
            cases hnone
          · exact (Table.get_set_ne _ _ hqr).trans hq
        · by_cases hqr : q = r
          · subst hqr
            rw [Table.get_set_self] at hq
            obtain rfl := Option.some.inj hq
            cases hnone
          · exact (Table.get_set_ne _ _ hqr).symm.trans hq
      | none =>
        simp only
        by_cases hold : now - user.tm ≥ tcount
        · rw [if_pos hold]
          have hex : h.Expired now uid := hexpired.mpr ⟨hconn, hold⟩
          refine ⟨fun k hk => ?_, ?_, ?_, fun k hk => ?_, fun _ _ hr _ => hr, fun _ _ hr _ => hr⟩
          · exact Table.get_del_ne _ fun he => hk ⟨he, hex⟩
          · rintro k ⟨rfl, -⟩
            exact Table.get_del_self _ _
          · rintro k ⟨rfl, -⟩
            exact List.count_cons_self
          · exact List.count_cons_of_ne fun he => hk ⟨he.symm, hex⟩
        · rw [if_neg hold]
          exact hsame fun hex => hold (hexpired.mp hex).2

/-- Whether another entry has expired does not change. -/
theorem Takes.expired {now : Int} {h h' : Hub} {taken : String → Prop} (ht : Takes now h h' taken)
    {uid : String} (huid : ¬ taken uid) : h'.Expired now uid ↔ h.Expired now uid := by
  unfold Expired
  rw [ht.userMap uid huid]
  constructor
  · rintro ⟨r, user, hr, hu, hconn, hold⟩
    exact ⟨r, user, hr, ht.users' r user hu hconn, hconn, hold⟩
  · rintro ⟨r, user, hr, hu, hconn, hold⟩
    exact ⟨r, user, hr, ht.users r user hu hconn, hconn, hold⟩

/-- A sweep takes exactly the entries that have expired. -/
theorem handshakeTimeout_takes (h : Hub) (now : Int) :
    Takes now h (h.handshakeTimeout now) (h.Expired now) := by
  have hall : ∀ uids : List String, uids.Nodup → ∀ h : Hub,
      Takes now h (uids.foldl (timeoutUser now) h) fun k => k ∈ uids ∧ h.Expired now k := by
    intro uids huids
    induction uids with
    | nil =>
      exact fun h => ⟨fun _ _ => rfl, fun k hk => absurd hk.1 List.not_mem_nil,
        fun k hk => absurd hk.1 List.not_mem_nil, fun _ _ => rfl, fun _ _ hr _ => hr,
        fun _ _ hr _ => hr⟩
    | cons uid uids ih =>
      intro h
      obtain ⟨hnew, huids⟩ := List.nodup_cons.mp huids
      have hone := timeoutUser_takes now h uid
      have hrest := ih huids (timeoutUser now h uid)
      -- an entry is taken by its own turn or by none
      have hlater : ∀ k, k ≠ uid → ((k ∈ uids ∧ (timeoutUser now h uid).Expired now k) ↔
          k ∈ uid :: uids ∧ h.Expired now k) := by
        intro k hk
        rw [hone.expired fun he => hk he.1, List.mem_cons]
        simp [hk]
      have hself : ¬ (uid ∈ uids ∧ (timeoutUser now h uid).Expired now uid) := fun he => hnew he.1
      refine ⟨fun k hk => ?_, fun k hk => ?_, fun k hk => ?_, fun k hk => ?_, fun r user hr hc => ?_,
        fun r user hr hc => ?_⟩
      · by_cases hku : k = uid
        · subst hku
          refine (hrest.userMap k hself).trans (hone.userMap k fun he => hk ⟨?_, he.2⟩)
          exact List.mem_cons_self
        · exact (hrest.userMap k (mt (hlater k hku).mp hk)).trans
            (hone.userMap k fun he => hku he.1)
      · by_cases hku : k = uid
        · subst hku
          exact (hrest.userMap k hself).trans (hone.gone k ⟨rfl, hk.2⟩)
        · exact hrest.gone k ((hlater k hku).mpr hk)
      · by_cases hku : k = uid
        · subst hku
          exact (hrest.quiet k hself).trans (hone.told k ⟨rfl, hk.2⟩)
        · rw [List.foldl_cons, hrest.told k ((hlater k hku).mpr hk),
            hone.quiet k fun he => hku he.1]
      · by_cases hku : k = uid
        · subst hku
          refine (hrest.quiet k hself).trans (hone.quiet k fun he => hk ⟨?_, he.2⟩)
          exact List.mem_cons_self
        · exact (hrest.quiet k (mt (hlater k hku).mp hk)).trans (hone.quiet k fun he => hku he.1)
      · exact hrest.users r user (hone.users r user hr hc) hc
      · exact hone.users' r user (hrest.users' r user hr hc) hc
  have h' := hall h.userMap.keys (Table.keys_nodup _) h
  have htaken : (fun k => k ∈ h.userMap.keys ∧ h.Expired now k) = h.Expired now := by
    funext k
    refine propext ⟨fun hk => hk.2, fun hk => ⟨?_, hk⟩⟩
    obtain ⟨r, user, hr, -⟩ := hk
    rw [Table.mem_keys, hr]
    rfl
  rw [htaken] at h'
  exact h'

end Hub

/-! ## A node with its clock -/

/-- `os.time()` at `now` hundredths of a second after the node started, at the second `starttime`. -/
def osTime (starttime now : Int) : Int := starttime + now / 100

/-- A node and its uptime in hundredths of a second, with the time at which each record was stored or
last seen with a connection. -/
structure Timed where
  sys : Sys
  now : Int
  since : Nat → Option Int

/-- Time passes, or the node takes a step. -/
inductive TimedAction where
  | tick (d : Nat)
  | act (a : Action)
  deriving DecidableEq, Repr

namespace Timed

/-- What a step reads of the clock: an access the seconds, a sweep the hundredths. -/
def Reads (starttime now : Int) : Action → Prop
  | .access _ _ _ tm => tm = osTime starttime now
  | .sweep t => t = now
  | _ => True

instance (starttime now : Int) (a : Action) : Decidable (Reads starttime now a) := by
  unfold Reads
  exact match a with
    | .access _ _ _ tm => inferInstanceAs (Decidable (tm = _))
    | .sweep t => inferInstanceAs (Decidable (t = now))
    | .deliver _ | .resume _ _ | .connect _ _ | .data _ _ | .disconnect _ | .loginKick _ =>
      isTrue trivial

/-- An access stores a record, and a sweep sees the connected records of `User_Map`. -/
def stamp (s : Timed) : Action → Nat → Option Int
  | .access _ _ _ _ => Function.update s.since (s.sys.hub.subid + 1) (some s.now)
  | .sweep _ => fun r =>
    match s.sys.hub.users.get r with
    | some user =>
      if user.conn.isSome ∧ s.sys.hub.userMap.get user.token.uid = some r then some s.now else s.since r
    | none => s.since r
  | _ => s.since

def step (starttime : Int) (s : Timed) : TimedAction → Option Timed
  | .tick d => some { s with now := s.now + d }
  | .act a =>
    if Reads starttime s.now a then
      (s.sys.step a).map fun sys => { s with sys := sys, since := s.stamp a }
    else none

end Timed

/-- The runs of a node that starts at the second `starttime`. -/
def timedNode (starttime : Int) : Lib.Machine Timed TimedAction where
  start s := node.start s.sys ∧ s.now = 0 ∧ s.since = fun _ => none
  step := Timed.step starttime

namespace Timed

/-! ### When a sweep is right -/

/-- A sweep is right: it takes a record, and tells the login node, exactly when the record has no
connection and `tcount` seconds have passed since it was stored or last seen with one. -/
def SweepRight (s : Timed) : Prop :=
  ∀ uid r user t, s.sys.hub.userMap.get uid = some r → s.sys.hub.users.get r = some user →
    s.since r = some t →
    ((s.sys.hub.handshakeTimeout s.now).userMap.get uid = none ↔
      user.conn = none ∧ s.now - t ≥ 100 * tcount) ∧
    ((s.sys.hub.handshakeTimeout s.now).notices.count uid = s.sys.hub.notices.count uid + 1 ↔
      user.conn = none ∧ s.now - t ≥ 100 * tcount)

/-- For every record without a connection, the hundredths of the uptime are 15 above the date of its
access exactly when it is 15 seconds old. -/
def ClocksAgree (starttime : Int) (s : Timed) : Prop :=
  ∀ uid r user t, s.sys.hub.userMap.get uid = some r → s.sys.hub.users.get r = some user →
    user.conn = none → s.since r = some t →
    (s.now - osTime starttime t ≥ tcount ↔ s.now - t ≥ 100 * tcount)

/-- The same, checked along `User_Map`. -/
theorem clocksAgree_iff {starttime : Int} {s : Timed} : s.ClocksAgree starttime ↔
    ∀ uid ∈ s.sys.hub.userMap.keys, ∀ r ∈ s.sys.hub.userMap.get uid,
      ∀ user ∈ s.sys.hub.users.get r, user.conn = none → ∀ t ∈ s.since r,
        (s.now - osTime starttime t ≥ tcount ↔ s.now - t ≥ 100 * tcount) := by
  refine ⟨fun h uid _ r hr user hu hc t ht => h uid r user t hr hu hc ht,
    fun h uid r user t hr hu hc ht => h uid ?_ r hr user hu hc t ht⟩
  rw [Table.mem_keys, hr]
  rfl

/-! ### The invariant -/

/-- A record is stamped, and one without a connection has the date of its access. -/
structure Stamped (starttime : Int) (s : Timed) : Prop where
  reach : node.Reach s.sys
  dated : ∀ r user, s.sys.hub.users.get r = some user →
    ∃ t, s.since r = some t ∧ (user.conn = none → user.tm = osTime starttime t)

/-- A record comes from one before, whose date it has as long as it has no connection; an access makes
a new one. -/
theorem hub_dated {s : Sys} {a : Action} {h' : Hub} (hcase : Sys.HubCase s a h')
    (haccess : ∀ uid secret serverId tm, a ≠ .access uid secret serverId tm) {r : Nat} {user' : User}
    (hr : h'.users.get r = some user') :
    ∃ user, s.hub.users.get r = some user ∧
      (user'.conn = none → user.conn = none ∧ user'.tm = user.tm) := by
  have hset : ∀ {q : Nat} {old new : User}, s.hub.users.get q = some old →
      (new.conn = none → old.conn = none ∧ new.tm = old.tm) →
      (s.hub.users.set q new).get r = some user' →
      ∃ user, s.hub.users.get r = some user ∧
        (user'.conn = none → user.conn = none ∧ user'.tm = user.tm) := by
    intro q old new hq hnew hget
    by_cases hrq : r = q
    · subst hrq
      rw [Table.get_set_self] at hget
      obtain rfl := Option.some.inj hget
      exact ⟨old, hq, hnew⟩
    · rw [Table.get_set_ne _ _ hrq] at hget
      exact ⟨user', hget, fun hc => ⟨hc, rfl⟩⟩
  cases hcase with
  | same => exact ⟨user', hr, fun hc => ⟨hc, rfl⟩⟩
  | connect => exact ⟨user', hr, fun hc => ⟨hc, rfl⟩⟩
  | logout =>
    unfold Hub.logout at hr
    split at hr <;> exact ⟨user', hr, fun hc => ⟨hc, rfl⟩⟩
  | handshake =>
    unfold Hub.handshake at hr
    split at hr
    · exact ⟨user', hr, fun hc => ⟨hc, rfl⟩⟩
    · exact ⟨user', hr, fun hc => ⟨hc, rfl⟩⟩
    · exact ⟨user', hr, fun hc => ⟨hc, rfl⟩⟩
    · exact ⟨user', hr, fun hc => ⟨hc, rfl⟩⟩
    · rename_i hv
      exact hset (Hub.verdict_firstLogin hv).2.2.1 (fun hc => by cases hc) hr
  | @getRet co agent =>
    unfold Hub.getRet at hr
    split at hr
    · rename_i old hq
      have hnew : ({ old with agent := some agent } : User).conn = none →
          old.conn = none ∧ ({ old with agent := some agent } : User).tm = old.tm :=
        fun hc => ⟨hc, rfl⟩
      exact hset hq hnew hr
    · exact ⟨user', hr, fun hc => ⟨hc, rfl⟩⟩
  | @registerRet co agent role res =>
    cases res <;> exact ⟨user', hr, fun hc => ⟨hc, rfl⟩⟩
  | access ha => exact absurd ha (haccess _ _ _ _)
  | @sweep now =>
    obtain ⟨user, hu, hcore⟩ := (Hub.handshakeTimeout_timesOut s.hub now).toForgets.record hr
    refine ⟨user, hu, fun hc => ?_⟩
    have hold := (Hub.handshakeTimeout_takes s.hub now).users' r user' hr hc
    rw [hu] at hold
    obtain rfl := Option.some.inj hold
    exact ⟨hc, rfl⟩

theorem Stamped.act {starttime : Int} {s : Timed} {a : Action} {sys : Sys} (hs : Stamped starttime s)
    (hreads : Reads starttime s.now a) (hstep : s.sys.step a = some sys) :
    Stamped starttime { s with sys := sys, since := s.stamp a } := by
  refine ⟨.step hs.reach trivial hstep, fun r user' hr => ?_⟩
  have hold : (∀ uid secret serverId tm, a ≠ .access uid secret serverId tm) →
      (∀ user t, s.sys.hub.users.get r = some user → s.since r = some t →
        ∃ t', s.stamp a r = some t' ∧ (user.conn = none → t' = t)) →
      ∃ t, s.stamp a r = some t ∧ (user'.conn = none → user'.tm = osTime starttime t) := by
    intro haccess hsince
    obtain ⟨user, hu, hkeep⟩ := hub_dated (Sys.step_hub hstep) haccess hr
    obtain ⟨t, ht, hdate⟩ := hs.dated r user hu
    obtain ⟨t', ht', hsame⟩ := hsince user t hu ht
    refine ⟨t', ht', fun hc => ?_⟩
    obtain ⟨hc', htm⟩ := hkeep hc
    rw [htm, hdate hc', hsame hc']
  cases a with
  | access uid secret serverId tm =>
    obtain rfl : tm = osTime starttime s.now := hreads
    obtain rfl := Option.some.inj hstep
    have hget : (s.sys.hub.users.set (s.sys.hub.subid + 1) _).get r = some user' := hr
    show ∃ t, Function.update s.since (s.sys.hub.subid + 1) (some s.now) r = some t ∧ _
    by_cases hnew : r = s.sys.hub.subid + 1
    · subst hnew
      rw [Table.get_set_self] at hget
      obtain rfl := Option.some.inj hget
      exact ⟨s.now, Function.update_self .., fun _ => rfl⟩
    · rw [Table.get_set_ne _ _ hnew] at hget
      rw [Function.update_of_ne hnew]
      exact hs.dated r user' hget
  | sweep now =>
    refine hold (by simp) fun user t hu ht => ?_
    show ∃ t', (match s.sys.hub.users.get r with
      | some user => if user.conn.isSome ∧ s.sys.hub.userMap.get user.token.uid = some r then some s.now
        else s.since r
      | none => s.since r) = some t' ∧ _
    rw [hu]
    simp only
    split
    · rename_i hseen
      refine ⟨s.now, rfl, fun hc => ?_⟩
      rw [hc] at hseen
      exact absurd hseen.1 (by simp)
    · exact ⟨t, ht, fun _ => rfl⟩
  | _ => exact hold (by simp) fun _ t _ ht => ⟨t, ht, fun _ => rfl⟩

theorem reach_stamped {starttime : Int} {s : Timed} (h : (timedNode starttime).Reach s) :
    Stamped starttime s := by
  refine h.invariant (Stamped starttime) ?_ ?_
  · rintro t ⟨hstart, -, -⟩
    refine ⟨.start hstart, fun r user hr => ?_⟩
    obtain ⟨warm, maxclient, hinit⟩ := hstart
    rw [hinit] at hr
    cases (Table.get_empty r).symm.trans hr
  · intro t a t' _ ht _ hstep
    cases a with
    | tick d =>
      obtain rfl := Option.some.inj hstep
      exact ⟨ht.reach, ht.dated⟩
    | act a =>
      change (if Reads starttime t.now a then _ else none) = some t' at hstep
      split at hstep
      · rename_i hreads
        obtain ⟨sys, hsys, rfl⟩ := Option.map_eq_some_iff.mp hstep
        exact ht.act hreads hsys
      · cases hstep

/-! ### Every run -/

/-- A sweep of a reachable node is right exactly when the clocks agree. -/
theorem sweepRight_of_reach {starttime : Int} {s : Timed} (h : (timedNode starttime).Reach s) :
    s.SweepRight ↔ s.ClocksAgree starttime := by
  have htakes := Hub.handshakeTimeout_takes s.sys.hub s.now
  -- what the code compares, for the record of a uid
  have hexpired : ∀ uid r user t, s.sys.hub.userMap.get uid = some r →
      s.sys.hub.users.get r = some user → s.since r = some t →
      (s.sys.hub.Expired s.now uid ↔
        user.conn = none ∧ s.now - osTime starttime t ≥ tcount) := by
    intro uid r user t hr hu ht
    obtain ⟨t', ht', hdate⟩ := (reach_stamped h).dated r user hu
    rw [ht] at ht'
    obtain rfl := Option.some.inj ht'
    constructor
    · rintro ⟨q, user', hq, hu', hc, hage⟩
      rw [hr] at hq
      obtain rfl := Option.some.inj hq
      rw [hu] at hu'
      obtain rfl := Option.some.inj hu'
      exact ⟨hc, hdate hc ▸ hage⟩
    · rintro ⟨hc, hage⟩
      exact ⟨r, user, hr, hu, hc, by rw [hdate hc]; exact hage⟩
  constructor
  · intro hright uid r user t hr hu hc ht
    have hgone := (hright uid r user t hr hu ht).1
    have hiff : (s.sys.hub.handshakeTimeout s.now).userMap.get uid = none ↔
        s.sys.hub.Expired s.now uid := by
      refine ⟨fun hnone => ?_, htakes.gone uid⟩
      by_contra hno
      rw [htakes.userMap uid hno, hr] at hnone
      cases hnone
    rw [hiff, hexpired uid r user t hr hu ht] at hgone
    simpa [hc] using hgone
  · intro hagree uid r user t hr hu ht
    have hage : s.sys.hub.Expired s.now uid ↔ user.conn = none ∧ s.now - t ≥ 100 * tcount := by
      rw [hexpired uid r user t hr hu ht]
      exact and_congr_right fun hc => hagree uid r user t hr hu hc ht
    rw [← hage]
    by_cases hex : s.sys.hub.Expired s.now uid
    · exact ⟨iff_of_true (htakes.gone uid hex) hex, iff_of_true (htakes.told uid hex) hex⟩
    · refine ⟨iff_of_false ?_ hex, iff_of_false ?_ hex⟩
      · rw [htakes.userMap uid hex, hr]
        simp
      · rw [htakes.quiet uid hex]
        omega

/-- The sweeps of a run are all right exactly when the clocks agree at each of them. -/
theorem sweepRight_iff (starttime : Int) (s₀ : Timed) (hstart : (timedNode starttime).start s₀)
    (as : List TimedAction) :
    (∀ before now s, before ++ [TimedAction.act (.sweep now)] <+: as →
        (timedNode starttime).exec s₀ before = some s → s.SweepRight) ↔
      ∀ before now s, before ++ [TimedAction.act (.sweep now)] <+: as →
        (timedNode starttime).exec s₀ before = some s → s.ClocksAgree starttime := by
  have hreach : ∀ before s, (timedNode starttime).exec s₀ before = some s →
      (timedNode starttime).Reach s := fun before s hs => Lib.Machine.Reach.exec (.start hstart) hs
  constructor
  · intro h before now s hpre hs
    exact (sweepRight_of_reach (hreach before s hs)).mp (h before now s hpre hs)
  · intro h before now s hpre hs
    exact (sweepRight_of_reach (hreach before s hs)).mpr (h before now s hpre hs)

/-- A node that has just started. -/
def opened : Timed := { sys := Game.opened, now := 0, since := fun _ => none }

theorem opened_start (starttime : Int) : (timedNode starttime).start opened :=
  ⟨Game.opened_start, rfl, rfl⟩

/-- A token that nobody uses, and the sweep after 15 seconds. -/
def unused (starttime : Int) : List TimedAction :=
  [.act (.access "u1" "s1" "1" (osTime starttime 0)), .tick 1500, .act (.sweep 1500)]

/-- On a node that was started at the date 0 the sweep takes it. -/
theorem sweepRight_iff_epoch : ∃ s, (timedNode 0).exec opened ((unused 0).take 2) = some s ∧
    (s.sys.hub.handshakeTimeout s.now).userMap.get "u1" = none ∧ s.SweepRight := by
  have hrun : ∃ s ∈ (timedNode 0).exec opened ((unused 0).take 2),
      (s.sys.hub.handshakeTimeout s.now).userMap.get "u1" = none ∧
      ∀ uid ∈ s.sys.hub.userMap.keys, ∀ r ∈ s.sys.hub.userMap.get uid,
        ∀ user ∈ s.sys.hub.users.get r, user.conn = none → ∀ t ∈ s.since r,
          (s.now - osTime 0 t ≥ tcount ↔ s.now - t ≥ 100 * tcount) := by
    decide +kernel
  obtain ⟨s, hs, hgone, hagree⟩ := hrun
  refine ⟨s, hs, hgone, ?_⟩
  refine (sweepRight_iff 0 opened (opened_start 0) (unused 0)).mpr ?_ _ 1500 s (List.prefix_refl _) hs
  rintro before now s' ⟨rest, hrest⟩ hs'
  have hbefore : before = (unused 0).take 2 := by
    rcases before with - | ⟨b, - | ⟨c, - | ⟨d, before⟩⟩⟩ <;> simp_all [unused]
  subst hbefore
  obtain rfl := Option.some.inj (hs.symm.trans hs')
  exact clocksAgree_iff.mpr hagree

/-- On one that was started in 2023 it does not. -/
theorem not_sweepRight : ∃ s, (timedNode 1700000000).exec opened
      [.act (.access "u1" "s1" "1" 1700000000), .tick 1500] = some s ∧ ¬ s.SweepRight := by
  have hrun : ∃ s ∈ (timedNode 1700000000).exec opened
      [.act (.access "u1" "s1" "1" 1700000000), .tick 1500],
      s.sys.hub.userMap.get "u1" = some 2 ∧
        s.sys.hub.users.get 2 = some ⟨⟨"u1", "s1", "1", 2⟩, none, none, 1700000000⟩ ∧
        s.since 2 = some 0 ∧ s.now = 1500 ∧
        (s.sys.hub.handshakeTimeout s.now).userMap.get "u1" = some 2 := by
    decide +kernel
  obtain ⟨s, hs, hmap, huser, hsince, hnow, hkept⟩ := hrun
  refine ⟨s, hs, fun hright => ?_⟩
  have h := (hright "u1" 2 _ 0 hmap huser hsince).1.mpr ⟨rfl, by rw [hnow]; decide⟩
  rw [hkept] at h
  cases h

end Timed

end AntServer.Game
