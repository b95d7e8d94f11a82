/-
# AntServer.Battle.SessionIds — the numbers that a battle node gives to its sessions

`CMD.register` counts its sessions in 32 bits without a sign, and the parser of the datagrams reads them
back with one. The first `2^31 - 1` numbers are right: positive, never given before and read back as
they are, whatever was unregistered or has timed out in between (`Counted`). The number after them is read
back as `-2^31`. So the numbers of a run are right exactly when it has registered fewer than `2^31`
sessions (`numbered_iff`).
-/
import AntServer.Battle.Battled

namespace AntServer.Battle

open Lib (Table)

namespace Battled

/-- A battle node as `CMD.open` leaves it. -/
def opened (host : LuaString) (port U : Nat) (skynetNodeName : LuaString) : Battled where
  S := Table.empty
  SESSION := 0
  host := host
  port := port
  U := U
  skynetNodeName := skynetNodeName

/-- The registrations that get a number: of a new session, when an arena is found. -/
def Registers : BattledAction → Bool
  | .register data find _ => data.session = 0 ∧ find.isSome
  | _ => false

/-- What the number that a registration in the state `b` returns is to be. -/
structure Numbered (b : Battled) (session : Nat) : Prop where
  new : session ≠ 0
  free : b.S.get session = none
  readBack : ∀ rest, unpackI4 (packI4 session ++ rest) = session

/-- Every registration of a run returns such a number. -/
def AllNumbered (b : Battled) (as : List BattledAction) : Prop :=
  ∀ before data find now after u r, as = before ++ .register data find now :: after →
    (battling b).exec b before = some u → u.register data find now = .ok r → u.Numbered r.1.1.session

/-! ## What a node has counted -/

/-- The number a registration returns is the new value of the counter. -/
theorem register_counter {b : Battled} {data : ArenaData} {find : Option Nat} {now : Int}
    {r : (SessionInfo × ArenaInfo) × Battled} (h : b.register data find now = .ok r) :
    r.2.SESSION = r.1.1.session := by
  unfold register at h
  split at h
  · cases find with
    | none => cases h
    | some arenaAddr =>
      cases h
      rfl
  · cases h

/-- After `c` registrations: the counter, and no session above it while it has not wrapped. -/
structure Counted (c : Nat) (b : Battled) : Prop where
  counter : b.SESSION = c % 2 ^ 32
  below : c < 2 ^ 32 → ∀ n, b.S.get n ≠ none → 1 ≤ n ∧ n ≤ c

theorem opened_counted (host : LuaString) (port U : Nat) (skynetNodeName : LuaString) :
    Counted 0 (opened host port U skynetNodeName) where
  counter := rfl
  below := fun _ n hn => absurd (Table.get_empty n) hn

/-- Taking sessions away keeps the count. -/
theorem Counted.fewer {c : Nat} {b b' : Battled} (h : Counted c b) (hcounter : b'.SESSION = b.SESSION)
    (hS : ∀ n, b.S.get n = none → b'.S.get n = none) : Counted c b' where
  counter := hcounter.trans h.counter
  below := fun hc n hn => h.below hc n fun hnone => hn (hS n hnone)

theorem Counted.step {c : Nat} {b : Battled} (h : Counted c b) (a : BattledAction) :
    Counted (c + if Registers a then 1 else 0) (b.step a) := by
  cases a with
  | register data find now =>
    simp only [Battled.step]
    cases hr : b.register data find now with
    | error e =>
      -- without a new session or an arena nothing is counted
      have hno : Registers (.register data find now) = false := by
        unfold Battled.register at hr
        split at hr
        · cases find with
          | none => simp [Registers]
          | some arenaAddr => cases hr
        · rename_i h0
          simp [Registers, h0]
      rw [hno]
      exact h
    | ok r =>
      obtain ⟨h0, hfind, hsession, -, -, hS⟩ := register_ok hr
      have hyes : Registers (.register data find now) = true := by simp [Registers, h0, hfind]
      have hcounter := register_counter hr
      have hc := h.counter
      rw [hyes, if_pos rfl]
      refine ⟨by rw [hcounter, hsession]; omega, fun hlt n hn => ?_⟩
      rw [hS, Table.get_set] at hn
      split at hn
      · rename_i heq
        omega
      · have := h.below (by omega) n hn
        omega
  | unregister session =>
    refine h.fewer rfl fun n hn => ?_
    show (b.S.del session).get n = none
    rw [Table.get_del, hn, ite_self]
  | keepalive ti session =>
    refine h.fewer ?_ fun n hn => ?_
    · simp only [Battled.step, keepalive]
      split
      · split <;> rfl
      · rfl
    · simp only [Battled.step, keepalive]
      split
      · split
        · show (b.S.del session).get n = none
          rw [Table.get_del, hn, ite_self]
        · exact hn
      · exact hn
  | datagram msg origin now =>
    have hcore : ∀ n : Int, b.S.get n = none → (b.udpdispatch msg origin now).1.S.get n = none := by
      intro n hn
      unfold udpdispatch
      split
      · exact hn
      · cases hs : b.S.get (unpackI4 msg) with
        | none => simpa only [hs] using hn
        | some s =>
          simp only [hs]
          split
          · split
            · exact hn
            · have hne : n ≠ unpackI4 msg := fun he => by
                rw [he, hs] at hn
                cases hn
              exact (Table.get_set_ne _ _ hne).trans hn
          · exact hn
    refine h.fewer ?_ hcore
    simp only [Battled.step, udpdispatch]
    split
    · rfl
    · split
      · rfl
      · split
        · split <;> rfl
        · rfl

theorem Counted.exec {c : Nat} {b t : Battled} {as : List BattledAction} (h : Counted c b) {b₀ : Battled}
    (he : (battling b₀).exec b as = some t) : Counted (c + as.countP Registers) t := by
  induction as generalizing b c with
  | nil =>
    obtain rfl := Option.some.inj he
    simpa using h
  | cons a as ih =>
    have hrest := ih (h.step a) he
    rw [List.countP_cons]
    rwa [show c + (as.countP Registers + if Registers a then 1 else 0) =
      c + (if Registers a then 1 else 0) + as.countP Registers by omega]

/-! ## The numbers of a run -/

/-- The number of the registration after `c` others is right exactly when `c + 1` is below `2^31`, as
long as the counter has not wrapped. -/
theorem Counted.numbered_iff {c : Nat} {b : Battled} (h : Counted c b) (hc : c + 1 < 2 ^ 32)
    {session : Nat} (hsession : session = (b.SESSION + 1) % 2 ^ 32) :
    b.Numbered session ↔ c + 1 < 2 ^ 31 := by
  have hcounter := h.counter
  have hnumber : session = c + 1 := by omega
  rw [hnumber]
  constructor
  · intro hn
    have := hn.readBack []
    rw [unpackI4_packI4 hc] at this
    split at this <;> omega
  · intro hlt
    refine ⟨by omega, ?_, fun rest => ?_⟩
    · by_contra hn
      have := h.below (by omega) _ hn
      omega
    · rw [unpackI4_packI4 hc, if_pos hlt]

/-- A list with at least `k + 1` elements of a kind has one of them after exactly `k`. -/
theorem exists_after {α : Type*} (p : α → Bool) :
    ∀ (l : List α) (k : Nat), k < l.countP p →
      ∃ before a after, l = before ++ a :: after ∧ p a ∧ before.countP p = k
  | [], k, h => by simp at h
  | a :: as, k, h => by
    by_cases ha : p a = true
    · rcases k with _ | k
      · exact ⟨[], a, as, rfl, ha, rfl⟩
      · rw [List.countP_cons_of_pos ha] at h
        obtain ⟨before, x, after, rfl, hx, hk⟩ := exists_after p as k (by omega)
        exact ⟨a :: before, x, after, rfl, hx, by rw [List.countP_cons_of_pos ha, hk]⟩
    · rw [List.countP_cons_of_neg ha] at h
      obtain ⟨before, x, after, rfl, hx, hk⟩ := exists_after p as k h
      exact ⟨a :: before, x, after, rfl, hx, by rw [List.countP_cons_of_neg ha, hk]⟩

/-- An action is always possible. -/
theorem exec_isSome (b₀ b : Battled) (as : List BattledAction) :
    ∃ t, (battling b₀).exec b as = some t := by
  induction as generalizing b with
  | nil => exact ⟨b, rfl⟩
  | cons a as ih => exact ih (b.step a)

section Runs

variable (host : LuaString) (port U : Nat) (skynetNodeName : LuaString)

/-- From `2^31` registrations on, one of them returned a wrong number. -/
theorem not_allNumbered_of_le {as : List BattledAction} (h : 2 ^ 31 ≤ as.countP Registers) :
    ¬ AllNumbered (opened host port U skynetNodeName) as := by
  intro hall
  obtain ⟨before, a, after, rfl, ha, hk⟩ := exists_after Registers as (2 ^ 31 - 1) (by omega)
  cases a with
  | register data find now =>
    obtain ⟨h0, hfind⟩ : data.session = 0 ∧ find.isSome := by simpa [Registers] using ha
    obtain ⟨arenaAddr, rfl⟩ := Option.isSome_iff_exists.mp hfind
    obtain ⟨u, hu⟩ := exec_isSome (opened host port U skynetNodeName)
      (opened host port U skynetNodeName) before
    have hcounted := (opened_counted host port U skynetNodeName).exec hu
    rw [hk] at hcounted
    have hreg : ∃ r, u.register data (some arenaAddr) now = .ok r := ⟨_, if_pos h0⟩
    obtain ⟨r, hr⟩ := hreg
    have hnumbered := hall before data _ now after u r rfl hu hr
    have := (hcounted.numbered_iff (by omega) (register_ok hr).2.2.1).mp hnumbered
    omega
  | unregister session => cases ha
  | keepalive ti session => cases ha
  | datagram msg origin now => cases ha

/-- The numbers of a run are right exactly when it has fewer than `2^31` registrations. -/
theorem allNumbered_iff (as : List BattledAction) :
    AllNumbered (opened host port U skynetNodeName) as ↔ as.countP Registers < 2 ^ 31 := by
  constructor
  · intro h
    by_contra hle
    exact not_allNumbered_of_le host port U skynetNodeName (by omega) h
  · rintro hlt before data find now after u r rfl hu hr
    obtain ⟨h0, hfind, hsession, -, -, -⟩ := register_ok hr
    have hcounted := (opened_counted host port U skynetNodeName).exec hu
    have ha : Registers (.register data find now) = true := by simp [Registers, h0, hfind]
    rw [List.countP_append, List.countP_cons_of_pos ha] at hlt
    exact (hcounted.numbered_iff (by omega) hsession).mpr (by omega)

end Runs

/-- The `2^31`-th player who joins gets a number that no datagram can carry. -/
theorem not_allNumbered : ¬ ∀ (host : LuaString) (port U : Nat) (skynetNodeName : LuaString)
    (as : List BattledAction), AllNumbered (opened host port U skynetNodeName) as := by
  intro h
  let data : ArenaData :=
    { session := 0, model := 1, uid := none, secret := none, ip := none, agent := 9, skynetNodeName := [] }
  have hcount : 2 ^ 31 ≤ (List.replicate (2 ^ 31) (.register data (some 5) 0)).countP Registers := by
    rw [List.countP_replicate, if_pos (by decide)]
  exact not_allNumbered_of_le [] 15220 1 [] hcount (h _ _ _ _ _)

end Battled

end AntServer.Battle
