/-
# AntServer.Lib.Schedule — periodic tasks and the rounds they fire in

A task is put in at some moment and should fire once every interval. Whoever runs it looks at the clock
only now and then, in *rounds*, and a round lets a task fire at most once. So the law of a task is a law
of each round: it fires there exactly when its next firing is due, none of its firings is used up and it
has not been cancelled before the round began (`OnSchedule`). From that law alone follow the statements
about whole histories: at which round the `n`-th firing is, and how many firings there are.

Nothing is assumed of the addition, the subtraction and the order of the clock: they may round.

A history lists its rounds newest first, so that the rounds before one are its tail. Nothing here names
the modelled system.
-/
import Mathlib.Logic.Function.Iterate

namespace AntServer.Lib

/-! ## Clocks -/

variable {K N : Type*}

/-- The numbers of a clock: what it takes to add intervals up and to compare them with the time that has
gone by. There are no laws, so that the numbers of a machine are among them. -/
class Clock (N : Type*) extends Zero N, Add N, Sub N, LE N where
  decLe : DecidableLE N

instance (priority := low) Clock.instDecidableLE [Clock N] : DecidableLE N := Clock.decLe

instance : Clock Int where
  zero := 0
  add := Int.add
  sub := Int.sub
  le := Int.le
  decLe := Int.decLe

/-! ## Tasks and rounds -/

/-- A periodic task as it was put in. `times = 0` stands for no limit. -/
structure Task (K N : Type*) where
  key : K
  added : N
  interval : N
  immediate : Bool
  times : Int

/-- A round: when it was held, which tasks were put in and which were cancelled before it began, and
which fired. -/
structure Round (K N : Type*) where
  moment : N
  known : List K
  cancelled : List K
  fired : List K

/-- How often a task fires in some rounds. -/
def fires [DecidableEq K] (rounds : List (Round K N)) (k : K) : Nat :=
  rounds.countP fun u => k ∈ u.fired

section
variable [DecidableEq K]

@[simp] theorem fires_nil (k : K) : fires ([] : List (Round K N)) k = 0 := rfl

theorem fires_cons (u : Round K N) (us : List (Round K N)) (k : K) :
    fires (u :: us) k = fires us k + if k ∈ u.fired then 1 else 0 := by
  unfold fires
  rw [List.countP_cons]
  simp

theorem fires_append (us vs : List (Round K N)) (k : K) :
    fires (us ++ vs) k = fires us k + fires vs k := List.countP_append

/-- A firing that was the `n`-th one of some rounds happened in one of them. -/
theorem exists_of_lt_fires {rounds : List (Round K N)} {k : K} {n : Nat} (h : n < fires rounds k) :
    ∃ later u earlier, rounds = later ++ u :: earlier ∧ k ∈ u.fired ∧ fires earlier k = n := by
  induction rounds with
  | nil => exact absurd h (Nat.not_lt_zero n)
  | cons v vs ih =>
    rw [fires_cons] at h
    by_cases hn : n < fires vs k
    · obtain ⟨later, u, earlier, rfl, hu, hfires⟩ := ih hn
      exact ⟨v :: later, u, earlier, rfl, hu, hfires⟩
    · -- the head is the round of the `n`-th firing
      have hv : k ∈ v.fired := by
        by_contra hv
        rw [if_neg hv] at h
        omega
      rw [if_pos hv] at h
      exact ⟨[], v, vs, rfl, hv, by omega⟩

end

namespace Task

/-! ## When a task is due -/

variable [Clock N]

/-- How long after it was put in the `n`-th firing of a task is due (`n` from 1): the first one at once or
after an interval, each further one an interval later, by the addition of `N`. -/
def wait (t : Task K N) (n : Nat) : N :=
  (· + t.interval)^[n - 1] (if t.immediate then 0 else t.interval)

theorem wait_succ (t : Task K N) (n : Nat) : t.wait (n + 2) = t.wait (n + 1) + t.interval :=
  Function.iterate_succ_apply' _ _ _

/-- After `n` firings there is another one to come. -/
def Left (t : Task K N) (n : Nat) : Prop := t.times ≤ 0 ∨ (n : Int) < t.times

instance (t : Task K N) (n : Nat) : Decidable (t.Left n) := inferInstanceAs (Decidable (_ ∨ _))

variable [DecidableEq K]

/-- A round after some earlier ones finds the task due: it began with the task put in and not cancelled,
and the time of the next firing has come. -/
def Finds (t : Task K N) (u : Round K N) (earlier : List (Round K N)) : Prop :=
  t.key ∈ u.known ∧ t.key ∉ u.cancelled ∧ t.wait (fires earlier t.key + 1) ≤ u.moment - t.added

instance (t : Task K N) (u : Round K N) (earlier : List (Round K N)) :
    Decidable (t.Finds u earlier) := inferInstanceAs (Decidable (_ ∧ _ ∧ _))

/-- How many rounds have found the task due. -/
def found (t : Task K N) : List (Round K N) → Nat
  | [] => 0
  | u :: us => t.found us + if t.Finds u us then 1 else 0

/-- The `n`-th firing may happen at a round: the round began with the task put in, the time of that
firing has come, and the firing before was in an earlier round. -/
def Ready (t : Task K N) (n : Nat) (u : Round K N) (earlier : List (Round K N)) : Prop :=
  t.key ∈ u.known ∧ t.wait n ≤ u.moment - t.added ∧ n ≤ fires earlier t.key + 1

/-- The law of a task over the rounds: it fires in a round exactly when the round finds it due and it
has a firing left. What was cancelled stays so. -/
def OnSchedule (t : Task K N) : List (Round K N) → Prop
  | [] => True
  | u :: us =>
    (t.key ∈ u.fired ↔ t.Finds u us ∧ t.Left (fires us t.key)) ∧
      (∀ u' ∈ us, t.key ∈ u'.cancelled → t.key ∈ u.cancelled) ∧ t.OnSchedule us

namespace OnSchedule

/-! ## Histories that keep to it -/

variable {t : Task K N} {rounds later earlier : List (Round K N)} {u : Round K N}

theorem suffix (h : t.OnSchedule (later ++ rounds)) : t.OnSchedule rounds := by
  induction later with
  | nil => exact h
  | cons v vs ih => exact ih h.2.2

/-- The law read at one round of the history. -/
theorem at_round (h : t.OnSchedule rounds) (hsplit : rounds = later ++ u :: earlier) :
    t.key ∈ u.fired ↔ t.Finds u earlier ∧ t.Left (fires earlier t.key) :=
  (suffix (hsplit ▸ h : t.OnSchedule (later ++ u :: earlier))).1

/-- A task that was cancelled before a round began does not fire in it. -/
theorem not_fired (h : t.OnSchedule rounds) (hsplit : rounds = later ++ u :: earlier)
    (hc : t.key ∈ u.cancelled) : t.key ∉ u.fired := fun hf =>
  ((h.at_round hsplit).mp hf).1.2.1 hc

/-- The firings are the rounds that found the task due, up to the limit. -/
theorem fires_eq_min (h : t.OnSchedule rounds) (htimes : 0 < t.times) :
    (fires rounds t.key : Int) = min t.times (t.found rounds) := by
  induction rounds with
  | nil =>
    show (0 : Int) = min t.times 0
    omega
  | cons u us ih =>
    have hus := ih h.2.2
    rw [fires_cons, found]
    by_cases hleft : (fires us t.key : Int) < t.times
    · -- none used up: the round fires the task exactly when it finds it due
      have hlaw : t.key ∈ u.fired ↔ t.Finds u us :=
        ⟨fun hf => (h.1.mp hf).1, fun hf => h.1.mpr ⟨hf, .inr hleft⟩⟩
      simp only [hlaw]
      split <;> push_cast <;> omega
    · have hnot : t.key ∉ u.fired := fun hf => by
        rcases (h.1.mp hf).2 with h0 | h0 <;> omega
      rw [if_neg hnot]
      split <;> push_cast <;> omega

/-- Without a limit the firings are exactly the rounds that find the task due. -/
theorem fired_iff_finds (h : t.OnSchedule rounds) (htimes : t.times ≤ 0)
    (hsplit : rounds = later ++ u :: earlier) : t.key ∈ u.fired ↔ t.Finds u earlier := by
  rw [h.at_round hsplit]
  exact ⟨fun hf => hf.1, fun hf => ⟨hf, .inl htimes⟩⟩

/-- The law of the first round at which a firing is ready. -/
theorem fires_at_first_ready (h : t.OnSchedule rounds) (hsplit : rounds = later ++ u :: earlier)
    (hc : t.key ∉ u.cancelled) {n : Nat} (hn : 0 < n) (hlimit : t.times ≤ 0 ∨ (n : Int) ≤ t.times) :
    (t.key ∈ u.fired ∧ fires earlier t.key + 1 = n) ↔
      t.Ready n u earlier ∧
        ∀ later' u' earlier', earlier = later' ++ u' :: earlier' → ¬ t.Ready n u' earlier' := by
  have hlaw := h.at_round hsplit
  have hearlier : t.OnSchedule earlier :=
    (suffix (hsplit ▸ h : t.OnSchedule (later ++ u :: earlier))).2.2
  have hmono := (suffix (hsplit ▸ h : t.OnSchedule (later ++ u :: earlier))).2.1
  constructor
  · rintro ⟨hf, rfl⟩
    obtain ⟨⟨hknown, -, hdue⟩, hleft⟩ := hlaw.mp hf
    refine ⟨⟨hknown, hdue, Nat.le_refl _⟩, ?_⟩
    -- an earlier round that was ready for it would have fired it
    rintro later' u' earlier' heq ⟨hknown', hdue', hcount'⟩
    have hall : fires earlier t.key = fires later' t.key +
        (fires earlier' t.key + if t.key ∈ u'.fired then 1 else 0) := by
      rw [heq, fires_append, fires_cons]
    have hsame : fires earlier' t.key = fires earlier t.key := by omega
    have hf' : t.key ∈ u'.fired := by
      refine (hearlier.at_round heq).mpr ⟨⟨hknown', fun hc' => hc ?_, ?_⟩, ?_⟩
      · exact hmono u' (heq ▸ by simp) hc'
      · rw [hsame]
        exact hdue'
      · rw [hsame]
        exact hleft
    rw [if_pos hf'] at hall
    omega
  · rintro ⟨⟨hknown, hdue, hcount⟩, hfirst⟩
    have hn' : fires earlier t.key + 1 = n := by
      by_contra hne
      -- the `n`-th firing is already among the earlier rounds, and its round was ready
      have hlt : n - 1 < fires earlier t.key := by omega
      obtain ⟨later', u', earlier', heq, hf', hcount'⟩ := exists_of_lt_fires hlt
      obtain ⟨⟨hknown', -, hdue'⟩, -⟩ := (hearlier.at_round heq).mp hf'
      have hn1 : fires earlier' t.key + 1 = n := by omega
      rw [hn1] at hdue'
      exact hfirst later' u' earlier' heq ⟨hknown', hdue', by omega⟩
    subst hn'
    refine ⟨hlaw.mpr ⟨⟨hknown, hc, hdue⟩, ?_⟩, rfl⟩
    exact hlimit.imp_right fun hlt => by push_cast at hlt; omega

end OnSchedule

end Task

end AntServer.Lib
