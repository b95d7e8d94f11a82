/-
# AntServer.Lib.KeyedLock — one lock per key, held by at most one party

A table of locks says which keys are taken, and each party holds the lock of at most one key. The
discipline `Excludes` is that a key is taken exactly while somebody holds it, and by one party only. It is
kept when a party takes a free key, when it gives its key back, and by every change that concerns no key.

Nothing here names the modelled system.
-/
import Mathlib.Logic.Function.Basic

namespace AntServer.Lib

variable {P K : Type*}

/-- `holds` gives the key a party holds, `taken` the keys that are locked. -/
structure Excludes (holds : P → Option K) (taken : K → Prop) : Prop where
  exclusive : ∀ p q k, holds p = some k → holds q = some k → p = q
  taken_iff : ∀ k, taken k ↔ ∃ p, holds p = some k

namespace Excludes

variable {holds holds' : P → Option K} {taken taken' : K → Prop}

/-- Nobody's key changes. -/
theorem same (h : Excludes holds taken) (hholds : ∀ p, holds' p = holds p)
    (htaken : ∀ k, taken' k ↔ taken k) : Excludes holds' taken' where
  exclusive := fun p q k hp hq => h.exclusive p q k (hholds p ▸ hp) (hholds q ▸ hq)
  taken_iff := fun k => by
    rw [htaken, h.taken_iff]
    exact exists_congr fun p => by rw [hholds]

/-- A party that holds nothing takes a free key. -/
theorem take (h : Excludes holds taken) {p : P} {k : K} (hp : holds p = none) (hk : ¬ taken k)
    (hself : holds' p = some k) (hother : ∀ q, q ≠ p → holds' q = holds q)
    (htaken : ∀ l, taken' l ↔ l = k ∨ taken l) : Excludes holds' taken' := by
  have hno : ∀ q, q ≠ p → holds' q ≠ some k := fun q hq he =>
    hk ((h.taken_iff k).mpr ⟨q, hother q hq ▸ he⟩)
  refine ⟨fun q r l hq hr => ?_, fun l => ?_⟩
  · by_cases hqp : q = p
    · subst hqp
      by_contra hne
      rw [hself] at hq
      exact hno r (Ne.symm hne) (hr.trans hq.symm)
    · by_cases hrp : r = p
      · subst hrp
        rw [hself] at hr
        exact absurd (hq.trans hr.symm) (hno q hqp)
      · exact h.exclusive q r l (hother q hqp ▸ hq) (hother r hrp ▸ hr)
  · rw [htaken, h.taken_iff]
    constructor
    · rintro (rfl | ⟨q, hq⟩)
      · exact ⟨p, hself⟩
      · exact ⟨q, (hother q fun he => by rw [he, hp] at hq; cases hq).trans hq⟩
    · rintro ⟨q, hq⟩
      by_cases hqp : q = p
      · rw [hqp, hself] at hq
        exact .inl (Option.some.inj hq).symm
      · exact .inr ⟨q, (hother q hqp).symm.trans hq⟩

/-- A party gives its key back. -/
theorem give (h : Excludes holds taken) {p : P} {k : K} (hp : holds p = some k) (hself : holds' p = none)
    (hother : ∀ q, q ≠ p → holds' q = holds q) (htaken : ∀ l, taken' l ↔ l ≠ k ∧ taken l) :
    Excludes holds' taken' := by
  have hne : ∀ q l, holds' q = some l → q ≠ p := fun q l hq he => by
    rw [he, hself] at hq
    cases hq
  refine ⟨fun q r l hq hr => ?_, fun l => ?_⟩
  · exact h.exclusive q r l (hother q (hne q l hq) ▸ hq) (hother r (hne r l hr) ▸ hr)
  · rw [htaken, h.taken_iff]
    constructor
    · rintro ⟨hl, q, hq⟩
      have hqp : q ≠ p := fun he => by
        rw [he, hp] at hq
        exact hl (Option.some.inj hq).symm
      exact ⟨q, (hother q hqp).trans hq⟩
    · rintro ⟨q, hq⟩
      have hqp := hne q l hq
      have hold : holds q = some l := (hother q hqp).symm.trans hq
      exact ⟨fun he => hqp (h.exclusive q p k (he ▸ hold) hp), q, hold⟩

end Excludes

end AntServer.Lib
