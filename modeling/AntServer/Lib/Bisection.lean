/-
# AntServer.Lib.Bisection — where a property of an initial segment ends

A property of the positions below `n` that holds of everything below a position where it holds has one
cut: the position before which it holds and from which on it does not. A search that halves keeps a
bracket, an interval outside of which all is known; looking at any position inside makes it smaller on
one side, and an empty bracket is the cut.

Nothing here names the modelled system.
-/
import Mathlib.Data.Nat.Basic
import Mathlib.Order.Defs.LinearOrder

namespace AntServer.Lib

/-- The property holds before `i` and not from `i` on, among the positions below `n`. -/
structure IsCut (p : Nat → Prop) (n i : Nat) : Prop where
  le : i ≤ n
  before : ∀ j < i, p j
  after : ∀ j < n, i ≤ j → ¬ p j

/-- What a search knows: the property holds before `first`, and not from `first + len` on. -/
structure Bracket (p : Nat → Prop) (n first len : Nat) : Prop where
  le : first + len ≤ n
  before : ∀ j < first, p j
  after : ∀ j < n, first + len ≤ j → ¬ p j

variable {p : Nat → Prop} {n : Nat}

/-- There is one cut at most. -/
theorem IsCut.unique {i j : Nat} (hi : IsCut p n i) (hj : IsCut p n j) : i = j := by
  obtain hlt | heq | hgt := Nat.lt_trichotomy i j
  · exact absurd (hj.before i hlt) (hi.after i (by have := hj.le; omega) le_rfl)
  · exact heq
  · exact absurd (hi.before j hgt) (hj.after j (by have := hi.le; omega) le_rfl)

namespace Bracket

/-- Nothing is known at first. -/
theorem all (p : Nat → Prop) (n : Nat) : Bracket p n 0 n := by
  refine ⟨by omega, ?_, ?_⟩
  · intro j hj
    omega
  · intro j hj hle
    omega

variable {first len : Nat}

/-- The property holds at `mid`: it does before, too. -/
theorem right (h : Bracket p n first len) (hdown : ∀ i j, i ≤ j → p j → p i) (mid : Nat)
    (hmid : mid < first + len) (hp : p mid) :
    Bracket p n (mid + 1) (first + len - (mid + 1)) := by
  have hle := h.le
  refine ⟨by omega, ?_, ?_⟩
  · intro j hj
    exact hdown j mid (by omega) hp
  · intro j hj hge
    exact h.after j hj (by omega)

/-- The property does not hold at `mid`: nor does it behind. -/
theorem left (h : Bracket p n first len) (hdown : ∀ i j, i ≤ j → p j → p i) (mid : Nat)
    (hle : first ≤ mid) (hmid : mid < first + len) (hp : ¬ p mid) : Bracket p n first (mid - first) := by
  have hbound := h.le
  refine ⟨by omega, h.before, ?_⟩
  intro j _ hge hj
  exact hp (hdown mid j (by omega) hj)

/-- An empty bracket is the cut. -/
theorem cut (h : Bracket p n first 0) : IsCut p n first := ⟨h.le, h.before, h.after⟩

end Bracket

end AntServer.Lib
