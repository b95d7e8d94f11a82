/-
# AntServer.Lib.Comp — computations that may raise, change a state, or not end

A `Comp σ ε α` takes a state and comes to nothing (it does not end), to an error or to a value, with
the state it leaves. What holds however it ends is `Ends`, with one rule for each way to build a
computation. A relation between the state before, how it ended and the state after which composes
(`Sequential`) is kept by whatever is built from computations that keep it (`Keeps`).

Nothing here names the modelled system.
-/
import Mathlib.Logic.Basic

namespace AntServer.Lib

universe u v w

/-- A computation over the states `σ` that raises errors `ε`. -/
def Comp (σ : Type u) (ε : Type v) (α : Type w) := σ → Option (Except ε α × σ)

namespace Comp

variable {σ : Type u} {ε : Type v} {α β : Type w}

instance : Monad (Comp σ ε) where
  pure a := fun s => some (.ok a, s)
  bind x f := fun s =>
    match x s with
    | none => none
    | some (.error e, s') => some (.error e, s')
    | some (.ok a, s') => f a s'

/-- It does not end. -/
def diverge : Comp σ ε α := fun _ => none

def raise (e : ε) : Comp σ ε α := fun s => some (.error e, s)

/-- What `f` gives for the state as it is. -/
def read (f : σ → α) : Comp σ ε α := fun s => some (.ok (f s), s)

def update (f : σ → σ) : Comp σ ε PUnit := fun s => some (.ok ⟨⟩, f s)

/-- `x >>= f` from a state: `f` begins where `x` returned. -/
theorem bind_apply (x : Comp σ ε α) (f : α → Comp σ ε β) (s : σ) :
    (x >>= f) s =
      match x s with
      | none => none
      | some (.error e, s') => some (.error e, s')
      | some (.ok a, s') => f a s' := rfl

theorem read_bind (g : σ → α) (f : α → Comp σ ε β) (s : σ) : (read g >>= f) s = f (g s) s := rfl

/-- However `x` ends from `s`, the outcome and the state after it meet `Q`. -/
def Ends (x : Comp σ ε α) (s : σ) (Q : Except ε α → σ → Prop) : Prop :=
  ∀ r s', x s = some (r, s') → Q r s'

theorem Ends.mono {x : Comp σ ε α} {s : σ} {Q Q' : Except ε α → σ → Prop} (h : x.Ends s Q)
    (hQ : ∀ r s', Q r s' → Q' r s') : x.Ends s Q' := fun r s' hx => hQ r s' (h r s' hx)

theorem ends_pure {a : α} {s : σ} {Q : Except ε α → σ → Prop} (h : Q (.ok a) s) :
    Ends (pure a : Comp σ ε α) s Q := by
  rintro r s' ⟨⟩
  exact h

theorem ends_diverge {s : σ} {Q : Except ε α → σ → Prop} :
    Ends (diverge : Comp σ ε α) s Q := by
  rintro r s' ⟨⟩

theorem ends_raise {e : ε} {s : σ} {Q : Except ε α → σ → Prop} (h : Q (.error e) s) :
    Ends (raise e : Comp σ ε α) s Q := by
  rintro r s' ⟨⟩
  exact h

theorem ends_read {f : σ → α} {s : σ} {Q : Except ε α → σ → Prop} (h : Q (.ok (f s)) s) :
    Ends (read f : Comp σ ε α) s Q := by
  rintro r s' ⟨⟩
  exact h

theorem ends_update {f : σ → σ} {s : σ} {Q : Except ε PUnit → σ → Prop} (h : Q (.ok ⟨⟩) (f s)) :
    Ends (update f : Comp σ ε PUnit) s Q := by
  rintro r s' ⟨⟩
  exact h

/-- The rule of sequences: what the first part ends in is where the second begins, unless it raised. -/
theorem ends_bind {x : Comp σ ε α} {f : α → Comp σ ε β} {s : σ} {Q : Except ε β → σ → Prop}
    (h : x.Ends s fun r s' =>
      match r with
      | .error e => Q (.error e) s'
      | .ok a => (f a).Ends s' Q) : Ends (x >>= f) s Q := by
  intro r s' hrun
  change (match x s with
    | none => none
    | some (.error e, s') => some (.error e, s')
    | some (.ok a, s') => f a s') = some (r, s') at hrun
  split at hrun
  · cases hrun
  · rename_i e s₁ hx
    obtain ⟨rfl, rfl⟩ := Prod.mk.inj (Option.some.inj hrun)
    exact h _ _ hx
  · rename_i a s₁ hx
    exact h _ _ hx r s' hrun

/-! ## Relations that compose -/

/-- A relation between the state before a computation, whether it returned, and the state after it, that
holds of doing nothing and composes. -/
structure Sequential (R : σ → Bool → σ → Prop) : Prop where
  refl : ∀ s b, R s b s
  trans : ∀ {s₁ s₂ s₃ b}, R s₁ true s₂ → R s₂ b s₃ → R s₁ b s₃

/-- Whether a computation returned. -/
def returned : Except ε α → Bool
  | .ok _ => true
  | .error _ => false

/-- However the computation ends, the relation holds between its states. -/
def Keeps (R : σ → Bool → σ → Prop) (x : Comp σ ε α) : Prop :=
  ∀ s, x.Ends s fun r s' => R s (returned r) s'

section Keeps

variable {R : σ → Bool → σ → Prop} (hR : Sequential R)

include hR

theorem keeps_pure (a : α) : Keeps R (pure a : Comp σ ε α) := fun s => ends_pure (hR.refl s _)

theorem keeps_raise (e : ε) : Keeps R (raise e : Comp σ ε α) := fun s => ends_raise (hR.refl s _)

theorem keeps_read (f : σ → α) : Keeps R (read f : Comp σ ε α) := fun s => ends_read (hR.refl s _)

theorem keeps_bind {x : Comp σ ε α} {f : α → Comp σ ε β} (hx : Keeps R x)
    (hf : ∀ a, Keeps R (f a)) : Keeps R (x >>= f) := by
  intro s
  apply ends_bind
  intro r s₁ h₁
  have hxs := hx s r s₁ h₁
  match r with
  | .error e => exact hxs
  | .ok a =>
    intro r' s₂ h₂
    exact hR.trans hxs (hf a s₁ r' s₂ h₂)

end Keeps

theorem keeps_diverge {R : σ → Bool → σ → Prop} : Keeps R (diverge : Comp σ ε α) :=
  fun _ => ends_diverge

theorem keeps_update {R : σ → Bool → σ → Prop} {f : σ → σ} (h : ∀ s, R s true (f s)) :
    Keeps R (update f : Comp σ ε PUnit) := fun s => ends_update (h s)

theorem keeps_ite {R : σ → Bool → σ → Prop} {c : Prop} [Decidable c] {x y : Comp σ ε α}
    (hx : Keeps R x) (hy : Keeps R y) : Keeps R (if c then x else y) := by
  split
  · exact hx
  · exact hy

end Comp

end AntServer.Lib
