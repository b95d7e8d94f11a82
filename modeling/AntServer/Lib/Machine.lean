/-
# AntServer.Lib.Machine — labelled machines, their runs, and invariants over runs

A machine has start states and a partial step function: `step s a` is `none` when the action `a`
is not enabled in `s`. A *guard* is a condition on a step, read in the state before it. The states
reached by runs whose steps all meet a guard are `ReachUnder`; with the trivial guard they are the
reachable states. Every invariant and simulation argument of the development goes through the
rules of this file, so the induction over runs is done here once.

Nothing here names the modelled system.
-/
import Mathlib.Data.Option.Basic

namespace AntServer.Lib

universe u v w

/-! ## Machines -/

/-- Start states and a partial step function over labelled actions. -/
structure Machine (σ : Type u) (α : Type v) where
  start : σ → Prop
  step : σ → α → Option σ

namespace Machine

/-! ## The states that are reached -/

variable {σ : Type u} {α : Type v} (M : Machine σ α)

/-- The states reached by the runs whose steps all meet the guard `G`. -/
inductive ReachUnder (G : σ → α → Prop) : σ → Prop
  | start {s : σ} : M.start s → ReachUnder G s
  | step {s s' : σ} {a : α} : ReachUnder G s → G s a → M.step s a = some s' → ReachUnder G s'

/-- The reachable states: no condition on the steps. -/
def Reach (s : σ) : Prop := M.ReachUnder (fun _ _ => True) s

variable {M}

/-- A weaker guard reaches at least as much. -/
theorem ReachUnder.mono {G G' : σ → α → Prop} (hG : ∀ s a, G s a → G' s a) {s : σ}
    (h : M.ReachUnder G s) : M.ReachUnder G' s := by
  induction h with
  | start h => exact .start h
  | step _ hg hs ih => exact .step ih (hG _ _ hg) hs

theorem ReachUnder.reach {G : σ → α → Prop} {s : σ} (h : M.ReachUnder G s) : M.Reach s :=
  h.mono fun _ _ _ => trivial

/-- The invariant rule. The step case may use that the state before the step is reached. -/
theorem ReachUnder.invariant {G : σ → α → Prop} (I : σ → Prop)
    (hstart : ∀ s, M.start s → I s)
    (hstep : ∀ s a s', M.ReachUnder G s → I s → G s a → M.step s a = some s' → I s')
    {s : σ} (h : M.ReachUnder G s) : I s := by
  induction h with
  | start h => exact hstart _ h
  | step hr hg hs ih => exact hstep _ _ _ hr ih hg hs

/-! ## Runs -/

/-- Carry out a list of actions. -/
def exec (M : Machine σ α) (s : σ) : List α → Option σ
  | [] => some s
  | a :: as => (M.step s a).bind fun s' => M.exec s' as

@[simp] theorem exec_nil (s : σ) : M.exec s [] = some s := rfl

@[simp] theorem exec_cons (s : σ) (a : α) (as : List α) :
    M.exec s (a :: as) = (M.step s a).bind fun s' => M.exec s' as := rfl

theorem exec_append (s : σ) (as bs : List α) :
    M.exec s (as ++ bs) = (M.exec s as).bind fun t => M.exec t bs := by
  induction as generalizing s with
  | nil => rfl
  | cons a as ih =>
    rw [List.cons_append, exec_cons, exec_cons, Option.bind_assoc]
    exact congrArg _ (funext ih)

/-- What a list of actions leads to from a reachable state is reachable. -/
theorem Reach.exec {s s' : σ} {as : List α} (h : M.Reach s) (he : M.exec s as = some s') :
    M.Reach s' := by
  induction as generalizing s with
  | nil => cases he; exact h
  | cons a as ih =>
    obtain ⟨t, ht, hrest⟩ := Option.bind_eq_some_iff.mp he
    exact ih (ReachUnder.step h trivial ht) hrest

/-! ## Runs under a guard -/

/-- The same for a guarded run, when the guard is checked at every step by `g`. -/
def execWhile (M : Machine σ α) (g : σ → α → Bool) (s : σ) : List α → Option σ
  | [] => some s
  | a :: as => if g s a then (M.step s a).bind fun s' => M.execWhile g s' as else none

theorem exec_of_execWhile {g : σ → α → Bool} {s s' : σ} {as : List α}
    (he : M.execWhile g s as = some s') : M.exec s as = some s' := by
  induction as generalizing s with
  | nil => exact he
  | cons a as ih =>
    by_cases hga : g s a = true
    · rw [Machine.execWhile, if_pos hga] at he
      obtain ⟨t, ht, hrest⟩ := Option.bind_eq_some_iff.mp he
      rw [exec_cons, ht]
      exact ih hrest
    · rw [Machine.execWhile, if_neg hga] at he
      cases he

theorem ReachUnder.execWhile {G : σ → α → Prop} {g : σ → α → Bool}
    (hg : ∀ s a, g s a = true → G s a) {s s' : σ} {as : List α} (h : M.ReachUnder G s)
    (he : M.execWhile g s as = some s') : M.ReachUnder G s' := by
  induction as generalizing s with
  | nil => cases he; exact h
  | cons a as ih =>
    by_cases hga : g s a = true
    · rw [Machine.execWhile, if_pos hga] at he
      obtain ⟨t, ht, hrest⟩ := Option.bind_eq_some_iff.mp he
      exact ih (ReachUnder.step h (hg _ _ hga) ht) hrest
    · rw [Machine.execWhile, if_neg hga] at he
      cases he

/-- Every step of a list of actions meets the guard. -/
def Meets (M : Machine σ α) (G : σ → α → Prop) (s : σ) : List α → Prop
  | [] => True
  | a :: as => G s a ∧ ∀ s', M.step s a = some s' → M.Meets G s' as

theorem ReachUnder.exec {G : σ → α → Prop} {s s' : σ} {as : List α} (h : M.ReachUnder G s)
    (hG : M.Meets G s as) (he : M.exec s as = some s') : M.ReachUnder G s' := by
  induction as generalizing s with
  | nil => cases he; exact h
  | cons a as ih =>
    obtain ⟨t, ht, hrest⟩ := Option.bind_eq_some_iff.mp he
    exact ih (.step h hG.1 ht) (hG.2 t ht) hrest

/-- What every step of a run keeps holds at its end. -/
theorem exec_invariant {P : α → Prop} (I : σ → Prop)
    (hstep : ∀ s a s', P a → I s → M.step s a = some s' → I s') {s s' : σ} {as : List α}
    (hP : ∀ a ∈ as, P a) (hs : I s) (he : M.exec s as = some s') : I s' := by
  induction as generalizing s with
  | nil => cases he; exact hs
  | cons a as ih =>
    obtain ⟨t, ht, hrest⟩ := Option.bind_eq_some_iff.mp he
    exact ih (fun b hb => hP b (List.mem_cons_of_mem _ hb))
      (hstep s a t (hP a List.mem_cons_self) hs ht) hrest

end Machine

end AntServer.Lib
