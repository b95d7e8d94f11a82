/-
# AntServer.Lib.Buckets — a hash table of chained entries

Each bucket is a chain of entries, newest first, and keys with one hash share it. What the table holds
for a key is the list of the key's own entries (`entries`): `put` adds to it, `take` removes the newest
of them, and neither touches the entries of another key, in the same bucket or not.

Nothing here names the modelled system.
-/
import Mathlib.Logic.Function.Basic
import Mathlib.Data.List.Basic

namespace AntServer.Lib.Buckets

variable {I K B : Type*} [DecidableEq I] [DecidableEq K]

/-- The entries of `k` in a chain. -/
def chainEntries (k : K) (chain : List (K × B)) : List B :=
  chain.filterMap fun e => if e.1 = k then some e.2 else none

/-- The first entry of `k`, and the chain without it. -/
def unlink (k : K) : List (K × B) → Option B × List (K × B)
  | [] => (none, [])
  | e :: chain =>
    if e.1 = k then (some e.2, chain) else ((unlink k chain).1, e :: (unlink k chain).2)

theorem chainEntries_cons (k : K) (e : K × B) (chain : List (K × B)) :
    chainEntries k (e :: chain) = (if e.1 = k then [e.2] else []) ++ chainEntries k chain := by
  unfold chainEntries
  rw [List.filterMap_cons]
  split
  · rename_i h
    rw [if_neg fun he => nomatch (if_pos he).symm.trans h]
    rfl
  · rename_i x h
    by_cases he : e.1 = k
    · rw [if_pos he] at h ⊢
      cases h
      rfl
    · rw [if_neg he] at h
      cases h

theorem unlink_fst (k : K) (chain : List (K × B)) :
    (unlink k chain).1 = (chainEntries k chain).head? := by
  induction chain with
  | nil => rfl
  | cons e chain ih =>
    rw [chainEntries_cons]
    unfold unlink
    split
    · rfl
    · exact ih

theorem unlink_snd (k k' : K) (chain : List (K × B)) : chainEntries k' (unlink k chain).2 =
    if k' = k then (chainEntries k' chain).tail else chainEntries k' chain := by
  induction chain with
  | nil => exact (ite_self _).symm
  | cons e chain ih =>
    unfold unlink
    split
    · rename_i he
      rw [chainEntries_cons, he]
      by_cases hk : k' = k
      · rw [if_pos hk, if_pos hk.symm]
        rfl
      · rw [if_neg hk, if_neg (Ne.symm hk)]
        rfl
    · rename_i he
      show chainEntries k' (e :: (unlink k chain).2) = _
      rw [chainEntries_cons, chainEntries_cons, ih]
      by_cases hk : k' = k
      · rw [if_pos hk, if_pos hk, if_neg fun h => he (h.trans hk)]
        rfl
      · rw [if_neg hk, if_neg hk]

theorem unlink_of_chainEntries {k : K} {chain : List (K × B)} (h : chainEntries k chain = []) :
    (unlink k chain).2 = chain := by
  induction chain with
  | nil => rfl
  | cons e chain ih =>
    rw [chainEntries_cons] at h
    obtain ⟨he, hchain⟩ := List.append_eq_nil_iff.mp h
    unfold unlink
    by_cases hk : e.1 = k
    · rw [if_pos hk] at he
      cases he
    · rw [if_neg hk]
      show e :: (unlink k chain).2 = _
      rw [ih hchain]

/-! ## The table -/

variable (hash : K → I)

def put (k : K) (x : B) (b : I → List (K × B)) : I → List (K × B) :=
  Function.update b (hash k) ((k, x) :: b (hash k))

/-- The newest entry of `k`, if there is one, and the table without it. -/
def take (k : K) (b : I → List (K × B)) : Option B × (I → List (K × B)) :=
  ((unlink k (b (hash k))).1, Function.update b (hash k) (unlink k (b (hash k))).2)

/-- What the table holds for `k`, newest first. -/
def entries (b : I → List (K × B)) (k : K) : List B := chainEntries k (b (hash k))

variable (k k' : K) (b : I → List (K × B))

theorem take_fst : (take hash k b).1 = (entries hash b k).head? := unlink_fst k _

theorem entries_take : entries hash (take hash k b).2 k' =
    if k' = k then (entries hash b k').tail else entries hash b k' := by
  show chainEntries k' (Function.update b (hash k) (unlink k (b (hash k))).2 (hash k')) = _
  by_cases hh : hash k' = hash k
  · rw [hh, Function.update_self, unlink_snd]
    unfold entries
    rw [hh]
  · rw [Function.update_of_ne hh, if_neg fun h => hh (congrArg hash h)]
    rfl

theorem entries_put (x : B) : entries hash (put hash k x b) k' =
    if k' = k then x :: entries hash b k' else entries hash b k' := by
  show chainEntries k' (Function.update b (hash k) ((k, x) :: b (hash k)) (hash k')) = _
  by_cases hh : hash k' = hash k
  · rw [hh, Function.update_self, chainEntries_cons]
    unfold entries
    rw [hh]
    by_cases hk : k' = k
    · rw [if_pos hk, if_pos hk.symm]
      rfl
    · rw [if_neg hk, if_neg (Ne.symm hk)]
      rfl
  · rw [Function.update_of_ne hh, if_neg fun h => hh (congrArg hash h)]
    rfl

variable {hash k b} in
/-- There is nothing to take. -/
theorem take_of_entries (h : entries hash b k = []) : (take hash k b).2 = b := by
  have hunlink : (unlink k (b (hash k))).2 = b (hash k) := unlink_of_chainEntries h
  show Function.update b (hash k) (unlink k (b (hash k))).2 = b
  rw [hunlink, Function.update_eq_self]

/-! ## One entry a key

A user that takes a key's entry before it puts one leaves at most one of each. -/

def Single (b : I → List (K × B)) : Prop := ∀ k, (entries hash b k).length ≤ 1

omit [DecidableEq I] in
theorem single_empty : Single hash fun _ => ([] : List (K × B)) := fun _ => Nat.zero_le 1

/-- The entry of `k` taken out and `x`, if it is one, put in its place. -/
def replace (x : Option B) : I → List (K × B) :=
  x.elim (take hash k b).2 fun x => put hash k x (take hash k b).2

variable {hash b}

omit [DecidableEq I] in
theorem Single.tail (h : Single hash b) : (entries hash b k).tail = [] := by
  apply List.eq_nil_of_length_eq_zero
  have := h k
  rw [List.length_tail]
  omega

theorem Single.entries_replace (h : Single hash b) (x : Option B) :
    entries hash (replace hash k b x) k' = if k' = k then x.toList else entries hash b k' := by
  cases x with
  | none =>
    show entries hash (take hash k b).2 k' = _
    rw [entries_take]
    refine if_ctx_congr Iff.rfl (fun _ => ?_) fun _ => rfl
    exact h.tail k'
  | some x =>
    show entries hash (put hash k x (take hash k b).2) k' = _
    rw [entries_put, entries_take]
    by_cases hk : k' = k
    · rw [if_pos hk, if_pos hk, if_pos hk, h.tail k']
      rfl
    · rw [if_neg hk, if_neg hk, if_neg hk]

theorem Single.replace (h : Single hash b) (x : Option B) : Single hash (replace hash k b x) := by
  intro k'
  rw [h.entries_replace]
  split
  · cases x
    · exact Nat.zero_le 1
    · exact Nat.le_refl 1
  · exact h k'

end AntServer.Lib.Buckets
