/-
# AntServer.Lib.WriteBack — write-back of documents with a fingerprint test

A holder keeps documents in memory, one per key, over a store. A flush writes a document back only
when its fingerprint differs from the one remembered at the last flush of its key. The remembered
fingerprint is only a hint: it may agree with the document in memory although the store holds
another one (`Blind`), by a collision or because it was remembered for somebody else's document. A
flush of a key that is not blind leaves the store with the document in memory, whatever happened
before.

Nothing here names the modelled system.
-/
import Mathlib.Logic.Function.Basic

namespace AntServer.Lib

/-! ## The cache -/

/-- Documents in memory, documents in the store, and the fingerprints remembered. -/
structure WriteBack (K D H : Type*) where
  memory : K → Option D
  store : K → Option D
  seen : K → Option H

namespace WriteBack

variable {K D H : Type*} [DecidableEq K] [DecidableEq H] (hash : D → H)

/-- Write the document of `k` back unless its fingerprint is the remembered one, and remember its
fingerprint. -/
def flush (c : WriteBack K D H) (k : K) : WriteBack K D H :=
  match c.memory k with
  | none => c
  | some d =>
    { c with
      store := if c.seen k = some (hash d) then c.store else Function.update c.store k (some d)
      seen := Function.update c.seen k (some (hash d)) }

/-- The fingerprint test would skip `k` although the store lacks its document. -/
def Blind (c : WriteBack K D H) (k : K) : Prop :=
  ∃ d, c.memory k = some d ∧ c.seen k = some (hash d) ∧ c.store k ≠ some d

/-! ## One key -/

@[simp] theorem flush_memory (c : WriteBack K D H) (k : K) :
    (c.flush hash k).memory = c.memory := by
  unfold flush
  split <;> rfl

/-- A flush touches the store at its own key only. -/
theorem flush_store_ne (c : WriteBack K D H) {k k' : K} (h : k' ≠ k) :
    (c.flush hash k).store k' = c.store k' := by
  unfold flush
  split
  · rfl
  · simp only
    split
    · rfl
    · rw [Function.update_of_ne h]

theorem flush_seen_ne (c : WriteBack K D H) {k k' : K} (h : k' ≠ k) :
    (c.flush hash k).seen k' = c.seen k' := by
  unfold flush
  split
  · rfl
  · exact Function.update_of_ne h _ _

/-- After the flush of a key that is not blind the store holds its document. -/
theorem flush_store (c : WriteBack K D H) {k : K} {d : D} (hd : c.memory k = some d)
    (hb : ¬ c.Blind hash k) : (c.flush hash k).store k = some d := by
  unfold flush
  simp only [hd]
  split
  · rename_i hseen
    by_contra hne
    exact hb ⟨d, hd, hseen, hne⟩
  · rw [Function.update_self]

/-- The flush of one key makes no other key blind. -/
theorem flush_blind_ne (c : WriteBack K D H) {k k' : K} (h : k' ≠ k) :
    (c.flush hash k).Blind hash k' ↔ c.Blind hash k' := by
  unfold Blind
  rw [flush_memory, flush_seen_ne hash c h, flush_store_ne hash c h]

/-! ## All keys -/

/-- Flush a list of keys one after another. -/
def flushAll (c : WriteBack K D H) (ks : List K) : WriteBack K D H := ks.foldl (flush hash) c

@[simp] theorem flushAll_memory (c : WriteBack K D H) (ks : List K) :
    (c.flushAll hash ks).memory = c.memory := by
  induction ks generalizing c with
  | nil => rfl
  | cons k ks ih => exact (ih (c.flush hash k)).trans (flush_memory hash c k)

theorem flushAll_store_notMem (c : WriteBack K D H) {ks : List K} {k : K} (h : k ∉ ks) :
    (c.flushAll hash ks).store k = c.store k := by
  induction ks generalizing c with
  | nil => rfl
  | cons k' ks ih =>
    have hne : k ≠ k' := fun he => h (he ▸ List.mem_cons_self)
    exact (ih _ fun hm => h (List.mem_cons_of_mem _ hm)).trans (flush_store_ne hash c hne)

/-- After the flush of distinct keys, none of them blind, the store holds all their documents. -/
theorem flushAll_store (c : WriteBack K D H) {ks : List K} (hks : ks.Nodup)
    (hb : ∀ k ∈ ks, ¬ c.Blind hash k) {k : K} (hk : k ∈ ks) {d : D} (hd : c.memory k = some d) :
    (c.flushAll hash ks).store k = some d := by
  induction ks generalizing c with
  | nil => cases hk
  | cons k' ks ih =>
    obtain ⟨hnot, hks⟩ := List.nodup_cons.mp hks
    by_cases hkk : k = k'
    · subst hkk
      exact (flushAll_store_notMem hash _ hnot).trans
        (flush_store hash c hd (hb k List.mem_cons_self))
    · refine ih (c.flush hash k') hks (fun q hq => ?_) ((List.mem_cons.mp hk).resolve_left hkk)
        (by rw [flush_memory]; exact hd)
      have hqk : q ≠ k' := fun he => hnot (he ▸ hq)
      exact (flush_blind_ne hash c hqk).not.mpr (hb q (List.mem_cons_of_mem _ hq))

end WriteBack

end AntServer.Lib
