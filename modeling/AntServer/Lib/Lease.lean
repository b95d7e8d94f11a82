/-
# AntServer.Lib.Lease — a pool that leases what it holds

A lessor has free items, leased ones, and items on their way back. The discipline is `Exclusive`: an
item is free or leased and only once so, and only a leased item is on its way back, once. It is kept
by every operation of a lessor, when an item is asked back only while it is leased and not on its way
back already.

All statements are up to the order of the lists. Nothing here names the modelled system.
-/
import Mathlib.Data.List.Nodup
import Mathlib.Data.List.Perm.Basic

namespace AntServer.Lib

/-! ## Leases -/

/-- The items of a lessor. -/
structure Lease (α : Type*) where
  free : List α
  leased : List α
  returning : List α

namespace Lease

variable {α : Type*}

/-- Each item is free or leased, once, and what is on its way back is leased. -/
structure Exclusive (l : Lease α) : Prop where
  nodup : (l.free ++ l.leased).Nodup
  returnOnce : l.returning.Nodup
  returnLeased : ∀ a ∈ l.returning, a ∈ l.leased

theorem Exclusive.apart {l : Lease α} (h : l.Exclusive) {a : α} (hf : a ∈ l.free) : a ∉ l.leased :=
  fun hl => (List.nodup_append.mp h.nodup).2.2 a hf a hl rfl

theorem Exclusive.free_nodup {l : Lease α} (h : l.Exclusive) : l.free.Nodup :=
  (List.nodup_append.mp h.nodup).1

theorem Exclusive.leased_nodup {l : Lease α} (h : l.Exclusive) : l.leased.Nodup :=
  (List.nodup_append.mp h.nodup).2.1

/-! ## The operations -/

/-- The order of the lists is immaterial. -/
theorem Exclusive.perm {l l' : Lease α} (h : l.Exclusive) (hf : l.free.Perm l'.free)
    (hl : l.leased.Perm l'.leased) (hr : l.returning.Perm l'.returning) : l'.Exclusive where
  nodup := (hf.append hl).nodup_iff.mp h.nodup
  returnOnce := hr.nodup_iff.mp h.returnOnce
  returnLeased := fun a ha => hl.mem_iff.mp (h.returnLeased a (hr.mem_iff.mpr ha))

/-- A new item becomes free. -/
theorem Exclusive.enlist {l : Lease α} (h : l.Exclusive) {a : α} (hf : a ∉ l.free) (hl : a ∉ l.leased) :
    (⟨l.free ++ [a], l.leased, l.returning⟩ : Lease α).Exclusive where
  nodup := by
    have hp : (l.free ++ [a] ++ l.leased).Perm (a :: (l.free ++ l.leased)) := by
      rw [List.append_assoc]
      exact List.perm_middle
    rw [hp.nodup_iff, List.nodup_cons, List.mem_append]
    exact ⟨fun hm => hm.elim hf hl, h.nodup⟩
  returnOnce := h.returnOnce
  returnLeased := h.returnLeased

/-- A new item is leased at once. -/
theorem Exclusive.enlistLeased {l : Lease α} (h : l.Exclusive) {a : α} (hf : a ∉ l.free)
    (hl : a ∉ l.leased) : (⟨l.free, a :: l.leased, l.returning⟩ : Lease α).Exclusive where
  nodup := by
    have hp : (l.free ++ a :: l.leased).Perm (a :: (l.free ++ l.leased)) := List.perm_middle
    rw [hp.nodup_iff, List.nodup_cons, List.mem_append]
    exact ⟨fun hm => hm.elim hf hl, h.nodup⟩
  returnOnce := h.returnOnce
  returnLeased := fun b hb => List.mem_cons_of_mem _ (h.returnLeased b hb)

/-- A free item is leased. -/
theorem Exclusive.lease {free leased returning : List α} {a : α}
    (h : (⟨free ++ [a], leased, returning⟩ : Lease α).Exclusive) :
    (⟨free, a :: leased, returning⟩ : Lease α).Exclusive where
  nodup := by
    have hp : (free ++ a :: leased).Perm (free ++ [a] ++ leased) := by
      rw [List.append_assoc]
      exact .refl _
    exact hp.nodup_iff.mpr h.nodup
  returnOnce := h.returnOnce
  returnLeased := fun b hb => List.mem_cons_of_mem _ (h.returnLeased b hb)

/-- A leased item that is not on its way back is asked back. -/
theorem Exclusive.ask {l : Lease α} (h : l.Exclusive) {a : α} (hl : a ∈ l.leased)
    (hr : a ∉ l.returning) : (⟨l.free, l.leased, a :: l.returning⟩ : Lease α).Exclusive where
  nodup := h.nodup
  returnOnce := List.nodup_cons.mpr ⟨hr, h.returnOnce⟩
  returnLeased := fun b hb => (List.mem_cons.mp hb).elim (· ▸ hl) (h.returnLeased b)

/-- An item on its way back never arrives. -/
theorem Exclusive.lose {free leased returning : List α} {a : α}
    (h : (⟨free, leased, a :: returning⟩ : Lease α).Exclusive) :
    (⟨free, leased, returning⟩ : Lease α).Exclusive where
  nodup := h.nodup
  returnOnce := (List.nodup_cons.mp h.returnOnce).2
  returnLeased := fun b hb => h.returnLeased b (List.mem_cons_of_mem _ hb)

variable [DecidableEq α]

/-- An item on its way back arrives and is retired. -/
theorem Exclusive.retire {free leased returning : List α} {a : α}
    (h : (⟨free, leased, a :: returning⟩ : Lease α).Exclusive) :
    (⟨free, leased.erase a, returning⟩ : Lease α).Exclusive where
  nodup := h.nodup.sublist ((List.Sublist.refl _).append List.erase_sublist)
  returnOnce := (List.nodup_cons.mp h.returnOnce).2
  returnLeased := fun b hb => by
    have hne : b ≠ a := fun he => (List.nodup_cons.mp h.returnOnce).1 (he ▸ hb)
    exact (List.mem_erase_of_ne hne).mpr (h.returnLeased b (List.mem_cons_of_mem _ hb))

/-- An item on its way back arrives and is free again. -/
theorem Exclusive.accept {free leased returning : List α} {a : α}
    (h : (⟨free, leased, a :: returning⟩ : Lease α).Exclusive) :
    (⟨free ++ [a], leased.erase a, returning⟩ : Lease α).Exclusive :=
  h.retire.enlist (fun hf => h.apart hf (h.returnLeased a List.mem_cons_self))
    (fun hl => (List.Nodup.mem_erase_iff h.leased_nodup).mp hl |>.1 rfl)

end Lease

end AntServer.Lib
