/-
# AntServer.Lib.WatchedSets — a bit that follows a property of a changing set

A finite set changes by one element at a time, and a bit is to say whether the set has a property `p`. The
bit is looked at when a watched element comes or goes: it becomes `p` of the new set when one comes, and
false when one goes. At all other changes it stays.

The bit is right in every run if and only if no set has the property, or some element is watched and
the sets with the property are those that have all the watched elements (`exact_iff_steady`). Properties
of another kind, such as to have one of two elements or to lack one, cannot be followed in this way.

Nothing here names the modelled system.
-/
import AntServer.Lib.Machine
import Mathlib.Data.Finset.Basic
import Mathlib.Data.Finset.Lattice.Lemmas

namespace AntServer.Lib.WatchedSets

variable {α : Type*} [DecidableEq α]

/-- A set, and the bit. -/
structure Cell (α : Type*) where
  set : Finset α
  bit : Prop

inductive Change (α : Type*) where
  | add (a : α)
  | remove (a : α)

open Classical in
/-- One change, where `w` are the watched elements. -/
noncomputable def change (p : Finset α → Prop) (w : α → Prop) (c : Cell α) : Change α → Option (Cell α)
  | .add a => if a ∈ c.set then none
      else some ⟨insert a c.set, if w a then p (insert a c.set) else c.bit⟩
  | .remove a => if a ∈ c.set then some ⟨c.set.erase a, if w a then False else c.bit⟩ else none

/-- The runs from the empty set and a false bit. -/
noncomputable def following (p : Finset α → Prop) (w : α → Prop) : Machine (Cell α) (Change α) where
  start c := c = ⟨∅, False⟩
  step := change p w

/-- No set has the property, or the sets that have it are those with all the watched elements. -/
def Steady (p : Finset α → Prop) (w : α → Prop) : Prop :=
  (∀ S, ¬ p S) ∨ (∃ a, w a) ∧ ∀ S, p S ↔ ∀ a, w a → a ∈ S

variable {p : Finset α → Prop} {w : α → Prop}

/-! ## A steady property is followed -/

omit [DecidableEq α] in
theorem Steady.not_empty (h : Steady p w) : ¬ p ∅ := by
  rcases h with hnever | ⟨⟨a, ha⟩, hall⟩
  · exact hnever ∅
  · intro hp
    exact Finset.notMem_empty a ((hall ∅).mp hp a ha)

/-- An element that is not watched does not matter. -/
theorem Steady.insert_iff (h : Steady p w) {a : α} (ha : ¬ w a) (S : Finset α) : p (insert a S) ↔ p S := by
  rcases h with hnever | ⟨-, hall⟩
  · exact iff_of_false (hnever _) (hnever _)
  · rw [hall, hall]
    refine forall_congr' fun b => imp_congr_right fun hb => ?_
    have hne : b ≠ a := fun heq => ha (heq ▸ hb)
    rw [Finset.mem_insert, or_iff_right hne]

theorem Steady.erase_iff (h : Steady p w) {a : α} (ha : ¬ w a) (S : Finset α) : p (S.erase a) ↔ p S := by
  rcases h with hnever | ⟨-, hall⟩
  · exact iff_of_false (hnever _) (hnever _)
  · rw [hall, hall]
    refine forall_congr' fun b => imp_congr_right fun hb => ?_
    have hne : b ≠ a := fun heq => ha (heq ▸ hb)
    rw [Finset.mem_erase, and_iff_right hne]

omit [DecidableEq α] in
/-- A set without a watched element does not have the property. -/
theorem Steady.not_of_not_mem (h : Steady p w) {a : α} (ha : w a) {S : Finset α} (hS : a ∉ S) : ¬ p S := by
  rcases h with hnever | ⟨-, hall⟩
  · exact hnever S
  · exact fun hp => hS ((hall S).mp hp a ha)

/-- An element comes, and the bit stays right. -/
theorem Steady.add (h : Steady p w) {S : Finset α} {a : α} {b b' : Prop} (hb : b ↔ p S)
    (hw : w a → (b' ↔ p (insert a S))) (hu : ¬ w a → (b' ↔ b)) : b' ↔ p (insert a S) := by
  by_cases ha : w a
  · exact hw ha
  · exact (hu ha).trans (hb.trans (h.insert_iff ha S).symm)

/-- An element goes, and the bit stays right. -/
theorem Steady.remove (h : Steady p w) {S : Finset α} {a : α} {b b' : Prop} (hb : b ↔ p S)
    (hw : w a → ¬ b') (hu : ¬ w a → (b' ↔ b)) : b' ↔ p (S.erase a) := by
  by_cases ha : w a
  · exact iff_of_false (hw ha) (h.not_of_not_mem ha (Finset.notMem_erase a S))
  · exact (hu ha).trans (hb.trans (h.erase_iff ha S).symm)

theorem change_add {c : Cell α} {a : α} (ha : a ∉ c.set) :
    ∃ b, change p w c (.add a) = some ⟨insert a c.set, b⟩ ∧ (w a → (b ↔ p (insert a c.set))) ∧
      (¬ w a → (b ↔ c.bit)) := by
  refine ⟨_, if_neg ha, fun hw => ?_, fun hw => ?_⟩
  · rw [if_pos hw]
  · rw [if_neg hw]

theorem change_remove {c : Cell α} {a : α} (ha : a ∈ c.set) :
    ∃ b, change p w c (.remove a) = some ⟨c.set.erase a, b⟩ ∧ (w a → ¬ b) ∧ (¬ w a → (b ↔ c.bit)) := by
  refine ⟨_, if_pos ha, fun hw => ?_, fun hw => ?_⟩
  · rw [if_pos hw]
    exact id
  · rw [if_neg hw]

theorem change_add_inv {c c' : Cell α} {a : α} (h : change p w c (.add a) = some c') :
    a ∉ c.set ∧ c'.set = insert a c.set ∧ (w a → (c'.bit ↔ p (insert a c.set))) ∧
      (¬ w a → (c'.bit ↔ c.bit)) := by
  by_cases ha : a ∈ c.set
  · rw [change, if_pos ha] at h
    cases h
  · obtain ⟨b, hstep, hw, hu⟩ := change_add (p := p) (w := w) ha
    obtain rfl := Option.some.inj (hstep.symm.trans h)
    exact ⟨ha, rfl, hw, hu⟩

theorem change_remove_inv {c c' : Cell α} {a : α} (h : change p w c (.remove a) = some c') :
    a ∈ c.set ∧ c'.set = c.set.erase a ∧ (w a → ¬ c'.bit) ∧ (¬ w a → (c'.bit ↔ c.bit)) := by
  by_cases ha : a ∈ c.set
  · obtain ⟨b, hstep, hw, hu⟩ := change_remove (p := p) (w := w) ha
    obtain rfl := Option.some.inj (hstep.symm.trans h)
    exact ⟨ha, rfl, hw, hu⟩
  · rw [change, if_neg ha] at h
    cases h

/-- One change keeps the bit right. -/
theorem Steady.change (h : Steady p w) {c c' : Cell α} {x : Change α} (hc : c.bit ↔ p c.set)
    (hs : change p w c x = some c') : c'.bit ↔ p c'.set := by
  cases x with
  | add a =>
    obtain ⟨-, hset, hw, hu⟩ := change_add_inv hs
    rw [hset]
    exact h.add hc hw hu
  | remove a =>
    obtain ⟨-, hset, hw, hu⟩ := change_remove_inv hs
    rw [hset]
    exact h.remove hc hw hu

/-! ## What is followed is steady -/

/-- The bit is right in every run. -/
def Exact (p : Finset α → Prop) (w : α → Prop) : Prop :=
  ∀ c, (following p w).Reach c → (c.bit ↔ p c.set)

/-- Every finite set comes up in a run. -/
theorem reach_set (p : Finset α → Prop) (w : α → Prop) (S : Finset α) :
    ∃ b, (following p w).Reach ⟨S, b⟩ := by
  induction S using Finset.induction_on with
  | empty => exact ⟨False, .start rfl⟩
  | insert a S ha ih =>
    obtain ⟨b, hb⟩ := ih
    obtain ⟨b', hstep, -, -⟩ := change_add (p := p) (w := w) (c := ⟨S, b⟩) ha
    exact ⟨b', .step (a := .add a) hb trivial hstep⟩

/-- A set with the property has the watched elements: without one of them the bit is false. -/
theorem Exact.mem_of (h : Exact p w) {S : Finset α} {a : α} (ha : w a) (hS : p S) : a ∈ S := by
  by_contra hmem
  obtain ⟨b, hb⟩ := reach_set p w (insert a S)
  obtain ⟨b', hstep, hfalse, -⟩ :=
    change_remove (p := p) (w := w) (c := ⟨insert a S, b⟩) (Finset.mem_insert_self a S)
  refine hfalse ha ((h _ (.step (a := .remove a) hb trivial hstep)).mpr ?_)
  show p ((insert a S).erase a)
  rw [Finset.erase_insert hmem]
  exact hS

/-- An element that is not watched does not matter: the bit stays. -/
theorem Exact.insert_iff (h : Exact p w) {a : α} (ha : ¬ w a) (S : Finset α) : p (insert a S) ↔ p S := by
  by_cases hmem : a ∈ S
  · rw [Finset.insert_eq_of_mem hmem]
  · obtain ⟨b, hb⟩ := reach_set p w S
    obtain ⟨b', hstep, -, hsame⟩ := change_add (p := p) (w := w) (c := ⟨S, b⟩) hmem
    have hright : b' ↔ p (insert a S) := h _ (.step (a := .add a) hb trivial hstep)
    exact hright.symm.trans ((hsame ha).trans (h _ hb))

/-- Nothing that is added to the watched elements matters. -/
theorem Exact.union_iff (h : Exact p w) {T : Finset α} (hT : ∀ a, w a → a ∈ T) (S : Finset α) :
    p (T ∪ S) ↔ p T := by
  induction S using Finset.induction_on with
  | empty => rw [Finset.union_empty]
  | insert a S ha ih =>
    rw [Finset.union_insert]
    by_cases hw : w a
    · rw [Finset.insert_eq_of_mem (Finset.mem_union_left S (hT a hw))]
      exact ih
    · exact (h.insert_iff hw (T ∪ S)).trans ih

theorem Exact.steady (h : Exact p w) : Steady p w := by
  by_cases hnever : ∀ S, ¬ p S
  · exact .inl hnever
  · obtain ⟨T, hT⟩ := not_forall_not.mp hnever
    have hwatched : ∀ a, w a → a ∈ T := fun a ha => h.mem_of ha hT
    have hall : ∀ S, p S ↔ ∀ a, w a → a ∈ S := by
      intro S
      refine ⟨fun hS a ha => h.mem_of ha hS, fun hS => ?_⟩
      have hunion : p (S ∪ T) := by
        rw [Finset.union_comm]
        exact (h.union_iff hwatched S).mpr hT
      exact (h.union_iff hS T).mp hunion
    refine .inr ⟨?_, hall⟩
    by_contra hno
    -- with nothing to watch, the bit would never come on
    have hempty : p ∅ := (hall ∅).mpr fun a ha => absurd ⟨a, ha⟩ hno
    exact (h ⟨∅, False⟩ (.start rfl)).mpr hempty

/-- The bit is right in every run if and only if the property is steady. -/
theorem exact_iff_steady : Exact p w ↔ Steady p w := by
  refine ⟨Exact.steady, fun h c hc => ?_⟩
  refine hc.invariant (fun c => c.bit ↔ p c.set) ?_ ?_
  · rintro c rfl
    exact iff_of_false id h.not_empty
  · intro c x c' _ hi _ hs
    exact h.change hi hs

end AntServer.Lib.WatchedSets
