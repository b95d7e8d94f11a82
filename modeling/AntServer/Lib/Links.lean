/-
# AntServer.Lib.Links — lists threaded through an array

The cells of an array are linked by the index of the next one. `Chain next l` says that the cells of `l`
are linked in this order and that the last one ends the list. Three things are done with such a list: a
cell is put behind its head (`Chain.insert_second`), a cell is replaced by another one that takes over its
link (`Chain.replace`), and the list is walked, to a cell with a property (`Chain.find_eq`) or to the cell
in front of a given one (`Chain.before_eq`).

Nothing here names the modelled system.
-/
import Mathlib.Logic.Function.Basic
import Mathlib.Data.List.Nodup

namespace AntServer.Lib

/-- The cells of `l` are linked one after the other, and the last one is linked to none. -/
def Chain (next : Nat → Option Nat) : List Nat → Prop
  | [] => True
  | i :: l => next i = l.head? ∧ Chain next l

namespace Chain

variable {next : Nat → Option Nat}

theorem congr {next' : Nat → Option Nat} {l : List Nat} (h : ∀ i ∈ l, next' i = next i)
    (hl : Chain next l) : Chain next' l := by
  induction l with
  | nil => trivial
  | cons i l ih =>
    exact ⟨(h i List.mem_cons_self).trans hl.1, ih (fun j hj => h j (List.mem_cons_of_mem i hj)) hl.2⟩

/-- The list from one of its cells on. -/
theorem of_append {l l' : List Nat} (h : Chain next (l ++ l')) : Chain next l' := by
  induction l with
  | nil => exact h
  | cons i l ih => exact ih h.2

/-- A cell of its own. -/
theorem singleton {i : Nat} (h : next i = none) : Chain next [i] := ⟨h, trivial⟩

/-- A cell `n` that is not in the list goes behind its head. -/
theorem insert_second {p n : Nat} {l : List Nat} (h : Chain next (p :: l)) (hn : n ∉ p :: l)
    (hnodup : (p :: l).Nodup) :
    Chain (Function.update (Function.update next n (next p)) p (some n)) (p :: n :: l) := by
  have hpn : n ≠ p := fun he => hn (he ▸ List.mem_cons_self)
  refine ⟨Function.update_self _ _ _, ?_, ?_⟩
  · rw [Function.update_of_ne hpn, Function.update_self]
    exact h.1
  · refine congr (fun i hi => ?_) h.2
    have hip : i ≠ p := fun he => (List.nodup_cons.mp hnodup).1 (he ▸ hi)
    have hin : i ≠ n := fun he => hn (he ▸ List.mem_cons_of_mem p hi)
    rw [Function.update_of_ne hip, Function.update_of_ne hin]

/-- The cell `n` takes the place of the cell `m`, and its link; `o` is the cell in front. -/
theorem replace {next' : Nat → Option Nat} {l l' : List Nat} {o m n : Nat}
    (h : Chain next (l ++ o :: m :: l')) (hnodup : (l ++ o :: m :: l').Nodup)
    (ho : next' o = some n) (hn : next' n = next m)
    (hsame : ∀ i ∈ l ++ l', next' i = next i) : Chain next' (l ++ o :: n :: l') := by
  induction l with
  | nil =>
    refine ⟨ho, hn.trans h.2.1, congr (fun i hi => hsame i hi) h.2.2⟩
  | cons i l ih =>
    refine ⟨?_, ih h.2 (List.nodup_cons.mp hnodup).2 fun j hj => hsame j (List.mem_cons_of_mem i hj)⟩
    rw [hsame i List.mem_cons_self, h.1]
    cases l with
    | nil => rfl
    | cons j l => rfl

end Chain

/-! ## A cell in the middle -/

section middle

variable {l l' : List Nat} {o m n : Nat}

/-- In a list without a cell twice, a cell of the middle is nowhere else. -/
theorem not_mem_of_nodup_middle (h : (l ++ o :: m :: l').Nodup) : m ∉ l ++ o :: l' := by
  have hperm : (m :: (l ++ [o] ++ l')).Nodup := List.nodup_middle.mp (by simpa using h)
  have hnot := (List.nodup_cons.mp hperm).1
  rwa [List.append_assoc, List.singleton_append] at hnot

/-- A new cell takes its place. -/
theorem nodup_replace_middle (h : (l ++ o :: m :: l').Nodup) (hn : n ∉ l ++ o :: l') :
    (l ++ o :: n :: l').Nodup := by
  have hperm : (m :: (l ++ [o] ++ l')).Nodup := List.nodup_middle.mp (by simpa using h)
  have hn' : n ∉ l ++ [o] ++ l' := by
    rwa [List.append_assoc, List.singleton_append]
  have hput : (l ++ [o] ++ n :: l').Nodup :=
    List.nodup_middle.mpr (List.nodup_cons.mpr ⟨hn', (List.nodup_cons.mp hperm).2⟩)
  rwa [List.append_assoc, List.singleton_append] at hput

end middle

/-! ## Walks -/

/-- From the cell `i`, at most `fuel` cells far, to the first one with the property `p`. -/
def findFrom (next : Nat → Option Nat) (p : Nat → Bool) : Nat → Nat → Option Nat
  | 0, _ => none
  | fuel + 1, i => if p i then some i else (next i).bind (findFrom next p fuel)

/-- From the cell `i`, at most `fuel` cells far, to the one in front of the cell `m`. -/
def before (next : Nat → Option Nat) (m : Nat) : Nat → Nat → Option Nat
  | 0, _ => none
  | fuel + 1, i => if next i = some m then some i else (next i).bind (before next m fuel)

variable {next : Nat → Option Nat} {p : Nat → Bool}

/-- In a chain the first cell with the property is found. -/
theorem Chain.find_eq {l : List Nat} (h : Chain next l) {fuel : Nat} (hfuel : l.length ≤ fuel) :
    (l.head?.bind fun i => findFrom next p fuel i) = l.find? p := by
  induction l generalizing fuel with
  | nil => rfl
  | cons i l ih =>
    obtain ⟨fuel, rfl⟩ : ∃ k, fuel = k + 1 := ⟨fuel - 1, by simp only [List.length_cons] at hfuel; omega⟩
    simp only [List.length_cons] at hfuel
    show findFrom next p (fuel + 1) i = _
    rw [findFrom, List.find?_cons]
    cases hp : p i with
    | true => rfl
    | false =>
      rw [h.1]
      exact ih h.2 (by omega)

/-- In a chain without a cell twice the cell in front of a given one is found. -/
theorem Chain.before_eq {l l' : List Nat} {i o m : Nat} (h : Chain next (l ++ o :: m :: l'))
    (hnodup : (l ++ o :: m :: l').Nodup) (hi : (l ++ [o]).head? = some i) {fuel : Nat}
    (hfuel : l.length < fuel) : before next m fuel i = some o := by
  induction l generalizing fuel i with
  | nil =>
    obtain rfl := Option.some.inj hi
    obtain ⟨fuel, rfl⟩ : ∃ k, fuel = k + 1 := ⟨fuel - 1, by omega⟩
    exact if_pos h.1
  | cons a l ih =>
    obtain rfl := Option.some.inj hi
    obtain ⟨fuel, rfl⟩ : ∃ k, fuel = k + 1 := ⟨fuel - 1, by omega⟩
    simp only [List.length_cons] at hfuel
    obtain ⟨hnot, hrest⟩ := List.nodup_cons.mp hnodup
    have hhead : (l ++ o :: m :: l').head? = (l ++ [o]).head? := by
      cases l with
      | nil => rfl
      | cons b l => rfl
    have hne : next a ≠ some m := by
      rw [h.1]
      intro hm
      -- the next cell is `m` only if `o`, which is in front of it, is `m` itself
      cases l with
      | nil =>
        have hom := Option.some.inj hm
        exact (List.nodup_cons.mp hrest).1 (hom ▸ List.mem_cons_self)
      | cons b l =>
        have hbm := Option.some.inj hm
        exact (List.nodup_cons.mp hrest).1 (hbm ▸ by simp)
    have hnext : next a = (l ++ [o]).head? := h.1.trans hhead
    rw [before, if_neg hne, hnext]
    cases hl : (l ++ [o]).head? with
    | none => simp at hl
    | some b => exact ih h.2 hrest hl (by omega)

end AntServer.Lib
