/-
# AntServer.Lib.Table — finite tables

A `Table K V` is a finite map with decidable keys: an association list without a repeated key, the
`AList` of Mathlib at a constant value type. The operations are `get`, `set` and `del`, and those on a
whole table: `filterMap`, `overlay`, `modify`. Every later proof goes through the `get` of what they
build.

Nothing here names the modelled system.
-/
import Mathlib.Data.List.AList

namespace AntServer.Lib

/-- A finite map from `K` to `V`. -/
def Table (K V : Type*) := AList (fun _ : K => V)

namespace Table

variable {K V : Type*} [DecidableEq K]

def empty : Table K V := (∅ : AList fun _ : K => V)

instance : Inhabited (Table K V) := ⟨empty⟩

/-- The value stored under a key. -/
def get (t : Table K V) (k : K) : Option V := AList.lookup k t

/-- Store a value under a key, in place of the one stored before. -/
def set (t : Table K V) (k : K) (v : V) : Table K V := AList.insert k v t

/-- Remove a key. -/
def del (t : Table K V) (k : K) : Table K V := AList.erase k t

/-- The keys of a table, each once. -/
def keys (t : Table K V) : List K := AList.keys t

@[simp] theorem get_empty (k : K) : (empty : Table K V).get k = none := AList.lookup_empty k

theorem get_set (t : Table K V) (k k' : K) (v : V) :
    (t.set k v).get k' = if k' = k then some v else t.get k' := by
  by_cases h : k' = k
  · subst h
    rw [if_pos rfl]
    exact AList.lookup_insert t
  · rw [if_neg h]
    exact AList.lookup_insert_ne h

theorem get_del (t : Table K V) (k k' : K) :
    (t.del k).get k' = if k' = k then none else t.get k' := by
  by_cases h : k' = k
  · subst h
    rw [if_pos rfl]
    exact AList.lookup_erase k' t
  · rw [if_neg h]
    exact AList.lookup_erase_ne h

@[simp] theorem get_set_self (t : Table K V) (k : K) (v : V) : (t.set k v).get k = some v := by
  rw [get_set, if_pos rfl]

@[simp] theorem get_del_self (t : Table K V) (k : K) : (t.del k).get k = none := by
  rw [get_del, if_pos rfl]

theorem get_set_ne (t : Table K V) {k k' : K} (v : V) (h : k' ≠ k) :
    (t.set k v).get k' = t.get k' := by
  rw [get_set, if_neg h]

theorem get_del_ne (t : Table K V) {k k' : K} (h : k' ≠ k) : (t.del k).get k' = t.get k' := by
  rw [get_del, if_neg h]

theorem mem_keys (t : Table K V) (k : K) : k ∈ t.keys ↔ (t.get k).isSome :=
  AList.lookup_isSome.symm

omit [DecidableEq K] in
theorem keys_nodup (t : Table K V) : t.keys.Nodup := AList.keys_nodup t

/-! ## How many keys -/

/-- The number of keys with a value. -/
def size (t : Table K V) : Nat := t.keys.length

omit [DecidableEq K] in
@[simp] theorem size_empty : (empty : Table K V).size = 0 := rfl

theorem keys_set (t : Table K V) (k : K) (v : V) : (t.set k v).keys = k :: t.keys.erase k :=
  AList.keys_insert ..

theorem keys_del (t : Table K V) (k : K) : (t.del k).keys = t.keys.erase k := AList.keys_erase ..

theorem mem_keys_of_get {t : Table K V} {k : K} {v : V} (h : t.get k = some v) : k ∈ t.keys := by
  rw [mem_keys, h]
  rfl

theorem size_set_new {t : Table K V} {k : K} (v : V) (h : t.get k = none) :
    (t.set k v).size = t.size + 1 := by
  have hk : k ∉ t.keys := by rw [mem_keys, h]; simp
  unfold size
  rw [keys_set, List.erase_of_not_mem hk, List.length_cons]

theorem size_del {t : Table K V} {k : K} {v : V} (h : t.get k = some v) :
    (t.del k).size + 1 = t.size := by
  unfold size
  rw [keys_del]
  exact List.length_erase_add_one (mem_keys_of_get h)

theorem size_set_old {t : Table K V} {k : K} {v : V} (v' : V) (h : t.get k = some v) :
    (t.set k v').size = t.size := by
  rw [← size_del h]
  unfold size
  rw [keys_set, keys_del, List.length_cons]

/-! ## Whole tables -/

/-- No key has a value: `next(t) == nil`. -/
def isEmpty (t : Table K V) : Bool := t.keys.isEmpty

theorem isEmpty_iff {t : Table K V} : t.isEmpty = true ↔ ∀ k, t.get k = none := by
  unfold isEmpty
  rw [List.isEmpty_iff, List.eq_nil_iff_forall_not_mem]
  refine forall_congr' fun k => ?_
  rw [mem_keys, Bool.not_eq_true, Option.isSome_eq_false_iff, Option.isNone_iff_eq_none]

@[simp] theorem isEmpty_empty : (empty : Table K V).isEmpty = true := isEmpty_iff.mpr get_empty

/-- The values that `f` keeps, under their keys. -/
def filterMap {W : Type*} (f : K → V → Option W) (t : Table K V) : Table K W :=
  t.keys.foldr (fun k acc => match (t.get k).bind (f k) with
    | some w => acc.set k w
    | none => acc) empty

theorem get_filterMap {W : Type*} (f : K → V → Option W) (t : Table K V) (k : K) :
    (t.filterMap f).get k = (t.get k).bind (f k) := by
  have main : ∀ l : List K, l.Nodup → (l.foldr (fun k acc => match (t.get k).bind (f k) with
      | some w => acc.set k w
      | none => acc) empty : Table K W).get k = if k ∈ l then (t.get k).bind (f k) else none := by
    intro l hl
    induction l with
    | nil => simp
    | cons x xs ih =>
      obtain ⟨hx, hxs⟩ := List.nodup_cons.mp hl
      rw [List.foldr_cons]
      by_cases hk : k = x
      · subst hk
        rw [if_pos List.mem_cons_self]
        cases hw : (t.get k).bind (f k) with
        | none => rw [ih hxs, if_neg hx]
        | some w => rw [get_set_self]
      · have hmem : (k ∈ x :: xs) = (k ∈ xs) := by simp [hk]
        simp only [hmem]
        rw [← ih hxs]
        split
        · rw [get_set_ne _ _ hk]
        · rfl
  rw [filterMap, main _ t.keys_nodup]
  split
  · rfl
  · rename_i hk
    rw [mem_keys, Bool.not_eq_true, Option.isSome_eq_false_iff, Option.isNone_iff_eq_none] at hk
    rw [hk]
    rfl

/-- The values of `t`, and those of `u` under the other keys. -/
def overlay (t u : Table K V) : Table K V := AList.union t u

theorem get_overlay (t u : Table K V) (k : K) : (t.overlay u).get k = (t.get k).or (u.get k) := by
  cases ht : t.get k with
  | none =>
    have hk : k ∉ t.keys := by rw [mem_keys, ht]; simp
    exact AList.lookup_union_right hk
  | some v =>
    have hk : k ∈ t.keys := by rw [mem_keys, ht]; simp
    exact (AList.lookup_union_left hk).trans ht

/-- Change the value under a key, if there is one. -/
def modify (t : Table K V) (k : K) (f : V → V) : Table K V :=
  match t.get k with
  | some v => t.set k (f v)
  | none => t

theorem get_modify (t : Table K V) (k k' : K) (f : V → V) :
    (t.modify k f).get k' = if k' = k then (t.get k').map f else t.get k' := by
  unfold modify
  by_cases h : k' = k
  · subst h
    rw [if_pos rfl]
    cases hk : t.get k' with
    | none => exact hk
    | some v => rw [get_set_self]; rfl
  · rw [if_neg h]
    cases t.get k with
    | none => rfl
    | some v => exact get_set_ne t _ h

/-- Changing the values under several keys, each once. -/
theorem get_foldl_modify (f : V → V) {ks : List K} (hks : ks.Nodup) (t : Table K V) (k : K) :
    (ks.foldl (fun t k => t.modify k f) t).get k = if k ∈ ks then (t.get k).map f else t.get k := by
  induction ks generalizing t with
  | nil => simp
  | cons x xs ih =>
    obtain ⟨hx, hxs⟩ := List.nodup_cons.mp hks
    rw [List.foldl_cons, ih hxs, get_modify]
    by_cases hk : k = x
    · subst hk
      simp [hx]
    · simp [hk]

end Table

end AntServer.Lib
