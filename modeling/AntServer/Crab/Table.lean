/-
# AntServer.Crab.Table — the hash table of the word filter

The table of `lualib-src/crab/lua-crab.c`: an array of nodes whose size is a power of two. A key goes to
its main position if that is free. If it is taken by a key that is there by right, the new key goes to a
free node and is linked behind it; a key that is not in its own main position is moved to the free node
instead. When no node is free the table is doubled and all keys are inserted again.

A node pointer is an index, and `next` is none for -1. `lastfree` is one more than the index of the node
it points to, so that 0 is the pointer in front of the table. The keys of one main position are a list
that is threaded through the nodes (`WF`), so that a key is found exactly when it is there
(`WF.tableGet_eq_some_iff`).
-/
import AntServer.Lib.Links
import Mathlib.Algebra.Group.Nat.Defs
import Mathlib.Data.Finset.Card
import Mathlib.Data.Finset.Filter
import Mathlib.Data.Finset.Range

namespace AntServer.Crab

open Lib

/-- The flag of a node: empty, `'n'` or `'o'`. -/
inductive Flag where
  | empty
  | nonTerminator
  | terminator
  deriving DecidableEq, Repr

/-- `TableNode`. -/
structure TableNode (V : Type) where
  key : UInt32
  next : Option Nat
  flag : Flag
  value : Option V

/-- `Table`. The capacity is an `int` in C: the doubling of a table of 2^30 nodes overflows there, so that the
model is that of the tables up to that size. -/
structure Table (V : Type) where
  capacity : Nat
  node : Nat → TableNode V
  lastfree : Nat

variable {V : Type}

/-- `initnode`. -/
def initnode (node : TableNode V) : TableNode V :=
  { node with next := none, flag := .empty, value := none }

/-- `tisnil`. -/
def tisnil (node : TableNode V) : Bool := node.flag = .empty

/-- A table of nodes that are all initialized. -/
def emptyTable (capacity : Nat) : Table V where
  capacity := capacity
  node := fun _ => initnode ⟨0, none, .empty, none⟩
  lastfree := capacity

/-- `table_new`. -/
def tableNew : Table V := emptyTable 1

/-- `mainposition`. -/
def mainposition (t : Table V) (key : UInt32) : Nat := key.toNat &&& (t.capacity - 1)

/-- `getfreenode`: the node, and where the pointer stops. -/
def getfreenode (node : Nat → TableNode V) : Nat → Option Nat × Nat
  | 0 => (none, 0)
  | i + 1 => if tisnil (node i) then (some i, i + 1) else getfreenode node i

/-- A node is written. -/
def setNode (t : Table V) (i : Nat) (node : TableNode V) : Table V :=
  { t with node := Function.update t.node i node }

/-- The end of `table_newkey`. -/
def takeNode (t : Table V) (i : Nat) (key : UInt32) : Table V :=
  setNode t i { t.node i with key := key, flag := .nonTerminator }

/-- The node `o` is linked to the node `n`, which takes over what is in the node `mp`. -/
def moveNode (t : Table V) (o mp n : Nat) : Table V :=
  let t := setNode t o { t.node o with next := some n }
  let t := setNode t n (t.node mp)
  setNode t mp (initnode (t.node mp))

/-- The node `n` is linked behind the node `mp`. -/
def linkNode (t : Table V) (mp n : Nat) : Table V :=
  let t := setNode t n { t.node n with next := (t.node mp).next }
  setNode t mp { t.node mp with next := some n }

/-- `table_expand`, when `newkey` inserts a key. -/
def tableExpand (newkey : Table V → UInt32 → Option (Table V × Nat)) (t : Table V) : Option (Table V) :=
  (List.range t.capacity).foldlM
    (fun new i =>
      if tisnil (t.node i) then some new
      else (newkey new (t.node i).key).map fun r =>
        setNode r.1 r.2 { r.1.node r.2 with flag := (t.node i).flag, value := (t.node i).value })
    (emptyTable (t.capacity * 2))

/-- `table_newkey`. It calls itself through `table_expand` and after it; the fuel bounds the depth. -/
def tableNewkey : Nat → Table V → UInt32 → Option (Table V × Nat)
  | 0, _, _ => none
  | fuel + 1, t, key =>
    let mp := mainposition t key
    if tisnil (t.node mp) then some (takeNode t mp key, mp)
    else
      let free := getfreenode t.node t.lastfree
      let t := { t with lastfree := free.2 }
      match free.1 with
      | none => (tableExpand (tableNewkey fuel) t).bind fun t => tableNewkey fuel t key
      | some n =>
        let othern := mainposition t (t.node mp).key
        if othern ≠ mp then
          -- the loop to the node in front of the colliding one
          (before (fun i => (t.node i).next) mp t.capacity othern).map fun o =>
            (takeNode (moveNode t o mp n) mp key, mp)
        else some (takeNode (linkNode t mp n) n key, n)

/-- The loop of `table_get`. -/
def tableGetFrom (node : Nat → TableNode V) (key : UInt32) : Nat → Nat → Option Nat
  | 0, _ => none
  | fuel + 1, n =>
    if tisnil (node n) then none
    else if (node n).key = key then some n
    else (node n).next.bind (tableGetFrom node key fuel)

/-- `table_get`. No list of nodes is longer than the table. -/
def tableGet (t : Table V) (key : UInt32) : Option Nat :=
  tableGetFrom t.node key t.capacity (mainposition t key)

/-- `table_insert`. The calls of `table_newkey` are at most two deep. -/
def tableInsert (t : Table V) (key : UInt32) : Option (Table V × Nat) :=
  match tableGet t key with
  | some i => some (t, i)
  | none => tableNewkey 2 t key

/-! ## Well-formed tables -/

/-- The node is in the table and in use. -/
def Used (t : Table V) (i : Nat) : Prop := i < t.capacity ∧ tisnil (t.node i) = false

/-- The nodes of one main position are the chain `ch p`, which begins at it. -/
structure WF (t : Table V) (ch : Nat → List Nat) : Prop where
  capacity : ∃ k, t.capacity = 2 ^ k
  chain : ∀ p, Chain (fun i => (t.node i).next) (ch p)
  nodup : ∀ p, (ch p).Nodup
  mem_iff : ∀ p i, i ∈ ch p ↔ Used t i ∧ mainposition t (t.node i).key = p
  head : ∀ p, ch p = [] ∨ (ch p).head? = some p
  inj : ∀ i j, Used t i → Used t j → (t.node i).key = (t.node j).key → i = j
  free : ∀ i, t.lastfree ≤ i → i < t.capacity → Used t i
  lastfree_le : t.lastfree ≤ t.capacity
  blank : ∀ i, i < t.capacity → tisnil (t.node i) = true →
    (t.node i).next = none ∧ (t.node i).value = none

/-- What is at a key: the flag and the value of its node. -/
def Entry (t : Table V) (key : UInt32) (flag : Flag) (value : Option V) : Prop :=
  ∃ i, Used t i ∧ (t.node i).key = key ∧ (t.node i).flag = flag ∧ (t.node i).value = value

namespace WF

variable {t : Table V} {ch : Nat → List Nat}

theorem mainposition_lt (h : WF t ch) (key : UInt32) : mainposition t key < t.capacity := by
  obtain ⟨k, hk⟩ := h.capacity
  unfold mainposition
  rw [hk]
  exact Nat.and_lt_two_pow _ (by have := Nat.two_pow_pos k; omega)

/-- What follows a node in use is in use. -/
theorem used_next (h : WF t ch) {i j : Nat} (hi : Used t i) (hj : (t.node i).next = some j) :
    Used t j ∧ mainposition t (t.node j).key = mainposition t (t.node i).key := by
  have hmem : i ∈ ch (mainposition t (t.node i).key) := (h.mem_iff _ i).mpr ⟨hi, rfl⟩
  obtain ⟨l, l', hl⟩ := List.append_of_mem hmem
  have hchain := h.chain (mainposition t (t.node i).key)
  rw [hl] at hchain
  have hnext : (t.node i).next = l'.head? := hchain.of_append.1
  rw [hj] at hnext
  apply (h.mem_iff _ j).mp
  rw [hl]
  exact List.mem_append_right _ (List.mem_cons_of_mem i (List.mem_of_mem_head? hnext.symm))

theorem length_chain_le (h : WF t ch) (p : Nat) : (ch p).length ≤ t.capacity := by
  have hsub : (ch p).toFinset ⊆ Finset.range t.capacity := by
    intro i hi
    rw [Finset.mem_range]
    exact ((h.mem_iff p i).mp (List.mem_toFinset.mp hi)).1.1
  have hcard := Finset.card_le_card hsub
  rw [List.toFinset_card_of_nodup (h.nodup p), Finset.card_range] at hcard
  exact hcard

/-- On nodes in use the loop of `table_get` is a walk to the key. -/
theorem tableGetFrom_eq (h : WF t ch) (key : UInt32) (fuel : Nat) {i : Nat} (hi : Used t i) :
    tableGetFrom t.node key fuel i =
      findFrom (fun i => (t.node i).next) (fun i => (t.node i).key = key) fuel i := by
  induction fuel generalizing i with
  | zero => rfl
  | succ fuel ih =>
    rw [tableGetFrom, findFrom, hi.2, if_neg Bool.false_ne_true]
    by_cases hkey : (t.node i).key = key
    · rw [if_pos hkey, if_pos (decide_eq_true hkey)]
    · rw [if_neg hkey, if_neg (by simpa using hkey)]
      cases hnext : (t.node i).next with
      | none => rfl
      | some j => exact ih (h.used_next hi hnext).1

/-- `table_get` finds the node of a key. -/
theorem tableGet_eq_some_iff (h : WF t ch) {key : UInt32} {i : Nat} :
    tableGet t key = some i ↔ Used t i ∧ (t.node i).key = key := by
  constructor
  · -- the walk stays on nodes in use and stops at one with the key
    have hany : ∀ (fuel j : Nat), Used t j → tableGetFrom t.node key fuel j = some i →
        Used t i ∧ (t.node i).key = key := by
      intro fuel
      induction fuel with
      | zero =>
        intro j _ hj
        cases hj
      | succ fuel ih =>
        intro j hused hj
        rw [tableGetFrom, hused.2, if_neg Bool.false_ne_true] at hj
        split at hj
        · rename_i hkey
          obtain rfl := Option.some.inj hj
          exact ⟨hused, hkey⟩
        · obtain ⟨k, hk, hrest⟩ := Option.bind_eq_some_iff.mp hj
          exact ih k (h.used_next hused hk).1 hrest
    intro hget
    by_cases hnil : tisnil (t.node (mainposition t key)) = true
    · unfold tableGet at hget
      obtain ⟨c, hc⟩ : ∃ c, t.capacity = c + 1 :=
        ⟨t.capacity - 1, by have := h.mainposition_lt key; omega⟩
      rw [hc, tableGetFrom, if_pos hnil] at hget
      cases hget
    · exact hany _ _ ⟨h.mainposition_lt key, Bool.eq_false_iff.mpr hnil⟩ hget
  · rintro ⟨hused, hkey⟩
    have hmem : i ∈ ch (mainposition t key) := (h.mem_iff _ i).mpr ⟨hused, by rw [hkey]⟩
    rcases h.head (mainposition t key) with hnil | hfirst
    · rw [hnil] at hmem
      cases hmem
    · have hmain : Used t (mainposition t key) := ((h.mem_iff _ _).mp (List.mem_of_mem_head? hfirst)).1
      have hfind := (h.chain (mainposition t key)).find_eq (p := fun i => decide ((t.node i).key = key))
        (h.length_chain_le _)
      rw [hfirst] at hfind
      unfold tableGet
      rw [h.tableGetFrom_eq key _ hmain]
      refine hfind.trans ?_
      -- the only node of the chain with the key is `i`
      cases hf : (ch (mainposition t key)).find? fun i => decide ((t.node i).key = key) with
      | none => exact absurd (decide_eq_true hkey) (List.find?_eq_none.mp hf i hmem)
      | some j =>
        have hj := List.find?_some hf
        have hused' := ((h.mem_iff _ j).mp (List.mem_of_find?_eq_some hf)).1
        rw [h.inj j i hused' hused ((of_decide_eq_true hj).trans hkey.symm)]

theorem tableGet_eq_none_iff (h : WF t ch) {key : UInt32} :
    tableGet t key = none ↔ ∀ i, Used t i → (t.node i).key ≠ key := by
  constructor
  · intro hnone i hi hkey
    rw [h.tableGet_eq_some_iff.mpr ⟨hi, hkey⟩] at hnone
    cases hnone
  · intro hno
    cases hget : tableGet t key with
    | none => rfl
    | some i =>
      obtain ⟨hi, hkey⟩ := h.tableGet_eq_some_iff.mp hget
      exact absurd hkey (hno i hi)

end WF

/-! ## A free node -/

theorem getfreenode_some {node : Nat → TableNode V} {lastfree n k : Nat}
    (h : getfreenode node lastfree = (some n, k)) : tisnil (node n) = true ∧ n < lastfree ∧ k = n + 1 ∧
      ∀ i, n < i → i < lastfree → tisnil (node i) = false := by
  induction lastfree with
  | zero => cases h
  | succ j ih =>
    rw [getfreenode] at h
    split at h
    · rename_i hnil
      obtain ⟨hn, rfl⟩ := Prod.mk.inj h
      obtain rfl := Option.some.inj hn
      exact ⟨hnil, by omega, rfl, fun i h1 h2 => by omega⟩
    · rename_i hnil
      obtain ⟨h1, h2, h3, h4⟩ := ih h
      refine ⟨h1, by omega, h3, fun i hi hlt => ?_⟩
      rcases Nat.lt_or_ge i j with hij | hij
      · exact h4 i hi hij
      · obtain rfl : i = j := by omega
        exact Bool.eq_false_iff.mpr hnil

theorem getfreenode_none {node : Nat → TableNode V} {lastfree k : Nat}
    (h : getfreenode node lastfree = (none, k)) : k = 0 ∧ ∀ i, i < lastfree → tisnil (node i) = false := by
  induction lastfree with
  | zero => exact ⟨(Prod.mk.inj h).2.symm, fun i hi => by omega⟩
  | succ j ih =>
    rw [getfreenode] at h
    split at h
    · cases h
    · rename_i hnil
      obtain ⟨h1, h2⟩ := ih h
      refine ⟨h1, fun i hi => ?_⟩
      rcases Nat.lt_or_ge i j with hij | hij
      · exact h2 i hij
      · obtain rfl : i = j := by omega
        exact Bool.eq_false_iff.mpr hnil

/-- The nodes in use. -/
def usedSet (t : Table V) : Finset Nat :=
  (Finset.range t.capacity).filter fun i => tisnil (t.node i) = false

theorem mem_usedSet {t : Table V} {i : Nat} : i ∈ usedSet t ↔ Used t i := by
  unfold usedSet
  rw [Finset.mem_filter, Finset.mem_range]
  exact Iff.rfl

theorem card_usedSet_le (t : Table V) : (usedSet t).card ≤ t.capacity := by
  have h := Finset.card_le_card (Finset.filter_subset (fun i => tisnil (t.node i) = false)
    (Finset.range t.capacity))
  rw [Finset.card_range] at h
  exact h

/-- When every node is in use the table is full. -/
theorem card_usedSet_of_full {t : Table V} (h : ∀ i, i < t.capacity → Used t i) :
    (usedSet t).card = t.capacity := by
  have heq : usedSet t = Finset.range t.capacity := by
    ext i
    rw [mem_usedSet, Finset.mem_range]
    exact ⟨fun hi => hi.1, h i⟩
  rw [heq, Finset.card_range]

/-- The pointer to the last free node may be moved over nodes in use. -/
theorem WF.moveFree {t : Table V} {ch : Nat → List Nat} (h : WF t ch) {k : Nat}
    (hfree : ∀ i, k ≤ i → i < t.capacity → Used t i) (hk : k ≤ t.capacity) :
    WF { t with lastfree := k } ch where
  capacity := h.capacity
  chain := h.chain
  nodup := h.nodup
  mem_iff := h.mem_iff
  head := h.head
  inj := h.inj
  free := hfree
  lastfree_le := hk
  blank := h.blank

end AntServer.Crab
