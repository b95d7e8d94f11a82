/-
# AntServer.Crab.Insert — the table as a map

A node is free as long as the table is not full (`exists_free`), and a table that is doubled has the same
entries (`tableExpand_spec`). So `table_newkey` always comes back (`tableNewkey_spec`), and
`table_insert` is an update of a map (`tableInsert_spec`). A table that was filled from `table_new` on is
the map of what was written last, and more than half full (`puts_spec`).
-/
import AntServer.Crab.NewKey
import Mathlib.Data.List.Induction

namespace AntServer.Crab

variable {V : Type}

/-! ## How many keys there are -/

/-- The keys of a table. -/
def keys (t : Table V) : Finset UInt32 := (usedSet t).image fun i => (t.node i).key

theorem mem_keys {t : Table V} {k : UInt32} : k ∈ keys t ↔ ∃ f v, Entry t k f v := by
  unfold keys
  rw [Finset.mem_image]
  constructor
  · rintro ⟨i, hi, rfl⟩
    exact ⟨_, _, i, mem_usedSet.mp hi, rfl, rfl, rfl⟩
  · rintro ⟨f, v, i, hi, rfl, rfl, rfl⟩
    exact ⟨i, mem_usedSet.mpr hi, rfl⟩

theorem not_mem_keys {t : Table V} {k : UInt32} : k ∉ keys t ↔ Absent t k := by
  rw [mem_keys]
  constructor
  · exact fun h i hi hk => h ⟨_, _, i, hi, hk, rfl, rfl⟩
  · rintro h ⟨f, v, i, hi, hk, rfl, rfl⟩
    exact h i hi hk

/-- No two nodes have one key. -/
theorem WF.card_keys {t : Table V} {ch : Nat → List Nat} (h : WF t ch) :
    (keys t).card = (usedSet t).card := by
  refine Finset.card_image_of_injOn fun i hi j hj hk => ?_
  exact h.inj i j (mem_usedSet.mp (Finset.mem_coe.mp hi)) (mem_usedSet.mp (Finset.mem_coe.mp hj)) hk

theorem keys_congr {t t' : Table V} (h : ∀ k f v, Entry t' k f v ↔ Entry t k f v) : keys t' = keys t := by
  ext k
  rw [mem_keys, mem_keys]
  simp only [h]

theorem Added.keys_eq {t t' : Table V} {key : UInt32} {i : Nat} (h : Added t t' key i) :
    keys t' = insert key (keys t) := by
  ext k
  rw [mem_keys, Finset.mem_insert, mem_keys]
  constructor
  · rintro ⟨f, v, he⟩
    rcases (h.entry_iff k f v).mp he with ⟨rfl, -, -⟩ | he
    · exact .inl rfl
    · exact .inr ⟨f, v, he⟩
  · rintro (rfl | ⟨f, v, he⟩)
    · exact ⟨_, _, (h.entry_iff k _ _).mpr (.inl ⟨rfl, rfl, rfl⟩)⟩
    · exact ⟨f, v, (h.entry_iff k f v).mpr (.inr he)⟩

/-- Where the pointer to the last free node is does not matter. -/
theorem Added.of_moveFree {t t' : Table V} {key : UInt32} {i k : Nat}
    (h : Added { t with lastfree := k } t' key i) : Added t t' key i :=
  ⟨h.wf, h.used, h.key_eq, h.entry_iff⟩

/-! ## A new key in a table with room -/

section newkey

variable {t : Table V} {ch : Nat → List Nat} {key : UInt32}

/-- While a node is free the pointer to the last free one finds one. -/
theorem exists_free (h : WF t ch) (hroom : (usedSet t).card < t.capacity) : ∃ n,
    getfreenode t.node t.lastfree = (some n, n + 1) ∧ n < t.capacity ∧ tisnil (t.node n) = true ∧
      WF { t with lastfree := n + 1 } ch := by
  rcases hget : getfreenode t.node t.lastfree with ⟨_ | n, k⟩
  · -- every node would be in use
    have hall := (getfreenode_none hget).2
    have hfull : (usedSet t).card = t.capacity := by
      refine card_usedSet_of_full fun i hi => ?_
      rcases Nat.lt_or_ge i t.lastfree with hlt | hge
      · exact ⟨hi, hall i hlt⟩
      · exact h.free i hge hi
    omega
  · obtain ⟨hnil, hlt, rfl, hbetween⟩ := getfreenode_some hget
    have hn : n < t.capacity := lt_of_lt_of_le hlt h.lastfree_le
    refine ⟨n, rfl, hn, hnil, h.moveFree (fun i hi hlt' => ?_) (by omega)⟩
    rcases Nat.lt_or_ge i t.lastfree with hlt'' | hge
    · exact ⟨hlt', hbetween i (by omega) hlt''⟩
    · exact h.free i hge hlt'

/-- A new key finds its place without the table growing. -/
theorem tableNewkey_of_room (h : WF t ch) (habs : Absent t key)
    (hroom : (usedSet t).card < t.capacity) (fuel : Nat) : ∃ t' i,
      tableNewkey (fuel + 1) t key = some (t', i) ∧ Added t t' key i ∧ t'.capacity = t.capacity := by
  rw [tableNewkey]
  by_cases hnil : tisnil (t.node (mainposition t key)) = true
  · rw [if_pos hnil]
    exact ⟨_, _, rfl, added_take h habs hnil, rfl⟩
  · have hused : Used t (mainposition t key) := ⟨h.mainposition_lt key, Bool.eq_false_iff.mpr hnil⟩
    obtain ⟨n, hget, hn, hfree, hwf⟩ := exists_free h hroom
    rw [if_neg hnil, hget]
    by_cases hright : mainposition t (t.node (mainposition t key)).key = mainposition t key
    · refine ⟨_, _, if_neg (not_not.mpr hright), ?_, rfl⟩
      exact (added_link hwf habs rfl hused hright hn hfree).of_moveFree
    · obtain ⟨l, o, l', hl, hbefore⟩ := exists_before hwf hused hright
      refine ⟨_, _, (if_pos hright).trans (congrArg _ hbefore), ?_, rfl⟩
      exact (added_move hwf habs rfl hused hright hl hn hfree).of_moveFree

end newkey

/-! ## A table that is doubled -/

section expand

variable {t : Table V} {ch : Nat → List Nat} {key : UInt32}

/-- A table of nodes that are all free is well-formed. -/
theorem wf_emptyTable {n k : Nat} (hn : n = 2 ^ k) : WF (emptyTable n : Table V) fun _ => [] where
  capacity := ⟨k, hn⟩
  chain _ := trivial
  nodup _ := List.nodup_nil
  mem_iff p i := by
    constructor
    · rintro ⟨⟩
    · rintro ⟨⟨-, hi⟩, -⟩
      cases hi
  head _ := .inl rfl
  inj i _ hi := by cases hi.2
  free i h1 h2 := absurd h2 (Nat.not_lt.mpr h1)
  lastfree_le := Nat.le_refl n
  blank _ _ _ := ⟨rfl, rfl⟩

theorem not_entry_emptyTable (n : Nat) (k : UInt32) (f : Flag) (v : Option V) :
    ¬ Entry (emptyTable n) k f v := by
  rintro ⟨i, ⟨-, hi⟩, -⟩
  cases hi

/-- The flag and the value of a node in use are written. -/
theorem WF.write (h : WF t ch) {i : Nat} (hi : Used t i) {f : Flag} (hf : f ≠ .empty) (v : Option V) :
    WF (setNode t i { t.node i with flag := f, value := v }) ch ∧
      ∀ k f' v', Entry (setNode t i { t.node i with flag := f, value := v }) k f' v' ↔
        if k = (t.node i).key then f' = f ∧ v' = v else Entry t k f' v' := by
  have hnode (j : Nat) : (setNode t i { t.node i with flag := f, value := v }).node j =
      if j = i then { t.node i with flag := f, value := v } else t.node j := Function.update_apply _ _ _ _
  have hself : tisnil ({ t.node i with flag := f, value := v } : TableNode V) = false :=
    decide_eq_false hf
  have hused (j : Nat) : Used (setNode t i { t.node i with flag := f, value := v }) j ↔ Used t j := by
    unfold Used
    rw [hnode]
    by_cases hj : j = i
    · rw [if_pos hj, hself, hj]
      exact ⟨fun _ => hi, fun _ => ⟨hi.1, rfl⟩⟩
    · rw [if_neg hj]
      rfl
  have hcopy {β : Type} (g : TableNode V → β) (hg : ∀ x f v, g { x with flag := f, value := v } = g x)
      (j : Nat) : g ((setNode t i { t.node i with flag := f, value := v }).node j) = g (t.node j) := by
    rw [hnode]
    by_cases hj : j = i
    · rw [if_pos hj, hj, hg]
    · rw [if_neg hj]
  have hkey := hcopy TableNode.key fun _ _ _ => rfl
  have hnext := hcopy TableNode.next fun _ _ _ => rfl
  constructor
  · refine ⟨h.capacity, fun p => (h.chain p).congr fun j _ => hnext j, h.nodup, fun p j => ?_, h.head,
      fun j j' hj hj' he => ?_, fun j h1 h2 => (hused j).mpr (h.free j h1 h2), h.lastfree_le,
      fun j h1 h2 => ?_⟩
    · rw [hused, hkey]
      exact h.mem_iff p j
    · rw [hkey, hkey] at he
      exact h.inj j j' ((hused j).mp hj) ((hused j').mp hj') he
    · by_cases hj : j = i
      · rw [hnode, if_pos hj, hself] at h2
        cases h2
      · rw [hnode, if_neg hj] at h2 ⊢
        exact h.blank j h1 h2
  · intro k f' v'
    constructor
    · rintro ⟨j, hj, rfl, rfl, rfl⟩
      rw [hkey]
      by_cases hji : j = i
      · rw [if_pos (congrArg _ (congrArg t.node hji)), hnode, if_pos hji]
        exact ⟨rfl, rfl⟩
      · rw [if_neg fun he => hji (h.inj j i ((hused j).mp hj) hi he), hnode, if_neg hji]
        exact ⟨j, (hused j).mp hj, rfl, rfl, rfl⟩
    · intro he
      by_cases hk : k = (t.node i).key
      · rw [if_pos hk] at he
        refine ⟨i, (hused i).mpr hi, (hkey i).trans hk.symm, ?_, ?_⟩
        · rw [hnode, if_pos rfl, he.1]
        · rw [hnode, if_pos rfl, he.2]
      · rw [if_neg hk] at he
        obtain ⟨j, hj, rfl, rfl, rfl⟩ := he
        have hji : j ≠ i := fun he => hk (congrArg _ (congrArg t.node he))
        refine ⟨j, (hused j).mpr hj, hkey j, ?_, ?_⟩
        · rw [hnode, if_neg hji]
        · rw [hnode, if_neg hji]

/-- The loop of `table_expand` over the first `n` nodes. -/
theorem tableExpand_prefix (h : WF t ch) (fuel n : Nat) (hn : n ≤ t.capacity) : ∃ t' ch',
    (List.range n).foldlM
      (fun new i =>
        if tisnil (t.node i) then some new
        else (tableNewkey (fuel + 1) new (t.node i).key).map fun r =>
          setNode r.1 r.2 { r.1.node r.2 with flag := (t.node i).flag, value := (t.node i).value })
      (emptyTable (t.capacity * 2)) = some t' ∧ WF t' ch' ∧ t'.capacity = t.capacity * 2 ∧
    ∀ k f v, Entry t' k f v ↔
      ∃ i, i < n ∧ Used t i ∧ (t.node i).key = k ∧ (t.node i).flag = f ∧ (t.node i).value = v := by
  obtain ⟨c, hc⟩ := h.capacity
  induction n with
  | zero =>
    refine ⟨_, _, rfl, wf_emptyTable (k := c + 1) (by rw [hc, Nat.pow_succ]), rfl, fun k f v => ?_⟩
    exact iff_of_false (not_entry_emptyTable _ k f v) (by rintro ⟨i, hi, -⟩; omega)
  | succ n ih =>
    obtain ⟨t', ch', hfold, hwf, hcap, hent⟩ := ih (by omega)
    rw [List.range_succ, List.foldlM_append, hfold]
    by_cases hnil : tisnil (t.node n) = true
    · refine ⟨t', ch', ?_, hwf, hcap, fun k f v => ?_⟩
      · simp [hnil]
      · rw [hent]
        constructor
        · rintro ⟨i, hi, hrest⟩
          exact ⟨i, by omega, hrest⟩
        · rintro ⟨i, hi, hu, hrest⟩
          refine ⟨i, lt_of_le_of_ne (by omega) ?_, hu, hrest⟩
          rintro rfl
          rw [hu.2] at hnil
          cases hnil
    · have hused : Used t n := ⟨by omega, Bool.eq_false_iff.mpr hnil⟩
      have habs : Absent t' (t.node n).key := by
        rw [← not_mem_keys, mem_keys]
        rintro ⟨f, v, he⟩
        obtain ⟨i, hi, hu, hk, -⟩ := (hent _ f v).mp he
        have := h.inj i n hu hused hk
        omega
      -- the new table has only keys of the old one, which is half its size
      have hroom : (usedSet t').card < t'.capacity := by
        have hsub : keys t' ⊆ keys t := by
          intro k hk
          obtain ⟨f, v, he⟩ := mem_keys.mp hk
          obtain ⟨i, -, hu, rfl, -⟩ := (hent k f v).mp he
          exact mem_keys.mpr ⟨_, _, i, hu, rfl, rfl, rfl⟩
        have h1 := Finset.card_le_card hsub
        rw [hwf.card_keys, h.card_keys] at h1
        have h2 := card_usedSet_le t
        have h3 : 0 < t.capacity := by
          rw [hc]
          exact Nat.two_pow_pos c
        omega
      obtain ⟨t₁, m, hnew, hadd, hcap₁⟩ := tableNewkey_of_room hwf habs hroom fuel
      obtain ⟨ch₁, hwf₁⟩ := hadd.wf
      have hflag : (t.node n).flag ≠ .empty := of_decide_eq_false hused.2
      obtain ⟨hwf₂, hent₂⟩ := hwf₁.write hadd.used hflag (t.node n).value
      refine ⟨_, ch₁, ?_, hwf₂, hcap₁.trans hcap, fun k f v => ?_⟩
      · simp [hnil, hnew]
      · rw [hent₂, hadd.key_eq]
        by_cases hk : k = (t.node n).key
        · rw [if_pos hk]
          constructor
          · rintro ⟨rfl, rfl⟩
            exact ⟨n, by omega, hused, hk.symm, rfl, rfl⟩
          · rintro ⟨i, hi, hu, hki, rfl, rfl⟩
            rw [h.inj i n hu hused (hki.trans hk)]
            exact ⟨rfl, rfl⟩
        · rw [if_neg hk, hadd.entry_iff, hent]
          constructor
          · rintro (⟨he, -⟩ | ⟨i, hi, hrest⟩)
            · exact absurd he hk
            · exact ⟨i, by omega, hrest⟩
          · rintro ⟨i, hi, hu, hki, hrest⟩
            refine .inr ⟨i, lt_of_le_of_ne (by omega) ?_, hu, hki, hrest⟩
            rintro rfl
            exact hk hki.symm

/-- `table_expand` keeps every entry and doubles the table. -/
theorem tableExpand_spec (h : WF t ch) (fuel : Nat) : ∃ t' ch',
    tableExpand (tableNewkey (fuel + 1)) t = some t' ∧ WF t' ch' ∧ t'.capacity = t.capacity * 2 ∧
      ∀ k f v, Entry t' k f v ↔ Entry t k f v := by
  obtain ⟨t', ch', hfold, hwf, hcap, hent⟩ := tableExpand_prefix h fuel t.capacity (Nat.le_refl _)
  refine ⟨t', ch', hfold, hwf, hcap, fun k f v => (hent k f v).trans ?_⟩
  constructor
  · rintro ⟨i, -, hrest⟩
    exact ⟨i, hrest⟩
  · rintro ⟨i, hu, hrest⟩
    exact ⟨i, hu.1, hu, hrest⟩

/-- `table_newkey` always finds a node for a new key. The table grows only when it is full. -/
theorem tableNewkey_spec (h : WF t ch) (habs : Absent t key) (fuel : Nat) : ∃ t' i,
    tableNewkey (fuel + 2) t key = some (t', i) ∧ Added t t' key i ∧
      (t'.capacity = t.capacity ∨ t'.capacity = t.capacity * 2 ∧ (usedSet t).card = t.capacity) := by
  by_cases hroom : (usedSet t).card < t.capacity
  · obtain ⟨t', i, hnew, hadd, hcap⟩ := tableNewkey_of_room h habs hroom (fuel + 1)
    exact ⟨t', i, hnew, hadd, .inl hcap⟩
  · have hfull : (usedSet t).card = t.capacity :=
      Nat.le_antisymm (card_usedSet_le t) (Nat.not_lt.mp hroom)
    have hall (i : Nat) (hi : i < t.capacity) : Used t i := by
      have hsub : usedSet t = Finset.range t.capacity :=
        Finset.eq_of_subset_of_card_le (Finset.filter_subset _ _) (by rw [Finset.card_range, hfull])
      rw [← mem_usedSet, hsub]
      exact Finset.mem_range.mpr hi
    have hnone : getfreenode t.node t.lastfree = (none, 0) := by
      rcases hget : getfreenode t.node t.lastfree with ⟨_ | n, k⟩
      · rw [(getfreenode_none hget).1]
      · obtain ⟨hnil, hlt, -, -⟩ := getfreenode_some hget
        have hu := (hall n (lt_of_lt_of_le hlt h.lastfree_le)).2
        rw [hnil] at hu
        cases hu
    have hwf₀ : WF { t with lastfree := 0 } ch := h.moveFree (fun i _ hi => hall i hi) (Nat.zero_le _)
    obtain ⟨t₁, ch₁, hexp, hwf₁, hcap₁, hent₁⟩ := tableExpand_spec hwf₀ fuel
    have hkeys : keys t₁ = keys t := keys_congr hent₁
    have habs₁ : Absent t₁ key := by
      rw [← not_mem_keys, hkeys]
      exact not_mem_keys.mpr habs
    have hroom₁ : (usedSet t₁).card < t₁.capacity := by
      rw [← hwf₁.card_keys, hkeys, h.card_keys, hfull, hcap₁]
      obtain ⟨c, hc⟩ := h.capacity
      have hpos := Nat.two_pow_pos c
      show t.capacity < t.capacity * 2
      omega
    obtain ⟨t', i, hnew, hadd, hcap⟩ := tableNewkey_of_room hwf₁ habs₁ hroom₁ fuel
    refine ⟨t', i, ?_, ⟨hadd.wf, hadd.used, hadd.key_eq, fun k f v => ?_⟩, .inr ⟨hcap.trans hcap₁, hfull⟩⟩
    · have hnil : ¬ tisnil (t.node (mainposition t key)) = true := by
        rw [(hall _ (h.mainposition_lt key)).2]
        exact Bool.false_ne_true
      rw [tableNewkey, if_neg hnil, hnone]
      show (tableExpand (tableNewkey (fuel + 1)) { t with lastfree := 0 }).bind _ = _
      rw [hexp]
      exact hnew
    · rw [hadd.entry_iff, hent₁]
      exact Iff.rfl

end expand

/-! ## The table as a map -/

section map

variable {t : Table V} {ch : Nat → List Nat} {key : UInt32}

/-- What `table_get` finds at a key. -/
def lookup (t : Table V) (key : UInt32) : Option (Flag × Option V) :=
  (tableGet t key).map fun i => ((t.node i).flag, (t.node i).value)

theorem WF.lookup_eq_some_iff (h : WF t ch) {f : Flag} {v : Option V} :
    lookup t key = some (f, v) ↔ Entry t key f v := by
  unfold lookup
  rw [Option.map_eq_some_iff]
  constructor
  · rintro ⟨i, hi, he⟩
    obtain ⟨rfl, rfl⟩ := Prod.mk.inj he
    obtain ⟨hu, hk⟩ := h.tableGet_eq_some_iff.mp hi
    exact ⟨i, hu, hk, rfl, rfl⟩
  · rintro ⟨i, hu, hk, rfl, rfl⟩
    exact ⟨i, h.tableGet_eq_some_iff.mpr ⟨hu, hk⟩, rfl⟩

theorem WF.lookup_isSome_iff (h : WF t ch) : (lookup t key).isSome ↔ key ∈ keys t := by
  rw [mem_keys, Option.isSome_iff_exists]
  constructor
  · rintro ⟨⟨f, v⟩, he⟩
    exact ⟨f, v, h.lookup_eq_some_iff.mp he⟩
  · rintro ⟨f, v, he⟩
    exact ⟨(f, v), h.lookup_eq_some_iff.mpr he⟩

/-- Two tables with the same entries at a key. -/
theorem WF.lookup_congr (h : WF t ch) {t' : Table V} {ch' : Nat → List Nat} (h' : WF t' ch') {k k' : UInt32}
    (he : ∀ f v, Entry t' k' f v ↔ Entry t k f v) : lookup t' k' = lookup t k := by
  apply Option.ext
  rintro ⟨f, v⟩
  rw [h'.lookup_eq_some_iff, h.lookup_eq_some_iff, he]

/-- The flag and the value of a node are written. -/
theorem WF.lookup_write (h : WF t ch) {i : Nat} (hi : Used t i) {f : Flag} (hf : f ≠ .empty)
    (v : Option V) (k : UInt32) : lookup (setNode t i { t.node i with flag := f, value := v }) k =
      if k = (t.node i).key then some (f, v) else lookup t k := by
  obtain ⟨hwf, hent⟩ := h.write hi hf v
  by_cases hk : k = (t.node i).key
  · rw [if_pos hk, hwf.lookup_eq_some_iff, hent, if_pos hk]
    exact ⟨rfl, rfl⟩
  · rw [if_neg hk]
    refine h.lookup_congr hwf fun f' v' => ?_
    rw [hent, if_neg hk]

theorem WF.lookup_node (h : WF t ch) {i : Nat} (hi : Used t i) :
    lookup t (t.node i).key = some ((t.node i).flag, (t.node i).value) :=
  h.lookup_eq_some_iff.mpr ⟨i, hi, rfl, rfl, rfl⟩

/-- `table_insert` gives a node of the key, and changes nothing else but that the key is there. -/
theorem tableInsert_spec (h : WF t ch) (key : UInt32) : ∃ t' i ch', tableInsert t key = some (t', i) ∧
    WF t' ch' ∧ Used t' i ∧ (t'.node i).key = key ∧
    (∀ k, lookup t' k =
      if k = key then some ((lookup t key).getD (.nonTerminator, none)) else lookup t k) ∧
    keys t' = insert key (keys t) ∧
    (t'.capacity = t.capacity ∨ t'.capacity = t.capacity * 2 ∧ (keys t).card = t.capacity ∧ key ∉ keys t) := by
  unfold tableInsert
  cases hget : tableGet t key with
  | some i =>
    obtain ⟨hu, hk⟩ := h.tableGet_eq_some_iff.mp hget
    have hlook : lookup t key = some ((t.node i).flag, (t.node i).value) := by
      rw [← hk]
      exact h.lookup_node hu
    refine ⟨t, i, ch, rfl, h, hu, hk, fun k => ?_, ?_, .inl rfl⟩
    · by_cases hkk : k = key
      · rw [if_pos hkk, hkk, hlook]
        rfl
      · rw [if_neg hkk]
    · refine (Finset.insert_eq_self.mpr ?_).symm
      rw [← h.lookup_isSome_iff, hlook]
      rfl
  | none =>
    have habs : Absent t key := h.tableGet_eq_none_iff.mp hget
    obtain ⟨t', i, hnew, hadd, hcap⟩ := tableNewkey_spec h habs 0
    obtain ⟨ch', hwf'⟩ := hadd.wf
    refine ⟨t', i, ch', hnew, hwf', hadd.used, hadd.key_eq, fun k => ?_, hadd.keys_eq, ?_⟩
    · by_cases hkk : k = key
      · have hnone : lookup t key = none := by
          unfold lookup
          rw [hget]
          rfl
        rw [if_pos hkk, hnone, hwf'.lookup_eq_some_iff, hadd.entry_iff]
        exact .inl ⟨hkk, rfl, rfl⟩
      · rw [if_neg hkk]
        refine h.lookup_congr hwf' fun f v => ?_
        rw [hadd.entry_iff]
        exact ⟨fun he => he.resolve_left fun he => hkk he.1, .inr⟩
    · rw [h.card_keys, not_mem_keys]
      exact hcap.imp_right fun hc => ⟨hc.1, hc.2, habs⟩

theorem wf_tableNew : WF (tableNew : Table V) fun _ => [] := wf_emptyTable (k := 0) rfl

theorem lookup_tableNew (k : UInt32) : lookup (tableNew : Table V) k = none := by
  apply Option.eq_none_iff_forall_ne_some.mpr
  rintro ⟨f, v⟩ he
  exact not_entry_emptyTable 1 k f v (wf_tableNew.lookup_eq_some_iff.mp he)

/-- `table_insert`, and the value of the node is written. -/
def put (t : Table V) (e : UInt32 × V) : Option (Table V) :=
  (tableInsert t e.1).map fun r => setNode r.1 r.2 { r.1.node r.2 with value := some e.2 }

/-- A table that is filled from `table_new` on holds at every key what was written there last. It has no
other keys, and it has grown no more than it had to. -/
theorem puts_spec (l : List (UInt32 × V)) : ∃ t, l.foldlM put tableNew = some t ∧
    (∀ k, (tableGet t k).bind (fun i => (t.node i).value) =
      (l.reverse.find? fun e => e.1 = k).map Prod.snd) ∧
    (∀ k, (tableGet t k).isSome ↔ k ∈ l.map Prod.fst) ∧
    (t.capacity = 1 ∨ t.capacity < 2 * (l.map Prod.fst).toFinset.card) := by
  have hrun : ∃ t ch, l.foldlM put tableNew = some t ∧ WF t ch ∧
      (∀ k, (lookup t k).bind Prod.snd = (l.reverse.find? fun e => e.1 = k).map Prod.snd) ∧
      keys t = (l.map Prod.fst).toFinset ∧ (t.capacity = 1 ∨ t.capacity < 2 * (keys t).card) := by
    induction l using List.reverseRecOn with
    | nil =>
      refine ⟨tableNew, _, rfl, wf_tableNew, fun k => ?_, ?_, .inl rfl⟩
      · rw [lookup_tableNew]
        rfl
      · ext k
        rw [← wf_tableNew.lookup_isSome_iff, lookup_tableNew]
        simp
    | append_singleton l e ih =>
      obtain ⟨t, ch, hfold, hwf, hvalue, hkeys, hcap⟩ := ih
      obtain ⟨t', i, ch', hins, hwf', hu, hk, hlook, hkeys', hcap'⟩ := tableInsert_spec hwf e.1
      have hflag : (t'.node i).flag ≠ .empty := of_decide_eq_false hu.2
      have hwrite := hwf'.lookup_write hu hflag (some e.2)
      have hwf₂ := (hwf'.write hu hflag (some e.2)).1
      have hsame : keys (setNode t' i { t'.node i with value := some e.2 }) = keys t' := by
        ext k
        rw [← hwf₂.lookup_isSome_iff, ← hwf'.lookup_isSome_iff, hwrite]
        by_cases hkk : k = (t'.node i).key
        · rw [if_pos hkk, hkk, hwf'.lookup_node hu]
          exact iff_of_true rfl rfl
        · rw [if_neg hkk]
      refine ⟨_, ch', ?_, hwf₂, fun k => ?_, ?_, ?_⟩
      · rw [List.foldlM_append, hfold]
        simp [put, hins]
      · rw [hwrite, hk, List.reverse_append, List.reverse_singleton, List.singleton_append,
          List.find?_cons]
        by_cases hkk : k = e.1
        · rw [if_pos hkk, decide_eq_true hkk.symm]
          rfl
        · rw [if_neg hkk, decide_eq_false fun he => hkk he.symm, hlook, if_neg hkk]
          exact hvalue k
      · rw [hsame, hkeys', hkeys]
        ext k
        simp
      · rw [hsame, hkeys']
        rcases hcap' with hc | ⟨hc, hfull, hnot⟩
        · have hle := Finset.card_le_card (Finset.subset_insert e.1 (keys t))
          show t'.capacity = 1 ∨ t'.capacity < _
          rw [hc]
          exact hcap.imp_right fun hlt => by omega
        · refine .inr ?_
          show t'.capacity < _
          rw [hc, Finset.card_insert_of_notMem hnot, hfull]
          omega
  obtain ⟨t, ch, hfold, hwf, hvalue, hkeys, hcap⟩ := hrun
  refine ⟨t, hfold, fun k => ?_, fun k => ?_, hkeys ▸ hcap⟩
  · rw [← hvalue k]
    unfold lookup
    cases tableGet t k <;> rfl
  · have hiff : (lookup t k).isSome ↔ k ∈ keys t := hwf.lookup_isSome_iff
    rw [hkeys, List.mem_toFinset] at hiff
    rw [← hiff]
    unfold lookup
    cases tableGet t k <;> rfl

end map

end AntServer.Crab
