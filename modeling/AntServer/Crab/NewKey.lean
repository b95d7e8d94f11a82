/-
# AntServer.Crab.NewKey — a new key among the nodes

What `table_newkey` does when its main position is taken moves nodes about. The table after it has what
the table before it had, every node of the old one in some node of the new one, and the new key
(`Relocated`). That is the case where the main position is free (`added_take`), where the new key goes
behind the one that is there by right (`added_link`), and where a key that is not in its own main
position is moved away (`added_move`).
-/
import AntServer.Crab.Table

namespace AntServer.Crab

open Lib

variable {V : Type}

/-! ## A new key -/

/-- `t'` is the table `t` with the new key in the node `i`. -/
structure Added (t t' : Table V) (key : UInt32) (i : Nat) : Prop where
  wf : ∃ ch, WF t' ch
  used : Used t' i
  key_eq : (t'.node i).key = key
  entry_iff : ∀ k f v, Entry t' k f v ↔ (k = key ∧ f = .nonTerminator ∧ v = none) ∨ Entry t k f v

/-- The key is not in the table. -/
def Absent (t : Table V) (key : UInt32) : Prop := ∀ i, Used t i → (t.node i).key ≠ key

/-- The table `t'` has what the table `t` has, the node `i` in the node `move i`, and the new key in the
node `m`. -/
structure Relocated (t t' : Table V) (key : UInt32) (m : Nat) (move : Nat → Nat) : Prop where
  capacity : t'.capacity = t.capacity
  key_new : (t'.node m).key = key
  flag_new : (t'.node m).flag = .nonTerminator
  value_new : (t'.node m).value = none
  key_old : ∀ i, Used t i → (t'.node (move i)).key = (t.node i).key
  flag_old : ∀ i, Used t i → (t'.node (move i)).flag = (t.node i).flag
  value_old : ∀ i, Used t i → (t'.node (move i)).value = (t.node i).value
  used_iff : ∀ j, Used t' j ↔ j = m ∨ ∃ i, Used t i ∧ move i = j
  inj : ∀ i j, Used t i → Used t j → move i = move j → i = j

namespace Relocated

variable {t t' : Table V} {ch : Nat → List Nat} {key : UInt32} {m : Nat} {move : Nat → Nat}

/-- The main positions are the same. -/
theorem mainposition_eq (r : Relocated t t' key m move) (k : UInt32) :
    mainposition t' k = mainposition t k := by
  unfold mainposition
  rw [r.capacity]

/-- The table has one more entry, that of the key. -/
theorem entry_iff (r : Relocated t t' key m move) (k : UInt32) (f : Flag) (v : Option V) :
    Entry t' k f v ↔ (k = key ∧ f = .nonTerminator ∧ v = none) ∨ Entry t k f v := by
  constructor
  · rintro ⟨j, hj, rfl, rfl, rfl⟩
    rcases (r.used_iff j).mp hj with rfl | ⟨i, hi, rfl⟩
    · exact .inl ⟨r.key_new, r.flag_new, r.value_new⟩
    · exact .inr ⟨i, hi, (r.key_old i hi).symm, (r.flag_old i hi).symm, (r.value_old i hi).symm⟩
  · rintro (⟨rfl, rfl, rfl⟩ | ⟨i, hi, rfl, rfl, rfl⟩)
    · exact ⟨m, (r.used_iff m).mpr (.inl rfl), r.key_new, r.flag_new, r.value_new⟩
    · exact ⟨move i, (r.used_iff _).mpr (.inr ⟨i, hi, rfl⟩), r.key_old i hi, r.flag_old i hi,
        r.value_old i hi⟩

/-- No key is there twice. -/
theorem key_inj (r : Relocated t t' key m move) (h : WF t ch) (habs : Absent t key) (i j : Nat)
    (hi : Used t' i) (hj : Used t' j) (hk : (t'.node i).key = (t'.node j).key) : i = j := by
  rcases (r.used_iff i).mp hi with rfl | ⟨a, ha, rfl⟩
  · rcases (r.used_iff j).mp hj with rfl | ⟨b, hb, rfl⟩
    · rfl
    · rw [r.key_new, r.key_old b hb] at hk
      exact absurd hk.symm (habs b hb)
  · rcases (r.used_iff j).mp hj with rfl | ⟨b, hb, rfl⟩
    · rw [r.key_new, r.key_old a ha] at hk
      exact absurd hk (habs a ha)
    · rw [r.key_old a ha, r.key_old b hb] at hk
      rw [h.inj a b ha hb hk]

/-- The chains after the nodes are moved and the key is added to its own. -/
theorem mem_iff (r : Relocated t t' key m move) {ch' : Nat → List Nat} (h : WF t ch)
    (hmem : ∀ p i, i ∈ ch' p ↔ (i = m ∧ mainposition t key = p) ∨ ∃ j ∈ ch p, move j = i)
    (habs : ∀ i, Used t i → move i ≠ m) (p i : Nat) :
    i ∈ ch' p ↔ Used t' i ∧ mainposition t' (t'.node i).key = p := by
  rw [hmem, r.used_iff, r.mainposition_eq]
  constructor
  · rintro (⟨rfl, hp⟩ | ⟨j, hj, rfl⟩)
    · exact ⟨.inl rfl, by rw [r.key_new]; exact hp⟩
    · obtain ⟨hu, hm⟩ := (h.mem_iff p j).mp hj
      exact ⟨.inr ⟨j, hu, rfl⟩, by rw [r.key_old j hu]; exact hm⟩
  · rintro ⟨rfl | ⟨j, hj, rfl⟩, hm⟩
    · rw [r.key_new] at hm
      exact .inl ⟨rfl, hm⟩
    · rw [r.key_old j hj] at hm
      exact .inr ⟨j, (h.mem_iff p j).mpr ⟨hj, hm⟩, rfl⟩

/-- A table with the new key is well-formed when its chains are. -/
theorem added (r : Relocated t t' key m move) (ch' : Nat → List Nat) (h : WF t ch) (habs : Absent t key)
    (hne : ∀ i, Used t i → move i ≠ m)
    (hmem : ∀ p i, i ∈ ch' p ↔ (i = m ∧ mainposition t key = p) ∨ ∃ j ∈ ch p, move j = i)
    (hchain : ∀ p, Chain (fun i => (t'.node i).next) (ch' p)) (hnodup : ∀ p, (ch' p).Nodup)
    (hhead : ∀ p, ch' p = [] ∨ (ch' p).head? = some p) (hlast : t'.lastfree = t.lastfree)
    (hgrow : ∀ i, Used t i → Used t' i)
    (hblank : ∀ i, i < t.capacity → tisnil (t'.node i) = true → t'.node i = t.node i) :
    Added t t' key m where
  wf := by
    refine ⟨ch', ?_, hchain, hnodup, r.mem_iff h hmem hne, hhead, r.key_inj h habs, ?_, ?_, ?_⟩
    · rw [r.capacity]
      exact h.capacity
    · intro i h1 h2
      rw [hlast] at h1
      rw [r.capacity] at h2
      exact hgrow i (h.free i h1 h2)
    · rw [hlast, r.capacity]
      exact h.lastfree_le
    · intro i h1 h2
      rw [r.capacity] at h1
      have heq := hblank i h1 h2
      rw [heq] at h2 ⊢
      exact h.blank i h1 h2
  used := (r.used_iff m).mpr (.inl rfl)
  key_eq := r.key_new
  entry_iff := r.entry_iff

end Relocated

/-! ### A free node -/

section cases

variable {t : Table V} {ch : Nat → List Nat} {key : UInt32}

/-- A free node is not used. -/
theorem not_used_of_tisnil {n : Nat} (hnil : tisnil (t.node n) = true) : ¬ Used t n := fun hu => by
  rw [hu.2] at hnil
  cases hnil

/-- A free node is in no chain. -/
theorem WF.not_mem_of_tisnil (h : WF t ch) {n : Nat} (hnil : tisnil (t.node n) = true) (p : Nat) : n ∉ ch p :=
  fun hm => not_used_of_tisnil hnil ((h.mem_iff p n).mp hm).1

/-- A chain that does not have its main position is empty. -/
theorem WF.chain_eq_nil (h : WF t ch) {p : Nat} (hnot : p ∉ ch p) : ch p = [] :=
  (h.head p).resolve_right fun he => hnot (List.mem_of_mem_head? he)

/-! ### The main position is free -/

/-- The node of the key is the only one that changes. -/
theorem takeNode_node (t : Table V) (mp i : Nat) (key : UInt32) : (takeNode t mp key).node i =
    if i = mp then { t.node mp with key := key, flag := .nonTerminator } else t.node i :=
  Function.update_apply _ _ _ _

/-- The main position is free, and the key is put there. -/
theorem added_take (h : WF t ch) (habs : Absent t key)
    (hnil : tisnil (t.node (mainposition t key)) = true) :
    Added t (takeNode t (mainposition t key) key) key (mainposition t key) := by
  generalize hmp : mainposition t key = mp at hnil
  have hlt : mp < t.capacity := hmp ▸ h.mainposition_lt key
  have hnot : ¬ Used t mp := not_used_of_tisnil hnil
  have hnotin (p : Nat) : mp ∉ ch p := h.not_mem_of_tisnil hnil p
  have hempty : ch mp = [] := h.chain_eq_nil (hnotin mp)
  have hself : (takeNode t mp key).node mp = { t.node mp with key := key, flag := .nonTerminator } := by
    rw [takeNode_node, if_pos rfl]
  have hother {i : Nat} (hi : i ≠ mp) : (takeNode t mp key).node i = t.node i := by
    rw [takeNode_node, if_neg hi]
  have hused {i : Nat} (hu : Used t i) : i ≠ mp := fun he => hnot (he ▸ hu)
  have hrel : Relocated t (takeNode t mp key) key mp id := by
    refine ⟨rfl, by rw [hself], by rw [hself], ?_, ?_, ?_, ?_, fun j => ?_, fun i j _ _ he => he⟩
    · rw [hself]
      exact (h.blank mp hlt hnil).2
    · exact fun i hi => congrArg TableNode.key (hother (hused hi))
    · exact fun i hi => congrArg TableNode.flag (hother (hused hi))
    · exact fun i hi => congrArg TableNode.value (hother (hused hi))
    · by_cases hj : j = mp
      · subst hj
        exact ⟨fun _ => .inl rfl, fun _ => ⟨hlt, by rw [hself]; rfl⟩⟩
      · unfold Used
        rw [hother hj]
        refine ⟨fun hu => .inr ⟨j, hu, rfl⟩, ?_⟩
        rintro (he | ⟨i, hi, rfl⟩)
        · exact absurd he hj
        · exact hi
  refine hrel.added (Function.update ch mp [mp]) h habs (fun i => hused) ?_ ?_ ?_ ?_ rfl ?_ ?_
  · intro p i
    rw [hmp]
    by_cases hp : p = mp
    · rw [hp, Function.update_self, hempty, List.mem_singleton]
      simp
    · rw [Function.update_of_ne hp]
      refine ⟨fun hi => .inr ⟨i, hi, rfl⟩, ?_⟩
      rintro (⟨-, he⟩ | ⟨j, hj, rfl⟩)
      · exact absurd he.symm hp
      · exact hj
  · intro p
    by_cases hp : p = mp
    · rw [hp, Function.update_self]
      apply Chain.singleton
      rw [hself]
      exact (h.blank mp hlt hnil).1
    · rw [Function.update_of_ne hp]
      refine (h.chain p).congr fun i hi => ?_
      rw [hother fun he => hnotin p (he ▸ hi)]
  · intro p
    by_cases hp : p = mp
    · rw [hp, Function.update_self]
      exact List.nodup_singleton mp
    · rw [Function.update_of_ne hp]
      exact h.nodup p
  · intro p
    by_cases hp : p = mp
    · rw [hp, Function.update_self]
      exact .inr rfl
    · rw [Function.update_of_ne hp]
      exact h.head p
  · exact fun i hi => (hrel.used_iff i).mpr (.inr ⟨i, hi, rfl⟩)
  · intro i _ hi
    by_cases he : i = mp
    · rw [he, hself] at hi
      cases hi
    · exact hother he

/-! ### The main position is taken by right -/

/-- The node `mp` has a key of its own chain, and `n` is free. -/
structure Rightful (t : Table V) (ch : Nat → List Nat) (mp n : Nat) : Prop where
  wf : WF t ch
  used : Used t mp
  home : mainposition t (t.node mp).key = mp
  lt : n < t.capacity
  free : tisnil (t.node n) = true

namespace Rightful

variable {mp n : Nat}

theorem ne (r : Rightful t ch mp n) : mp ≠ n := fun he => not_used_of_tisnil r.free (he ▸ r.used)

theorem ne_of_used (r : Rightful t ch mp n) {i : Nat} (hu : Used t i) : i ≠ n :=
  fun he => not_used_of_tisnil r.free (he ▸ hu)

theorem not_mem (r : Rightful t ch mp n) (p : Nat) : n ∉ ch p := r.wf.not_mem_of_tisnil r.free p

/-- The chain begins with the node that is there by right. -/
theorem chain_eq (r : Rightful t ch mp n) : ∃ tail, ch mp = mp :: tail := by
  have hmem : mp ∈ ch mp := (r.wf.mem_iff mp mp).mpr ⟨r.used, r.home⟩
  rcases r.wf.head mp with he | he
  · rw [he] at hmem
    cases hmem
  · exact ⟨(ch mp).tail, List.eq_cons_of_mem_head? he⟩

/-! The nodes after the new key is linked behind `mp`. -/

/-- The free node has the key, and is linked to what the main position was linked to. -/
theorem node_new (r : Rightful t ch mp n) (key : UInt32) : (takeNode (linkNode t mp n) n key).node n =
    { t.node n with key := key, next := (t.node mp).next, flag := .nonTerminator } := by
  rw [takeNode_node, if_pos rfl]
  simp only [linkNode, setNode, Function.update_of_ne r.ne.symm, Function.update_self]

/-- The main position is linked to it. -/
theorem node_main (r : Rightful t ch mp n) (key : UInt32) :
    (takeNode (linkNode t mp n) n key).node mp = { t.node mp with next := some n } := by
  rw [takeNode_node, if_neg r.ne]
  simp only [linkNode, setNode, Function.update_self, Function.update_of_ne r.ne]

/-- The other nodes are as they were. -/
theorem node_other (key : UInt32) {i : Nat} (h1 : i ≠ n) (h2 : i ≠ mp) :
    (takeNode (linkNode t mp n) n key).node i = t.node i := by
  rw [takeNode_node, if_neg h1]
  simp only [linkNode, setNode, Function.update_of_ne h2, Function.update_of_ne h1]

/-- Of the old nodes only the link of `mp` changes. -/
theorem node_old (r : Rightful t ch mp n) (key : UInt32) {i : Nat} (hi : i ≠ n) :
    (takeNode (linkNode t mp n) n key).node i =
      { t.node i with next := ((takeNode (linkNode t mp n) n key).node i).next } := by
  by_cases he : i = mp
  · rw [he, r.node_main]
  · rw [node_other key hi he]

/-- No node is moved. -/
theorem relocated (r : Rightful t ch mp n) (key : UInt32) :
    Relocated t (takeNode (linkNode t mp n) n key) key n id := by
  refine ⟨rfl, by rw [r.node_new], by rw [r.node_new], ?_, ?_, ?_, ?_, fun j => ?_, fun i j _ _ he => he⟩
  · rw [r.node_new]
    exact (r.wf.blank n r.lt r.free).2
  · exact fun i hi => (congrArg TableNode.key (r.node_old key (r.ne_of_used hi))).trans rfl
  · exact fun i hi => (congrArg TableNode.flag (r.node_old key (r.ne_of_used hi))).trans rfl
  · exact fun i hi => (congrArg TableNode.value (r.node_old key (r.ne_of_used hi))).trans rfl
  · by_cases hj : j = n
    · subst hj
      exact ⟨fun _ => .inl rfl, fun _ => ⟨r.lt, by rw [r.node_new]; rfl⟩⟩
    · have hflag : tisnil ((takeNode (linkNode t mp n) n key).node j) = tisnil (t.node j) := by
        rw [r.node_old key hj]
        rfl
      unfold Used
      rw [hflag]
      refine ⟨fun hu => .inr ⟨j, hu, rfl⟩, ?_⟩
      rintro (he | ⟨i, hi, rfl⟩)
      · exact absurd he hj
      · exact hi

/-- The chain with the new node in its second place. -/
theorem chain_main (r : Rightful t ch mp n) (key : UInt32) {tail : List Nat} (htail : ch mp = mp :: tail) :
    Chain (fun i => ((takeNode (linkNode t mp n) n key).node i).next) (mp :: n :: tail) := by
  have hchain := r.wf.chain mp
  have hnodup := r.wf.nodup mp
  have hnot := r.not_mem mp
  rw [htail] at hchain hnodup hnot
  refine (hchain.insert_second hnot hnodup).congr fun i _ => ?_
  by_cases h1 : i = mp
  · rw [h1, r.node_main, Function.update_self]
  · rw [Function.update_of_ne h1]
    by_cases h2 : i = n
    · rw [h2, r.node_new, Function.update_self]
    · rw [node_other key h2 h1, Function.update_of_ne h2]

/-- The other chains are as they were. -/
theorem chain_other (r : Rightful t ch mp n) (key : UInt32) {p : Nat} (hp : p ≠ mp) :
    Chain (fun i => ((takeNode (linkNode t mp n) n key).node i).next) (ch p) := by
  refine (r.wf.chain p).congr fun i hi => ?_
  have h1 : i ≠ n := fun he => r.not_mem p (he ▸ hi)
  have h2 : i ≠ mp := by
    rintro rfl
    exact hp (((r.wf.mem_iff p i).mp hi).2.symm.trans r.home)
  rw [node_other key h1 h2]

/-- The chain of the main position has no node twice. -/
theorem nodup_main (r : Rightful t ch mp n) {tail : List Nat} (htail : ch mp = mp :: tail) :
    (mp :: n :: tail).Nodup := by
  have hnodup := r.wf.nodup mp
  have hnot := r.not_mem mp
  rw [htail] at hnodup hnot
  obtain ⟨h1, h2⟩ := List.nodup_cons.mp hnodup
  refine List.nodup_cons.mpr ⟨fun hm => ?_, List.nodup_cons.mpr ⟨fun hm => ?_, h2⟩⟩
  · exact (List.mem_cons.mp hm).elim r.ne h1
  · exact hnot (List.mem_cons_of_mem mp hm)

/-- A node that is empty now was empty before, and is the same. -/
theorem blank (r : Rightful t ch mp n) (key : UInt32) {i : Nat}
    (hi : tisnil ((takeNode (linkNode t mp n) n key).node i) = true) :
    (takeNode (linkNode t mp n) n key).node i = t.node i := by
  by_cases h1 : i = n
  · rw [h1, r.node_new] at hi
    cases hi
  · by_cases h2 : i = mp
    · rw [h2, r.node_main] at hi
      exact absurd r.used (not_used_of_tisnil hi)
    · exact node_other key h1 h2

end Rightful

/-- The main position is taken by right, and the key is put behind it. -/
theorem added_link (h : WF t ch) (habs : Absent t key) {mp n : Nat} (hmp : mainposition t key = mp)
    (hused : Used t mp) (hright : mainposition t (t.node mp).key = mp) (hn : n < t.capacity)
    (hnil : tisnil (t.node n) = true) : Added t (takeNode (linkNode t mp n) n key) key n := by
  have r : Rightful t ch mp n := ⟨h, hused, hright, hn, hnil⟩
  have hrel := r.relocated key
  obtain ⟨tail, htail⟩ := r.chain_eq
  refine hrel.added (Function.update ch mp (mp :: n :: tail)) h habs (fun i => r.ne_of_used) ?_ ?_ ?_ ?_
    rfl (fun i hi => (hrel.used_iff i).mpr (.inr ⟨i, hi, rfl⟩)) fun i _ => r.blank key
  all_goals intro p
  · intro i
    rw [hmp]
    by_cases hp : p = mp
    · rw [hp, Function.update_self, htail]
      simp only [List.mem_cons, id_eq, exists_eq_right]
      tauto
    · rw [Function.update_of_ne hp]
      refine ⟨fun hi => .inr ⟨i, hi, rfl⟩, ?_⟩
      rintro (⟨-, he⟩ | ⟨j, hj, rfl⟩)
      · exact absurd he.symm hp
      · exact hj
  all_goals by_cases hp : p = mp
  · rw [hp, Function.update_self]
    exact r.chain_main key htail
  · rw [Function.update_of_ne hp]
    exact r.chain_other key hp
  · rw [hp, Function.update_self]
    exact r.nodup_main htail
  · rw [Function.update_of_ne hp]
    exact h.nodup p
  · rw [hp, Function.update_self]
    exact .inr rfl
  · rw [Function.update_of_ne hp]
    exact h.head p

/-! ### The main position is taken by a key of another one -/

/-- The node in front of a node that is not in its main position. -/
theorem exists_before (h : WF t ch) {mp : Nat} (hused : Used t mp)
    (hforeign : mainposition t (t.node mp).key ≠ mp) : ∃ l o l',
      ch (mainposition t (t.node mp).key) = l ++ o :: mp :: l' ∧
      before (fun i => (t.node i).next) mp t.capacity (mainposition t (t.node mp).key) = some o := by
  generalize hq : mainposition t (t.node mp).key = q at hforeign
  have hmem : mp ∈ ch q := (h.mem_iff q mp).mpr ⟨hused, hq⟩
  have hhead : (ch q).head? = some q := by
    rcases h.head q with he | he
    · rw [he] at hmem
      cases hmem
    · exact he
  obtain ⟨l₁, l', hl⟩ := List.append_of_mem hmem
  obtain ⟨l, o, rfl⟩ : ∃ l o, l₁ = l ++ [o] := by
    rcases List.eq_nil_or_concat l₁ with rfl | ⟨l, o, rfl⟩
    · rw [hl] at hhead
      exact absurd (Option.some.inj hhead).symm hforeign
    · exact ⟨l, o, List.concat_eq_append⟩
  rw [List.append_assoc, List.singleton_append] at hl
  have hchain := h.chain q
  have hnodup := h.nodup q
  have hlen := h.length_chain_le q
  rw [hl] at hchain hnodup hlen hhead
  refine ⟨l, o, l', hl, hchain.before_eq hnodup ?_ ?_⟩
  · rw [← hhead]
    cases l with
    | nil => rfl
    | cons a l => rfl
  · rw [List.length_append] at hlen
    simp only [List.length_cons] at hlen
    omega

/-- The node `mp` has a key of the chain of `q`, the node `o` is in front of it there, and `n` is free. -/
structure Foreign (t : Table V) (ch : Nat → List Nat) (mp n o q : Nat) (l l' : List Nat) : Prop where
  wf : WF t ch
  used : Used t mp
  home : mainposition t (t.node mp).key = q
  foreign : q ≠ mp
  split : ch q = l ++ o :: mp :: l'
  lt : n < t.capacity
  free : tisnil (t.node n) = true

/-- Where the nodes are after that. -/
def moved (mp n i : Nat) : Nat := if i = mp then n else i

namespace Foreign

variable {mp n o q : Nat} {l l' : List Nat}

theorem ne (f : Foreign t ch mp n o q l l') : mp ≠ n := fun he => not_used_of_tisnil f.free (he ▸ f.used)

theorem ne_of_used (f : Foreign t ch mp n o q l l') {i : Nat} (hu : Used t i) : i ≠ n :=
  fun he => not_used_of_tisnil f.free (he ▸ hu)

theorem not_mem (f : Foreign t ch mp n o q l l') (p : Nat) : n ∉ ch p := f.wf.not_mem_of_tisnil f.free p

/-- The node in front of the moved one is in the same chain. -/
theorem mem_front (f : Foreign t ch mp n o q l l') : o ∈ ch q := by
  rw [f.split]
  exact List.mem_append_right _ List.mem_cons_self

theorem front_ne_free (f : Foreign t ch mp n o q l l') : o ≠ n := fun he => f.not_mem q (he ▸ f.mem_front)

theorem front_ne (f : Foreign t ch mp n o q l l') : o ≠ mp := by
  rintro rfl
  have hnodup := f.wf.nodup q
  rw [f.split] at hnodup
  exact (List.nodup_cons.mp (List.nodup_append.mp hnodup).2.1).1 List.mem_cons_self

/-- No key of this main position is there, as it would have moved the foreign one before. -/
theorem chain_eq_nil (f : Foreign t ch mp n o q l l') : ch mp = [] :=
  f.wf.chain_eq_nil fun hm => f.foreign (f.home.symm.trans ((f.wf.mem_iff mp mp).mp hm).2)

/-- The other nodes of the chain are neither the one that moves nor the free one. -/
theorem ne_of_mem (f : Foreign t ch mp n o q l l') {i : Nat} (hi : i ∈ l ++ o :: l') : i ≠ mp ∧ i ≠ n := by
  have hnodup := f.wf.nodup q
  rw [f.split] at hnodup
  refine ⟨fun he => not_mem_of_nodup_middle hnodup (he ▸ hi), fun he => f.not_mem q ?_⟩
  rw [← he, f.split]
  simp only [List.mem_append, List.mem_cons] at hi ⊢
  tauto

/-- A node of another chain is not the moved one. -/
theorem ne_of_other (f : Foreign t ch mp n o q l l') {p j : Nat} (hp : p ≠ q) (hj : j ∈ ch p) : j ≠ mp := by
  rintro rfl
  exact hp (((f.wf.mem_iff p j).mp hj).2.symm.trans f.home)

/-! The nodes after the key has moved and the new one is in its place. -/

/-- The main position has the key, and nothing behind it. -/
theorem node_main (f : Foreign t ch mp n o q l l') (key : UInt32) :
    (takeNode (moveNode t o mp n) mp key).node mp =
      { initnode (t.node mp) with key := key, flag := .nonTerminator } := by
  rw [takeNode_node, if_pos rfl]
  simp only [moveNode, setNode, Function.update_self, Function.update_of_ne f.ne,
    Function.update_of_ne f.front_ne.symm]

/-- The free node is a copy of the moved one. -/
theorem node_free (f : Foreign t ch mp n o q l l') (key : UInt32) :
    (takeNode (moveNode t o mp n) mp key).node n = t.node mp := by
  rw [takeNode_node, if_neg f.ne.symm]
  simp only [moveNode, setNode, Function.update_self, Function.update_of_ne f.ne.symm,
    Function.update_of_ne f.front_ne.symm]

/-- The node in front of it is linked to the copy. -/
theorem node_front (f : Foreign t ch mp n o q l l') (key : UInt32) :
    (takeNode (moveNode t o mp n) mp key).node o = { t.node o with next := some n } := by
  rw [takeNode_node, if_neg f.front_ne]
  simp only [moveNode, setNode, Function.update_self, Function.update_of_ne f.front_ne_free,
    Function.update_of_ne f.front_ne]

/-- The other nodes are as they were. -/
theorem node_other (key : UInt32) {i : Nat} (h1 : i ≠ mp) (h2 : i ≠ n) (h3 : i ≠ o) :
    (takeNode (moveNode t o mp n) mp key).node i = t.node i := by
  rw [takeNode_node, if_neg h1]
  simp only [moveNode, setNode, Function.update_of_ne h1, Function.update_of_ne h2,
    Function.update_of_ne h3]

/-- Of the other nodes at most the link changes. -/
theorem node_old (f : Foreign t ch mp n o q l l') (key : UInt32) {i : Nat} (h1 : i ≠ mp) (h2 : i ≠ n) :
    (takeNode (moveNode t o mp n) mp key).node i =
      { t.node i with next := ((takeNode (moveNode t o mp n) mp key).node i).next } := by
  by_cases he : i = o
  · rw [he, f.node_front]
  · rw [node_other key h1 h2 he]

/-- What is in a node, its link apart, is in the node where it has moved. -/
theorem copied (f : Foreign t ch mp n o q l l') (key : UInt32) {β : Type} (field : TableNode V → β)
    (hfield : ∀ x k, field { x with next := k } = field x) (i : Nat) (hu : Used t i) :
    field ((takeNode (moveNode t o mp n) mp key).node (moved mp n i)) = field (t.node i) := by
  unfold moved
  by_cases he : i = mp
  · rw [if_pos he, he, f.node_free]
  · rw [if_neg he, f.node_old key he (f.ne_of_used hu), hfield]

/-- One more node is used. -/
theorem used_iff (f : Foreign t ch mp n o q l l') (key : UInt32) (j : Nat) :
    Used (takeNode (moveNode t o mp n) mp key) j ↔ j = n ∨ Used t j := by
  unfold Used
  by_cases h1 : j = n
  · rw [h1, f.node_free]
    exact ⟨fun _ => .inl rfl, fun _ => ⟨f.lt, f.used.2⟩⟩
  · by_cases h2 : j = mp
    · rw [h2, f.node_main]
      exact ⟨fun _ => .inr f.used, fun _ => ⟨f.used.1, rfl⟩⟩
    · have hflag : tisnil ((takeNode (moveNode t o mp n) mp key).node j) = tisnil (t.node j) := by
        rw [f.node_old key h2 h1]
        rfl
      rw [hflag]
      exact ⟨.inr, fun hu => hu.resolve_left h1⟩

/-- The foreign node is moved to the free one. -/
theorem relocated (f : Foreign t ch mp n o q l l') (key : UInt32) :
    Relocated t (takeNode (moveNode t o mp n) mp key) key mp (moved mp n) := by
  refine ⟨rfl, by rw [f.node_main], by rw [f.node_main], by rw [f.node_main]; rfl, ?_, ?_, ?_, fun j => ?_,
    fun i j hi hj he => ?_⟩
  · exact f.copied key TableNode.key fun _ _ => rfl
  · exact f.copied key TableNode.flag fun _ _ => rfl
  · exact f.copied key TableNode.value fun _ _ => rfl
  · rw [f.used_iff]
    constructor
    · rintro (rfl | hu)
      · exact .inr ⟨mp, f.used, if_pos rfl⟩
      · by_cases h2 : j = mp
        · exact .inl h2
        · exact .inr ⟨j, hu, if_neg h2⟩
    · rintro (rfl | ⟨i, hi, rfl⟩)
      · exact .inr f.used
      · by_cases h2 : i = mp
        · exact .inl (if_pos h2)
        · rw [moved, if_neg h2]
          exact .inr hi
  · have h1 := f.ne_of_used hi
    have h2 := f.ne_of_used hj
    unfold moved at he
    split_ifs at he with h3 h4 h4
    · rw [h3, h4]
    · exact absurd he.symm h2
    · exact absurd he h1
    · exact he

/-! The chains: the one of `q` has the free node where the node `mp` was, and `mp` begins its own. -/

/-- The home chain has the copy in place of the moved node. -/
theorem mem_home_iff (f : Foreign t ch mp n o q l l') (i : Nat) :
    i ∈ l ++ o :: n :: l' ↔ ∃ j ∈ ch q, moved mp n j = i := by
  rw [f.split]
  constructor
  · intro hi
    by_cases hin : i = n
    · exact ⟨mp, by simp, (if_pos rfl).trans hin.symm⟩
    · have hi' : i ∈ l ++ o :: l' := by
        simp only [List.mem_append, List.mem_cons] at hi ⊢
        tauto
      refine ⟨i, ?_, if_neg (f.ne_of_mem hi').1⟩
      simp only [List.mem_append, List.mem_cons] at hi' ⊢
      tauto
  · rintro ⟨j, hj, rfl⟩
    unfold moved
    by_cases hjmp : j = mp
    · rw [if_pos hjmp]
      simp
    · rw [if_neg hjmp]
      simp only [List.mem_append, List.mem_cons] at hj ⊢
      tauto

/-- The other chains have no node that is moved. -/
theorem mem_other_iff (f : Foreign t ch mp n o q l l') {p : Nat} (hp : p ≠ q) (i : Nat) :
    i ∈ ch p ↔ ∃ j ∈ ch p, moved mp n j = i := by
  constructor
  · exact fun hi => ⟨i, hi, if_neg (f.ne_of_other hp hi)⟩
  · rintro ⟨j, hj, rfl⟩
    rw [moved, if_neg (f.ne_of_other hp hj)]
    exact hj

/-- The home chain is linked in its order. -/
theorem chain_home (f : Foreign t ch mp n o q l l') (key : UInt32) :
    Chain (fun i => ((takeNode (moveNode t o mp n) mp key).node i).next) (l ++ o :: n :: l') := by
  have hchain := f.wf.chain q
  have hnodup := f.wf.nodup q
  rw [f.split] at hchain hnodup
  refine hchain.replace hnodup ?_ ?_ fun i hi => ?_
  · rw [f.node_front]
  · rw [f.node_free]
  · have hi' : i ∈ l ++ o :: l' := by
      simp only [List.mem_append, List.mem_cons] at hi ⊢
      tauto
    have hio : i ≠ o := by
      rintro rfl
      refine (List.nodup_cons.mp (List.nodup_middle.mp hnodup)).1 ?_
      simp only [List.mem_append, List.mem_cons] at hi ⊢
      tauto
    rw [node_other key (f.ne_of_mem hi').1 (f.ne_of_mem hi').2 hio]

/-- The other chains are as they were. -/
theorem chain_other (f : Foreign t ch mp n o q l l') (key : UInt32) {p : Nat} (hp : p ≠ q) :
    Chain (fun i => ((takeNode (moveNode t o mp n) mp key).node i).next) (ch p) := by
  refine (f.wf.chain p).congr fun i hi => ?_
  have hio : i ≠ o := by
    rintro rfl
    exact hp (((f.wf.mem_iff p i).mp hi).2.symm.trans ((f.wf.mem_iff q i).mp f.mem_front).2)
  have hin : i ≠ n := fun he => f.not_mem p (he ▸ hi)
  rw [node_other key (f.ne_of_other hp hi) hin hio]

/-- The main position is a chain of its own. -/
theorem chain_main (f : Foreign t ch mp n o q l l') (key : UInt32) :
    Chain (fun i => ((takeNode (moveNode t o mp n) mp key).node i).next) [mp] := by
  apply Chain.singleton
  rw [f.node_main]
  rfl

/-- The home chain has no node twice. -/
theorem nodup_home (f : Foreign t ch mp n o q l l') : (l ++ o :: n :: l').Nodup := by
  have hnodup := f.wf.nodup q
  rw [f.split] at hnodup
  exact nodup_replace_middle hnodup fun hm => (f.ne_of_mem hm).2 rfl

/-- It begins where it began. -/
theorem head_home (f : Foreign t ch mp n o q l l') : (l ++ o :: n :: l').head? = some q := by
  have hhead := f.wf.head q
  rw [f.split] at hhead
  refine Eq.trans ?_ (hhead.resolve_left (by simp))
  cases l with
  | nil => rfl
  | cons a l => rfl

/-- A node that is empty now was empty before, and is the same. -/
theorem blank (f : Foreign t ch mp n o q l l') (key : UInt32) {i : Nat}
    (hi : tisnil ((takeNode (moveNode t o mp n) mp key).node i) = true) :
    (takeNode (moveNode t o mp n) mp key).node i = t.node i := by
  by_cases h1 : i = mp
  · rw [h1, f.node_main] at hi
    cases hi
  · by_cases h2 : i = n
    · rw [h2, f.node_free, f.used.2] at hi
      cases hi
    · by_cases h3 : i = o
      · rw [h3, f.node_front] at hi
        exact absurd ((f.wf.mem_iff q o).mp f.mem_front).1 (not_used_of_tisnil hi)
      · exact node_other key h1 h2 h3

end Foreign

/-- The main position is taken by a key of another one, which is moved to the free node. -/
theorem added_move (h : WF t ch) (habs : Absent t key) {mp n o : Nat} {l l' : List Nat}
    (hmp : mainposition t key = mp) (hused : Used t mp)
    (hforeign : mainposition t (t.node mp).key ≠ mp)
    (hl : ch (mainposition t (t.node mp).key) = l ++ o :: mp :: l') (hn : n < t.capacity)
    (hnil : tisnil (t.node n) = true) : Added t (takeNode (moveNode t o mp n) mp key) key mp := by
  generalize hq : mainposition t (t.node mp).key = q at hforeign hl
  have f : Foreign t ch mp n o q l l' := ⟨h, hused, hq, hforeign, hl, hn, hnil⟩
  refine (f.relocated key).added (Function.update (Function.update ch q (l ++ o :: n :: l')) mp [mp]) h habs
    ?_ ?_ ?_ ?_ ?_ rfl (fun i hi => (f.used_iff key i).mpr (.inr hi)) fun i _ => f.blank key
  · intro i hi
    unfold moved
    by_cases h2 : i = mp
    · rw [if_pos h2]
      exact f.ne.symm
    · rw [if_neg h2]
      exact h2
  all_goals intro p
  · intro i
    rw [hmp]
    by_cases hp : p = mp
    · rw [hp, Function.update_self, f.chain_eq_nil, List.mem_singleton]
      simp
    · rw [Function.update_of_ne hp, or_iff_right fun he => hp he.2.symm]
      by_cases hpq : p = q
      · rw [hpq, Function.update_self]
        exact f.mem_home_iff i
      · rw [Function.update_of_ne hpq]
        exact f.mem_other_iff hpq i
  -- the chain of `mp`, the one of the key that has moved, and the others
  all_goals
    by_cases hp : p = mp
    · rw [hp, Function.update_self]
      first
        | exact f.chain_main key
        | exact List.nodup_singleton mp
        | exact .inr rfl
    rw [Function.update_of_ne hp]
    by_cases hpq : p = q
    · rw [hpq, Function.update_self]
      first
        | exact f.chain_home key
        | exact f.nodup_home
        | exact .inr f.head_home
    rw [Function.update_of_ne hpq]
  · exact f.chain_other key hpq
  · exact h.nodup p
  · exact h.head p

end cases

end AntServer.Crab
