/-
# AntServer.Lib.Replica — a replica of a table that follows a stream of changes

A change inserts, updates or deletes the value under a key. It *fits* what the replica has there: an
insert meets no value, an update and a delete meet one. A delta is a table of changes, at most one a
key; a stream is a list of deltas, applied in turn.

A stream acts on each key by itself (`applyAll_get`): it fits when, for each key, the changes to that
key fit one after the other (`follow`). So what a stream does to a replica is a matter of one key and
a list of changes.

Nothing here names the modelled system.
-/
import AntServer.Lib.Table

namespace AntServer.Lib

/-! ## The changes of one key -/

/-- A change to the value under a key. -/
inductive Change (V : Type*) where
  | insert (v : V)
  | update (v : V)
  | delete
  deriving DecidableEq

namespace Change

variable {V : Type*}

/-- What is under the key afterwards, if the change fits. -/
def apply : Change V → Option V → Option (Option V)
  | insert v, none => some (some v)
  | update v, some _ => some (some v)
  | delete, some _ => some none
  | _, _ => none

@[simp] theorem apply_insert_none (v : V) : (insert v).apply none = some (some v) := rfl
@[simp] theorem apply_update_some (v w : V) : (update v).apply (some w) = some (some v) := rfl
@[simp] theorem apply_delete_some (w : V) : (delete : Change V).apply (some w) = some none := rfl

/-- The changes to one key, one after the other. -/
def follow (x : Option V) : List (Change V) → Option (Option V)
  | [] => some x
  | c :: cs => (c.apply x).bind fun y => follow y cs

@[simp] theorem follow_nil (x : Option V) : follow x [] = some x := rfl

theorem follow_cons (x : Option V) (c : Change V) (cs : List (Change V)) :
    follow x (c :: cs) = (c.apply x).bind fun y => follow y cs := rfl

/-- Updates of a value that is there leave the last one. -/
theorem follow_updates {v w : V} {cs : List (Change V)} (h : ∀ c ∈ cs, c = update w)
    (hne : cs ≠ []) : follow (some v) cs = some (some w) := by
  induction cs generalizing v with
  | nil => exact absurd rfl hne
  | cons c cs ih =>
    rw [h c List.mem_cons_self, follow_cons, apply_update_some, Option.bind_some]
    cases cs with
    | nil => rfl
    | cons d ds => exact ih (fun x hx => h x (List.mem_cons_of_mem _ hx)) nofun

/-- A value that is deleted in one place and inserted in another, the deletion first if both are told:
what is left is what was inserted, if the replica had the value before just when the deletion is told. -/
theorem follow_moved {α : Type*} {f : α → Option (Change V)} {v : V} {l : List α}
    (hform : ∀ a ∈ l, f a = none ∨ f a = some (insert v) ∨ f a = some delete)
    (hpair : l.Pairwise fun a b => ¬ (f a = some (insert v) ∧ (f b).isSome) ∧
      ¬ (f a = some delete ∧ f b = some delete))
    {x y : Option V} (hx : x.isSome ↔ ∃ a ∈ l, f a = some delete)
    (hins : (∃ a ∈ l, f a = some (insert v)) → y = some v)
    (hno : (∀ a ∈ l, f a ≠ some (insert v)) → y = none) : follow x (l.filterMap f) = some y := by
  induction l generalizing x with
  | nil =>
    have hnone : x = none := by simpa using hx
    rw [hnone, hno nofun]
    rfl
  | cons a l ih =>
    obtain ⟨ha, hl⟩ := List.pairwise_cons.mp hpair
    have hform' : ∀ b ∈ l, f b = none ∨ f b = some (insert v) ∨ f b = some delete :=
      fun b hb => hform b (List.mem_cons_of_mem _ hb)
    rw [List.filterMap_cons]
    obtain hfa | hfa | hfa := hform a List.mem_cons_self
    · rw [hfa]
      refine ih hform' hl ?_ (fun hb => hins ?_) (fun hb => hno ?_)
      · rw [hx]
        simp [hfa]
      · obtain ⟨b, hb, hfb⟩ := hb
        exact ⟨b, List.mem_cons_of_mem _ hb, hfb⟩
      · intro b hb'
        obtain rfl | hb' := List.mem_cons.mp hb'
        · rw [hfa]
          nofun
        · exact hb b hb'
    · -- Nothing comes after the insertion.
      have hrest : l.filterMap f = [] := by
        rw [List.filterMap_eq_nil_iff]
        intro b hb
        have := (ha b hb).1
        simpa [hfa] using this
      have hnone : x = none := by
        rw [← Option.not_isSome_iff_eq_none, hx]
        rintro ⟨b, hb, hfb⟩
        obtain rfl | hb := List.mem_cons.mp hb
        · rw [hfa] at hfb
          cases hfb
        · have := List.filterMap_eq_nil_iff.mp hrest b hb
          rw [this] at hfb
          cases hfb
      rw [hfa, hrest, hnone, hins ⟨a, List.mem_cons_self, hfa⟩]
      rfl
    · rw [hfa]
      obtain ⟨w, rfl⟩ := Option.isSome_iff_exists.mp (hx.mpr ⟨a, List.mem_cons_self, hfa⟩)
      refine ih hform' hl (x := none) ?_ (fun hb => hins ?_) (fun hb => hno ?_)
      · refine iff_of_false nofun ?_
        rintro ⟨b, hb, hfb⟩
        exact (ha b hb).2 ⟨hfa, hfb⟩
      · obtain ⟨b, hb, hfb⟩ := hb
        exact ⟨b, List.mem_cons_of_mem _ hb, hfb⟩
      · intro b hb'
        obtain rfl | hb' := List.mem_cons.mp hb'
        · rw [hfa]
          nofun
        · exact hb b hb'

/-- The changes of a value that only one place has something to tell of. -/
theorem filterMap_single {α β : Type*} {f : α → Option (Change V)} {key : α → β} {l : List α}
    (hl : (l.map key).Nodup) {a : α} (ha : a ∈ l) (hother : ∀ b ∈ l, key b ≠ key a → f b = none) :
    l.filterMap f = (f a).toList := by
  induction l with
  | nil => cases ha
  | cons b l ih =>
    rw [List.map_cons, List.nodup_cons] at hl
    have hother' : ∀ b ∈ l, key b ≠ key a → f b = none :=
      fun b hb => hother b (List.mem_cons_of_mem _ hb)
    rw [List.filterMap_cons]
    obtain rfl | ha := List.mem_cons.mp ha
    · have hrest : l.filterMap f = [] := by
        rw [List.filterMap_eq_nil_iff]
        refine fun b hb => hother' b hb fun hkey => hl.1 ?_
        rw [← hkey]
        exact List.mem_map_of_mem hb
      rw [hrest]
      cases f a <;> rfl
    · have hb : f b = none := by
        refine hother b List.mem_cons_self fun hkey => hl.1 ?_
        rw [hkey]
        exact List.mem_map_of_mem ha
      rw [hb]
      exact ih hl.2 ha hother'

end Change

namespace Replica

/-! ## Tables of changes -/

variable {K V : Type*} [DecidableEq K]

/-- The change a delta has for a key, at what the replica has there. -/
def applyAt (x : Option V) : Option (Change V) → Option (Option V)
  | none => some x
  | some c => c.apply x

/-- Apply one change to a replica. -/
def applyChange (r : Table K V) (k : K) (c : Change V) : Option (Table K V) :=
  (c.apply (r.get k)).map fun
    | some v => r.set k v
    | none => r.del k

theorem applyChange_get {r r' : Table K V} {k : K} {c : Change V}
    (h : applyChange r k c = some r') (k' : K) :
    applyAt (r.get k') (if k' = k then some c else none) = some (r'.get k') := by
  obtain ⟨y, hy, rfl⟩ := Option.map_eq_some_iff.mp h
  by_cases hk : k' = k
  · subst hk
    rw [if_pos rfl, applyAt, hy]
    cases y with
    | none => rw [Table.get_del_self]
    | some v => rw [Table.get_set_self]
  · rw [if_neg hk]
    cases y with
    | none => rw [Table.get_del_ne _ hk]; rfl
    | some v => rw [Table.get_set_ne _ _ hk]; rfl

/-- Apply the changes of a delta; the keys come in any order, each once. -/
def applyKeys (d : Table K (Change V)) : Table K V → List K → Option (Table K V)
  | r, [] => some r
  | r, k :: ks =>
    match d.get k with
    | none => applyKeys d r ks
    | some c => (applyChange r k c).bind fun r => applyKeys d r ks

/-- Apply a delta to a replica. -/
def apply (r : Table K V) (d : Table K (Change V)) : Option (Table K V) := applyKeys d r d.keys

/-- Apply a stream of deltas. -/
def applyAll (r : Table K V) : List (Table K (Change V)) → Option (Table K V)
  | [] => some r
  | d :: ds => (apply r d).bind fun r => applyAll r ds

/-! ## What a replica has afterwards -/

theorem applyKeys_spec {d : Table K (Change V)} {ks : List K} (hks : ks.Nodup) (r : Table K V)
    (hfit : ∀ k ∈ ks, (applyAt (r.get k) (d.get k)).isSome) :
    ∃ r', applyKeys d r ks = some r' ∧
      ∀ k, applyAt (r.get k) (if k ∈ ks then d.get k else none) = some (r'.get k) := by
  induction ks generalizing r with
  | nil => exact ⟨r, rfl, fun k => by simp [applyAt]⟩
  | cons x xs ih =>
    obtain ⟨hx, hxs⟩ := List.nodup_cons.mp hks
    unfold applyKeys
    cases hd : d.get x with
    | none =>
      obtain ⟨r', hr', hget⟩ := ih hxs r fun k hk => hfit k (List.mem_cons_of_mem _ hk)
      refine ⟨r', hr', fun k => ?_⟩
      rw [← hget k]
      by_cases hk : k = x
      · subst hk
        rw [if_pos List.mem_cons_self, if_neg hx, hd]
      · simp [hk]
    | some c =>
      have hfitx := hfit x List.mem_cons_self
      rw [hd] at hfitx
      obtain ⟨y, hy⟩ := Option.isSome_iff_exists.mp hfitx
      obtain ⟨r₁, hr₁⟩ : ∃ r₁, applyChange r x c = some r₁ := by
        unfold applyChange
        rw [show c.apply (r.get x) = some y from hy]
        exact ⟨_, rfl⟩
      have hr₁get := applyChange_get hr₁
      have hsame : ∀ k, k ≠ x → r₁.get k = r.get k := by
        intro k hk
        have := hr₁get k
        rw [if_neg hk] at this
        exact (Option.some.inj this).symm
      obtain ⟨r', hr', hget⟩ := ih hxs r₁ fun k hk => by
        rw [hsame k fun heq => hx (heq ▸ hk)]
        exact hfit k (List.mem_cons_of_mem _ hk)
      refine ⟨r', by simp only [hr₁, Option.bind_some, hr'], fun k => ?_⟩
      by_cases hk : k = x
      · subst hk
        rw [if_pos List.mem_cons_self, hd]
        have hk₁ := hr₁get k
        rw [if_pos rfl] at hk₁
        rw [hk₁, ← hget k, if_neg hx]
        rfl
      · have hmem : (k ∈ x :: xs) = (k ∈ xs) := by simp [hk]
        simp only [hmem]
        rw [← hget k, hsame k hk]

/-- A delta whose changes fit acts on each key by itself. -/
theorem apply_get {r : Table K V} {d : Table K (Change V)}
    (hfit : ∀ k, (applyAt (r.get k) (d.get k)).isSome) :
    ∃ r', apply r d = some r' ∧ ∀ k, applyAt (r.get k) (d.get k) = some (r'.get k) := by
  obtain ⟨r', hr', hget⟩ := applyKeys_spec d.keys_nodup r fun k _ => hfit k
  refine ⟨r', hr', fun k => ?_⟩
  rw [← hget k]
  split
  · rfl
  · rename_i hk
    rw [Table.mem_keys, Bool.not_eq_true, Option.isSome_eq_false_iff,
      Option.isNone_iff_eq_none] at hk
    rw [hk]

/-- The changes a stream has for one key. -/
def changesOf (ds : List (Table K (Change V))) (k : K) : List (Change V) :=
  ds.filterMap fun d => d.get k

theorem follow_changesOf_cons (x : Option V) (d : Table K (Change V))
    (ds : List (Table K (Change V))) (k : K) :
    Change.follow x (changesOf (d :: ds) k) =
      (applyAt x (d.get k)).bind fun y => Change.follow y (changesOf ds k) := by
  unfold changesOf
  rw [List.filterMap_cons]
  cases d.get k <;> rfl

/-- A stream whose changes fit, key by key, acts on each key by itself. -/
theorem applyAll_get {ds : List (Table K (Change V))} {r : Table K V}
    (hfit : ∀ k, (Change.follow (r.get k) (changesOf ds k)).isSome) :
    ∃ r', applyAll r ds = some r' ∧
      ∀ k, Change.follow (r.get k) (changesOf ds k) = some (r'.get k) := by
  induction ds generalizing r with
  | nil => exact ⟨r, rfl, fun k => rfl⟩
  | cons d ds ih =>
    simp only [follow_changesOf_cons] at hfit ⊢
    have hd : ∀ k, (applyAt (r.get k) (d.get k)).isSome := by
      intro k
      have := hfit k
      cases h : applyAt (r.get k) (d.get k) with
      | none => rw [h] at this; cases this
      | some y => rfl
    obtain ⟨r₁, hr₁, hget₁⟩ := apply_get hd
    obtain ⟨r', hr', hget⟩ := ih fun k => by
      have := hfit k
      rw [hget₁ k] at this
      exact this
    refine ⟨r', by simp only [applyAll, hr₁, Option.bind_some, hr'], fun k => ?_⟩
    rw [hget₁ k]
    exact hget k

end Replica

end AntServer.Lib
