/-
# AntServer.Agent.HashOrder — the change hash and the order of `lua_next`

A table that was rebuilt has the same entries in another order, and so may every table inside of it,
in its keys as well as in its values (`LuaVal.Reordered`). The hash of `lua-hash.c` is a sum over the
entries at every level, so no order changes it; and it raises the one error it has exactly when there
is a non-empty table below the level `MAX_DEPTH`, whatever the order. For `on_mod_save` this means that
rebuilding the tables of a document that it has seen does not make it save the document again.
-/
import Mathlib.Logic.Relation
import AntServer.Agent.ChangeDetection

namespace AntServer

mutual

/-- Two enumerations of the same value: the entries of its tables in any order, at every level. -/
inductive LuaVal.Reordered : LuaVal → LuaVal → Prop
  | refl (v : LuaVal) : LuaVal.Reordered v v
  | table {t t' : LuaTable} (h : LuaTable.Reordered t t') : LuaVal.Reordered (.table t) (.table t')

/-- The same for the entries of two tables. -/
inductive LuaTable.Reordered : LuaTable → LuaTable → Prop
  | empty : LuaTable.Reordered .empty .empty
  | entry {k k' v v' : LuaVal} {t t' : LuaTable} (hk : LuaVal.Reordered k k')
      (hv : LuaVal.Reordered v v') (ht : LuaTable.Reordered t t') :
      LuaTable.Reordered (.entry k v t) (.entry k' v' t')
  | swap (k₁ v₁ k₂ v₂ : LuaVal) (t : LuaTable) :
      LuaTable.Reordered (.entry k₁ v₁ (.entry k₂ v₂ t)) (.entry k₂ v₂ (.entry k₁ v₁ t))
  | trans {t₁ t₂ t₃ : LuaTable} (h : LuaTable.Reordered t₁ t₂) (h' : LuaTable.Reordered t₂ t₃) :
      LuaTable.Reordered t₁ t₃

end

/-- The table with these entries. -/
def LuaTable.ofEntries (entries : List (LuaVal × LuaVal)) : LuaTable :=
  entries.foldr (fun e t => .entry e.1 e.2 t) .empty

/-- A permutation of the entries is another enumeration of the table. -/
theorem LuaTable.reordered_of_perm {l l' : List (LuaVal × LuaVal)} (h : l.Perm l') :
    (ofEntries l).Reordered (ofEntries l') := by
  induction h with
  | nil => exact .empty
  | cons e _ ih => exact .entry (.refl e.1) (.refl e.2) ih
  | swap e₁ e₂ l => exact .swap e₂.1 e₂.2 e₁.1 e₁.2 (ofEntries l)
  | trans _ _ ih₁ ih₂ => exact .trans ih₁ ih₂

mutual

/-- The levels of the tables of a value that are not empty, when the value itself is at `level`. -/
def LuaVal.tableLevels (level : Nat) : LuaVal → List Nat
  | .bool _ => []
  | .int _ => []
  | .float _ => []
  | .str _ => []
  | .table t => (if t = .empty then [] else [level]) ++ t.tableLevels (level + 1)

/-- The levels of those among the keys and values of a table. -/
def LuaTable.tableLevels (level : Nat) : LuaTable → List Nat
  | .empty => []
  | .entry key value rest =>
    key.tableLevels level ++ value.tableLevels level ++ rest.tableLevels level

end

namespace LuaHash

/-! ## The order -/

mutual

theorem hashOne_reordered : ∀ {v v' : LuaVal}, v.Reordered v' →
    ∀ depth, hashOne depth v = hashOne depth v'
  | _, _, .refl _, _ => rfl
  | _, _, .table h, depth => by
    unfold hashOne
    rw [hashEntries_reordered h (depth + 1)]

theorem hashEntries_reordered : ∀ {t t' : LuaTable}, t.Reordered t' →
    ∀ depth, hashEntries depth t = hashEntries depth t'
  | _, _, .empty, _ => rfl
  | _, _, .entry hk hv ht, depth => by
    rw [hashEntries, hashEntries, hashOne_reordered hk, hashOne_reordered hv,
      hashEntries_reordered ht]
  | _, _, .swap k₁ v₁ k₂ v₂ t, depth => hashEntries_swap depth k₁ v₁ k₂ v₂ t
  | _, _, .trans h h', depth =>
    (hashEntries_reordered h depth).trans (hashEntries_reordered h' depth)

end

/-- The order in which `lua_next` gives the entries, of the table and of the tables in it, does not
change what `hashcode` returns or raises. -/
theorem hashcode_reordered {v v' : LuaVal} (h : v.Reordered v') : hashcode v = hashcode v' := by
  cases h with
  | refl => rfl
  | table ht => simp only [hashcode, hashEntries_reordered ht 1]

/-! ## The depth -/

/-- The hash fails. -/
def Fails (h : Except LuaError (BitVec 32)) : Prop := h = .error hashOne.tooDeep

theorem fails_map (x : Except LuaError (BitVec 32)) (f : BitVec 32 → BitVec 32) :
    Fails (do let h ← x; return f h) ↔ Fails x := by
  cases x with
  | error e => exact Iff.rfl
  | ok h =>
    refine iff_of_false (fun hf => ?_) fun hf => ?_
    · cases hf
    · cases hf

/-- An entry sum fails when a part of it does. -/
theorem hashEntries_fails (depth : Nat) (key value : LuaVal) (rest : LuaTable) :
    Fails (hashEntries depth (.entry key value rest)) ↔
      Fails (hashOne depth key) ∨ Fails (hashOne depth value) ∨ Fails (hashEntries depth rest) := by
  rw [hashEntries]
  cases hk : hashOne depth key with
  | error e =>
    obtain rfl := hashOne_error depth key hk
    exact iff_of_true rfl (.inl rfl)
  | ok kh =>
    cases hv : hashOne depth value with
    | error e =>
      obtain rfl := hashOne_error depth value hv
      exact iff_of_true rfl (.inr (.inl rfl))
    | ok vh =>
      cases ht : hashEntries depth rest with
      | error e =>
        obtain rfl := hashEntries_error depth rest ht
        exact iff_of_true rfl (.inr (.inr rfl))
      | ok th =>
        refine iff_of_false (fun h => by cases h) ?_
        rintro (h | h | h) <;> cases h

/-- A table fails with its entries, which are one level below it. -/
theorem hashOne_table_fails (depth : Nat) (t : LuaTable) :
    Fails (hashOne depth (.table t)) ↔
      maxDepth < depth ∨ Fails (hashEntries (depth + 1) t) := by
  rw [hashOne]
  split
  · rename_i hdepth
    exact iff_of_true rfl (.inl hdepth)
  · rename_i hdepth
    rw [or_iff_right hdepth]
    exact fails_map _ _

/-- A value that is no table fails by its own depth alone. -/
theorem fails_ite {depth : Nat} {h : BitVec 32} :
    Fails (if depth > maxDepth then .error hashOne.tooDeep else .ok h) ↔ maxDepth < depth := by
  split
  · rename_i hdepth
    exact iff_of_true rfl hdepth
  · rename_i hdepth
    refine iff_of_false (fun hf => ?_) hdepth
    cases hf

mutual

theorem hashOne_fails_iff : ∀ (depth : Nat) (v : LuaVal), Fails (hashOne depth v) ↔
    maxDepth < depth ∨ ∃ n ∈ v.tableLevels (depth + 1), maxDepth < n
  | depth, .bool _ | depth, .int _ | depth, .float _ | depth, .str _ => by
    rw [hashOne, fails_ite]
    simp [LuaVal.tableLevels]
  -- The table is at `depth + 1`, the level its entries are hashed at.
  | depth, .table t => by
    rw [hashOne_table_fails, hashEntries_fails_iff (depth + 1) t, LuaVal.tableLevels]
    by_cases ht : t = .empty
    · simp [ht]
    · simp [ht]

theorem hashEntries_fails_iff : ∀ (depth : Nat) (t : LuaTable), Fails (hashEntries depth t) ↔
    t ≠ .empty ∧ maxDepth < depth ∨ ∃ n ∈ t.tableLevels (depth + 1), maxDepth < n
  | depth, .empty => by
    refine iff_of_false (fun hf => ?_) (by simp [LuaTable.tableLevels])
    cases hf
  | depth, .entry key value rest => by
    rw [hashEntries_fails, hashOne_fails_iff depth key, hashOne_fails_iff depth value,
      hashEntries_fails_iff depth rest, LuaTable.tableLevels]
    -- An entry that is too deep fails with its key.
    by_cases hdepth : maxDepth < depth
    · simp [hdepth]
    · simp only [hdepth, List.mem_append, or_and_right, exists_or, false_or, and_false, or_assoc]

end

/-- `hashcode` of a table raises exactly when some table that is not empty, the argument being at the
level 1, is below the level `maxDepth`. -/
theorem hashcode_fails_iff (t : LuaTable) : Fails (hashcode (.table t)) ↔
    ∃ n ∈ (LuaVal.table t).tableLevels 1, maxDepth < n := by
  have hroot : Fails (hashcode (.table t)) ↔ Fails (hashEntries 1 t) := fails_map _ _
  rw [hroot, hashEntries_fails_iff, LuaVal.tableLevels]
  by_cases ht : t = .empty
  · simp [ht]
  · simp [ht, maxDepth]

theorem hashcode_error (t : LuaTable) {e : LuaError} (h : hashcode (.table t) = .error e) :
    e = hashOne.tooDeep := by
  unfold hashcode at h
  cases ht : hashEntries 1 t with
  | error e' =>
    simp only [ht] at h
    obtain rfl := Except.error.inj h
    exact hashEntries_error 1 t ht
  | ok n =>
    simp only [ht] at h
    cases h

end LuaHash

/-! ## Documents that are rebuilt -/

namespace Agent.Saver

open Lib (Table)
open LuaHash (hashcode)

variable {K : Type*} [DecidableEq K]

/-- What may come between two calls of `on_mod_save` for a mod whose document stays the same: the tables
of the document are rebuilt. What becomes of the other mods and of the stored documents is open. -/
structure Rebuilt (k : K) (s s' : Saver K) : Prop where
  hashcodes : s'.hashcodes.get k = s.hashcodes.get k
  backends : ∀ m data, s.backends.get k = some m → m.data = some data →
    ∃ data', s'.backends.get k = some { m with data := some data' } ∧ data.Reordered data'

/-- A call of `on_mod_save`, or what comes between. -/
inductive Turn (k : K) : Saver K → Saver K → Prop
  | save (s : Saver K) (answer : K → SetAnswer) (order : List K) :
      Turn k s (onModSave answer order s).2
  | between {s s' : Saver K} (h : Rebuilt k s s') : Turn k s s'

/-- The document of the mod is there and has this hash, and the hash is the one remembered. -/
structure Remembered (s : Saver K) (k : K) (m : BackendMod) (data : LuaVal) (nhcode : BitVec 32) :
    Prop where
  backend : s.backends.get k = some m
  saves : m.saves = true
  doc : m.data = some data
  hash : hashcode data = .ok nhcode
  hashcodes : s.hashcodes.get k = some nhcode

/-- The hash of the document of the mod is the remembered one. -/
def Unchanged (s : Saver K) (k : K) : Prop := ∃ m data nhcode, s.Remembered k m data nhcode

variable {s s' : Saver K} {k : K}

theorem Remembered.found {m : BackendMod} {data : LuaVal} {nhcode : BitVec 32}
    (h : s.Remembered k m data nhcode) : s.found k = .same nhcode := by
  unfold Saver.found
  simp only [h.backend, h.saves, h.doc, h.hash, h.hashcodes, if_true]

/-- An unchanged document is not saved: the visit remembers the hash again, and calls nothing. -/
theorem Unchanged.saveMod (h : s.Unchanged k) (answer : K → SetAnswer) : ∃ nhcode,
    s.saveMod answer k = (none, { s with hashcodes := s.hashcodes.set k nhcode }) := by
  obtain ⟨m, data, nhcode, hr⟩ := h
  refine ⟨nhcode, ?_⟩
  rw [saveMod_found, hr.found]

theorem Remembered.set {m : BackendMod} {data : LuaVal} {nhcode : BitVec 32}
    (hm : s.backends.get k = some m) (hsaves : m.saves = true) (hdata : m.data = some data)
    (hhash : hashcode data = .ok nhcode) :
    Remembered { s with hashcodes := s.hashcodes.set k nhcode } k m data nhcode :=
  ⟨hm, hsaves, hdata, hhash, Table.get_set_self _ _ _⟩

theorem callSave_backends (s : Saver K) (k : K) (m : BackendMod) (data : LuaVal) (a : SetAnswer) :
    (s.callSave k m data a).2.backends = s.backends := by
  unfold callSave
  split
  · rfl
  · split <;> rfl

/-- A visit that returns leaves the mod unchanged, whatever the database made of the document. -/
theorem saveMod_unchanged {answer : K → SetAnswer} (hdue : s.Due k)
    (hret : (s.saveMod answer k).1 = none) : (s.saveMod answer k).2.Unchanged k := by
  obtain ⟨m, hm, hsaves⟩ := hdue
  revert hret
  unfold Saver.saveMod
  simp only [hm, hsaves, if_true]
  cases hdata : m.data with
  | none => simp
  | some data =>
    dsimp only
    cases hhash : hashcode data with
    | error e => simp
    | ok nhcode =>
      dsimp only
      -- Saved or not, the new hash is remembered.
      split
      · intro _
        exact ⟨m, data, nhcode, .set hm hsaves hdata hhash⟩
      · have hbackends := callSave_backends s k m data (answer k)
        split
        · rename_i s₁ hs₁
          intro _
          rw [hs₁] at hbackends
          refine ⟨m, data, nhcode, .set ?_ hsaves hdata hhash⟩
          rw [hbackends]
          exact hm
        · intro hret
          cases hret

theorem AgreeAt.unchanged (h : AgreeAt s s' k) (hs : s.Unchanged k) : s'.Unchanged k := by
  obtain ⟨m, data, nhcode, hr⟩ := hs
  exact ⟨m, data, nhcode, h.backends.trans hr.backend, hr.saves, hr.doc, hr.hash,
    h.hashcodes.trans hr.hashcodes⟩

/-- A visit keeps a mod unchanged, its own or another. -/
theorem Unchanged.visit (h : s.Unchanged k) (answer : K → SetAnswer) (j : K) :
    (s.saveMod answer j).2.Unchanged k := by
  by_cases hj : k = j
  · subst hj
    obtain ⟨m, data, nhcode, hr⟩ := h
    rw [saveMod_found, hr.found]
    exact ⟨m, data, nhcode, .set hr.backend hr.saves hr.doc hr.hash⟩
  · exact (saveMod_agree answer s hj).unchanged h

theorem Unchanged.onModSave (h : s.Unchanged k) (answer : K → SetAnswer) (order : List K) :
    (onModSave answer order s).2.Unchanged k := by
  induction order generalizing s with
  | nil => exact h
  | cons j js ih =>
    have hvisit := h.visit answer j
    unfold Saver.onModSave
    split
    · rename_i s₁ hs₁
      rw [hs₁] at hvisit
      exact ih hvisit
    · rename_i e s₁ hs₁
      rw [hs₁] at hvisit
      exact hvisit

/-- Rebuilding the tables of a document leaves its hash. -/
theorem Unchanged.rebuilt (h : s.Unchanged k) (hr : Rebuilt k s s') : s'.Unchanged k := by
  obtain ⟨m, data, nhcode, hm⟩ := h
  obtain ⟨data', hm', hdata'⟩ := hr.backends m data hm.backend hm.doc
  refine ⟨_, data', nhcode, hm', hm.saves, rfl, ?_, hr.hashcodes.trans hm.hashcodes⟩
  rw [← LuaHash.hashcode_reordered hdata']
  exact hm.hash

theorem Unchanged.turns (h : s.Unchanged k) (hrun : Relation.ReflTransGen (Turn k) s s') :
    s'.Unchanged k := by
  induction hrun with
  | refl => exact h
  | tail _ hturn ih =>
    cases hturn with
    | save answer order => exact ih.onModSave answer order
    | between hr => exact ih.rebuilt hr

end Agent.Saver

open Agent in
/-- The change hash does not depend on the order of `lua_next` at any level: both orders give the same
hash, or both the error of the depth, and this exactly when a table that is not empty is too deep. So
once a visit of `on_mod_save` has returned, no later visit saves the document of the mod again while
only its tables are rebuilt. -/
theorem LuaHash.hashcode_order {K : Type*} [DecidableEq K] :
    (∀ t t' : LuaTable, t.Reordered t' →
      hashcode (.table t) = hashcode (.table t') ∧
      ((∃ h, hashcode (.table t) = .ok h) ∨ hashcode (.table t) = .error hashOne.tooDeep) ∧
      (hashcode (.table t) = .error hashOne.tooDeep ↔
        ∃ n ∈ (LuaVal.table t).tableLevels 1, maxDepth < n)) ∧
    ∀ (k : K) (s s' : Saver K) (answer : K → SetAnswer), s.Due k →
      (s.saveMod answer k).1 = none →
      Relation.ReflTransGen (Saver.Turn k) (s.saveMod answer k).2 s' →
      ∀ answer' : K → SetAnswer, ∃ nhcode,
        s'.saveMod answer' k = (none, { s' with hashcodes := s'.hashcodes.set k nhcode }) := by
  refine ⟨fun t t' h => ⟨hashcode_reordered (.table h), ?_, hashcode_fails_iff t⟩, ?_⟩
  · cases ht : hashcode (.table t) with
    | error e =>
      obtain rfl := hashcode_error t ht
      exact .inr rfl
    | ok n => exact .inl ⟨n, rfl⟩
  · intro k s s' answer hdue hret hrun answer'
    exact ((Saver.saveMod_unchanged hdue hret).turns hrun).saveMod answer'

/-- Two entries change places. -/
theorem LuaHash.hashcode_order_two :
    hashcode (.table (.ofEntries [(.int 1, .bool true), (.str (.ofText "a"), .table .empty)])) =
      hashcode (.table (.ofEntries [(.str (.ofText "a"), .table .empty), (.int 1, .bool true)])) :=
  ((LuaHash.hashcode_order (K := Nat)).1 _ _ (LuaTable.reordered_of_perm (.swap _ _ _))).1

end AntServer
