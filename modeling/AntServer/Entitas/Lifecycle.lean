/-
# AntServer.Entitas.Lifecycle — the entities of a context and its pool

What each operation does to the context (`Did`), and from it what holds in every run: the context has the
enabled entities under their uids, each once, the pool has the others, each once and without components,
every uid is new when it is given, and the number of entities is the one that is counted (`registered`).
-/
import AntServer.Entitas.Context
import Mathlib.Logic.Relation

namespace AntServer.Entitas

open Lib

variable {N F V L : Type*} [DecidableEq N]

namespace Context

variable {on : Event N F V → L → Option L} {s s' : Context N F V L}

/-! ## One component -/

/-- What `dispatch` changes. -/
theorem dispatch_spec {o : Nat} {name : N} {value : Table F V}
    {f : Matcher N → Finset Nat → Finset Nat × Option Kind} (h : s.dispatch on o name value f = some s') :
    ∃ l, (s.calls o name value f).foldlM (fun l e => on e l) s.listeners = some l ∧
      s' = { s with groups := s.handled name f, listeners := l } := by
  obtain ⟨l, hl, rfl⟩ := Option.map_eq_some_iff.mp h
  exact ⟨l, hl, rfl⟩

/-- Every group that matches the component handles the entity. -/
theorem get_handled (s : Context N F V L) (name : N)
    (f : Matcher N → Finset Nat → Finset Nat × Option Kind) (m : Matcher N) :
    (s.handled name f).get m =
      (s.groups.get m).map fun group => if m.matchOne name then (f m group).1 else group := by
  unfold handled
  rw [Table.get_filterMap]
  cases s.groups.get m <;> rfl

/-! ## The functions of one group -/

/-- Of the events of a change, those of other groups leave the state of the functions of `m` as it is. -/
theorem foldlM_filterMap {m : Matcher N} (hon : ∀ e l, e.matcher ≠ m → on e l = some l)
    {g : Matcher N → Option (Event N F V)} (hg : ∀ m e, g m = some e → e.matcher = m) {ms : List (Matcher N)}
    (hnodup : ms.Nodup) (l : L) : (ms.filterMap g).foldlM (fun l e => on e l) l =
      match (if m ∈ ms then g m else none) with
      | some e => on e l
      | none => some l := by
  induction ms generalizing l with
  | nil => rfl
  | cons m' ms ih =>
    obtain ⟨hout, hnodup⟩ := List.nodup_cons.mp hnodup
    rw [List.filterMap_cons]
    by_cases hm : m = m'
    · rw [if_pos (hm ▸ List.mem_cons_self), hm]
      have hrest (l : L) : (ms.filterMap g).foldlM (fun l e => on e l) l = some l := by
        rw [ih hnodup, if_neg (hm ▸ hout)]
      cases hgm : g m' with
      | none => exact hrest l
      | some e =>
        show (on e l).bind _ = on e l
        cases on e l with
        | none => rfl
        | some l => exact hrest l
    · have hmem : (m ∈ m' :: ms) = (m ∈ ms) := by
        rw [List.mem_cons, eq_iff_iff, or_iff_right hm]
      simp only [hmem]
      cases hgm : g m' with
      | none => exact ih hnodup l
      | some e =>
        have hskip : on e l = some l := hon e l fun heq => hm (heq.symm.trans (hg m' e hgm))
        show (on e l).bind _ = _
        rw [hskip]
        exact ih hnodup l

/-- What a change does to the functions of the group of `m`. -/
theorem dispatch_listeners {m : Matcher N} (hon : ∀ e l, e.matcher ≠ m → on e l = some l) {o : Nat} {name : N}
    {value : Table F V} {f : Matcher N → Finset Nat → Finset Nat × Option Kind} {group : Finset Nat}
    (hg : s.groups.get m = some group) (h : s.dispatch on o name value f = some s') :
    (match (if m.matchOne name then (f m group).2 else none) with
      | some kind => on ⟨m, kind, o, name, value⟩ s.listeners
      | none => some s.listeners) = some s'.listeners := by
  obtain ⟨l, hl, rfl⟩ := dispatch_spec h
  unfold calls at hl
  rw [foldlM_filterMap hon ?_ s.groups.keys_nodup, if_pos (Table.mem_keys_of_get hg), hg] at hl
  · rw [Option.bind_some] at hl
    by_cases hone : m.matchOne name = true
    · rw [if_pos hone] at hl ⊢
      cases hk : (f m group).2 with
      | none =>
        rw [hk] at hl
        exact hl
      | some kind =>
        rw [hk] at hl
        exact hl
    · rw [if_neg hone] at hl ⊢
      exact hl
  · intro m' e he
    obtain ⟨g, -, he⟩ := Option.bind_eq_some_iff.mp he
    split at he
    · obtain ⟨kind, -, rfl⟩ := Option.map_eq_some_iff.mp he
      rfl
    · cases he

/-! ## The components of one entity -/

/-- A change of the components of one entity, and the component that is replaced, if one is. -/
inductive Changed (on : Event N F V → L → Option L) (o : Nat) :
    Option N → Context N F V L → Context N F V L → Prop
  | added {s s' : Context N F V L} {e : Entity N F V} {name : N} {value : Table F V}
      {caches : Table N (List (Table F V))} (he : s.objects[o]? = some e)
      (hname : e.components.get name = none)
      (h : ({ s with caches := caches } : Context N F V L).addComponent on o e name value = some s') :
      Changed on o none s s'
  | removed {s s' : Context N F V L} {e : Entity N F V} {name : N} {value : Table F V}
      (he : s.objects[o]? = some e) (hname : e.components.get name = some value)
      (h : s.removeComponent on o e name value = some s') : Changed on o none s s'
  | replaced {s s' : Context N F V L} {e : Entity N F V} {name : N} {old value : Table F V}
      (he : s.objects[o]? = some e) (hname : e.components.get name = some old)
      (h : s.replaceComponent on o e name value = some s') : Changed on o (some name) s s'

/-- A change of the components of an entity leaves everything else as it is. -/
structure Framed (o : Nat) (s s' : Context N F V L) : Prop where
  entities : s'.entities = s.entities
  pool : s'.pool = s.pool
  uuid : s'.uuid = s.uuid
  size : s'.size = s.size
  others : ∀ j, j ≠ o → s'.objects[j]? = s.objects[j]?
  object : ∃ e e', s.objects[o]? = some e ∧ s'.objects[o]? = some e' ∧ e'.uid = e.uid ∧
    e'.enabled = e.enabled

omit [DecidableEq N] in
/-- One entity is written back. -/
theorem getElem?_setEntity {o : Nat} {e : Entity N F V} (he : s.objects[o]? = some e) (e' : Entity N F V)
    (j : Nat) : (s.setEntity o e').objects[j]? = if j = o then some e' else s.objects[j]? := by
  obtain ⟨hlt, -⟩ := List.getElem?_eq_some_iff.mp he
  show (s.objects.set o e')[j]? = _
  rw [List.getElem?_set]
  by_cases hj : o = j
  · rw [if_pos hj, if_pos hlt, if_pos hj.symm]
  · rw [if_neg hj, if_neg (Ne.symm hj)]

omit [DecidableEq N] in
/-- An entity with the same number and the same flag is written back. -/
theorem framed_setEntity {o : Nat} {e : Entity N F V} (e' : Entity N F V) (he : s.objects[o]? = some e)
    (huid : e'.uid = e.uid) (henabled : e'.enabled = e.enabled)
    (hs : s'.objects = (s.setEntity o e').objects ∧ s'.entities = s.entities ∧ s'.pool = s.pool ∧
      s'.uuid = s.uuid ∧ s'.size = s.size) : Framed o s s' := by
  obtain ⟨hobjects, hentities, hpool, huuid, hsize⟩ := hs
  refine ⟨hentities, hpool, huuid, hsize, fun j hj => ?_, e, e', he, ?_, huid, henabled⟩
  · rw [hobjects, getElem?_setEntity he, if_neg hj]
  · rw [hobjects, getElem?_setEntity he, if_pos rfl]

/-- A change of the components of one entity. -/
theorem Changed.framed {o : Nat} {r : Option N} (h : Changed on o r s s') : Framed o s s' := by
  cases h with
  | @added _ _ e name value caches he _ h =>
    obtain ⟨l, -, rfl⟩ := dispatch_spec h
    exact framed_setEntity { e with components := e.components.set name value } he rfl rfl
      ⟨rfl, rfl, rfl, rfl, rfl⟩
  | @removed _ _ e name value he _ h =>
    obtain ⟨l, -, rfl⟩ := dispatch_spec h
    exact framed_setEntity { e with components := e.components.del name } he rfl rfl
      ⟨rfl, rfl, rfl, rfl, rfl⟩
  | @replaced _ _ e name old value he _ h =>
    obtain ⟨l, -, rfl⟩ := dispatch_spec h
    exact framed_setEntity { e with components := e.components.set name value } he rfl rfl
      ⟨rfl, rfl, rfl, rfl, rfl⟩

/-! ## All components -/

open Relation

/-- `remove_all` removes one component after the other, until there is none. -/
theorem removeNext_foldlM {o : Nat} {names : List N} {e : Entity N F V} (he : s.objects[o]? = some e)
    (h : names.foldlM (removeNext on o) s = some s') :
    ReflTransGen (Changed on o none) s s' ∧ ∃ e', s'.objects[o]? = some e' ∧ e'.uid = e.uid ∧
      e'.enabled = e.enabled ∧
      ∀ name, e'.components.get name = if name ∈ names then none else e.components.get name := by
  induction names generalizing s e with
  | nil =>
    obtain rfl := Option.some.inj h
    exact ⟨.refl, e, he, rfl, rfl, fun name => (if_neg List.not_mem_nil).symm⟩
  | cons name names ih =>
    obtain ⟨t, hnext, hrest⟩ := Option.bind_eq_some_iff.mp h
    unfold removeNext at hnext
    rw [he] at hnext
    cases hname : e.components.get name with
    | none =>
      simp only [Option.bind_some, hname] at hnext
      obtain rfl := Option.some.inj hnext
      obtain ⟨hrun, e', he', huid, henabled, hget⟩ := ih he hrest
      refine ⟨hrun, e', he', huid, henabled, fun n => ?_⟩
      rw [hget]
      by_cases hn : n = name
      · subst hn
        simp [hname]
      · simp [hn]
    | some value =>
      simp only [Option.bind_some, hname] at hnext
      have hchanged : Changed on o none s t := .removed he hname hnext
      have ht : t.objects[o]? = some { e with components := e.components.del name } := by
        obtain ⟨l, -, rfl⟩ := dispatch_spec hnext
        exact (getElem?_setEntity he _ o).trans (if_pos rfl)
      obtain ⟨hrun, e', he', huid, henabled, hget⟩ := ih ht hrest
      refine ⟨.head hchanged hrun, e', he', huid, henabled, fun n => ?_⟩
      rw [hget]
      show (if n ∈ names then none else (e.components.del name).get n) = _
      rw [Table.get_del]
      by_cases hn : n = name
      · subst hn
        simp
      · simp [hn]

/-! ## One action -/

/-- The action gives new values to a component that an entity has. -/
def Replaces (s : Context N F V L) (name : N) : Action N V → Prop
  | .replace o n args => n = name ∧ (∃ e value, s.objects[o]? = some e ∧ e.components.get name = some value) ∧
      ∃ v rest, args = some v :: rest
  | _ => False

/-- What an action does. -/
inductive Did (on : Event N F V → L → Option L) (s : Context N F V L) :
    Action N V → Context N F V L → Prop
  | createEntity : Did on s .createEntity s.createEntity
  | getGroup (m : Matcher N) : Did on s (.getGroup m) (s.getGroup m)
  | changed {a : Action N V} {o : Nat} {r : Option N} {e : Entity N F V} {s' : Context N F V L}
      (he : s.objects[o]? = some e) (henabled : e.enabled = true) (h : Changed on o r s s')
      (hr : ∀ name, r = some name ↔ Replaces s name a) : Did on s a s'
  | destroyed {o uid : Nat} {e e' : Entity N F V} {t : Context N F V L} (he : s.objects[o]? = some e)
      (huid : e.uid = uid) (hentities : (s.entities.get uid).isSome)
      (hrun : ReflTransGen (Changed on o none) (s.setEntity o { e with enabled := false }) t)
      (he' : t.objects[o]? = some e') (huid' : e'.uid = uid) (henabled' : e'.enabled = false)
      (hempty : ∀ name, e'.components.get name = none) :
      Did on s (.destroyEntity o)
        { t with entities := t.entities.del uid, pool := o :: t.pool, size := t.size - 1 }

/-- `destroy_entity` when it returns. -/
theorem did_destroyEntity {o : Nat} (h : s.destroyEntity on o = some s') :
    Did on s (.destroyEntity o) s' := by
  obtain ⟨e, he, h⟩ := Option.bind_eq_some_iff.mp h
  by_cases hnone : (s.entities.get e.uid).isNone
  · rw [if_pos hnone] at h
    cases h
  · rw [if_neg hnone] at h
    obtain ⟨t, ht, rfl⟩ := Option.map_eq_some_iff.mp h
    have hset : (s.setEntity o { e with enabled := false }).objects[o]? = some { e with enabled := false } :=
      (getElem?_setEntity he _ o).trans (if_pos rfl)
    unfold removeAll at ht
    rw [hset] at ht
    obtain ⟨hrun, e', he', huid', henabled', hget⟩ := removeNext_foldlM hset ht
    refine .destroyed he rfl ?_ hrun he' huid' henabled' fun name => ?_
    · simpa [Option.isNone_iff_eq_none, Option.isSome_iff_ne_none] using hnone
    · rw [hget]
      by_cases hname : name ∈ e.components.keys
      · exact if_pos hname
      · rw [if_neg hname]
        rw [Table.mem_keys, Bool.not_eq_true, Option.isSome_eq_false_iff, Option.isNone_iff_eq_none] at hname
        exact hname

section Step

variable [DecidableEq F] {keys : N → List F}

/-- `add` when it returns: the entity is enabled. -/
theorem changed_add {o : Nat} {name : N} {args : List (Option V)} (h : s.add on keys o name args = some s') :
    ∃ e, s.objects[o]? = some e ∧ e.enabled = true ∧ Changed on o none s s' := by
  obtain ⟨e, he, h⟩ := Option.bind_eq_some_iff.mp h
  by_cases henabled : e.enabled = true
  · rw [henabled] at h
    change (if e.has name then none else _) = some s' at h
    by_cases hname : e.has name = true
    · rw [if_pos hname] at h
      cases h
    · rw [if_neg hname] at h
      refine ⟨e, he, henabled, .added he ?_ h⟩
      unfold Entity.has at hname
      rwa [Bool.not_eq_true, Option.isSome_eq_false_iff, Option.isNone_iff_eq_none] at hname
  · rw [Bool.not_eq_true] at henabled
    rw [henabled] at h
    cases h

omit [DecidableEq F] in
/-- `remove` when it returns. -/
theorem changed_remove {o : Nat} {name : N} (h : s.remove on o name = some s') :
    ∃ e, s.objects[o]? = some e ∧ e.enabled = true ∧ Changed on o none s s' := by
  obtain ⟨e, he, h⟩ := Option.bind_eq_some_iff.mp h
  by_cases henabled : e.enabled = true
  · rw [henabled] at h
    obtain ⟨value, hname, h⟩ := Option.bind_eq_some_iff.mp h
    exact ⟨e, he, henabled, .removed he hname h⟩
  · rw [Bool.not_eq_true] at henabled
    rw [henabled] at h
    cases h

/-- `replace` when it returns: the groups are told of a replacement or of an addition. -/
theorem changed_replace {o : Nat} {name : N} {args : List (Option V)}
    (h : s.replace on keys o name args = some s') :
    ∃ e r, s.objects[o]? = some e ∧ e.enabled = true ∧ Changed on o r s s' ∧
      ∀ n, r = some n ↔ Replaces s n (.replace o name args) := by
  obtain ⟨e, he, h⟩ := Option.bind_eq_some_iff.mp h
  by_cases henabled : e.enabled = true
  · simp only [henabled, Bool.not_true, Bool.false_eq_true, if_false] at h
    cases hname : e.components.get name with
    | none =>
      simp only [hname] at h
      obtain ⟨e', he', henabled', hc⟩ := changed_add h
      refine ⟨e', none, he', henabled', hc, fun n => iff_of_false (by rintro ⟨⟩) ?_⟩
      rintro ⟨rfl, ⟨x, value, hx, hvalue⟩, -⟩
      obtain rfl := Option.some.inj (he.symm.trans hx)
      rw [hname] at hvalue
      cases hvalue
    | some value =>
      simp only [hname] at h
      cases args with
      | nil =>
        refine ⟨e, none, he, henabled, .removed he hname h, fun n => iff_of_false (by rintro ⟨⟩) ?_⟩
        rintro ⟨-, -, v, rest, ⟨⟩⟩
      | cons arg rest =>
        cases arg with
        | none =>
          refine ⟨e, none, he, henabled, .removed he hname h, fun n => iff_of_false (by rintro ⟨⟩) ?_⟩
          rintro ⟨-, -, v, rest, ⟨⟩⟩
        | some v =>
          refine ⟨e, some name, he, henabled, .replaced he hname h, fun n => ⟨?_, fun hr => congrArg some hr.1⟩⟩
          rintro ⟨⟩
          exact ⟨rfl, ⟨e, value, he, hname⟩, v, rest, rfl⟩
  · rw [Bool.not_eq_true] at henabled
    rw [henabled] at h
    cases h

/-- Any action. -/
theorem step_did {a : Action N V} (h : step on keys s a = some s') : Did on s a s' := by
  cases a with
  | createEntity =>
    obtain rfl := Option.some.inj h
    exact .createEntity
  | destroyEntity o => exact did_destroyEntity h
  | getGroup m =>
    obtain rfl := Option.some.inj h
    exact .getGroup m
  | add o name args =>
    obtain ⟨e, he, henabled, hc⟩ := changed_add h
    exact .changed he henabled hc fun n => iff_of_false (by rintro ⟨⟩) id
  | remove o name =>
    obtain ⟨e, he, henabled, hc⟩ := changed_remove h
    exact .changed he henabled hc fun n => iff_of_false (by rintro ⟨⟩) id
  | replace o name args =>
    obtain ⟨e, r, he, henabled, hc, hr⟩ := changed_replace h
    exact .changed he henabled hc hr

end Step

/-! ## Every run -/

/-- The entities of the context and of its pool. -/
structure Registered (s : Context N F V L) : Prop where
  entities : ∀ uid o : Nat, s.entities.get uid = some o ↔
    ∃ e : Entity N F V, s.objects[o]? = some e ∧ e.enabled = true ∧ e.uid = uid
  pool : ∀ o : Nat, o ∈ s.pool ↔ ∃ e : Entity N F V, s.objects[o]? = some e ∧ e.enabled = false
  nodup : s.pool.Nodup
  empty : ∀ (o : Nat) (e : Entity N F V), s.objects[o]? = some e → e.enabled = false →
    ∀ name, e.components.get name = none
  uid_lt : ∀ (o : Nat) (e : Entity N F V), s.objects[o]? = some e → e.uid < s.uuid
  uid_inj : ∀ (o o' : Nat) (e e' : Entity N F V), s.objects[o]? = some e → s.objects[o']? = some e' → e.uid = e'.uid → o = o'
  size : s.size = s.entities.size

/-- A new context has no entities. -/
theorem registered_new (l : L) : Registered (new l : Context N F V L) := by
  have hnone (o : Nat) (e : Entity N F V) : ¬ (new l : Context N F V L).objects[o]? = some e := by
    rintro ⟨⟩
  refine ⟨fun uid o => ?_, fun o => ?_, List.nodup_nil, ?_, ?_, ?_, rfl⟩
  · refine ⟨by rintro ⟨⟩, ?_⟩
    rintro ⟨e, he, -⟩
    exact absurd he (hnone o e)
  · refine ⟨by rintro ⟨⟩, ?_⟩
    rintro ⟨e, he, -⟩
    exact absurd he (hnone o e)
  · intro o e he
    exact absurd he (hnone o e)
  · intro o e he
    exact absurd he (hnone o e)
  · intro o o' e e' he
    exact absurd he (hnone o e)

/-- `create_entity` enables one entity, of the pool or a new one, under the next uid. -/
theorem createEntity_spec (h : Registered s) :
    ∃ (o : Nat) (e : Entity N F V), s.createEntity.entities = s.entities.set s.uuid o ∧ e.uid = s.uuid ∧ e.enabled = true ∧
      (∀ name, e.components.get name = none) ∧
      (∀ e', s.objects[o]? = some e' → e'.enabled = false) ∧
      (∀ j, s.createEntity.objects[j]? = if j = o then some e else s.objects[j]?) ∧
      (∀ j, j ∈ s.createEntity.pool ↔ j ∈ s.pool ∧ j ≠ o) ∧ s.createEntity.pool.Nodup := by
  cases hpool : s.pool with
  | nil =>
    refine ⟨s.objects.length, ⟨s.uuid, true, .empty⟩, ?_, rfl, rfl, fun name => Table.get_empty name, ?_, ?_, ?_, ?_⟩
    · unfold createEntity
      rw [hpool]
      rfl
    · intro e' he'
      rw [List.getElem?_eq_none (Nat.le_refl _)] at he'
      cases he'
    · intro j
      unfold createEntity
      rw [hpool]
      show (s.objects ++ [_])[j]? = _
      rcases Nat.lt_trichotomy j s.objects.length with hj | hj | hj
      · rw [List.getElem?_append_left hj, if_neg (Nat.ne_of_lt hj)]
      · rw [if_pos hj, hj, List.getElem?_concat_length]
        rfl
      · rw [if_neg (Nat.ne_of_gt hj), List.getElem?_eq_none (Nat.le_of_lt hj), List.getElem?_eq_none]
        rw [List.length_append, List.length_singleton]
        exact hj
    · intro j
      unfold createEntity
      rw [hpool]
      simp
    · unfold createEntity
      rw [hpool]
      exact List.nodup_nil
  | cons o pool =>
    obtain ⟨e, he, henabled⟩ := (h.pool o).mp (hpool ▸ List.mem_cons_self)
    have hnodup := h.nodup
    rw [hpool, List.nodup_cons] at hnodup
    refine ⟨o, e.activate s.uuid, ?_, rfl, rfl, h.empty o e he henabled, ?_, ?_, ?_, ?_⟩
    · unfold createEntity
      rw [hpool]
      rfl
    · intro e' he'
      obtain rfl := Option.some.inj (he.symm.trans he')
      exact henabled
    · intro j
      unfold createEntity
      rw [hpool]
      show (s.objects.modify o _)[j]? = _
      rw [List.getElem?_modify]
      by_cases hj : j = o
      · rw [if_pos hj, hj, he]
        simp
      · rw [if_neg hj]
        cases s.objects[j]? with
        | none => rfl
        | some x => simp [Ne.symm hj]
    · intro j
      unfold createEntity
      rw [hpool]
      show j ∈ pool ↔ _
      rw [List.mem_cons]
      refine ⟨fun hj => ⟨.inr hj, ?_⟩, fun hj => hj.1.resolve_left hj.2⟩
      rintro rfl
      exact hnodup.1 hj
    · unfold createEntity
      rw [hpool]
      exact hnodup.2

/-- A created entity has a number of its own. -/
theorem Registered.createEntity (h : Registered s) : Registered s.createEntity := by
  obtain ⟨o, e, hentities, huid, henabled, hempty, hold, hobjects, hpool, hnodup⟩ := createEntity_spec h
  have huuid : s.createEntity.uuid = s.uuid + 1 := rfl
  -- the uid is the one of no other object
  have hfresh (j : Nat) (x : Entity N F V) (hx : s.objects[j]? = some x) : x.uid ≠ s.uuid :=
    Nat.ne_of_lt (h.uid_lt j x hx)
  have hnew : s.entities.get s.uuid = none := by
    by_contra hsome
    obtain ⟨j, hj⟩ := Option.ne_none_iff_exists'.mp hsome
    obtain ⟨x, hx, -, hxuid⟩ := (h.entities _ _).mp hj
    exact hfresh j x hx hxuid
  refine ⟨fun uid j => ?_, fun j => ?_, hnodup, fun j x hx hoff => ?_, fun j x hx => ?_, ?_, ?_⟩
  · rw [hentities, Table.get_set, hobjects]
    by_cases hj : j = o
    · subst hj
      rw [if_pos rfl]
      by_cases hu : uid = s.uuid
      · rw [if_pos hu]
        exact iff_of_true rfl ⟨e, rfl, henabled, huid.trans hu.symm⟩
      · rw [if_neg hu, h.entities]
        refine iff_of_false ?_ ?_
        · rintro ⟨x, hx, hon, -⟩
          rw [hold x hx] at hon
          cases hon
        · rintro ⟨x, hx, -, hxuid⟩
          obtain rfl := Option.some.inj hx
          exact hu (hxuid.symm.trans huid)
    · rw [if_neg hj]
      by_cases hu : uid = s.uuid
      · rw [if_pos hu]
        refine iff_of_false (fun heq => hj (Option.some.inj heq).symm) ?_
        rintro ⟨x, hx, -, hxuid⟩
        exact hfresh j x hx (hxuid.trans hu)
      · rw [if_neg hu]
        exact h.entities uid j
  · rw [hpool, hobjects]
    by_cases hj : j = o
    · rw [if_pos hj]
      refine iff_of_false (fun hc => hc.2 hj) ?_
      rintro ⟨x, hx, hoff⟩
      obtain rfl := Option.some.inj hx
      rw [henabled] at hoff
      cases hoff
    · rw [if_neg hj, and_iff_left hj]
      exact h.pool j
  · rw [hobjects] at hx
    split at hx
    · obtain rfl := Option.some.inj hx
      exact hempty
    · exact h.empty j x hx hoff
  · rw [hobjects] at hx
    rw [huuid]
    split at hx
    · obtain rfl := Option.some.inj hx
      omega
    · have := h.uid_lt j x hx
      omega
  · intro j j' x x' hx hx' heq
    rw [hobjects] at hx hx'
    by_cases hj : j = o
    · by_cases hj' : j' = o
      · rw [hj, hj']
      · rw [if_pos hj] at hx
        rw [if_neg hj'] at hx'
        obtain rfl := Option.some.inj hx
        exact absurd (heq.symm.trans huid) (hfresh j' x' hx')
    · rw [if_neg hj] at hx
      by_cases hj' : j' = o
      · rw [if_pos hj'] at hx'
        obtain rfl := Option.some.inj hx'
        exact absurd (heq.trans huid) (hfresh j x hx)
      · rw [if_neg hj'] at hx'
        exact h.uid_inj j j' x x' hx hx' heq
  · rw [hentities, Table.size_set_new o hnew]
    show s.size + 1 = _
    have hsize := h.size
    omega

omit [DecidableEq N] in
/-- The uid of an entity and whether it is enabled do not depend on its components. -/
theorem Framed.exists_iff {o : Nat} (h : Framed o s s') (j uid : Nat) (b : Bool) :
    (∃ e : Entity N F V, s'.objects[j]? = some e ∧ e.enabled = b ∧ e.uid = uid) ↔
      ∃ e : Entity N F V, s.objects[j]? = some e ∧ e.enabled = b ∧ e.uid = uid := by
  by_cases hj : j = o
  · obtain ⟨e, e', he, he', huid, henabled⟩ := h.object
    rw [hj, he, he']
    constructor
    · rintro ⟨x, hx, hon, hu⟩
      obtain rfl := Option.some.inj hx
      exact ⟨e, rfl, henabled.symm.trans hon, huid.symm.trans hu⟩
    · rintro ⟨x, hx, hon, hu⟩
      obtain rfl := Option.some.inj hx
      exact ⟨e', rfl, henabled.trans hon, huid.trans hu⟩
  · rw [h.others j hj]

omit [DecidableEq N] in
/-- The numbers are the same. -/
theorem Framed.uid {o : Nat} (h : Framed o s s') {j : Nat} {x : Entity N F V}
    (hx : s'.objects[j]? = some x) : ∃ y : Entity N F V, s.objects[j]? = some y ∧ y.uid = x.uid := by
  obtain ⟨y, hy, -, huid⟩ := (h.exists_iff j x.uid x.enabled).mp ⟨x, hx, rfl, rfl⟩
  exact ⟨y, hy, huid⟩

omit [DecidableEq N] in
/-- Two changes at one entity. -/
theorem Framed.trans {o : Nat} {t : Context N F V L} (h : Framed o s t) (h' : Framed o t s') :
    Framed o s s' := by
  obtain ⟨e, e1, he, he1, huid, henabled⟩ := h.object
  obtain ⟨e2, e', he2, he', huid', henabled'⟩ := h'.object
  obtain rfl := Option.some.inj (he1.symm.trans he2)
  exact ⟨h'.entities.trans h.entities, h'.pool.trans h.pool, h'.uuid.trans h.uuid, h'.size.trans h.size,
    fun j hj => (h'.others j hj).trans (h.others j hj), e, e', he, he', huid'.trans huid,
    henabled'.trans henabled⟩

/-- A row of changes at one entity. -/
theorem framed_of_run {o : Nat} {e : Entity N F V} (he : s.objects[o]? = some e)
    (h : ReflTransGen (Changed on o none) s s') : Framed o s s' := by
  induction h with
  | refl => exact ⟨rfl, rfl, rfl, rfl, fun _ _ => rfl, e, e, he, he, rfl, rfl⟩
  | tail _ hstep ih => exact ih.trans hstep.framed

/-- A change at an enabled entity. -/
theorem Registered.changed {o : Nat} {e : Entity N F V} (h : Registered s) (he : s.objects[o]? = some e)
    (henabled : e.enabled = true) {r : Option N} (hc : Changed on o r s s') : Registered s' := by
  have hf := hc.framed
  refine ⟨fun uid j => ?_, fun j => ?_, hf.pool ▸ h.nodup, fun j x hx hoff => ?_, fun j x hx => ?_, ?_, ?_⟩
  · rw [hf.entities, hf.exists_iff]
    exact h.entities uid j
  · rw [hf.pool, h.pool]
    constructor
    · rintro ⟨x, hx, hoff⟩
      obtain ⟨y, hy, hyoff, -⟩ := (hf.exists_iff j x.uid false).mpr ⟨x, hx, hoff, rfl⟩
      exact ⟨y, hy, hyoff⟩
    · rintro ⟨x, hx, hoff⟩
      obtain ⟨y, hy, hyoff, -⟩ := (hf.exists_iff j x.uid false).mp ⟨x, hx, hoff, rfl⟩
      exact ⟨y, hy, hyoff⟩
  · -- the entity that changed is enabled
    have hj : j ≠ o := by
      rintro rfl
      obtain ⟨y, hy, hyoff, -⟩ := (hf.exists_iff j x.uid false).mp ⟨x, hx, hoff, rfl⟩
      obtain rfl := Option.some.inj (he.symm.trans hy)
      rw [henabled] at hyoff
      cases hyoff
    rw [hf.others j hj] at hx
    exact h.empty j x hx hoff
  · obtain ⟨y, hy, huid⟩ := hf.uid hx
    rw [hf.uuid, ← huid]
    exact h.uid_lt j y hy
  · intro j j' x x' hx hx' heq
    obtain ⟨y, hy, huid⟩ := hf.uid hx
    obtain ⟨y', hy', huid'⟩ := hf.uid hx'
    exact h.uid_inj j j' y y' hy hy' (huid.trans (heq.trans huid'.symm))
  · rw [hf.size, hf.entities]
    exact h.size

/-- An entity that is destroyed goes to the pool, when its components are gone. -/
theorem Registered.destroyed {o uid : Nat} {e e' : Entity N F V} {t : Context N F V L} (h : Registered s)
    (he : s.objects[o]? = some e) (huid : e.uid = uid) (hentities : (s.entities.get uid).isSome)
    (hrun : ReflTransGen (Changed on o none) (s.setEntity o { e with enabled := false }) t)
    (he' : t.objects[o]? = some e') (huid' : e'.uid = uid) (henabled' : e'.enabled = false)
    (hempty : ∀ name, e'.components.get name = none) :
    Registered { t with entities := t.entities.del uid, pool := o :: t.pool, size := t.size - 1 } := by
  have hset : (s.setEntity o { e with enabled := false }).objects[o]? = some { e with enabled := false } :=
    (getElem?_setEntity he _ o).trans (if_pos rfl)
  have hf := framed_of_run hset hrun
  have hothers (j : Nat) (hj : j ≠ o) : t.objects[j]? = s.objects[j]? :=
    (hf.others j hj).trans ((getElem?_setEntity he _ j).trans (if_neg hj))
  have hpool : t.pool = s.pool := hf.pool
  -- the uid is the one of this entity, which is enabled
  obtain ⟨o', ho'⟩ := Option.isSome_iff_exists.mp hentities
  obtain ⟨x, hx, hon, hxuid⟩ := (h.entities uid o').mp ho'
  obtain rfl := h.uid_inj o' o x e hx he (hxuid.trans huid.symm)
  obtain rfl := Option.some.inj (hx.symm.trans he)
  have hout : o' ∉ s.pool := by
    intro hmem
    obtain ⟨y, hy, hoff⟩ := (h.pool o').mp hmem
    obtain rfl := Option.some.inj (hx.symm.trans hy)
    rw [hon] at hoff
    cases hoff
  refine ⟨fun u j => ?_, fun j => ?_, ?_, fun j y hy hoff => ?_, fun j y hy => ?_, ?_, ?_⟩
  · show (t.entities.del uid).get u = some j ↔ _
    rw [hf.entities, Table.get_del]
    show (if u = uid then none else s.entities.get u) = some j ↔ _
    by_cases hj : j = o'
    · subst hj
      show _ ↔ ∃ e, t.objects[j]? = some e ∧ _
      rw [he']
      refine iff_of_false ?_ ?_
      · split
        · rintro ⟨⟩
        · rename_i hu
          intro hget
          obtain ⟨y, hy, -, hyuid⟩ := (h.entities u j).mp hget
          obtain rfl := Option.some.inj (hx.symm.trans hy)
          exact hu (hyuid.symm.trans hxuid)
      · rintro ⟨y, hy, hyon, -⟩
        obtain rfl := Option.some.inj hy
        rw [henabled'] at hyon
        cases hyon
    · show _ ↔ ∃ e, t.objects[j]? = some e ∧ _
      rw [hothers j hj]
      by_cases hu : u = uid
      · rw [if_pos hu]
        refine iff_of_false (by rintro ⟨⟩) ?_
        rintro ⟨y, hy, -, hyuid⟩
        exact hj (h.uid_inj j o' y x hy hx (hyuid.trans (hu.trans hxuid.symm)))
      · rw [if_neg hu]
        exact h.entities u j
  · show j ∈ o' :: t.pool ↔ ∃ e, t.objects[j]? = some e ∧ _
    rw [List.mem_cons, hpool]
    by_cases hj : j = o'
    · rw [hj, he']
      exact iff_of_true (.inl rfl) ⟨e', rfl, henabled'⟩
    · rw [or_iff_right hj, hothers j hj]
      exact h.pool j
  · show (o' :: t.pool).Nodup
    rw [hpool]
    exact List.nodup_cons.mpr ⟨hout, h.nodup⟩
  · by_cases hj : j = o'
    · subst hj
      obtain rfl := Option.some.inj (he'.symm.trans hy)
      exact hempty
    · exact h.empty j y ((hothers j hj).symm.trans hy) hoff
  · show y.uid < t.uuid
    rw [hf.uuid]
    by_cases hj : j = o'
    · subst hj
      obtain rfl := Option.some.inj (he'.symm.trans hy)
      rw [huid', ← hxuid]
      exact h.uid_lt j x hx
    · exact h.uid_lt j y ((hothers j hj).symm.trans hy)
  · intro j j' y y' hy hy' heq
    have hold (i : Nat) (z : Entity N F V) (hz : t.objects[i]? = some z) :
        ∃ w : Entity N F V, s.objects[i]? = some w ∧ w.uid = z.uid := by
      by_cases hi : i = o'
      · subst hi
        obtain rfl := Option.some.inj (he'.symm.trans hz)
        exact ⟨x, hx, hxuid.trans huid'.symm⟩
      · exact ⟨z, (hothers i hi).symm.trans hz, rfl⟩
    obtain ⟨w, hw, hwuid⟩ := hold j y hy
    obtain ⟨w', hw', hwuid'⟩ := hold j' y' hy'
    exact h.uid_inj j j' w w' hw hw' (hwuid.trans (heq.trans hwuid'.symm))
  · show t.size - 1 = ((t.entities.del uid).size : Int)
    have hsize := h.size
    have hdel := Table.size_del ho'
    rw [hf.size, hf.entities]
    show s.size - 1 = ((s.entities.del uid).size : Int)
    omega

/-- `get_group` changes the groups only. -/
theorem getGroup_frame (s : Context N F V L) (m : Matcher N) :
    ∃ groups, s.getGroup m = { s with groups := groups } := by
  unfold getGroup
  split
  · exact ⟨s.groups, rfl⟩
  · exact ⟨_, rfl⟩

/-- Any action. -/
theorem Registered.did {a : Action N V} (h : Registered s) (hd : Did on s a s') : Registered s' := by
  cases hd with
  | createEntity => exact h.createEntity
  | getGroup m =>
    obtain ⟨groups, hg⟩ := getGroup_frame s m
    rw [hg]
    exact ⟨h.entities, h.pool, h.nodup, h.empty, h.uid_lt, h.uid_inj, h.size⟩
  | changed he henabled hc _ => exact h.changed he henabled hc
  | destroyed he huid hentities hrun he' huid' henabled' hempty =>
    exact h.destroyed he huid hentities hrun he' huid' henabled' hempty

/-- In every run: an entity is in the context, under its uid, as long as it is enabled; the others are in
the pool, each once and without components; no two entities have one uid, and the next uid is new; and the
number that is counted is the number of the entities of the context. -/
theorem registered [DecidableEq F] {keys : N → List F} (h : (context on keys).Reach s) : Registered s := by
  refine h.invariant Registered ?_ ?_
  · rintro s ⟨l, rfl⟩
    exact registered_new l
  · intro s a s' _ hi _ hs
    exact hi.did (step_did hs)

/-- An entity that is made, destroyed, and made again. -/
theorem registered_recycled : ∃ s : Context Nat Nat Nat Unit,
    (context (fun _ _ => some ()) fun _ => [0]).exec (.new ())
      [.createEntity, .add 0 1 [some 5], .destroyEntity 0, .createEntity] = some s ∧
    s.objects.length = 1 ∧ s.uuid = 3 ∧ Registered s := by
  have h0 : (context (fun (_ : Event Nat Nat Nat) (_ : Unit) => some ()) fun _ => [0]).Reach (.new ()) :=
    .start ⟨(), rfl⟩
  have he : (context (fun (_ : Event Nat Nat Nat) (_ : Unit) => some ()) fun _ => [0]).exec (.new ())
    [.createEntity, .add 0 1 [some 5], .destroyEntity 0, .createEntity] = some _ := rfl
  exact ⟨_, he, rfl, rfl, registered (h0.exec he)⟩

end Context

end AntServer.Entitas
