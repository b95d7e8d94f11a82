/-
# AntServer.Entitas.PrimaryEntityIndex — the entity of a key, and what becomes of it

An index of the entities of a group by fields of a component, where one entity has one key. Its functions
are in the delegates of the group: an entity is put in when it comes into the group, and it is taken out
when it leaves. When its component is replaced it is put in once more, under the new key, and not taken out
under the old one.

The results are about an index by one field, of the group that asks for the indexed component and for
nothing else (`byField`). The index is made in a context without entities, where `_index_entities` finds
nothing to put in; that function is not modelled. An entity can come into a group that asks for two
components with the other one, and then `_on_entity_added` does not put it in at all.

So the index has the entity of every key, and of no other, as long as no component that an entity has is
replaced, and from then on it never is right again (`index_right_iff`), whatever comes and goes: an error
is raised, or a key is left that is no entity's.
-/
import AntServer.Entitas.Groups
import AntServer.Lib.UniqueIndex

namespace AntServer.Entitas

open Lib

variable {N F V : Type*} [DecidableEq N] [DecidableEq F] [DecidableEq V]

/-! ## The functions of the index -/

/-- The entities of the group of `matcher`, by fields of the components `compType`. -/
structure PrimaryEntityIndex (N F : Type*) where
  matcher : Matcher N
  compType : N
  fields : List F

namespace PrimaryEntityIndex

/-- `_add_entity`; none when an error is raised. A table has nothing under `nil`. -/
def addEntity (o : Nat) (key : Option V) (indexes : Table V Nat) : Option (Table V Nat) :=
  key.bind fun key => match indexes.get key with
    | some _ => none
    | none => some (indexes.set key o)

/-- `_remove_entity`. -/
def removeEntity (key : Option V) (indexes : Table V Nat) : Option (Table V Nat) :=
  key.map fun key => indexes.del key

/-- `_on_entity_added`, which is in two delegates of the group, and `_on_entity_removed`. -/
def on (index : PrimaryEntityIndex N F) (e : Event N F V) (indexes : Table V Nat) : Option (Table V Nat) :=
  if e.matcher ≠ index.matcher then some indexes
  else if e.name ≠ index.compType then some indexes
  else match e.kind with
    | .removed => index.fields.foldlM (fun t field => removeEntity (e.value.get field) t) indexes
    | .added | .updated => index.fields.foldlM (fun t field => addEntity e.entity (e.value.get field) t) indexes

/-- A context with the index from its making on, when it has no entities. -/
def indexed (index : PrimaryEntityIndex N F) (keys : N → List F) :
    Machine (Context N F V (Table V Nat)) (Action N V) where
  start s := s = (Context.new .empty).getGroup index.matcher
  step := step index.on keys

/-- The index by one field of the components of a type, of all entities that have one. -/
def byField (compType : N) (field : F) : PrimaryEntityIndex N F :=
  ⟨⟨some [compType], none, none⟩, compType, [field]⟩

/-! ## One event -/

theorem on_of_ne (index : PrimaryEntityIndex N F) (e : Event N F V) (t : Table V Nat)
    (h : e.matcher ≠ index.matcher) : index.on e t = some t := if_pos h

variable {compType : N} {field : F} {s s' : Context N F V (Table V Nat)}

omit [DecidableEq F] [DecidableEq V] in
theorem matchOne_byField (name : N) :
    ((byField compType field).matcher.matchOne name = true) ↔ name = compType := by
  simp [byField, Matcher.matchOne]

omit [DecidableEq F] [DecidableEq V] in
/-- The matcher of the index matches the entities with the component. -/
theorem matches_byField (S : Finset N) : (byField compType field).matcher.Matches S ↔ compType ∈ S := by
  rw [Matcher.matches_iff]
  simp [byField]

omit [DecidableEq N] [DecidableEq F] [DecidableEq V] in
theorem steady_byField : (byField compType field).matcher.Steady := .inr ⟨rfl, trivial⟩

/-! ## The keys of the entities -/

/-- The key of an entity. -/
def keyOf (compType : N) (field : F) (e : Entity N F V) : Option V :=
  (e.components.get compType).bind fun value => value.get field

/-- The keys of the entities, and the index. -/
def view (compType : N) (field : F) (s : Context N F V (Table V Nat)) : UniqueIndex.State Nat V :=
  ⟨fun o => (s.objects[o]?).bind (keyOf compType field), s.listeners.get⟩

variable {o : Nat} {e : Entity N F V} {name : N} {value : Table F V} {group : Finset Nat}

omit [DecidableEq V] in
theorem key_setEntity {e' : Entity N F V} {s' : Context N F V (Table V Nat)} (he : s.objects[o]? = some e)
    (hs : s'.objects = (s.setEntity o e').objects) :
    (fun j => (s'.objects[j]?).bind (keyOf compType field)) =
      Function.update (fun j => (s.objects[j]?).bind (keyOf compType field)) o (keyOf compType field e') := by
  funext j
  rw [hs, Context.getElem?_setEntity he, Function.update_apply]
  split
  · rfl
  · rfl

/-- Another component than the one of the index comes, goes or is replaced. -/
theorem view_of_ne (e' : Entity N F V) (he : s.objects[o]? = some e)
    (hs : s'.objects = (s.setEntity o e').objects)
    (hsame : e'.components.get compType = e.components.get compType) (hl : s'.listeners = s.listeners) :
    view compType field s' = view compType field s := by
  refine UniqueIndex.State.ext ?_ (congrArg Table.get hl)
  have hkey : keyOf compType field e' = (s.objects[o]?).bind (keyOf compType field) := by
    rw [he]
    exact congrArg (Option.bind · _) hsame
  show (fun j => (s'.objects[j]?).bind (keyOf compType field)) = _
  rw [key_setEntity he hs, hkey]
  exact Function.update_eq_self o _

theorem view_put {e' : Entity N F V} {k : V} (he : s.objects[o]? = some e)
    (hs : s'.objects = (s.setEntity o e').objects) (hkey : keyOf compType field e' = some k)
    (hl : s'.listeners = s.listeners.set k o) :
    view compType field s' = (view compType field s).put o k := by
  refine UniqueIndex.State.ext ?_ (funext fun k' => ?_)
  · show (fun j => (s'.objects[j]?).bind (keyOf compType field)) = _
    rw [key_setEntity he hs, hkey]
    rfl
  · show s'.listeners.get k' = _
    rw [hl, Table.get_set, UniqueIndex.index_put]
    rfl

theorem view_take {e' : Entity N F V} {k : V} (he : s.objects[o]? = some e)
    (hs : s'.objects = (s.setEntity o e').objects) (hkey : keyOf compType field e' = none)
    (hl : s'.listeners = s.listeners.del k) :
    view compType field s' = (view compType field s).take o k := by
  refine UniqueIndex.State.ext ?_ (funext fun k' => ?_)
  · show (fun j => (s'.objects[j]?).bind (keyOf compType field)) = _
    rw [key_setEntity he hs, hkey]
    rfl
  · show s'.listeners.get k' = _
    rw [hl, Table.get_del, UniqueIndex.index_take]
    rfl

/-! ## What a change does to the index -/

theorem on_byField (kind : Kind) (o : Nat) (value : Table F V) (t : Table V Nat) :
    (byField compType field).on ⟨(byField compType field).matcher, kind, o, compType, value⟩ t =
      match kind with
      | .removed => removeEntity (value.get field) t
      | .added | .updated => addEntity o (value.get field) t := by
  rw [on, if_neg (not_not_intro rfl)]
  show (if compType ≠ compType then _ else _) = _
  rw [if_neg (not_not_intro rfl)]
  cases kind with
  | removed => exact bind_pure _
  | added | updated => exact bind_pure _

theorem addEntity_eq_some {key : Option V} {t t' : Table V Nat} (h : addEntity o key t = some t') :
    ∃ k, key = some k ∧ t.get k = none ∧ t' = t.set k o := by
  obtain ⟨k, rfl, hset⟩ := Option.bind_eq_some_iff.mp h
  cases hk : t.get k with
  | some o' =>
    rw [hk] at hset
    cases hset
  | none =>
    rw [hk] at hset
    exact ⟨k, rfl, hk, (Option.some.inj hset).symm⟩

/-- A change that does not concern the index. -/
theorem listeners_of_ne {f : Matcher N → Finset Nat → Finset Nat × Option Kind}
    (h : s.dispatch (byField compType field).on o name value f = some s') (hname : name ≠ compType)
    (hg : s.groups.get (byField compType field).matcher = some group) : s'.listeners = s.listeners := by
  have hl := Context.dispatch_listeners ((byField compType field).on_of_ne) hg h
  rw [if_neg ((matchOne_byField name).not.mpr hname)] at hl
  exact (Option.some.inj hl).symm

/-- A change that does. -/
theorem listeners_of_eq {f : Matcher N → Finset Nat → Finset Nat × Option Kind} {kind : Kind}
    (h : s.dispatch (byField compType field).on o compType value f = some s')
    (hg : s.groups.get (byField compType field).matcher = some group)
    (hkind : (f (byField compType field).matcher group).2 = some kind) :
    (byField compType field).on ⟨(byField compType field).matcher, kind, o, compType, value⟩ s.listeners =
      some s'.listeners := by
  have hl := Context.dispatch_listeners ((byField compType field).on_of_ne) hg h
  rw [if_pos ((matchOne_byField compType).mpr rfl), hkind] at hl
  exact hl

/-- The group of the index, and the components that are in it. -/
structure Indexed (compType : N) (field : F) (s : Context N F V (Table V Nat)) : Prop where
  follows : Context.Follows (byField compType field).matcher s
  group : ∃ group, s.groups.get (byField compType field).matcher = some group
  /-- a component has the field -/
  keyed : ∀ (o : Nat) (e : Entity N F V) (value : Table F V), s.objects[o]? = some e →
    e.components.get compType = some value → ∃ k, value.get field = some k

omit [DecidableEq V] in
/-- An entity is in the group if it has the component. -/
theorem Indexed.mem_iff (h : Indexed compType field s) (he : s.objects[o]? = some e)
    (hg : s.groups.get (byField compType field).matcher = some group) :
    o ∈ group ↔ (e.components.get compType).isSome = true := by
  rw [h.follows.mem_iff hg he, matches_byField, e.mem_names]

/-- A component comes: an entity is put under its key. -/
theorem view_added {caches : Table N (List (Table F V))} (h : Indexed compType field s)
    (he : s.objects[o]? = some e) (hname : e.components.get name = none)
    (hs : ({ s with caches := caches } : Context N F V (Table V Nat)).addComponent (byField compType field).on o
      e name value = some s') :
    (name = compType → ∃ k, value.get field = some k) ∧
      (view compType field s' = view compType field s ∨
        UniqueIndex.Change false (view compType field s) (view compType field s')) := by
  obtain ⟨group, hg⟩ := h.group
  have hobjects : s'.objects = (s.setEntity o { e with components := e.components.set name value }).objects := by
    obtain ⟨l, -, rfl⟩ := Context.dispatch_spec hs
    rfl
  by_cases hn : name = compType
  · subst hn
    have hout : o ∉ group := by
      rw [h.mem_iff he hg, hname]
      exact Bool.false_ne_true
    have hkind : (handleEntity o { e with components := e.components.set name value } false
        (byField name field).matcher group).2 = some .added := by
      have hm : (byField name field).matcher.matchEntity
          { e with components := e.components.set name value } = true := by
        rw [Matcher.matchEntity_iff, Entity.names_set, matches_byField]
        exact Finset.mem_insert_self name e.names
      unfold handleEntity
      rw [hm]
      exact if_neg hout
    have hl := listeners_of_eq hs hg hkind
    rw [on_byField] at hl
    obtain ⟨k, hk, hfree, hset⟩ := addEntity_eq_some hl
    refine ⟨fun _ => ⟨k, hk⟩, .inr ?_⟩
    rw [view_put he hobjects ?_ hset]
    · refine .put ?_ hfree
      show (s.objects[o]?).bind _ = none
      rw [he]
      exact congrArg (Option.bind · _) hname
    · show ((e.components.set name value).get name).bind _ = some k
      rw [Table.get_set_self]
      exact hk
  · have hl := listeners_of_ne hs hn hg
    exact ⟨fun heq => absurd heq hn, .inl (view_of_ne _ he hobjects (Table.get_set_ne _ _ (Ne.symm hn)) hl)⟩

/-- A component goes: the key of its entity is free. -/
theorem view_removed (h : Indexed compType field s) (he : s.objects[o]? = some e)
    (hname : e.components.get name = some value)
    (hs : s.removeComponent (byField compType field).on o e name value = some s') :
    view compType field s' = view compType field s ∨
      UniqueIndex.Change false (view compType field s) (view compType field s') := by
  obtain ⟨group, hg⟩ := h.group
  have hobjects : s'.objects = (s.setEntity o { e with components := e.components.del name }).objects := by
    obtain ⟨l, -, rfl⟩ := Context.dispatch_spec hs
    rfl
  unfold Context.removeComponent at hs
  by_cases hn : name = compType
  · subst hn
    have hin : o ∈ group := by
      rw [h.mem_iff he hg, hname]
      rfl
    have hl := listeners_of_eq hs hg (show _ = some Kind.removed from if_pos hin)
    rw [on_byField] at hl
    obtain ⟨k, hk, hdel⟩ := Option.map_eq_some_iff.mp hl
    refine .inr ?_
    rw [view_take he hobjects ?_ hdel.symm]
    · refine .take ?_
      show (s.objects[o]?).bind _ = some k
      rw [he]
      show (e.components.get name).bind _ = some k
      rw [hname]
      exact hk
    · show ((e.components.del name).get name).bind _ = none
      rw [Table.get_del_self]
      rfl
  · have hl := listeners_of_ne hs hn hg
    exact .inl (view_of_ne _ he hobjects (Table.get_del_ne _ (Ne.symm hn)) hl)

/-- A component is replaced: its entity is put under the new key too. -/
theorem view_replaced {old : Table F V} (h : Indexed compType field s) (he : s.objects[o]? = some e)
    (hname : e.components.get name = some old)
    (hs : s.replaceComponent (byField compType field).on o e name value = some s') :
    (name = compType → (∃ k, value.get field = some k) ∧
      UniqueIndex.Change true (view compType field s) (view compType field s')) ∧
      (name ≠ compType → view compType field s' = view compType field s) := by
  obtain ⟨group, hg⟩ := h.group
  have hobjects : s'.objects = (s.setEntity o { e with components := e.components.set name value }).objects := by
    obtain ⟨l, -, rfl⟩ := Context.dispatch_spec hs
    rfl
  unfold Context.replaceComponent at hs
  refine ⟨fun hn => ?_, fun hn => ?_⟩
  · subst hn
    have hin : o ∈ group := by
      rw [h.mem_iff he hg, hname]
      rfl
    have hl := listeners_of_eq hs hg (show _ = some Kind.updated from if_pos hin)
    rw [on_byField] at hl
    obtain ⟨k, hk, hfree, hset⟩ := addEntity_eq_some hl
    refine ⟨⟨k, hk⟩, ?_⟩
    obtain ⟨k₀, hk₀⟩ := h.keyed o e old he hname
    rw [view_put he hobjects ?_ hset]
    · have hkey : (view name field s).key o = some k₀ := by
        show (s.objects[o]?).bind _ = some k₀
        rw [he]
        show (e.components.get name).bind _ = some k₀
        rw [hname]
        exact hk₀
      exact .rekey hkey hfree
    · show ((e.components.set name value).get name).bind _ = some k
      rw [Table.get_set_self]
      exact hk
  · have hl := listeners_of_ne hs hn hg
    exact view_of_ne _ he hobjects (Table.get_set_ne _ _ (Ne.symm hn)) hl

/-! ## One change and one action -/

open Context Relation

omit [DecidableEq F] [DecidableEq V] in
theorem steady : WatchedSets.Steady (byField compType field).matcher.Matches
    (byField compType field).matcher.Concerns :=
  ((byField compType field).matcher.steady_iff).mpr steady_byField

omit [DecidableEq V] in
/-- The components of one entity are changed, and every one that is there afterwards has the field. -/
theorem Indexed.of_objects {e' : Entity N F V} (h : Indexed compType field s)
    (hfollows : Follows (byField compType field).matcher s')
    (hgroup : ∃ group, s'.groups.get (byField compType field).matcher = some group)
    (hothers : ∀ j, j ≠ o → s'.objects[j]? = s.objects[j]?) (he' : s'.objects[o]? = some e')
    (hkeyed : ∀ value, e'.components.get compType = some value → ∃ k, value.get field = some k) :
    Indexed compType field s' := by
  refine ⟨hfollows, hgroup, fun j x value hx hvalue => ?_⟩
  by_cases hj : j = o
  · subst hj
    obtain rfl := Option.some.inj (he'.symm.trans hx)
    exact hkeyed value hvalue
  · exact h.keyed j x value ((hothers j hj).symm.trans hx) hvalue

omit [DecidableEq V] in
/-- The components of an entity after one has come or was replaced. -/
theorem keyed_set (h : Indexed compType field s) (he : s.objects[o]? = some e)
    (hkey : name = compType → ∃ k, value.get field = some k) (v : Table F V)
    (hv : (e.components.set name value).get compType = some v) : ∃ k, v.get field = some k := by
  rw [Table.get_set] at hv
  split at hv
  · rename_i hn
    obtain rfl := Option.some.inj hv
    exact hkey hn.symm
  · exact h.keyed o e v he hv

omit [DecidableEq V] in
theorem keyed_del (h : Indexed compType field s) (he : s.objects[o]? = some e) (v : Table F V)
    (hv : (e.components.del name).get compType = some v) : ∃ k, v.get field = some k := by
  rw [Table.get_del] at hv
  split at hv
  · cases hv
  · exact h.keyed o e v he hv

theorem changed_view {r : Option N} (h : Indexed compType field s)
    (hc : Changed (byField compType field).on o r s s') :
    Indexed compType field s' ∧
      (r = some compType → UniqueIndex.Change true (view compType field s) (view compType field s')) ∧
      (r ≠ some compType →
        ReflTransGen (UniqueIndex.Change false) (view compType field s) (view compType field s')) := by
  have hothers := hc.framed.others
  have hfollows := h.follows.changed steady hc
  obtain ⟨group, hg⟩ := h.group
  have hrun {t t' : UniqueIndex.State Nat V} (ht : t' = t ∨ UniqueIndex.Change false t t') :
      ReflTransGen (UniqueIndex.Change false) t t' := by
    rcases ht with rfl | ht
    · exact .refl
    · exact .single ht
  cases hc with
  | @added s s' e name value caches he hname hs =>
    obtain ⟨hkey, hview⟩ := view_added h he hname hs
    obtain ⟨he', f, hf, -⟩ := addComponent_group (s := { s with caches := caches })
      (m := (byField compType field).matcher) he hs
    refine ⟨h.of_objects hfollows ⟨_, hf.trans (congrArg _ hg)⟩ hothers he' (keyed_set h he hkey), ?_, ?_⟩
    · rintro ⟨⟩
    · exact fun _ => hrun hview
  | @removed s s' e name value he hname hs =>
    have hview := view_removed h he hname hs
    obtain ⟨he', f, hf, -⟩ := removeComponent_group (m := (byField compType field).matcher) he hs
    refine ⟨h.of_objects hfollows ⟨_, hf.trans (congrArg _ hg)⟩ hothers he' (keyed_del h he), ?_, ?_⟩
    · rintro ⟨⟩
    · exact fun _ => hrun hview
  | @replaced s s' e name old value he hname hs =>
    obtain ⟨hsame, hother⟩ := view_replaced h he hname hs
    obtain ⟨he', hg'⟩ := replaceComponent_group (m := (byField compType field).matcher) he hs
    refine ⟨h.of_objects hfollows ⟨group, hg'.trans hg⟩ hothers he' (keyed_set h he fun hn => (hsame hn).1), ?_, ?_⟩
    · rintro ⟨⟩
      exact (hsame rfl).2
    · intro hne
      exact hrun (.inl (hother fun hn => hne (congrArg some hn)))

/-- The components of an entity go, one after the other. -/
theorem run_view (h : Indexed compType field s)
    (hrun : ReflTransGen (Changed (byField compType field).on o none) s s') :
    Indexed compType field s' ∧
      ReflTransGen (UniqueIndex.Change false) (view compType field s) (view compType field s') := by
  induction hrun with
  | refl => exact ⟨h, .refl⟩
  | tail _ hstep ih =>
    obtain ⟨hi, -, hview⟩ := changed_view ih.1 hstep
    exact ⟨hi, ih.2.trans (hview (by rintro ⟨⟩))⟩

/-- An entity of a new uid has no key, and had none. -/
theorem view_createEntity (h : Indexed compType field s) (hr : Registered s) :
    Indexed compType field s.createEntity ∧ view compType field s.createEntity = view compType field s := by
  obtain ⟨o, e, -, -, -, hempty, hold, hobjects, -, -⟩ := createEntity_spec hr
  have hother (j : Nat) (hj : j ≠ o) : s.createEntity.objects[j]? = s.objects[j]? :=
    (hobjects j).trans (if_neg hj)
  have hnew : s.createEntity.objects[o]? = some e := (hobjects o).trans (if_pos rfl)
  refine ⟨h.of_objects (h.follows.createEntity steady hr) h.group hother hnew fun value hv => ?_,
    UniqueIndex.State.ext (funext fun j => ?_) rfl⟩
  · rw [hempty] at hv
    cases hv
  · show (s.createEntity.objects[j]?).bind _ = (s.objects[j]?).bind _
    by_cases hj : j = o
    · rw [hj, hnew]
      show (e.components.get compType).bind _ = _
      rw [hempty]
      cases hx : s.objects[o]? with
      | none => rfl
      | some x =>
        show none = (x.components.get compType).bind _
        rw [hr.empty o x hx (hold x hx)]
        rfl
    · rw [hother j hj]

theorem view_getGroup (h : Indexed compType field s) (hr : Registered s) (m : Matcher N) :
    Indexed compType field (s.getGroup m) ∧ view compType field (s.getGroup m) = view compType field s := by
  have hfollows := h.follows.getGroup steady hr m
  obtain ⟨group, hg⟩ := h.group
  have hgroup : ∃ group, (s.getGroup m).groups.get (byField compType field).matcher = some group := by
    unfold getGroup
    split
    · exact ⟨group, hg⟩
    · rename_i hnone
      refine ⟨group, (Table.get_set_ne _ _ ?_).trans hg⟩
      rintro rfl
      rw [hg] at hnone
      cases hnone
  obtain ⟨groups, hs⟩ := getGroup_frame s m
  rw [hs] at hfollows hgroup ⊢
  exact ⟨⟨hfollows, hgroup, h.keyed⟩, rfl⟩

/-- One action: it changes a key if it replaces a component of the index, and else keys come and go. -/
theorem did_view {a : Action N V} (hr : Registered s) (h : Indexed compType field s)
    (hd : Did (byField compType field).on s a s') :
    Indexed compType field s' ∧
      (Replaces s compType a → UniqueIndex.Change true (view compType field s) (view compType field s')) ∧
      (¬ Replaces s compType a →
        ReflTransGen (UniqueIndex.Change false) (view compType field s) (view compType field s')) := by
  cases hd with
  | createEntity =>
    obtain ⟨hi, hview⟩ := view_createEntity h hr
    exact ⟨hi, False.elim, fun _ => hview ▸ .refl⟩
  | getGroup m =>
    obtain ⟨hi, hview⟩ := view_getGroup h hr m
    exact ⟨hi, False.elim, fun _ => hview ▸ .refl⟩
  | changed _ _ hc hrep =>
    obtain ⟨hi, hsame, hother⟩ := changed_view h hc
    exact ⟨hi, fun hreplaces => hsame ((hrep compType).mpr hreplaces),
      fun hnot => hother fun heq => hnot ((hrep compType).mp heq)⟩
  | @destroyed o uid e e' t he huid hentities hrun he' huid' henabled' hempty =>
    have hset : Indexed compType field (s.setEntity o { e with enabled := false }) := by
      refine h.of_objects ?_ h.group (fun j hj => (getElem?_setEntity he _ j).trans (if_neg hj))
        ((getElem?_setEntity he _ o).trans (if_pos rfl)) fun value hv => h.keyed o e value he hv
      refine h.follows.of_handled { e with enabled := false } (fun j hj => (getElem?_setEntity he _ j).trans (if_neg hj))
        ((getElem?_setEntity he _ o).trans (if_pos rfl)) fun group hg => ?_
      exact ⟨group, hg, fun _ _ => Iff.rfl, h.follows.mem_iff (e := e) hg he⟩
    have hview : view compType field (s.setEntity o { e with enabled := false }) = view compType field s :=
      view_of_ne { e with enabled := false } he rfl rfl rfl
    obtain ⟨hi, hrun'⟩ := run_view hset hrun
    rw [hview] at hrun'
    exact ⟨⟨hi.follows, hi.group, hi.keyed⟩, False.elim, fun _ => hrun'⟩

/-! ## Every run -/

variable {keys : N → List F}

omit [DecidableEq V] in
theorem indexed_start : Indexed compType field
    ((Context.new (Table.empty : Table V Nat)).getGroup (byField compType field).matcher) := by
  refine ⟨?_, ⟨∅, Table.get_set_self _ _ _⟩, ?_⟩
  · have hnew : Follows (byField compType field).matcher (Context.new (Table.empty : Table V Nat) :
        Context N F V (Table V Nat)) := by
      rintro group ⟨⟩
    exact hnew.getGroup steady (registered_new _) _
  · rintro o e value ⟨⟩

theorem sound_iff_of_exec {as : List (Action N V)} (hr : Registered s) (h : Indexed compType field s)
    (hcomplete : (view compType field s).Complete)
    (he : (indexed (byField compType field) keys).exec s as = some s') :
    (view compType field s').Complete ∧ ((view compType field s').Sound ↔ (view compType field s).Sound ∧
      (indexed (byField compType field) keys).Meets (fun s a => ¬ Replaces s compType a) s as) := by
  induction as generalizing s with
  | nil =>
    cases he
    exact ⟨hcomplete, (and_iff_left trivial).symm⟩
  | cons a as ih =>
    obtain ⟨t, hstep, hrest⟩ := Option.bind_eq_some_iff.mp he
    have hd : Did (byField compType field).on s a t := step_did hstep
    obtain ⟨hi, hsame, hother⟩ := did_view hr h hd
    -- one action
    have hone : (view compType field t).Complete ∧ ((view compType field t).Sound ↔
        (view compType field s).Sound ∧ ¬ Replaces s compType a) := by
      by_cases hrep : Replaces s compType a
      · refine ⟨(hsame hrep).complete hcomplete, iff_of_false ?_ fun hc => hc.2 hrep⟩
        exact (hsame hrep).not_sound_of_rekey hcomplete
      · obtain ⟨hc, hs⟩ := UniqueIndex.sound_iff_of_run (hother hrep) hcomplete
        exact ⟨hc, hs.trans (and_iff_left hrep).symm⟩
    obtain ⟨hc, hs⟩ := ih (hr.did hd) hi hone.1 hrest
    refine ⟨hc, hs.trans ?_⟩
    rw [hone.2, and_assoc]
    refine and_congr_right fun _ => and_congr_right fun _ => ⟨fun hm t' ht' => ?_, fun hm => hm t hstep⟩
    obtain rfl := Option.some.inj (hstep.symm.trans ht')
    exact hm

/-- In a run without errors the index by one field of all entities with the component has the entity of each
key, and of no other, if and only if no action of the run has replaced the component of an entity. -/
theorem index_right_iff {as : List (Action N V)}
    (hstart : (indexed (byField compType field) keys).start s)
    (he : (indexed (byField compType field) keys).exec s as = some s') :
    (∀ k o, s'.listeners.get k = some o ↔ ∃ e, s'.objects[o]? = some e ∧ keyOf compType field e = some k) ↔
      (indexed (byField compType field) keys).Meets (fun s a => ¬ Replaces s compType a) s as := by
  obtain rfl := hstart
  have hsound : (view compType field ((Context.new (Table.empty : Table V Nat)).getGroup
      (byField compType field).matcher : Context N F V (Table V Nat))).Sound := by
    rintro k o ⟨⟩
  have hcomplete : (view compType field ((Context.new (Table.empty : Table V Nat)).getGroup
      (byField compType field).matcher : Context N F V (Table V Nat))).Complete := by
    rintro o k ⟨⟩
  have hr : Registered ((Context.new (Table.empty : Table V Nat)).getGroup
      (byField compType field).matcher : Context N F V (Table V Nat)) :=
    (registered_new _).did (Did.getGroup _ : Did (byField compType field).on _ _ _)
  obtain ⟨hc, hs⟩ := sound_iff_of_exec hr indexed_start hcomplete he
  have hright : (∀ k o, s'.listeners.get k = some o ↔
      ∃ e, s'.objects[o]? = some e ∧ keyOf compType field e = some k) ↔ (view compType field s').Sound := by
    refine ⟨fun h k o hk => Option.bind_eq_some_iff.mpr ((h k o).mp hk), fun h k o => ⟨fun hk => ?_, fun hk => ?_⟩⟩
    · exact Option.bind_eq_some_iff.mp (h k o hk)
    · exact hc o k (Option.bind_eq_some_iff.mpr hk)
  rw [hright, hs, and_iff_right hsound]

/-- One entity, whose component 1 is replaced: its key is 8 in place of 7. -/
theorem index_right_iff_replaced : ∃ s' : Context Nat Nat Nat (Table Nat Nat),
    (indexed (byField 1 0) fun _ => [0]).exec ((Context.new .empty).getGroup ⟨some [1], none, none⟩)
      [.createEntity, .add 0 1 [some 7], .replace 0 1 [some 8]] = some s' ∧
    s'.listeners.get 7 = some 0 ∧ s'.listeners.get 8 = some 0 ∧
    ((∀ k o, s'.listeners.get k = some o ↔ ∃ e, s'.objects[o]? = some e ∧ keyOf 1 0 e = some k) ↔
      (indexed (byField 1 0) fun _ => [0]).Meets (fun s a => ¬ Replaces s 1 a)
        ((Context.new .empty).getGroup ⟨some [1], none, none⟩)
        [.createEntity, .add 0 1 [some 7], .replace 0 1 [some 8]]) :=
  ⟨_, rfl, rfl, rfl, index_right_iff rfl rfl⟩

end PrimaryEntityIndex

end AntServer.Entitas
