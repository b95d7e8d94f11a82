/-
# AntServer.Entitas.Groups — when a group is up to date

A group is to have the entities that its matcher matches at any time. For each entity the context keeps one
bit in the group, whether the entity is in it, and looks at it when a component comes or goes that concerns
the matcher. So the groups of a matcher are up to date in every run if and only if the matcher is steady
(`group_exact_iff`).
-/
import AntServer.Entitas.Lifecycle
import AntServer.Entitas.Matching

namespace AntServer.Entitas

open Lib

variable {N F V L : Type*} [DecidableEq N]

/-! ## The components of an entity -/

/-- The names of the components. -/
def Entity.names (e : Entity N F V) : Finset N := e.components.keys.toFinset

theorem Entity.mem_names (e : Entity N F V) (name : N) :
    name ∈ e.names ↔ (e.components.get name).isSome = true := by
  unfold names
  rw [List.mem_toFinset, Table.mem_keys]

theorem Entity.names_eq_empty {e : Entity N F V} (h : ∀ name, e.components.get name = none) : e.names = ∅ := by
  refine Finset.eq_empty_of_forall_notMem fun name hmem => ?_
  rw [e.mem_names, h] at hmem
  cases hmem

theorem Entity.names_set (e : Entity N F V) (name : N) (value : Table F V) :
    ({ e with components := e.components.set name value } : Entity N F V).names = insert name e.names := by
  ext n
  rw [mem_names, Finset.mem_insert, mem_names, Table.get_set]
  by_cases hn : n = name
  · simp [hn]
  · simp [hn]

theorem Entity.names_del (e : Entity N F V) (name : N) :
    ({ e with components := e.components.del name } : Entity N F V).names = e.names.erase name := by
  ext n
  rw [mem_names, Finset.mem_erase, mem_names, Table.get_del]
  by_cases hn : n = name
  · simp [hn]
  · simp [hn]

theorem Matcher.matchEntity_iff (m : Matcher N) (e : Entity N F V) :
    m.matchEntity e = true ↔ m.Matches e.names := by
  have hhas : e.has = fun n => decide (n ∈ e.names) := by
    funext n
    rw [Bool.eq_iff_iff, decide_eq_true_eq, e.mem_names]
    rfl
  unfold matchEntity Matches
  rw [hhas]

namespace Context

variable {on : Event N F V → L → Option L} {s s' : Context N F V L} {m : Matcher N}

/-! ## One change in a group -/

theorem mem_insert_of_ne {o j : Nat} (hj : j ≠ o) (group : Finset Nat) : j ∈ insert o group ↔ j ∈ group := by
  rw [Finset.mem_insert, or_iff_right hj]

theorem mem_erase_of_ne {o j : Nat} (hj : j ≠ o) (group : Finset Nat) : j ∈ group.erase o ↔ j ∈ group := by
  rw [Finset.mem_erase, and_iff_right hj]

theorem mem_handleEntity_of_ne {o j : Nat} (hj : j ≠ o) (e : Entity N F V) (isremove : Bool)
    (group : Finset Nat) : j ∈ (handleEntity o e isremove m group).1 ↔ j ∈ group := by
  unfold handleEntity
  split
  · exact mem_insert_of_ne hj group
  · exact mem_erase_of_ne hj group

/-- With a component that came, an entity is in the group if it matches. -/
theorem mem_handleEntity (o : Nat) (e : Entity N F V) (group : Finset Nat) :
    o ∈ (handleEntity o e false m group).1 ↔ m.Matches e.names := by
  rw [← m.matchEntity_iff e]
  unfold handleEntity
  by_cases hm : m.matchEntity e = true
  · rw [hm]
    exact iff_of_true (Finset.mem_insert_self o group) rfl
  · rw [Bool.not_eq_true] at hm
    rw [hm]
    exact iff_of_false (Finset.notMem_erase o group) Bool.false_ne_true

/-- With a component that went, an entity is not in the group. -/
theorem not_mem_handleEntity (o : Nat) (e : Entity N F V) (group : Finset Nat) :
    o ∉ (handleEntity o e true m group).1 := Finset.notMem_erase o group

/-- A group after a change: the entities but one are as they were, and this one is put into the group or
taken out if the component concerns the matcher. -/
structure Handled (m : Matcher N) (o : Nat) (name : N) (group group' : Finset Nat) (bit : Prop) : Prop where
  others : ∀ j, j ≠ o → (j ∈ group' ↔ j ∈ group)
  concerned : m.Concerns name → (o ∈ group' ↔ bit)
  unconcerned : ¬ m.Concerns name → (o ∈ group' ↔ o ∈ group)

theorem handled_handleEntity (o : Nat) (name : N) (e : Entity N F V) (isremove : Bool) (group : Finset Nat) :
    Handled m o name group (if m.matchOne name then (handleEntity o e isremove m group).1 else group)
      (o ∈ (handleEntity o e isremove m group).1) := by
  refine ⟨fun j hj => ?_, fun hc => ?_, fun hc => ?_⟩
  · split
    · exact mem_handleEntity_of_ne hj e isremove group
    · exact Iff.rfl
  · rw [if_pos (show m.matchOne name = true from hc)]
  · rw [if_neg (show ¬ m.matchOne name = true from hc)]

/-- The group of `m`, when a component comes. -/
theorem addComponent_group {o : Nat} {e : Entity N F V} {name : N} {value : Table F V}
    (he : s.objects[o]? = some e) (h : s.addComponent on o e name value = some s') :
    s'.objects[o]? = some { e with components := e.components.set name value } ∧
      ∃ f : Finset Nat → Finset Nat, s'.groups.get m = (s.groups.get m).map f ∧
        ∀ group, Handled m o name group (f group) (m.Matches (insert name e.names)) := by
  obtain ⟨l, -, rfl⟩ := dispatch_spec h
  refine ⟨(getElem?_setEntity he _ o).trans (if_pos rfl), _, get_handled _ _ _ _, fun group => ?_⟩
  have hh := handled_handleEntity (m := m) o name { e with components := e.components.set name value } false group
  rw [mem_handleEntity, Entity.names_set] at hh
  exact hh

/-- The group of `m`, when a component goes. -/
theorem removeComponent_group {o : Nat} {e : Entity N F V} {name : N} {value : Table F V}
    (he : s.objects[o]? = some e) (h : s.removeComponent on o e name value = some s') :
    s'.objects[o]? = some { e with components := e.components.del name } ∧
      ∃ f : Finset Nat → Finset Nat, s'.groups.get m = (s.groups.get m).map f ∧
        ∀ group, Handled m o name group (f group) False := by
  obtain ⟨l, -, rfl⟩ := dispatch_spec h
  refine ⟨(getElem?_setEntity he _ o).trans (if_pos rfl), _, get_handled _ _ _ _, fun group => ?_⟩
  have hh := handled_handleEntity (m := m) o name { e with components := e.components.del name } true group
  rwa [iff_false_intro (not_mem_handleEntity o _ group)] at hh

/-- A component that is replaced leaves the groups as they are. -/
theorem replaceComponent_group {o : Nat} {e : Entity N F V} {name : N} {value : Table F V}
    (he : s.objects[o]? = some e) (h : s.replaceComponent on o e name value = some s') :
    s'.objects[o]? = some { e with components := e.components.set name value } ∧
      s'.groups.get m = s.groups.get m := by
  obtain ⟨l, -, rfl⟩ := dispatch_spec h
  refine ⟨(getElem?_setEntity he _ o).trans (if_pos rfl), (get_handled _ _ _ _).trans ?_⟩
  show (s.groups.get m).map _ = _
  cases s.groups.get m with
  | none => rfl
  | some group => exact congrArg some (ite_self group)

/-! ## A steady matcher -/

/-- The group of `m` has the entities with components that match, whether they are enabled or not. -/
def Follows (m : Matcher N) (s : Context N F V L) : Prop :=
  ∀ group, s.groups.get m = some group → ∀ j : Nat, j ∈ group ↔
    ∃ e : Entity N F V, s.objects[j]? = some e ∧ m.Matches e.names

/-- Another entity than the one that changed. -/
theorem Follows.of_handled {o : Nat} (e' : Entity N F V) (h : Follows m s)
    (hothers : ∀ j, j ≠ o → s'.objects[j]? = s.objects[j]?) (he' : s'.objects[o]? = some e')
    (hgroup : ∀ group', s'.groups.get m = some group' → ∃ group, s.groups.get m = some group ∧
      (∀ j, j ≠ o → (j ∈ group' ↔ j ∈ group)) ∧ (o ∈ group' ↔ m.Matches e'.names)) : Follows m s' := by
  intro group' hg' j
  obtain ⟨group, hg, hsame, ho⟩ := hgroup group' hg'
  by_cases hj : j = o
  · subst hj
    rw [ho, he']
    refine ⟨fun hm => ⟨e', rfl, hm⟩, ?_⟩
    rintro ⟨x, hx, hm⟩
    obtain rfl := Option.some.inj hx
    exact hm
  · rw [hsame j hj, hothers j hj]
    exact h group hg j

theorem Follows.mem_iff {o : Nat} {e : Entity N F V} {group : Finset Nat} (h : Follows m s)
    (hg : s.groups.get m = some group) (he : s.objects[o]? = some e) : o ∈ group ↔ m.Matches e.names := by
  rw [h group hg o, he]
  refine ⟨?_, fun hm => ⟨e, rfl, hm⟩⟩
  rintro ⟨x, hx, hm⟩
  obtain rfl := Option.some.inj hx
  exact hm

/-- The loop of `get_group` over the uids: the entities that match are put in. -/
theorem mem_foldl {uids : List Nat} {group : Finset Nat} (hr : Registered s)
    (hgroup : ∀ uid ∈ uids, ∀ o, s.entities.get uid = some o → o ∉ group) (hnodup : uids.Nodup) (j : Nat) :
    j ∈ uids.foldl (s.handleNext m) group ↔
      j ∈ group ∨ ∃ uid ∈ uids, s.entities.get uid = some j ∧
        ∃ e : Entity N F V, s.objects[j]? = some e ∧ m.Matches e.names := by
  induction uids generalizing group with
  | nil => simp
  | cons uid uids ih =>
    obtain ⟨hout, hnodup⟩ := List.nodup_cons.mp hnodup
    rw [List.foldl_cons]
    cases hget : s.entities.get uid with
    | none =>
      have hnext : s.handleNext m group uid = group := by rw [handleNext, hget]
      rw [hnext, ih (fun u hu => hgroup u (List.mem_cons_of_mem _ hu)) hnodup]
      simp [hget]
    | some o =>
      obtain ⟨e, he, -, huid⟩ := (hr.entities uid o).mp hget
      have hnext : s.handleNext m group uid = handleEntitySilently m o e group := by
        rw [handleNext, hget]
        simp only [he]
      have ho : o ∉ group := hgroup uid List.mem_cons_self o hget
      have hsilent (i : Nat) : i ∈ handleEntitySilently m o e group ↔ i ∈ group ∨ i = o ∧ m.Matches e.names := by
        unfold handleEntitySilently
        rw [← m.matchEntity_iff e]
        by_cases hm : m.matchEntity e = true
        · rw [if_pos hm, Finset.mem_insert, and_iff_left hm, or_comm]
        · rw [if_neg hm, Finset.erase_eq_of_notMem ho]
          simp [hm]
      rw [hnext, ih ?_ hnodup, hsilent]
      · constructor
        · rintro ((hj | ⟨rfl, hm⟩) | ⟨u, hu, hj⟩)
          · exact .inl hj
          · exact .inr ⟨uid, List.mem_cons_self, hget, e, he, hm⟩
          · exact .inr ⟨u, List.mem_cons_of_mem _ hu, hj⟩
        · rintro (hj | ⟨u, hu, hj, x, hx, hm⟩)
          · exact .inl (.inl hj)
          · rcases List.mem_cons.mp hu with rfl | hu
            · obtain rfl := Option.some.inj (hget.symm.trans hj)
              obtain rfl := Option.some.inj (he.symm.trans hx)
              exact .inl (.inr ⟨rfl, hm⟩)
            · exact .inr ⟨u, hu, hj, x, hx, hm⟩
      · intro u hu i hi hmem
        rcases (hsilent i).mp hmem with hmem | ⟨rfl, -⟩
        · exact hgroup u (List.mem_cons_of_mem _ hu) i hi hmem
        · -- one entity has one uid
          obtain ⟨x, hx, -, hxuid⟩ := (hr.entities u i).mp hi
          obtain rfl := Option.some.inj (he.symm.trans hx)
          exact hout (huid.symm.trans hxuid ▸ hu)

variable (hsteady : WatchedSets.Steady m.Matches m.Concerns)

include hsteady

theorem Follows.changed {o : Nat} {r : Option N} (h : Follows m s) (hc : Changed on o r s s') : Follows m s' := by
  have hothers := hc.framed.others
  cases hc with
  | @added s s' e name value caches he hname hs =>
    obtain ⟨he', f, hf, hhandled⟩ := addComponent_group (s := { s with caches := caches }) (m := m) he hs
    refine h.of_handled _ hothers he' fun group' hg' => ?_
    obtain ⟨group, hg, rfl⟩ := Option.map_eq_some_iff.mp (hf.symm.trans hg')
    have hh := hhandled group
    rw [Entity.names_set]
    exact ⟨group, hg, hh.others, hsteady.add (h.mem_iff hg he) hh.concerned hh.unconcerned⟩
  | @removed s s' e name value he hname hs =>
    obtain ⟨he', f, hf, hhandled⟩ := removeComponent_group (m := m) he hs
    refine h.of_handled _ hothers he' fun group' hg' => ?_
    obtain ⟨group, hg, rfl⟩ := Option.map_eq_some_iff.mp (hf.symm.trans hg')
    have hh := hhandled group
    rw [Entity.names_del]
    exact ⟨group, hg, hh.others,
      hsteady.remove (h.mem_iff hg he) (fun hc => (hh.concerned hc).mp) hh.unconcerned⟩
  | @replaced s s' e name old value he hname hs =>
    obtain ⟨he', hg⟩ := replaceComponent_group (m := m) he hs
    refine h.of_handled _ hothers he' fun group' hg' => ?_
    rw [hg] at hg'
    refine ⟨group', hg', fun _ _ => Iff.rfl, (h.mem_iff hg' he).trans ?_⟩
    -- the entity had the component
    have hmem : name ∈ e.names := by
      rw [e.mem_names, hname]
      rfl
    rw [Entity.names_set, Finset.insert_eq_of_mem hmem]

theorem Follows.createEntity (h : Follows m s) (hr : Registered s) : Follows m s.createEntity := by
  obtain ⟨o, e, -, -, -, hempty, hold, hobjects, -, -⟩ := createEntity_spec hr
  have hnot : ¬ m.Matches e.names := by
    rw [Entity.names_eq_empty hempty]
    exact hsteady.not_empty
  refine h.of_handled e (fun j hj => (hobjects j).trans (if_neg hj))
    ((hobjects o).trans (if_pos rfl)) fun group hg => ⟨group, hg, fun _ _ => Iff.rfl, iff_of_false ?_ hnot⟩
  -- an entity of the pool has no components either
  rw [h group hg o]
  rintro ⟨x, hx, hm⟩
  rw [Entity.names_eq_empty (hr.empty o x hx (hold x hx))] at hm
  exact hsteady.not_empty hm

/-- A new group has the entities of the context that match. -/
theorem Follows.getGroup (h : Follows m s) (hr : Registered s) (m' : Matcher N) :
    Follows m (s.getGroup m') := by
  cases hget : s.groups.get m' with
  | some group =>
    have hsame : s.getGroup m' = s := by rw [Context.getGroup, hget]
    rwa [hsame]
  | none =>
    have hnew : s.getGroup m' =
        { s with groups := s.groups.set m' (s.entities.keys.foldl (s.handleNext m') ∅) } := by
      rw [Context.getGroup, hget]
    rw [hnew]
    intro group hg
    by_cases hm : m = m'
    · subst hm
      obtain rfl := Option.some.inj ((Table.get_set_self _ _ _).symm.trans hg)
      intro j
      rw [mem_foldl hr (fun _ _ _ _ => Finset.notMem_empty _) s.entities.keys_nodup j]
      constructor
      · rintro (hj | ⟨uid, -, -, he⟩)
        · exact absurd hj (Finset.notMem_empty j)
        · exact he
      · rintro ⟨e, he, hmatch⟩
        -- an entity that matches has a component, and so it is enabled
        have hon : e.enabled = true := by
          by_contra hoff
          rw [Entity.names_eq_empty (hr.empty j e he (Bool.not_eq_true _ ▸ hoff))] at hmatch
          exact hsteady.not_empty hmatch
        have hget : s.entities.get e.uid = some j := (hr.entities e.uid j).mpr ⟨e, he, hon, rfl⟩
        exact .inr ⟨e.uid, Table.mem_keys_of_get hget, hget, e, he, hmatch⟩
    · exact h group ((Table.get_set_ne _ _ hm).symm.trans hg)

open Relation in
theorem Follows.run {o : Nat} (h : Follows m s) (hrun : ReflTransGen (Changed on o none) s s') : Follows m s' := by
  induction hrun with
  | refl => exact h
  | tail _ hstep ih => exact ih.changed hsteady hstep

theorem Follows.did {a : Action N V} (h : Follows m s) (hr : Registered s) (hd : Did on s a s') :
    Follows m s' := by
  cases hd with
  | createEntity => exact h.createEntity hsteady hr
  | getGroup m' => exact h.getGroup hsteady hr m'
  | changed _ _ hc _ => exact h.changed hsteady hc
  | @destroyed o uid e e' t he huid hentities hrun he' huid' henabled' hempty =>
    have hset : Follows m (s.setEntity o { e with enabled := false }) := by
      refine h.of_handled { e with enabled := false }
        (fun j hj => (getElem?_setEntity he _ j).trans (if_neg hj))
        ((getElem?_setEntity he _ o).trans (if_pos rfl)) fun group hg => ?_
      exact ⟨group, hg, fun _ _ => Iff.rfl, h.mem_iff (e := e) hg he⟩
    have ht : Follows m t := hset.run hsteady hrun
    exact ht

omit hsteady

/-- The group of `m`, if there is one, has the entities that match. -/
def UpToDate (m : Matcher N) (s : Context N F V L) : Prop :=
  ∀ group, s.groups.get m = some group → ∀ j : Nat, j ∈ group ↔
    ∃ e : Entity N F V, s.objects[j]? = some e ∧ e.enabled = true ∧ m.matchEntity e = true

section Runs

variable [DecidableEq F] {keys : N → List F}

include hsteady in
theorem upToDate_of_steady (h : (context on keys).Reach s) : UpToDate m s := by
  have hfollows : Follows m s := by
    refine h.invariant (Follows m) ?_ ?_
    · rintro s ⟨l, rfl⟩ group hg
      cases hg
    · intro s a s' hr hi _ hs
      exact hi.did hsteady (registered hr.reach) (step_did hs)
  intro group hg j
  rw [hfollows group hg j]
  refine exists_congr fun e => and_congr_right fun he => ?_
  rw [m.matchEntity_iff]
  refine (and_iff_right_of_imp fun hm => ?_).symm
  by_contra hoff
  rw [Entity.names_eq_empty ((registered h).empty j e he (Bool.not_eq_true _ ▸ hoff))] at hm
  exact hsteady.not_empty hm

/-! ## A matcher that is not steady -/

variable (hon : ∀ e l, (on e l).isSome = true)

include hon

omit [DecidableEq F] in
/-- Functions that raise no error let every component come and go. -/
theorem dispatch_isSome (s : Context N F V L) (o : Nat) (name : N) (value : Table F V)
    (f : Matcher N → Finset Nat → Finset Nat × Option Kind) : ∃ s', s.dispatch on o name value f = some s' := by
  have hcalls : ∀ (events : List (Event N F V)) (l : L), ∃ l', events.foldlM (fun l e => on e l) l = some l' := by
    intro events
    induction events with
    | nil => exact fun l => ⟨l, rfl⟩
    | cons e events ih =>
      intro l
      obtain ⟨l', hl'⟩ := Option.isSome_iff_exists.mp (hon e l)
      obtain ⟨r, hrest⟩ := ih l'
      exact ⟨r, Option.bind_eq_some_iff.mpr ⟨l', hl', hrest⟩⟩
  obtain ⟨l, hl⟩ := hcalls (s.calls o name value f) s.listeners
  exact ⟨_, Option.map_eq_some_iff.mpr ⟨l, hl, rfl⟩⟩

variable (keys m)

/-- A component comes to an entity without it. -/
theorem add_of_none {o : Nat} {e : Entity N F V} {name : N} (he : s.objects[o]? = some e)
    (henabled : e.enabled = true) (hname : name ∉ e.names) (args : List (Option V)) :
    ∃ s' value caches, step on keys s (.add o name args) = some s' ∧
      ({ s with caches := caches } : Context N F V L).addComponent on o e name value = some s' := by
  have hhas : e.has name = false := by
    rw [e.mem_names, Bool.not_eq_true] at hname
    exact hname
  let t : Context N F V L := { s with caches := s.caches.set name ((s.caches.get name).getD []).tail }
  let value := replaceFields (keys name) args (((s.caches.get name).getD []).head?.getD .empty)
  obtain ⟨s', hs'⟩ : ∃ s', t.addComponent on o e name value = some s' := dispatch_isSome hon _ _ _ _ _
  refine ⟨s', value, t.caches, ?_, hs'⟩
  show (s.objects[o]?).bind _ = _
  rw [he, Option.bind_some, henabled, hhas]
  exact hs'

omit [DecidableEq F] in
/-- A component of an entity is taken out, or it is replaced. -/
theorem remove_of_some {o : Nat} {e : Entity N F V} {name : N} (hname : name ∈ e.names) :
    ∃ s' value, e.components.get name = some value ∧ s.removeComponent on o e name value = some s' := by
  obtain ⟨value, hvalue⟩ := Option.isSome_iff_exists.mp ((e.mem_names name).mp hname)
  obtain ⟨s', hs'⟩ : ∃ s', s.removeComponent on o e name value = some s' := dispatch_isSome hon _ _ _ _ _
  exact ⟨s', value, hvalue, hs'⟩

omit hon in
theorem step_remove {o : Nat} {e : Entity N F V} {name : N} {value : Table F V} (he : s.objects[o]? = some e)
    (henabled : e.enabled = true) (hvalue : e.components.get name = some value)
    (h : s.removeComponent on o e name value = some s') : step on keys s (.remove o name) = some s' := by
  show (s.objects[o]?).bind _ = _
  rw [he, Option.bind_some, henabled]
  show (e.components.get name).bind _ = _
  rw [hvalue]
  exact h

/-- Every run of the bit is one of the first entity in a context. -/
theorem realized (l : L) {c : WatchedSets.Cell N}
    (hc : (WatchedSets.following m.Matches m.Concerns).Reach c) :
    ∃ (as : List (Action N V)) (s : Context N F V L) (e : Entity N F V) (group : Finset Nat),
      (context on keys).exec ((new l).getGroup m) as = some s ∧ s.objects[0]? = some e ∧ e.enabled = true ∧
      e.names = c.set ∧ s.groups.get m = some group ∧ (0 ∈ group ↔ c.bit) := by
  induction hc with
  | start hstart =>
    subst hstart
    refine ⟨[.createEntity], _, ⟨1, true, .empty⟩, ∅, rfl, rfl, rfl, ?_, Table.get_set_self _ _ _, ?_⟩
    · exact Entity.names_eq_empty fun name => Table.get_empty name
    · exact iff_of_false (Finset.notMem_empty 0) id
  | @step c c' x _ _ hstep ih =>
    obtain ⟨as, s, e, group, hs, he, henabled, hnames, hg, hbit⟩ := ih
    have hnext {a : Action N V} {s' : Context N F V L} (hs' : step on keys s a = some s') :
        (context on keys).exec ((new l).getGroup m) (as ++ [a]) = some s' := by
      rw [Machine.exec_append, hs]
      show (step on keys s a).bind _ = _
      rw [hs']
      rfl
    cases x with
    | add a =>
      obtain ⟨ha, hset, hw, hu⟩ := WatchedSets.change_add_inv (p := m.Matches) (w := m.Concerns) hstep
      rw [← hnames] at ha hset hw
      obtain ⟨s', value, caches, hs', hadd⟩ := add_of_none keys hon he henabled ha []
      obtain ⟨he', f, hf, hh⟩ := addComponent_group (s := { s with caches := caches }) (m := m) he hadd
      refine ⟨_, s', _, f group, hnext hs', he', henabled, ?_, hf.trans (congrArg _ hg), ?_⟩
      · rw [Entity.names_set, hset]
      · by_cases hc : m.Concerns a
        · exact ((hh group).concerned hc).trans (hw hc).symm
        · exact ((hh group).unconcerned hc).trans (hbit.trans (hu hc).symm)
    | remove a =>
      obtain ⟨ha, hset, hw, hu⟩ := WatchedSets.change_remove_inv (p := m.Matches) (w := m.Concerns) hstep
      rw [← hnames] at ha hset
      obtain ⟨s', value, hvalue, hremove⟩ := remove_of_some (s := s) (o := 0) hon ha
      obtain ⟨he', f, hf, hh⟩ := removeComponent_group (m := m) he hremove
      refine ⟨_, s', _, f group, hnext (step_remove keys he henabled hvalue hremove), he', henabled, ?_,
        hf.trans (congrArg _ hg), ?_⟩
      · rw [Entity.names_del, hset]
      · by_cases hc : m.Concerns a
        · exact ((hh group).concerned hc).trans (iff_of_false id (hw hc))
        · exact ((hh group).unconcerned hc).trans (hbit.trans (hu hc).symm)

/-- The group of a matcher is up to date in every run if and only if the matcher is steady: it matches no
entity, or it asks for all of some components and for nothing else. -/
theorem group_exact_iff [Nonempty L] :
    (∀ s : Context N F V L, (context on keys).Reach s → UpToDate m s) ↔ m.Steady := by
  rw [← m.steady_iff]
  refine ⟨fun h => ?_, fun h s hs => upToDate_of_steady h hs⟩
  refine WatchedSets.exact_iff_steady.mp fun c hc => ?_
  obtain ⟨l⟩ := ‹Nonempty L›
  obtain ⟨as, s, e, group, hs, he, henabled, hnames, hg, hbit⟩ := realized m keys hon l hc
  have hstart : (context on keys).Reach (new l) := .start ⟨l, rfl⟩
  have hreach : (context on keys).Reach s :=
    Machine.Reach.exec (hstart.step (a := .getGroup m) trivial rfl) hs
  rw [← hbit, ← hnames, ← m.matchEntity_iff, h s hreach group hg 0, he]
  refine ⟨?_, fun hm => ⟨e, rfl, henabled, hm⟩⟩
  rintro ⟨x, hx, -, hm⟩
  obtain rfl := Option.some.inj hx
  exact hm

end Runs

/-- The matcher of all of two components, and that of one of them. -/
theorem group_exact_iff_two :
    (∀ s : Context Nat Nat Nat Unit, (context (fun _ _ => some ()) fun _ => []).Reach s →
      UpToDate ⟨some [0, 1], none, none⟩ s) ∧
    ¬ ∀ s : Context Nat Nat Nat Unit, (context (fun _ _ => some ()) fun _ => []).Reach s →
      UpToDate ⟨none, some [0, 1], none⟩ s := by
  refine ⟨(group_exact_iff _ _ fun _ _ => rfl).mpr (.inr ⟨rfl, trivial⟩), ?_⟩
  rw [group_exact_iff _ _ fun _ _ => rfl]
  rintro (hnever | ⟨-, hone⟩)
  · simp [Matcher.Never] at hnever
    exact (hnever 0).1 rfl
  · exact absurd (hone 0 (by decide) 1 (by decide)) (by decide)

end Context

end AntServer.Entitas
