/-
# AntServer.Entitas.Collector — the entities that wait for a system

A collector gathers the entities of a group that something happened to, for a system that handles them
later. Its functions are in the delegates of the events it was made for: an entity that comes, or has a
component replaced, is put in, and one that leaves the group is taken out. In between the system clears it.

An entity that is collected is to be one of the group when the system handles it. This holds in every run
if and only if the collector was made for the event of leaving too, or for no other (`collected_iff`).
-/
import AntServer.Entitas.Groups

namespace AntServer.Entitas

open Lib Context

variable {N F V : Type*} [DecidableEq N]

namespace GroupEvent

def ADDED : Nat := 1

def REMOVED : Nat := 2

def UPDATE : Nat := 4

end GroupEvent

/-- A collector of one group, and the events it was made for. -/
structure Collector (N : Type*) where
  matcher : Matcher N
  groupEvent : Nat

namespace Collector

/-- The collector is made for the event. -/
abbrev For (c : Collector N) (event : Nat) : Prop := c.groupEvent &&& event ≠ 0

/-- The functions that `activate` puts into the delegates of the group. -/
def collect (c : Collector N) (o : Nat) (entities : Finset Nat) : Kind → Finset Nat
  | .added => if c.For GroupEvent.ADDED then insert o entities else entities
  | .removed => if c.For GroupEvent.REMOVED then entities.erase o else entities
  | .updated => if c.For GroupEvent.UPDATE then insert o entities else entities

def on (c : Collector N) (e : Event N F V) (entities : Finset Nat) : Option (Finset Nat) :=
  some (if e.matcher = c.matcher then c.collect e.entity entities e.kind else entities)

theorem on_of_ne (c : Collector N) (e : Event N F V) (entities : Finset Nat) (h : e.matcher ≠ c.matcher) :
    c.on e entities = some entities := congrArg some (if_neg h)

theorem on_isSome (c : Collector N) (e : Event N F V) (entities : Finset Nat) :
    (c.on e entities).isSome = true := rfl

variable [DecidableEq F]

/-- A context with the collector of a group from its making on; none is the clearing of the collector. -/
def collecting (c : Collector N) (keys : N → List F) :
    Machine (Context N F V (Finset Nat)) (Option (Action N V)) where
  start s := s = (Context.new ∅).getGroup c.matcher
  step s
    | some a => step c.on keys s a
    | none => some { s with listeners := ∅ }

/-- What is collected leaves with its entity, or nothing is collected at all. -/
def Dropping (c : Collector N) : Prop :=
  c.For GroupEvent.REMOVED ∨ ¬ c.For GroupEvent.ADDED ∧ ¬ c.For GroupEvent.UPDATE

/-! ## One change -/

/-- The delegate that is called tells what becomes of the group. -/
def Told (o : Nat) (group : Finset Nat) (r : Finset Nat × Option Kind) : Prop :=
  match r.2 with
  | none => r.1 = group
  | some .added => r.1 = insert o group
  | some .removed => r.1 = group.erase o
  | some .updated => r.1 = group ∧ o ∈ group

omit [DecidableEq F] in
theorem told_handleEntity (o : Nat) (e : Entity N F V) (isremove : Bool) (m : Matcher N) (group : Finset Nat) :
    Told o group (handleEntity o e isremove m group) := by
  unfold handleEntity
  split
  · by_cases ho : o ∈ group
    · simp only [Told, if_pos ho, Finset.insert_eq_of_mem ho]
    · simp only [Told, if_neg ho]
  · by_cases ho : o ∈ group
    · simp only [Told, if_pos ho]
    · simp only [Told, if_neg ho, Finset.erase_eq_of_notMem ho]

omit [DecidableEq N] in
theorem told_updateEntity (o : Nat) (m : Matcher N) (group : Finset Nat) :
    Told o group (updateEntity o m group) := by
  unfold updateEntity
  by_cases ho : o ∈ group
  · simp only [Told, if_pos ho]
    exact ⟨trivial, ho⟩
  · simp only [Told, if_neg ho]

variable {c : Collector N} {keys : N → List F} {s s' : Context N F V (Finset Nat)}

/-- What is collected is in the group. -/
structure Within (c : Collector N) (collected group : Finset Nat) : Prop where
  subset : collected ⊆ group
  empty : c.For GroupEvent.REMOVED ∨ collected = ∅

omit [DecidableEq F] in
theorem Within.on {o : Nat} {name : N} {value : Table F V} {l l' group : Finset Nat}
    {r : Finset Nat × Option Kind} (h : Within c l group) (hc : c.Dropping) (ht : Told o group r)
    (hl : (match r.2 with
      | some kind => c.on ⟨c.matcher, kind, o, name, value⟩ l
      | none => some l) = some l') : Within c l' r.1 := by
  have hinsert {event : Nat} (hfor : c.For event) (hevent : event = GroupEvent.ADDED ∨ event = GroupEvent.UPDATE) :
      c.For GroupEvent.REMOVED := by
    refine hc.resolve_right fun hno => ?_
    rcases hevent with rfl | rfl
    · exact hno.1 hfor
    · exact hno.2 hfor
  unfold Told at ht
  cases hk : r.2 with
  | none =>
    rw [hk] at ht hl
    obtain rfl := Option.some.inj hl
    rw [show r.1 = group from ht]
    exact h
  | some kind =>
    rw [hk] at ht hl
    obtain rfl : c.collect o l kind = l' := by
      refine Eq.trans ?_ (Option.some.inj hl)
      exact (if_pos rfl).symm
    cases kind with
    | added =>
      rw [show r.1 = insert o group from ht]
      by_cases hfor : c.For GroupEvent.ADDED
      · rw [collect, if_pos hfor]
        exact ⟨Finset.insert_subset_insert o h.subset, .inl (hinsert hfor (.inl rfl))⟩
      · rw [collect, if_neg hfor]
        exact ⟨h.subset.trans (Finset.subset_insert o group), h.empty⟩
    | removed =>
      rw [show r.1 = group.erase o from ht]
      by_cases hfor : c.For GroupEvent.REMOVED
      · rw [collect, if_pos hfor]
        exact ⟨Finset.erase_subset_erase o h.subset, .inl hfor⟩
      · rw [collect, if_neg hfor, h.empty.resolve_left hfor]
        exact ⟨Finset.empty_subset _, .inr rfl⟩
    | updated =>
      rw [show r.1 = group from ht.1]
      by_cases hfor : c.For GroupEvent.UPDATE
      · rw [collect, if_pos hfor]
        exact ⟨Finset.insert_subset ht.2 h.subset, .inl (hinsert hfor (.inr rfl))⟩
      · rw [collect, if_neg hfor]
        exact h

/-- What is collected is in the group of the collector. -/
def Held (c : Collector N) (s : Context N F V (Finset Nat)) : Prop :=
  ∃ group, s.groups.get c.matcher = some group ∧ Within c s.listeners group

omit [DecidableEq F] in
theorem Held.dispatch {o : Nat} {name : N} {value : Table F V}
    {f : Matcher N → Finset Nat → Finset Nat × Option Kind} (h : Held c s) (hc : c.Dropping)
    (ht : ∀ m group, Told o group (f m group)) (hs : s.dispatch c.on o name value f = some s') : Held c s' := by
  obtain ⟨group, hg, hw⟩ := h
  have hl := dispatch_listeners c.on_of_ne hg hs
  have hg' : s'.groups.get c.matcher =
      some (if c.matcher.matchOne name then (f c.matcher group).1 else group) := by
    obtain ⟨l, -, rfl⟩ := dispatch_spec hs
    exact (get_handled _ _ _ _).trans (congrArg _ hg)
  refine ⟨_, hg', ?_⟩
  by_cases hone : c.matcher.matchOne name = true
  · rw [if_pos hone] at hl ⊢
    exact hw.on hc (ht c.matcher group) hl
  · rw [if_neg hone] at hl ⊢
    exact Option.some.inj hl ▸ hw

omit [DecidableEq F] in
theorem Held.changed {o : Nat} {r : Option N} (h : Held c s) (hc : c.Dropping) (hs : Changed c.on o r s s') :
    Held c s' := by
  cases hs with
  | @added s s' e name value caches he hname hs =>
    have h' : Held c (({ s with caches := caches } : Context N F V (Finset Nat)).setEntity o
      { e with components := e.components.set name value }) := h
    exact h'.dispatch hc (told_handleEntity o _ false) hs
  | @removed s s' e name value he hname hs =>
    have h' : Held c ({ s.setEntity o { e with components := e.components.del name } with
      caches := s.caches.set name (value :: (s.caches.get name).getD []) }) := h
    exact h'.dispatch hc (told_handleEntity o _ true) hs
  | @replaced s s' e name old value he hname hs =>
    have h' : Held c (s.setEntity o { e with components := e.components.set name value }) := h
    exact h'.dispatch hc (told_updateEntity o) hs

/-! ## Every run -/

open Relation

omit [DecidableEq F] in
theorem Held.run {o : Nat} (h : Held c s) (hc : c.Dropping) (hrun : ReflTransGen (Changed c.on o none) s s') :
    Held c s' := by
  induction hrun with
  | refl => exact h
  | tail _ hstep ih => exact ih.changed hc hstep

omit [DecidableEq F] in
theorem Held.did {a : Action N V} (h : Held c s) (hc : c.Dropping) (hd : Did c.on s a s') : Held c s' := by
  cases hd with
  | createEntity => exact h
  | getGroup m =>
    obtain ⟨group, hg, hw⟩ := h
    unfold getGroup
    split
    · exact ⟨group, hg, hw⟩
    · rename_i hnone
      refine ⟨group, (Table.get_set_ne _ _ ?_).trans hg, hw⟩
      rintro rfl
      rw [hg] at hnone
      cases hnone
  | changed _ _ hs _ => exact h.changed hc hs
  | @destroyed o uid e e' t he _ _ hrun _ _ _ _ =>
    have hset : Held c (s.setEntity o { e with enabled := false }) := h
    have ht : Held c t := hset.run hc hrun
    exact ht

/-- What holds in every run with a collector that drops what leaves its group. -/
theorem held_of_reach (hsteady : WatchedSets.Steady c.matcher.Matches c.matcher.Concerns) (hc : c.Dropping)
    (h : (collecting c keys).Reach s) : Registered s ∧ Follows c.matcher s ∧ Held c s := by
  refine h.invariant (fun s => Registered s ∧ Follows c.matcher s ∧ Held c s) ?_ ?_
  · rintro s rfl
    have hnew : Registered (Context.new ∅ : Context N F V (Finset Nat)) := registered_new ∅
    have hfollows : Follows c.matcher (Context.new ∅ : Context N F V (Finset Nat)) := by rintro group ⟨⟩
    refine ⟨hnew.did (Did.getGroup c.matcher : Did c.on _ _ _), hfollows.getGroup hsteady hnew c.matcher, ?_⟩
    exact ⟨∅, Table.get_set_self _ _ _, Finset.empty_subset ∅, .inr rfl⟩
  · rintro s (_ | a) s' _ ⟨hr, hf, group, hg, hw⟩ _ hs
    · obtain rfl := Option.some.inj hs
      exact ⟨⟨hr.entities, hr.pool, hr.nodup, hr.empty, hr.uid_lt, hr.uid_inj, hr.size⟩, hf, group, hg,
        Finset.empty_subset group, .inr rfl⟩
    · have hd : Did c.on s a s' := step_did hs
      exact ⟨hr.did hd, hf.did hsteady hr hd, Held.did ⟨group, hg, hw⟩ hc hd⟩

/-! ## A collector that keeps what leaves -/

section Keeping

variable {o : Nat} {e : Entity N F V} {name : N} {value : Table F V} {group : Finset Nat}

omit [DecidableEq F] in
theorem on_self (kind : Kind) (l : Finset Nat) :
    c.on ⟨c.matcher, kind, o, name, value⟩ l = some (c.collect o l kind) := congrArg some (if_pos rfl)

omit [DecidableEq F] in
/-- A delegate of the group of the collector is called. -/
theorem listeners_of_kind {f : Matcher N → Finset Nat → Finset Nat × Option Kind} {kind : Kind}
    (hs : s.dispatch c.on o name value f = some s') (hg : s.groups.get c.matcher = some group)
    (hone : c.matcher.Concerns name) (hkind : (f c.matcher group).2 = some kind) :
    s'.listeners = c.collect o s.listeners kind := by
  have hl := dispatch_listeners c.on_of_ne hg hs
  rw [if_pos (show c.matcher.matchOne name = true from hone), hkind] at hl
  exact (Option.some.inj ((on_self kind s.listeners).symm.trans hl)).symm

theorem reach_exec {as : List (Action N V)} (h : (collecting c keys).Reach s)
    (he : (context c.on keys).exec s as = some s') : (collecting c keys).Reach s' := by
  induction as generalizing s with
  | nil =>
    cases he
    exact h
  | cons a as ih =>
    obtain ⟨t, ht, hrest⟩ := Option.bind_eq_some_iff.mp he
    exact ih (h.step (a := some a) trivial ht) hrest

variable (hsteady : WatchedSets.Steady c.matcher.Matches c.matcher.Concerns)

include hsteady

/-- An entity that is collected leaves the group, and stays collected. -/
theorem stays_collected (hno : ¬ c.For GroupEvent.REMOVED) (h : (collecting c keys).Reach s)
    (he : s.objects[o]? = some e) (henabled : e.enabled = true) (hone : c.matcher.Concerns name)
    (hname : name ∈ e.names) (hg : s.groups.get c.matcher = some group) (hin : o ∈ group)
    (hcollected : o ∈ s.listeners) :
    ∃ (s' : Context N F V (Finset Nat)) (e' : Entity N F V), (collecting c keys).Reach s' ∧
      s'.objects[o]? = some e' ∧ ¬ c.matcher.Matches e'.names ∧ o ∈ s'.listeners := by
  obtain ⟨s', value, hvalue, hremove⟩ := remove_of_some (s := s) (o := o) c.on_isSome hname
  have hstep : (collecting c keys).step s (some (.remove o name)) = some s' :=
    step_remove keys he henabled hvalue hremove
  obtain ⟨he', -⟩ := removeComponent_group (m := c.matcher) he hremove
  refine ⟨s', _, h.step trivial hstep, he', ?_, ?_⟩
  · rw [Entity.names_del]
    exact hsteady.not_of_not_mem hone (Finset.notMem_erase name e.names)
  · have hl := listeners_of_kind hremove hg hone (show _ = some Kind.removed from if_pos hin)
    rw [show s'.listeners = c.collect o s.listeners .removed from hl, collect, if_neg hno]
    exact hcollected

omit hsteady in
/-- What is collected is what the matcher matches, in every run. -/
def AlwaysMatching (V : Type*) (c : Collector N) (keys : N → List F) : Prop :=
  ∀ s : Context N F V (Finset Nat), (collecting c keys).Reach s → ∀ o ∈ s.listeners,
    ∃ e : Entity N F V, s.objects[o]? = some e ∧ e.enabled = true ∧ c.matcher.matchEntity e = true

/-- A collector that keeps what leaves: an entity with a component that concerns the matcher is collected,
when the component comes back or when it is replaced, and then leaves the group. -/
theorem not_alwaysMatching (v : V) (hsome : ¬ c.matcher.Never) (hc : ¬ c.Dropping) :
    ¬ AlwaysMatching V c keys := by
  intro hall
  have hno : ¬ c.For GroupEvent.REMOVED := fun h => hc (.inl h)
  obtain ⟨T, hT⟩ : ∃ T, c.matcher.Matches T := by
    by_contra hnot
    exact hsome (c.matcher.never_iff.mpr fun S hS => hnot ⟨S, hS⟩)
  obtain ⟨a, ha⟩ : ∃ a, c.matcher.Concerns a := by
    rcases hsteady with hnever | ⟨hex, -⟩
    · exact absurd hT (hnever T)
    · exact hex
  have haT : a ∈ T := by
    by_contra hout
    exact hsteady.not_of_not_mem ha hout hT
  -- the first entity has the components `T`
  obtain ⟨b, hb⟩ := WatchedSets.reach_set c.matcher.Matches c.matcher.Concerns T
  obtain ⟨as, s, e, group, hs, he, henabled, hnames, hg, hbit⟩ :=
    realized c.matcher keys c.on_isSome (∅ : Finset Nat) (V := V) hb
  have hreach : (collecting c keys).Reach s := reach_exec (.start rfl) hs
  have hin : 0 ∈ group := hbit.mpr ((WatchedSets.exact_iff_steady.mpr hsteady _ hb).mpr hT)
  have hae : a ∈ e.names := hnames ▸ haT
  -- once it is collected, it leaves
  have hleave {t : Context N F V (Finset Nat)} {x : Entity N F V} {group : Finset Nat}
      (ht : (collecting c keys).Reach t) (hx : t.objects[0]? = some x) (hon : x.enabled = true)
      (hax : a ∈ x.names) (hg : t.groups.get c.matcher = some group) (hin : 0 ∈ group)
      (hcollected : 0 ∈ t.listeners) : False := by
    obtain ⟨s', e', hs', he', hnot, hcollected'⟩ :=
      stays_collected hsteady hno ht hx hon ha hax hg hin hcollected
    obtain ⟨y, hy, -, hm⟩ := hall s' hs' 0 hcollected'
    obtain rfl := Option.some.inj (he'.symm.trans hy)
    exact hnot ((c.matcher.matchEntity_iff e').mp hm)
  by_cases hadded : c.For GroupEvent.ADDED
  · -- the component goes and comes back
    obtain ⟨t, value, hvalue, hremove⟩ := remove_of_some (s := s) (o := 0) c.on_isSome hae
    have ht : (collecting c keys).Reach t :=
      hreach.step (a := some (.remove 0 a)) trivial (step_remove keys he henabled hvalue hremove)
    obtain ⟨hx, f, hf, hh⟩ := removeComponent_group (m := c.matcher) he hremove
    have hgt : t.groups.get c.matcher = some (f group) := hf.trans (congrArg _ hg)
    have hout : 0 ∉ f group := fun hmem => ((hh group).concerned ha).mp hmem
    obtain ⟨u, value', caches, hu, hadd⟩ := add_of_none keys c.on_isSome hx henabled
      (by rw [Entity.names_del]; exact Finset.notMem_erase a e.names) []
    have hureach : (collecting c keys).Reach u := ht.step (a := some (.add 0 a [])) trivial hu
    obtain ⟨hy, f', hf', hh'⟩ := addComponent_group (s := { t with caches := caches }) (m := c.matcher) hx hadd
    have hmatch : c.matcher.Matches (insert a (e.names.erase a)) := by
      rw [Finset.insert_erase hae, hnames]
      exact hT
    have hkind : (handleEntity 0 { e with components := (e.components.del a).set a value' } false c.matcher
        (f group)).2 = some .added := by
      have hm : c.matcher.matchEntity
          ({ e with components := (e.components.del a).set a value' } : Entity N F V) = true := by
        rw [Matcher.matchEntity_iff]
        have hset := Entity.names_set ({ e with components := e.components.del a } : Entity N F V) a value'
        rw [Entity.names_del] at hset
        exact hset ▸ hmatch
      unfold handleEntity
      rw [hm]
      exact if_neg hout
    have hl := listeners_of_kind hadd hgt ha hkind
    refine hleave hureach hy henabled ?_ (hf'.trans (congrArg _ hgt)) ?_ ?_
    · rw [Entity.names_set]
      exact Finset.mem_insert_self _ _
    · refine ((hh' _).concerned ha).mpr ?_
      rw [Entity.names_del]
      exact hmatch
    · rw [show u.listeners = c.collect 0 t.listeners .added from hl, collect, if_pos hadded]
      exact Finset.mem_insert_self 0 _
  · -- the component is replaced
    have hupdate : c.For GroupEvent.UPDATE := by
      by_contra hnot
      exact hc (.inr ⟨hadded, fun h => h hnot⟩)
    obtain ⟨value, hvalue⟩ := Option.isSome_iff_exists.mp ((e.mem_names a).mp hae)
    obtain ⟨t, hreplace⟩ : ∃ t, s.replaceComponent c.on 0 e a (replaceFields (keys a) [some v] value) = some t :=
      dispatch_isSome c.on_isSome _ _ _ _ _
    have hstep : step c.on keys s (.replace 0 a [some v]) = some t := by
      show (s.objects[0]?).bind _ = _
      rw [he, Option.bind_some, henabled]
      simp only [hvalue]
      exact hreplace
    obtain ⟨hx, hgt⟩ := replaceComponent_group (m := c.matcher) he hreplace
    have hl := listeners_of_kind hreplace hg ha (show _ = some Kind.updated from if_pos hin)
    refine hleave (hreach.step (a := some (.replace 0 a [some v])) trivial hstep) hx henabled ?_
      (hgt.trans hg) hin ?_
    · rw [Entity.names_set]
      exact Finset.mem_insert_self _ _
    · rw [show t.listeners = c.collect 0 s.listeners .updated from hl, collect, if_pos hupdate]
      exact Finset.mem_insert_self 0 _

end Keeping

/-- In every run each entity that is collected is one that the matcher of the group matches, if and only if
the collector is made for the event of leaving the group, or neither for that of coming nor for that of a
replaced component. -/
theorem collected_iff [Nonempty V] (hsteady : c.matcher.Steady) (hsome : ¬ c.matcher.Never) :
    AlwaysMatching V c keys ↔ c.Dropping := by
  have hwatched := (c.matcher.steady_iff).mpr hsteady
  refine ⟨fun hall => ?_, fun hc s hs o ho => ?_⟩
  · obtain ⟨v⟩ := ‹Nonempty V›
    by_contra hnot
    exact not_alwaysMatching hwatched v hsome hnot hall
  · obtain ⟨hr, hf, group, hg, hw⟩ := held_of_reach hwatched hc hs
    obtain ⟨e, he, hm⟩ := (hf group hg o).mp (hw.subset ho)
    refine ⟨e, he, ?_, (c.matcher.matchEntity_iff e).mpr hm⟩
    by_contra hoff
    rw [Entity.names_eq_empty (hr.empty o e he (Bool.not_eq_true _ ▸ hoff))] at hm
    exact hwatched.not_empty hm

/-- The collectors of the group of one component, for its coming, and for its coming and leaving. -/
theorem collected_iff_one :
    ¬ AlwaysMatching Nat ⟨⟨some [0], none, none⟩, GroupEvent.ADDED⟩ (fun (_ : Nat) => ([] : List Nat)) ∧
      AlwaysMatching Nat ⟨⟨some [0], none, none⟩, GroupEvent.ADDED ||| GroupEvent.REMOVED⟩
        (fun (_ : Nat) => ([] : List Nat)) := by
  have hsteady : Matcher.Steady (⟨some [0], none, none⟩ : Matcher Nat) := .inr ⟨rfl, trivial⟩
  have hsome : ¬ Matcher.Never (⟨some [0], none, none⟩ : Matcher Nat) := by simp [Matcher.Never]
  rw [collected_iff hsteady hsome, collected_iff hsteady hsome]
  exact ⟨by unfold Dropping; decide, .inl (by decide)⟩

end Collector

end AntServer.Entitas
