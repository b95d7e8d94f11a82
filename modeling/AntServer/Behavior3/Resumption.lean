/-
# AntServer.Behavior3.Resumption — where `MemSequence` and `MemPriority` go on

A composite with a memory writes the index of a child that is running to the blackboard. The next tick
is to begin with that child, and the first one again once the composite was closed (`Resumes`).

`memSequence:tick` and `memPriority:tick` read the index into a local that nothing uses and begin with the
first child, always. A run of ticks resumes exactly when every tick of it but the last is left running
by no child but the first (`resumes_iff`).
-/
import AntServer.Behavior3.Executions

namespace AntServer.Behavior3

open Lib (Comp)

/-! ## The two classes -/

/-- The two composites with a memory. -/
inductive MemComposite where
  | memPriority
  | memSequence
  deriving DecidableEq, Repr

def MemComposite.cls : MemComposite → CompositeClass
  | .memPriority => .memPriority
  | .memSequence => .memSequence

/-- The status at which the class goes on with the next child. -/
def MemComposite.go : MemComposite → Status
  | .memPriority => .failure
  | .memSequence => .success

/-! ## The children a tick executes -/

section ChildrenRan

variable (execute : Node → M (Option Status)) (go : Status)

/-- The executions of `childLoop` from a state: the index of each child and how it ended. -/
def childrenRan : Nat → List Node → State → List (Nat × Ended (Option Status))
  | _, [], _ => []
  | i, v :: vs, s =>
    match execute v s with
    | none => [(i, none)]
    | some (.error e, _) => [(i, some (.error e))]
    | some (.ok status, s') =>
      (i, some (.ok status)) :: if status = some go then childrenRan (i + 1) vs s' else []

/-- The loop comes to what the last child came to, and to `go` if there is none. -/
theorem childLoop_ended (write : Nat → State → State) (i : Nat) (children : List Node)
    (ran : List (Option Status)) (s : State) :
    (childLoop execute go (fun i => Comp.update (write i)) i children ran s).map Prod.fst =
      match (childrenRan execute go i children s).getLast? with
      | none => some (.ok (some go, ran))
      | some (_, none) => none
      | some (_, some (.error e)) => some (.error e)
      | some (_, some (.ok status)) =>
        some (.ok (status,
          ran ++ statuses ((childrenRan execute go i children s).map Prod.snd))) := by
  induction children generalizing i ran s with
  | nil => rfl
  | cons v vs ih =>
    simp only [childLoop, childrenRan, Comp.bind_apply]
    rcases hv : execute v s with - | ⟨e | status, s'⟩
    · rfl
    · rfl
    · by_cases hgo : status = some go
      · simp only [hgo, ne_eq, not_true_eq_false, if_false, if_true]
        rw [ih (i + 1) (ran ++ [some go]) s']
        generalize childrenRan execute go (i + 1) vs s' = rest
        -- the last of the rest is the last of all, if there is a rest
        rcases List.eq_nil_or_concat' rest with rfl | ⟨rest, ⟨j, last⟩, rfl⟩
        · rfl
        · rw [List.getLast?_concat, ← List.cons_append, List.getLast?_concat]
          rcases last with - | e | status
          · rfl
          · rfl
          · simp [statuses, Except.toOption]
      · simp only [hgo, ne_eq, not_false_eq_true, if_true, if_false]
        split
        · rfl
        · rfl

/-! ## One after the other -/

/-- They are executed in order, each but the last returned `go`, and the last one did so only if it is
the last child. -/
structure InOrder (n start : Nat) (ran : List (Nat × Ended (Option Status))) : Prop where
  indices : ran.map Prod.fst = List.range' start ran.length
  begins : start ≤ n → ran ≠ []
  within : ∀ x ∈ ran, x.1 ≤ n
  goesOn : ∀ before x after, ran = before ++ x :: after → after ≠ [] → x.2 = some (.ok (some go))
  stops : ∀ x ∈ ran.getLast?, x.2 = some (.ok (some go)) → x.1 = n

/-- Where it begins can be read off what was executed. -/
theorem InOrder.start_eq {n a b : Nat} {ran : List (Nat × Ended (Option Status))}
    (ha : InOrder go n a ran) (hb : InOrder go n b ran) (h : ran ≠ []) : a = b := by
  obtain ⟨x, rest, rfl⟩ := List.exists_cons_of_ne_nil h
  have hrange := ha.indices.symm.trans hb.indices
  simp only [List.length_cons, List.range'_succ] at hrange
  exact (List.cons.inj hrange).1

theorem InOrder.eq_nil {n start : Nat} {ran : List (Nat × Ended (Option Status))}
    (h : InOrder go n start ran) (hlt : n < start) : ran = [] := by
  by_contra hran
  obtain ⟨x, rest, rfl⟩ := List.exists_cons_of_ne_nil hran
  have hindices := h.indices
  simp only [List.map_cons, List.length_cons, List.range'_succ] at hindices
  have hle := h.within x List.mem_cons_self
  have hfirst := (List.cons.inj hindices).1
  omega

/-- Only the last child can be the one that returned anything else. -/
theorem InOrder.getLast_of_mem {n start : Nat} {ran : List (Nat × Ended (Option Status))}
    (h : InOrder go n start ran) {x : Nat × Ended (Option Status)} (hx : x ∈ ran)
    (hne : x.2 ≠ some (.ok (some go))) : ran.getLast? = some x := by
  obtain ⟨before, after, rfl⟩ := List.append_of_mem hx
  have hafter : after = [] := by
    by_contra hafter
    exact hne (h.goesOn before x after rfl hafter)
  rw [hafter, List.getLast?_concat]

theorem inOrder_nil {n start : Nat} (h : n < start) : InOrder go n start [] where
  indices := rfl
  begins := fun hle => by omega
  within := by simp
  goesOn := by simp
  stops := by simp

/-- A child that does not let the composite go on is the last one of the tick. -/
theorem inOrder_singleton {n start : Nat} {result : Ended (Option Status)} (hle : start ≤ n)
    (h : result ≠ some (.ok (some go))) : InOrder go n start [(start, result)] where
  indices := rfl
  begins := by simp
  within := by simpa using hle
  goesOn := by
    intro before x after heq hafter
    have hlen := congrArg List.length heq
    have hpos := List.length_pos_iff.mpr hafter
    simp only [List.length_append, List.length_cons, List.length_nil] at hlen
    omega
  stops := by
    intro x hx hgo
    obtain rfl := Option.some.inj hx
    exact absurd hgo h

theorem inOrder_cons {n start : Nat} {rest : List (Nat × Ended (Option Status))} (hle : start ≤ n)
    (h : InOrder go n (start + 1) rest) : InOrder go n start ((start, some (.ok (some go))) :: rest) where
  indices := by
    rw [List.map_cons, h.indices]
    rfl
  begins := by simp
  within := List.forall_mem_cons.mpr ⟨hle, h.within⟩
  goesOn := by
    intro before x after heq hafter
    rcases before with - | ⟨y, before⟩
    · obtain ⟨rfl, rfl⟩ := List.cons.inj heq
      rfl
    · exact h.goesOn before x after (List.cons.inj heq).2 hafter
  stops := by
    intro x hx hgo
    rcases List.eq_nil_or_concat' rest with rfl | ⟨rest, last, rfl⟩
    · obtain rfl := Option.some.inj hx
      -- nothing after it was executed, so there is no child after it
      have hend : ¬ start + 1 ≤ n := fun hlt => h.begins hlt rfl
      change start = n
      omega
    · rw [← List.cons_append, List.getLast?_concat] at hx
      exact h.stops x (by rwa [List.getLast?_concat]) hgo

/-- The loop is in order from where it begins. -/
theorem childrenRan_inOrder {n i : Nat} {children : List Node} (h : n + 1 = i + children.length)
    (s : State) : InOrder go n i (childrenRan execute go i children s) := by
  induction children generalizing i s with
  | nil =>
    apply inOrder_nil
    simp only [List.length_nil] at h
    omega
  | cons v vs ih =>
    simp only [List.length_cons] at h
    simp only [childrenRan]
    split
    · exact inOrder_singleton go (by omega) (by simp)
    · exact inOrder_singleton go (by omega) (by simp)
    · rename_i status s' _
      by_cases hgo : status = some go
      · rw [if_pos hgo, hgo]
        exact inOrder_cons go (by omega) (ih (by omega) s')
      · rw [if_neg hgo]
        exact inOrder_singleton go (by omega) (by simpa using hgo)

end ChildrenRan

/-! ## Runs of ticks -/

/-- The first child of the next tick: the one that left the composite RUNNING; the first one of all when
the composite was closed; the same as before when the tick raised. -/
def nextStart (start : Nat) (v : Visit (Nat × Ended (Option Status))) : Nat :=
  match v.outcome with
  | some (.ok (some .running)) => (v.ran.getLast?.map Prod.fst).getD 1
  | some (.ok _) => 1
  | _ => start

/-- Every tick executes the children in order from the child at which the tick before it stopped. A run
that begins with the composite closed is to begin with child 1. -/
def Resumes (go : Status) (n : Nat) : Nat → List (Visit (Nat × Ended (Option Status))) → Prop
  | _, [] => True
  | start, v :: vs => InOrder go n start v.ran ∧ Resumes go n (nextStart start v) vs

section Runs

variable (env : Env) (execute : Node → M (Option Status)) (id : String) (children : List Node)
  (c : MemComposite)

/-- A tick of a composite, with the children it executes. -/
def memTick (s : State) : Visit (Nat × Ended (Option Status)) :=
  visit env (compositeTick execute id children c.cls)
    (childrenRan execute c.go 1 children) (.composite id c.cls children) s

def memTicks (changes : List (State → State)) (s : State) : List (Visit (Nat × Ended (Option Status))) :=
  visits env (compositeTick execute id children c.cls)
    (childrenRan execute c.go 1 children) (.composite id c.cls children) changes s

/-- `tick` begins with the first child, whatever the memory says. -/
theorem compositeTick_eq (s : State) :
    compositeTick execute id children c.cls s =
      childLoop execute c.go
        (fun i => setMemory id fun m => { m with runningChild := some i }) 1 children [] s := by
  cases c
  · rfl
  · rfl

/-- OPEN of a composite with a memory does not raise. -/
theorem memComposite_opens (s : State) :
    ∃ s', enterAndOpen env (.composite id c.cls children) s = some (.ok ⟨⟩, s') := by
  have hopen : ∀ s₁, ∃ s', openIfClosed env (.composite id c.cls children) s₁ = some (.ok ⟨⟩, s') := by
    intro s₁
    unfold openIfClosed
    rw [getMemory, Comp.read_bind]
    split
    · exact ⟨s₁, rfl⟩
    · cases c
      · exact ⟨_, rfl⟩
      · exact ⟨_, rfl⟩
  exact hopen _

/-- A tick executes the children in order from the first one, and comes to what the last of them came
to. -/
theorem memTick_inOrder (s : State) :
    InOrder c.go children.length 1 (memTick env execute id children c s).ran ∧
      (memTick env execute id children c s).outcome =
        ((memTick env execute id children c s).ran.getLast?.map Prod.snd).getD (some (.ok (some c.go))) := by
  obtain ⟨s', hs'⟩ := memComposite_opens env id children c s
  have hran : (memTick env execute id children c s).ran = childrenRan execute c.go 1 children s' := by
    simp only [memTick, visit, observeTick, hs']
  rw [hran]
  refine ⟨childrenRan_inOrder execute c.go (by omega) s', ?_⟩
  have hended := childLoop_ended execute c.go
    (fun i s => { s with blackboard := s.blackboard.setMemory (s.key id) fun m => { m with runningChild := some i } })
    1 children [] s'
  have houtcome : (memTick env execute id children c s).outcome =
      (((compositeTick execute id children c.cls s').map Prod.fst).map fun r => r.map Prod.fst) := by
    simp only [memTick, visit, baseExecute_outcome, hs', Option.map_map]
    rfl
  rw [houtcome, compositeTick_eq]
  simp only [setMemory]
  rw [hended]
  rcases (childrenRan execute c.go 1 children s').getLast? with - | ⟨j, - | e | status⟩
  · rfl
  · rfl
  · rfl
  · rfl

end Runs

/-! ## When every tick begins where it should -/

/-- What a tick of the code is like: in order from the first child, with the result of the last one. -/
structure FromFirst (go : Status) (n : Nat) (v : Visit (Nat × Ended (Option Status))) : Prop where
  inOrder : InOrder go n 1 v.ran
  outcome : v.outcome = (v.ran.getLast?.map Prod.snd).getD (some (.ok (some go)))

/-- The next tick is to begin with the first child exactly when no other one is left running. -/
theorem FromFirst.nextStart_iff {go : Status} {n : Nat} {v : Visit (Nat × Ended (Option Status))}
    (h : FromFirst go n v) (hgo : go ≠ .running) :
    nextStart 1 v = 1 ↔ ∀ i, (i, some (.ok (some .running))) ∈ v.ran → i = 1 := by
  constructor
  · intro hnext i hi
    have hlast := h.inOrder.getLast_of_mem go hi (by simpa using hgo.symm)
    simpa [nextStart, h.outcome, hlast] using hnext
  · intro hall
    unfold nextStart
    rcases hlast : v.ran.getLast? with - | ⟨j, result⟩
    · rw [h.outcome, hlast]
      split
      · rfl
      · rfl
      · rfl
    · rw [h.outcome, hlast]
      split
      · rename_i hrunning
        simp only [Option.map_some, Option.getD_some] at hrunning ⊢
        exact hall j (hrunning ▸ List.mem_of_getLast? hlast)
      · rfl
      · rfl

/-- A run of such ticks resumes exactly when no tick but the last leaves another child than the first
running. -/
theorem resumes_iff_isChain {go : Status} {n : Nat} (hgo : go ≠ .running)
    {vs : List (Visit (Nat × Ended (Option Status)))} (h : ∀ v ∈ vs, FromFirst go n v) :
    Resumes go n 1 vs ↔
      vs.IsChain fun v _ => ∀ i, (i, some (.ok (some .running))) ∈ v.ran → i = 1 := by
  induction vs with
  | nil => simp [Resumes]
  | cons v vs ih =>
    have hv := h v List.mem_cons_self
    have ih := ih fun w hw => h w (List.mem_cons_of_mem _ hw)
    rcases vs with - | ⟨w, ws⟩
    · simp [Resumes, hv.inOrder]
    · rw [List.isChain_cons_cons, ← hv.nextStart_iff hgo, ← ih]
      constructor
      · rintro ⟨-, hw, hws⟩
        -- the next tick began with the first child, and was to begin with the one that stopped
        have hstart : nextStart 1 v = 1 := by
          by_cases hran : w.ran = []
          · have hnone : ¬ 1 ≤ n := fun hle => (h w (by simp)).inOrder.begins hle hran
            rw [hv.nextStart_iff hgo, hv.inOrder.eq_nil go (by omega)]
            simp
          · exact hw.start_eq go (h w (by simp)).inOrder hran
        rw [hstart] at hw hws
        exact ⟨hstart, hw, hws⟩
      · rintro ⟨hstart, hrest⟩
        refine ⟨hv.inOrder, ?_⟩
        rw [hstart]
        exact hrest

theorem MemComposite.go_ne_running (c : MemComposite) : c.go ≠ .running := by
  cases c
  · decide
  · decide

/-- In every run of ticks of a `MemSequence` or a `MemPriority`, each tick goes on where the one before it
stopped exactly when no tick but the last leaves another child than the first running. -/
theorem resumes_iff (env : Env) (execute : Node → M (Option Status)) (id : String) (children : List Node)
    (c : MemComposite) (changes : List (State → State)) (s : State) :
    Resumes c.go children.length 1 (memTicks env execute id children c changes s) ↔
      (memTicks env execute id children c changes s).IsChain
        fun v _ => ∀ i, (i, some (.ok (some .running))) ∈ v.ran → i = 1 := by
  apply resumes_iff_isChain c.go_ne_running
  apply forall_mem_visits
  intro s
  obtain ⟨horder, houtcome⟩ := memTick_inOrder env execute id children c s
  exact ⟨horder, houtcome⟩

/-- The first child of a `MemSequence` returns SUCCESS and the second is running: the next tick executes
the first one again. -/
theorem not_resumes : ¬ Resumes .success 2 1
    (memTicks ⟨none, fun _ => .raised, fun _ => 0⟩
      (execute ⟨none, fun _ => .raised, fun _ => 0⟩ 1) "m"
      [.action "a" .succeeder, .action "b" .runner] .memSequence (List.replicate 2 fun s => s) .initial) := by
  have hran : ∃ v w, memTicks ⟨none, fun _ => .raised, fun _ => 0⟩
      (execute ⟨none, fun _ => .raised, fun _ => 0⟩ 1) "m"
      [.action "a" .succeeder, .action "b" .runner] .memSequence (List.replicate 2 fun s => s) .initial =
        [v, w] ∧ nextStart 1 v = 2 ∧ w.ran.map Prod.fst = [1, 2] := ⟨_, _, rfl, by decide, by decide⟩
  obtain ⟨v, w, hvisits, hstart, hran⟩ := hran
  rw [hvisits]
  rintro ⟨-, hw, -⟩
  have hlen := congrArg List.length hran
  rw [List.length_map] at hlen
  rw [hstart] at hw
  have hindices := hw.indices
  rw [hran, hlen] at hindices
  exact absurd hindices (by decide)

end AntServer.Behavior3
