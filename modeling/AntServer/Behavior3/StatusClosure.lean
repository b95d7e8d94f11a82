/-
# AntServer.Behavior3.StatusClosure — what the nodes of a tick return

A tick should raise no error, every node should return one of the four statuses, and a composite or a
decorator the one its class derives from the children it executed (`Closed`). The composites but
`Selector`, the `Inverter` and the actions but `Wait` do so whatever their children are. The other classes
do not: some raise or return nil whenever they are entered, and a `Repeater` returns SUCCESS whatever its
child returned. So a tick is closed exactly when it enters no such node, and every `Repeater` it executes
has a child whose last status was SUCCESS (`SoundEvent`).

`Verdict` says this of a part of a tick; it composes, and over the recursion it is an induction on the
bound with one case for each class.
-/
import AntServer.Behavior3.BehaviorTree

namespace AntServer.Behavior3

open Lib (Table Comp)
open Lib.Comp (Ends)

/-! ## What the classes define -/

/-- The first status of the children that is not `go`, or `go` after all of them. -/
def FirstNot (go : Status) (children : List Node) (ran : List (Option Status)) (status : Option Status) :
    Prop :=
  status = (ran.find? fun s => s ≠ some go).getD (some go) ∧
    (status = some go → ran.length = children.length)

/-- The status that the class of a node defines for the statuses of the children it executed. A decorator
without a child returns ERROR. -/
def Derives : Node → List (Option Status) → Option Status → Prop
  | .composite _ .sequence children, ran, status => FirstNot .success children ran status
  | .composite _ .memSequence children, ran, status => FirstNot .success children ran status
  | .composite _ .priority children, ran, status => FirstNot .failure children ran status
  | .composite _ .memPriority children, ran, status => FirstNot .failure children ran status
  | .composite _ .selector children, ran, status => FirstNot .failure children ran status
  | .decorator _ _ none, _, status => status = some .error
  | .decorator _ .inverter (some _), ran, status => ∃ s, ran = [s] ∧ status = invert s
  | .decorator _ .limiter (some _), ran, status =>
    ran = [] ∧ status = some .failure ∨ ∃ s, ran = [s] ∧ status = s
  | .decorator _ .maxTime (some _), ran, status => ∃ s, ran = [s] ∧ (status = s ∨ status = some .failure)
  | .decorator _ .repeatUntilFailure (some _), ran, status => status = ran.getLast?.getD (some .error)
  | .decorator _ .repeatUntilSuccess (some _), ran, status => status = ran.getLast?.getD (some .error)
  | .decorator _ (.repeater _) (some _), ran, status => status = ran.getLast?.getD (some .success)
  | .base _, _, _ => True
  | .custom _, _, _ => True
  | .action _ _, _, _ => True
  | .subTree _ _, _, _ => True

/-- An execution that ends as its class defines, with one of the four statuses. -/
def GoodEvent : Event → Prop
  | .executed _ node ran status => status.isSome = true ∧ Derives node ran status
  | .entered _ _ _ _ => True
  | .opened _ => True
  | .closed _ => True

/-- The tick raises no error and returns a status, and every execution in it ends as its class
defines. -/
structure Closed (r : Except LuaError (Option Status)) (trace : List Event) : Prop where
  returns : ∃ status, r = .ok (some status)
  derived : ∀ e ∈ trace, GoodEvent e

/-! ## The nodes that can be entered -/

/-- A node that does what its class says when it is entered with this memory. -/
def SoundEntry (env : Env) : Node → NodeMemory → LeafResult → Prop
  | .base _, _, _ => False
  | .custom _, _, next => ∃ status, next = .value (some status)
  | .action _ .wait, _, _ => False
  | .action _ _, _, _ => True
  | .subTree _ name, _, _ => ∃ load tree, env.subTreeLoadFunc = some load ∧ load name = some tree
  | .composite _ .selector _, _, _ => False
  | .composite _ _ _, _, _ => True
  | .decorator _ .inverter _, _, _ => True
  | .decorator _ .maxTime _, _, _ => False
  | .decorator _ (.repeater maxLoop) child, memory, _ =>
    child.isNone = true ∨ maxLoop.isSome = true ∧ (memory.isOpen = true → memory.i.isSome = true)
  | .decorator _ .limiter child, memory, _ => child.isNone = true ∧ memory.isOpen = true
  | .decorator _ .repeatUntilFailure child, memory, _ => child.isNone = true ∧ memory.isOpen = true
  | .decorator _ .repeatUntilSuccess child, memory, _ => child.isNone = true ∧ memory.isOpen = true

/-- The last child of a `Repeater` returned SUCCESS. -/
def SoundEnd : Node → List (Option Status) → Prop
  | .decorator _ (.repeater _) (some _), ran => ran.getLast?.getD (some .success) = some .success
  | _, _ => True

def SoundEvent (env : Env) : Event → Prop
  | .entered _ node memory next => SoundEntry env node memory next
  | .executed _ node ran _ => SoundEnd node ran
  | .opened _ => True
  | .closed _ => True

/-! ## Parts of a tick -/

/-- A part of a tick: it has sound events only exactly when it returns and has good events only, and what
it then returns meets `P`. -/
def Verdict (env : Env) {α : Type} (s : State) (P : α → Prop) (r : Except LuaError α) (s' : State) : Prop :=
  ∃ events, s'.trace = s.trace ++ events ∧
    ((∀ e ∈ events, SoundEvent env e) ↔ Comp.returned r = true ∧ ∀ e ∈ events, GoodEvent e) ∧
    ∀ a, r = .ok a → (∀ e ∈ events, SoundEvent env e) → P a

section Verdict

variable {env : Env} {α β : Type}

theorem verdict_quiet {s s' : State} {a : α} {P : α → Prop} (h : s'.trace = s.trace) (ha : P a) :
    Verdict env s P (.ok a) s' := by
  refine ⟨[], by rw [h, List.append_nil], ?_, ?_⟩
  · simp [Comp.returned]
  · rintro b hb -
    obtain rfl := Except.ok.inj hb
    exact ha

theorem Verdict.mono {s s' : State} {r : Except LuaError α} {P Q : α → Prop}
    (h : Verdict env s P r s') (hPQ : ∀ a, P a → Q a) : Verdict env s Q r s' := by
  obtain ⟨events, htrace, hiff, hval⟩ := h
  exact ⟨events, htrace, hiff, fun a ha hsound => hPQ a (hval a ha hsound)⟩

theorem ends_verdict_pure {s : State} {a : α} {P : α → Prop} (ha : P a) :
    (pure a : M α).Ends s (Verdict env s P) := Comp.ends_pure (verdict_quiet rfl ha)

theorem ends_verdict_bind {x : M α} {f : α → M β} {s : State} {P : α → Prop} {Q : β → Prop}
    (hx : x.Ends s (Verdict env s P))
    (hf : ∀ a s₁, (f a).Ends s₁ (Verdict env s₁ fun b => P a → Q b)) :
    (x >>= f : M β).Ends s (Verdict env s Q) := by
  apply Comp.ends_bind
  intro r s₁ h₁
  obtain ⟨events₁, htrace₁, hiff₁, hval₁⟩ := hx r s₁ h₁
  match r with
  | .error e => exact ⟨events₁, htrace₁, hiff₁, fun b hb => by cases hb⟩
  | .ok a =>
    intro r₂ s₂ h₂
    obtain ⟨events₂, htrace₂, hiff₂, hval₂⟩ := hf a s₁ r₂ s₂ h₂
    refine ⟨events₁ ++ events₂, ?_, ?_, ?_⟩
    · rw [htrace₂, htrace₁, List.append_assoc]
    · rw [List.forall_mem_append, List.forall_mem_append, hiff₁, hiff₂]
      simp only [Comp.returned, true_and]
      tauto
    · intro b hb hsound
      rw [List.forall_mem_append] at hsound
      exact hval₂ b hb hsound.2 (hval₁ a rfl hsound.1)

end Verdict

/-! ## The `tick` of a node that can be entered -/

section Tick

variable {env : Env} {execute : Node → M (Option Status)}

/-- What holds of the children: their parts of the tick, and that what they return is a status. -/
def Executes (env : Env) (execute : Node → M (Option Status)) : Prop :=
  ∀ v s, (execute v).Ends s (Verdict env s fun status => status.isSome = true)

theorem ends_setMemory (id : String) (f : NodeMemory → NodeMemory) (s : State) :
    (setMemory id f).Ends s (Verdict env s fun _ => True) :=
  Comp.ends_update (verdict_quiet rfl trivial)

variable (hexec : Executes env execute)

include hexec

/-- The loop of the composites, from the children `vs` on. -/
theorem ends_childLoop (go : Status) {onRunning : Nat → M Unit}
    (hrunning : ∀ i s, (onRunning i).Ends s (Verdict env s fun _ => True)) (i : Nat) (vs : List Node)
    (ran : List (Option Status)) (s : State) :
    (childLoop execute go onRunning i vs ran).Ends s (Verdict env s fun res =>
      res.1.isSome = true ∧ ∃ rest, res.2 = ran ++ rest ∧ FirstNot go vs rest res.1) := by
  induction vs generalizing i ran s with
  | nil =>
    refine ends_verdict_pure ⟨rfl, [], (List.append_nil _).symm, rfl, fun _ => rfl⟩
  | cons v vs ih =>
    apply ends_verdict_bind (hexec v s)
    intro status s₁
    split
    · rename_i hstop
      -- the loop stops at this child
      have hend : status.isSome = true → status.isSome = true ∧
          ∃ rest, ran ++ [status] = ran ++ rest ∧ FirstNot go (v :: vs) rest status := by
        refine fun hsome => ⟨hsome, [status], rfl, ?_, fun hgo => absurd hgo hstop⟩
        simp [hstop]
      split
      · apply ends_verdict_bind (hrunning i s₁)
        intro _ s₂
        exact ends_verdict_pure fun _ hsome => hend hsome
      · exact ends_verdict_pure hend
    · rename_i hgo
      have hgo : status = some go := not_not.mp hgo
      refine (ih (i + 1) (ran ++ [status]) s₁).mono fun r s' hv => hv.mono ?_
      rintro res ⟨hsome, rest, hran, hfirst, hall⟩ -
      refine ⟨hsome, status :: rest, by rw [hran, List.append_assoc]; rfl, ?_, fun h => ?_⟩
      · simp [hgo, hfirst]
      · rw [List.length_cons, hall h, List.length_cons]

theorem ends_compositeTick (id : String) (children : List Node) (cls : CompositeClass)
    (hcls : cls ≠ .selector) (s : State) :
    (compositeTick execute id children cls).Ends s (Verdict env s fun res =>
      res.1.isSome = true ∧ Derives (.composite id cls children) res.2 res.1) := by
  have hloop : ∀ go {onRunning : Nat → M Unit},
      (∀ i s, (onRunning i).Ends s (Verdict env s fun _ => True)) → ∀ s,
      (childLoop execute go onRunning 1 children []).Ends s (Verdict env s fun res =>
        res.1.isSome = true ∧ FirstNot go children res.2 res.1) := by
    intro go onRunning hrunning s
    refine (ends_childLoop hexec go hrunning 1 children [] s).mono fun r s' hv => hv.mono ?_
    rintro res ⟨hsome, rest, hran, hfirst⟩
    rw [List.nil_append] at hran
    exact ⟨hsome, hran ▸ hfirst⟩
  have hmem : ∀ go s, (do
      let _child ← getMemory id
      childLoop execute go (fun i => setMemory id fun m => { m with runningChild := some i }) 1 children []
        : M _).Ends s (Verdict env s fun res =>
        res.1.isSome = true ∧ FirstNot go children res.2 res.1) := by
    intro go s
    apply Comp.ends_bind
    apply Comp.ends_read
    exact hloop go (fun i s => ends_setMemory id _ s) s
  cases cls with
  | memPriority => exact hmem .failure s
  | memSequence => exact hmem .success s
  | priority => exact hloop .failure (fun _ s => ends_verdict_pure trivial) s
  | selector => exact absurd rfl hcls
  | sequence => exact hloop .success (fun _ s => ends_verdict_pure trivial) s

/-- The loop of a `Repeater` that has its number and its counter. -/
theorem ends_repeaterLoop (maxLoop : Rat) (child : Node) (rounds : Nat) (i : Int)
    (ran : List (Option Status)) (s : State) :
    (repeaterLoop execute (some maxLoop) child rounds (some i) ran).Ends s
      (Verdict env s fun _ => True) := by
  induction rounds generalizing i ran s with
  | zero => exact Comp.ends_diverge
  | succ n ih =>
    have hgoes : ∀ s, (repeaterGoesOn (some maxLoop) (some i)).Ends s (Verdict env s fun _ => True) := by
      intro s
      unfold repeaterGoesOn
      dsimp only
      split
      · exact ends_verdict_pure trivial
      · exact ends_verdict_pure trivial
    apply ends_verdict_bind (hgoes s)
    intro goesOn s₁
    split
    · apply ends_verdict_bind (hexec child s₁)
      intro status s₂
      split
      · exact (ih (i + 1) (ran ++ [status]) s₂).mono fun r s' hv => hv.mono fun _ _ _ _ => trivial
      · exact ends_verdict_pure fun _ _ => trivial
    · exact ends_verdict_pure fun _ => trivial

omit hexec

/-- The classes whose `open` raises. -/
def hookRaises : Node → Bool
  | .decorator _ .limiter _ => true
  | .decorator _ .repeatUntilFailure _ => true
  | .decorator _ .repeatUntilSuccess _ => true
  | .decorator _ .maxTime (some _) => true
  | _ => false

/-- The state when the `tick` of a node begins that was entered with this memory and this next result:
it was open, or its `open` returned. -/
structure AtTick (env : Env) (node : Node) (memory : NodeMemory) (next : LeafResult) (s : State) :
    Prop where
  leaf : env.leaf s.leaves = next
  hook : memory.isOpen = false → hookRaises node = false
  counter : ∀ id maxLoop child, node = .decorator id (.repeater maxLoop) child →
    (s.memory id).i = if memory.isOpen then memory.i else some 0

variable {node : Node} {memory : NodeMemory} {next : LeafResult} {s : State}
  {tickTree : Tree → M (Option Status)}

include hexec

/-- The `tick` of a node that can be entered. It ends as its class defines exactly when its end is
sound, which for all classes but `Repeater` it is. -/
theorem ends_tickHook_sound
    (htree : ∀ tree s, (tickTree tree).Ends s (Verdict env s fun status => status.isSome = true))
    (hat : AtTick env node memory next s) (hsound : SoundEntry env node memory next) (rounds : Nat) :
    (tickHook env execute tickTree rounds node).Ends s (Verdict env s fun res =>
      res.1.isSome = true ∧ (SoundEnd node res.2 ↔ Derives node res.2 res.1)) := by
  cases node with
  | base id => exact hsound.elim
  | custom id =>
    obtain ⟨status, hstatus⟩ := hsound
    apply Comp.ends_bind
    apply Comp.ends_bind
    apply Comp.ends_read
    apply Comp.ends_bind
    apply Comp.ends_update
    dsimp only
    rw [hat.leaf, hstatus]
    apply Comp.ends_pure
    exact Comp.ends_pure (verdict_quiet rfl ⟨rfl, Iff.rfl⟩)
  | action id cls =>
    cases cls with
    | error => exact ends_verdict_pure ⟨rfl, Iff.rfl⟩
    | failer => exact ends_verdict_pure ⟨rfl, Iff.rfl⟩
    | runner => exact ends_verdict_pure ⟨rfl, Iff.rfl⟩
    | succeeder => exact ends_verdict_pure ⟨rfl, Iff.rfl⟩
    | wait => exact hsound.elim
  | subTree id name =>
    obtain ⟨load, tree, hload, hname⟩ := hsound
    dsimp only [tickHook]
    simp only [hload, hname]
    apply ends_verdict_bind (htree tree s)
    intro status s₁
    exact ends_verdict_pure fun hsome => ⟨hsome, Iff.rfl⟩
  | composite id cls children =>
    have hcls : cls ≠ .selector := by
      rintro rfl
      exact hsound
    exact (ends_compositeTick hexec id children cls hcls s).mono fun r s' hv =>
      hv.mono fun res hres => ⟨hres.1, iff_of_true trivial hres.2⟩
  | decorator id cls child =>
    cases child with
    | none =>
      -- without a child every class but `MaxTime` returns ERROR
      cases cls with
      | maxTime => exact hsound.elim
      | inverter => exact ends_verdict_pure ⟨rfl, iff_of_true trivial rfl⟩
      | limiter => exact ends_verdict_pure ⟨rfl, iff_of_true trivial rfl⟩
      | repeatUntilFailure => exact ends_verdict_pure ⟨rfl, iff_of_true trivial rfl⟩
      | repeatUntilSuccess => exact ends_verdict_pure ⟨rfl, iff_of_true trivial rfl⟩
      | repeater maxLoop => exact ends_verdict_pure ⟨rfl, iff_of_true trivial rfl⟩
    | some child =>
      cases cls with
      | maxTime => exact hsound.elim
      | limiter => exact absurd hsound.1 (by simp)
      | repeatUntilFailure => exact absurd hsound.1 (by simp)
      | repeatUntilSuccess => exact absurd hsound.1 (by simp)
      | inverter =>
        apply ends_verdict_bind (hexec child s)
        intro status s₁
        refine ends_verdict_pure fun hsome => ⟨?_, iff_of_true trivial ⟨status, rfl, rfl⟩⟩
        cases status with
        | none => exact hsome
        | some status => cases status <;> rfl
      | repeater maxLoop =>
        obtain ⟨hnum, hcount⟩ := hsound.resolve_left (by simp)
        obtain ⟨m, rfl⟩ := Option.isSome_iff_exists.mp hnum
        obtain ⟨n, hn⟩ : ∃ n, (s.memory id).i = some n := by
          rw [hat.counter id (some m) (some child) rfl]
          split
          · rename_i hopen
            exact Option.isSome_iff_exists.mp (hcount hopen)
          · exact ⟨0, rfl⟩
        apply Comp.ends_bind
        apply Comp.ends_read
        dsimp only
        rw [hn]
        apply ends_verdict_bind (ends_repeaterLoop hexec m child rounds n [] s)
        intro ran s₁
        apply ends_verdict_bind (ends_setMemory id _ s₁)
        intro _ s₂
        exact ends_verdict_pure fun _ _ => ⟨rfl, eq_comm⟩

/-- A `Repeater` without a number or without its counter raises, or its child ends it with a status that
is not SUCCESS. -/
theorem ends_repeaterTick_unsound {rounds : Nat} {id : String} {maxLoop : Option Rat} {child : Node}
    (hbad : maxLoop = none ∨ (s.memory id).i = none) :
    (repeaterTick execute rounds id maxLoop child).Ends s fun r s' =>
      (∃ events, s'.trace = s.trace ++ events) ∧
        ∀ res, r = .ok res → res.1 ≠ res.2.getLast?.getD (some .success) := by
  apply Comp.ends_bind
  apply Comp.ends_read
  cases rounds with
  | zero =>
    apply Comp.ends_bind
    exact Comp.ends_diverge
  | succ n =>
    apply Comp.ends_bind
    unfold repeaterLoop
    apply Comp.ends_bind
    unfold repeaterGoesOn
    cases maxLoop with
    | none => exact Comp.ends_raise ⟨⟨[], (List.append_nil _).symm⟩, fun _ h => by cases h⟩
    | some m =>
      rw [hbad.resolve_left (by simp)]
      dsimp only
      split
      · apply Comp.ends_pure
        apply Comp.ends_bind
        intro r s₁ hr
        obtain ⟨events, htrace, -⟩ := hexec child s r s₁ hr
        match r with
        | .error e => exact ⟨⟨events, htrace⟩, fun _ h => by cases h⟩
        | .ok status =>
          dsimp only
          split
          · exact Comp.ends_raise ⟨⟨events, htrace⟩, fun _ h => by cases h⟩
          · rename_i hstop
            apply Comp.ends_pure
            apply Comp.ends_bind
            apply Comp.ends_update
            apply Comp.ends_pure
            refine ⟨⟨events, htrace⟩, fun res hres heq => hstop (.inl ?_)⟩
            obtain rfl := Except.ok.inj hres
            simpa using heq.symm
      · exact Comp.ends_raise ⟨⟨[], (List.append_nil _).symm⟩, fun _ h => by cases h⟩

omit hexec

/-- The trace has grown, and the node has not returned what its class defines. -/
def Undefined (node : Node) (s : State) (r : Except LuaError (Option Status × List (Option Status)))
    (s' : State) : Prop :=
  (∃ events, s'.trace = s.trace ++ events) ∧
    ∀ res, r = .ok res → ¬ (res.1.isSome = true ∧ Derives node res.2 res.1)

theorem ends_undefined_raise (e : LuaError) :
    (Comp.raise e : M (Option Status × List (Option Status))).Ends s (Undefined node s) :=
  Comp.ends_raise ⟨⟨[], (List.append_nil _).symm⟩, fun _ h => by cases h⟩

/-- No class defines an end without a status. -/
theorem ends_undefined_nil :
    (return (none, []) : M (Option Status × List (Option Status))).Ends s (Undefined node s) := by
  refine Comp.ends_pure ⟨⟨[], (List.append_nil _).symm⟩, fun res hres h => ?_⟩
  obtain rfl := Except.ok.inj hres
  exact absurd h.1 (by simp)

/-- A leaf whose own `tick` raises or returns no status. -/
theorem ends_custom_unsound {id : String} (hat : AtTick env (.custom id) memory next s)
    (hunsound : ¬ SoundEntry env (.custom id) memory next) (rounds : Nat) :
    (tickHook env execute tickTree rounds (.custom id)).Ends s (Undefined (.custom id) s) := by
  have hsame : ∃ events, s.trace = s.trace ++ events := ⟨[], (List.append_nil _).symm⟩
  apply Comp.ends_bind
  apply Comp.ends_bind
  apply Comp.ends_read
  apply Comp.ends_bind
  apply Comp.ends_update
  dsimp only
  rw [hat.leaf]
  cases next with
  | raised => exact Comp.ends_raise ⟨hsame, fun _ h => by cases h⟩
  | value status =>
    apply Comp.ends_pure
    refine Comp.ends_pure ⟨hsame, fun res hres h => ?_⟩
    obtain rfl := Except.ok.inj hres
    obtain ⟨status', hstatus⟩ := Option.isSome_iff_exists.mp h.1
    exact hunsound ⟨status', congrArg LeafResult.value hstatus⟩

/-- `Wait` raises, whether its time has passed or not. -/
theorem ends_wait_unsound {id : String} (rounds : Nat) :
    (tickHook env execute tickTree rounds (.action id .wait)).Ends s (Undefined (.action id .wait) s) := by
  have hsame : ∃ events, s.trace = s.trace ++ events := ⟨[], (List.append_nil _).symm⟩
  apply Comp.ends_bind
  apply Comp.ends_bind
  apply Comp.ends_bind
  apply Comp.ends_read
  apply Comp.ends_bind
  apply Comp.ends_update
  apply Comp.ends_pure
  apply Comp.ends_bind
  apply Comp.ends_read
  dsimp only
  split
  · apply Comp.ends_bind
    apply Comp.ends_update
    exact Comp.ends_raise ⟨hsame, fun _ h => by cases h⟩
  · exact Comp.ends_raise ⟨hsame, fun _ h => by cases h⟩

/-- A subtree without a loader, or one that the loader does not know. -/
theorem ends_subTree_unsound {id name : String} (hunsound : ¬ SoundEntry env (.subTree id name) memory next)
    (rounds : Nat) :
    (tickHook env execute tickTree rounds (.subTree id name)).Ends s (Undefined (.subTree id name) s) := by
  dsimp only [tickHook]
  split
  · exact ends_undefined_raise _
  · rename_i load hload
    split
    · exact ends_undefined_raise _
    · rename_i tree htree
      exact absurd ⟨load, tree, hload, htree⟩ hunsound

include hexec

/-- A decorator: what is left of a class whose `open` raises is a node that is open, and a `Repeater` lacks
its number or its counter. -/
theorem ends_decorator_unsound {id : String} {cls : DecoratorClass} {child : Option Node}
    (hat : AtTick env (.decorator id cls child) memory next s)
    (hunsound : ¬ SoundEntry env (.decorator id cls child) memory next) (rounds : Nat) :
    (tickHook env execute tickTree rounds (.decorator id cls child)).Ends s
      (Undefined (.decorator id cls child) s) := by
  have hopen : hookRaises (.decorator id cls child) = true → memory.isOpen = true := by
    intro hr
    by_contra hclosed
    rw [hat.hook (Bool.not_eq_true _ ▸ hclosed)] at hr
    cases hr
  cases cls with
  | inverter => exact absurd trivial hunsound
  | maxTime => cases child <;> exact ends_undefined_nil
  | limiter =>
    cases child with
    | none => exact absurd ⟨rfl, hopen rfl⟩ hunsound
    | some child => exact ends_undefined_raise _
  | repeatUntilFailure =>
    cases child with
    | none => exact absurd ⟨rfl, hopen rfl⟩ hunsound
    | some child => exact ends_undefined_raise _
  | repeatUntilSuccess =>
    cases child with
    | none => exact absurd ⟨rfl, hopen rfl⟩ hunsound
    | some child => exact ends_undefined_raise _
  | repeater maxLoop =>
    cases child with
    | none => exact absurd (.inl rfl) hunsound
    | some child =>
      have hbad : maxLoop = none ∨ (s.memory id).i = none := by
        rw [hat.counter id maxLoop (some child) rfl]
        by_contra hgood
        push Not at hgood
        refine hunsound (.inr ⟨Option.isSome_iff_ne_none.mpr hgood.1, fun hopen => ?_⟩)
        rw [if_pos hopen] at hgood
        exact Option.isSome_iff_ne_none.mpr hgood.2
      refine (ends_repeaterTick_unsound hexec hbad).mono ?_
      rintro r s' ⟨htrace, hres⟩
      exact ⟨htrace, fun res hr h => hres res hr h.2⟩

/-- The `tick` of a node that cannot be entered raises, or does not end as its class defines. -/
theorem ends_tickHook_unsound (hat : AtTick env node memory next s)
    (hunsound : ¬ SoundEntry env node memory next) (rounds : Nat) :
    (tickHook env execute tickTree rounds node).Ends s (Undefined node s) := by
  cases node with
  | base id => exact ends_undefined_nil
  | custom id => exact ends_custom_unsound hat hunsound rounds
  | action id cls =>
    cases cls with
    | wait => exact ends_wait_unsound rounds
    | error | failer | runner | succeeder => exact absurd trivial hunsound
  | subTree id name => exact ends_subTree_unsound hunsound rounds
  | composite id cls children =>
    cases cls with
    | selector => exact ends_undefined_raise _
    | memPriority | memSequence | priority | sequence => exact absurd trivial hunsound
  | decorator id cls child => exact ends_decorator_unsound hexec hat hunsound rounds

end Tick

/-! ## One node -/

section Node

variable {env : Env} {node : Node}

theorem memory_setMemory_self (s : State) (id : String) (f : NodeMemory → NodeMemory) :
    State.memory { s with blackboard := s.blackboard.setMemory (s.key id) f } id = f (s.memory id) := by
  show (s.blackboard.setMemory (s.key id) f).memory (s.key id) = _
  rw [Blackboard.memory_setMemory, if_pos rfl]
  rfl

/-- After `open` of a node: it has no events and leaves the results of the custom nodes, it raises in the
classes that are said to, and the counter of a `Repeater` is then 0. -/
structure AfterHook (node : Node) (s : State) (ret : Bool) (s' : State) : Prop where
  trace : s'.trace = s.trace
  leaves : s'.leaves = s.leaves
  returned : ret = true ↔ hookRaises node = false
  counter : ret = true → ∀ id maxLoop child, node = .decorator id (.repeater maxLoop) child →
    (s'.memory id).i = some 0

theorem ends_openHook (s : State) :
    (openHook env node).Ends s fun r s' => AfterHook node s (Comp.returned r) s' := by
  have hraise : ∀ (e : LuaError) (s' : State), s'.trace = s.trace → s'.leaves = s.leaves →
      hookRaises node = true → AfterHook node s (Comp.returned (.error e : Except LuaError Unit)) s' :=
    fun e s' ht hl hr => ⟨ht, hl, by simp [Comp.returned, hr], by simp [Comp.returned]⟩
  unfold openHook
  split
  · exact Comp.ends_update ⟨rfl, rfl, iff_of_true rfl rfl, fun _ _ _ _ h => by cases h⟩
  · exact Comp.ends_update ⟨rfl, rfl, iff_of_true rfl rfl, fun _ _ _ _ h => by cases h⟩
  · exact Comp.ends_raise (hraise _ s rfl rfl rfl)
  · exact Comp.ends_pure ⟨rfl, rfl, iff_of_true rfl rfl, fun _ _ _ _ h => by cases h⟩
  · apply Comp.ends_bind
    apply Comp.ends_bind
    apply Comp.ends_read
    apply Comp.ends_bind
    apply Comp.ends_update
    apply Comp.ends_pure
    exact Comp.ends_raise (hraise _ _ rfl rfl rfl)
  · exact Comp.ends_raise (hraise _ s rfl rfl rfl)
  · exact Comp.ends_raise (hraise _ s rfl rfl rfl)
  · refine Comp.ends_update ⟨rfl, rfl, iff_of_true rfl rfl, fun _ id maxLoop child h => ?_⟩
    obtain ⟨rfl, -, -⟩ := Node.decorator.inj h
    rw [memory_setMemory_self]
  · rename_i hlimiter hmaxTime hmaxTime' hfailure hsuccess hrepeater
    refine Comp.ends_pure ⟨rfl, rfl, iff_of_true rfl ?_, fun _ id maxLoop child h => ?_⟩
    · unfold hookRaises
      split
      · exact (hlimiter _ _ rfl).elim
      · exact (hfailure _ _ rfl).elim
      · exact (hsuccess _ _ rfl).elim
      · exact (hmaxTime' _ _ rfl).elim
      · rfl
    · exact (hrepeater id maxLoop child h).elim

/-- A node whose `open` is going to raise cannot be entered. -/
theorem not_soundEntry_of_hookRaises {memory : NodeMemory} {next : LeafResult}
    (hr : hookRaises node = true) (hclosed : memory.isOpen = false) :
    ¬ SoundEntry env node memory next := by
  intro hsound
  unfold hookRaises at hr
  split at hr
  · exact absurd hsound.2 (by simp [hclosed])
  · exact absurd hsound.2 (by simp [hclosed])
  · exact absurd hsound.2 (by simp [hclosed])
  · exact hsound
  · cases hr

/-- After OPEN the `tick` of the node begins, unless its `open` raised. -/
theorem ends_openIfClosed_at (s : State) : (openIfClosed env node).Ends s fun r s' =>
    (∃ events, s'.trace = s.trace ++ events ∧ ∀ e ∈ events, SoundEvent env e ∧ GoodEvent e) ∧
      (Comp.returned r = true → AtTick env node (s.memory node.id) (env.leaf s.leaves) s') ∧
      (Comp.returned r = false → hookRaises node = true ∧ (s.memory node.id).isOpen = false) := by
  apply Comp.ends_bind
  apply Comp.ends_read
  dsimp only
  split
  · rename_i hopen
    refine Comp.ends_pure ⟨⟨[], (List.append_nil _).symm, by simp⟩, fun _ => ⟨rfl, ?_, ?_⟩,
      by simp [Comp.returned]⟩
    · simp [hopen]
    · rintro id maxLoop child rfl
      rw [if_pos hopen]
      rfl
  · rename_i hclosed
    rw [Bool.not_eq_true] at hclosed
    apply Comp.ends_bind
    apply Comp.ends_update
    apply Comp.ends_bind
    apply Comp.ends_update
    refine (ends_openHook _).mono fun r s' hafter => ⟨⟨[_], hafter.trace, ?_⟩, fun hret => ?_, fun hret => ?_⟩
    · intro e he
      obtain rfl := List.mem_singleton.mp he
      exact ⟨trivial, trivial⟩
    · refine ⟨by rw [hafter.leaves], fun _ => hafter.returned.mp hret, fun id maxLoop child hnode => ?_⟩
      rw [hclosed]
      exact hafter.counter hret id maxLoop child hnode
    · refine ⟨?_, hclosed⟩
      by_contra hno
      rw [hafter.returned.mpr (Bool.not_eq_true _ ▸ hno)] at hret
      cases hret

variable (env) in
/-- CLOSE has at most the event of the close. -/
theorem ends_closeIfDone_trace (status : Option Status) (s : State) :
    (closeIfDone node status).Ends s fun r s' => Comp.returned r = true ∧
      ∃ events, s'.trace = s.trace ++ events ∧ ∀ e ∈ events, SoundEvent env e ∧ GoodEvent e := by
  unfold closeIfDone
  split
  · exact Comp.ends_pure ⟨rfl, [], (List.append_nil _).symm, by simp⟩
  · apply Comp.ends_bind
    apply Comp.ends_update
    apply Comp.ends_update
    refine ⟨rfl, [_], rfl, fun e he => ?_⟩
    obtain rfl := List.mem_singleton.mp he
    exact ⟨trivial, trivial⟩

/-- ENTER has its event, with the memory of the node and the next result of a custom node. -/
theorem ends_enter_trace (s : State) : (enter env node).Ends s fun r s' => Comp.returned r = true ∧
    s'.trace = s.trace ++ [Event.entered (s.key node.id) node (s.memory node.id) (env.leaf s.leaves)] ∧
    s'.memory node.id = s.memory node.id ∧ s'.leaves = s.leaves := by
  apply Comp.ends_bind
  apply Comp.ends_update
  exact Comp.ends_update ⟨rfl, rfl, rfl, rfl⟩

variable (env) in
/-- What follows the `tick` of a node: the close, if any, and the end of the execution. -/
theorem ends_afterTick (result : Option Status × List (Option Status)) (s : State) :
    (do
      closeIfDone node result.1
      log fun s => .executed (s.key node.id) node result.2 result.1
      return result.1 : M (Option Status)).Ends s fun r s' => r = .ok result.1 ∧
      ∃ events key, s'.trace = s.trace ++ (events ++ [Event.executed key node result.2 result.1]) ∧
        ∀ e ∈ events, SoundEvent env e ∧ GoodEvent e := by
  apply Comp.ends_bind
  refine (ends_closeIfDone_trace env result.1 s).mono ?_
  rintro (e | ⟨⟨⟩⟩) s₁ ⟨hret, events, htrace, hevents⟩
  · cases hret
  · apply Comp.ends_bind
    apply Comp.ends_update
    apply Comp.ends_pure
    refine ⟨rfl, events, s₁.key node.id, ?_, hevents⟩
    rw [← List.append_assoc, ← htrace]

/-- An execution, given the children's. -/
theorem ends_baseExecute {execute : Node → M (Option Status)} (hexec : Executes env execute)
    {tickTree : Tree → M (Option Status)}
    (htree : ∀ tree s, (tickTree tree).Ends s (Verdict env s fun status => status.isSome = true))
    (rounds : Nat) (s : State) :
    (baseExecute env (tickHook env execute tickTree rounds node) node).Ends s
      (Verdict env s fun status => status.isSome = true) := by
  apply Comp.ends_bind
  refine (ends_enter_trace s).mono ?_
  rintro (e | ⟨⟨⟩⟩) s₁ ⟨hret₁, htrace₁, hmemory₁, hleaves₁⟩
  · cases hret₁
  apply Comp.ends_bind
  refine (ends_openIfClosed_at s₁).mono ?_
  rw [hmemory₁, hleaves₁]
  rintro r₂ s₂ ⟨⟨events₂, htrace₂, hevents₂⟩, hat, hraised⟩
  have hto₂ : s₂.trace = s.trace ++
      (.entered (s.key node.id) node (s.memory node.id) (env.leaf s.leaves) :: events₂) := by
    rw [htrace₂, htrace₁, List.append_assoc]
    rfl
  match r₂ with
  | .error e =>
    -- `open` raised, so the node is not one that can be entered
    obtain ⟨hhook, hclosed⟩ := hraised rfl
    refine ⟨_, hto₂, iff_of_false (fun hsound => ?_) (by simp [Comp.returned]), fun _ h => by cases h⟩
    exact not_soundEntry_of_hookRaises hhook hclosed (hsound _ List.mem_cons_self)
  | .ok () =>
    have hat := hat rfl
    apply Comp.ends_bind
    intro r₃ s₃ h₃
    by_cases hentry : SoundEntry env node (s.memory node.id) (env.leaf s.leaves)
    · obtain ⟨events₃, htrace₃, hiff₃, hval₃⟩ :=
        ends_tickHook_sound hexec htree hat hentry rounds r₃ s₃ h₃
      have hto₃ := htrace₃.trans (congrArg (· ++ events₃) hto₂)
      have hquiet₂ : ∀ e ∈ events₂, SoundEvent env e := fun e he => (hevents₂ e he).1
      have hquiet₂' : ∀ e ∈ events₂, GoodEvent e := fun e he => (hevents₂ e he).2
      match r₃ with
      | .error e =>
        refine ⟨_, hto₃.trans (List.append_assoc ..), iff_of_false (fun hsound => ?_)
          (by simp [Comp.returned]), fun _ h => by cases h⟩
        rw [List.cons_append, List.forall_mem_cons, List.forall_mem_append] at hsound
        have := (hiff₃.mp hsound.2.2).1
        cases this
      | .ok result =>
        refine (ends_afterTick env result s₃).mono ?_
        rintro r s' ⟨rfl, events₄, key, htrace₄, hevents₄⟩
        have hto₄ : s'.trace = s.trace ++
            (.entered (s.key node.id) node (s.memory node.id) (env.leaf s.leaves) ::
              (events₂ ++ (events₃ ++ (events₄ ++ [Event.executed key node result.2 result.1])))) := by
          rw [htrace₄, hto₃]
          simp only [List.append_assoc, List.cons_append]
        have hquiet₄ : ∀ e ∈ events₄, SoundEvent env e := fun e he => (hevents₄ e he).1
        have hquiet₄' : ∀ e ∈ events₄, GoodEvent e := fun e he => (hevents₄ e he).2
        refine ⟨_, hto₄, ?_, fun status hstatus hsound => ?_⟩
        · simp only [List.forall_mem_cons, List.forall_mem_append]
          constructor
          · rintro ⟨-, -, hsound₃, -, hend, -⟩
            obtain ⟨hsome, hderives⟩ := hval₃ result rfl hsound₃
            exact ⟨rfl, trivial, hquiet₂', (hiff₃.mp hsound₃).2, hquiet₄', ⟨hsome, hderives.mp hend⟩,
              by simp⟩
          · rintro ⟨-, -, -, hgood₃, -, ⟨-, hderives⟩, -⟩
            have hsound₃ := hiff₃.mpr ⟨rfl, hgood₃⟩
            exact ⟨hentry, hquiet₂, hsound₃, hquiet₄, (hval₃ result rfl hsound₃).2.mpr hderives,
              by simp⟩
        · simp only [List.forall_mem_cons, List.forall_mem_append] at hsound
          obtain rfl := Except.ok.inj hstatus
          exact (hval₃ result rfl hsound.2.2.1).1
    · obtain ⟨⟨events₃, htrace₃⟩, hbad⟩ := ends_tickHook_unsound hexec hat hentry rounds r₃ s₃ h₃
      have hto₃ := htrace₃.trans (congrArg (· ++ events₃) hto₂)
      match r₃ with
      | .error e =>
        refine ⟨_, hto₃.trans (List.append_assoc ..), iff_of_false (fun hsound => ?_)
          (by simp [Comp.returned]), fun _ h => by cases h⟩
        exact hentry (hsound _ List.mem_cons_self)
      | .ok result =>
        refine (ends_afterTick env result s₃).mono ?_
        rintro r s' ⟨rfl, events₄, key, htrace₄, hevents₄⟩
        have hto₄ : s'.trace = s.trace ++
            (.entered (s.key node.id) node (s.memory node.id) (env.leaf s.leaves) ::
              (events₂ ++ (events₃ ++ (events₄ ++ [Event.executed key node result.2 result.1])))) := by
          rw [htrace₄, hto₃]
          simp only [List.append_assoc, List.cons_append]
        refine ⟨_, hto₄, iff_of_false (fun hsound => ?_) (fun hgood => ?_), fun a _ hsound => ?_⟩
        · exact hentry (hsound _ List.mem_cons_self)
        · exact hbad result rfl (hgood.2 (.executed key node result.2 result.1) (by simp))
        · exact absurd (hsound _ List.mem_cons_self) hentry

end Node

/-! ## Ticks -/

section Ticks

variable {env : Env}

/-- The loop over the open nodes of the last tick returns, with closes only. -/
theorem ends_closeLast (lastOpenNodes : List Node) (n : Nat) (s : State) :
    (closeLast lastOpenNodes n).Ends s (Verdict env s fun _ => True) := by
  have hclose : ∀ node s, (closeNode node).Ends s (Verdict env s fun _ => True) := by
    intro node s
    apply Comp.ends_bind
    apply Comp.ends_update
    apply Comp.ends_update
    exact ⟨[_], rfl, by simp [SoundEvent, GoodEvent, Comp.returned], fun _ _ _ => trivial⟩
  induction n generalizing s with
  | zero => exact ends_verdict_pure trivial
  | succ n ih =>
    simp only [closeLast]
    split
    · exact ih s
    · apply ends_verdict_bind (hclose _ s)
      intro _ s₁
      exact (ih s₁).mono fun r s' hv => hv.mono fun _ _ _ => trivial

theorem ends_treeTick {execute : Node → M (Option Status)} (hexec : Executes env execute) (tree : Tree)
    (s : State) :
    (treeTick execute tree).Ends s (Verdict env s fun status => status.isSome = true) := by
  apply Comp.ends_bind
  apply Comp.ends_read
  refine ends_verdict_bind (P := fun _ => True) (Comp.ends_update (verdict_quiet rfl trivial)) ?_
  intro _ s₁
  apply ends_verdict_bind (hexec tree.root s₁)
  intro state s₂
  apply Comp.ends_bind
  apply Comp.ends_read
  apply ends_verdict_bind (ends_closeLast _ _ s₂)
  intro _ s₃
  refine ends_verdict_bind (P := fun _ => True) (Comp.ends_update (verdict_quiet rfl trivial)) ?_
  intro _ s₄
  exact ends_verdict_pure fun _ _ hsome _ => hsome

/-- Every execution, by induction on the bound. -/
theorem executes_execute (fuel : Nat) : Executes env (execute env fuel) := by
  induction fuel with
  | zero => exact fun _ _ => Comp.ends_diverge
  | succ fuel ih => exact fun v s => ends_baseExecute ih (ends_treeTick ih) fuel s

/-- A tick is closed exactly when its events are sound: it enters no node that cannot do what its class
says, and the last child of every `Repeater` returned SUCCESS. -/
theorem closed_iff {fuel : Nat} {tree : Tree} {s s' : State} {r : Except LuaError (Option Status)}
    (h : tickTree env fuel tree s = some (r, s')) :
    Closed r s'.trace ↔ ∀ e ∈ s'.trace, SoundEvent env e := by
  obtain ⟨events, htrace, hiff, hval⟩ := ends_treeTick (executes_execute fuel) tree _ r s' h
  obtain rfl : s'.trace = events := htrace
  constructor
  · rintro ⟨⟨status, rfl⟩, hderived⟩
    exact hiff.mpr ⟨rfl, hderived⟩
  · intro hsound
    obtain ⟨hret, hgood⟩ := hiff.mp hsound
    match r with
    | .error e => cases hret
    | .ok status =>
      obtain ⟨st, rfl⟩ := Option.isSome_iff_exists.mp (hval status rfl hsound)
      exact ⟨⟨st, rfl⟩, hgood⟩

/-- In every run of ticks on a new blackboard, the ticks that end are all closed exactly when the events of
each of them are sound. -/
theorem closed_run_iff (fuel : Nat) (trees : List Tree) :
    (∀ before tree s r s', before ++ [tree] <+: trees → ticks env fuel before .initial = some s →
        tickTree env fuel tree s = some (r, s') → Closed r s'.trace) ↔
      ∀ before tree s r s', before ++ [tree] <+: trees → ticks env fuel before .initial = some s →
        tickTree env fuel tree s = some (r, s') → ∀ e ∈ s'.trace, SoundEvent env e := by
  constructor
  · intro hall before tree s r s' hpre hs h
    exact (closed_iff h).mp (hall before tree s r s' hpre hs h)
  · intro hall before tree s r s' hpre hs h
    exact (closed_iff h).mpr (hall before tree s r s' hpre hs h)

end Ticks

/-- A `Wait` raises. -/
theorem not_closed : ∃ e s', tickTree ⟨none, fun _ => .raised, fun _ => 100⟩ 5
      { id := "t", root := .action "w" .wait } .initial = some (.error e, s') ∧
    ¬ Closed (.error e) s'.trace := by
  have hrun : ∃ r ∈ tickTree ⟨none, fun _ => .raised, fun _ => 100⟩ 5
      { id := "t", root := .action "w" .wait } .initial,
      r.1 = .error (.raised "attempt to compare nil with number") := by
    decide +kernel
  obtain ⟨⟨r, s'⟩, hr, rfl⟩ := hrun
  refine ⟨_, s', hr, fun h => ?_⟩
  obtain ⟨status, hstatus⟩ := h.returns
  cases hstatus

end AntServer.Behavior3
