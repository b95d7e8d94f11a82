/-
# AntServer.Behavior3.OpenNodes — which nodes are open after a tick

`_execute` opens its node unless it is open, and closes it unless it is running, so for the nodes that a
tick executes the flag `isOpen` is what it should be: it is set exactly when the last status was RUNNING,
and the opens and closes of a node alternate (`Seg`). The nodes it does not execute keep their flag. The
loop that is to close them closes nothing, so a tick is disciplined exactly when it executes every node
that is open when it begins.

`Seg` is what a part of a tick does to the flags. It composes, so it is proved class by class from the
children, and over the recursion by induction on the bound. That a node is not executed inside itself
(`Unrepeated`) is what makes its flag its own.
-/
import AntServer.Behavior3.Forest

namespace AntServer.Behavior3

open Lib (Table Comp)
open Lib.Comp (Ends Keeps Sequential)

/-- `isOpen` of a node in the blackboard. -/
def State.isOpen (s : State) (k : Key) : Bool := (s.blackboard.memory k).isOpen

/-- No tree has a list of open nodes. -/
def State.Unlisted (s : State) : Prop := ∀ tree, (s.blackboard.openNodes.get tree).getD [] = []

/-! ## What a trace says of a node -/

/-- The flag of a node along a trace, when it is opened only if it is closed and closed only if it is
open. -/
def flag (k : Key) : Bool → List Event → Option Bool
  | b, [] => some b
  | b, .opened k' :: events =>
    if k' = k then if b then none else flag k true events else flag k b events
  | b, .closed k' :: events =>
    if k' = k then if b then flag k false events else none else flag k b events
  | b, .entered _ _ _ _ :: events => flag k b events
  | b, .executed _ _ _ _ :: events => flag k b events

/-- The status of the last execution of a node in a trace. -/
def lastStatus (k : Key) : List Event → Option (Option Status)
  | [] => none
  | .executed k' _ _ status :: events =>
    (lastStatus k events).or (if k' = k then some status else none)
  | .entered _ _ _ _ :: events => lastStatus k events
  | .opened _ :: events => lastStatus k events
  | .closed _ :: events => lastStatus k events

def opens (k : Key) : List Event → Nat
  | [] => 0
  | .opened k' :: events => opens k events + if k' = k then 1 else 0
  | _ :: events => opens k events

def closes (k : Key) : List Event → Nat
  | [] => 0
  | .closed k' :: events => closes k events + if k' = k then 1 else 0
  | _ :: events => closes k events

theorem flag_append (k : Key) (b : Bool) (events events' : List Event) :
    flag k b (events ++ events') = (flag k b events).bind fun b' => flag k b' events' := by
  induction events generalizing b with
  | nil => rfl
  | cons e events ih =>
    cases e <;> simp only [List.cons_append, flag, ih]
    · split
      · split <;> rfl
      · rfl
    · split
      · split <;> rfl
      · rfl

theorem lastStatus_append (k : Key) (events events' : List Event) :
    lastStatus k (events ++ events') = (lastStatus k events').or (lastStatus k events) := by
  induction events with
  | nil => simp [lastStatus]
  | cons e events ih => cases e <;> simp only [List.cons_append, lastStatus, ih, Option.or_assoc]

/-- The opens and the closes of a node differ by what its flag was and is. -/
theorem flag_count {k : Key} {b b' : Bool} {events : List Event} (h : flag k b events = some b') :
    opens k events + b.toNat = closes k events + b'.toNat := by
  induction events generalizing b with
  | nil =>
    obtain rfl := Option.some.inj h
    rfl
  | cons e events ih =>
    cases e with
    | entered => exact ih h
    | executed => exact ih h
    | opened k' =>
      unfold flag at h
      unfold opens closes
      by_cases hk : k' = k
      · rw [if_pos hk] at h ⊢
        cases b with
        | true => cases h
        | false =>
          have hrest := ih h
          simp only [Bool.toNat_true, Bool.toNat_false] at hrest ⊢
          omega
      · rw [if_neg hk] at h ⊢
        exact ih h
    | closed k' =>
      unfold flag at h
      unfold opens closes
      by_cases hk : k' = k
      · rw [if_pos hk] at h ⊢
        cases b with
        | true =>
          have hrest := ih h
          simp only [Bool.toNat_true, Bool.toNat_false] at hrest ⊢
          omega
        | false => cases h
      · rw [if_neg hk] at h ⊢
        exact ih h

/-- A trace without a node says nothing of it. -/
theorem flag_of_notMem {k : Key} (b : Bool) {events : List Event} (h : ∀ e ∈ events, e.key ≠ k) :
    flag k b events = some b := by
  induction events generalizing b with
  | nil => rfl
  | cons e events ih =>
    obtain ⟨he, hrest⟩ := List.forall_mem_cons.mp h
    cases e with
    | entered => exact ih b hrest
    | executed => exact ih b hrest
    | opened k' =>
      unfold flag
      rw [if_neg (show ¬ k' = k from he)]
      exact ih b hrest
    | closed k' =>
      unfold flag
      rw [if_neg (show ¬ k' = k from he)]
      exact ih b hrest

/-! ## What a part of a tick does to the flags -/

/-- A part of the tick of a tree, with the events of nodes in `S` only. The flags go along with the
events. If the part returns, then for the nodes in `U` the flag of one it executed says whether its last
status was RUNNING, and that of another is as it was. -/
structure Seg (tree : String) (S U : Key → Prop) (s : State) (returned : Bool) (s' : State)
    (events : List Event) : Prop where
  trace : s'.trace = s.trace ++ events
  scope : ∀ e ∈ events, S e.key
  unlisted : s'.Unlisted
  tree : returned = true → s'.tick.tree = tree
  flags : ∀ k, flag k (s.isOpen k) events = some (s'.isOpen k)
  settled : returned = true → ∀ k, U k → s'.isOpen k =
    match lastStatus k events with
    | none => s.isOpen k
    | some status => decide (status = some .running)

/-- The same as a relation between the states of a computation. -/
def Segment (tree : String) (S U : Key → Prop) (s : State) (returned : Bool) (s' : State) : Prop :=
  s.Unlisted → s.tick.tree = tree → ∃ events, Seg tree S U s returned s' events

theorem segment_sequential (tree : String) (S U : Key → Prop) : Sequential (Segment tree S U) where
  refl s b hs ht := ⟨[], (List.append_nil _).symm, fun _ h => absurd h List.not_mem_nil, hs,
    fun _ => ht, fun _ => rfl, fun _ _ _ => rfl⟩
  trans := by
    intro s₁ s₂ s₃ b h₁ h₂ hs ht
    obtain ⟨events₁, seg₁⟩ := h₁ hs ht
    obtain ⟨events₂, seg₂⟩ := h₂ seg₁.unlisted (seg₁.tree rfl)
    refine ⟨events₁ ++ events₂, ?_, ?_, seg₂.unlisted, seg₂.tree, fun k => ?_, fun hb k hk => ?_⟩
    · rw [seg₂.trace, seg₁.trace, List.append_assoc]
    · intro e he
      rcases List.mem_append.mp he with he | he
      · exact seg₁.scope e he
      · exact seg₂.scope e he
    · rw [flag_append, seg₁.flags]
      exact seg₂.flags k
    · have hset₁ := seg₁.settled rfl k hk
      have hset₂ := seg₂.settled hb k hk
      rw [lastStatus_append]
      cases hlast : lastStatus k events₂ with
      | none =>
        rw [hlast] at hset₂
        rw [hset₂, hset₁]
        rfl
      | some status =>
        rw [hlast] at hset₂
        exact hset₂

theorem Seg.mono {tree : String} {S S' U U' : Key → Prop} (hS : ∀ k, S k → S' k)
    (hU : ∀ k, U' k → U k) {s s' : State} {b : Bool} {events : List Event}
    (h : Seg tree S U s b s' events) : Seg tree S' U' s b s' events :=
  ⟨h.trace, fun e he => hS _ (h.scope e he), h.unlisted, h.tree, h.flags,
    fun hb k hk => h.settled hb k (hU k hk)⟩

/-! ## The hooks of the classes -/

/-- A change of the state that no flag, no list of open nodes and no trace shows. -/
structure Silent (f : State → State) : Prop where
  trace : ∀ s, (f s).trace = s.trace
  tick : ∀ s, (f s).tick = s.tick
  openNodes : ∀ s, (f s).blackboard.openNodes = s.blackboard.openNodes
  isOpen : ∀ s k, (f s).isOpen k = s.isOpen k

theorem silent_setMemory (id : String) {f : NodeMemory → NodeMemory}
    (hf : ∀ m, (f m).isOpen = m.isOpen) :
    Silent fun s => { s with blackboard := s.blackboard.setMemory (s.key id) f } where
  trace _ := rfl
  tick _ := rfl
  openNodes _ := rfl
  isOpen s k := by
    show ((s.blackboard.setMemory (s.key id) f).memory k).isOpen = _
    rw [Blackboard.memory_setMemory]
    split
    · rename_i hk
      rw [hk]
      exact hf _
    · rfl

/-- What a silent change does is no event. -/
theorem segment_silent {f : State → State} (hf : Silent f) (tree : String) (S U : Key → Prop)
    (s : State) : Segment tree S U s true (f s) := by
  intro hs ht
  refine ⟨[], ?_, fun _ h => absurd h List.not_mem_nil, ?_, fun _ => ?_, fun k => ?_, fun _ k _ => ?_⟩
  · rw [hf.trace, List.append_nil]
  · intro t
    rw [hf.openNodes]
    exact hs t
  · rw [hf.tick]
    exact ht
  · rw [hf.isOpen]
    rfl
  · exact hf.isOpen s k

section Hooks

variable {R : State → Bool → State → Prop} (hR : Sequential R)
  (hsilent : ∀ f, Silent f → ∀ s, R s true (f s))

include hsilent

theorem keeps_setMemory (id : String) {f : NodeMemory → NodeMemory}
    (hf : ∀ m, (f m).isOpen = m.isOpen) : Keeps R (setMemory id f) :=
  Comp.keeps_update (hsilent _ (silent_setMemory id hf))

include hR

theorem keeps_osTime (env : Env) : Keeps R (osTime env) := by
  have hcount : Keeps R (Comp.update fun s : State => { s with clocks := s.clocks + 1 } : M Unit) :=
    Comp.keeps_update (hsilent _ ⟨fun _ => rfl, fun _ => rfl, fun _ => rfl, fun _ _ => rfl⟩)
  apply Comp.keeps_bind hR (Comp.keeps_read hR _)
  intro n
  exact Comp.keeps_bind hR hcount fun _ => Comp.keeps_pure hR _

theorem keeps_customTick (env : Env) : Keeps R (customTick env) := by
  have hcount : Keeps R (Comp.update fun s : State => { s with leaves := s.leaves + 1 } : M Unit) :=
    Comp.keeps_update (hsilent _ ⟨fun _ => rfl, fun _ => rfl, fun _ => rfl, fun _ _ => rfl⟩)
  apply Comp.keeps_bind hR (Comp.keeps_read hR _)
  intro n
  apply Comp.keeps_bind hR hcount
  intro _
  split
  · exact Comp.keeps_pure hR _
  · exact Comp.keeps_raise hR _

theorem keeps_actionTick (env : Env) (id : String) (cls : ActionClass) :
    Keeps R (actionTick env id cls) := by
  cases cls with
  | error => exact Comp.keeps_pure hR _
  | failer => exact Comp.keeps_pure hR _
  | runner => exact Comp.keeps_pure hR _
  | succeeder => exact Comp.keeps_pure hR _
  | wait =>
    apply Comp.keeps_bind hR (keeps_osTime hR hsilent env)
    intro currTime
    apply Comp.keeps_bind hR (Comp.keeps_read hR _)
    intro memory
    have hset := keeps_setMemory hsilent id (f := fun m => { m with startTime := some currTime })
      fun _ => rfl
    exact Comp.keeps_ite (Comp.keeps_bind hR hset fun _ => Comp.keeps_raise hR _)
      (Comp.keeps_raise hR _)

theorem keeps_openHook (env : Env) (node : Node) : Keeps R (openHook env node) := by
  unfold openHook
  split
  · exact keeps_setMemory hsilent _ fun _ => rfl
  · exact keeps_setMemory hsilent _ fun _ => rfl
  · exact Comp.keeps_raise hR _
  · exact Comp.keeps_pure hR _
  · exact Comp.keeps_bind hR (keeps_osTime hR hsilent env) fun _ => Comp.keeps_raise hR _
  · exact Comp.keeps_raise hR _
  · exact Comp.keeps_raise hR _
  · exact keeps_setMemory hsilent _ fun _ => rfl
  · exact Comp.keeps_pure hR _

variable {execute : Node → M (Option Status)}

omit hsilent in
theorem keeps_childLoop (go : Status) {onRunning : Nat → M Unit} (hrunning : ∀ i, Keeps R (onRunning i))
    (i : Nat) (children : List Node) (ran : List (Option Status))
    (hchildren : ∀ v ∈ children, Keeps R (execute v)) :
    Keeps R (childLoop execute go onRunning i children ran) := by
  induction children generalizing i ran with
  | nil => exact Comp.keeps_pure hR _
  | cons v vs ih =>
    obtain ⟨hv, hvs⟩ := List.forall_mem_cons.mp hchildren
    apply Comp.keeps_bind hR hv
    intro status
    refine Comp.keeps_ite (Comp.keeps_ite ?_ (Comp.keeps_pure hR _))
      (ih (i + 1) (ran ++ [status]) hvs)
    exact Comp.keeps_bind hR (hrunning i) fun _ => Comp.keeps_pure hR _

theorem keeps_compositeTick (id : String) (children : List Node) (cls : CompositeClass)
    (hchildren : ∀ v ∈ children, Keeps R (execute v)) :
    Keeps R (compositeTick execute id children cls) := by
  have hnone : ∀ i : Nat, Keeps R ((fun _ => return ⟨⟩ : Nat → M Unit) i) :=
    fun _ => Comp.keeps_pure hR _
  have hset : ∀ i : Nat, Keeps R (setMemory id fun m => { m with runningChild := some i }) :=
    fun i => keeps_setMemory hsilent id fun _ => rfl
  cases cls with
  | memPriority =>
    exact Comp.keeps_bind hR (Comp.keeps_read hR _) fun _ =>
      keeps_childLoop hR .failure hset 1 children [] hchildren
  | memSequence =>
    exact Comp.keeps_bind hR (Comp.keeps_read hR _) fun _ =>
      keeps_childLoop hR .success hset 1 children [] hchildren
  | priority => exact keeps_childLoop hR .failure hnone 1 children [] hchildren
  | selector => exact Comp.keeps_raise hR _
  | sequence => exact keeps_childLoop hR .success hnone 1 children [] hchildren

omit hsilent in
theorem keeps_repeaterLoop (maxLoop : Option Rat) {child : Node} (hchild : Keeps R (execute child))
    (rounds : Nat) (i : Option Int) (ran : List (Option Status)) :
    Keeps R (repeaterLoop execute maxLoop child rounds i ran) := by
  have hgoes : ∀ i, Keeps R (repeaterGoesOn maxLoop i) := by
    intro i
    unfold repeaterGoesOn
    split
    · exact Comp.keeps_raise hR _
    · refine Comp.keeps_ite (Comp.keeps_pure hR _) ?_
      split
      · exact Comp.keeps_raise hR _
      · exact Comp.keeps_pure hR _
  induction rounds generalizing i ran with
  | zero => exact Comp.keeps_diverge
  | succ n ih =>
    apply Comp.keeps_bind hR (hgoes i)
    intro goesOn
    refine Comp.keeps_ite ?_ (Comp.keeps_pure hR _)
    apply Comp.keeps_bind hR hchild
    intro status
    refine Comp.keeps_ite ?_ (Comp.keeps_pure hR _)
    split
    · exact Comp.keeps_raise hR _
    · exact ih _ _

theorem keeps_decoratorTick (rounds : Nat) (id : String) (cls : DecoratorClass) (child : Option Node)
    (hchild : ∀ v ∈ child, Keeps R (execute v)) :
    Keeps R (decoratorTick execute rounds id cls child) := by
  unfold decoratorTick
  split
  · exact Comp.keeps_pure hR _
  · exact Comp.keeps_pure hR _
  · exact Comp.keeps_bind hR (hchild _ rfl) fun _ => Comp.keeps_pure hR _
  · exact Comp.keeps_raise hR _
  · exact Comp.keeps_raise hR _
  · exact Comp.keeps_raise hR _
  · apply Comp.keeps_bind hR (Comp.keeps_read hR _)
    intro memory
    apply Comp.keeps_bind hR (keeps_repeaterLoop hR _ (hchild _ rfl) rounds _ _)
    intro ran
    have hset := keeps_setMemory hsilent id (f := fun m => { m with i := ran.1 }) fun _ => rfl
    exact Comp.keeps_bind hR hset fun _ => Comp.keeps_pure hR _

end Hooks

/-! ## One node -/

/-- The flag of the node under `key` is set to `b`. -/
theorem isOpen_setMemory (s : State) (id : String) (b : Bool) (k : Key) :
    State.isOpen
        { s with blackboard := s.blackboard.setMemory (s.key id) fun m => { m with isOpen := b } } k =
      if k = s.key id then b else s.isOpen k := by
  show ((s.blackboard.setMemory (s.key id) _).memory k).isOpen = _
  rw [Blackboard.memory_setMemory]
  split <;> rfl

/-- A part of a tick leaves the flags of the nodes it has no events of. -/
theorem Seg.isOpen_of_not_scope {tree : String} {S U : Key → Prop} {s s' : State} {b : Bool}
    {events : List Event} (h : Seg tree S U s b s' events) {k : Key} (hk : ¬ S k) :
    s'.isOpen k = s.isOpen k := by
  have hnone : ∀ e ∈ events, e.key ≠ k := by
    rintro e he rfl
    exact hk (h.scope e he)
  have hflag := h.flags k
  rw [flag_of_notMem _ hnone] at hflag
  exact (Option.some.inj hflag).symm

/-- Of a part that raises nothing is settled. -/
theorem Seg.of_raised {tree : String} {S U U' : Key → Prop} {s s' : State} {events : List Event}
    (h : Seg tree S U s false s' events) : Seg tree S U' s false s' events :=
  ⟨h.trace, h.scope, h.unlisted, h.tree, h.flags, fun hb => absurd hb (by simp)⟩

section BaseExecute

variable {t : String} {S : Key → Prop} (env : Env) (node : Node) (hown : S (t, node.id))

/-- All nodes but the one executed. -/
def Others (t : String) (node : Node) (k : Key) : Prop := k ≠ (t, node.id)

/-- An event that is neither an open nor a close nor the end of an execution. -/
theorem seg_quiet {U : Key → Prop} {s s' : State} {e : Event} (hs : s.Unlisted) (ht : s.tick.tree = t)
    (htrace : s'.trace = s.trace ++ [e]) (hscope : S e.key) (hbb : s'.blackboard = s.blackboard)
    (htick : s'.tick.tree = s.tick.tree) (hflag : ∀ k b, flag k b [e] = some b)
    (hlast : ∀ k, U k → lastStatus k [e] = none) : Seg t S U s true s' [e] := by
  have hopen : ∀ k, s'.isOpen k = s.isOpen k := fun k => by unfold State.isOpen; rw [hbb]
  refine ⟨htrace, ?_, ?_, fun _ => htick.trans ht, fun k => ?_, fun _ k hk => ?_⟩
  · intro e' he'
    obtain rfl := List.mem_singleton.mp he'
    exact hscope
  · intro tree
    rw [hbb]
    exact hs tree
  · rw [hflag, hopen]
  · rw [hlast k hk]
    exact hopen k

/-- An open or a close of the node, whose flag it sets to `b`. -/
theorem seg_set {s : State} {e : Event} {b : Bool} (hs : s.Unlisted) (ht : s.tick.tree = t)
    (hkey : e.key = (t, node.id)) (hscope : S (t, node.id))
    (hflag : flag (t, node.id) (s.isOpen (t, node.id)) [e] = some b)
    (hlast : ∀ k, lastStatus k [e] = none) :
    Seg t S (Others t node) s true
      { s with
        trace := s.trace ++ [e]
        blackboard := s.blackboard.setMemory (s.key node.id) fun m => { m with isOpen := b } } [e] := by
  have hk : s.key node.id = (t, node.id) := by rw [State.key, ht]
  have hopen : ∀ k, State.isOpen { s with
      trace := s.trace ++ [e]
      blackboard := s.blackboard.setMemory (s.key node.id) fun m => { m with isOpen := b } } k =
      if k = (t, node.id) then b else s.isOpen k := fun k => by
    rw [← hk]
    exact isOpen_setMemory s node.id b k
  refine ⟨rfl, ?_, hs, fun _ => ht, fun k => ?_, fun _ k hne => ?_⟩
  · intro e' he'
    obtain rfl := List.mem_singleton.mp he'
    rw [hkey]
    exact hscope
  · rw [hopen]
    split
    · rename_i heq
      rw [heq]
      exact hflag
    · rename_i hne
      refine flag_of_notMem _ fun e' he' heq => hne ?_
      obtain rfl := List.mem_singleton.mp he'
      exact heq.symm.trans hkey
  · rw [hlast, hopen, if_neg hne]

include hown

theorem ends_enter {s : State} (hs : s.Unlisted) (ht : s.tick.tree = t) :
    (enter env node).Ends s fun r s' => Comp.returned r = true ∧
      ∃ events, Seg t S (Others t node) s true s' events := by
  apply Comp.ends_bind
  apply Comp.ends_update
  apply Comp.ends_update
  refine ⟨rfl, [_], seg_quiet hs ht rfl ?_ rfl rfl (fun _ _ => rfl) (fun _ _ => rfl)⟩
  show S (s.key node.id)
  rw [State.key, ht]
  exact hown

theorem ends_openIfClosed {s : State} (hs : s.Unlisted) (ht : s.tick.tree = t) :
    (openIfClosed env node).Ends s fun r s' =>
      (∃ events, Seg t S (Others t node) s (Comp.returned r) s' events) ∧
        (Comp.returned r = true → s'.isOpen (t, node.id) = true) := by
  have hkey : s.key node.id = (t, node.id) := by rw [State.key, ht]
  have hmemory : (s.memory node.id).isOpen = s.isOpen (t, node.id) := by
    rw [State.memory, hkey]
    rfl
  apply Comp.ends_bind
  apply Comp.ends_read
  dsimp only
  split
  · rename_i hopen
    refine Comp.ends_pure ⟨?_, fun _ => hmemory ▸ hopen⟩
    exact (segment_sequential t S (Others t node)).refl s true hs ht
  · rename_i hclosed
    rw [hmemory, Bool.not_eq_true] at hclosed
    apply Comp.ends_bind
    apply Comp.ends_update
    apply Comp.ends_bind
    apply Comp.ends_update
    -- the open, and after it the hook, which has no events
    have hopened := seg_set (S := S) node (e := .opened (s.key node.id)) (b := true) hs ht hkey hown
      (by rw [hclosed, hkey]; simp [flag]) (fun _ => rfl)
    intro r s' hhook
    have hseg := keeps_openHook (segment_sequential t (fun _ => False) fun _ => True)
      (fun f hf s => segment_silent hf t _ _ s) env node _ r s' hhook hs ht
    obtain ⟨events, hseg⟩ := hseg
    refine ⟨(segment_sequential t S (Others t node)).trans (fun _ _ => ⟨_, hopened⟩)
      (fun _ _ => ⟨events, hseg.mono (fun _ h => h.elim) fun _ _ => trivial⟩) hs ht, fun _ => ?_⟩
    rw [hseg.isOpen_of_not_scope id, ← hkey]
    exact (isOpen_setMemory s node.id true _).trans (if_pos rfl)

theorem ends_closeIfDone {s : State} (hs : s.Unlisted) (ht : s.tick.tree = t)
    (hopen : s.isOpen (t, node.id) = true) (status : Option Status) :
    (closeIfDone node status).Ends s fun r s' =>
      Comp.returned r = true ∧ (∃ events, Seg t S (Others t node) s true s' events) ∧
        s'.isOpen (t, node.id) = decide (status = some .running) := by
  have hkey : s.key node.id = (t, node.id) := by rw [State.key, ht]
  unfold closeIfDone
  split
  · rename_i hrunning
    refine Comp.ends_pure ⟨rfl, ?_, by rw [hopen, hrunning]; rfl⟩
    exact (segment_sequential t S (Others t node)).refl s true hs ht
  · rename_i hdone
    apply Comp.ends_bind
    apply Comp.ends_update
    apply Comp.ends_update
    have hclosed := seg_set (S := S) node (e := .closed (s.key node.id)) (b := false) hs ht hkey hown
      (by rw [hopen, hkey]; simp [flag]) (fun _ => rfl)
    refine ⟨rfl, ⟨_, hclosed⟩, ?_⟩
    rw [decide_eq_false hdone, ← hkey]
    exact (isOpen_setMemory s node.id false _).trans (if_pos rfl)

/-- The end of an execution settles the flag of its node. -/
theorem Seg.executed {s s' : State} {events : List Event} {status : Option Status}
    (seg : Seg t S (Others t node) s true s' events)
    (hopen : s'.isOpen (t, node.id) = decide (status = some .running)) (ran : List (Option Status)) :
    Seg t S (fun _ => True) s true
      { s' with trace := s'.trace ++ [Event.executed (s'.key node.id) node ran status] }
      (events ++ [Event.executed (t, node.id) node ran status]) := by
  have ht := seg.tree rfl
  refine ⟨?_, ?_, seg.unlisted, fun _ => ht, fun k => ?_, fun _ k _ => ?_⟩
  · show s'.trace ++ [Event.executed (s'.tick.tree, node.id) node ran status] = _
    rw [ht, seg.trace, List.append_assoc]
  · intro e he
    rcases List.mem_append.mp he with he | he
    · exact seg.scope e he
    · obtain rfl := List.mem_singleton.mp he
      exact hown
  · rw [flag_append, seg.flags]
    rfl
  · rw [lastStatus_append]
    show s'.isOpen k = _
    by_cases hk : k = (t, node.id)
    · subst hk
      simp only [lastStatus, if_pos, Option.none_or, Option.some_or]
      exact hopen
    · have hne : ¬ (t, node.id) = k := fun h => hk h.symm
      simp only [lastStatus, if_neg hne, Option.none_or]
      exact seg.settled rfl k hk

/-- One node: if its `tick` keeps to the nodes of `S'`, of which it is none, the execution keeps to `S`. -/
theorem keeps_baseExecute {S' : Key → Prop} (hsub : ∀ k, S' k → S k) (hnot : ¬ S' (t, node.id))
    {tick : M (Option Status × List (Option Status))}
    (htick : Keeps (Segment t S' fun _ => True) tick) :
    Keeps (Segment t S fun _ => True) (baseExecute env tick node) := by
  have hseq := segment_sequential t S (Others t node)
  intro s r₅ s₅ hrun hs ht
  revert r₅ s₅
  show (baseExecute env tick node).Ends s _
  apply Comp.ends_bind
  refine (ends_enter env node hown hs ht).mono ?_
  rintro (e | ⟨⟨⟩⟩) s₁ ⟨hr₁, hseg₁⟩
  · cases hr₁
  · obtain ⟨events₁, seg₁⟩ := hseg₁
    have hs₁ := seg₁.unlisted
    have ht₁ := seg₁.tree rfl
    apply Comp.ends_bind
    refine (ends_openIfClosed env node hown hs₁ ht₁).mono ?_
    rintro r₂ s₂ ⟨⟨events₂, seg₂⟩, hopen₂⟩
    have hto₂ := hseq.trans (fun _ _ => ⟨events₁, seg₁⟩) (fun _ _ => ⟨events₂, seg₂⟩) hs ht
    match r₂ with
    | .error e =>
      obtain ⟨events, seg⟩ := hto₂
      exact ⟨events, seg.of_raised⟩
    | .ok () =>
      obtain ⟨events₂, seg₂⟩ := hto₂
      apply Comp.ends_bind
      refine (htick s₂).mono ?_
      intro r₃ s₃ hseg₃
      obtain ⟨events₃, seg₃⟩ := hseg₃ seg₂.unlisted (seg₂.tree rfl)
      have hto₃ := hseq.trans (fun _ _ => ⟨events₂, seg₂⟩)
        (fun _ _ => ⟨events₃, seg₃.mono hsub fun _ _ => trivial⟩) hs ht
      match r₃ with
      | .error e =>
        obtain ⟨events, seg⟩ := hto₃
        exact ⟨events, seg.of_raised⟩
      | .ok result =>
        have hopen₃ : s₃.isOpen (t, node.id) = true :=
          (seg₃.isOpen_of_not_scope hnot).trans (hopen₂ rfl)
        apply Comp.ends_bind
        refine (ends_closeIfDone node hown seg₃.unlisted (seg₃.tree rfl) hopen₃ result.1).mono ?_
        rintro (e | ⟨⟨⟩⟩) s₄ ⟨hr₄, hseg₄, hopen₄⟩
        · cases hr₄
        · obtain ⟨events₄, seg₄⟩ := hseg₄
          have ht₄ := seg₄.tree rfl
          obtain ⟨events, seg⟩ := hseq.trans (fun _ _ => hto₃) (fun _ _ => ⟨events₄, seg₄⟩) hs ht
          apply Comp.ends_bind
          apply Comp.ends_update
          apply Comp.ends_pure
          exact ⟨_, seg.executed node hown hopen₄ result.2⟩

end BaseExecute

/-! ## A tick -/

theorem asArray_eq (node : Option Node) : asArray node = [] := by
  cases node <;> rfl

/-- Index 0 of `_openNodes` is nil, so nothing is listed after a tick either. -/
theorem unlisted_set {s : State} (hs : s.Unlisted) (tree : String) (node : Option Node)
    (counts : Table String Nat) (tick : Tick) :
    State.Unlisted { s with
      tick := tick
      blackboard := { s.blackboard with
        openNodes := s.blackboard.openNodes.set tree (asArray node)
        nodeCount := counts } } := by
  intro tree'
  show ((s.blackboard.openNodes.set tree (asArray node)).get tree').getD [] = []
  rw [Table.get_set]
  split
  · exact asArray_eq node
  · exact hs tree'

/-- The tick of a tree does to the flags what the execution of its root does: it closes nothing more. -/
theorem keeps_treeTick {S : Key → Prop} {execute : Node → M (Option Status)} {tree : Tree}
    (hroot : Keeps (Segment tree.id S fun _ => True) (execute tree.root)) (t : String) :
    Keeps (Segment t S fun _ => True) (treeTick execute tree) := by
  intro s r s' hrun hs ht
  revert r s'
  show (treeTick execute tree).Ends s _
  apply Comp.ends_bind
  apply Comp.ends_read
  apply Comp.ends_bind
  apply Comp.ends_update
  apply Comp.ends_bind
  intro r s₁ hr
  obtain ⟨events, seg⟩ := hroot _ r s₁ hr hs rfl
  match r with
  | .error e => exact ⟨events, seg.trace, seg.scope, seg.unlisted, by simp [Comp.returned], seg.flags,
      by simp [Comp.returned]⟩
  | .ok state =>
    apply Comp.ends_bind
    apply Comp.ends_read
    dsimp only
    rw [seg.unlisted tree.id]
    apply Comp.ends_bind
    apply Comp.ends_pure
    apply Comp.ends_bind
    apply Comp.ends_update
    apply Comp.ends_pure
    exact ⟨events, seg.trace, seg.scope, unlisted_set seg.unlisted _ _ _ _, fun _ => ht, seg.flags,
      seg.settled⟩

/-- An execution of a node that is not executed inside itself. -/
theorem keeps_execute (env : Env) (fuel : Nat) (x : Place) (hx : Unrepeated env x) :
    Keeps (Segment x.1 (Scope env x) fun _ => True) (execute env fuel x.2) := by
  induction fuel generalizing x with
  | zero => exact Comp.keeps_diverge
  | succ fuel ih =>
    obtain ⟨t, node⟩ := x
    -- what `tick` calls stays below the node
    have hbelow : ∀ y : Place, Runs env (t, node) y →
        Keeps (Segment y.1 (Below env (t, node)) fun _ => True) (execute env fuel y.2) := by
      intro y hy s r s' hrun hs ht
      obtain ⟨events, seg⟩ := ih y (hx.runs hy) s r s' hrun hs ht
      exact ⟨events, seg.mono (fun k hk => hk.below hy) fun _ _ => trivial⟩
    have hseq := segment_sequential t (Below env (t, node)) fun _ => True
    have hsilent : ∀ f, Silent f → ∀ s, Segment t (Below env (t, node)) (fun _ => True) s true (f s) :=
      fun f hf s => segment_silent hf t _ _ s
    refine keeps_baseExecute env node ⟨_, .refl, rfl⟩ (fun _ hk => hk.scope) (hx _ .refl) ?_
    cases node with
    | base id => exact Comp.keeps_pure hseq _
    | custom id =>
      exact Comp.keeps_bind hseq (keeps_customTick hseq hsilent env) fun _ => Comp.keeps_pure hseq _
    | action id cls =>
      exact Comp.keeps_bind hseq (keeps_actionTick hseq hsilent env id cls)
        fun _ => Comp.keeps_pure hseq _
    | subTree id name =>
      dsimp only [tickHook]
      split
      · exact Comp.keeps_raise hseq _
      · rename_i load hload
        split
        · exact Comp.keeps_raise hseq _
        · rename_i tree htree
          have hroot := hbelow (tree.id, tree.root) (.subTree hload htree)
          exact Comp.keeps_bind hseq (keeps_treeTick hroot t) fun _ => Comp.keeps_pure hseq _
    | composite id cls children =>
      exact keeps_compositeTick hseq hsilent id children cls fun v hv =>
        hbelow (t, v) (.composite hv)
    | decorator id cls child =>
      refine keeps_decoratorTick hseq hsilent fuel id cls child fun v hv => ?_
      obtain rfl := Option.mem_def.mp hv
      exact hbelow (t, v) .decorator

/-! ## Runs -/

/-- A tick that goes from `s` to `s'` leaves a node open exactly when it executed it and the node
returned RUNNING; a node that is open when it begins and is not running in it is closed once more than it
is opened, and no node is closed that is not open. -/
structure Disciplined (s s' : State) : Prop where
  open_iff : ∀ k, s'.isOpen k = true ↔ lastStatus k s'.trace = some (some .running)
  closed_once : ∀ k, s.isOpen k = true → lastStatus k s'.trace ≠ some (some .running) →
    closes k s'.trace = opens k s'.trace + 1
  close_open : ∀ k, (flag k (s.isOpen k) s'.trace).isSome = true

/-- The tick executes every node that is open when it begins. -/
def ExecutesOpen (s s' : State) : Prop :=
  ∀ k, s.isOpen k = true → (lastStatus k s'.trace).isSome = true

section Run

variable {env : Env} {fuel : Nat}

theorem tickTree_seg {tree : Tree} (htree : Unrepeated env (tree.id, tree.root)) {s s' : State}
    (hs : s.Unlisted) {r : Except LuaError (Option Status)} (h : tickTree env fuel tree s = some (r, s')) :
    Seg s.tick.tree (Scope env (tree.id, tree.root)) (fun _ => True) { s with trace := [] }
      (Comp.returned r) s' s'.trace := by
  have hkeeps := keeps_treeTick (keeps_execute env fuel _ htree) s.tick.tree
  obtain ⟨events, seg⟩ := hkeeps _ r s' h hs rfl
  obtain rfl : s'.trace = events := seg.trace
  exact seg

/-- A tick that returns is disciplined exactly when it executes every node that was open. -/
theorem disciplined_iff {tree : Tree} (htree : Unrepeated env (tree.id, tree.root)) {s s' : State}
    (hs : s.Unlisted) {status : Option Status} (h : tickTree env fuel tree s = some (.ok status, s')) :
    Disciplined s s' ↔ ExecutesOpen s s' := by
  have seg := tickTree_seg htree hs h
  have hsettled := fun k => seg.settled rfl k trivial
  have hflags : ∀ k, flag k (s.isOpen k) s'.trace = some (s'.isOpen k) := seg.flags
  constructor
  · intro hdisc k hopen
    by_contra hnone
    rw [Bool.not_eq_true, Option.isSome_eq_false_iff, Option.isNone_iff_eq_none] at hnone
    have hk := hsettled k
    rw [hnone] at hk
    have hlast := (hdisc.open_iff k).mp (hk.trans hopen)
    rw [hnone] at hlast
    cases hlast
  · intro hexec
    have hopen : ∀ k, s'.isOpen k = true ↔ lastStatus k s'.trace = some (some .running) := by
      intro k
      have hk := hsettled k
      cases hlast : lastStatus k s'.trace with
      | none =>
        rw [hlast] at hk
        refine iff_of_false (fun hopen => ?_) (by simp)
        have := hexec k (hk.symm.trans hopen)
        rw [hlast] at this
        cases this
      | some status =>
        rw [hlast] at hk
        rw [hk, decide_eq_true_iff, Option.some.injEq]
    refine ⟨hopen, fun k hbefore hnot => ?_, fun k => by rw [hflags]; rfl⟩
    have hclosed : s'.isOpen k = false := Bool.eq_false_iff.mpr fun h => hnot ((hopen k).mp h)
    have hcount := flag_count (hflags k)
    rw [hbefore, hclosed, Bool.toNat_true, Bool.toNat_false] at hcount
    omega

theorem unlisted_initial : State.initial.Unlisted := fun tree => by
  show ((Table.empty : Table String (List Node)).get tree).getD [] = []
  rw [Table.get_empty]
  rfl

theorem unlisted_ticks {trees : List Tree} (htrees : ∀ tree ∈ trees, Unrepeated env (tree.id, tree.root))
    {s s' : State} (hs : s.Unlisted) (h : ticks env fuel trees s = some s') : s'.Unlisted := by
  induction trees generalizing s with
  | nil =>
    obtain rfl := Option.some.inj h
    exact hs
  | cons tree trees ih =>
    obtain ⟨htree, hrest⟩ := List.forall_mem_cons.mp htrees
    obtain ⟨⟨r, s₁⟩, hr, h₁⟩ := Option.bind_eq_some_iff.mp h
    exact ih hrest (tickTree_seg htree hs hr).unlisted h₁

/-- In every run of ticks on a new blackboard, the ticks that return are all disciplined exactly when each
of them executes every node that is open when it begins. -/
theorem disciplined_run_iff (trees : List Tree)
    (htrees : ∀ tree ∈ trees, Unrepeated env (tree.id, tree.root)) :
    (∀ before tree s status s', before ++ [tree] <+: trees →
        ticks env fuel before .initial = some s →
        tickTree env fuel tree s = some (.ok status, s') → Disciplined s s') ↔
      ∀ before tree s status s', before ++ [tree] <+: trees →
        ticks env fuel before .initial = some s →
        tickTree env fuel tree s = some (.ok status, s') → ExecutesOpen s s' := by
  have htick : ∀ before tree s status s', before ++ [tree] <+: trees →
      ticks env fuel before .initial = some s → tickTree env fuel tree s = some (.ok status, s') →
      (Disciplined s s' ↔ ExecutesOpen s s') := by
    intro before tree s status s' hpre hs h
    have hmem : ∀ v ∈ before ++ [tree], v ∈ trees := fun v hv => hpre.subset hv
    have hbefore := unlisted_ticks (fun v hv => htrees v (hmem v (List.mem_append_left _ hv)))
      unlisted_initial hs
    exact disciplined_iff (htrees tree (hmem tree (by simp))) hbefore h
  constructor
  · intro hall before tree s status s' hpre hs h
    exact (htick before tree s status s' hpre hs h).mp (hall before tree s status s' hpre hs h)
  · intro hall before tree s status s' hpre hs h
    exact (htick before tree s status s' hpre hs h).mpr (hall before tree s status s' hpre hs h)

end Run

/-! ## Two runs of a priority -/

/-- A priority over two custom nodes. -/
def twoChoices : Tree := { id := "t", root := .composite "p" .priority [.custom "a", .custom "b"] }

/-- The custom nodes give these results, one after another. -/
def leafResults (results : List Status) : Env where
  subTreeLoadFunc := none
  leaf n := .value results[n]?
  time _ := 0

theorem unrepeated_twoChoices (results : List Status) :
    Unrepeated (leafResults results) (twoChoices.id, twoChoices.root) := by
  have hchoices : WellFormed (leafResults results) (fun _ => 0) (twoChoices.id, twoChoices.root) := by
    refine ⟨by decide, ?_⟩
    intro name hname
    cases hname
  refine hchoices.unrepeated ?_
  intro name tree h
  cases h

/-- The flags that are set are those of nodes with a memory. -/
theorem executesOpen_iff {s s' : State} : ExecutesOpen s s' ↔
    ∀ k ∈ s.blackboard.nodeMemory.keys, s.isOpen k = true → (lastStatus k s'.trace).isSome = true := by
  refine ⟨fun h k _ hk => h k hk, fun h k hk => h k ?_ hk⟩
  rw [Table.mem_keys]
  by_contra hnone
  rw [Bool.not_eq_true, Option.isSome_eq_false_iff, Option.isNone_iff_eq_none] at hnone
  have hopen : ((s.blackboard.nodeMemory.get k).getD {}).isOpen = true := hk
  rw [hnone] at hopen
  cases hopen

instance (s s' : State) : Decidable (ExecutesOpen s s') := decidable_of_iff _ executesOpen_iff.symm

/-- While the second child stays RUNNING and the first one fails, every tick is disciplined: the second one
finds both nodes open and executes them. -/
theorem disciplined_run_iff_twoChoices : ∃ s s',
    ticks (leafResults [.failure, .running, .failure, .running]) 5 [twoChoices] .initial = some s ∧
    tickTree (leafResults [.failure, .running, .failure, .running]) 5 twoChoices s =
      some (.ok (some .running), s') ∧ s.isOpen ("t", "b") = true ∧ Disciplined s s' := by
  have htrees : ∀ tree ∈ [twoChoices, twoChoices],
      Unrepeated (leafResults [.failure, .running, .failure, .running]) (tree.id, tree.root) := by
    intro tree htree
    obtain rfl : tree = twoChoices := by simpa using htree
    exact unrepeated_twoChoices _
  have hexec : ∀ before ∈ [[], [twoChoices]],
      ∀ s ∈ ticks (leafResults [.failure, .running, .failure, .running]) 5 before .initial,
      ∀ r ∈ tickTree (leafResults [.failure, .running, .failure, .running]) 5 twoChoices s,
      ExecutesOpen s r.2 := by
    decide +kernel
  have hrun : ∃ s ∈ ticks (leafResults [.failure, .running, .failure, .running]) 5 [twoChoices] .initial,
      ∃ r ∈ tickTree (leafResults [.failure, .running, .failure, .running]) 5 twoChoices s,
      r.1 = .ok (some .running) ∧ s.isOpen ("t", "b") = true := by
    decide +kernel
  obtain ⟨s, hs, ⟨r, s'⟩, hr, rfl, hopen⟩ := hrun
  refine ⟨s, s', hs, hr, hopen, ?_⟩
  refine (disciplined_run_iff [twoChoices, twoChoices] htrees).mpr ?_ [twoChoices] twoChoices s _ s'
    (List.prefix_refl _) hs hr
  intro before tree s status s' hpre hs h
  obtain ⟨rest, hrest⟩ := hpre
  obtain ⟨hbefore, rfl⟩ : before ∈ [[], [twoChoices]] ∧ tree = twoChoices := by
    rcases before with _ | ⟨v, _ | ⟨w, before⟩⟩
    · exact ⟨by simp, (List.cons.inj hrest).1⟩
    · obtain ⟨hv, htail⟩ := List.cons.inj hrest
      exact ⟨by simp [hv], (List.cons.inj htail).1⟩
    · have hlen := congrArg List.length hrest
      simp only [List.length_append, List.length_cons, List.length_nil] at hlen
      omega
  exact hexec before hbefore s hs (.ok status, s') h

/-- The second child is left RUNNING, and the next tick ends at the first one: the second stays open. -/
theorem not_disciplined : ∃ s s',
    ticks (leafResults [.failure, .running, .success]) 5 [twoChoices] .initial = some s ∧
    tickTree (leafResults [.failure, .running, .success]) 5 twoChoices s =
      some (.ok (some .success), s') ∧ ¬ Disciplined s s' := by
  have hrun : ∃ s ∈ ticks (leafResults [.failure, .running, .success]) 5 [twoChoices] .initial,
      ∃ r ∈ tickTree (leafResults [.failure, .running, .success]) 5 twoChoices s,
      r.1 = .ok (some .success) ∧ r.2.isOpen ("t", "b") = true ∧
      lastStatus ("t", "b") r.2.trace = none := by
    decide +kernel
  obtain ⟨s, hs, ⟨r, s'⟩, hr, rfl, hopen, hlast⟩ := hrun
  refine ⟨s, s', hs, hr, fun h => ?_⟩
  have hrunning := (h.open_iff _).mp hopen
  rw [hlast] at hrunning
  cases hrunning

end AntServer.Behavior3
