/-
# AntServer.Behavior3.Repetition — the decorators that repeat or limit their child

`Repeater`, `RepeatUntilSuccess`, `RepeatUntilFailure` and `Limiter` over any sequence of ticks and any
results of the child. What they are to do is `Repeats`: the status of the last execution of the child,
RUNNING only when the child is, and at most `maxLoop` completions from an opening to its close.

The loop of `repeater:tick` assigns a local `status` that hides the one the function returns, so the
decorator returns SUCCESS whatever its child returned; it closes and begins to count again. The two
`RepeatUntil` call a method of the blackboard with a dot and raise in `open` and in `tick`, before
their loop. `Limiter` raises there too and never executes its child.
-/
import AntServer.Behavior3.Executions
import Mathlib.Data.Rat.Floor
import Mathlib.Tactic.Linarith

namespace AntServer.Behavior3

open Lib (Comp)

/-- The decorators that repeat or limit their child. -/
inductive Repeating where
  | limiter
  | repeatUntilFailure
  | repeatUntilSuccess
  | repeater
  deriving DecidableEq, Repr

/-- The class, with its `maxLoop` where something reads it. -/
def Repeating.cls (maxLoop : Rat) : Repeating → DecoratorClass
  | .limiter => .limiter
  | .repeatUntilFailure => .repeatUntilFailure
  | .repeatUntilSuccess => .repeatUntilSuccess
  | .repeater => .repeater (some maxLoop)

/-- The status after which the class stops, by its name. -/
def Repeating.until : Repeating → Option Status
  | .limiter => none
  | .repeatUntilFailure => some .failure
  | .repeatUntilSuccess => some .success
  | .repeater => none

/-- A completion of the child: SUCCESS or FAILURE. -/
def completed (result : Ended (Option Status)) : Bool :=
  result = some (.ok (some .success)) || result = some (.ok (some .failure))

/-! ## The rounds of `Repeater` -/

section Rounds

variable (execute : Node → M (Option Status)) (maxLoop : Rat) (child : Node)

/-- The executions of the child in `repeaterLoop`, from a state and a count. -/
def roundsRan : Nat → Option Int → State → List (Ended (Option Status))
  | 0, _, _ => []
  | n + 1, i, s =>
    match repeaterGoesOn (some maxLoop) i s with
    | some (.ok true, s₁) =>
      match execute child s₁ with
      | none => [none]
      | some (.error e, _) => [some (.error e)]
      | some (.ok status, s₂) =>
        some (.ok status) ::
          if status = some .success ∨ status = some .failure then
            match i with
            | none => []
            | some i => roundsRan n (some (i + 1)) s₂
          else []
    | _ => []

theorem repeaterGoesOn_some (a : Int) (s : State) :
    repeaterGoesOn (some maxLoop) (some a) s = some (.ok (decide (maxLoop < 0 ∨ a < maxLoop)), s) := by
  unfold repeaterGoesOn
  by_cases hneg : maxLoop < 0
  · simp only [hneg, if_true, true_or, decide_true]
    rfl
  · simp only [hneg, if_false, false_or]
    rfl

theorem roundsRan_succ (n : Nat) (a : Int) (s : State) :
    roundsRan execute maxLoop child (n + 1) (some a) s =
      if maxLoop < 0 ∨ a < maxLoop then
        match execute child s with
        | none => [none]
        | some (.error e, _) => [some (.error e)]
        | some (.ok status, s') =>
          some (.ok status) ::
            if status = some .success ∨ status = some .failure then
              roundsRan execute maxLoop child n (some (a + 1)) s'
            else []
      else [] := by
  simp only [roundsRan, repeaterGoesOn_some]
  by_cases hgo : maxLoop < 0 ∨ a < maxLoop
  · simp only [hgo, decide_true, if_true]
  · simp only [hgo, decide_false, if_false]

theorem repeaterLoop_succ (n : Nat) (a : Int) (ran : List (Option Status)) (s : State) :
    repeaterLoop execute (some maxLoop) child (n + 1) (some a) ran s =
      if maxLoop < 0 ∨ a < maxLoop then
        match execute child s with
        | none => none
        | some (.error e, s') => some (.error e, s')
        | some (.ok status, s') =>
          if status = some .success ∨ status = some .failure then
            repeaterLoop execute (some maxLoop) child n (some (a + 1)) (ran ++ [status]) s'
          else
            some (.ok (some a, ran ++ [status]), s')
      else
        some (.ok (some a, ran), s) := by
  simp only [repeaterLoop, Comp.bind_apply, repeaterGoesOn_some]
  by_cases hgo : maxLoop < 0 ∨ a < maxLoop
  · simp only [hgo, decide_true, if_true]
    rw [Comp.bind_apply]
    rcases execute child s with - | ⟨e | status, s'⟩
    · rfl
    · rfl
    · simp only
      split
      · rfl
      · rfl
  · simp only [hgo, decide_false, if_false]
    rfl

theorem completed_iff {status : Option Status} :
    completed (some (.ok status)) = true ↔ status = some .success ∨ status = some .failure := by
  simp [completed]

/-! ### The rounds that are bounded, and those that are not -/

/-- Each execution but the last was a completion. -/
theorem roundsRan_goesOn (n : Nat) (a : Int) (s : State) (before : List (Ended (Option Status)))
    (x : Ended (Option Status)) (after : List (Ended (Option Status)))
    (h : roundsRan execute maxLoop child n (some a) s = before ++ x :: after) (hafter : after ≠ []) :
    completed x = true := by
  induction n generalizing a s before with
  | zero => simp [roundsRan] at h
  | succ n ih =>
    rw [roundsRan_succ] at h
    split at h
    · split at h
      · rcases before with - | ⟨y, before⟩
        · simp only [List.nil_append, List.cons.injEq] at h
          exact absurd h.2.symm hafter
        · simp at h
      · rcases before with - | ⟨y, before⟩
        · simp only [List.nil_append, List.cons.injEq] at h
          exact absurd h.2.symm hafter
        · simp at h
      · rename_i status s' _
        by_cases hcompleted : status = some .success ∨ status = some .failure
        · rw [if_pos hcompleted] at h
          rcases before with - | ⟨y, before⟩
          · obtain ⟨rfl, -⟩ := List.cons.inj h
            exact completed_iff.mpr hcompleted
          · exact ih (a + 1) s' before (List.cons.inj h).2
        · rw [if_neg hcompleted] at h
          rcases before with - | ⟨y, before⟩
          · exact absurd (List.cons.inj h).2.symm hafter
          · simp at h
    · simp at h

/-- The completions do not take the count past `maxLoop`. -/
theorem roundsRan_bounded (h : 0 ≤ maxLoop) (n : Nat) (a : Int) (s : State) :
    (roundsRan execute maxLoop child n (some a) s).countP completed = 0 ∨
      a + (roundsRan execute maxLoop child n (some a) s).countP completed ≤ ⌈maxLoop⌉ := by
  induction n generalizing a s with
  | zero => simp [roundsRan]
  | succ n ih =>
    rw [roundsRan_succ]
    split
    · rename_i hgo
      have hlt : a + 1 ≤ ⌈maxLoop⌉ := by
        have hlt : (a : Rat) < maxLoop := hgo.resolve_left (by simpa using h)
        exact Int.lt_ceil.mpr hlt
      split
      · simp [completed]
      · simp [completed]
      · rename_i status s' _
        by_cases hcompleted : status = some .success ∨ status = some .failure
        · rw [if_pos hcompleted, List.countP_cons_of_pos (completed_iff.mpr hcompleted)]
          have ih := ih (a + 1) s'
          push_cast
          omega
        · rw [if_neg hcompleted, List.countP_cons_of_neg (by simpa [completed_iff] using hcompleted)]
          simp
    · simp

/-- When the last execution was a completion, each one was. -/
theorem roundsRan_all_completed (n : Nat) (a : Int) (s : State) {x : Ended (Option Status)}
    (hlast : (roundsRan execute maxLoop child n (some a) s).getLast? = some x)
    (hcompleted : completed x = true) : ∀ y ∈ roundsRan execute maxLoop child n (some a) s,
      completed y = true := by
  intro y hy
  obtain ⟨before, after, happ⟩ := List.append_of_mem hy
  by_cases hafter : after = []
  · rw [happ, hafter, List.getLast?_concat] at hlast
    exact Option.some.inj hlast ▸ hcompleted
  · exact roundsRan_goesOn execute maxLoop child n a s before y after happ hafter

/-- With a bound, and with rounds enough, the loop ends before the rounds do. -/
theorem roundsRan_length_ne (h : 0 ≤ maxLoop) {n : Nat} (hn : maxLoop + 1 ≤ n) (s : State)
    {x : Ended (Option Status)} (hlast : (roundsRan execute maxLoop child n (some 0) s).getLast? = some x)
    (hcompleted : completed x = true) : (roundsRan execute maxLoop child n (some 0) s).length ≠ n := by
  intro hlen
  have hall := roundsRan_all_completed execute maxLoop child n 0 s hlast hcompleted
  have hbounded := roundsRan_bounded execute maxLoop child h n 0 s
  rw [List.countP_eq_length.mpr hall, hlen] at hbounded
  have hceil : ((⌈maxLoop⌉ : Int) : Rat) < maxLoop + 1 := Int.ceil_lt_add_one maxLoop
  rcases hbounded with hzero | hle
  · rw [hzero] at hn
    norm_num at hn
    linarith
  · have hle' : ((n : Int) : Rat) ≤ (⌈maxLoop⌉ : Int) := by
      rw [zero_add] at hle
      exact_mod_cast hle
    push_cast at hle'
    linarith

/-- Without a bound a completion is followed by another execution as long as there are rounds. -/
theorem roundsRan_endless (h : maxLoop < 0) (n : Nat) (a : Int) (s : State)
    {x : Ended (Option Status)} (hlast : (roundsRan execute maxLoop child n (some a) s).getLast? = some x)
    (hcompleted : completed x = true) : (roundsRan execute maxLoop child n (some a) s).length = n := by
  induction n generalizing a s with
  | zero => simp [roundsRan] at hlast
  | succ n ih =>
    rw [roundsRan_succ, if_pos (.inl h)] at hlast ⊢
    split at hlast
    · obtain rfl := Option.some.inj hlast
      simp [completed] at hcompleted
    · obtain rfl := Option.some.inj hlast
      simp [completed] at hcompleted
    · rename_i status s' _
      by_cases hdone : status = some .success ∨ status = some .failure
      · simp only [if_pos hdone] at hlast ⊢
        rcases n with - | n
        · rfl
        · rw [List.length_cons, ih (a + 1) s' ?_]
          have hne : roundsRan execute maxLoop child (n + 1) (some (a + 1)) s' ≠ [] := by
            rw [roundsRan_succ, if_pos (.inl h)]
            split
            · simp
            · simp
            · simp
          rwa [List.getLast?_cons_of_ne_nil hne] at hlast
      · simp only [if_neg hdone] at hlast
        obtain rfl := Option.some.inj hlast
        exact absurd (completed_iff.mp hcompleted) hdone

/-! ### The loop -/

/-- The loop comes to what the last execution came to. It has no result when the rounds ran out. -/
theorem repeaterLoop_ended (n : Nat) (a : Int) (ran : List (Option Status)) (s : State) :
    (repeaterLoop execute (some maxLoop) child n (some a) ran s).map Prod.fst =
      match (roundsRan execute maxLoop child n (some a) s).getLast? with
      | none => if n = 0 then none else some (.ok (some a, ran))
      | some none => none
      | some (some (.error e)) => some (.error e)
      | some (some (.ok status)) =>
        if completed (some (.ok status)) ∧ (roundsRan execute maxLoop child n (some a) s).length = n then
          none
        else
          some (.ok (some (a + (roundsRan execute maxLoop child n (some a) s).countP completed),
            ran ++ statuses (roundsRan execute maxLoop child n (some a) s))) := by
  induction n generalizing a ran s with
  | zero => rfl
  | succ n ih =>
    rw [repeaterLoop_succ, roundsRan_succ]
    by_cases hgo : maxLoop < 0 ∨ a < maxLoop
    · simp only [hgo, if_true]
      rcases execute child s with - | ⟨e | status, s'⟩
      · rfl
      · rfl
      · by_cases hcompleted : status = some .success ∨ status = some .failure
        · have hdone : completed (some (.ok status)) = true := completed_iff.mpr hcompleted
          simp only [hcompleted, if_true]
          rw [ih (a + 1) (ran ++ [status]) s']
          generalize roundsRan execute maxLoop child n (some (a + 1)) s' = rest
          rcases List.eq_nil_or_concat' rest with rfl | ⟨rest, last, rfl⟩
          · rcases n with - | n
            · simp [hdone]
            · simp [hdone, statuses, Except.toOption]
          · -- the last of the rest is the last of all
            have hlast : (some (.ok status) :: (rest ++ [last])).getLast? = some last := by
              rw [← List.cons_append, List.getLast?_concat]
            rw [hlast, List.getLast?_concat]
            rcases last with - | e | last
            · rfl
            · rfl
            · generalize rest ++ [some (Except.ok last)] = whole
              have hcount : a + ((some (Except.ok status) :: whole).countP completed : Nat) =
                  a + 1 + (whole.countP completed : Nat) := by
                rw [List.countP_cons_of_pos hdone]
                push_cast
                omega
              have hran : ran ++ statuses (some (.ok status) :: whole) = ran ++ [status] ++ statuses whole := by
                simp [statuses, Except.toOption]
              simp only [hcount, hran, List.length_cons, Nat.add_right_cancel_iff]
        · have hdone : ¬ completed (some (.ok status)) = true := by simpa [completed_iff] using hcompleted
          simp [hcompleted, hdone, statuses, Except.toOption]
    · simp only [hgo, if_false]
      rfl

/-- What leaves the memory of a node as it is and, when it returns, the tree of the tick. -/
def LeavesAlone (k : Key) {α : Type} (x : M α) : Prop :=
  ∀ s, s.tick.tree = k.1 → x.Ends s fun r s' =>
    s'.blackboard.memory k = s.blackboard.memory k ∧ (Comp.returned r = true → s'.tick.tree = k.1)

variable {execute maxLoop child} in
/-- The loop leaves alone what the child leaves alone. -/
theorem leavesAlone_repeaterLoop {k : Key} (hchild : LeavesAlone k (execute child)) (n : Nat) (a : Int)
    (ran : List (Option Status)) :
    LeavesAlone k (repeaterLoop execute (some maxLoop) child n (some a) ran) := by
  induction n generalizing a ran with
  | zero => exact fun s _ => Comp.ends_diverge
  | succ n ih =>
    intro s hs r s' h
    rw [repeaterLoop_succ] at h
    split at h
    · have hends := hchild s hs
      split at h
      · simp at h
      · rename_i e s₁ hrun
        simp only [Option.some.injEq, Prod.mk.injEq] at h
        obtain ⟨rfl, rfl⟩ := h
        exact ⟨(hends _ _ hrun).1, by simp [Comp.returned]⟩
      · rename_i status s₁ hrun
        obtain ⟨hmemory, htree⟩ := hends _ _ hrun
        split at h
        · obtain ⟨hmemory', htree'⟩ := ih (a + 1) _ s₁ (htree rfl) r s' h
          exact ⟨hmemory'.trans hmemory, htree'⟩
        · simp only [Option.some.injEq, Prod.mk.injEq] at h
          obtain ⟨rfl, rfl⟩ := h
          exact ⟨hmemory, fun _ => htree rfl⟩
    · simp only [Option.some.injEq, Prod.mk.injEq] at h
      obtain ⟨rfl, rfl⟩ := h
      exact ⟨rfl, fun _ => hs⟩

end Rounds

/-! ## Ticks -/

section Ticks

variable (env : Env) (execute : Node → M (Option Status)) (rounds : Nat) (k : Key) (maxLoop : Rat)
  (child : Node)

/-- The executions of the child in the `tick` of the class, if it gets to any. -/
def repeatedRan : Repeating → State → List (Ended (Option Status))
  | .repeater, s => roundsRan execute maxLoop child rounds (s.memory k.2).i s
  | .limiter, _ | .repeatUntilFailure, _ | .repeatUntilSuccess, _ => []

/-- A tick of the decorator with the executions of its child. -/
def repeatedTick (c : Repeating) (s : State) : Visit (Ended (Option Status)) :=
  visit env (decoratorTick execute rounds k.2 (c.cls maxLoop) (some child))
    (repeatedRan execute rounds k maxLoop child c) (.decorator k.2 (c.cls maxLoop) (some child)) s

/-- What else may happen between two ticks of the tree: anything but to the memory of the node. -/
structure Change (k : Key) where
  apply : State → State
  tree : ∀ s, (apply s).tick.tree = k.1
  memory : ∀ s, (apply s).blackboard.memory k = s.blackboard.memory k

def repeatedTicks (c : Repeating) (changes : List (Change k)) (s : State) :
    List (Visit (Ended (Option Status))) :=
  visits env (decoratorTick execute rounds k.2 (c.cls maxLoop) (some child))
    (repeatedRan execute rounds k maxLoop child c) (.decorator k.2 (c.cls maxLoop) (some child))
    (changes.map Change.apply) s

end Ticks

/-! ## What they are to do -/

/-- The tick returns the status of the last execution of the child, RUNNING exactly when the child
returned it, and raises only what the child raised. It ends if the child does, unless it is to repeat
without end. -/
def Returns (maxLoop : Rat) (v : Visit (Ended (Option Status))) : Prop :=
  match v.outcome with
  | none => v.ran.getLast? = some none ∨ maxLoop < 0
  | some (.error e) => v.ran.getLast? = some (some (.error e))
  | some (.ok status) =>
    (status = some .running ↔ some (.ok (some .running)) ∈ v.ran) ∧
      ∀ last ∈ v.ran.getLast?, last = some (.ok status)

/-- The completions since the last opening, after each tick. -/
def completions : Nat → List (Visit (Ended (Option Status))) → List Nat
  | _, [] => []
  | n, v :: vs =>
    let n' := (if v.opened then 0 else n) + v.ran.countP completed
    n' :: completions n' vs

/-- What the classes say. Of `Limiter` only the bound is asked for. -/
structure Repeats (c : Repeating) (maxLoop : Rat) (vs : List (Visit (Ended (Option Status)))) : Prop where
  returns : c ≠ .limiter → ∀ v ∈ vs, Returns maxLoop v
  stops : ∀ v ∈ vs, ∀ status, c.until = some status →
    ∀ before after, v.ran = before ++ some (.ok (some status)) :: after → after = []
  bounded : 0 ≤ maxLoop → ∀ n ∈ completions 0 vs, (n : Int) ≤ ⌈maxLoop⌉

/-- What the child of a `Repeater` has to come to in a tick: its last execution returned SUCCESS, or the
tick is to repeat without end and each one completed; it raised in the first one, where there is no
count to be lost. -/
def Fits (maxLoop : Rat) (ran : List (Ended (Option Status))) : Prop :=
  match ran.getLast? with
  | none | some none => True
  | some (some (.error _)) => maxLoop < 0 ∨ ran.length = 1
  | some (some (.ok status)) => status = some .success ∨ maxLoop < 0 ∧ status = some .failure

/-- When a tick of the class does what the class says: `Limiter` never lets its child complete, and the
two `RepeatUntil` raise. -/
def Repeating.Condition (maxLoop : Rat) (v : Visit (Ended (Option Status))) : Repeating → Prop
  | .limiter => True
  | .repeatUntilFailure | .repeatUntilSuccess => False
  | .repeater => Fits maxLoop v.ran

/-! ## A tick of a `Repeater` -/

section Repeater

variable {env : Env} {execute : Node → M (Option Status)} {rounds : Nat} {k : Key} {maxLoop : Rat}
  {child : Node}

theorem State.key_eq {s : State} (hs : s.tick.tree = k.1) : s.key k.2 = k := Prod.ext hs rfl

theorem memory_eq {s : State} (hs : s.tick.tree = k.1) : s.memory k.2 = s.blackboard.memory k := by
  rw [State.memory, State.key_eq hs]

/-- The count at which the `tick` of a `Repeater` begins. -/
def countAt (m : NodeMemory) : Option Int := if m.isOpen then m.i else some 0

/-- ENTER and OPEN of a `Repeater`: when it was closed it begins to count. -/
theorem repeater_opens {s : State} (hs : s.tick.tree = k.1) :
    ∃ s', enterAndOpen env (.decorator k.2 (.repeater (some maxLoop)) (some child)) s = some (.ok ⟨⟩, s') ∧
      s'.tick.tree = k.1 ∧
      s'.blackboard.memory k =
        { s.blackboard.memory k with isOpen := true, i := countAt (s.blackboard.memory k) } := by
  have hopen : ∀ s₁ : State, s₁.tick.tree = k.1 → s₁.blackboard = s.blackboard →
      ∃ s', openIfClosed env (.decorator k.2 (.repeater (some maxLoop)) (some child)) s₁ =
          some (.ok ⟨⟩, s') ∧
        s'.tick.tree = k.1 ∧
        s'.blackboard.memory k =
          { s.blackboard.memory k with isOpen := true, i := countAt (s.blackboard.memory k) } := by
    intro s₁ htree hboard
    unfold openIfClosed
    rw [getMemory, Comp.read_bind]
    have hmemory : s₁.memory (Node.decorator k.2 (.repeater (some maxLoop)) (some child)).id =
        s.blackboard.memory k := hboard ▸ memory_eq htree
    rw [hmemory]
    by_cases hisOpen : (s.blackboard.memory k).isOpen = true
    · refine ⟨s₁, by rw [if_pos hisOpen]; rfl, htree, ?_⟩
      rw [hboard, countAt, if_pos hisOpen, ← hisOpen]
    · rw [if_neg hisOpen]
      refine ⟨_, rfl, htree, ?_⟩
      simp only [State.key, Node.id, htree, Prod.mk.eta, Blackboard.memory_setMemory, if_true, hboard,
        countAt, if_neg hisOpen]
  exact hopen _ hs rfl

/-- `repeaterTick` in one piece: the loop, the count it leaves, and SUCCESS. -/
theorem repeaterTick_eq {s : State} {a : Int} (ha : (s.memory k.2).i = some a) :
    repeaterTick execute rounds k.2 (some maxLoop) child s =
      match repeaterLoop execute (some maxLoop) child rounds (some a) [] s with
      | none => none
      | some (.error e, s') => some (.error e, s')
      | some (.ok result, s') =>
        some (.ok (some .success, result.2),
          { s' with blackboard := s'.blackboard.setMemory (s'.key k.2) fun m => { m with i := result.1 } }) := by
  unfold repeaterTick
  rw [getMemory, Comp.read_bind, ha, Comp.bind_apply]
  rcases repeaterLoop execute (some maxLoop) child rounds (some a) [] s with - | ⟨e | result, s'⟩
  · rfl
  · rfl
  · rfl

theorem repeaterTick_outcome {s : State} {a : Int} (ha : (s.memory k.2).i = some a) :
    ((repeaterTick execute rounds k.2 (some maxLoop) child s).map fun r => r.1.map Prod.fst) =
      ((repeaterLoop execute (some maxLoop) child rounds (some a) [] s).map Prod.fst).map fun r =>
        r.map fun _ => some .success := by
  rw [repeaterTick_eq ha]
  rcases repeaterLoop execute (some maxLoop) child rounds (some a) [] s with - | ⟨e | result, s'⟩
  · rfl
  · rfl
  · rfl

/-- A tick of a `Repeater` that begins with the count `a`: what it executed and what it came to. -/
theorem repeater_visit {s : State} (hs : s.tick.tree = k.1) {a : Int}
    (ha : countAt (s.blackboard.memory k) = some a) :
    ∃ s₁, let v := repeatedTick env execute rounds k maxLoop child .repeater s
      let ran := roundsRan execute maxLoop child rounds (some a) s₁
      v.opened = !(s.blackboard.memory k).isOpen ∧ v.ran = ran ∧
        v.outcome =
          match ran.getLast? with
          | none => if rounds = 0 then none else some (.ok (some .success))
          | some none => none
          | some (some (.error e)) => some (.error e)
          | some (some (.ok status)) =>
            if completed (some (.ok status)) ∧ ran.length = rounds then none
            else some (.ok (some .success)) := by
  obtain ⟨s₁, hopens, htree₁, hmemory₁⟩ := @repeater_opens env k maxLoop child s hs
  have hi : (s₁.memory k.2).i = some a := by rw [memory_eq htree₁, hmemory₁]; exact ha
  refine ⟨s₁, ?_, ?_, ?_⟩
  · exact congrArg (fun m : NodeMemory => !m.isOpen) (memory_eq hs)
  · simp only [repeatedTick, visit, observeTick, Repeating.cls, hopens, repeatedRan, hi]
  · simp only [repeatedTick, visit, baseExecute_outcome, Repeating.cls, hopens, decoratorTick]
    rw [repeaterTick_outcome hi, repeaterLoop_ended]
    generalize roundsRan execute maxLoop child rounds (some a) s₁ = ran
    rcases ran.getLast? with - | - | e | status
    · by_cases h0 : rounds = 0
      · simp only [h0, if_true]
        rfl
      · simp only [h0, if_false]
        rfl
    · rfl
    · rfl
    · by_cases hout : completed (some (.ok status)) = true ∧ ran.length = rounds
      · simp only [hout, and_self, if_true]
        rfl
      · simp only [hout, if_false]
        rfl

/-- A tick that raises leaves the decorator open with the count it began with; one that returns closes it. -/
theorem ends_repeater {s : State} (hs : s.tick.tree = k.1) (hchild : LeavesAlone k (execute child)) {a : Int}
    (ha : countAt (s.blackboard.memory k) = some a) :
    (baseExecute env (decoratorTick execute rounds k.2 (.repeater (some maxLoop)) (some child))
      (.decorator k.2 (.repeater (some maxLoop)) (some child))).Ends s fun r s' =>
        match r with
        | .error _ => (s'.blackboard.memory k).isOpen = true ∧ (s'.blackboard.memory k).i = some a
        | .ok _ => (s'.blackboard.memory k).isOpen = false := by
  obtain ⟨s₁, hopens, htree₁, hmemory₁⟩ := @repeater_opens env k maxLoop child s hs
  have hi : (s₁.memory k.2).i = some a := by rw [memory_eq htree₁, hmemory₁]; exact ha
  intro r s' hrun
  rw [baseExecute_eq, Comp.bind_apply, hopens] at hrun
  revert hrun
  apply Comp.ends_bind
  intro r₂ s₂ h₂
  simp only [decoratorTick] at h₂
  rw [repeaterTick_eq hi] at h₂
  split at h₂
  · simp at h₂
  · rename_i e s₃ hloop
    obtain ⟨rfl, rfl⟩ := Prod.mk.inj (Option.some.inj h₂)
    have hmemory := (leavesAlone_repeaterLoop hchild rounds a [] s₁ htree₁ _ _ hloop).1
    rw [hmemory, hmemory₁]
    exact ⟨rfl, ha⟩
  · rename_i result s₃ hloop
    obtain ⟨rfl, rfl⟩ := Prod.mk.inj (Option.some.inj h₂)
    have htree := (leavesAlone_repeaterLoop hchild rounds a [] s₁ htree₁ _ _ hloop).2 rfl
    apply Comp.ends_bind
    apply Comp.ends_bind
    apply Comp.ends_update
    apply Comp.ends_update
    apply Comp.ends_bind
    apply Comp.ends_update
    apply Comp.ends_pure
    simp only [State.key, Node.id, htree, Prod.mk.eta, Blackboard.memory_setMemory, if_true]

/-- A tick of a `Repeater` returns what it should exactly when its last execution fits. -/
theorem returns_repeater_iff {s : State} (hs : s.tick.tree = k.1) (hrounds : maxLoop + 1 ≤ rounds)
    (ha : countAt (s.blackboard.memory k) = some 0) :
    let v := repeatedTick env execute rounds k maxLoop child .repeater s
    Returns maxLoop v ↔ ∀ status, v.ran.getLast? = some (some (.ok status)) →
      status = some .success ∨ maxLoop < 0 ∧ status = some .failure := by
  obtain ⟨s₁, -, hran, houtcome⟩ :=
    @repeater_visit env execute rounds k maxLoop child s hs 0 ha
  intro v
  have hgoesOn := roundsRan_goesOn execute maxLoop child rounds 0 s₁
  unfold Returns
  rw [houtcome, hran]
  rcases hlast : (roundsRan execute maxLoop child rounds (some 0) s₁).getLast? with - | - | e | status
  · have hnil := List.getLast?_eq_none_iff.mp hlast
    by_cases h0 : rounds = 0
    · have hneg : maxLoop < 0 := by
        rw [h0] at hrounds
        norm_num at hrounds
        linarith
      simp [h0, hneg]
    · simp [h0, hnil]
  · simp
  · simp
  · have hlast_iff : (∀ st, some (some (.ok status)) = some (some (Except.ok st : Except LuaError _)) →
        st = some .success ∨ maxLoop < 0 ∧ st = some .failure) ↔
          status = some .success ∨ maxLoop < 0 ∧ status = some .failure := by
      simp
    rw [hlast_iff]
    by_cases hout : completed (some (.ok status)) = true ∧
        (roundsRan execute maxLoop child rounds (some 0) s₁).length = rounds
    · -- the rounds ran out, so the tick repeats without end
      have hneg : maxLoop < 0 := by
        by_contra hpos
        exact roundsRan_length_ne execute maxLoop child (not_lt.mp hpos) hrounds s₁ hlast hout.1 hout.2
      simp only [if_pos hout, hneg, or_true, true_and, true_iff]
      exact completed_iff.mp hout.1
    · simp only [if_neg hout, Option.mem_def, Option.some.injEq]
      constructor
      · rintro ⟨-, hall⟩
        have hstatus := hall _ rfl
        simp only [Option.some.injEq, Except.ok.injEq] at hstatus
        exact .inl hstatus
      · intro hfits
        have hsuccess : status = some .success := by
          rcases hfits with hsuccess | ⟨hneg, hfailure⟩
          · exact hsuccess
          · have hcompleted : completed (some (.ok status)) = true := completed_iff.mpr (.inr hfailure)
            exact absurd ⟨hcompleted, roundsRan_endless execute maxLoop child hneg rounds 0 s₁ hlast hcompleted⟩ hout
        have hcompleted : completed (some (.ok status)) = true := completed_iff.mpr (.inl hsuccess)
        refine ⟨iff_of_false (by decide) fun hrunning => ?_, fun last heq => ?_⟩
        · have hdone := roundsRan_all_completed execute maxLoop child rounds 0 s₁ hlast hcompleted _ hrunning
          exact absurd hdone (by decide)
        · rw [← heq, hsuccess]

/-- A `Repeater` that is entered open begins with the count 0. -/
theorem countAt_eq_zero_iff {m : NodeMemory} :
    countAt m = some 0 ↔ (m.isOpen = true → m.i = some 0) := by
  unfold countAt
  split
  · simp [*]
  · simp [*]

/-- A tick of a `Repeater` leaves it closed, or open at the count 0. -/
theorem ends_repeater_count {s : State} (hs : s.tick.tree = k.1) (hchild : LeavesAlone k (execute child))
    (ha : countAt (s.blackboard.memory k) = some 0) :
    (baseExecute env (decoratorTick execute rounds k.2 (.repeater (some maxLoop)) (some child))
      (.decorator k.2 (.repeater (some maxLoop)) (some child))).Ends s fun _ s' =>
        countAt (s'.blackboard.memory k) = some 0 := by
  refine (ends_repeater hs hchild ha).mono fun r s' h => countAt_eq_zero_iff.mpr fun hopen => ?_
  match r with
  | .error _ => exact h.2
  | .ok _ => rw [h] at hopen; cases hopen

/-! ### Several ticks -/

/-- A `Repeater` raises only what its child raised. -/
theorem getLast?_of_error {ran : List (Ended (Option Status))} {e : LuaError}
    (h : (match ran.getLast? with
      | none => if rounds = 0 then none else some (.ok (some .success))
      | some none => none
      | some (some (.error e)) => some (.error e)
      | some (some (.ok status)) =>
        if completed (some (.ok status)) ∧ ran.length = rounds then none
        else some (.ok (some .success)) : Ended (Option Status)) = some (.error e)) :
    ran.getLast? = some (some (.error e)) := by
  split at h
  · split at h
    · simp at h
    · simp at h
  · simp at h
  · rename_i hlast
    rw [hlast, h]
  · split at h
    · simp at h
    · simp at h

/-- What holds of every tick that begins in the tree with the count 0 holds of every tick of a run. -/
theorem forall_mem_repeaterTicks {P : Visit (Ended (Option Status)) → Prop}
    (hchild : LeavesAlone k (execute child))
    (h : ∀ s : State, s.tick.tree = k.1 → countAt (s.blackboard.memory k) = some 0 →
      P (repeatedTick env execute rounds k maxLoop child .repeater s))
    (changes : List (Change k)) {s : State} (hs : countAt (s.blackboard.memory k) = some 0) :
    ∀ v ∈ repeatedTicks env execute rounds k maxLoop child .repeater changes s, P v := by
  have hvisit : ∀ s : State, s.tick.tree = k.1 ∧ countAt (s.blackboard.memory k) = some 0 →
      P (repeatedTick env execute rounds k maxLoop child .repeater s) := fun s hbegun => h s hbegun.1 hbegun.2
  refine forall_mem_visits_of_invariant hvisit
    (fun s hbegun => ends_repeater_count hbegun.1 hchild hbegun.2) ?_ hs
  intro change hchange s hcount
  obtain ⟨change, -, rfl⟩ := List.mem_map.mp hchange
  exact ⟨change.tree s, by rw [change.memory]; exact hcount⟩

theorem repeatedTicks_cons (change : Change k) (changes : List (Change k)) (s : State) :
    repeatedTicks env execute rounds k maxLoop child .repeater (change :: changes) s =
      repeatedTick env execute rounds k maxLoop child .repeater (change.apply s) ::
        match baseExecute env (decoratorTick execute rounds k.2 (.repeater (some maxLoop)) (some child))
          (.decorator k.2 (.repeater (some maxLoop)) (some child)) (change.apply s) with
        | none => []
        | some (_, s') => repeatedTicks env execute rounds k maxLoop child .repeater changes s' := rfl

/-- When every tick fits, the completions since an opening are those of the last tick. -/
theorem completions_repeaterTicks_le (h0 : 0 ≤ maxLoop) (hchild : LeavesAlone k (execute child))
    (changes : List (Change k)) {s : State} {n : Nat} (hs : countAt (s.blackboard.memory k) = some 0)
    (hn : (s.blackboard.memory k).isOpen = true → n = 0)
    (hfits : ∀ v ∈ repeatedTicks env execute rounds k maxLoop child .repeater changes s, Fits maxLoop v.ran) :
    ∀ x ∈ completions n (repeatedTicks env execute rounds k maxLoop child .repeater changes s),
      (x : Int) ≤ ⌈maxLoop⌉ := by
  induction changes generalizing s n with
  | nil => simp [repeatedTicks, visits, completions]
  | cons change changes ih =>
    have htree : (change.apply s).tick.tree = k.1 := change.tree s
    have hcount : countAt ((change.apply s).blackboard.memory k) = some 0 := by rw [change.memory]; exact hs
    obtain ⟨s₁, hopened, hran, houtcome⟩ := @repeater_visit env execute rounds k maxLoop child _ htree 0 hcount
    rw [repeatedTicks_cons] at hfits ⊢
    have hhere : Fits maxLoop (repeatedTick env execute rounds k maxLoop child .repeater (change.apply s)).ran :=
      hfits _ List.mem_cons_self
    have hsum : (if (repeatedTick env execute rounds k maxLoop child .repeater (change.apply s)).opened
        then 0 else n) = 0 := by
      rw [hopened, change.memory]
      by_cases hopen : (s.blackboard.memory k).isOpen = true
      · rw [hn hopen]
        exact ite_self 0
      · simp [hopen]
    have hceil : 0 ≤ ⌈maxLoop⌉ := Int.ceil_nonneg h0
    have hbound := roundsRan_bounded execute maxLoop child h0 rounds 0 s₁
    rw [← hran, zero_add] at hbound
    intro x hx
    simp only [completions, List.mem_cons, hsum, zero_add] at hx
    rcases hx with rfl | hx
    · omega
    · split at hx
      · simp [completions] at hx
      · rename_i r s' hrun
        refine ih (ends_repeater_count htree hchild hcount r s' hrun) (fun hopen => ?_)
          (fun v hv => hfits v (by rw [hrun]; exact List.mem_cons_of_mem _ hv)) x hx
        -- it is open still, so the child raised, in its first execution
        have hends := ends_repeater htree hchild hcount r s' hrun
        rcases r with e | status
        · have herror : (repeatedTick env execute rounds k maxLoop child .repeater (change.apply s)).outcome =
              some (.error e) := congrArg (Option.map Prod.fst) hrun
          rw [← hran] at houtcome
          have hlast := getLast?_of_error (houtcome.symm.trans herror)
          rw [Fits, hlast] at hhere
          obtain ⟨last, hsingle⟩ := List.length_eq_one_iff.mp (hhere.resolve_left (not_lt.mpr h0))
          rw [hsingle] at hlast ⊢
          obtain rfl := Option.some.inj hlast
          rfl
        · rw [hends] at hopen
          cases hopen

/-- A run of a `Repeater`. -/
theorem repeats_repeater_of_fits (hchild : LeavesAlone k (execute child)) (hrounds : maxLoop + 1 ≤ rounds)
    (changes : List (Change k)) {s : State} (hs : (s.blackboard.memory k).isOpen = false)
    (hfits : ∀ v ∈ repeatedTicks env execute rounds k maxLoop child .repeater changes s, Fits maxLoop v.ran) :
    Repeats .repeater maxLoop (repeatedTicks env execute rounds k maxLoop child .repeater changes s) where
  returns := fun _ v hv => by
    have hcount : countAt (s.blackboard.memory k) = some 0 := countAt_eq_zero_iff.mpr (by simp [hs])
    have hall : ∀ w ∈ repeatedTicks env execute rounds k maxLoop child .repeater changes s,
        Fits maxLoop w.ran → Returns maxLoop w := forall_mem_repeaterTicks hchild ?_ changes hcount
    exact hall v hv (hfits v hv)
    intro s htree ha hfit
    refine (returns_repeater_iff htree hrounds ha).mpr fun status hlast => ?_
    rw [Fits, hlast] at hfit
    exact hfit
  stops := by
    intro v _ status hstatus
    cases hstatus
  bounded := fun h0 => completions_repeaterTicks_le h0 hchild changes
    (countAt_eq_zero_iff.mpr (by simp [hs])) (by simp [hs]) hfits

/-- In a tick whose executions all return, what the class says comes to whether the last one fits. -/
theorem fits_of_repeats (hchild : LeavesAlone k (execute child)) (hrounds : maxLoop + 1 ≤ rounds)
    (changes : List (Change k)) {s : State} (hs : (s.blackboard.memory k).isOpen = false)
    (hrepeats : Repeats .repeater maxLoop
      (repeatedTicks env execute rounds k maxLoop child .repeater changes s)) :
    ∀ v ∈ repeatedTicks env execute rounds k maxLoop child .repeater changes s,
      (∀ e, some (.error e) ∉ v.ran) → Fits maxLoop v.ran := by
  have hall : ∀ w ∈ repeatedTicks env execute rounds k maxLoop child .repeater changes s,
      Returns maxLoop w → (∀ e, some (.error e) ∉ w.ran) → Fits maxLoop w.ran := by
    have hcount : countAt (s.blackboard.memory k) = some 0 := countAt_eq_zero_iff.mpr (by simp [hs])
    refine forall_mem_repeaterTicks hchild ?_ changes hcount
    intro s htree ha hreturns hno
    have hlast := (returns_repeater_iff htree hrounds ha).mp hreturns
    unfold Fits
    split
    · trivial
    · trivial
    · -- a child that raised was executed, and none raised
      rename_i e herror
      exact absurd (List.mem_of_getLast? herror) (hno e)
    · rename_i status hstatus
      exact hlast status hstatus
  exact fun v hv => hall v hv (hrepeats.returns (by decide) v hv)

end Repeater

/-! ## The classes that raise -/

section Raising

variable {env : Env} {execute : Node → M (Option Status)} {rounds : Nat} {k : Key} {maxLoop : Rat}
  {child : Node}

/-- The others raise in `open`, and in `tick` if they are open already, before any execution of the child. -/
theorem raising_visit {c : Repeating} (hc : c ≠ .repeater) (s : State) :
    (repeatedTick env execute rounds k maxLoop child c s).ran = [] ∧
      ∃ e, (repeatedTick env execute rounds k maxLoop child c s).outcome = some (.error e) := by
  have hran : ∀ s', repeatedRan execute rounds k maxLoop child c s' = [] := by
    intro s'
    cases c
    · rfl
    · rfl
    · rfl
    · exact absurd rfl hc
  constructor
  · simp only [repeatedTick, visit, observeTick, hran]
    split
    · rfl
    · rfl
  · have htick : ∃ e, ∀ s', decoratorTick execute rounds k.2 (c.cls maxLoop) (some child) s' =
        some (.error e, s') := by
      cases c
      · exact ⟨_, fun _ => rfl⟩
      · exact ⟨_, fun _ => rfl⟩
      · exact ⟨_, fun _ => rfl⟩
      · exact absurd rfl hc
    obtain ⟨e, htick⟩ := htick
    simp only [repeatedTick, visit, baseExecute_outcome, htick]
    have hopen : ∀ s₁, (∃ e s', openIfClosed env (.decorator k.2 (c.cls maxLoop) (some child)) s₁ =
          some (.error e, s')) ∨
        ∃ s', openIfClosed env (.decorator k.2 (c.cls maxLoop) (some child)) s₁ = some (.ok ⟨⟩, s') := by
      intro s₁
      unfold openIfClosed
      rw [getMemory, Comp.read_bind]
      split
      · exact .inr ⟨s₁, rfl⟩
      · left
        cases c
        · exact ⟨_, _, rfl⟩
        · exact ⟨_, _, rfl⟩
        · exact ⟨_, _, rfl⟩
        · exact absurd rfl hc
    obtain ⟨s₁, hs₁⟩ : ∃ s₁, enterAndOpen env (.decorator k.2 (c.cls maxLoop) (some child)) s =
      openIfClosed env (.decorator k.2 (c.cls maxLoop) (some child)) s₁ := ⟨_, rfl⟩
    rw [hs₁]
    -- it raises in `open`, or is open and raises in `tick`
    rcases hopen s₁ with ⟨e', s₂, hraise⟩ | ⟨s₂, hreturn⟩
    · rw [hraise]
      exact ⟨e', rfl⟩
    · rw [hreturn]
      exact ⟨e, rfl⟩

theorem forall_mem_raisingTicks {c : Repeating} (hc : c ≠ .repeater) (changes : List (Change k))
    (s : State) : ∀ v ∈ repeatedTicks env execute rounds k maxLoop child c changes s,
      v.ran = [] ∧ ∃ e, v.outcome = some (.error e) :=
  forall_mem_visits _ _ _ _ (raising_visit hc) _ _

/-- No execution is no completion. -/
theorem completions_eq_zero {vs : List (Visit (Ended (Option Status)))} (h : ∀ v ∈ vs, v.ran = []) :
    ∀ n ∈ completions 0 vs, n = 0 := by
  induction vs with
  | nil => simp [completions]
  | cons v vs ih =>
    intro n hn
    simp only [completions, h v List.mem_cons_self, List.countP_nil, ite_self, add_zero,
      List.mem_cons] at hn
    rcases hn with rfl | hn
    · rfl
    · exact ih (fun w hw => h w (List.mem_cons_of_mem _ hw)) n hn

/-- `Limiter` keeps its bound, since its child is never executed. -/
theorem repeats_limiter (changes : List (Change k)) (s : State) :
    Repeats .limiter maxLoop (repeatedTicks env execute rounds k maxLoop child .limiter changes s) where
  returns := fun hne => absurd rfl hne
  stops := by
    intro v _ status hstatus
    cases hstatus
  bounded := fun h0 n hn => by
    rw [completions_eq_zero (fun v hv => (forall_mem_raisingTicks (by decide) changes s v hv).1) n hn]
    exact Int.ceil_nonneg h0

/-- A class that raises without its child does not return what it should. -/
theorem not_returns_of_raising {c : Repeating} (hc : c ≠ .repeater) (changes : List (Change k)) (s : State) :
    ∀ v ∈ repeatedTicks env execute rounds k maxLoop child c changes s, ¬ Returns maxLoop v := by
  intro v hv
  obtain ⟨hran, e, houtcome⟩ := forall_mem_raisingTicks hc changes s v hv
  simp [Returns, houtcome, hran]

end Raising

/-! ## When they repeat as they are to -/

theorem repeats_nil (c : Repeating) (maxLoop : Rat) : Repeats c maxLoop [] where
  returns := by simp
  stops := by simp
  bounded := by simp [completions]

/-- In every run of ticks of one of the decorators that begins with it closed: when each tick meets the
condition of its class the decorator does what the class says, and when it does each tick whose child
raised nothing meets the condition. -/
theorem repeats_iff (env : Env) (execute : Node → M (Option Status)) (rounds : Nat) (k : Key) (maxLoop : Rat)
    (child : Node) (c : Repeating) (changes : List (Change k)) (s : State)
    (hs : (s.blackboard.memory k).isOpen = false) (hchild : LeavesAlone k (execute child))
    (hrounds : maxLoop + 1 ≤ rounds) :
    ((∀ v ∈ repeatedTicks env execute rounds k maxLoop child c changes s, c.Condition maxLoop v) →
      Repeats c maxLoop (repeatedTicks env execute rounds k maxLoop child c changes s)) ∧
    (Repeats c maxLoop (repeatedTicks env execute rounds k maxLoop child c changes s) →
      ∀ v ∈ repeatedTicks env execute rounds k maxLoop child c changes s,
        (∀ e, some (.error e) ∉ v.ran) → c.Condition maxLoop v) := by
  have hraising : c ≠ .repeater → c ≠ .limiter → ∀ vs, (∀ v ∈ vs, ¬ c.Condition maxLoop v) →
      (∀ v ∈ vs, ¬ Returns maxLoop v) → ((∀ v ∈ vs, c.Condition maxLoop v) → Repeats c maxLoop vs) ∧
        (Repeats c maxLoop vs → ∀ v ∈ vs, (∀ e, some (.error e) ∉ v.ran) → c.Condition maxLoop v) := by
    intro _ hlimiter vs hnever hnot
    refine ⟨fun hall => ?_, fun hrepeats v hv => absurd (hrepeats.returns hlimiter v hv) (hnot v hv)⟩
    -- no tick meets the condition, so there is none
    obtain rfl : vs = [] := List.eq_nil_iff_forall_not_mem.mpr fun v hv => hnever v hv (hall v hv)
    exact repeats_nil c maxLoop
  cases c with
  | limiter => exact ⟨fun _ => repeats_limiter changes s, fun _ _ _ _ => trivial⟩
  | repeatUntilFailure =>
    exact hraising (by decide) (by decide) _ (fun _ _ h => h) (not_returns_of_raising (by decide) changes s)
  | repeatUntilSuccess =>
    exact hraising (by decide) (by decide) _ (fun _ _ h => h) (not_returns_of_raising (by decide) changes s)
  | repeater =>
    exact ⟨repeats_repeater_of_fits hchild hrounds changes hs, fits_of_repeats hchild hrounds changes hs⟩

/-- Going on with a tick of the tree `t`. -/
def nextTick (k : Key) : Change k where
  apply := fun s => { s with tick := { s.tick with tree := k.1 } }
  tree := fun _ => rfl
  memory := fun _ => rfl

/-- A child that returns SUCCESS twice in each of two ticks. -/
theorem repeats_iff_twice : Repeats .repeater 2
    (repeatedTicks ⟨none, fun _ => .raised, fun _ => 0⟩ (fun _ => return some .success) 3 ("t", "r") 2
      (.custom "a") .repeater (List.replicate 2 (nextTick _)) .initial) := by
  have hran : (repeatedTicks ⟨none, fun _ => .raised, fun _ => 0⟩ (fun _ => return some .success) 3 ("t", "r") 2
      (.custom "a") .repeater (List.replicate 2 (nextTick _)) .initial).map Visit.ran =
        List.replicate 2 (List.replicate 2 (some (.ok (some .success)))) := by decide +kernel
  refine (repeats_iff ⟨none, fun _ => .raised, fun _ => 0⟩ (fun _ => return some .success) 3 ("t", "r") 2
    (.custom "a") .repeater _ .initial rfl (fun s hs => Comp.ends_pure ⟨rfl, fun _ => hs⟩) (by norm_num)).1
    fun v hv => ?_
  have hmem := List.mem_map_of_mem (f := Visit.ran) hv
  rw [hran] at hmem
  change Fits 2 v.ran
  rw [List.eq_of_mem_replicate hmem]
  exact .inl rfl

/-- The child is running and the `Repeater` returns SUCCESS. -/
theorem not_repeats : ¬ Repeats .repeater (-1)
    (repeatedTicks ⟨none, fun _ => .raised, fun _ => 0⟩ (execute ⟨none, fun _ => .raised, fun _ => 0⟩ 1) 3
      ("t", "r") (-1) (.action "a" .runner) .repeater [nextTick _] .initial) := by
  intro h
  have hvisits : ∃ v, repeatedTicks ⟨none, fun _ => .raised, fun _ => 0⟩
      (execute ⟨none, fun _ => .raised, fun _ => 0⟩ 1) 3 ("t", "r") (-1) (.action "a" .runner) .repeater
      [nextTick _] .initial = [v] ∧ v.ran = [some (.ok (some .running))] ∧
        v.outcome = some (.ok (some .success)) := ⟨_, rfl, by decide +kernel, by decide +kernel⟩
  obtain ⟨v, hvisits, hran, houtcome⟩ := hvisits
  have hreturns := h.returns (by decide) v (by simp [hvisits])
  simp [Returns, houtcome, hran] at hreturns

end AntServer.Behavior3
