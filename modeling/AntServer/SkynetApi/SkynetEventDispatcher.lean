/-
# AntServer.SkynetApi.SkynetEventDispatcher — listeners that are removed while an event goes through them

`service/skynet_api/skynet_event_dispatcher.lua`. The listeners of all events are in one array.
`dispatch_event` goes through it by its indexes and calls the listeners of the event. One that was added by
`once` is removed right after its call, so that the entries behind it move up, and the loop goes on with the
next index: the entry directly behind is passed over. What is removed is the first entry of the event with
that listener, which an earlier `on` may have made.

So a dispatch calls the listeners of its event, and takes away those of `once` among them, exactly when
none of them is directly behind one of `once`, and none of `once` is behind an `on` of the same listener
(`dispatchEvent_right_iff`). In every run all entries with one listener for one event are of `once`, but for
the first (`unique_run`).

A listener is a function, or a table with or without a function for the event. What it does when it is
called is not modelled; it leaves the dispatcher alone.
-/
import AntServer.LuaString
import Mathlib.Data.List.Induction

namespace AntServer.SkynetApi.SkynetEventDispatcher

/-! ## The array of listeners -/

/-- An entry of `_listeners`. -/
structure Listener (O : Type*) where
  evt : LuaString
  obj : O
  isOnce : Bool
  deriving DecidableEq

variable {O : Type*} [DecidableEq O]

/-- `has_event_listener`: the index of the entry. -/
def hasEventListener (a : List (Listener O)) (eventName : LuaString) (listener : O) : Option Nat :=
  if eventName.length = 0 then none
  else a.findIdx? fun o => o.evt = eventName ∧ o.obj = listener

/-- `add_event_listener`: whether it was added. -/
def addEventListener (a : List (Listener O)) (eventName : LuaString) (listener : O) (isOnce : Bool) :
    Bool × List (Listener O) :=
  if !isOnce && (hasEventListener a eventName listener).isSome then (false, a)
  else (true, a ++ [⟨eventName, listener, isOnce⟩])

/-- `remove_event_listener`: whether there was one. -/
def removeEventListener (a : List (Listener O)) (eventName : LuaString) (listener : O) :
    Bool × List (Listener O) :=
  match hasEventListener a eventName listener with
  | some pos => (true, a.eraseIdx pos)
  | none => (false, a)

/-- The loop of `remove_all_listeners` down from an index: how many it removed, and the array. -/
def removeDown (eventName : LuaString) : Nat → List (Listener O) → Nat × List (Listener O)
  | 0, a => (0, a)
  | i + 1, a =>
    match a[i]? with
    | none => removeDown eventName i a
    | some o =>
      if o.evt = eventName then
        ((removeDown eventName i (a.eraseIdx i)).1 + 1, (removeDown eventName i (a.eraseIdx i)).2)
      else removeDown eventName i a

/-- `remove_all_listeners`: whether there was one, and how many. Without a name it always says that there
was one. -/
def removeAllListeners (a : List (Listener O)) : Option LuaString → Bool × Nat × List (Listener O)
  | none => (true, a.length, [])
  | some eventName =>
    let r := removeDown eventName a.length a
    (r.1 != 0, r.1, r.2)

/-- The loop of `dispatch_event` from an index on, at most `fuel` times: the entries whose listeners are
called, and the array after it. `handles` tells whether a listener is a function, or has one for the
event. -/
def dispatchFrom (handles : O → LuaString → Bool) (name : LuaString) :
    Nat → Nat → List (Listener O) → List (Listener O) × List (Listener O)
  | 0, _, a => ([], a)
  | fuel + 1, i, a =>
    match a[i]? with
    | none => ([], a)
    | some o =>
      if o.evt = name ∧ handles o.obj name then
        let a := if o.isOnce then (removeEventListener a name o.obj).2 else a
        (o :: (dispatchFrom handles name fuel (i + 1) a).1, (dispatchFrom handles name fuel (i + 1) a).2)
      else dispatchFrom handles name fuel (i + 1) a

/-- `dispatch_event`. It returns whether a listener was called. -/
def dispatchEvent (handles : O → LuaString → Bool) (a : List (Listener O)) (name : LuaString) :
    List (Listener O) × List (Listener O) :=
  if name.length = 0 then ([], a) else dispatchFrom handles name a.length 0 a

/-! ## The way through the array -/

/-- The entry is of the event, and its listener has a function for it. -/
def Concerns (handles : O → LuaString → Bool) (name : LuaString) (o : Listener O) : Bool :=
  o.evt = name ∧ handles o.obj name

/-- The entry is of the event and the listener of `o`. -/
def Same (o o' : Listener O) : Bool := o'.evt = o.evt ∧ o'.obj = o.obj

theorem removeEventListener_eq {a : List (Listener O)} {o : Listener O} (h : o.evt ≠ []) :
    (removeEventListener a o.evt o.obj).2 = a.eraseP (Same o) := by
  unfold removeEventListener hasEventListener
  rw [if_neg (by rwa [List.length_eq_zero_iff]), List.eraseP_eq_eraseIdx]
  unfold Same
  cases List.findIdx? (fun o' => decide (o'.evt = o.evt ∧ o'.obj = o.obj)) a with
  | none => rfl
  | some pos => rfl

/-- How the loop gets through the entries that are left, behind those that it is done with: the entries
whose listeners it calls, and the array in the end. -/
inductive Goes (c : Listener O → Bool) :
    List (Listener O) → List (Listener O) → List (Listener O) → List (Listener O) → Prop
  | done {before} : Goes c before [] [] before
  | pass {before o rest called after} : c o = false → Goes c (before ++ [o]) rest called after →
      Goes c before (o :: rest) called after
  | call {before o rest called after} : c o = true → o.isOnce = false →
      Goes c (before ++ [o]) rest called after → Goes c before (o :: rest) (o :: called) after
  | last {before o} : c o = true → o.isOnce = true →
      Goes c before [o] [o] ((before ++ [o]).eraseP (Same o))
  /-- The entry `next` moves to the index of `o`, which the loop is done with. -/
  | skip {before o next rest called after} : c o = true → o.isOnce = true →
      Goes c ((before ++ [o]).eraseP (Same o) ++ [next]) rest called after →
      Goes c before (o :: next :: rest) (o :: called) after

variable {handles : O → LuaString → Bool} {name : LuaString}

theorem same_self (o : Listener O) : Same o o = true := by simp [Same]

theorem eraseP_before (before : List (Listener O)) (o : Listener O) (rest : List (Listener O)) :
    (before ++ o :: rest).eraseP (Same o) = (before ++ [o]).eraseP (Same o) ++ rest ∧
      ((before ++ [o]).eraseP (Same o)).length = before.length := by
  have hmem : o ∈ before ++ [o] := by simp
  constructor
  · rw [← List.eraseP_append_left (same_self o) rest hmem, List.append_assoc, List.singleton_append]
  · rw [List.length_eraseP_of_mem hmem (same_self o), List.length_append]
    rfl

theorem goes_dispatchFrom (hname : name ≠ []) (fuel : Nat) (before rest : List (Listener O))
    (hfuel : rest.length ≤ fuel) :
    Goes (Concerns handles name) before rest
      (dispatchFrom handles name fuel before.length (before ++ rest)).1
      (dispatchFrom handles name fuel before.length (before ++ rest)).2 := by
  induction fuel generalizing before rest with
  | zero =>
    rw [List.length_eq_zero_iff.mp (Nat.le_zero.mp hfuel), List.append_nil]
    exact .done
  | succ fuel ih =>
    cases rest with
    | nil =>
      rw [List.append_nil, dispatchFrom, List.getElem?_eq_none (Nat.le_refl _)]
      exact .done
    | cons o rest =>
      have hget : (before ++ o :: rest)[before.length]? = some o := by simp
      have hlen : (before ++ [o]).length = before.length + 1 := by simp
      have hnext := ih (before ++ [o]) rest (by simpa using hfuel)
      rw [hlen, List.append_assoc, List.singleton_append] at hnext
      rw [dispatchFrom, hget]
      dsimp only
      by_cases ho : o.evt = name ∧ handles o.obj name
      · have hc : Concerns handles name o = true := by simpa [Concerns] using ho
        rw [if_pos ho]
        by_cases honce : o.isOnce = true
        · obtain ⟨herase, hbefore⟩ := eraseP_before before o rest
          have hremove : (removeEventListener (before ++ o :: rest) name o.obj).2 =
              (before ++ [o]).eraseP (Same o) ++ rest := by
            rw [← herase, ← ho.1, removeEventListener_eq (ho.1 ▸ hname)]
          rw [if_pos honce, hremove]
          -- The rest begins at the index that the loop is done with.
          cases rest with
          | nil =>
            rw [List.append_nil, ← hbefore]
            have hend : dispatchFrom handles name fuel (((before ++ [o]).eraseP (Same o)).length + 1)
                ((before ++ [o]).eraseP (Same o)) = ([], (before ++ [o]).eraseP (Same o)) := by
              cases fuel with
              | zero => rfl
              | succ fuel => rw [dispatchFrom, List.getElem?_eq_none (Nat.le_succ _)]
            rw [hend]
            exact .last hc honce
          | cons next rest =>
            have hskip := ih ((before ++ [o]).eraseP (Same o) ++ [next]) rest (by
              simp only [List.length_cons] at hfuel
              omega)
            rw [List.length_append, hbefore, List.append_assoc, List.singleton_append] at hskip
            exact .skip hc honce hskip
        · rw [if_neg honce]
          exact .call hc (by simpa using honce) hnext
      · rw [if_neg ho]
        exact .pass (by simpa [Concerns] using ho) hnext

/-! ## When it is right -/

/-- The entry stays when the event was dispatched. -/
def Stays (c : Listener O → Bool) (o : Listener O) : Bool := !(c o && o.isOnce)

/-- An entry of the event that is directly behind one of `once`. -/
def Behind (c : Listener O → Bool) (o next : Listener O) : Prop :=
  c o = true ∧ o.isOnce = true ∧ c next = true

/-- An entry of `once` for a listener that `on` has added before. -/
def Shadowed (c : Listener O → Bool) (o o' : Listener O) : Prop :=
  c o' = true ∧ o'.isOnce = true ∧ Same o' o = true ∧ o.isOnce = false

/-! ### Who is called -/

variable {c : Listener O → Bool} {before rest called after : List (Listener O)}

theorem Goes.called_sublist (h : Goes c before rest called after) : called.Sublist (rest.filter c) := by
  induction h with
  | done => exact List.Sublist.slnil
  | pass hc _ ih => rwa [List.filter_cons_of_neg (by simp [hc])]
  | call hc _ _ ih =>
    rw [List.filter_cons_of_pos hc]
    exact ih.cons_cons _
  | last hc _ => rw [List.filter_cons_of_pos hc, List.filter_nil]
  | @skip _ _ next rest _ _ hc _ _ ih =>
    rw [List.filter_cons_of_pos hc]
    exact (ih.trans ((List.sublist_cons_self next rest).filter c)).cons_cons _

theorem Goes.after_sublist (h : Goes c before rest called after) : after.Sublist (before ++ rest) := by
  induction h with
  | done => rw [List.append_nil]
  | pass _ _ ih => rwa [List.append_assoc] at ih
  | call _ _ _ ih => rwa [List.append_assoc] at ih
  | last _ _ => exact List.eraseP_sublist
  | @skip before o next rest _ _ _ _ _ ih =>
    refine ih.trans ?_
    have h := (List.eraseP_sublist (p := Same o) (l := before ++ [o])).append_right (next :: rest)
    simpa using h

omit [DecidableEq O] in
/-- An entry that is not of the event has none of them behind it. -/
theorem isChain_of_not {o : Listener O} (hc : c o = false) (rest : List (Listener O)) :
    (o :: rest).IsChain (fun o o' => ¬ Behind c o o') ↔ rest.IsChain fun o o' => ¬ Behind c o o' := by
  cases rest with
  | nil => simp
  | cons next rest => simp [List.isChain_cons_cons, Behind, hc]

/-- Exactly the listeners of the event are called when none of them is behind one of `once`. -/
theorem Goes.called_eq_iff (h : Goes c before rest called after) :
    called = rest.filter c ↔ rest.IsChain fun o o' => ¬ Behind c o o' := by
  induction h with
  | done => simp
  | pass hc _ ih => rw [isChain_of_not hc, List.filter_cons_of_neg (by simp [hc]), ih]
  | @call _ o rest _ _ hc honce _ ih =>
    rw [List.filter_cons_of_pos hc, List.cons.injEq, ih]
    cases rest with
    | nil => simp
    | cons next rest => simp [List.isChain_cons_cons, Behind, honce]
  | last hc _ => simp [hc]
  | @skip _ o next rest called _ hc honce hgoes ih =>
    rw [List.filter_cons_of_pos hc, List.cons.injEq, List.isChain_cons_cons]
    by_cases hnext : c next = true
    · -- The entry behind is passed over, so one call is missing.
      have hle := hgoes.called_sublist.length_le
      refine iff_of_false ?_ fun h => h.1 ⟨hc, honce, hnext⟩
      rintro ⟨-, h⟩
      rw [h, List.filter_cons_of_pos hnext, List.length_cons] at hle
      omega
    · have hnext' : c next = false := by simpa using hnext
      rw [isChain_of_not hnext', List.filter_cons_of_neg hnext, ← ih]
      simp [Behind, hnext']

/-! ### Who is taken away -/

/-- What an `on` was removed for is not right. -/
theorem ne_of_lost {o : Listener O} (hbefore : ∀ o ∈ before, Stays c o = true) (hc : c o = true)
    (honce : o.isOnce = true) (hlost : ∃ o' ∈ before, Same o o' = true)
    (hafter : after.Sublist ((before ++ [o]).eraseP (Same o) ++ rest)) :
    after ≠ before ++ (o :: rest).filter (Stays c) := by
  obtain ⟨o', hmem, hsame⟩ := hlost
  have hgone : Stays c o = false := by simp [Stays, hc, honce]
  have herase : (before ++ [o]).eraseP (Same o) = before.eraseP (Same o) ++ [o] :=
    List.eraseP_append_left hsame [o] hmem
  have hlen : (before.eraseP (Same o)).length = before.length - 1 := List.length_eraseP_of_mem hmem hsame
  have hpos : 0 < before.length := List.length_pos_of_mem hmem
  -- Of the entries that are left there are fewer that stay.
  have hcount : after.countP (Stays c) < before.length + rest.countP (Stays c) := by
    calc after.countP (Stays c)
        ≤ ((before ++ [o]).eraseP (Same o) ++ rest).countP (Stays c) := hafter.countP_le
      _ = (before.eraseP (Same o)).countP (Stays c) + rest.countP (Stays c) := by
          rw [herase, List.append_assoc, List.singleton_append, List.countP_append,
            List.countP_cons_of_neg (by simp [hgone])]
      _ ≤ (before.length - 1) + rest.countP (Stays c) := by
          have h := List.countP_le_length (p := Stays c) (l := before.eraseP (Same o))
          omega
      _ < before.length + rest.countP (Stays c) := by omega
  intro heq
  rw [heq, List.filter_cons_of_neg (by simp [hgone]), List.countP_append, List.countP_filter,
    List.countP_eq_length.mpr hbefore] at hcount
  simp at hcount

omit [DecidableEq O] in
theorem stays_append {o : Listener O} (hbefore : ∀ o ∈ before, Stays c o = true) (ho : Stays c o = true) :
    ∀ o' ∈ before ++ [o], Stays c o' = true := by
  intro o' h
  obtain h | h := List.mem_append.mp h
  · exact hbefore o' h
  · rwa [List.mem_singleton.mp h]

/-- An entry that is not shadowed itself may be one that the loop is done with. -/
theorem shadowed_move {o : Listener O} (ho : ∀ o', ¬ Shadowed c o' o) :
    ((∀ o₁ ∈ before ++ [o], ∀ o₂ ∈ rest, ¬ Shadowed c o₁ o₂) ∧ rest.Pairwise fun o o' => ¬ Shadowed c o o') ↔
      (∀ o₁ ∈ before, ∀ o₂ ∈ o :: rest, ¬ Shadowed c o₁ o₂) ∧
        (o :: rest).Pairwise fun o o' => ¬ Shadowed c o o' := by
  rw [List.pairwise_cons]
  constructor
  · rintro ⟨hall, hpair⟩
    refine ⟨fun o₁ h₁ o₂ h₂ => ?_, hall o (by simp), hpair⟩
    obtain rfl | h₂ := List.mem_cons.mp h₂
    · exact ho o₁
    · exact hall o₁ (List.mem_append_left _ h₁) o₂ h₂
  · rintro ⟨hall, hhead, hpair⟩
    refine ⟨fun o₁ h₁ o₂ h₂ => ?_, hpair⟩
    obtain h₁ | h₁ := List.mem_append.mp h₁
    · exact hall o₁ h₁ o₂ (List.mem_cons_of_mem _ h₂)
    · rw [List.mem_singleton.mp h₁]
      exact hhead o₂ h₂

/-- An entry of `once` without an entry of its listener before it is the one that is removed. -/
theorem eraseP_self {o : Listener O} (hnone : ¬ ∃ o' ∈ before, Same o o' = true) :
    (before ++ [o]).eraseP (Same o) = before ∧ ∀ o' ∈ before, ¬ Shadowed c o' o := by
  have hnot : ∀ o' ∈ before, ¬ Same o o' = true := fun o' hmem h => hnone ⟨o', hmem, h⟩
  refine ⟨?_, fun o' hmem h => hnot o' hmem h.2.2.1⟩
  rw [List.eraseP_append_right _ hnot, List.eraseP_cons_of_pos (same_self o), List.append_nil]

/-- Of the entries that stay, one with the listener of an entry of `once` is of `on`. -/
theorem exists_shadowed {o : Listener O} (hsame : ∀ o o', Same o o' = true → c o' = c o)
    (hbefore : ∀ o ∈ before, Stays c o = true) (hc : c o = true) (honce : o.isOnce = true)
    (hlost : ∃ o' ∈ before, Same o o' = true) : ∃ o' ∈ before, Shadowed c o' o := by
  obtain ⟨o', hmem, h⟩ := hlost
  refine ⟨o', hmem, hc, honce, h, ?_⟩
  have hstay := hbefore o' hmem
  simpa [Stays, (hsame o o' h).trans hc] using hstay

/-- The entries of `once` are gone, and no others, when no `on` of their listeners comes before them. -/
theorem Goes.after_eq_iff (h : Goes c before rest called after)
    (hsame : ∀ o o', Same o o' = true → c o' = c o)
    (hbefore : ∀ o ∈ before, Stays c o = true)
    (hchain : rest.IsChain fun o o' => ¬ Behind c o o') :
    after = before ++ rest.filter (Stays c) ↔
      (∀ o ∈ before, ∀ o' ∈ rest, ¬ Shadowed c o o') ∧ rest.Pairwise fun o o' => ¬ Shadowed c o o' := by
  induction h with
  | done => simp
  | @pass before o rest _ _ hc _ ih =>
    have hstays : Stays c o = true := by simp [Stays, hc]
    have hih := ih (stays_append hbefore hstays) ((isChain_of_not hc rest).mp hchain)
    rw [List.append_assoc, List.singleton_append] at hih
    rw [List.filter_cons_of_pos hstays]
    exact hih.trans (shadowed_move fun o' h => by simp [Shadowed, hc] at h)
  | @call before o rest _ _ hc honce _ ih =>
    have hstays : Stays c o = true := by simp [Stays, honce]
    have hih := ih (stays_append hbefore hstays) hchain.of_cons
    rw [List.append_assoc, List.singleton_append] at hih
    rw [List.filter_cons_of_pos hstays]
    exact hih.trans (shadowed_move fun o' h => by simp [Shadowed, honce] at h)
  | @last before o hc honce =>
    have hgone : ¬ Stays c o = true := by simp [Stays, hc, honce]
    by_cases hlost : ∃ o' ∈ before, Same o o' = true
    · obtain ⟨o', hmem, h⟩ := exists_shadowed hsame hbefore hc honce hlost
      refine iff_of_false (ne_of_lost hbefore hc honce hlost (by rw [List.append_nil])) fun hall => ?_
      exact hall.1 o' hmem o (by simp) h
    · obtain ⟨herase, hnone⟩ := eraseP_self (c := c) hlost
      rw [herase, List.filter_cons_of_neg hgone]
      simpa using hnone
  | @skip before o next rest _ _ hc honce hgoes ih =>
    have hgone : ¬ Stays c o = true := by simp [Stays, hc, honce]
    obtain ⟨hhead, hchain⟩ := List.isChain_cons_cons.mp hchain
    have hnext : c next = false := by
      rw [← Bool.not_eq_true]
      exact fun h => hhead ⟨hc, honce, h⟩
    by_cases hlost : ∃ o' ∈ before, Same o o' = true
    · obtain ⟨o', hmem, h⟩ := exists_shadowed hsame hbefore hc honce hlost
      refine iff_of_false (ne_of_lost hbefore hc honce hlost ?_) fun hall => ?_
      · simpa using hgoes.after_sublist
      · exact hall.1 o' hmem o (by simp) h
    · obtain ⟨herase, hnone⟩ := eraseP_self (c := c) hlost
      have hstays : Stays c next = true := by simp [Stays, hnext]
      rw [herase] at ih
      have hih := ih (stays_append hbefore hstays) ((isChain_of_not hnext rest).mp hchain)
      rw [List.append_assoc, List.singleton_append] at hih
      rw [List.filter_cons_of_neg hgone, List.filter_cons_of_pos hstays]
      refine (hih.trans (shadowed_move fun o' h => by simp [Shadowed, hnext] at h)).trans ?_
      rw [List.pairwise_cons (a := o)]
      constructor
      · rintro ⟨hall, hpair⟩
        refine ⟨fun o₁ h₁ o₂ h₂ => ?_, fun o₂ _ h => by simp [Shadowed, honce] at h, hpair⟩
        obtain rfl | h₂ := List.mem_cons.mp h₂
        · exact hnone o₁ h₁
        · exact hall o₁ h₁ o₂ h₂
      · rintro ⟨hall, -, hpair⟩
        exact ⟨fun o₁ h₁ o₂ h₂ => hall o₁ h₁ o₂ (List.mem_cons_of_mem _ h₂), hpair⟩

/-- A dispatch calls all listeners of the event, each once and in their order, and takes away exactly those
of `once` among them, if and only if none of them is directly behind one of `once`, and no `on` of the same
listener is before one of `once`. -/
theorem dispatchEvent_right_iff (a : List (Listener O)) (hname : name ≠ []) :
    dispatchEvent handles a name =
        (a.filter (Concerns handles name), a.filter (Stays (Concerns handles name))) ↔
      (a.IsChain fun o o' => ¬ Behind (Concerns handles name) o o') ∧
        a.Pairwise fun o o' => ¬ Shadowed (Concerns handles name) o o' := by
  have hgoes : Goes (Concerns handles name) [] a _ _ := goes_dispatchFrom hname a.length [] a (Nat.le_refl _)
  rw [List.nil_append, List.length_nil] at hgoes
  have hsame : ∀ o o' : Listener O, Same o o' = true →
      Concerns handles name o' = Concerns handles name o := by
    intro o o' h
    simp only [Same, decide_eq_true_eq] at h
    simp only [Concerns, h.1, h.2]
  rw [dispatchEvent, if_neg (by rwa [List.length_eq_zero_iff]), Prod.ext_iff, hgoes.called_eq_iff]
  refine and_congr_right fun hchain => ?_
  have h := hgoes.after_eq_iff hsame (by simp) hchain
  simpa using h

/-- Two listeners of `once`, with an entry of another event between them and without. -/
theorem dispatchEvent_right_iff_once :
    dispatchEvent (fun _ _ => true) [⟨[1], 'a', true⟩, ⟨[2], 'b', false⟩, ⟨[1], 'c', true⟩] [1] =
        ([⟨[1], 'a', true⟩, ⟨[1], 'c', true⟩], [⟨[2], 'b', false⟩]) ∧
      dispatchEvent (fun _ _ => true) [⟨[1], 'a', true⟩, ⟨[1], 'c', true⟩] [1] ≠
        ([⟨[1], 'a', true⟩, ⟨[1], 'c', true⟩], []) := by
  constructor
  · exact (dispatchEvent_right_iff _ (by decide)).mpr (by
      constructor
      · simp [List.isChain_cons_cons, Behind, Concerns]
      · simp [Shadowed, Concerns, Same])
  · intro h
    have hright := (dispatchEvent_right_iff _ (by decide)).mp h
    simp [List.isChain_cons_cons, Behind, Concerns] at hright

/-! ## Whole runs -/

/-- The calls that change the array. -/
inductive Call (O : Type*) where
  | add (eventName : LuaString) (listener : O) (isOnce : Bool)
  | remove (eventName : LuaString) (listener : O)
  | removeAll (eventName : Option LuaString)
  | dispatch (eventName : LuaString)

/-- What a call makes of the array. -/
def step (handles : O → LuaString → Bool) (a : List (Listener O)) : Call O → List (Listener O)
  | .add eventName listener isOnce => (addEventListener a eventName listener isOnce).2
  | .remove eventName listener => (removeEventListener a eventName listener).2
  | .removeAll eventName => (removeAllListeners a eventName).2.2
  | .dispatch eventName => (dispatchEvent handles a eventName).2

/-- An entry behind one of the same event and listener is of `once`. `has_event_listener` does not find an
event with an empty name. -/
def Unique (a : List (Listener O)) : Prop :=
  a.Pairwise fun o o' => o.evt ≠ [] → Same o o' = true → o'.isOnce = true

theorem removeEventListener_sublist (a : List (Listener O)) (eventName : LuaString) (listener : O) :
    (removeEventListener a eventName listener).2.Sublist a := by
  unfold removeEventListener
  cases hasEventListener a eventName listener with
  | none => exact List.Sublist.refl a
  | some pos => exact List.eraseIdx_sublist a pos

omit [DecidableEq O] in
theorem removeDown_append (eventName : LuaString) (before rest : List (Listener O)) :
    removeDown eventName before.length (before ++ rest) =
      (before.countP (·.evt = eventName), before.filter (¬ ·.evt = eventName) ++ rest) := by
  induction before using List.reverseRecOn generalizing rest with
  | nil => rfl
  | append_singleton before o ih =>
    have hget : (before ++ [o] ++ rest)[before.length]? = some o := by simp
    have herase : (before ++ [o] ++ rest).eraseIdx before.length = before ++ rest := by
      simp [List.eraseIdx_append_of_length_le]
    rw [List.length_append, List.length_singleton, removeDown, hget]
    dsimp only
    by_cases ho : o.evt = eventName
    · rw [if_pos ho, herase, ih rest]
      simp [ho]
    · rw [if_neg ho, List.append_assoc, ih ([o] ++ rest)]
      simp [ho]

omit [DecidableEq O] in
/-- `remove_all_listeners` removes the entries of the event and no others, and counts them. -/
theorem removeAllListeners_some (a : List (Listener O)) (eventName : LuaString) :
    (removeAllListeners a (some eventName)).2 =
      (a.countP (·.evt = eventName), a.filter (¬ ·.evt = eventName)) := by
  have h := removeDown_append eventName a []
  rw [List.append_nil, List.append_nil] at h
  show removeDown eventName a.length a = _
  exact h

theorem dispatchEvent_sublist (a : List (Listener O)) (eventName : LuaString) :
    (dispatchEvent handles a eventName).2.Sublist a := by
  unfold dispatchEvent
  by_cases hname : eventName = []
  · rw [if_pos (by rw [hname]; rfl)]
  · rw [if_neg (by rwa [List.length_eq_zero_iff])]
    have hgoes : Goes (Concerns handles eventName) [] a _ _ := goes_dispatchFrom hname a.length [] a (Nat.le_refl _)
    simpa using hgoes.after_sublist

theorem Unique.sublist {a b : List (Listener O)} (h : Unique a) (hsub : b.Sublist a) : Unique b :=
  List.Pairwise.sublist hsub h

theorem hasEventListener_isSome {a : List (Listener O)} {o : Listener O} (ho : o ∈ a) (hname : o.evt ≠ []) :
    (hasEventListener a o.evt o.obj).isSome := by
  unfold hasEventListener
  rw [if_neg (by rwa [List.length_eq_zero_iff]), List.findIdx?_isSome, List.any_eq_true]
  exact ⟨o, ho, by simp⟩

/-- `on` adds nothing when there is an entry of its event and listener. -/
theorem Unique.add {a : List (Listener O)} (h : Unique a) (eventName : LuaString) (listener : O)
    (isOnce : Bool) : Unique (addEventListener a eventName listener isOnce).2 := by
  unfold addEventListener
  by_cases hfound : (!isOnce && (hasEventListener a eventName listener).isSome) = true
  · rwa [if_pos hfound]
  · rw [if_neg hfound]
    refine List.pairwise_append.mpr ⟨h, List.pairwise_singleton _ _, ?_⟩
    intro o ho o' ho' hname hsame
    obtain rfl := List.mem_singleton.mp ho'
    simp only [Same, decide_eq_true_eq] at hsame
    obtain ⟨hevt, hobj⟩ := hsame
    have hsome := hasEventListener_isSome ho hname
    rw [← hevt, ← hobj] at hsome
    simpa [hsome] using hfound

theorem Unique.step {a : List (Listener O)} (h : Unique a) (call : Call O) : Unique (step handles a call) := by
  cases call with
  | add eventName listener isOnce => exact h.add eventName listener isOnce
  | remove eventName listener => exact h.sublist (removeEventListener_sublist a eventName listener)
  | removeAll eventName =>
    cases eventName with
    | none => exact List.Pairwise.nil
    | some eventName =>
      refine h.sublist ?_
      show (removeAllListeners a (some eventName)).2.2.Sublist a
      rw [removeAllListeners_some]
      exact List.filter_sublist
  | dispatch eventName => exact h.sublist (dispatchEvent_sublist a eventName)

/-- After any row of calls, of the entries with one listener for one event all behind the first are of
`once`. -/
theorem unique_run (calls : List (Call O)) : Unique (calls.foldl (step handles) []) := by
  induction calls using List.reverseRecOn with
  | nil => exact List.Pairwise.nil
  | append_singleton calls call ih =>
    rw [List.foldl_append]
    exact ih.step call

end AntServer.SkynetApi.SkynetEventDispatcher
