/-
# AntServer.Transaction.Isolation — the actions of a session run alone

A running action belongs to the session that is active in `transactiond`. Two invariants carry this.
A call is in flight, or its coroutine is in the queue of an object of its session, until it returns
(`Accounts`), so that a client that has all its answers has no action left that could run; and an
object whose queue is not held for the query was granted the lock, which its session keeps until the
client releases it (`Granted`). The lock service may activate a session a second time, after its
release; nothing of such a session runs any more.
-/
import AntServer.Transaction.Services

namespace AntServer.Transaction

open Lib Mailbox

/-! ## Objects and their queues -/

namespace Object

theorem enter_calls (o : Object) (c : Call) : (o.enter c).calls.Perm (c :: o.calls) := by
  unfold enter calls
  split
  · rename_i h
    simp [h]
  · rename_i d h
    simp only [h, Option.map_some, Option.toList_some, List.singleton_append]
    exact (List.perm_append_singleton c o.threads).cons d.1 |>.trans (.swap _ _ _)

theorem leave_calls {o : Object} {c : Call} {st : Stage} (h : o.current = some (c, st)) :
    o.calls = c :: o.leave.calls := by
  unfold calls leave
  rw [h]
  cases o.threads <;> rfl

@[simp] theorem enter_session (o : Object) (c : Call) : (o.enter c).session = o.session := by
  unfold enter
  split <;> rfl

@[simp] theorem leave_session (o : Object) : o.leave.session = o.session := by
  unfold leave
  split <;> rfl

/-- Who enters a queue that is held for the query waits. -/
theorem Querying.enter {o : Object} (h : o.Querying) (c : Call) : (o.enter c).Querying := by
  obtain ⟨d, hd⟩ := h
  refine ⟨d, ?_⟩
  unfold Object.enter
  rw [hd]

theorem not_querying {o : Object} {c : Call} {st : Stage} (h : o.current = some (c, st))
    (hst : st ≠ .query) : ¬ o.Querying := by
  rintro ⟨d, hd⟩
  cases h.symm.trans hd
  exact hst rfl

end Object

/-- What one slot of a list contributes to the whole. -/
theorem flatMap_set {α β : Type*} {l : List α} {i : Nat} {x : α} (h : l[i]? = some x) (y : α)
    (f : α → List β) :
    ∃ a b, l.flatMap f = a ++ f x ++ b ∧ (l.set i y).flatMap f = a ++ f y ++ b := by
  obtain ⟨hi, rfl⟩ := List.getElem?_eq_some_iff.mp h
  refine ⟨(l.take i).flatMap f, (l.drop (i + 1)).flatMap f, ?_, ?_⟩
  · conv_lhs => rw [← List.take_append_drop i l, List.flatMap_append]
    rw [List.drop_eq_getElem_cons hi, List.flatMap_cons, List.append_assoc]
  · rw [List.set_eq_take_append_cons_drop, if_pos hi]
    simp

/-- The call a message carries, or carries the return of. -/
def Msg.flying : Msg → Option Call
  | .call c => some c
  | .callRet c => some c
  | _ => none

namespace World

/-! ## The calls -/

/-- The calls that have not returned: on their way, or in a queue. -/
def flight (w : World) : List Call := view Msg.flying w.net ++ w.objects.flatMap Object.calls

/-- A pending call is in one place, its caller waits for it, and its session is not released. -/
structure Accounts (w : World) : Prop where
  flight : w.pending.Perm w.flight
  ids : (w.pending.map Call.id).Nodup
  fresh : ∀ c ∈ w.pending, c.id < w.calls
  nested : ∀ c ∈ w.pending, ∀ p, c.parent = some p →
    ∃ d ∈ w.pending, d.id = p ∧ d.session = c.session ∧ p < c.id
  returned : ∀ c, .callRet c ∈ w.net → ∀ d ∈ w.pending, d.parent ≠ some c.id
  unreleased : ∀ c ∈ w.pending, c.session ∉ w.released
  own : ∀ o ∈ w.objects, ∀ c ∈ o.calls, c.session = o.session
  pool : ∀ k i, w.sessionPool.get k = some i → ∃ o, w.objects[i]? = some o ∧ o.session = k.2

theorem init_accounts : init.Accounts where
  flight := .refl _
  ids := List.nodup_nil
  fresh := by simp [init]
  nested := by simp [init]
  returned := by simp [init]
  unreleased := by simp [init]
  own := by simp [init]
  pool := by simp [init]

variable {w w' : World}

theorem Accounts.mem_pending (h : w.Accounts) {o : Object} (ho : o ∈ w.objects) {c : Call}
    (hc : c ∈ o.calls) : c ∈ w.pending :=
  h.flight.mem_iff.mpr (List.mem_append_right _ (List.mem_flatMap.mpr ⟨o, ho, hc⟩))

/-- A step that only moves calls. -/
theorem Accounts.move (h : w.Accounts) (hpending : w'.pending = w.pending)
    (hcalls : w'.calls = w.calls) (hreleased : w'.released = w.released)
    (hflight : w'.flight.Perm w.flight)
    (hreturned : ∀ c, .callRet c ∈ w'.net → .callRet c ∈ w.net ∨ ∀ d ∈ w.pending, d.parent ≠ some c.id)
    (hown : ∀ o ∈ w'.objects, o ∈ w.objects ∨ ∀ c ∈ o.calls, c.session = o.session)
    (hpool : ∀ k i, w'.sessionPool.get k = some i → ∃ o, w'.objects[i]? = some o ∧ o.session = k.2) :
    w'.Accounts where
  flight := by rw [hpending]; exact h.flight.trans hflight.symm
  ids := by rw [hpending]; exact h.ids
  fresh := by rw [hpending, hcalls]; exact h.fresh
  nested := by rw [hpending]; exact h.nested
  returned c hc := by
    rw [hpending]
    exact (hreturned c hc).elim (h.returned c) id
  unreleased := by rw [hpending, hreleased]; exact h.unreleased
  own o ho := (hown o ho).elim (h.own o) id
  pool := hpool

/-- Taking a message takes the call it carries. -/
theorem flying_take {m : Msg} (hm : m ∈ w.net) :
    (view Msg.flying w.net).Perm (m.flying.toList ++ view Msg.flying (w.net.erase m)) := by
  rw [← view_cons]
  exact view_perm _ (List.perm_cons_erase hm)

/-- What an object in a slot contributes to the calls. -/
theorem flight_setObject {i : Nat} {o : Object} (ho : w.objects[i]? = some o) (o' : Object) :
    ((w.setObject i o').flight ++ o.calls).Perm (w.flight ++ o'.calls) := by
  obtain ⟨a, b, hold, hnew⟩ := flatMap_set ho o' Object.calls
  unfold flight
  rw [show (w.setObject i o').objects = w.objects.set i o' from rfl, hnew, hold,
    show (w.setObject i o').net = w.net from rfl]
  refine List.perm_iff_count.mpr fun c => ?_
  simp only [List.count_append]
  omega

/-- A message that carries no call is taken, and others are sent. -/
theorem Accounts.take (h : w.Accounts) {m : Msg} (hmem : m ∈ w.net) (hm : m.flying = none)
    {outs : List Msg} (houts : ∀ x ∈ outs, x.flying = none) (hpending : w'.pending = w.pending)
    (hcalls : w'.calls = w.calls) (hreleased : w'.released = w.released)
    (hobjects : w'.objects = w.objects)
    (hpool : ∀ k i, w'.sessionPool.get k = some i → w.sessionPool.get k = some i)
    (hnet : w'.net = w.net.erase m ++ outs) : w'.Accounts := by
  refine h.move hpending hcalls hreleased ?_ ?_ ?_ ?_
  · unfold World.flight
    rw [hnet, hobjects, view_append, view_eq_nil houts, List.append_nil]
    have hview := flying_take hmem
    rw [hm] at hview
    exact hview.symm.append_right _
  · intro c hc
    rw [hnet, List.mem_append] at hc
    refine .inl (hc.elim List.mem_of_mem_erase fun hc => ?_)
    cases houts _ hc
  · intro o ho
    exact .inl (hobjects ▸ ho)
  · intro k i hk
    rw [hobjects]
    exact h.pool k i (hpool k i hk)

/-- A client or a running action calls a service. -/
theorem Accounts.newCall (h : w.Accounts) {s : Session} {service : Service} {parent : Option Nat}
    (hs : s ∉ w.released)
    (hparent : ∀ p, parent = some p → ∃ d ∈ w.pending, d.id = p ∧ d.session = s)
    (hrunning : ∀ c, .callRet c ∈ w.net → parent ≠ some c.id) :
    (w.newCall s service parent).Accounts where
  flight := by
    refine (h.flight.append_right _).trans (List.perm_iff_count.mpr fun c => ?_)
    simp only [World.flight, World.newCall, view_append, List.count_append]
    show _ + [_].count c = _ + (view Msg.flying [Msg.call _]).count c + _
    simp only [view, List.filterMap_cons, Msg.flying, List.filterMap_nil]
    omega
  ids := by
    show ((w.pending ++ [_]).map Call.id).Nodup
    rw [List.map_append]
    refine List.nodup_append'.mpr ⟨h.ids, List.nodup_singleton _, List.disjoint_singleton.mpr ?_⟩
    intro hmem
    obtain ⟨c, hc, heq⟩ := List.mem_map.mp hmem
    exact absurd (h.fresh c hc) (by rw [heq]; exact lt_irrefl _)
  fresh c hc := by
    rcases List.mem_append.mp hc with hc | hc
    · exact Nat.lt_succ_of_lt (h.fresh c hc)
    · rw [List.mem_singleton.mp hc]
      exact Nat.lt_succ_self _
  nested c hc p hp := by
    rcases List.mem_append.mp hc with hc | hc
    · obtain ⟨d, hd, hid, hsession, hlt⟩ := h.nested c hc p hp
      exact ⟨d, List.mem_append_left _ hd, hid, hsession, hlt⟩
    · cases List.mem_singleton.mp hc
      obtain ⟨d, hd, hid, hsession⟩ := hparent p hp
      exact ⟨d, List.mem_append_left _ hd, hid, hsession, hid ▸ h.fresh d hd⟩
  returned c hc d hd := by
    have hold : Msg.callRet c ∈ w.net := (List.mem_append.mp hc).resolve_right (by simp)
    rcases List.mem_append.mp hd with hd | hd
    · exact h.returned c hold d hd
    · rw [List.mem_singleton.mp hd]
      exact hrunning c hold
  unreleased c hc := by
    rcases List.mem_append.mp hc with hc | hc
    · exact h.unreleased c hc
    · rw [List.mem_singleton.mp hc]
      exact hs
  own := h.own
  pool := h.pool

/-- When no client waits for a call of the session, no call of it is pending. -/
theorem Accounts.idle (h : w.Accounts) {s : Session}
    (hclient : ∀ c ∈ w.pending, c.session = s → c.parent.isSome) :
    ∀ c ∈ w.pending, c.session ≠ s := by
  -- A nested call has a caller with a smaller number, so there is no smallest one.
  have hmin : ∀ n, ∀ c ∈ w.pending, c.id = n → c.session ≠ s := by
    intro n
    induction n using Nat.strong_induction_on with
    | _ n ih =>
      rintro c hc rfl hs
      obtain ⟨p, hp⟩ := Option.isSome_iff_exists.mp (hclient c hc hs)
      obtain ⟨d, hd, rfl, hsession, hlt⟩ := h.nested c hc p hp
      exact ih d.id hlt d hd rfl (hsession.trans hs)
  exact fun c hc => hmin c.id c hc rfl

/-- A coroutine in a queue has not returned its call. -/
theorem Accounts.not_returned (h : w.Accounts) {o : Object} (ho : o ∈ w.objects) {c d : Call}
    (hc : c ∈ o.calls) (hd : .callRet d ∈ w.net) : c.id ≠ d.id := by
  intro heq
  have hnd := (h.flight.map Call.id).nodup_iff.mp h.ids
  unfold World.flight at hnd
  rw [List.map_append] at hnd
  refine (List.nodup_append'.mp hnd).2.2
    (List.mem_map_of_mem (f := Call.id) (mem_view.mpr ⟨_, hd, rfl⟩)) (heq ▸ ?_)
  exact List.mem_map_of_mem (f := Call.id) (List.mem_flatMap.mpr ⟨o, ho, hc⟩)

/-! ### Steps that change an object -/

/-- The object `i` is one of the session. -/
def ObjectOf (w : World) (i : Nat) (s : Session) : Prop := ∃ o, w.objects[i]? = some o ∧ o.session = s

theorem setObject_objectOf {i : Nat} {o o' : Object} (ho : w.objects[i]? = some o)
    (hs : o'.session = o.session) {j : Nat} {s : Session} (h : w.ObjectOf j s) :
    (w.setObject i o').ObjectOf j s := by
  obtain ⟨x, hx, hxs⟩ := h
  show ∃ y, (w.objects.set i o')[j]? = some y ∧ _
  obtain ⟨hi, -⟩ := List.getElem?_eq_some_iff.mp ho
  rw [List.getElem?_set]
  by_cases hij : i = j
  · subst hij
    cases hx.symm.trans ho
    exact ⟨o', by rw [if_pos rfl, if_pos hi], hs.trans hxs⟩
  · exact ⟨x, by rw [if_neg hij]; exact hx, hxs⟩

theorem mem_setObject {i : Nat} {o' x : Object} (hx : x ∈ (w.setObject i o').objects) :
    x ∈ w.objects ∨ x = o' :=
  List.mem_or_eq_of_mem_set hx

/-- The coroutines of an object change places in its queue. -/
theorem Accounts.setObject (h : w.Accounts) {i : Nat} {o o' : Object} (ho : w.objects[i]? = some o)
    (hs : o'.session = o.session) (hcalls : o'.calls.Perm o.calls) : (w.setObject i o').Accounts := by
  have hmem := List.mem_of_getElem? ho
  refine h.move rfl rfl rfl ?_ (fun c hc => .inl hc) ?_ ?_
  · refine (List.perm_append_right_iff o.calls).mp ((flight_setObject ho o').trans ?_)
    exact hcalls.append_left _
  · intro x hx
    refine (mem_setObject hx).imp id ?_
    rintro rfl c hc
    rw [hs]
    exact h.own o hmem c (hcalls.subset hc)
  · exact fun k j hk => setObject_objectOf ho hs (h.pool k j hk)

/-- Messages that carry no call are sent. -/
theorem Accounts.send (h : w.Accounts) {outs : List Msg} (houts : ∀ x ∈ outs, x.flying = none) :
    (w.send outs).Accounts := by
  refine h.move rfl rfl rfl ?_ ?_ (fun o ho => .inl ho) h.pool
  · unfold World.flight World.send
    rw [view_append, view_eq_nil houts, List.append_nil]
  · intro c hc
    refine .inl ((List.mem_append.mp hc).resolve_right fun hc => ?_)
    cases houts _ hc

/-! ### The messages and the calls -/

/-- A call arrives at its service. -/
theorem Accounts.dispatchCall (h : w.Accounts) {c : Call} (hm : Msg.call c ∈ w.net) :
    ({ w with net := w.net.erase (.call c) }.dispatchCall c).Accounts := by
  have hnet := flying_take hm
  unfold World.dispatchCall
  dsimp only
  split
  · rename_i i hi
    obtain ⟨o, ho, hos⟩ := h.pool _ i hi
    rw [ho]
    dsimp only
    refine h.move rfl rfl rfl ?_ (fun d hd => .inl (List.mem_of_mem_erase hd)) ?_ ?_
    · have hset := flight_setObject (w := { w with net := w.net.erase (.call c) }) ho (o.enter c)
      have henter := o.enter_calls c
      refine List.perm_iff_count.mpr fun d => ?_
      have h1 := hset.count_eq d
      have h2 := henter.count_eq d
      have h3 := hnet.count_eq d
      unfold World.flight at h1 ⊢
      simp only [List.count_append, Msg.flying, Option.toList_some, List.singleton_append,
        List.count_cons] at h1 h2 h3 ⊢
      omega
    · intro x hx
      refine (mem_setObject hx).imp id ?_
      rintro rfl d hd
      rw [Object.enter_session]
      rcases List.mem_cons.mp ((o.enter_calls c).subset hd) with rfl | hd
      · exact hos.symm
      · exact h.own o (List.mem_of_getElem? ho) d hd
    · exact fun k j hk => setObject_objectOf (w := { w with net := w.net.erase (.call c) }) ho
        (o.enter_session c) (h.pool k j hk)
  · refine h.move rfl rfl rfl ?_ ?_ ?_ ?_
    · have hquery : ∀ ms : List Msg, view Msg.flying (ms ++ [Msg.query w.objects.length c.session]) =
          view Msg.flying ms := by
        intro ms
        rw [view_append]
        exact List.append_nil _
      refine List.perm_iff_count.mpr fun d => ?_
      have h3 := hnet.count_eq d
      unfold World.flight
      rw [hquery]
      simp only [Msg.flying, Object.calls, List.flatMap_append, List.flatMap_cons, List.flatMap_nil,
        Option.map_some, Option.toList_some, List.append_nil, List.count_append,
        List.singleton_append, List.count_cons, List.count_nil] at h3 ⊢
      omega
    · intro d hd
      refine .inl (List.mem_of_mem_erase ((List.mem_append.mp hd).resolve_right (by simp)))
    · intro x hx
      refine (List.mem_append.mp hx).imp id fun hx => ?_
      cases List.mem_singleton.mp hx
      intro d hd
      cases List.mem_singleton.mp hd
      rfl
    · intro k i hk
      rw [Table.get_set] at hk
      split at hk
      · rename_i hkc
        cases hk
        exact ⟨⟨c.service, c.session, some (c, .query), []⟩, by simp, by rw [hkc]⟩
      · obtain ⟨o, ho, hos⟩ := h.pool k i hk
        exact ⟨o, List.getElem?_append_left (List.getElem?_eq_some_iff.mp ho).1 ▸ ho, hos⟩

/-- A call has returned to its caller. -/
theorem Accounts.callRet (h : w.Accounts) {c : Call} (hm : Msg.callRet c ∈ w.net) :
    ({ w with net := w.net.erase (.callRet c) }.handle (.callRet c)).Accounts := by
  have hflight : w.pending.Perm (c :: { w with net := w.net.erase (.callRet c) }.flight) :=
    h.flight.trans ((flying_take hm).append_right _)
  have hsub : ∀ d ∈ w.pending.erase c, d ∈ w.pending := fun d hd => List.mem_of_mem_erase hd
  refine ⟨?_, ?_, fun d hd => h.fresh d (hsub d hd), ?_, ?_, fun d hd => h.unreleased d (hsub d hd),
    h.own, h.pool⟩
  · have := hflight.erase c
    rwa [List.erase_cons_head] at this
  · exact h.ids.sublist ((List.erase_sublist).map _)
  · intro d hd p hp
    obtain ⟨e, he, heid, hes, hlt⟩ := h.nested d (hsub d hd) p hp
    -- The caller of a pending call has not returned, so it is not the one that returns here.
    have hne : e ≠ c := by
      rintro rfl
      exact h.returned e hm d (hsub d hd) (heid ▸ hp)
    exact ⟨e, (List.mem_erase_of_ne hne).mpr he, heid, hes, hlt⟩
  · exact fun d hd e he => h.returned d (List.mem_of_mem_erase hd) e (hsub e he)

/-- The first call has its query answered. -/
theorem Accounts.queryDone (h : w.Accounts) (i : Nat) : (w.queryDone i).Accounts := by
  unfold World.queryDone
  split
  · rename_i o ho
    split
    · rename_i c hc
      refine (h.setObject ho (by simp) ?_).send (by simp [Msg.flying])
      rw [Object.leave_calls hc]
      exact Object.enter_calls _ _
    · exact h
  · exact h

theorem answer_flying (pool : Pool Sender) (sender : Sender) : (sender.answer pool).flying = none := by
  cases sender <;> rfl

/-- A request is taken from the network and handled by `transactiond`. -/
theorem Accounts.ask (h : w.Accounts) {m : Msg} (hmem : m ∈ w.net) (hm : m.flying = none)
    (sender : Sender) (request : Request) :
    ({ w with net := w.net.erase m }.ask sender request).Accounts :=
  h.take hmem hm (List.forall_mem_map.mpr fun x _ => answer_flying _ x.1) rfl rfl rfl rfl
    (fun _ _ hk => hk) rfl

theorem Accounts.handle (h : w.Accounts) {m : Msg} (hm : m ∈ w.net) :
    ({ w with net := w.net.erase m }.handle m).Accounts := by
  have quiet : ∀ {w' : World}, m.flying = none → w'.pending = w.pending → w'.calls = w.calls →
      w'.released = w.released → w'.objects = w.objects →
      (∀ k i, w'.sessionPool.get k = some i → w.sessionPool.get k = some i) →
      w'.net = w.net.erase m → w'.Accounts :=
    fun hf hp hc hr ho hk hn => h.take hm hf (List.forall_mem_nil _) hp hc hr ho hk
      (hn.trans (List.append_nil _).symm)
  cases m with
  | create client => exact h.ask hm rfl _ _
  | created client s => exact quiet rfl rfl rfl rfl rfl (fun _ _ hk => hk) rfl
  | call c => exact h.dispatchCall hm
  | callRet c => exact h.callRet hm
  | query i s => exact h.ask hm rfl _ _
  | queryRet i s =>
    have hquiet : ({ w with net := w.net.erase (.queryRet i s) }).Accounts :=
      quiet rfl rfl rfl rfl rfl (fun _ _ hk => hk) rfl
    exact hquiet.queryDone i
  | link service s => exact h.ask hm rfl _ _
  | linkRet service s =>
    refine quiet rfl rfl rfl rfl rfl (fun k i hk => ?_) rfl
    simp only [World.handle, Table.get_del] at hk
    split at hk
    · cases hk
    · exact hk
  | release s => exact h.ask hm rfl _ _
  | releaseRet s => exact quiet rfl rfl rfl rfl rfl (fun _ _ hk => hk) rfl

theorem accounts_step (h : w.Accounts) {a : Action} (hstep : step w a = some w') : w'.Accounts := by
  cases a with
  | create client =>
    cases hstep
    exact h.send (by simp [Msg.flying])
  | call s service =>
    simp only [step] at hstep
    split at hstep
    · rename_i hs
      cases hstep
      exact h.newCall hs.2 nofun nofun
    · cases hstep
  | release s =>
    simp only [step] at hstep
    split at hstep
    · rename_i hs
      cases hstep
      refine Accounts.send (w := { w with released := w.released ++ [s] }) ?_ (by simp [Msg.flying])
      refine { h with unreleased := fun c hc => ?_ }
      simp only [List.mem_append, List.mem_singleton, not_or]
      exact ⟨h.unreleased c hc, h.idle hs.2.2 c hc⟩
    · cases hstep
  | deliver m =>
    simp only [step] at hstep
    split at hstep
    · cases hstep
      exact h.handle (by assumption)
    · cases hstep
  | wake i =>
    simp only [step] at hstep
    split at hstep
    · rename_i o ho
      split at hstep
      · rename_i c hc
        cases hstep
        exact h.setObject ho rfl (by simp [Object.calls, hc])
      · cases hstep
    · cases hstep
  | nested i service =>
    simp only [step] at hstep
    split at hstep
    · rename_i o ho
      split at hstep
      · rename_i c hc
        cases hstep
        have hmem := List.mem_of_getElem? ho
        have hcalls : c ∈ o.calls := by simp [Object.calls, hc]
        have hown := h.own o hmem c hcalls
        have hpend := h.mem_pending hmem hcalls
        refine h.newCall (hown ▸ h.unreleased c hpend) ?_ ?_
        · rintro p ⟨⟩
          exact ⟨c, hpend, rfl, hown⟩
        · exact fun d hd heq => h.not_returned hmem hcalls hd (Option.some.inj heq)
      · cases hstep
    · cases hstep
  | finish i =>
    simp only [step] at hstep
    split at hstep
    · rename_i o ho
      split at hstep
      · rename_i c hc
        split at hstep
        · rename_i hchild
          cases hstep
          refine h.move rfl rfl rfl ?_ ?_ ?_ ?_
          · have hset := flight_setObject ho o.leave
            refine List.perm_iff_count.mpr fun d => ?_
            have h1 := hset.count_eq d
            rw [Object.leave_calls hc] at h1
            simp only [World.flight, World.setObject, World.send, view_append, List.count_append,
              List.count_cons] at h1 ⊢
            show _ + (view Msg.flying [Msg.callRet c]).count d + _ = _
            simp only [view, List.filterMap_cons, Msg.flying, List.filterMap_nil,
              List.count_cons, List.count_nil] at h1 ⊢
            omega
          · intro d hd
            refine (List.mem_append.mp hd).imp id fun hd => ?_
            cases List.mem_singleton.mp hd
            exact hchild
          · intro x hx
            refine (mem_setObject hx).imp id ?_
            rintro rfl d hd
            rw [Object.leave_session]
            refine h.own o (List.mem_of_getElem? ho) d ?_
            rw [Object.leave_calls hc]
            exact List.mem_cons_of_mem _ hd
          · exact fun k j hk => setObject_objectOf ho o.leave_session (h.pool k j hk)
        · cases hstep
      · cases hstep
    · cases hstep

/-! ## The lock -/

/-- The lock was granted to the session: an object of it is past its query, or will be told so. -/
def Grants (w : World) (s : Session) : Prop :=
  (∃ o ∈ w.objects, o.session = s ∧ ¬ o.Querying) ∨ ∃ i, .queryRet i s ∈ w.net

/-- The session a lock was granted to keeps it until its client releases it. -/
structure Granted (w : World) : Prop where
  stored : ∀ s, ∀ q ∈ w.transactiond.session.get s, ∀ x ∈ q, ∃ i, x = .query i s ∧ w.ObjectOf i s
  linked : ∀ s, ∀ q ∈ w.transactiond.link.get s, ∀ x ∈ q, ∃ service s', x = .link service s'
  querying : ∀ i s, .query i s ∈ w.net → w.ObjectOf i s
  answered : ∀ i s, .queryRet i s ∈ w.net → w.ObjectOf i s
  releasing : ∀ s, .release s ∈ w.net → s ∈ w.released
  active : ∀ s, w.Grants s → w.transactiond.active = some s ∨ s ∈ w.released

theorem init_granted : init.Granted where
  stored := by simp [init, Pool.init]
  linked := by simp [init, Pool.init]
  querying := by simp [init]
  answered := by simp [init]
  releasing := by simp [init]
  active := by simp [init, Grants]

/-! ### What a request does to the lock -/

/-- What a request does to the lock, when `granting` are the queries it may answer. -/
structure Serves (t t' : Pool Sender) (sender : Sender) (request : Request) : Prop where
  session : ∀ s, ∀ q ∈ t'.session.get s, ∀ x ∈ q,
    (∃ q ∈ t.session.get s, x ∈ q) ∨ x = sender ∧ request = .query s
  link : ∀ s, ∀ q ∈ t'.link.get s, ∀ x ∈ q, (∃ q ∈ t.link.get s, x ∈ q) ∨ x = sender ∧ request = .link s
  active : ∀ s, t.active = some s → t'.active = some s ∨ request = .release s
  sent : ∀ x ∈ t'.sent, x.1 = sender ∧ (∀ s, request = .query s → t'.active = some s) ∨
    (∃ s, t'.active = some s ∧ ∃ q ∈ t.session.get s, x.1 ∈ q) ∨
    ∃ s, ∃ q ∈ t.link.get s, x.1 ∈ q

/-- A table whose entry `s` got one more element. -/
theorem mem_pushed {t : Table Session (List Sender)} {s s' : Session} {x y : Sender}
    {q : List Sender} (hq : q ∈ (t.set s ((t.get s).getD [] ++ [y])).get s') (hx : x ∈ q) :
    (∃ q ∈ t.get s', x ∈ q) ∨ x = y ∧ s' = s := by
  rw [Table.get_set] at hq
  split at hq
  · rename_i hs
    cases hq
    rcases List.mem_append.mp hx with hx | hx
    · refine .inl ?_
      cases hget : t.get s with
      | none => rw [hget] at hx; cases hx
      | some l =>
        rw [hget] at hx
        exact ⟨l, hs ▸ hget, hx⟩
    · exact .inr ⟨List.mem_singleton.mp hx, hs⟩
  · exact .inl ⟨q, hq, hx⟩

theorem dispatch_serves (sender : Sender) (request : Request) {t : Pool Sender} (ht : t.sent = []) :
    Serves t (after (dispatch sender request t)) sender request := by
  cases request with
  | create =>
    refine ⟨fun s q hq x hx => .inl ⟨q, hq, hx⟩, fun s q hq x hx => .inl ⟨q, hq, hx⟩,
      fun s hs => .inl hs, fun x hx => .inl ⟨?_, by rintro _ ⟨⟩⟩⟩
    have hx : x ∈ t.sent ++ [(sender, t.active)] := hx
    rw [ht] at hx
    exact congrArg Prod.fst (List.mem_singleton.mp hx)
  | link s =>
    simp only [dispatch, link_eq, after_ok]
    refine ⟨fun s q hq x hx => .inl ⟨q, hq, hx⟩, fun s' q hq x hx => ?_, fun s hs => .inl hs, ?_⟩
    · exact (mem_pushed hq hx).imp id (And.imp_right fun h => congrArg Request.link h.symm)
    · simp [ht]
  | query s =>
    rcases query_cases s sender t with ⟨hnone, heq⟩ | ⟨hact, heq⟩ | ⟨b, hact, hne, heq⟩
    · simp only [dispatch, heq, after_ok]
      refine ⟨fun s q hq x hx => .inl ⟨q, hq, hx⟩, fun s q hq x hx => .inl ⟨q, hq, hx⟩, ?_, ?_⟩
      · intro s' hs'
        rw [hnone] at hs'
        cases hs'
      · intro x hx
        rw [ht] at hx
        refine .inl ⟨congrArg Prod.fst (List.mem_singleton.mp hx), ?_⟩
        rintro s' ⟨⟩
        rfl
    · simp only [dispatch, heq, after_ok]
      refine ⟨fun s q hq x hx => .inl ⟨q, hq, hx⟩, fun s q hq x hx => .inl ⟨q, hq, hx⟩,
        fun s hs => .inl hs, ?_⟩
      intro x hx
      rw [ht] at hx
      refine .inl ⟨congrArg Prod.fst (List.mem_singleton.mp hx), ?_⟩
      rintro s' ⟨⟩
      exact hact
    · simp only [dispatch, heq, after_ok]
      refine ⟨fun s' q hq x hx => ?_, fun s q hq x hx => .inl ⟨q, hq, hx⟩, fun s hs => .inl hs, ?_⟩
      · exact (mem_pushed hq hx).imp id (And.imp_right fun h => congrArg Request.query h.symm)
      · simp [ht]
  | release s =>
    obtain ⟨-, hactive, -, hsession, hlink, -, p, p', hp, hp', hsent⟩ := release_after s sender t
    refine ⟨fun s' q hq x hx => .inl ⟨q, ?_, hx⟩, fun s' q hq x hx => .inl ⟨q, hlink s' q hq, hx⟩,
      fun s' hs' => ?_, ?_⟩
    · rw [← hsession]; exact hq
    · by_cases heq : s' = s
      · exact .inr (heq ▸ rfl)
      · refine .inl (hactive.trans ((if_neg ?_).trans hs'))
        exact fun hs => heq (Option.some.inj (hs'.symm.trans hs))
    · intro x hx
      have hx : x ∈ t.sent ++ (p ++ p').map fun r => (r, t.successor s) := hsent ▸ hx
      rw [ht, List.nil_append] at hx
      obtain ⟨y, hy, rfl⟩ := List.mem_map.mp hx
      rcases List.mem_append.mp hy with hy | hy
      · obtain ⟨hs, hw⟩ := hp y hy
        refine .inr (.inl ?_)
        unfold Pool.waiters at hw
        cases hnext : t.queue.head? with
        | none => rw [hnext] at hw; cases hw
        | some next =>
          rw [hnext, Option.bind_some] at hw
          cases hget : t.session.get next with
          | none => rw [hget] at hw; cases hw
          | some q =>
            rw [hget] at hw
            exact ⟨next, hactive.trans ((if_pos hs).trans hnext), q, hget, hw⟩
      · rcases hp' y hy with rfl | hy
        · exact .inl ⟨rfl, fun s' heq => by cases heq⟩
        · refine .inr (.inr ?_)
          unfold Pool.linked at hy
          cases hget : t.link.get s with
          | none => rw [hget] at hy; cases hy
          | some q =>
            rw [hget] at hy
            exact ⟨s, q, hget, hy⟩

/-! ### The lock along the steps -/

/-- A step that `transactiond` has no part in. -/
theorem Granted.mono (h : w.Granted) (htransactiond : w'.transactiond = w.transactiond)
    (hobject : ∀ i s, w.ObjectOf i s → w'.ObjectOf i s)
    (hquery : ∀ i s, .query i s ∈ w'.net → .query i s ∈ w.net ∨ w'.ObjectOf i s)
    (hret : ∀ i s, .queryRet i s ∈ w'.net → .queryRet i s ∈ w.net)
    (hrelease : ∀ s, .release s ∈ w'.net → .release s ∈ w.net ∨ s ∈ w'.released)
    (hreleased : ∀ s ∈ w.released, s ∈ w'.released)
    (hgrants : ∀ o ∈ w'.objects, ¬ o.Querying → w.Grants o.session) : w'.Granted where
  stored s q hq x hx := by
    rw [htransactiond] at hq
    obtain ⟨i, rfl, hi⟩ := h.stored s q hq x hx
    exact ⟨i, rfl, hobject i s hi⟩
  linked := by rw [htransactiond]; exact h.linked
  querying i s hm := (hquery i s hm).elim (fun hm => hobject i s (h.querying i s hm)) id
  answered i s hm := hobject i s (h.answered i s (hret i s hm))
  releasing s hm := (hrelease s hm).elim (fun hm => hreleased s (h.releasing s hm)) id
  active s hs := by
    rw [htransactiond]
    have hold : w.Grants s := by
      rcases hs with ⟨o, ho, rfl, hnot⟩ | ⟨i, hi⟩
      · exact hgrants o ho hnot
      · exact .inr ⟨i, hret i s hi⟩
    exact (h.active s hold).imp id (hreleased s)

/-- A request is taken from the network and handled by `transactiond`. -/
theorem Granted.ask (h : w.Granted) {m : Msg} {sender : Sender} {request : Request}
    (hquery : ∀ s, request = .query s → ∃ i, sender = .query i s ∧ w.ObjectOf i s)
    (hlink : ∀ s, request = .link s → ∃ service s', sender = .link service s')
    (hrelease : ∀ s, request = .release s → s ∈ w.released)
    (hsender : ∀ i s, sender = .query i s → request = .query s) :
    ({ w with net := w.net.erase m }.ask sender request).Granted := by
  obtain ⟨hsession, hlinks, hactive, hsent⟩ :=
    dispatch_serves sender request (t := { w.transactiond with sent := [] }) rfl
  -- A query that is answered is one of the session that is active afterwards.
  have hanswer : ∀ i s, .queryRet i s ∈ ({ w with net := w.net.erase m }.ask sender request).net →
      .queryRet i s ∈ w.net ∨ w.ObjectOf i s ∧
        ({ w with net := w.net.erase m }.ask sender request).transactiond.active = some s := by
    intro i s hm
    rcases List.mem_append.mp hm with hm | hm
    · exact .inl (List.mem_of_mem_erase hm)
    · obtain ⟨x, hx, heq⟩ := List.mem_map.mp hm
      have hxs : x.1 = .query i s := by
        cases hcase : x.1 <;> rw [hcase] at heq <;> cases heq
        rfl
      refine .inr ?_
      rcases hsent x hx with ⟨hfrom, hact⟩ | ⟨s', hact, q, hq, hxq⟩ | ⟨s', q, hq, hxq⟩
      · have hreq := hsender i s (hfrom.symm.trans hxs)
        obtain ⟨j, hj, hobj⟩ := hquery s hreq
        cases hj.symm.trans (hfrom.symm.trans hxs)
        exact ⟨hobj, hact s hreq⟩
      · obtain ⟨j, hj, hobj⟩ := h.stored s' q hq x.1 hxq
        cases hj.symm.trans hxs
        exact ⟨hobj, hact⟩
      · obtain ⟨service, s'', hlinked⟩ := h.linked s' q hq x.1 hxq
        cases hlinked.symm.trans hxs
  have hother : ∀ x : Msg, (∀ sender : Sender, ∀ pool, sender.answer pool ≠ x) →
      x ∈ ({ w with net := w.net.erase m }.ask sender request).net → x ∈ w.net := by
    intro x hx hm
    rcases List.mem_append.mp hm with hm | hm
    · exact List.mem_of_mem_erase hm
    · obtain ⟨y, -, heq⟩ := List.mem_map.mp hm
      exact absurd heq (hx _ _)
  refine ⟨?_, ?_, ?_, ?_, ?_, ?_⟩
  · intro s q hq x hx
    rcases hsession s q hq x hx with ⟨q, hq, hx⟩ | ⟨rfl, hreq⟩
    · exact h.stored s q hq x hx
    · exact hquery s hreq
  · intro s q hq x hx
    rcases hlinks s q hq x hx with ⟨q, hq, hx⟩ | ⟨rfl, hreq⟩
    · exact h.linked s q hq x hx
    · exact hlink s hreq
  · intro i s hm
    exact h.querying i s (hother _ (fun sender pool => by cases sender <;> nofun) hm)
  · exact fun i s hm => (hanswer i s hm).elim (h.answered i s) And.left
  · intro s hm
    exact h.releasing s (hother _ (fun sender pool => by cases sender <;> nofun) hm)
  · intro s hs
    have hold : w.Grants s → _ := fun hs => (h.active s hs).elim
      (fun hact => (hactive s hact).imp id fun hreq => hrelease s hreq) .inr
    rcases hs with hs | ⟨i, hi⟩
    · exact hold (.inl hs)
    · rcases hanswer i s hi with hm | ⟨-, hact⟩
      · exact hold (.inr ⟨i, hm⟩)
      · exact .inl hact

/-- An object that is not held for the query grants its session. -/
theorem grants_of_object {i : Nat} {o : Object} (ho : w.objects[i]? = some o) (hq : ¬ o.Querying) :
    w.Grants o.session := .inl ⟨o, List.mem_of_getElem? ho, rfl, hq⟩

/-- A step that changes one object, and sends messages that are nothing to the lock. -/
theorem Granted.setObject (h : w.Granted) {i : Nat} {o o' : Object} (ho : w.objects[i]? = some o)
    (hs : o'.session = o.session) (hq : ¬ o'.Querying → w.Grants o.session) {net : List Msg}
    (hnet : ∀ x ∈ net, x ∈ w.net ∨ (∃ c, x = .callRet c) ∨ ∃ service s, x = .link service s) :
    ({ w.setObject i o' with net := net }).Granted := by
  refine h.mono rfl (fun j s hj => setObject_objectOf ho hs hj) ?_ ?_ ?_ (fun s hs => hs) ?_
  · exact fun j s hm => .inl ((hnet _ hm).resolve_right (by simp))
  · exact fun j s hm => (hnet _ hm).resolve_right (by simp)
  · exact fun s hm => .inl ((hnet _ hm).resolve_right (by simp))
  · intro x hx hnot
    rcases mem_setObject hx with hx | rfl
    · exact .inl ⟨x, hx, rfl, hnot⟩
    · rw [hs]
      exact hq hnot

/-- A step that changes no object and no lock, and sends messages that are nothing to the lock. -/
theorem Granted.quiet (h : w.Granted) (htransactiond : w'.transactiond = w.transactiond)
    (hobjects : w'.objects = w.objects) (hreleased : w'.released = w.released)
    (hnet : ∀ x ∈ w'.net, x ∈ w.net ∨ (∃ c, x = .call c) ∨ ∃ client, x = .create client) :
    w'.Granted := by
  refine h.mono htransactiond ?_ ?_ ?_ ?_ (fun s hs => hreleased ▸ hs) ?_
  · unfold ObjectOf
    rw [hobjects]
    exact fun _ _ hi => hi
  · exact fun j s hm => .inl ((hnet _ hm).resolve_right (by simp))
  · exact fun j s hm => (hnet _ hm).resolve_right (by simp)
  · exact fun s hm => .inl ((hnet _ hm).resolve_right (by simp))
  · exact fun o ho hnot => .inl ⟨o, hobjects ▸ ho, rfl, hnot⟩

theorem Granted.dispatchCall (h : w.Granted) (hacc : w.Accounts) {c : Call} (m : Msg) :
    ({ w with net := w.net.erase m }.dispatchCall c).Granted := by
  unfold World.dispatchCall
  dsimp only
  split
  · rename_i i hi
    obtain ⟨o, ho, hos⟩ := hacc.pool _ i hi
    rw [ho]
    dsimp only
    exact h.setObject ho (o.enter_session c) (fun hnot => grants_of_object ho fun hq => hnot (hq.enter c))
      fun x hx => .inl (List.mem_of_mem_erase hx)
  · refine h.mono rfl ?_ ?_ ?_ ?_ (fun s hs => hs) ?_
    · rintro i s ⟨o, ho, hos⟩
      exact ⟨o, List.getElem?_append_left (List.getElem?_eq_some_iff.mp ho).1 ▸ ho, hos⟩
    · intro i s hm
      rcases List.mem_append.mp hm with hm | hm
      · exact .inl (List.mem_of_mem_erase hm)
      · cases List.mem_singleton.mp hm
        exact .inr ⟨⟨c.service, c.session, some (c, .query), []⟩, by simp, rfl⟩
    · exact fun i s hm => List.mem_of_mem_erase ((List.mem_append.mp hm).resolve_right (by simp))
    · exact fun s hm => .inl (List.mem_of_mem_erase ((List.mem_append.mp hm).resolve_right (by simp)))
    · intro o ho hnot
      rcases List.mem_append.mp ho with ho | ho
      · exact .inl ⟨o, ho, rfl, hnot⟩
      · cases List.mem_singleton.mp ho
        exact absurd ⟨c, rfl⟩ hnot

theorem Granted.queryDone (h : w.Granted) {i : Nat} {s : Session} (hm : Msg.queryRet i s ∈ w.net) :
    ({ w with net := w.net.erase (.queryRet i s) }.queryDone i).Granted := by
  have herase : ∀ x ∈ w.net.erase (.queryRet i s), x ∈ w.net := fun x hx => List.mem_of_mem_erase hx
  have hquiet : ({ w with net := w.net.erase (.queryRet i s) }).Granted :=
    h.quiet rfl rfl rfl fun x hx => .inl (herase x hx)
  obtain ⟨o, ho, hos⟩ := h.answered i s hm
  unfold World.queryDone
  dsimp only
  rw [ho]
  dsimp only
  split
  · rename_i c hc
    refine h.setObject ho (by simp) (fun _ => .inr ⟨i, hos ▸ hm⟩) fun x hx => ?_
    refine (List.mem_append.mp hx).imp (herase x) fun hx => .inr ⟨_, _, List.mem_singleton.mp hx⟩
  · exact hquiet

theorem Granted.handle (h : w.Granted) (hacc : w.Accounts) {m : Msg} (hm : m ∈ w.net) :
    ({ w with net := w.net.erase m }.handle m).Granted := by
  have quiet : ∀ {w' : World}, w'.transactiond = w.transactiond → w'.objects = w.objects →
      w'.released = w.released → w'.net = w.net.erase m → w'.Granted :=
    fun ht ho hr hn => h.quiet ht ho hr fun x hx => .inl (List.mem_of_mem_erase (hn ▸ hx))
  cases m with
  | create client => exact h.ask nofun nofun nofun nofun
  | created client s => exact quiet rfl rfl rfl rfl
  | call c => exact h.dispatchCall hacc _
  | callRet c => exact quiet rfl rfl rfl rfl
  | query i s =>
    refine h.ask ?_ nofun nofun ?_
    · rintro _ ⟨⟩
      exact ⟨i, rfl, h.querying i s hm⟩
    · rintro _ _ ⟨⟩
      rfl
  | queryRet i s => exact h.queryDone hm
  | link service s => exact h.ask nofun (by rintro _ ⟨⟩; exact ⟨service, s, rfl⟩) nofun nofun
  | linkRet service s => exact quiet rfl rfl rfl rfl
  | release s =>
    refine h.ask nofun nofun ?_ nofun
    rintro _ ⟨⟩
    exact h.releasing s hm
  | releaseRet s => exact quiet rfl rfl rfl rfl

theorem granted_step (h : w.Granted) (hacc : w.Accounts) {a : Action} (hstep : step w a = some w') :
    w'.Granted := by
  cases a with
  | create client =>
    cases hstep
    refine h.quiet rfl rfl rfl fun x hx => ?_
    exact (List.mem_append.mp hx).imp id fun hx => .inr ⟨_, List.mem_singleton.mp hx⟩
  | call s service =>
    simp only [step] at hstep
    split at hstep
    · cases hstep
      refine h.quiet rfl rfl rfl fun x hx => ?_
      exact (List.mem_append.mp hx).imp id fun hx => .inl ⟨_, List.mem_singleton.mp hx⟩
    · cases hstep
  | release s =>
    simp only [step] at hstep
    split at hstep
    · cases hstep
      refine h.mono rfl (fun _ _ hi => hi) ?_ ?_ ?_ (fun s' hs' => List.mem_append_left _ hs') ?_
      · exact fun i s' hm => .inl ((List.mem_append.mp hm).resolve_right (by simp))
      · exact fun i s' hm => (List.mem_append.mp hm).resolve_right (by simp)
      · intro s' hm
        refine (List.mem_append.mp hm).imp id fun hm => ?_
        cases List.mem_singleton.mp hm
        exact List.mem_append_right _ (List.mem_singleton.mpr rfl)
      · exact fun o ho hnot => .inl ⟨o, ho, rfl, hnot⟩
    · cases hstep
  | deliver m =>
    simp only [step] at hstep
    split at hstep
    · cases hstep
      exact h.handle hacc (by assumption)
    · cases hstep
  | wake i =>
    simp only [step] at hstep
    split at hstep
    · rename_i o ho
      split at hstep
      · rename_i c hc
        cases hstep
        have hsession : ({ o with current := some (c, .action) } : Object).session = o.session := rfl
        exact h.setObject ho hsession
          (fun _ => grants_of_object ho (Object.not_querying hc nofun)) fun x hx => .inl hx
      · cases hstep
    · cases hstep
  | nested i service =>
    simp only [step] at hstep
    split at hstep
    · split at hstep
      · cases hstep
        refine h.quiet rfl rfl rfl fun x hx => ?_
        exact (List.mem_append.mp hx).imp id fun hx => .inl ⟨_, List.mem_singleton.mp hx⟩
      · cases hstep
    · cases hstep
  | finish i =>
    simp only [step] at hstep
    split at hstep
    · rename_i o ho
      split at hstep
      · rename_i c hc
        split at hstep
        · cases hstep
          refine h.setObject ho o.leave_session
            (fun _ => grants_of_object ho (Object.not_querying hc nofun)) fun x hx => ?_
          exact (List.mem_append.mp hx).imp id fun hx => .inl ⟨_, List.mem_singleton.mp hx⟩
        · cases hstep
      · cases hstep
    · cases hstep

/-! ## Isolation -/

theorem reach_isolated (h : system.Reach w) : w.Accounts ∧ w.Granted := by
  refine h.invariant (fun w => w.Accounts ∧ w.Granted) ?_ ?_
  · rintro w rfl
    exact ⟨init_accounts, init_granted⟩
  · intro w a w' _ hinv _ hstep
    exact ⟨accounts_step hinv.1 hstep, granted_step hinv.2 hinv.1 hstep⟩

/-- A session whose action runs is not released. -/
theorem Accounts.runs (h : w.Accounts) {s : Session} (hs : w.Runs s) : s ∉ w.released := by
  obtain ⟨o, ho, rfl, hstage⟩ := hs
  obtain ⟨⟨c, st⟩, hc, -⟩ := Option.map_eq_some_iff.mp hstage
  have hcalls : c ∈ o.calls := by simp [Object.calls, hc]
  exact h.own o ho c hcalls ▸ h.unreleased c (h.mem_pending ho hcalls)

/-- A session whose action runs is active. -/
theorem runs_active (h : system.Reach w) {s : Session} (hs : w.Runs s) :
    w.transactiond.active = some s := by
  obtain ⟨hacc, hgranted⟩ := reach_isolated h
  have hnot := hacc.runs hs
  obtain ⟨o, ho, rfl, hstage⟩ := hs
  obtain ⟨⟨c, st⟩, hc, rfl⟩ := Option.map_eq_some_iff.mp hstage
  exact (hgranted.active _ (.inl ⟨o, ho, rfl, Object.not_querying hc nofun⟩)).resolve_right hnot

/-- What a step does to the lock and to the released sessions: nothing, or one request is handled,
or a client releases its session. -/
theorem step_lock {a : Action} (hstep : step w a = some w') :
    (w'.transactiond = w.transactiond ∧ ∃ ss, w'.released = w.released ++ ss) ∨
      ∃ m ∈ w.net, ∃ sender request, w' = { w with net := w.net.erase m }.ask sender request ∧
        ∀ s, request = .release s → m = .release s := by
  cases a with
  | create client => cases hstep; exact .inl ⟨rfl, [], by simp [send]⟩
  | call s service =>
    simp only [step] at hstep
    split at hstep <;> cases hstep
    exact .inl ⟨rfl, [], by simp [World.newCall]⟩
  | release s =>
    simp only [step] at hstep
    split at hstep <;> cases hstep
    exact .inl ⟨rfl, [s], rfl⟩
  | deliver m =>
    simp only [step] at hstep
    split at hstep <;> cases hstep
    rename_i hm
    have quiet : ∀ {w' : World}, w'.transactiond = w.transactiond → w'.released = w.released →
        w'.transactiond = w.transactiond ∧ ∃ ss, w'.released = w.released ++ ss :=
      fun ht hr => ⟨ht, [], by rw [hr, List.append_nil]⟩
    cases m with
    | create client => exact .inr ⟨_, hm, _, _, rfl, nofun⟩
    | created client s => exact .inl (quiet rfl rfl)
    | call c =>
      refine .inl (quiet ?_ ?_) <;> simp only [handle, World.dispatchCall] <;> split <;>
        [split; skip; split; skip] <;> rfl
    | callRet c => exact .inl (quiet rfl rfl)
    | query i s => exact .inr ⟨_, hm, _, _, rfl, nofun⟩
    | queryRet i s =>
      refine .inl (quiet ?_ ?_) <;> simp only [handle, World.queryDone] <;> split <;>
        [split; skip; split; skip] <;> rfl
    | link service s => exact .inr ⟨_, hm, _, _, rfl, nofun⟩
    | linkRet service s => exact .inl (quiet rfl rfl)
    | release s => exact .inr ⟨_, hm, _, _, rfl, by rintro _ ⟨⟩; rfl⟩
    | releaseRet s => exact .inl (quiet rfl rfl)
  | wake i =>
    simp only [step] at hstep
    split at hstep
    · split at hstep <;> cases hstep
      exact .inl ⟨rfl, [], by simp [World.setObject]⟩
    · cases hstep
  | nested i service =>
    simp only [step] at hstep
    split at hstep
    · split at hstep <;> cases hstep
      exact .inl ⟨rfl, [], by simp [World.newCall]⟩
    · cases hstep
  | finish i =>
    simp only [step] at hstep
    split at hstep
    · split at hstep
      · split at hstep <;> cases hstep
        exact .inl ⟨rfl, [], by simp [World.setObject, World.send]⟩
      · cases hstep
    · cases hstep

/-- The active session stays active until its client releases it. -/
theorem active_step (h : w.Granted) {a : Action} (hstep : step w a = some w') {s : Session}
    (hs : w.transactiond.active = some s) (hnot : s ∉ w'.released) :
    w'.transactiond.active = some s := by
  rcases step_lock hstep with ⟨ht, -⟩ | ⟨m, hm, sender, request, rfl, hrelease⟩
  · rw [ht, hs]
  · refine ((dispatch_serves sender request (t := { w.transactiond with sent := [] }) rfl).active s
      hs).resolve_right fun hreq => hnot ?_
    exact h.releasing s (hrelease s hreq ▸ hm)

theorem released_step {a : Action} (hstep : step w a = some w') {s : Session} (hs : s ∈ w.released) :
    s ∈ w'.released := by
  rcases step_lock hstep with ⟨-, ss, hr⟩ | ⟨m, -, sender, request, rfl, -⟩
  · rw [hr]
    exact List.mem_append_left _ hs
  · exact hs

theorem released_exec {as : List Action} (he : system.exec w as = some w') {s : Session}
    (hs : s ∈ w.released) : s ∈ w'.released := by
  induction as generalizing w with
  | nil => cases he; exact hs
  | cons a as ih =>
    obtain ⟨u, hu, hrest⟩ := Option.bind_eq_some_iff.mp he
    exact ih hrest (released_step hu hs)

theorem active_exec (h : system.Reach w) {as : List Action} (he : system.exec w as = some w')
    {s : Session} (hs : w.transactiond.active = some s) (hnot : s ∉ w'.released) :
    w'.transactiond.active = some s := by
  induction as generalizing w with
  | nil => cases he; exact hs
  | cons a as ih =>
    obtain ⟨u, hu, hrest⟩ := Option.bind_eq_some_iff.mp he
    have hu' : s ∉ u.released := fun hmem => hnot (released_exec hrest hmem)
    exact ih (.step h trivial hu) hrest (active_step (reach_isolated h).2 hu hs hu')

/-! ## No two at once -/

/-- In every reachable state a running action belongs to the session that is active in
`transactiond`, and between two moments at which actions of a session run, no action of another
session runs. -/
theorem actions_isolated {w : World} (h : system.Reach w) :
    (∀ s, w.Runs s → w.transactiond.active = some s) ∧
      ∀ as bs w₁ w₂ a b, system.exec w as = some w₁ → system.exec w₁ bs = some w₂ →
        w.Runs a → w₂.Runs a → w₁.Runs b → b = a := by
  refine ⟨fun s => runs_active h, ?_⟩
  intro as bs w₁ w₂ a b h₁ h₂ hfirst hlast hb
  have hr₁ : system.Reach w₁ := Machine.Reach.exec h h₁
  have hr₂ : system.Reach w₂ := Machine.Reach.exec hr₁ h₂
  have hnot : a ∉ w₁.released := fun hmem => (reach_isolated hr₂).1.runs hlast (released_exec h₂ hmem)
  have hactive := active_exec h h₁ (runs_active h hfirst) hnot
  exact Option.some.inj ((runs_active hr₁ hb).symm.trans hactive)

/-- A client that creates a session and calls a service for it; the object made for the call is `i`. -/
def entering (client session service call i : Nat) : List Action :=
  [.create client, .deliver (.create client), .deliver (.created client session),
    .call session service, .deliver (.call ⟨call, service, session, none⟩),
    .deliver (.query i session)]

/-- The action of session 1 on the service 7 calls the service 8 for its session, while session 2
waits for the lock. -/
theorem actions_isolated_nested :
    ∃ w w₁ w₂, system.exec init (entering 0 1 7 0 0 ++ [Action.deliver (.queryRet 0 1)]) = some w ∧
      system.exec w (entering 5 2 8 1 1) = some w₁ ∧
      system.exec w₁ [.nested 0 8, .deliver (.call ⟨2, 8, 1, some 0⟩), .deliver (.query 2 1),
        .deliver (.queryRet 2 1)] = some w₂ ∧
      w.Runs 1 ∧ w₂.Runs 1 ∧ w.transactiond.active = some 1 ∧ ∀ b, w₁.Runs b → b = 1 := by
  have hrun : ∃ w ∈ system.exec init (entering 0 1 7 0 0 ++ [Action.deliver (.queryRet 0 1)]), w.Runs 1 ∧
      ∃ w₁ ∈ system.exec w (entering 5 2 8 1 1),
      ∃ w₂ ∈ system.exec w₁ [.nested 0 8, .deliver (.call ⟨2, 8, 1, some 0⟩), .deliver (.query 2 1),
        .deliver (.queryRet 2 1)], w₂.Runs 1 := by
    decide +kernel
  obtain ⟨w, hw, hruns, w₁, hw₁, w₂, hw₂, hruns₂⟩ := hrun
  obtain ⟨hactive, hbetween⟩ := actions_isolated (Machine.Reach.exec (.start rfl) hw)
  exact ⟨w, w₁, w₂, hw, hw₁, hw₂, hruns, hruns₂, hactive 1 hruns, fun b =>
    hbetween _ _ w₁ w₂ 1 b hw₁ hw₂ hruns hruns₂⟩

end World

end AntServer.Transaction
