/-
# AntServer.Transaction.Transactiond — the lock service of the transactions

The requests of `service/common/transactiond.lua` over its `session_pool`. A request is named by an
identifier `ρ` of the sender's choice, so the same model serves a single stream of requests and a
system of services that send them.

`skynet.response()` makes a closure that answers its request once: a second call raises. The
closures that were made and not yet called are `unresponse`, and `sent` records every answer with
the session that is active when it is sent. A request that raises keeps what it has done so far.
-/
import AntServer.Lib.Table

namespace AntServer.Transaction

open Lib (Table)

/-! ## The tables of the service -/

/-- The number `transaction.create` hands out. -/
abbrev Session := Nat

inductive Error (ρ : Type) where
  /-- "Can't response more than once" -/
  | moreThanOnce (resp : ρ)
  /-- `ipairs` of a nil -/
  | badArgument

/-- The `session_pool` of the service, and its answers. -/
structure Pool (ρ : Type) where
  id : Nat
  active : Option Session
  session : Table Session (List ρ)
  queue : List Session
  link : Table Session (List ρ)
  unresponse : List ρ
  sent : List (ρ × Option Session)

abbrev PoolM (ρ : Type) := EStateM (Error ρ) (Pool ρ)

variable {ρ : Type}

/-- The pool a request ends in, whether it returned or raised. -/
def after {α : Type} : EStateM.Result (Error ρ) (Pool ρ) α → Pool ρ
  | .ok _ t => t
  | .error _ t => t

@[simp] theorem after_ok {α : Type} (a : α) (t : Pool ρ) :
    after (.ok a t : EStateM.Result (Error ρ) (Pool ρ) α) = t := rfl
@[simp] theorem after_error {α : Type} (e : Error ρ) (t : Pool ρ) :
    after (.error e t : EStateM.Result (Error ρ) (Pool ρ) α) = t := rfl

/-- `session_pool` as the service starts. -/
def Pool.init : Pool ρ where
  id := 0
  active := none
  session := .empty
  queue := []
  link := .empty
  unresponse := []
  sent := []

/-! ## Answers -/

section Answers

variable [DecidableEq ρ]

/-- `skynet.ret()`: answer the request that is handled. -/
def ret (req : ρ) : PoolM ρ Unit := modify fun t => { t with sent := t.sent ++ [(req, t.active)] }

/-- `skynet.response()`. -/
def response (req : ρ) : PoolM ρ ρ :=
  modifyGet fun t => (req, { t with unresponse := t.unresponse ++ [req] })

/-- `resp(true)`. -/
def resp (r : ρ) : PoolM ρ Unit := do
  let t ← get
  if r ∈ t.unresponse then
    set { t with unresponse := t.unresponse.erase r, sent := t.sent ++ [(r, t.active)] }
  else
    throw (.moreThanOnce r)

/-- `for _, resp in ipairs(q) do resp(true) end` -/
def respAll : List ρ → PoolM ρ Unit
  | [] => pure ()
  | r :: rs => do
    resp r
    respAll rs

/-! ## Requests -/

/-- `transaction.create` -/
def create (req : ρ) : PoolM ρ Session := do
  let t ← get
  set { t with id := t.id + 1 }
  ret req
  return t.id + 1

/-- The first half of `transaction.release`: the first session of the queue becomes active. -/
def activate : PoolM ρ Unit := do
  let t ← get
  set { t with queue := t.queue.tail, active := t.queue.head? }
  match t.queue.head? with
  | none => pure ()
  | some session =>
    match t.session.get session with
    | none => throw .badArgument
    | some q => respAll q

/-- The second half of `transaction.release`: whoever has linked the session is told. -/
def unlink (session : Session) : PoolM ρ Unit := do
  match (← get).link.get session with
  | none => pure ()
  | some q =>
    respAll q
    modify fun t => { t with link := t.link.del session }

/-- `transaction.release` -/
def release (session : Session) (req : ρ) : PoolM ρ Unit := do
  if (← get).active = some session then
    activate
  unlink session
  ret req

/-- `transaction.link` -/
def link (session : Session) (req : ρ) : PoolM ρ Unit := do
  let resp ← response req
  modify fun t =>
    match t.link.get session with
    | some q => { t with link := t.link.set session (q ++ [resp]) }
    | none => { t with link := t.link.set session [resp] }

/-- `transaction.query`. The session goes into the queue at every query that has to wait. -/
def query (session : Session) (req : ρ) : PoolM ρ Unit := do
  let t ← get
  match t.active with
  | none =>
    set { t with active := some session }
    ret req
  | some active =>
    if active = session then
      ret req
    else
      let resp ← response req
      modify fun t =>
        match t.session.get session with
        | some q => { t with session := t.session.set session (q ++ [resp]) }
        | none => { t with session := t.session.set session [resp] }
      modify fun t => { t with queue := t.queue ++ [session] }

/-! ## What a request does -/

/-- The responses `q` were called. -/
def Pool.answered (t : Pool ρ) (q : List ρ) : Pool ρ :=
  { t with unresponse := q.foldl List.erase t.unresponse, sent := t.sent ++ q.map fun r => (r, t.active) }

/-- Nobody is answered. -/
theorem answered_nil (t : Pool ρ) : t.answered [] = t := by
  simp [Pool.answered]

/-- One answer after the other. -/
theorem answered_cons (t : Pool ρ) (r : ρ) (rs : List ρ) :
    (t.answered [r]).answered rs = t.answered (r :: rs) := by
  simp [Pool.answered]

/-- A response closure may be called once. -/
theorem resp_eq (r : ρ) (t : Pool ρ) :
    resp r t = if r ∈ t.unresponse then .ok () (t.answered [r]) else .error (.moreThanOnce r) t := by
  unfold resp
  show EStateM.bind EStateM.get _ t = _
  simp only [EStateM.bind, show EStateM.get t = .ok t t from rfl]
  split <;> rfl

/-- Calling the responses in turn answers a first part of them: all, or those before one that was
called before. -/
theorem respAll_after (q : List ρ) (t : Pool ρ) :
    ∃ p, p <+: q ∧ after (respAll q t) = t.answered p := by
  induction q generalizing t with
  | nil => exact ⟨[], List.prefix_refl _, (answered_nil t).symm⟩
  | cons r rs ih =>
    show ∃ p, p <+: r :: rs ∧ after (EStateM.bind (resp r) _ t) = _
    by_cases hr : r ∈ t.unresponse
    · obtain ⟨p, hp, h⟩ := ih (t.answered [r])
      refine ⟨r :: p, List.cons_prefix_cons.mpr ⟨rfl, hp⟩, ?_⟩
      simp only [EStateM.bind, resp_eq, if_pos hr]
      rw [h, answered_cons]
    · refine ⟨[], List.nil_prefix, ?_⟩
      simp only [EStateM.bind, resp_eq, if_neg hr, answered_nil, after_error]

/-- Responses of which none was called are all answered. -/
theorem respAll_ok {q : List ρ} {t : Pool ρ} (hnd : q.Nodup) (hq : ∀ r ∈ q, r ∈ t.unresponse) :
    respAll q t = .ok () (t.answered q) := by
  induction q generalizing t with
  | nil => rw [answered_nil]; rfl
  | cons r rs ih =>
    have hr := hq r List.mem_cons_self
    have hrest : ∀ x ∈ rs, x ∈ (t.answered [r]).unresponse := by
      intro x hx
      have hne : x ≠ r := fun h => (List.nodup_cons.mp hnd).1 (h ▸ hx)
      exact (List.mem_erase_of_ne hne).mpr (hq x (List.mem_cons_of_mem _ hx))
    show EStateM.bind (resp r) _ t = _
    simp only [EStateM.bind, resp_eq, if_pos hr]
    rw [ih (List.nodup_cons.mp hnd).2 hrest, answered_cons]

/-- Who is not among the answered still waits. -/
theorem mem_answered_unresponse {t : Pool ρ} {q : List ρ} {r : ρ} (hr : r ∈ t.unresponse)
    (hq : r ∉ q) : r ∈ (t.answered q).unresponse := by
  show r ∈ q.foldl List.erase t.unresponse
  rw [← List.diff_eq_foldl]
  exact List.mem_diff_of_mem hr hq

omit [DecidableEq ρ] in
/-- `skynet.response` notes one more request to answer. -/
theorem response_eq (req : ρ) (t : Pool ρ) :
    response req t = .ok req { t with unresponse := t.unresponse ++ [req] } := rfl

omit [DecidableEq ρ] in
/-- A change of the tables. -/
theorem modify_eq (f : Pool ρ → Pool ρ) (t : Pool ρ) :
    (modify f : PoolM ρ Unit) t = .ok () (f t) := rfl

/-! ### `link` and `query` -/

omit [DecidableEq ρ] in
/-- `link` notes who waits for the end of the session. -/
theorem link_eq (s : Session) (req : ρ) (t : Pool ρ) :
    link s req t = .ok () { t with
      unresponse := t.unresponse ++ [req]
      link := t.link.set s ((t.link.get s).getD [] ++ [req]) } := by
  unfold link
  cases h : t.link.get s <;> simp [bind, EStateM.bind, response_eq, modify_eq, h]

omit [DecidableEq ρ] in
/-- The three cases of a query: the lock is free, the session has it, or the query waits. -/
theorem query_cases (s : Session) (req : ρ) (t : Pool ρ) :
    (t.active = none ∧
      query s req t = .ok () { t with active := some s, sent := t.sent ++ [(req, some s)] }) ∨
    (t.active = some s ∧ query s req t = .ok () { t with sent := t.sent ++ [(req, some s)] }) ∨
    ∃ a, t.active = some a ∧ a ≠ s ∧
      query s req t = .ok () { t with
        unresponse := t.unresponse ++ [req]
        session := t.session.set s ((t.session.get s).getD [] ++ [req])
        queue := t.queue ++ [s] } := by
  unfold query
  show _ ∧ EStateM.bind EStateM.get _ t = _ ∨ _ ∧ EStateM.bind EStateM.get _ t = _ ∨
    ∃ a, _ ∧ _ ∧ EStateM.bind EStateM.get _ t = _
  simp only [EStateM.bind, show EStateM.get t = .ok t t from rfl]
  cases h : t.active with
  | none => exact .inl ⟨rfl, rfl⟩
  | some a =>
    by_cases ha : a = s
    · subst ha
      refine .inr (.inl ⟨rfl, ?_⟩)
      simp only [if_pos]
      rw [← h]
      rfl
    · refine .inr (.inr ⟨a, rfl, ha, ?_⟩)
      simp only [if_neg ha]
      cases hq : t.session.get s <;> simp [bind, EStateM.bind, response_eq, modify_eq, hq, h]

/-- The first session of the queue is active. -/
def Pool.next (t : Pool ρ) : Pool ρ := { t with queue := t.queue.tail, active := t.queue.head? }

/-- The responses that wait for the first session of the queue. -/
def Pool.waiters (t : Pool ρ) : List ρ := (t.queue.head?.bind t.session.get).getD []

/-- The responses that are called when a session is released. -/
def Pool.linked (t : Pool ρ) (s : Session) : List ρ := (t.link.get s).getD []

/-! ### `activate` and `unlink` -/

/-- `activate` answers the waiters of the head, or a part of them before an error. -/
theorem activate_after (t : Pool ρ) :
    ∃ p, p <+: t.waiters ∧ after (activate t) = t.next.answered p := by
  unfold activate Pool.waiters
  show ∃ p, _ ∧ after (EStateM.bind EStateM.get _ t) = _
  simp only [EStateM.bind, show EStateM.get t = .ok t t from rfl]
  cases hs : t.queue.head? with
  | none =>
    refine ⟨[], List.nil_prefix, ?_⟩
    simp [Pool.next, hs, answered_nil]
    rfl
  | some s =>
    cases hq : t.session.get s with
    | none =>
      refine ⟨[], List.nil_prefix, ?_⟩
      simp [Pool.next, hs, hq, answered_nil]
      rfl
    | some q =>
      obtain ⟨p, hp, h⟩ := respAll_after q t.next
      refine ⟨p, by simpa [hq] using hp, ?_⟩
      rw [← h]
      simp only [Pool.next, hs, hq]
      rfl

/-- It answers all of them if the head has a session and each of them waits once. -/
theorem activate_ok {t : Pool ρ} (hnext : ∀ s ∈ t.queue.head?, (t.session.get s).isSome)
    (hnd : t.waiters.Nodup) (hq : ∀ r ∈ t.waiters, r ∈ t.unresponse) :
    activate t = .ok () (t.next.answered t.waiters) := by
  unfold activate
  show EStateM.bind EStateM.get _ t = _
  simp only [EStateM.bind, show EStateM.get t = .ok t t from rfl]
  unfold Pool.waiters at hnd hq ⊢
  cases hs : t.queue.head? with
  | none => simp [Pool.next, hs, answered_nil]; rfl
  | some s =>
    obtain ⟨q, hget⟩ := Option.isSome_iff_exists.mp (hnext s hs)
    simp only [hs, Option.bind_some, hget, Option.getD_some] at hnd hq ⊢
    rw [← respAll_ok (t := t.next) hnd hq]
    simp only [Pool.next, hs]
    rfl

/-- Nobody is linked to the session any more. -/
def Pool.unlinked (t : Pool ρ) (s : Session) : Pool ρ := { t with link := t.link.del s }

/-- `unlink` answers those that are linked, or a part of them before an error. -/
theorem unlink_after (s : Session) (t : Pool ρ) :
    ∃ p, p <+: t.linked s ∧
      (after (unlink s t) = t.answered p ∨ after (unlink s t) = (t.answered p).unlinked s) := by
  unfold unlink Pool.linked
  show ∃ p, _ ∧ (after (EStateM.bind EStateM.get _ t) = _ ∨ after (EStateM.bind EStateM.get _ t) = _)
  simp only [EStateM.bind, show EStateM.get t = .ok t t from rfl]
  cases hl : t.link.get s with
  | none => exact ⟨[], List.nil_prefix, .inl (answered_nil t).symm⟩
  | some q =>
    obtain ⟨p, hp, h⟩ := respAll_after q t
    refine ⟨p, hp, ?_⟩
    show after (EStateM.bind (respAll q) _ t) = _ ∨ after (EStateM.bind (respAll q) _ t) = _
    unfold EStateM.bind
    cases hrun : respAll q t with
    | ok _ t' =>
      rw [hrun] at h
      exact .inr (congrArg (Pool.unlinked · s) h)
    | error e t' =>
      rw [hrun] at h
      exact .inl h

/-- It answers all of them if each of them waits once. -/
theorem unlink_ok {s : Session} {t : Pool ρ} (hnd : (t.linked s).Nodup)
    (hq : ∀ r ∈ t.linked s, r ∈ t.unresponse) :
    ∃ t', unlink s t = .ok () t' ∧ t'.link.get s = none ∧
      (t' = t.answered (t.linked s) ∨ t' = (t.answered (t.linked s)).unlinked s) := by
  unfold unlink
  show ∃ t', EStateM.bind EStateM.get _ t = _ ∧ _
  simp only [EStateM.bind, show EStateM.get t = .ok t t from rfl]
  unfold Pool.linked at hnd hq ⊢
  cases hl : t.link.get s with
  | none => exact ⟨t, rfl, hl, .inl (answered_nil t).symm⟩
  | some q =>
    rw [hl] at hnd hq
    refine ⟨(t.answered q).unlinked s, ?_, Table.get_del_self _ _, .inr rfl⟩
    show EStateM.bind (respAll q) _ t = _
    have hrun : respAll q t = .ok () (t.answered q) := respAll_ok hnd hq
    unfold EStateM.bind
    rw [hrun]
    rfl

/-- The session that a release of `s` leaves active. -/
def Pool.successor (t : Pool ρ) (s : Session) : Option Session :=
  if t.active = some s then t.queue.head? else t.active

/-- The queue that a release of `s` leaves. -/
def Pool.behind (t : Pool ρ) (s : Session) : List Session :=
  if t.active = some s then t.queue.tail else t.queue

/-! ### `release` -/

/-- What a release of `s` does, whether it returns or raises. -/
structure Released (s : Session) (req : ρ) (t t' : Pool ρ) : Prop where
  id : t'.id = t.id
  active : t'.active = t.successor s
  queue : t'.queue = t.behind s
  session : t'.session = t.session
  link : ∀ s' q, t'.link.get s' = some q → t.link.get s' = some q
  unresponse : ∀ r ∈ t.unresponse, (t.active = some s → r ∉ t.waiters) → r ∉ t.linked s →
    r ∈ t'.unresponse
  sent : ∃ p p' : List ρ, (∀ r ∈ p, t.active = some s ∧ r ∈ t.waiters) ∧
    (∀ r ∈ p', r = req ∨ r ∈ t.linked s) ∧
    t'.sent = t.sent ++ (p ++ p').map fun r => (r, t.successor s)

omit [DecidableEq ρ] in
/-- The other sessions keep their links. -/
theorem unlinked_link {t : Pool ρ} {s s' : Session} {q : List ρ}
    (h : (t.unlinked s).link.get s' = some q) : t.link.get s' = some q := by
  simp only [Pool.unlinked, Table.get_del] at h
  split at h
  · cases h
  · exact h

/-- The second half of a release, after a first half that has answered `p`. -/
theorem release_second {s : Session} {req : ρ} {t t₁ : Pool ρ} {p : List ρ}
    (hp : ∀ r ∈ p, t.active = some s ∧ r ∈ t.waiters) (hactive : t₁.active = t.successor s)
    (hqueue : t₁.queue = t.behind s) (hid : t₁.id = t.id)
    (hsession : t₁.session = t.session) (hlink : t₁.link = t.link)
    (hun : ∀ r ∈ t.unresponse, r ∉ p → r ∈ t₁.unresponse)
    (hsent : t₁.sent = t.sent ++ p.map fun r => (r, t.successor s)) :
    Released s req t (after (EStateM.bind (unlink s) (fun _ => ret req) t₁)) := by
  obtain ⟨p', hp', hafter⟩ := unlink_after s t₁
  have hp'mem : ∀ r ∈ p', r ∈ t.linked s := by
    intro r hr
    simpa [Pool.linked, hlink] using hp'.subset hr
  -- Whatever `ret` adds comes last.
  have main : ∀ t₂ : Pool ρ, (t₂ = t₁.answered p' ∨ t₂ = (t₁.answered p').unlinked s) →
      ∀ tail : List ρ, (∀ r ∈ tail, r = req) →
      Released s req t { t₂ with sent := t₂.sent ++ tail.map fun r => (r, t₂.active) } := by
    intro t₂ ht₂ tail htail
    have hsent₂ : t₂.sent = t.sent ++ (p ++ p').map fun r => (r, t.successor s) := by
      rcases ht₂ with rfl | rfl <;>
        simp [Pool.answered, Pool.unlinked, hsent, hactive]
    refine ⟨?_, ?_, ?_, ?_, ?_, ?_, p, p' ++ tail, hp, ?_, ?_⟩
    · rcases ht₂ with rfl | rfl <;> exact hid
    · rcases ht₂ with rfl | rfl <;> exact hactive
    · rcases ht₂ with rfl | rfl <;> exact hqueue
    · rcases ht₂ with rfl | rfl <;> exact hsession
    · intro s' q h
      rcases ht₂ with rfl | rfl
      · rw [← hlink]; exact h
      · rw [← hlink]; exact unlinked_link h
    · intro r hr hw hl
      have hr₁ := hun r hr fun hrp => hw (hp r hrp).1 (hp r hrp).2
      have hr₂ : r ∈ (t₁.answered p').unresponse :=
        mem_answered_unresponse hr₁ fun hrp => hl (hp'mem r hrp)
      rcases ht₂ with rfl | rfl <;> exact hr₂
    · intro r hr
      rcases List.mem_append.mp hr with hr | hr
      · exact .inr (hp'mem r hr)
      · exact .inl (htail r hr)
    · have hact₂ : t₂.active = t.successor s := by
        rcases ht₂ with rfl | rfl <;> exact hactive
      simp [hsent₂, hact₂]
  unfold EStateM.bind
  cases hrun : unlink s t₁ with
  | ok _ t₂ =>
    rw [hrun] at hafter
    exact main t₂ hafter [req] (by simp)
  | error e t₂ =>
    rw [hrun] at hafter
    simpa using main t₂ hafter [] (by simp)

/-- What a `release` leaves, however far it came. -/
theorem release_after (s : Session) (req : ρ) (t : Pool ρ) :
    Released s req t (after (release s req t)) := by
  unfold release
  show Released s req t (after (EStateM.bind EStateM.get _ t))
  simp only [EStateM.bind, show EStateM.get t = .ok t t from rfl]
  by_cases hs : t.active = some s
  · simp only [if_pos hs]
    obtain ⟨p, hp, hafter⟩ := activate_after t
    show Released s req t (after (EStateM.bind activate _ t))
    unfold EStateM.bind
    have hun : ∀ r ∈ t.unresponse, r ∉ p → r ∈ (t.next.answered p).unresponse :=
      fun r hr hrp => mem_answered_unresponse hr hrp
    have hmem : ∀ r ∈ p, t.active = some s ∧ r ∈ t.waiters := fun r hr => ⟨hs, hp.subset hr⟩
    have hsucc : t.queue.head? = t.successor s := (if_pos hs).symm
    have hbehind : t.queue.tail = t.behind s := (if_pos hs).symm
    have hsent : (t.next.answered p).sent = t.sent ++ p.map fun r => (r, t.successor s) := by
      rw [← hsucc]; rfl
    cases hrun : activate t with
    | ok _ t₁ =>
      rw [hrun] at hafter
      cases hafter
      exact release_second hmem hsucc hbehind rfl rfl rfl hun hsent
    | error e t₁ =>
      rw [hrun] at hafter
      cases hafter
      refine ⟨rfl, hsucc, hbehind, rfl, fun _ _ h => h, ?_, p, [], hmem, by simp, ?_⟩
      · intro r hr hw _
        exact hun r hr fun hrp => hw hs (hp.subset hrp)
      · rw [List.append_nil]
        exact hsent
  · simp only [if_neg hs]
    refine release_second (p := []) (by simp) (if_neg hs).symm (if_neg hs).symm rfl rfl rfl
      (fun _ h _ => h) (by simp)

/-- The responses that a release of `s` calls for the session it activates. -/
def Pool.called (t : Pool ρ) (s : Session) : List ρ := if t.active = some s then t.waiters else []

/-- A release whose responses were not called before returns, and has called them all. -/
theorem release_ok {s : Session} (req : ρ) {t : Pool ρ}
    (hnext : ∀ s ∈ t.queue.head?, (t.session.get s).isSome)
    (hnd : (t.called s ++ t.linked s).Nodup)
    (hq : ∀ r ∈ t.called s ++ t.linked s, r ∈ t.unresponse) :
    ∃ t', release s req t = .ok () t' ∧ t'.link.get s = none ∧
      t'.sent = t.sent ++ (t.called s ++ t.linked s ++ [req]).map fun r => (r, t.successor s) := by
  obtain ⟨hndc, hndl, hdisj⟩ := List.nodup_append'.mp hnd
  unfold release
  show ∃ t', EStateM.bind EStateM.get _ t = _ ∧ _
  simp only [EStateM.bind, show EStateM.get t = .ok t t from rfl]
  -- The second half, from the state the first half has left.
  have second : ∀ t₁ : Pool ρ, t₁.link = t.link → t₁.active = t.successor s →
      (∀ r ∈ t.linked s, r ∈ t₁.unresponse) →
      t₁.sent = t.sent ++ (t.called s).map (fun r => (r, t.successor s)) →
      ∃ t', EStateM.bind (unlink s) (fun _ => ret req) t₁ = .ok () t' ∧ t'.link.get s = none ∧
        t'.sent = t.sent ++ (t.called s ++ t.linked s ++ [req]).map fun r => (r, t.successor s) := by
    intro t₁ hlink hact hun hsent
    have hl : t₁.linked s = t.linked s := by unfold Pool.linked; rw [hlink]
    obtain ⟨t₂, hrun, hnone, ht₂⟩ := unlink_ok (s := s) (t := t₁) (by rwa [hl]) (by rwa [hl])
    refine ⟨{ t₂ with sent := t₂.sent ++ [(req, t₂.active)] }, ?_, hnone, ?_⟩
    · unfold EStateM.bind
      rw [hrun]
      rfl
    · have hact₂ : t₂.active = t.successor s := by rcases ht₂ with rfl | rfl <;> exact hact
      have hsent₂ : t₂.sent = t₁.sent ++ (t.linked s).map fun r => (r, t.successor s) := by
        rcases ht₂ with rfl | rfl <;> simp [Pool.answered, Pool.unlinked, hl, hact]
      simp [hsent₂, hsent, hact₂]
  by_cases hs : t.active = some s
  · have hcalled : t.called s = t.waiters := if_pos hs
    simp only [if_pos hs]
    rw [hcalled] at hndc
    have hrun := activate_ok hnext hndc fun r hr => hq r (List.mem_append_left _ (hcalled ▸ hr))
    show ∃ t', EStateM.bind activate _ t = _ ∧ _
    unfold EStateM.bind
    rw [hrun]
    refine second _ rfl (if_pos hs).symm ?_ ?_
    · intro r hr
      exact mem_answered_unresponse (hq r (List.mem_append_right _ hr))
        fun hw => hdisj (hcalled ▸ hw) hr
    · rw [hcalled, Pool.successor, if_pos hs]
      rfl
  · simp only [if_neg hs]
    refine second t rfl (if_neg hs).symm (fun r hr => hq r (List.mem_append_right _ hr)) ?_
    simp [Pool.called, hs]

end Answers

end AntServer.Transaction
