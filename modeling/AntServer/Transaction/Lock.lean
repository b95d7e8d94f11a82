/-
# AntServer.Transaction.Lock — transactiond as a lock: who is answered, and when

A run of `service/common/transactiond.lua` is a sequence of requests. The senders keep a discipline:
a session is released once, after all its queries were answered, and is not queried afterwards.
What the service promises them is `Lock`: a query is answered once and while its session is active,
the sessions that wait become active in the order of their first waiting query, and a release does
not raise.

The service keeps the promise in the runs in which no session is queried again while it waits
(`Unqueued`). Otherwise the session is in the queue twice, becomes active again after its release,
and its responses are called a second time.
-/
import AntServer.Lib.Machine
import AntServer.Transaction.Transactiond

namespace AntServer.Transaction

open Lib Lib.Machine

/-! ## Runs of requests -/

/-- The commands of the service. -/
inductive Request where
  | create
  | query (session : Session)
  | link (session : Session)
  | release (session : Session)
  deriving DecidableEq

variable {ρ : Type}

/-- The dispatch function of the service: `transaction[cmd](session)`. -/
def dispatch [DecidableEq ρ] (req : ρ) : Request → PoolM ρ Unit
  | .create => do
    let _ ← create req
    return ()
  | .query session => query session req
  | .link session => link session req
  | .release session => release session req

/-- A run of the service: its pool, and what can be seen of it from outside. -/
structure Run (ρ : Type) where
  pool : Pool ρ
  /-- the requests, in the order they were handled -/
  asked : List (ρ × Request)
  /-- the sessions that were not answered at once, in the order of their first such query -/
  waited : List Session
  /-- the sessions that became active when another one was released, in that order -/
  granted : List Session
  /-- the requests that raised an error -/
  raised : List ρ

namespace Run

def init : Run ρ := ⟨.init, [], [], [], []⟩

/-- The request was answered. -/
def Answered (r : Run ρ) (req : ρ) : Prop := req ∈ r.pool.sent.map Prod.fst

instance [DecidableEq ρ] (r : Run ρ) (req : ρ) : Decidable (r.Answered req) :=
  inferInstanceAs (Decidable (_ ∈ _))

/-- The session was released. -/
def Released (r : Run ρ) (s : Session) : Prop := Request.release s ∈ r.asked.map Prod.snd

instance (r : Run ρ) (s : Session) : Decidable (r.Released s) := inferInstanceAs (Decidable (_ ∈ _))

/-- What the senders keep to. -/
def Disciplined (r : Run ρ) : Request → Prop
  | .create => True
  | .link _ => True
  | .query s => ¬ r.Released s
  | .release s => ¬ r.Released s ∧ ∀ x ∈ r.asked, x.2 = .query s → r.Answered x.1

instance [DecidableEq ρ] (r : Run ρ) : (request : Request) → Decidable (r.Disciplined request)
  | .create | .link _ => .isTrue trivial
  | .query s => inferInstanceAs (Decidable (¬ r.Released s))
  | .release s =>
    inferInstanceAs (Decidable (¬ r.Released s ∧ ∀ x ∈ r.asked, x.2 = .query s → r.Answered x.1))

/-- The sessions that wait, after a request. -/
def waitedAfter [DecidableEq ρ] (r : Run ρ) (req : ρ) (pool : Pool ρ) : Request → List Session
  | .query s => if req ∉ pool.sent.map Prod.fst ∧ s ∉ r.waited then r.waited ++ [s] else r.waited
  | _ => r.waited

/-- The sessions that became active at a release, after a request. -/
def grantedAfter (r : Run ρ) (pool : Pool ρ) : Request → List Session
  | .release s => if r.pool.active = some s then r.granted ++ pool.active.toList else r.granted
  | _ => r.granted

/-- Handle a request: a fresh one, of a sender that keeps to the discipline. -/
def step [DecidableEq ρ] (r : Run ρ) (a : ρ × Request) : Option (Run ρ) :=
  if a.1 ∉ r.asked.map Prod.fst ∧ r.Disciplined a.2 then
    let result := dispatch a.1 a.2 r.pool
    let pool := after result
    some
      { pool := pool
        asked := r.asked ++ [a]
        waited := r.waitedAfter a.1 pool a.2
        granted := r.grantedAfter pool a.2
        raised := match result with
          | .ok _ _ => r.raised
          | .error _ _ => r.raised ++ [a.1] }
  else none

/-- The lock service as a machine. -/
def machine [DecidableEq ρ] : Machine (Run ρ) (ρ × Request) where
  start r := r = init
  step := step

/-! ## What the lock promises -/

/-- What the service promises. -/
structure Lock [DecidableEq ρ] (r : Run ρ) : Prop where
  /-- a query is answered at most once -/
  once : ∀ req s, (req, .query s) ∈ r.asked → (r.pool.sent.map Prod.fst).count req ≤ 1
  /-- a query is answered while its session is active -/
  whileActive : ∀ req s a, (req, .query s) ∈ r.asked → (req, a) ∈ r.pool.sent → a = some s
  /-- a query that is not answered waits for its session, in the queue behind another one -/
  waits : ∀ req s, (req, .query s) ∈ r.asked →
    r.Answered req ∨ s ∈ r.pool.queue ∧ ∃ a, r.pool.active = some a ∧ a ≠ s
  /-- the active session is not a released one -/
  unreleased : ∀ s, r.pool.active = some s → ¬ r.Released s
  /-- the sessions become active in the order of their first waiting query -/
  inOrder : r.granted <+: r.waited
  /-- the lock is free only when nobody waits -/
  handedOn : r.pool.active = none → ∀ req s, (req, .query s) ∈ r.asked → r.Answered req
  /-- no request raises an error -/
  returns : r.raised = []

/-- The request does not query a session that waits. -/
def Unqueued (r : Run ρ) (a : ρ × Request) : Prop := ∀ s ∈ r.pool.queue, a.2 ≠ .query s

instance (r : Run ρ) (a : ρ × Request) : Decidable (r.Unqueued a) :=
  inferInstanceAs (Decidable (∀ s ∈ r.pool.queue, a.2 ≠ .query s))

/-! ## The invariant -/

/-- The queue holds each session that waits once; its responses, and those of the links, were not
called yet; and what was promised so far was kept. -/
structure Orderly (r : Run ρ) : Prop where
  named : ∀ x ∈ r.asked, ∀ y ∈ r.asked, x.1 = y.1 → x = y
  sentAsked : ∀ x ∈ r.pool.sent, x.1 ∈ r.asked.map Prod.fst
  sentNodup : (r.pool.sent.map Prod.fst).Nodup
  whileActive : ∀ x ∈ r.pool.sent, ∀ s, (x.1, .query s) ∈ r.asked → x.2 = some s
  queueNodup : r.pool.queue.Nodup
  behind : ∀ s, r.pool.active = some s → s ∉ r.pool.queue
  idle : r.pool.active = none → r.pool.queue = []
  unreleased : ∀ s, s ∈ r.pool.queue ∨ r.pool.active = some s → ¬ r.Released s
  waiting : ∀ s ∈ r.pool.queue, ∃ q, r.pool.session.get s = some q ∧ q ≠ []
  stored : ∀ s q, r.pool.session.get s = some q →
    q.Nodup ∧ (∀ req ∈ q, (req, .query s) ∈ r.asked) ∧
      (s ∈ r.pool.queue ∨ r.pool.active = some s ∨ r.Released s)
  uncalled : ∀ s ∈ r.pool.queue, ∀ q, r.pool.session.get s = some q →
    ∀ req ∈ q, req ∈ r.pool.unresponse ∧ ¬ r.Answered req
  linked : ∀ s q, r.pool.link.get s = some q →
    q.Nodup ∧ ∀ req ∈ q, (req, .link s) ∈ r.asked ∧ req ∈ r.pool.unresponse ∧ ¬ r.Answered req
  pending : ∀ req s, (req, .query s) ∈ r.asked →
    r.Answered req ∨ s ∈ r.pool.queue ∧ req ∈ (r.pool.session.get s).getD []
  order : r.waited = r.granted ++ r.pool.queue
  grantedOnce : ∀ s ∈ r.granted, r.pool.active = some s ∨ r.Released s
  returns : r.raised = []

theorem Orderly.lock [DecidableEq ρ] {r : Run ρ} (h : r.Orderly) : r.Lock where
  once _ _ _ := List.nodup_iff_count_le_one.mp h.sentNodup _
  whileActive req s a hreq ha := h.whileActive (req, a) ha s hreq
  waits req s hreq := by
    refine (h.pending req s hreq).imp id fun hw => ⟨hw.1, ?_⟩
    cases ha : r.pool.active with
    | none => rw [h.idle ha] at hw; exact absurd hw.1 List.not_mem_nil
    | some a => exact ⟨a, rfl, fun has => h.behind a ha (has ▸ hw.1)⟩
  unreleased s hs := h.unreleased s (.inr hs)
  inOrder := ⟨_, h.order.symm⟩
  handedOn hnone req s hreq := by
    refine (h.pending req s hreq).resolve_right fun hw => ?_
    rw [h.idle hnone] at hw
    exact List.not_mem_nil hw.1
  returns := h.returns

theorem init_orderly : (init : Run ρ).Orderly where
  named := by simp [init]
  sentAsked := by simp [init, Pool.init]
  sentNodup := List.nodup_nil
  whileActive := by simp [init, Pool.init]
  queueNodup := List.nodup_nil
  behind := by simp [init, Pool.init]
  idle _ := rfl
  unreleased := by simp [init, Pool.init]
  waiting := by simp [init, Pool.init]
  stored := by simp [init, Pool.init]
  uncalled := by simp [init, Pool.init]
  linked := by simp [init, Pool.init]
  pending := by simp [init]
  order := rfl
  grantedOnce := by simp [init]
  returns := rfl

/-! ## One request -/

section Step

variable {r : Run ρ} {a : ρ × Request}

/-- A request with a fresh identifier is told apart from the ones before it. -/
theorem named_append (h : ∀ x ∈ r.asked, ∀ y ∈ r.asked, x.1 = y.1 → x = y)
    (hfresh : a.1 ∉ r.asked.map Prod.fst) :
    ∀ x ∈ r.asked ++ [a], ∀ y ∈ r.asked ++ [a], x.1 = y.1 → x = y := by
  have hne : ∀ x ∈ r.asked, x.1 ≠ a.1 := fun x hx heq => hfresh (heq ▸ List.mem_map_of_mem hx)
  intro x hx y hy heq
  rcases List.mem_append.mp hx with hx | hx <;> rcases List.mem_append.mp hy with hy | hy
  · exact h x hx y hy heq
  · rw [List.mem_singleton.mp hy] at heq
    exact absurd heq (hne x hx)
  · rw [List.mem_singleton.mp hx] at heq
    exact absurd heq.symm (hne y hy)
  · rw [List.mem_singleton.mp hx, List.mem_singleton.mp hy]

theorem released_append {r' : Run ρ} (hasked : r'.asked = r.asked ++ [a]) (s : Session) :
    r'.Released s ↔ r.Released s ∨ a.2 = .release s := by
  unfold Released
  rw [hasked]
  simp [eq_comm]

theorem Orderly.unanswered (h : r.Orderly) (hfresh : a.1 ∉ r.asked.map Prod.fst) :
    ¬ r.Answered a.1 := by
  intro hans
  obtain ⟨x, hx, heq⟩ := List.mem_map.mp hans
  exact hfresh (heq ▸ h.sentAsked x hx)

/-- An identifier that was asked before and the fresh one are different. -/
theorem ne_fresh (hfresh : a.1 ∉ r.asked.map Prod.fst) {req : ρ} {request : Request}
    (hreq : (req, request) ∈ r.asked) : req ≠ a.1 :=
  fun heq => hfresh (heq ▸ List.mem_map_of_mem (f := Prod.fst) hreq)

/-- What was asked under an identifier that was used before, was asked before. -/
theorem asked_before (hfresh : a.1 ∉ r.asked.map Prod.fst) {x : ρ × Option Session}
    (hx : x.1 ∈ r.asked.map Prod.fst) {request : Request} (hreq : (x.1, request) ∈ r.asked ++ [a]) :
    (x.1, request) ∈ r.asked := by
  rcases List.mem_append.mp hreq with hreq | hreq
  · exact hreq
  · exact absurd hx (by rw [congrArg Prod.fst (List.mem_singleton.mp hreq)]; exact hfresh)

/-- A request that is answered at once, and leaves the queue and the responses alone. -/
theorem Orderly.atOnce (h : r.Orderly) (hfresh : a.1 ∉ r.asked.map Prod.fst)
    (hrelease : ∀ s, a.2 ≠ .release s) {pool : Pool ρ} {act : Option Session}
    (hqueue : pool.queue = r.pool.queue) (hsession : pool.session = r.pool.session)
    (hlink : pool.link = r.pool.link) (hun : pool.unresponse = r.pool.unresponse)
    (hsent : pool.sent = r.pool.sent ++ [(a.1, act)]) (hact : ∀ s, a.2 = .query s → act = some s)
    (hactive : pool.active = r.pool.active ∨
      r.pool.active = none ∧ ∃ s, pool.active = some s ∧ ¬ r.Released s) :
    Orderly { r with pool := pool, asked := r.asked ++ [a] } := by
  have hrel : ∀ s, Released { r with pool := pool, asked := r.asked ++ [a] } s ↔ r.Released s :=
    fun s => (released_append rfl s).trans (or_iff_left (hrelease s))
  have hans : ∀ req, Answered { r with pool := pool, asked := r.asked ++ [a] } req ↔
      r.Answered req ∨ req = a.1 := by
    intro req
    unfold Answered
    simp [hsent, eq_comm]
  -- Whoever was active is active, and nobody is in the queue when somebody else becomes active.
  have hkeep : ∀ s, r.pool.active = some s → pool.active = some s := by
    intro s hs
    rcases hactive with heq | ⟨hnone, -⟩
    · rw [heq, hs]
    · rw [hnone] at hs; cases hs
  refine ⟨named_append h.named hfresh, ?_, ?_, ?_, ?_, ?_, ?_, ?_, ?_, ?_, ?_, ?_, ?_, ?_, ?_,
    h.returns⟩
  · intro x hx
    rw [hsent, List.mem_append, List.mem_singleton] at hx
    rcases hx with hx | rfl
    · exact List.map_append .. ▸ List.mem_append_left _ (h.sentAsked x hx)
    · simp
  · show (pool.sent.map Prod.fst).Nodup
    rw [hsent, List.map_append]
    exact List.nodup_append'.mpr ⟨h.sentNodup, List.nodup_singleton _,
      List.disjoint_singleton.mpr (h.unanswered hfresh)⟩
  · intro x hx s hreq
    rw [hsent, List.mem_append, List.mem_singleton] at hx
    rcases hx with hx | rfl
    · exact h.whileActive x hx s (asked_before hfresh (h.sentAsked x hx) hreq)
    · rcases List.mem_append.mp hreq with hreq | hreq
      · exact absurd (List.mem_map_of_mem (f := Prod.fst) hreq) hfresh
      · exact hact s (congrArg Prod.snd (List.mem_singleton.mp hreq)).symm
  · exact hqueue ▸ h.queueNodup
  · intro s hs
    show s ∉ pool.queue
    rw [hqueue]
    rcases hactive with heq | ⟨hnone, -⟩
    · exact h.behind s (heq ▸ hs)
    · rw [h.idle hnone]; exact List.not_mem_nil
  · intro hnone
    show pool.queue = []
    rw [hqueue]
    rcases hactive with heq | ⟨hidle, -⟩
    · exact h.idle (heq ▸ hnone)
    · exact h.idle hidle
  · intro s hs
    rw [hrel]
    rcases hs with hs | hs
    · exact h.unreleased s (.inl (hqueue ▸ hs))
    · rcases hactive with heq | ⟨-, s', hs', hfree⟩
      · exact h.unreleased s (.inr (heq ▸ hs))
      · cases hs'.symm.trans hs
        exact hfree
  · intro s hs
    show ∃ q, pool.session.get s = some q ∧ q ≠ []
    rw [hsession]
    exact h.waiting s (hqueue ▸ hs)
  · intro s q hq
    rw [hsession] at hq
    obtain ⟨hnd, hasked, hplace⟩ := h.stored s q hq
    refine ⟨hnd, fun req hreq => List.mem_append_left _ (hasked req hreq), ?_⟩
    rw [hqueue, hrel]
    exact hplace.imp id (Or.imp (hkeep s) id)
  · intro s hs q hq req hreq
    rw [hsession] at hq
    have hold := h.uncalled s (hqueue ▸ hs) q hq req hreq
    refine ⟨hun ▸ hold.1, fun hnow => ?_⟩
    have hne := ne_fresh hfresh ((h.stored s q hq).2.1 req hreq)
    exact ((hans req).mp hnow).elim hold.2 hne
  · intro s q hq
    rw [hlink] at hq
    obtain ⟨hnd, hall⟩ := h.linked s q hq
    refine ⟨hnd, fun req hreq => ?_⟩
    obtain ⟨hasked, hcall, hfree⟩ := hall req hreq
    refine ⟨List.mem_append_left _ hasked, hun ▸ hcall, fun hnow => ?_⟩
    exact ((hans req).mp hnow).elim hfree (ne_fresh hfresh hasked)
  · intro req s hreq
    rw [hans, hqueue, hsession]
    rcases List.mem_append.mp hreq with hreq | hreq
    · exact (h.pending req s hreq).imp .inl id
    · exact .inl (.inr (congrArg Prod.fst (List.mem_singleton.mp hreq)))
  · rw [hqueue]
    exact h.order
  · intro s hs
    rw [hrel]
    exact (h.grantedOnce s hs).imp (hkeep s) id

/-- `link` only keeps the response. -/
theorem Orderly.link {req : ρ} {s : Session} (h : r.Orderly)
    (hfresh : req ∉ r.asked.map Prod.fst) :
    Orderly { r with
      pool := { r.pool with
        unresponse := r.pool.unresponse ++ [req]
        link := r.pool.link.set s ((r.pool.link.get s).getD [] ++ [req]) }
      asked := r.asked ++ [(req, .link s)] } := by
  have hun := h.unanswered (a := (req, .link s)) hfresh
  have hrel : ∀ s', Released { r with asked := r.asked ++ [(req, .link s)] } s' ↔ r.Released s' :=
    fun s' => (released_append rfl s').trans (or_iff_left nofun)
  refine ⟨named_append h.named hfresh, ?_, h.sentNodup, ?_, h.queueNodup, h.behind, h.idle, ?_,
    h.waiting, ?_, ?_, ?_, ?_, h.order, ?_, h.returns⟩
  · exact fun x hx => List.map_append .. ▸ List.mem_append_left _ (h.sentAsked x hx)
  · exact fun x hx s' hreq =>
      h.whileActive x hx s' (asked_before (a := (req, .link s)) hfresh (h.sentAsked x hx) hreq)
  · exact fun s' hs' => (hrel s').not.mpr (h.unreleased s' hs')
  · intro s' q hq
    obtain ⟨hnd, hasked, hplace⟩ := h.stored s' q hq
    exact ⟨hnd, fun x hx => List.mem_append_left _ (hasked x hx), hplace.imp id (Or.imp id (hrel s').mpr)⟩
  · intro s' hs' q hq x hx
    obtain ⟨hcall, hfree⟩ := h.uncalled s' hs' q hq x hx
    exact ⟨List.mem_append_left _ hcall, hfree⟩
  · intro s' q hq
    by_cases hs' : s' = s
    · subst hs'
      simp only [Table.get_set_self, Option.some.injEq] at hq
      subst hq
      have hold : ∀ x ∈ (r.pool.link.get s').getD [], (x, .link s') ∈ r.asked ∧
          x ∈ r.pool.unresponse ∧ ¬ r.Answered x := by
        cases hl : r.pool.link.get s' with
        | none => exact fun x hx => absurd hx List.not_mem_nil
        | some l => exact (h.linked s' l hl).2
      have hnd : ((r.pool.link.get s').getD []).Nodup := by
        cases hl : r.pool.link.get s' with
        | none => exact List.nodup_nil
        | some l => exact (h.linked s' l hl).1
      refine ⟨List.nodup_append'.mpr ⟨hnd, List.nodup_singleton _, ?_⟩, ?_⟩
      · exact List.disjoint_singleton.mpr fun hx =>
          hfresh (List.mem_map_of_mem (f := Prod.fst) (hold req hx).1)
      · intro x hx
        rcases List.mem_append.mp hx with hx | hx
        · obtain ⟨hasked, hcall, hfree⟩ := hold x hx
          exact ⟨List.mem_append_left _ hasked, List.mem_append_left _ hcall, hfree⟩
        · cases List.mem_singleton.mp hx
          exact ⟨by simp, by simp, hun⟩
    · simp only [Table.get_set_ne _ _ hs'] at hq
      obtain ⟨hnd, hall⟩ := h.linked s' q hq
      refine ⟨hnd, fun x hx => ?_⟩
      obtain ⟨hasked, hcall, hfree⟩ := hall x hx
      exact ⟨List.mem_append_left _ hasked, List.mem_append_left _ hcall, hfree⟩
  · intro x s' hreq
    rcases List.mem_append.mp hreq with hreq | hreq
    · exact h.pending x s' hreq
    · cases List.mem_singleton.mp hreq
  · exact fun s' hs' => (h.grantedOnce s' hs').imp id (hrel s').mpr

/-- A query of a session that neither waits nor was released: no responses of it are stored. -/
theorem Orderly.unstored {s : Session} (h : r.Orderly) (hfree : s ∉ r.pool.queue)
    (hact : r.pool.active ≠ some s) (hrel : ¬ r.Released s) : r.pool.session.get s = none := by
  cases hq : r.pool.session.get s with
  | none => rfl
  | some q => exact absurd (h.stored s q hq).2.2 (by simp [hfree, hact, hrel])

/-! ## A session that waits for the lock -/

/-- A query that has to wait puts its session at the end of the queue. -/
theorem Orderly.wait {req : ρ} {s : Session} (h : r.Orderly) (hfresh : req ∉ r.asked.map Prod.fst)
    (hfree : s ∉ r.pool.queue) (hact : r.pool.active ≠ some s) (hsome : r.pool.active ≠ none)
    (hunrel : ¬ r.Released s) :
    Orderly { r with
      pool := { r.pool with
        unresponse := r.pool.unresponse ++ [req]
        session := r.pool.session.set s ((r.pool.session.get s).getD [] ++ [req])
        queue := r.pool.queue ++ [s] }
      asked := r.asked ++ [(req, .query s)]
      waited := r.waited ++ [s] } := by
  have hun := h.unanswered (a := (req, .query s)) hfresh
  have hrel : ∀ s', Released { r with asked := r.asked ++ [(req, .query s)] } s' ↔ r.Released s' :=
    fun s' => (released_append rfl s').trans (or_iff_left nofun)
  have hget : ∀ s', s' ≠ s → ∀ l : List ρ, (r.pool.session.set s l).get s' = r.pool.session.get s' :=
    fun s' hs' l => Table.get_set_ne _ _ hs'
  rw [h.unstored hfree hact hunrel]
  refine ⟨named_append h.named hfresh, ?_, h.sentNodup, ?_, ?_, ?_, ?_, ?_, ?_, ?_, ?_, ?_, ?_, ?_,
    ?_, h.returns⟩
  · exact fun x hx => List.map_append .. ▸ List.mem_append_left _ (h.sentAsked x hx)
  · exact fun x hx s' hreq =>
      h.whileActive x hx s' (asked_before (a := (req, .query s)) hfresh (h.sentAsked x hx) hreq)
  · exact List.nodup_append'.mpr ⟨h.queueNodup, List.nodup_singleton _, List.disjoint_singleton.mpr hfree⟩
  · intro s' hs'
    simp only [List.mem_append, List.mem_singleton, not_or]
    exact ⟨h.behind s' hs', fun heq => hact (heq ▸ hs')⟩
  · exact fun hnone => absurd hnone hsome
  · intro s' hs'
    refine (hrel s').not.mpr ?_
    rcases hs' with hs' | hs'
    · rcases List.mem_append.mp hs' with hs' | hs'
      · exact h.unreleased s' (.inl hs')
      · rw [List.mem_singleton.mp hs']; exact hunrel
    · exact h.unreleased s' (.inr hs')
  · intro s' hs'
    by_cases heq : s' = s
    · subst heq
      exact ⟨[req], by simp, by simp⟩
    · rw [hget s' heq]
      exact h.waiting s' ((List.mem_append.mp hs').resolve_right (by simpa using heq))
  · intro s' q hq
    by_cases heq : s' = s
    · subst heq
      simp only [Option.getD_none, List.nil_append, Table.get_set_self, Option.some.injEq] at hq
      subst hq
      exact ⟨List.nodup_singleton _, by simp, by simp⟩
    · rw [hget s' heq] at hq
      obtain ⟨hnd, hasked, hplace⟩ := h.stored s' q hq
      refine ⟨hnd, fun x hx => List.mem_append_left _ (hasked x hx), ?_⟩
      exact hplace.imp (List.mem_append_left _) (Or.imp id (hrel s').mpr)
  · intro s' hs' q hq x hx
    by_cases heq : s' = s
    · subst heq
      simp only [Option.getD_none, List.nil_append, Table.get_set_self, Option.some.injEq] at hq
      subst hq
      rw [List.mem_singleton.mp hx]
      exact ⟨by simp, hun⟩
    · rw [hget s' heq] at hq
      obtain ⟨hcall, hnot⟩ := h.uncalled s'
        ((List.mem_append.mp hs').resolve_right (by simpa using heq)) q hq x hx
      exact ⟨List.mem_append_left _ hcall, hnot⟩
  · intro s' q hq
    obtain ⟨hnd, hall⟩ := h.linked s' q hq
    refine ⟨hnd, fun x hx => ?_⟩
    obtain ⟨hasked, hcall, hnot⟩ := hall x hx
    exact ⟨List.mem_append_left _ hasked, List.mem_append_left _ hcall, hnot⟩
  · intro x s' hreq
    rcases List.mem_append.mp hreq with hreq | hreq
    · refine (h.pending x s' hreq).imp id fun hp => ⟨List.mem_append_left _ hp.1, ?_⟩
      rw [hget s' fun heq => hfree (heq ▸ hp.1)]
      exact hp.2
    · cases List.mem_singleton.mp hreq
      exact .inr ⟨by simp, by simp⟩
  · show r.waited ++ [s] = r.granted ++ (r.pool.queue ++ [s])
    rw [h.order, List.append_assoc]
  · exact fun s' hs' => (h.grantedOnce s' hs').imp id (hrel s').mpr

/-! ### A release -/

/-- A session whose queries were all answered is not in the queue. -/
theorem Orderly.notQueued {s : Session} (h : r.Orderly)
    (hall : ∀ x ∈ r.asked, x.2 = .query s → r.Answered x.1) : s ∉ r.pool.queue := by
  intro hs
  obtain ⟨q, hq, hne⟩ := h.waiting s hs
  obtain ⟨x, hx⟩ := List.exists_mem_of_ne_nil q hne
  exact (h.uncalled s hs q hq x hx).2 (hall (x, .query s) ((h.stored s q hq).2.1 x hx) rfl)

/-- The responses of the session that a release of `s` activates. -/
theorem Orderly.of_called {s : Session} (h : r.Orderly) {x : ρ} (hx : x ∈ r.pool.called s) :
    ∃ next, r.pool.active = some s ∧ r.pool.successor s = some next ∧ next ∈ r.pool.queue ∧
      x ∈ (r.pool.session.get next).getD [] ∧ (x, .query next) ∈ r.asked ∧
      x ∈ r.pool.unresponse ∧ ¬ r.Answered x := by
  unfold Pool.called at hx
  split at hx
  · rename_i hs
    unfold Pool.waiters at hx
    cases hnext : r.pool.queue.head? with
    | none => rw [hnext] at hx; cases hx
    | some next =>
      have hmem := List.mem_of_head? hnext
      obtain ⟨q, hq, -⟩ := h.waiting next hmem
      simp only [hnext, Option.bind_some, hq, Option.getD_some] at hx
      obtain ⟨hcall, hnot⟩ := h.uncalled next hmem q hq x hx
      refine ⟨next, hs, (if_pos hs).trans hnext, hmem, ?_, (h.stored next q hq).2.1 x hx, hcall, hnot⟩
      rw [hq]
      exact hx
  · cases hx

theorem Orderly.of_linked {s : Session} (h : r.Orderly) {x : ρ} (hx : x ∈ r.pool.linked s) :
    (x, .link s) ∈ r.asked ∧ x ∈ r.pool.unresponse ∧ ¬ r.Answered x := by
  unfold Pool.linked at hx
  cases hl : r.pool.link.get s with
  | none => rw [hl] at hx; cases hx
  | some q =>
    rw [hl] at hx
    exact (h.linked s q hl).2 x hx

/-- An identifier names one request. -/
theorem Orderly.same (h : r.Orderly) {x : ρ} {b c : Request} (hb : (x, b) ∈ r.asked)
    (hc : (x, c) ∈ r.asked) : b = c :=
  congrArg Prod.snd (h.named (x, b) hb (x, c) hc rfl)

theorem Orderly.called_nodup (h : r.Orderly) (s : Session) : (r.pool.called s).Nodup := by
  unfold Pool.called
  split
  · unfold Pool.waiters
    cases hnext : r.pool.queue.head? with
    | none => exact List.nodup_nil
    | some next =>
      obtain ⟨q, hq, -⟩ := h.waiting next (List.mem_of_head? hnext)
      simp only [Option.bind_some, hq, Option.getD_some]
      exact (h.stored next q hq).1
  · exact List.nodup_nil

/-- The responses a release calls are different ones. -/
theorem Orderly.call_nodup (h : r.Orderly) (s : Session) :
    (r.pool.called s ++ r.pool.linked s).Nodup := by
  refine List.nodup_append'.mpr ⟨h.called_nodup s, ?_, ?_⟩
  · unfold Pool.linked
    cases hl : r.pool.link.get s with
    | none => exact List.nodup_nil
    | some q => exact (h.linked s q hl).1
  · intro x hx hx'
    obtain ⟨next, -, -, -, -, hasked, -⟩ := h.of_called hx
    cases h.same hasked (h.of_linked hx').1

/-! ## The queue behind a session -/

theorem mem_behind {t : Pool ρ} {s s' : Session} (hs' : s' ∈ t.behind s) : s' ∈ t.queue := by
  unfold Pool.behind at hs'
  split at hs'
  · exact List.mem_of_mem_tail hs'
  · exact hs'

/-- Whoever is in the queue is active after the release or still in the queue. -/
theorem queue_behind {t : Pool ρ} {s s' : Session} (hs' : s' ∈ t.queue) :
    s' ∈ t.behind s ∨ t.active = some s ∧ t.queue.head? = some s' := by
  unfold Pool.behind
  split
  · rename_i hs
    cases hq : t.queue with
    | nil => rw [hq] at hs'; cases hs'
    | cons x xs =>
      rw [hq] at hs'
      rcases List.mem_cons.mp hs' with rfl | hs'
      · exact .inr ⟨hs, rfl⟩
      · exact .inl hs'
  · exact .inl hs'

/-- The session that is active after a release was first in the queue, or was active and another one was
released. -/
theorem of_successor {t : Pool ρ} {s s' : Session} (hs' : t.successor s = some s') :
    t.active = some s ∧ t.queue.head? = some s' ∨ t.active = some s' ∧ s' ≠ s := by
  unfold Pool.successor at hs'
  split at hs'
  · exact .inl ⟨by assumption, hs'⟩
  · rename_i hne
    exact .inr ⟨hs', fun heq => hne (heq ▸ hs')⟩

/-- A session that stays in the queue was not the first in it when the active one is released. -/
theorem head_ne_of_behind {t : Pool ρ} {s s' : Session} (hnd : t.queue.Nodup) (hs : t.active = some s)
    (hs' : s' ∈ t.behind s) : t.queue.head? ≠ some s' := by
  rw [Pool.behind, if_pos hs] at hs'
  intro hhead
  cases hq : t.queue with
  | nil => rw [hq] at hs'; cases hs'
  | cons y ys =>
    rw [hq] at hhead hs' hnd
    cases hhead
    exact (List.nodup_cons.mp hnd).1 hs'

/-! ## The hand-over -/

/-- What a release of `s` that keeps to the discipline does: it calls the responses of the session it
activates and of the links, each for the first time, and answers itself. -/
structure Handover (r : Run ρ) (req : ρ) (s : Session) (pool : Pool ρ) : Prop where
  orderly : r.Orderly
  fresh : req ∉ r.asked.map Prod.fst
  notQueued : s ∉ r.pool.queue
  frame : Transaction.Released s req r.pool pool
  unlinked : pool.link.get s = none
  sent : pool.sent = r.pool.sent ++
    (r.pool.called s ++ r.pool.linked s ++ [req]).map fun x => (x, r.pool.successor s)

/-- The responses a release calls were asked for and were not called. -/
theorem Orderly.of_call (h : r.Orderly) {s : Session} {x : ρ} (hx : x ∈ r.pool.called s ++ r.pool.linked s) :
    x ∈ r.pool.unresponse ∧ ¬ r.Answered x ∧ x ∈ r.asked.map Prod.fst := by
  rcases List.mem_append.mp hx with hx | hx
  · obtain ⟨next, -, -, -, -, hasked, hcall, hnot⟩ := h.of_called hx
    exact ⟨hcall, hnot, List.mem_map_of_mem (f := Prod.fst) hasked⟩
  · obtain ⟨hasked, hcall, hnot⟩ := h.of_linked hx
    exact ⟨hcall, hnot, List.mem_map_of_mem (f := Prod.fst) hasked⟩

namespace Handover

variable {req : ρ} {s : Session} {pool : Pool ρ}

/-- The run after the release. -/
abbrev next (r : Run ρ) (req : ρ) (s : Session) (pool : Pool ρ) : Run ρ :=
  { r with
    pool := pool
    asked := r.asked ++ [(req, .release s)]
    granted := r.grantedAfter pool (.release s) }

theorem released_iff (s' : Session) : (next r req s pool).Released s' ↔ r.Released s' ∨ s' = s := by
  refine (released_append (r := r) rfl s').trans (or_congr_right ?_)
  simp [eq_comm]

/-- Answered now: answered before, or called by this release, or the release itself. -/
theorem answered_iff (h : Handover r req s pool) (x : ρ) : (next r req s pool).Answered x ↔
    r.Answered x ∨ x ∈ r.pool.called s ++ r.pool.linked s ∨ x = req := by
  unfold Answered
  show x ∈ pool.sent.map Prod.fst ↔ _
  rw [h.sent]
  simp [or_assoc]

/-- What was asked before and is neither answered nor called now is still to be answered, and can be. -/
theorem uncalled (h : Handover r req s pool) {x : ρ} {request : Request} (hasked : (x, request) ∈ r.asked)
    (hcall : x ∈ r.pool.unresponse) (hnot : ¬ r.Answered x)
    (hnow : x ∉ r.pool.called s ++ r.pool.linked s) :
    x ∈ pool.unresponse ∧ ¬ (next r req s pool).Answered x := by
  constructor
  · rw [List.mem_append, not_or] at hnow
    refine h.frame.unresponse x hcall (fun hs hw => hnow.1 ?_) hnow.2
    rw [Pool.called, if_pos hs]
    exact hw
  · rw [h.answered_iff]
    rintro (hold | hx | heq)
    · exact hnot hold
    · exact hnow hx
    · exact ne_fresh (a := (req, .release s)) h.fresh hasked heq

/-- Of the queries that wait, only those of the first session in the queue are called. -/
theorem not_called (h : Handover r req s pool) {x : ρ} {s' : Session} (hasked : (x, .query s') ∈ r.asked)
    (hs' : s' ∈ r.pool.behind s) : x ∉ r.pool.called s ++ r.pool.linked s := by
  intro hx
  rcases List.mem_append.mp hx with hx | hx
  · obtain ⟨next, hs, hnext, -, -, hasked', -⟩ := h.orderly.of_called hx
    cases h.orderly.same hasked hasked'
    exact head_ne_of_behind h.orderly.queueNodup hs hs' ((if_pos hs).symm.trans hnext)
  · cases h.orderly.same hasked (h.orderly.of_linked hx).1

/-- Of the links only those of the session are called. -/
theorem link_not_called (h : Handover r req s pool) {x : ρ} {s' : Session}
    (hasked : (x, .link s') ∈ r.asked) (hne : s' ≠ s) : x ∉ r.pool.called s ++ r.pool.linked s := by
  intro hx
  rcases List.mem_append.mp hx with hx | hx
  · obtain ⟨next, -, -, -, -, hasked', -⟩ := h.orderly.of_called hx
    cases h.orderly.same hasked hasked'
  · cases h.orderly.same hasked (h.orderly.of_linked hx).1
    exact hne rfl

/-- Whoever was active or waited, and is not the released session, is active or waits. -/
theorem placed (h : Handover r req s pool) {s' : Session}
    (hplace : s' ∈ r.pool.queue ∨ r.pool.active = some s' ∧ s' ≠ s) :
    s' ∈ pool.queue ∨ pool.active = some s' := by
  rw [h.frame.queue, h.frame.active]
  rcases hplace with hmem | ⟨hact, hne⟩
  · exact (queue_behind (s := s) hmem).imp id fun ⟨hs, hhead⟩ => (if_pos hs).trans hhead
  · exact .inr ((if_neg fun hs => hne (Option.some.inj (hact.symm.trans hs))).trans hact)

/-- And the other way round. -/
theorem was_placed (h : Handover r req s pool) {s' : Session}
    (hplace : s' ∈ pool.queue ∨ pool.active = some s') :
    s' ∈ r.pool.queue ∨ r.pool.active = some s' ∧ s' ≠ s := by
  rw [h.frame.queue, h.frame.active] at hplace
  rcases hplace with hs' | hs'
  · exact .inl (mem_behind hs')
  · exact (of_successor hs').imp (fun hhead => List.mem_of_head? hhead.2) id

theorem sentAsked (h : Handover r req s pool) :
    ∀ x ∈ pool.sent, x.1 ∈ (r.asked ++ [(req, Request.release s)]).map Prod.fst := by
  intro x hx
  rw [List.map_append, List.mem_append]
  rcases (h.answered_iff x.1).mp (List.mem_map_of_mem (f := Prod.fst) hx) with hold | hcall | heq
  · obtain ⟨y, hy, heq⟩ := List.mem_map.mp hold
    exact .inl (heq ▸ h.orderly.sentAsked y hy)
  · exact .inl (h.orderly.of_call hcall).2.2
  · exact .inr (by simp [heq])

theorem sentNodup (h : Handover r req s pool) : (pool.sent.map Prod.fst).Nodup := by
  have hun := h.orderly.unanswered (a := (req, .release s)) h.fresh
  rw [h.sent, List.map_append, List.map_map]
  refine List.nodup_append'.mpr ⟨h.orderly.sentNodup, ?_, ?_⟩
  · simp only [Function.comp_def, List.map_id']
    refine List.nodup_append'.mpr ⟨h.orderly.call_nodup s, List.nodup_singleton _, ?_⟩
    exact List.disjoint_singleton.mpr fun hx => h.fresh (h.orderly.of_call hx).2.2
  · intro x hold hx
    simp only [Function.comp_def, List.map_id'] at hx
    rcases List.mem_append.mp hx with hx | hx
    · exact (h.orderly.of_call hx).2.1 hold
    · exact hun (List.mem_singleton.mp hx ▸ hold)

/-- The queries that are answered by the release are those of the session it activates. -/
theorem whileActive (h : Handover r req s pool) : ∀ x ∈ pool.sent, ∀ s',
    (x.1, .query s') ∈ r.asked ++ [(req, Request.release s)] → x.2 = some s' := by
  intro x hx s' hreq
  have before {x : ρ × Option Session} (hx : x.1 ∈ r.asked.map Prod.fst)
      (hreq : (x.1, .query s') ∈ r.asked ++ [(req, Request.release s)]) : (x.1, .query s') ∈ r.asked :=
    asked_before (a := (req, .release s)) h.fresh hx hreq
  rw [h.sent, List.mem_append] at hx
  rcases hx with hx | hx
  · exact h.orderly.whileActive x hx s' (before (h.orderly.sentAsked x hx) hreq)
  · obtain ⟨y, hy, rfl⟩ := List.mem_map.mp hx
    rcases List.mem_append.mp hy with hy | hy
    · have hreq := before (x := (y, none)) (h.orderly.of_call hy).2.2 hreq
      rcases List.mem_append.mp hy with hy | hy
      · obtain ⟨next, -, hnext, -, -, hasked, -⟩ := h.orderly.of_called hy
        cases h.orderly.same hasked hreq
        exact hnext
      · cases h.orderly.same (h.orderly.of_linked hy).1 hreq
    · cases List.mem_singleton.mp hy
      rcases List.mem_append.mp hreq with hreq | hreq
      · exact absurd (List.mem_map_of_mem (f := Prod.fst) hreq) h.fresh
      · cases List.mem_singleton.mp hreq

theorem queueNodup (h : Handover r req s pool) : pool.queue.Nodup := by
  rw [h.frame.queue]
  unfold Pool.behind
  split
  · exact h.orderly.queueNodup.tail
  · exact h.orderly.queueNodup

theorem behind (h : Handover r req s pool) : ∀ s', pool.active = some s' → s' ∉ pool.queue := by
  intro s' hs' hmem
  rw [h.frame.active] at hs'
  rw [h.frame.queue] at hmem
  rcases of_successor hs' with ⟨hs, hhead⟩ | ⟨hact, -⟩
  · exact head_ne_of_behind h.orderly.queueNodup hs hmem hhead
  · exact h.orderly.behind s' hact (mem_behind hmem)

theorem idle (h : Handover r req s pool) (hnone : pool.active = none) : pool.queue = [] := by
  rw [h.frame.active] at hnone
  rw [h.frame.queue]
  unfold Pool.successor at hnone
  unfold Pool.behind
  split at hnone
  · rw [if_pos (by assumption), List.head?_eq_none_iff.mp hnone]
    rfl
  · rw [if_neg (by assumption)]
    exact h.orderly.idle hnone

theorem unreleased (h : Handover r req s pool) : ∀ s', s' ∈ pool.queue ∨ pool.active = some s' →
    ¬ (next r req s pool).Released s' := by
  intro s' hs'
  have hplace := h.was_placed hs'
  refine (released_iff s').not.mpr (not_or.mpr ⟨h.orderly.unreleased s' (hplace.imp id And.left), ?_⟩)
  rcases hplace with hmem | ⟨-, hne⟩
  · exact fun heq => h.notQueued (heq ▸ hmem)
  · exact hne

/-- A query that waited is called now, or waits still. -/
theorem pending (h : Handover r req s pool) : ∀ x s', (x, .query s') ∈ r.asked →
    (next r req s pool).Answered x ∨ s' ∈ pool.queue ∧ x ∈ (pool.session.get s').getD [] := by
  intro x s' hreq
  rcases h.orderly.pending x s' hreq with hold | ⟨hmem, hx⟩
  · exact .inl ((h.answered_iff x).mpr (.inl hold))
  · rw [h.frame.queue, h.frame.session]
    rcases queue_behind (s := s) hmem with hmem | ⟨hs, hhead⟩
    · exact .inr ⟨hmem, hx⟩
    · refine .inl ((h.answered_iff x).mpr (.inr (.inl (List.mem_append_left _ ?_))))
      rw [Pool.called, if_pos hs, Pool.waiters, hhead]
      exact hx

theorem order (h : Handover r req s pool) : r.waited = r.grantedAfter pool (.release s) ++ pool.queue := by
  rw [h.orderly.order, h.frame.queue, grantedAfter, h.frame.active]
  unfold Pool.behind Pool.successor
  split
  · cases r.pool.queue <;> simp
  · rfl

theorem grantedOnce (h : Handover r req s pool) : ∀ s' ∈ r.grantedAfter pool (.release s),
    pool.active = some s' ∨ (next r req s pool).Released s' := by
  intro s' hmem
  have hgranted : s' ∈ r.granted ∨ pool.active = some s' := by
    by_cases hs : r.pool.active = some s
    · rw [grantedAfter, if_pos hs, List.mem_append] at hmem
      exact hmem.imp id Option.mem_toList.mp
    · rw [grantedAfter, if_neg hs] at hmem
      exact .inl hmem
  rcases hgranted with hold | hnow
  · rcases h.orderly.grantedOnce s' hold with hact | hold
    · by_cases heq : s' = s
      · exact .inr ((released_iff s').mpr (.inr heq))
      · rw [h.frame.active]
        exact .inl ((if_neg fun hs => heq (Option.some.inj (hact.symm.trans hs))).trans hact)
    · exact .inr ((released_iff s').mpr (.inl hold))
  · exact .inl hnow

/-- The invariant after the release. -/
theorem orderly_next (h : Handover r req s pool) : (next r req s pool).Orderly where
  named := named_append h.orderly.named h.fresh
  sentAsked := h.sentAsked
  sentNodup := h.sentNodup
  whileActive := h.whileActive
  queueNodup := h.queueNodup
  behind := h.behind
  idle := h.idle
  unreleased := h.unreleased
  waiting s' hs' := by
    show ∃ q, pool.session.get s' = some q ∧ q ≠ []
    rw [h.frame.session]
    exact h.orderly.waiting s' (mem_behind (h.frame.queue ▸ hs'))
  stored s' q hq := by
    rw [h.frame.session] at hq
    obtain ⟨hnd, hasked, hplace⟩ := h.orderly.stored s' q hq
    refine ⟨hnd, fun x hx => List.mem_append_left _ (hasked x hx), ?_⟩
    rw [← or_assoc]
    rcases hplace with hmem | hact | hold
    · exact .inl (h.placed (.inl hmem))
    · by_cases heq : s' = s
      · exact .inr ((released_iff s').mpr (.inr heq))
      · exact .inl (h.placed (.inr ⟨hact, heq⟩))
    · exact .inr ((released_iff s').mpr (.inl hold))
  uncalled s' hs' q hq x hx := by
    rw [h.frame.session] at hq
    rw [h.frame.queue] at hs'
    have hasked := (h.orderly.stored s' q hq).2.1 x hx
    obtain ⟨hcall, hnot⟩ := h.orderly.uncalled s' (mem_behind hs') q hq x hx
    exact h.uncalled hasked hcall hnot (h.not_called hasked hs')
  linked s' q hq := by
    obtain ⟨hnd, hmem⟩ := h.orderly.linked s' q (h.frame.link s' q hq)
    have hne : s' ≠ s := by
      rintro rfl
      rw [h.unlinked] at hq
      cases hq
    refine ⟨hnd, fun x hx => ?_⟩
    obtain ⟨hasked, hcall, hnot⟩ := hmem x hx
    exact ⟨List.mem_append_left _ hasked, h.uncalled hasked hcall hnot (h.link_not_called hasked hne)⟩
  pending x s' hreq := by
    rcases List.mem_append.mp hreq with hreq | hreq
    · exact h.pending x s' hreq
    · cases List.mem_singleton.mp hreq
  order := h.order
  grantedOnce := h.grantedOnce
  returns := h.orderly.returns

end Handover

variable [DecidableEq ρ]

/-- A release that keeps to the discipline returns, and keeps the invariant. -/
theorem Orderly.release {req : ρ} {s : Session} (h : r.Orderly)
    (hfresh : req ∉ r.asked.map Prod.fst) (hall : ∀ x ∈ r.asked, x.2 = .query s → r.Answered x.1) :
    ∃ pool, AntServer.Transaction.release s req r.pool = .ok () pool ∧
      (Handover.next r req s pool).Orderly := by
  have hnext : ∀ s' ∈ r.pool.queue.head?, (r.pool.session.get s').isSome := by
    intro s' hs'
    obtain ⟨q, hq, -⟩ := h.waiting s' (List.mem_of_head? hs')
    rw [hq]
    rfl
  obtain ⟨pool, hrun, hunlinked, hsent⟩ := release_ok req hnext (h.call_nodup s) fun x hx => (h.of_call hx).1
  have hframe : Transaction.Released s req r.pool pool := by
    have := release_after s req r.pool
    rwa [hrun] at this
  have hhandover : Handover r req s pool := ⟨h, hfresh, h.notQueued hall, hframe, hunlinked, hsent⟩
  exact ⟨pool, hrun, hhandover.orderly_next⟩

/-! ## A step, and a run -/

/-- One request keeps the invariant, unless it queries a session that waits. -/
theorem orderly_step {r' : Run ρ} (h : r.Orderly) (hun : r.Unqueued a) (hstep : step r a = some r') :
    r'.Orderly := by
  obtain ⟨req, request⟩ := a
  unfold step at hstep
  split at hstep
  · rename_i hok
    obtain ⟨hfresh, hdisc⟩ := hok
    cases hstep
    have hnot := h.unanswered (a := (req, request)) hfresh
    cases request with
    | create =>
      exact h.atOnce (a := (req, .create)) hfresh nofun rfl rfl rfl rfl rfl nofun (.inl rfl)
    | link s =>
      simp only [dispatch, link_eq, after_ok, waitedAfter, grantedAfter]
      exact h.link hfresh
    | query s =>
      have hfree : s ∉ r.pool.queue := fun hs => hun s hs rfl
      rcases query_cases s req r.pool with ⟨hnone, heq⟩ | ⟨hact, heq⟩ | ⟨b, hact, hne, heq⟩
      · simp only [dispatch, heq, after_ok, waitedAfter, grantedAfter]
        rw [if_neg (by simp)]
        exact h.atOnce (a := (req, .query s)) hfresh nofun rfl rfl rfl rfl rfl
          (fun s' hs' => by cases hs'; rfl) (.inr ⟨hnone, s, rfl, hdisc⟩)
      · simp only [dispatch, heq, after_ok, waitedAfter, grantedAfter]
        rw [if_neg (by simp)]
        exact h.atOnce (a := (req, .query s)) hfresh nofun rfl rfl rfl rfl rfl
          (fun s' hs' => by cases hs'; rfl) (.inl rfl)
      · have hnact : r.pool.active ≠ some s := by
          rw [hact]
          exact fun heq => hne (Option.some.inj heq)
        have hnew : s ∉ r.waited := by
          rw [h.order, List.mem_append, not_or]
          exact ⟨fun hs => (h.grantedOnce s hs).elim hnact hdisc, hfree⟩
        simp only [dispatch, heq, after_ok, waitedAfter, grantedAfter]
        rw [if_pos ⟨hnot, hnew⟩]
        exact h.wait hfresh hfree hnact (by rw [hact]; nofun) hdisc
    | release s =>
      obtain ⟨pool, hrun, hpool⟩ := h.release hfresh hdisc.2
      simp only [dispatch, hrun, after_ok, waitedAfter]
      exact hpool
  · cases hstep

end Step

theorem reach_orderly [DecidableEq ρ] {r : Run ρ}
    (h : machine.ReachUnder Unqueued r) : r.Orderly := by
  refine h.invariant Orderly ?_ fun r a r' _ hr hun hstep => orderly_step hr hun hstep
  rintro r rfl
  exact init_orderly

/-- In every run in which no session is queried while it waits, `transactiond` is a lock. -/
theorem lock_of_unqueued [DecidableEq ρ] {r : Run ρ}
    (h : machine.ReachUnder Unqueued r) : r.Lock :=
  (reach_orderly h).lock

/-- Session 1 has the lock, session 2 waits for it and gets it. -/
def handover : List (Nat × Request) :=
  [(0, .create), (1, .create), (2, .query 1), (3, .query 2), (4, .link 1), (5, .release 1)]

theorem lock_of_unqueued_handover :
    ∃ r, machine.exec (init : Run Nat) handover = some r ∧ r.pool.active = some 2 ∧ r.Lock := by
  have hrun : ∃ r ∈ machine.execWhile (fun r a => decide (Unqueued r a)) (init : Run Nat)
      handover,
      r.pool.active = some 2 := by
    decide +kernel
  obtain ⟨r, hr, hactive⟩ := hrun
  exact ⟨r, exec_of_execWhile hr, hactive,
    lock_of_unqueued (ReachUnder.execWhile (fun _ _ h => of_decide_eq_true h) (.start rfl) hr)⟩

/-- Two services query session 2 while session 1 is active; both sessions are released in turn. -/
def queuedTwice : List (Nat × Request) :=
  [(0, .query 1), (1, .query 2), (2, .query 2), (3, .release 1), (4, .release 2)]

/-- Session 2 is active again after its release. -/
theorem not_lock_queuedTwice : ¬ ∀ r : Run Nat, machine.Reach r → r.Lock := by
  intro h
  have hrun : ∃ r ∈ machine.exec (init : Run Nat) queuedTwice,
      r.pool.active = some 2 ∧ r.Released 2 := by
    decide +kernel
  obtain ⟨r, hr, hactive, hreleased⟩ := hrun
  exact (h r (Reach.exec (.start rfl) hr)).unreleased 2 hactive hreleased

end Run

end AntServer.Transaction
