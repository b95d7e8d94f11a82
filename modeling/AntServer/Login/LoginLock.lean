/-
# AntServer.Login.LoginLock — one login handler per user at a time

The master of `logind/loginserver.lua` with any number of connections. Each has a coroutine of `accept`,
and the coroutines are resumed in any order: when a slave answers, when a `login_handler` ends, and when a
write is done, whether the socket is still there or not. With `multilogin` off, `user_login` is a lock
per user.

The lock is taken in the step that starts the handler and given back in the step that ends it, before the
status line is written, so no way out of `accept` is left with it (`reach_excludes`). A refused attempt
never had it and does not touch it.
-/
import AntServer.Lib.KeyedLock
import AntServer.Lib.Machine
import AntServer.Login.LoginServer

namespace AntServer.Login.LoginServer

open Lib (Table)

/-- The coroutines of `accept` by their socket, and `user_login`. -/
structure Master where
  conns : Table Nat Wait
  userLogin : UserLogin

inductive MasterEvent where
  /-- a client connects -/
  | connect (fd : Nat)
  /-- the slave of `fd` answers -/
  | answer (fd : Nat) (answer : Answer)
  /-- the `login_handler` of `fd` ends -/
  | handled (fd : Nat) (result : Except LuaError (Option LuaString))
  /-- the write to `fd` is done or raises -/
  | written (fd : Nat) (success : Bool)

namespace Master

def init : Master where
  conns := Table.empty
  userLogin := Table.empty

/-- The coroutine of `fd` goes on to its next wait, or ends and the socket is closed. -/
def resume (conns : Table Nat Wait) (fd : Nat) : Option Wait → Table Nat Wait
  | some w => conns.set fd w
  | none => conns.del fd

/-- One step of one coroutine, with `multilogin` off. -/
def step (crypt : Crypt) (s : Master) : MasterEvent → Option Master
  | .connect fd =>
    match s.conns.get fd with
    | none => some { s with conns := s.conns.set fd .slave }
    | some _ => none
  | .answer fd answer =>
    match s.conns.get fd with
    | some .slave =>
      let (w, userLogin) := acceptAnswer false s.userLogin answer
      some { conns := resume s.conns fd w, userLogin := userLogin }
    | _ => none
  | .handled fd result =>
    match s.conns.get fd with
    | some (.handler uid) =>
      let (w, userLogin) := acceptHandled crypt s.userLogin uid result
      some { conns := resume s.conns fd (some w), userLogin := userLogin }
    | _ => none
  | .written fd _ =>
    match s.conns.get fd with
    | some (.writing _) => some { s with conns := resume s.conns fd none }
    | _ => none

/-- The runs of a master. -/
def machine (crypt : Crypt) : Lib.Machine Master MasterEvent where
  start s := s = init
  step := step crypt

/-- The user whose `login_handler` a coroutine runs. -/
def handling (s : Master) (fd : Nat) : Option LuaString :=
  match s.conns.get fd with
  | some (.handler uid) => some uid
  | _ => none

/-- The user is locked. -/
def Locked (s : Master) (uid : LuaString) : Prop := (s.userLogin.get uid).isSome

theorem handling_eq_some {s : Master} {fd : Nat} {uid : LuaString} :
    s.handling fd = some uid ↔ s.conns.get fd = some (.handler uid) := by
  unfold handling
  split
  · rename_i h
    rw [h]
    simp
  · rename_i h
    exact ⟨fun h' => (by cases h'), fun h' => absurd h' (h uid)⟩

/-- A coroutine that is not in a handler handles nobody. -/
theorem handling_eq_none {s : Master} {fd : Nat} (h : ∀ uid, s.conns.get fd ≠ some (.handler uid)) :
    s.handling fd = none :=
  Option.eq_none_iff_forall_ne_some.mpr fun uid hu => h uid (handling_eq_some.mp hu)

theorem get_resume (conns : Table Nat Wait) (fd fd' : Nat) (w : Option Wait) :
    (resume conns fd w).get fd' = if fd' = fd then w else conns.get fd' := by
  cases w with
  | none => exact Table.get_del _ _ _
  | some w => exact Table.get_set _ _ _ _

/-- Only the coroutine that is resumed changes. -/
theorem handling_resume_ne {s s' : Master} {fd fd' : Nat} {w : Option Wait}
    (hconns : s'.conns = resume s.conns fd w) (hne : fd' ≠ fd) : s'.handling fd' = s.handling fd' := by
  unfold handling
  rw [hconns, get_resume, if_neg hne]

/-! ## The lock along a run -/

/-- The lock of a user is taken exactly while a handler of the user runs, and only one does. -/
def Excluding (s : Master) : Prop := Lib.Excludes s.handling s.Locked

theorem init_excluding : Excluding init where
  exclusive := by
    intro p q k hp
    have hp := handling_eq_some.mp hp
    rw [show init.conns.get p = none from Table.get_empty p] at hp
    cases hp
  taken_iff := by
    intro k
    have hlock : ¬ init.Locked k := by
      unfold Locked
      rw [show init.userLogin.get k = none from Table.get_empty k]
      simp
    refine ⟨fun hk => absurd hk hlock, ?_⟩
    rintro ⟨p, hp⟩
    have hp := handling_eq_some.mp hp
    rw [show init.conns.get p = none from Table.get_empty p] at hp
    cases hp

/-- A step that neither starts nor ends a handler keeps the discipline. -/
theorem Excluding.idle {s s' : Master} (h : Excluding s) {fd : Nat} {w : Option Wait}
    (hbefore : s.handling fd = none) (hafter : ∀ uid, w ≠ some (.handler uid))
    (hconns : s'.conns = resume s.conns fd w) (hlogin : s'.userLogin = s.userLogin) : Excluding s' := by
  refine h.same (fun p => ?_) fun k => by rw [Locked, Locked, hlogin]
  by_cases hp : p = fd
  · subst hp
    rw [hbefore]
    refine handling_eq_none fun uid => ?_
    rw [hconns, get_resume, if_pos rfl]
    exact hafter uid
  · exact handling_resume_ne hconns hp

/-- The step that starts a handler. -/
theorem Excluding.start {s s' : Master} (h : Excluding s) {fd : Nat} {uid : LuaString}
    (hbefore : s.handling fd = none) (hfree : ¬ s.Locked uid)
    (hconns : s'.conns = resume s.conns fd (some (.handler uid)))
    (hlogin : s'.userLogin = s.userLogin.set uid ()) : Excluding s' := by
  refine h.take hbefore hfree ?_ (fun q hq => handling_resume_ne hconns hq) fun l => ?_
  · rw [handling_eq_some, hconns, get_resume, if_pos rfl]
  · rw [Locked, hlogin, Table.get_set]
    split <;> simp_all [Locked]

/-- The step that ends one. -/
theorem Excluding.finish {s s' : Master} (h : Excluding s) {fd : Nat} {uid : LuaString} {w : Wait}
    (hbefore : s.handling fd = some uid) (hafter : ∀ u, w ≠ .handler u)
    (hconns : s'.conns = resume s.conns fd (some w))
    (hlogin : s'.userLogin = s.userLogin.del uid) : Excluding s' := by
  refine h.give hbefore ?_ (fun q hq => handling_resume_ne hconns hq) fun l => ?_
  · refine handling_eq_none fun u => ?_
    rw [hconns, get_resume, if_pos rfl]
    exact fun he => hafter u (Option.some.inj he)
  · rw [Locked, hlogin, Table.get_del]
    split <;> simp_all [Locked]

/-- What `accept` can do with the answer of a slave: a status line or the end, with the lock as it is, or
the handler of a user who was not locked. -/
theorem acceptAnswer_cases (userLogin : UserLogin) (answer : Answer) :
    ((∀ uid, (acceptAnswer false userLogin answer).1 ≠ some (.handler uid)) ∧
      (acceptAnswer false userLogin answer).2 = userLogin) ∨
    ∃ uid, (userLogin.get uid).isSome = false ∧
      acceptAnswer false userLogin answer = (some (.handler uid), userLogin.set uid ()) := by
  cases answer with
  | socketError => exact .inl ⟨fun uid h => (by cases h), rfl⟩
  | refused err => exact .inl ⟨fun uid h => (by cases h), rfl⟩
  | authorized auth secret =>
    simp only [acceptAnswer, Bool.false_eq_true, if_false]
    by_cases hlock : (userLogin.get auth.uid).isSome = true
    · rw [if_pos hlock]
      exact .inl ⟨fun uid h => (by cases h), rfl⟩
    · rw [if_neg hlock]
      exact .inr ⟨auth.uid, by simpa using hlock, rfl⟩

/-- `accept` gives the lock back however the handler ends. -/
theorem acceptHandled_cases (crypt : Crypt) (userLogin : UserLogin) (uid : LuaString)
    (result : Except LuaError (Option LuaString)) :
    ∃ status, acceptHandled crypt userLogin uid result = (.writing status, userLogin.del uid) := by
  cases result with
  | ok token => exact ⟨_, rfl⟩
  | error e => exact ⟨_, rfl⟩

theorem step_excluding {crypt : Crypt} {s s' : Master} {e : MasterEvent} (h : Excluding s)
    (hs : s.step crypt e = some s') : Excluding s' := by
  cases e with
  | connect fd =>
    simp only [step] at hs
    split at hs
    · rename_i hfd
      cases hs
      exact h.idle (w := some .slave) (handling_eq_none (by simp [hfd])) (by simp) rfl rfl
    · cases hs
  | answer fd answer =>
    simp only [step] at hs
    split at hs
    · rename_i hfd
      cases hs
      have hnone : s.handling fd = none := handling_eq_none (by simp [hfd])
      rcases acceptAnswer_cases s.userLogin answer with ⟨hw, hlogin⟩ | ⟨uid, hfree, heq⟩
      · exact h.idle hnone hw rfl hlogin
      · rw [heq]
        exact h.start hnone (by simp [Locked, hfree]) rfl rfl
    · cases hs
  | handled fd result =>
    simp only [step] at hs
    split at hs
    · rename_i uid hfd
      cases hs
      obtain ⟨status, heq⟩ := acceptHandled_cases crypt s.userLogin uid result
      rw [heq]
      exact h.finish (w := .writing status) (handling_eq_some.mpr hfd) (by simp) rfl rfl
    · cases hs
  | written fd success =>
    simp only [step] at hs
    split at hs
    · rename_i status hfd
      cases hs
      exact h.idle (w := none) (handling_eq_none (by simp [hfd])) (by simp) rfl rfl
    · cases hs

/-- In every reachable state the locks are those of the running handlers. -/
theorem reach_excluding {crypt : Crypt} {s : Master} (h : (machine crypt).Reach s) : Excluding s :=
  h.invariant Excluding (by rintro _ rfl; exact init_excluding)
    (fun _ _ _ _ hI _ hs => step_excluding hI hs)

/-! ## The login lock -/

/-- What the lock is for. -/
structure LoginLock (crypt : Crypt) (s : Master) : Prop where
  /-- at most one `login_handler` runs per user -/
  exclusive : ∀ fd fd' uid, s.handling fd = some uid → s.handling fd' = some uid → fd = fd'
  /-- a user is locked only while a handler of the user runs -/
  released : ∀ uid, s.Locked uid → ∃ fd, s.handling fd = some uid
  /-- an attempt for a locked user gets its refusal, and nothing else changes -/
  refused : ∀ fd auth secret s', s.Locked auth.uid → s.step crypt (.answer fd (.authorized auth secret)) =
    some s' → s'.conns.get fd = some (.writing .notAcceptable) ∧ s'.userLogin = s.userLogin ∧
      ∀ fd', fd' ≠ fd → s'.conns.get fd' = s.conns.get fd'
  /-- after which it ends, whether the refusal is written or not -/
  ends : ∀ fd status e s', s.conns.get fd = some (.writing status) → s.step crypt e = some s' →
    s'.conns.get fd = some (.writing status) ∨
      s'.conns.get fd = none ∧ s'.userLogin = s.userLogin
  /-- the step that ends a handler unlocks the user, a failed write included -/
  unlocked : ∀ fd uid result s', s.handling fd = some uid → s.step crypt (.handled fd result) = some s' →
    ¬ s'.Locked uid

/-- A coroutine in a write goes nowhere but to its end. -/
theorem step_writing {crypt : Crypt} {s s' : Master} {fd : Nat} {status : Status} {e : MasterEvent}
    (hfd : s.conns.get fd = some (.writing status)) (hs : s.step crypt e = some s') :
    s'.conns.get fd = some (.writing status) ∨ s'.conns.get fd = none ∧ s'.userLogin = s.userLogin := by
  -- only a `written` event concerns `fd`; every other event is one of another coroutine
  have hother : ∀ fd' w, fd' ≠ fd → s'.conns = resume s.conns fd' w →
      s'.conns.get fd = some (.writing status) := fun fd' w hne hconns => by
    rw [hconns, get_resume, if_neg (Ne.symm hne), hfd]
  cases e with
  | connect fd' =>
    simp only [step] at hs
    split at hs
    · rename_i hget
      cases hs
      exact .inl (hother fd' (some .slave) (fun he => by simp [he, hfd] at hget) rfl)
    · cases hs
  | answer fd' answer =>
    simp only [step] at hs
    split at hs
    · rename_i hget
      cases hs
      exact .inl (hother fd' _ (fun he => by simp [he, hfd] at hget) rfl)
    · cases hs
  | handled fd' result =>
    simp only [step] at hs
    split at hs
    · rename_i hget
      cases hs
      exact .inl (hother fd' (some _) (fun he => by simp [he, hfd] at hget) rfl)
    · cases hs
  | written fd' success =>
    simp only [step] at hs
    split at hs
    · cases hs
      by_cases he : fd' = fd
      · subst he
        exact .inr ⟨by rw [get_resume, if_pos rfl], rfl⟩
      · exact .inl (hother fd' none he rfl)
    · cases hs

theorem loginLock (crypt : Crypt) {s : Master} (h : (machine crypt).Reach s) : LoginLock crypt s := by
  have hex := reach_excluding h
  refine ⟨hex.exclusive, fun uid => (hex.taken_iff uid).mp, ?_, fun fd status e s' => step_writing, ?_⟩
  · intro fd auth secret s' hlock hs
    simp only [step] at hs
    split at hs
    · have heq : acceptAnswer false s.userLogin (.authorized auth secret) =
          (some (.writing .notAcceptable), s.userLogin) := if_pos hlock
      rw [heq] at hs
      cases hs
      exact ⟨by rw [get_resume, if_pos rfl], rfl, fun fd' hne => by rw [get_resume, if_neg hne]⟩
    · cases hs
  · intro fd uid result s' hfd hs
    rw [handling_eq_some] at hfd
    simp only [step, hfd] at hs
    obtain ⟨status, heq⟩ := acceptHandled_cases crypt s.userLogin uid result
    rw [heq] at hs
    cases hs
    simp [Locked]

/-- Two attempts for one user, the second one refused while the handler of the first one runs. -/
def twoAttempts : List MasterEvent :=
  [.connect 1, .connect 2, .answer 1 (.authorized ⟨[], [117], [], []⟩ []),
    .answer 2 (.authorized ⟨[], [117], [], []⟩ [])]

theorem loginLock_twoAttempts : ∃ s, (machine base64Crypt).exec init twoAttempts = some s ∧
    s.conns.get 2 = some (.writing .notAcceptable) ∧ LoginLock base64Crypt s := by
  have hrun : ∃ s ∈ (machine base64Crypt).exec init twoAttempts,
      s.conns.get 2 = some (.writing .notAcceptable) := by
    decide +kernel
  obtain ⟨s, hs, hrefused⟩ := hrun
  exact ⟨s, hs, hrefused, loginLock base64Crypt (Lib.Machine.Reach.exec (.start rfl) hs)⟩

end Master

end AntServer.Login.LoginServer
