/-
# AntServer.Login.Exclusivity — one game server per user

The login service is to keep, for every user, the server it gave a token of, and to have that server
kick the user before it gives another token (`Exclusive`). The table that is to hold the record is
empty in every reachable state (`reach_userOnline`): only `add_user_online` would write it. So the
first token returned for a user breaks the property, and without a record nobody is ever kicked.

The runs that keep the property are those in which no token is returned: the lock of `accept` then
lets at most one handler of a user wait, and the token of its server is the only one (`Waiting`).
-/
import AntServer.Login.LoginMaster

namespace AntServer.Login

open Lib (Table)

namespace System

variable (nodes : String → Option NodeConf)

/-- Login exclusivity in a state. -/
structure Exclusive (s : System) : Prop where
  /-- A returned token is recorded until its logout or a later login. -/
  recorded : ∀ uid o, s.granted.get uid = some o → s.node.userOnline.get uid = some o
  /-- A later login first asks exactly that server to kick the user. -/
  kicksFirst : ∀ uid o server secret, s.granted.get uid = some o → s.node.userLogin.get uid = none →
    (nodes server).isSome → (s.accept nodes uid server secret).asked = (o.server, uid) :: s.asked
  /-- Of two servers that hold a token of a user, one has been asked to drop the user. -/
  oneServer : ∀ uid a b, a ≠ b → (s.held.get (a, uid)).isSome → (s.held.get (b, uid)).isSome →
    (a, uid) ∈ s.asked ∨ (b, uid) ∈ s.asked

/-- No token is returned, and no call fails whose request a server has processed or will process. -/
def Unanswered (s : System) : Event → Prop
  | .answer _ => False
  | .fail uid => ∀ call, s.calls.get uid = some call → call.stored = none
  | .accessLost _ => False
  | _ => True

/-! ## The record is never written -/

theorem loginHandlerBegin_userOnline {n : LoginNode} (h : ∀ uid, n.userOnline.get uid = none)
    (uid : String) : n.loginHandlerBegin uid = (n, none, true) := by
  simp only [LoginNode.loginHandlerBegin, LoginNode.getUserOnline, h, Option.isNone_none]

/-- What `accept` does while the record is empty. -/
theorem accept_eq {s : System} (h : ∀ uid, s.node.userOnline.get uid = none)
    (uid server secret : String) :
    s.accept nodes uid server secret =
      if (s.node.userLogin.get uid).isSome then s
      else
        match nodes server with
        | none => s
        | some conf =>
          { s with
            node := s.node.lock uid
            granted := s.granted.del uid
            calls := s.calls.set uid
              { server := server, conf := conf, secret := secret, stored := none } } := by
  unfold accept
  rw [loginHandlerBegin_userOnline h uid]
  rfl

theorem step_userOnline {s s' : System} {e : Event} (h : ∀ uid, s.node.userOnline.get uid = none)
    (hs : s.step nodes e = some s') : ∀ uid, s'.node.userOnline.get uid = none := by
  intro uid
  cases e with
  | accept u server secret =>
    cases hs
    rw [accept_eq nodes h]
    split
    · exact h uid
    · split <;> exact h uid
  | access u =>
    simp only [step] at hs
    split at hs
    · split at hs
      · cases hs
        exact h uid
      · cases hs
    · cases hs
  | accessLost i =>
    simp only [step] at hs
    split at hs
    · cases hs
      exact h uid
    · cases hs
  | answer u =>
    simp only [step] at hs
    split at hs
    · split at hs
      · cases hs
        exact h uid
      · cases hs
    · cases hs
  | fail u =>
    simp only [step] at hs
    split at hs
    · cases hs
      exact h uid
    · cases hs
  | drop server u =>
    simp only [step] at hs
    split at hs
    · cases hs
      exact h uid
    · cases hs
  | notice i =>
    simp only [step] at hs
    split at hs
    · rename_i server u _
      cases hs
      show (s.node.userOnline.del u).get uid = none
      rw [Table.get_del]
      split
      · rfl
      · exact h uid
    · cases hs

/-- No user is ever recorded as online. -/
theorem reach_userOnline {s : System} (h : (machine nodes).Reach s) :
    ∀ uid, s.node.userOnline.get uid = none :=
  h.invariant (fun s => ∀ uid, s.node.userOnline.get uid = none)
    (by rintro s rfl uid; exact Table.get_empty uid)
    (fun _ _ _ _ hI _ hs => step_userOnline nodes hI hs)

/-- Every returned token breaks the record. -/
theorem not_exclusive_answer {s s' : System} (h : (machine nodes).Reach s) {uid : String}
    (hs : s.step nodes (.answer uid) = some s') : ¬ Exclusive nodes s' := by
  intro hex
  have hempty := step_userOnline nodes (reach_userOnline nodes h) hs uid
  simp only [step] at hs
  split at hs
  · split at hs
    · rename_i call _ subid _
      cases hs
      have := hex.recorded uid _ (Table.get_set_self _ _ _)
      rw [hempty] at this
      cases this
    · cases hs
  · cases hs

/-! ## The runs in which no token is returned -/

/-- A server holds a token of a user only for the handler that waits for its answer, and a waiting
handler has the lock of its user. -/
structure Waiting (s : System) : Prop where
  noRecord : ∀ uid, s.node.userOnline.get uid = none
  noToken : ∀ uid, s.granted.get uid = none
  locked : ∀ uid, (s.calls.get uid).isSome → (s.node.userLogin.get uid).isSome
  held : ∀ server uid, (s.held.get (server, uid)).isSome →
    ∃ call, s.calls.get uid = some call ∧ call.server = server ∧ call.stored ≠ none

theorem init_waiting : Waiting init where
  noRecord := Table.get_empty
  noToken := Table.get_empty
  locked := by
    intro uid h
    rw [show init.calls.get uid = none from Table.get_empty uid] at h
    cases h
  held := by
    intro server uid h
    rw [show init.held.get (server, uid) = none from Table.get_empty _] at h
    cases h

theorem waiting_accept {s : System} (h : Waiting s) (uid server secret : String) :
    Waiting (s.accept nodes uid server secret) := by
  rw [accept_eq nodes h.noRecord]
  split
  · exact h
  · rename_i hfree
    split
    · exact h
    · rename_i conf _
      -- without the lock no handler of `uid` waits, so no server holds a token of it
      have hnone : s.calls.get uid = none := by
        cases hc : s.calls.get uid with
        | none => rfl
        | some call => exact absurd (h.locked uid (by rw [hc]; rfl)) hfree
      refine ⟨h.noRecord, fun u => ?_, fun u hu => ?_, fun a u ha => ?_⟩
      · show (s.granted.del uid).get u = none
        rw [Table.get_del, h.noToken u, ite_self]
      · show ((s.node.userLogin.set uid ()).get u).isSome
        rw [Table.get_set]
        split
        · rfl
        · rename_i hne
          have hu : ((s.calls.set uid _).get u).isSome := hu
          rw [Table.get_set_ne _ _ hne] at hu
          exact h.locked u hu
      · obtain ⟨call, hcall, hserver, hstored⟩ := h.held a u ha
        have hne : u ≠ uid := fun he => by
          rw [he, hnone] at hcall
          cases hcall
        exact ⟨call, (Table.get_set_ne _ _ hne).trans hcall, hserver, hstored⟩

theorem waiting_access {s s' : System} (h : Waiting s) {uid : String}
    (hs : s.step nodes (.access uid) = some s') : Waiting s' := by
  simp only [step] at hs
  split at hs
  · rename_i call hcall
    split at hs
    · cases hs
      refine ⟨h.noRecord, h.noToken, fun u hu => ?_, fun a u ha => ?_⟩
      · have hu : ((s.calls.set uid _).get u).isSome := hu
        by_cases hne : u = uid
        · subst hne
          exact h.locked u (by rw [hcall]; rfl)
        · rw [Table.get_set_ne _ _ hne] at hu
          exact h.locked u hu
      · have ha : ((s.held.set (call.server, uid) _).get (a, u)).isSome := ha
        by_cases hne : u = uid
        · subst hne
          refine ⟨_, Table.get_set_self _ _ _, ?_, by simp⟩
          by_cases hserver : a = call.server
          · exact hserver.symm
          · -- another server holding a token of `u` would be the one its handler waits for
            rw [Table.get_set_ne _ _ (by simpa using hserver)] at ha
            obtain ⟨call', hcall', hserver', -⟩ := h.held a u ha
            rw [hcall] at hcall'
            cases hcall'
            exact hserver'
        · rw [Table.get_set_ne _ _ (by simp [hne])] at ha
          obtain ⟨call', hcall', hrest⟩ := h.held a u ha
          exact ⟨call', (Table.get_set_ne _ _ hne).trans hcall', hrest⟩
    · cases hs
  · cases hs

theorem waiting_fail {s s' : System} (h : Waiting s) {uid : String} (hg : Unanswered s (.fail uid))
    (hs : s.step nodes (.fail uid) = some s') : Waiting s' := by
  simp only [step] at hs
  split at hs
  · rename_i call hcall
    cases hs
    refine ⟨h.noRecord, h.noToken, fun u hu => ?_, fun a u ha => ?_⟩
    · have hu : ((s.calls.del uid).get u).isSome := hu
      show ((s.node.userLogin.del uid).get u).isSome
      by_cases hne : u = uid
      · subst hne
        rw [Table.get_del_self] at hu
        cases hu
      · rw [Table.get_del_ne _ hne] at hu ⊢
        exact h.locked u hu
    · obtain ⟨call', hcall', hserver, hstored⟩ := h.held a u ha
      have hne : u ≠ uid := fun he => by
        subst he
        exact hstored (hg call' hcall')
      exact ⟨call', (Table.get_del_ne _ hne).trans hcall', hserver, hstored⟩
  · cases hs

theorem waiting_step {s s' : System} {e : Event} (h : Waiting s) (hg : Unanswered s e)
    (hs : s.step nodes e = some s') : Waiting s' := by
  cases e with
  | accept uid server secret =>
    cases hs
    exact waiting_accept nodes h uid server secret
  | access uid => exact waiting_access nodes h hs
  | accessLost i => exact hg.elim
  | answer uid => exact hg.elim
  | fail uid => exact waiting_fail nodes h hg hs
  | drop server uid =>
    simp only [step] at hs
    split at hs
    · cases hs
      refine ⟨h.noRecord, h.noToken, h.locked, fun a u ha => h.held a u ?_⟩
      have ha : ((s.held.del (server, uid)).get (a, u)).isSome := ha
      rw [Table.get_del] at ha
      split at ha
      · cases ha
      · exact ha
    · cases hs
  | notice i =>
    have hrecord := step_userOnline nodes h.noRecord hs
    simp only [step] at hs
    split at hs
    · cases hs
      refine ⟨hrecord, fun u => ?_, h.locked, h.held⟩
      dsimp only
      split
      · rw [Table.get_del, h.noToken u, ite_self]
      · exact h.noToken u
    · cases hs

theorem Waiting.exclusive {s : System} (h : Waiting s) : Exclusive nodes s where
  recorded := fun uid o ho => by
    rw [h.noToken uid] at ho
    cases ho
  kicksFirst := fun uid o _ _ ho => by
    rw [h.noToken uid] at ho
    cases ho
  oneServer := fun uid a b hab ha hb => by
    obtain ⟨call, hcall, rfl, -⟩ := h.held a uid ha
    obtain ⟨call', hcall', rfl, -⟩ := h.held b uid hb
    rw [hcall] at hcall'
    cases hcall'
    exact absurd rfl hab

/-- The runs in which no token is returned, and no call fails whose request is processed, keep the
login exclusive; a token returned in any run breaks it. -/
theorem exclusive_of_unanswered :
    (∀ s, (machine nodes).ReachUnder Unanswered s → Exclusive nodes s) ∧
    ∀ s s' uid, (machine nodes).Reach s → s.step nodes (.answer uid) = some s' → ¬ Exclusive nodes s' :=
  ⟨fun _ hs => (hs.invariant Waiting (by rintro _ rfl; exact init_waiting)
      (fun _ _ _ _ hI hg hstep => waiting_step nodes hI hg hstep)).exclusive nodes,
    fun _ _ _ hs hstep => not_exclusive_answer nodes hs hstep⟩

/-- Every node is configured, on this host and port. -/
def localNodes : String → Option NodeConf := fun _ => some ⟨"127.0.0.1", "8888"⟩

/-- A user whose handler waits: its token is the only one. The answer breaks the record. -/
theorem exclusive_of_unanswered_waiting :
    ∃ s s', (machine localNodes).exec init [.accept "u" "node1" "k", .access "u"] = some s ∧
      Exclusive localNodes s ∧ s.step localNodes (.answer "u") = some s' ∧ ¬ Exclusive localNodes s' := by
  have hrun : ∃ s ∈ (machine localNodes).exec init [.accept "u" "node1" "k", .access "u"],
      (s.step localNodes (.answer "u")).isSome := by
    decide +kernel
  obtain ⟨s, hs, hanswer⟩ := hrun
  obtain ⟨s', hs'⟩ := Option.isSome_iff_exists.mp hanswer
  have hunder : (machine localNodes).ReachUnder Unanswered s := by
    obtain ⟨s₁, h₁, hrest⟩ := Option.bind_eq_some_iff.mp hs
    obtain ⟨s₂, h₂, hdone⟩ := Option.bind_eq_some_iff.mp hrest
    cases hdone
    exact .step (.step (.start rfl) (show Unanswered _ (.accept "u" "node1" "k") from trivial) h₁)
      (show Unanswered _ (.access "u") from trivial) h₂
  exact ⟨s, s', hs, (exclusive_of_unanswered localNodes).1 s hunder, hs',
    (exclusive_of_unanswered localNodes).2 s s' "u" hunder.reach hs'⟩

/-- A user gets tokens of two servers, and neither is asked to drop the user. -/
theorem not_exclusive_two_servers :
    ¬ ∀ (nodes : String → Option NodeConf) (s : System), (machine nodes).Reach s → Exclusive nodes s := by
  intro h
  have hrun : ∃ s ∈ (machine localNodes).exec init
      [.accept "u" "node1" "k", .access "u", .answer "u", .accept "u" "node2" "l", .access "u",
        .answer "u"],
      (s.held.get ("node1", "u")).isSome ∧ (s.held.get ("node2", "u")).isSome ∧ s.asked = [] := by
    decide +kernel
  obtain ⟨s, hs, h1, h2, hasked⟩ := hrun
  rcases (h localNodes s (Lib.Machine.Reach.exec (.start rfl) hs)).oneServer "u" "node1" "node2"
    (by decide) h1 h2 with hmem | hmem
  · rw [hasked] at hmem
    cases hmem
  · rw [hasked] at hmem
    cases hmem

end System

end AntServer.Login
