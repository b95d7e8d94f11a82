/-
# AntServer.Agent.RoleFlow — loading and creating the role of an account

What `start` and `born` are for, as one property of an account and a database (`RoleFlow`): an
account with a role gets its documents, an account without one can create it and then has it.

No account has the property in the code. The two ways in which it fails are the two lemmas
`start_stored` and `born_raises`: a stored role makes `start` register the mods, whose constructors
receive the class table, and the front mod `battle` raises on the missing handler; an account without
a role reaches `born`, which draws a uin and then calls a method that `singleton.lua` does not
declare.
-/
import AntServer.Agent.Commands

namespace AntServer.Agent

open Lib (Table)

variable (order : PairsOrder) (pass : InitData → InitData)

/-- What may follow on the same database: requests to the agent, and another agent in its place. -/
inductive Request where
  | start (session : Session)
  | born (args : BornArgs) (random : Fin 10) (now : Nat)
  | newAgent

/-- The state a request leaves. -/
def serve (w : World) : Request → World
  | .start session => after (start order pass session w)
  | .born args random now => after (born order pass args random now w)
  | .newAgent => .fresh w.db

/-- No stored profile has a role with this uin. -/
def Database.UnusedUin (db : Database) (uin : String) : Prop :=
  ∀ openid doc key role, db.profile.get openid = some doc → doc.data.get key = some role →
    role.uin ≠ uin

/-- Role creation and loading for the account of `session`, from the state `w` of its agent. -/
structure RoleFlow (w : World) (session : Session) (args : BornArgs) (random : Fin 10) (now : Nat) :
    Prop where
  /-- With a stored role, `start` returns 1 and every mod holds its document. -/
  loads : ∀ role, w.db.storedRole session = some role →
    ∃ w', start order pass session w = .ok 1 w' ∧
      ∀ k, ∃ self, w'.backends.get k = some self ∧ HoldsDocument w.db role k self
  /-- Without one, `start` returns 0. -/
  answers : w.db.storedRole session = none → ∃ w', start order pass session w = .ok 0 w'
  /-- When `start` returned 0, `born` completes, and from then on the account has its role. -/
  creates : ∀ w₁, start order pass session w = .ok 0 w₁ →
    ∃ w₂ role, born order pass args random now w₁ = .ok () w₂ ∧
      w₂.db.storedRole session = some role ∧ w.db.UnusedUin role.uin ∧
      w₂.db.mods.get (.property, role.uin) = some (Propertyd.newData role args) ∧
      ∀ requests : List Request, ∃ w₃,
        start order pass session (requests.foldl (serve order pass) w₂) = .ok 1 w₃ ∧
        w₃.db.storedRole session = some role
  /-- With a stored role, `born` changes neither the role nor the database. -/
  keeps : ∀ role, w.db.storedRole session = some role →
    let w₁ := after (start order pass session w)
    let w₂ := after (born order pass args random now w₁)
    w₂.db = w₁.db ∧ w₂.profiled.bind Profiled.checkBorn = w₁.profiled.bind Profiled.checkBorn

/-! ## The two failures -/

/-- With a stored role, `start` raises in the constructor of the front mod `battle`. -/
theorem start_stored {session : Session} {w : World} {role : Role}
    (h : w.db.storedRole session = some role) :
    start order colonNew session w =
      .error (.index "nil" "_handler") ((w.profileLoaded session).registered {}) := by
  rw [start_eq, h]
  rfl

/-- `born` raises at `cmds:instance()`, after the role is in the agent's profile and the counter of
the server is drawn from. -/
theorem born_raises (args : BornArgs) (random : Fin 10) (now : Nat) {w : World} {self : Profiled}
    (h : w.profiled = some self) :
    born order pass args random now w =
      .error (.call "instance")
        { w with
          profiled := some (self.born w.db random now).2.1
          db := (self.born w.db random now).2.2 } := by
  obtain ⟨db, profiled, backends, hashcodes⟩ := w
  cases h
  rfl

/-- Without a stored role, `start` returns 0 and keeps the profile it found. -/
theorem start_none {session : Session} {w : World} (h : w.db.storedRole session = none) :
    start order pass session w = .ok 0 (w.profileLoaded session) := by
  rw [start_eq, h]

/-- No account of any database has its role loaded or created. -/
theorem roleFlow_never (w : World) (session : Session) (args : BornArgs) (random : Fin 10) (now : Nat) :
    ¬ RoleFlow order colonNew w session args random now := by
  intro h
  cases hrole : w.db.storedRole session with
  | some role =>
    obtain ⟨w', hstart, -⟩ := h.loads role hrole
    rw [start_stored order hrole] at hstart
    cases hstart
  | none =>
    obtain ⟨w₂, -, hborn, -⟩ := h.creates _ (start_none order colonNew hrole)
    rw [born_raises order colonNew args random now rfl] at hborn
    cases hborn

/-- A returning player is not let in: `start` raises. -/
theorem not_roleFlow_returningPlayer :
    ¬ RoleFlow propertyFirst colonNew (.fresh returningPlayer) ⟨"a", 1, false⟩ ⟨none, none, none⟩ 0 0 := by
  intro h
  have hrole : (World.fresh returningPlayer).db.storedRole ⟨"a", 1, false⟩ =
      some { uin := "10", serverId := 1, born := 0 } := rfl
  obtain ⟨w', hstart, -⟩ := h.loads _ hrole
  rw [start_stored propertyFirst hrole] at hstart
  cases hstart

end AntServer.Agent
