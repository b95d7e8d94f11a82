/-
# AntServer.Agent.Commands — the requests of an agent

`Commands:start`, `Commands:trigger_mods` and `Commands:logout` of `service/agent/cmds/index.lua`,
and the client's request `born` of `mods/profile/profile.lua`, over the mods of `Agent.Mods`.

For each of them one lemma says what it does: which steps it is made of, and what it leaves alone.
The frame lemmas hold whether the computation returns or raises.
-/
import AntServer.Agent.Mods

namespace AntServer.Agent

open Lib (Table)

/-- The state an execution ends in, whether it returned or raised. -/
def after {α : Type} : EStateM.Result LuaError World α → World
  | .ok _ w => w
  | .error _ w => w

@[simp] theorem after_ok {α : Type} (a : α) (w : World) : after (.ok a w) = w := rfl
@[simp] theorem after_error {α : Type} (e : LuaError) (w : World) :
    after (.error e w : EStateM.Result LuaError World α) = w := rfl

section Requests

variable (order : PairsOrder) (pass : InitData → InitData)

/-- `Commands:trigger_mods`. The uin is a string, so `sessions.set_uin` does not raise; no front mod
has a `synch_msg` or an `update`. -/
def triggerMods (data : InitData) : AgentM Unit := do
  regMods pass data
  load order
  onModSave order

/-- `Commands:start`. `session.is_reconnect` is not read. -/
def start (session : Session) : AgentM Nat := do
  regProfile session
  match ← loadProfile with
  | none => return 0
  | some role =>
    triggerMods order pass { profile := some role }
    return 1

/-- The documents part of `Commands:logout`: `mods.force_save()`. -/
def logout : AgentM Unit := onModSave order

/-- `cmds:instance()`: the table `singleton.lua` returns has `new` and the declared methods. -/
def instanceOfCommands : AgentM Unit := throw (.call "instance")

/-- `_profiled:born(args)` on the object of `M.reg_profile`. -/
def bornProfile (random : Fin 10) (now : Nat) : AgentM Role := do
  let w ← get
  match w.profiled with
  | none => throw .assertion
  | some self =>
    let (role, self, db) := self.born w.db random now
    set { w with profiled := some self, db := db }
    return role

/-- The request `born` of the client. -/
def born (args : BornArgs) (random : Fin 10) (now : Nat) : AgentM Unit := do
  let role ← bornProfile random now
  instanceOfCommands
  triggerMods order pass { profile := some role, born := some args }
  saveProfile

end Requests

/-- The role the stored profile of an account has for its server. -/
def Database.storedRole (db : Database) (session : Session) : Option Role :=
  (db.profile.get session.openid).bind fun doc => doc.data.get (toString session.serverId)

/-- The mod `k` of a role holds the document stored under the role's uin, or the one made for it
when there is none. -/
def HoldsDocument (db : Database) (role : Role) (k : ModName) (self : Backend) : Prop :=
  self.profile = some role ∧ ∃ data, self.data = some data ∧
    (db.mods.get (k, role.uin) = some data ∨
      db.mods.get (k, role.uin) = none ∧ self.newData role k = .ok data)

/-! ## What each step does -/

/-- The agent after `M.reg_profile` and `profiled:load()`. -/
def World.profileLoaded (w : World) (session : Session) : World :=
  { w with profiled := some { session := session, data := w.db.profile.get session.openid } }

/-- The agent after `M.reg_mods` with the documents not loaded. -/
def World.registered (w : World) (data : InitData) : World :=
  { w with
    backends := (w.backends.set .property (.initializeWith .property data)).set .battle
      (.initializeWith .battle data) }

@[simp] theorem World.profileLoaded_db (w : World) (session : Session) :
    (w.profileLoaded session).db = w.db := rfl
@[simp] theorem World.registered_db (w : World) (data : InitData) :
    (w.registered data).db = w.db := rfl
@[simp] theorem World.registered_hashcodes (w : World) (data : InitData) :
    (w.registered data).hashcodes = w.hashcodes := rfl

theorem World.registered_backends (w : World) (data : InitData) (k : ModName) :
    (w.registered data).backends.get k = some (.initializeWith k data) := by
  cases k
  · exact (Table.get_set_ne _ _ (by decide)).trans (Table.get_set_self _ _ _)
  · exact Table.get_set_self _ _ _

/-- `start` is the load of the profile, and with a role the registration of its mods. -/
theorem start_eq (order : PairsOrder) (pass : InitData → InitData) (session : Session) (w : World) :
    start order pass session w =
      match w.db.storedRole session with
      | none => .ok 0 (w.profileLoaded session)
      | some role =>
        (do triggerMods order pass { profile := some role }; return 1) (w.profileLoaded session) := by
  have hload : (do regProfile session; loadProfile : AgentM (Option Role)) w =
      .ok (w.db.storedRole session) (w.profileLoaded session) := rfl
  have hbind : start order pass session w =
      ((do regProfile session; loadProfile : AgentM (Option Role)) >>= fun role? =>
        match role? with
        | none => return 0
        | some role => do
          triggerMods order pass { profile := some role }
          return 1) w := rfl
  rw [hbind]
  show EStateM.bind _ _ w = _
  rw [EStateM.bind, hload]
  cases w.db.storedRole session <;> rfl

/-- With constructors that receive their data, a `start` that finds a role loads and saves the mods
registered for it. -/
theorem start_id (order : PairsOrder) {session : Session} {w : World} {role : Role}
    (h : w.db.storedRole session = some role) :
    start order id session w =
      ((do load order; onModSave order : AgentM Unit) >>= fun _ => pure 1 : AgentM Nat)
        ((w.profileLoaded session).registered { profile := some role }) := by
  rw [start_eq, h]
  rfl

/-! ## Loops over the mods -/

/-- A property each body keeps, whether it returns or raises, is kept by the loop. -/
theorem forPairs_after {body : ModName → AgentM Unit} (P : World → Prop)
    (hbody : ∀ k w, P w → P (after (body k w))) (ks : List ModName) {w : World} (h : P w) :
    P (after (forPairs body ks w)) := by
  induction ks generalizing w with
  | nil => exact h
  | cons k ks ih =>
    have hk := hbody k w h
    show P (after (EStateM.bind (body k) _ w))
    unfold EStateM.bind
    cases hrun : body k w with
    | ok _ w' =>
      rw [hrun] at hk
      exact ih hk
    | error e w' =>
      rw [hrun] at hk
      exact hk

/-- A loop that returns has returned from its first body and from the rest. -/
theorem forPairs_cons_ok {body : ModName → AgentM Unit} {k : ModName} {ks : List ModName} {w w' : World} :
    forPairs body (k :: ks) w = .ok () w' ↔
      ∃ w₁, body k w = .ok () w₁ ∧ forPairs body ks w₁ = .ok () w' := by
  show EStateM.bind (body k) _ w = _ ↔ _
  unfold EStateM.bind
  cases body k w with
  | ok _ w₁ => exact ⟨fun h => ⟨w₁, rfl, h⟩, fun ⟨_, h, h'⟩ => by cases h; exact h'⟩
  | error e w₁ => exact ⟨fun h => (by cases h), fun ⟨_, h, _⟩ => (by cases h)⟩

/-! ### The load -/

/-- Every mod is registered for the role. -/
def World.RegisteredFor (w : World) (role : Role) : Prop :=
  ∀ k, ∃ self, w.backends.get k = some self ∧ self.profile = some role

theorem World.registered_for (w : World) (role : Role) (born : Option BornArgs) :
    (w.registered { profile := some role, born := born }).RegisteredFor role := by
  intro k
  refine ⟨_, w.registered_backends _ k, ?_⟩
  cases k <;> rfl

/-- What `loadMod` does for a registered mod, as an equation. -/
theorem loadMod_eq {k : ModName} {w : World} {self : Backend} (h : w.backends.get k = some self) :
    loadMod k w =
      match self.load k w.db with
      | .error e => .error e w
      | .ok self => .ok () { w with backends := w.backends.set k self } := by
  unfold loadMod
  show EStateM.bind EStateM.get _ w = _
  simp only [EStateM.bind]
  rw [show EStateM.get w = .ok w w from rfl]
  simp only [h]
  cases self.load k w.db <;> rfl

/-- A document a mod has loaded is the stored one, or the one made when there is none. -/
theorem Backend.load_holds {self self' : Backend} {k : ModName} {db : Database} {role : Role}
    (hrole : self.profile = some role) (h : self.load k db = .ok self') :
    HoldsDocument db role k self' := by
  unfold Backend.load at h
  simp only [hrole] at h
  split at h
  · rename_i data hstored
    cases h
    exact ⟨rfl, data, rfl, .inl hstored⟩
  · rename_i hnone
    cases hnew : self.newData role k with
    | error e => rw [hnew] at h; cases h
    | ok data =>
      rw [hnew] at h
      cases h
      refine ⟨rfl, data, rfl, .inr ⟨hnone, ?_⟩⟩
      rw [← hnew]
      cases k <;> rfl

/-- A stored document is loaded. -/
theorem Backend.load_stored {self : Backend} {k : ModName} {db : Database} {role : Role} {data : LuaVal}
    (hrole : self.profile = some role) (hd : db.mods.get (k, role.uin) = some data) :
    self.load k db = .ok { self with data := some data } := by
  simp only [Backend.load, hrole, hd]

/-- A load of a registered mod keeps every registration and every document already held. -/
theorem loadMod_ok {k : ModName} {w w' : World} {role : Role} (hreg : w.RegisteredFor role)
    (h : loadMod k w = .ok () w') :
    w'.RegisteredFor role ∧ w'.db = w.db ∧
      ∀ j self', w'.backends.get j = some self' →
        j = k ∧ HoldsDocument w.db role j self' ∨ j ≠ k ∧ w.backends.get j = some self' := by
  obtain ⟨self, hself, hrole⟩ := hreg k
  rw [loadMod_eq hself] at h
  cases hload : self.load k w.db with
  | error e => rw [hload] at h; cases h
  | ok self' =>
    rw [hload] at h
    cases h
    have hholds := Backend.load_holds hrole hload
    refine ⟨fun j => ?_, rfl, fun j self'' hj => ?_⟩
    · by_cases hjk : j = k
      · subst hjk
        exact ⟨self', Table.get_set_self _ _ _, hholds.1⟩
      · obtain ⟨selfj, hj, hrolej⟩ := hreg j
        exact ⟨selfj, (Table.get_set_ne _ _ hjk).trans hj, hrolej⟩
    · by_cases hjk : j = k
      · subst hjk
        rw [Table.get_set_self] at hj
        cases hj
        exact .inl ⟨rfl, hholds⟩
      · exact .inr ⟨hjk, (Table.get_set_ne _ _ hjk).symm.trans hj⟩

/-- After a load that returned, every mod it visited holds its document. -/
theorem forPairs_loadMod_ok {ks : List ModName} {w w' : World} {role : Role}
    (hreg : w.RegisteredFor role) (h : forPairs loadMod ks w = .ok () w') :
    w'.RegisteredFor role ∧ w'.db = w.db ∧
      ∀ j self', w'.backends.get j = some self' →
        HoldsDocument w.db role j self' ∨ j ∉ ks ∧ w.backends.get j = some self' := by
  induction ks generalizing w with
  | nil =>
    cases h
    exact ⟨hreg, rfl, fun j self' hj => .inr ⟨List.not_mem_nil, hj⟩⟩
  | cons k ks ih =>
    obtain ⟨w₁, hk, hrest⟩ := forPairs_cons_ok.mp h
    obtain ⟨hreg₁, hdb₁, hmods₁⟩ := loadMod_ok hreg hk
    obtain ⟨hreg', hdb', hmods'⟩ := ih hreg₁ hrest
    refine ⟨hreg', hdb'.trans hdb₁, fun j self' hj => ?_⟩
    rcases hmods' j self' hj with hholds | ⟨hjks, hj₁⟩
    · exact .inl (hdb₁ ▸ hholds)
    · rcases hmods₁ j self' hj₁ with ⟨-, hholds⟩ | ⟨hjk, hjw⟩
      · exact .inl hholds
      · exact .inr ⟨by simp [hjk, hjks], hjw⟩

/-- When every document is stored, the load returns. -/
theorem forPairs_loadMod_stored (ks : List ModName) {w : World} {role : Role}
    (hreg : w.RegisteredFor role) (hstored : ∀ k, ∃ data, w.db.mods.get (k, role.uin) = some data) :
    ∃ w', forPairs loadMod ks w = .ok () w' := by
  induction ks generalizing w with
  | nil => exact ⟨w, rfl⟩
  | cons k ks ih =>
    obtain ⟨self, hself, hrole⟩ := hreg k
    obtain ⟨data, hdata⟩ := hstored k
    have hk : loadMod k w =
        .ok () { w with backends := w.backends.set k { self with data := some data } } := by
      rw [loadMod_eq hself, Backend.load_stored hrole hdata]
    obtain ⟨w', hrest⟩ := ih (loadMod_ok hreg hk).1 hstored
    exact ⟨w', forPairs_cons_ok.mpr ⟨_, hk, hrest⟩⟩

/-! ### The save -/

/-- `saveMod` as an equation. -/
theorem saveMod_run (k : ModName) (w : World) :
    saveMod k w =
      match w.backends.get k with
      | none => .ok () w
      | some self =>
        match self.data with
        | none => .error .assertion w
        | some data =>
          match LuaHash.hashcode data with
          | .error e => .error e w
          | .ok nhcode =>
            if w.hashcodes.get k = some nhcode then
              .ok () { w with hashcodes := w.hashcodes.set k nhcode }
            else
              match self.save k data w.db with
              | .error e => .error e w
              | .ok db => .ok () { w with db := db, hashcodes := w.hashcodes.set k nhcode } := by
  have hget : saveMod k w = (match w.backends.get k with
    | none => pure ()
    | some self =>
      match self.data with
      | none => throw .assertion
      | some data =>
        match LuaHash.hashcode data with
        | .error e => throw e
        | .ok nhcode =>
          if w.hashcodes.get k = some nhcode then
            set { w with hashcodes := w.hashcodes.set k nhcode }
          else
            match self.save k data w.db with
            | .error e => throw e
            | .ok db => set { w with db := db, hashcodes := w.hashcodes.set k nhcode } : AgentM Unit) w :=
    rfl
  rw [hget]
  cases w.backends.get k with
  | none => rfl
  | some self =>
    dsimp only
    cases self.data with
    | none => rfl
    | some data =>
      dsimp only
      cases LuaHash.hashcode data with
      | error e => rfl
      | ok nhcode =>
        dsimp only
        split
        · rfl
        · cases self.save k data w.db <;> rfl

/-- A save of a mod with a document that can be hashed writes it back unless the remembered code is
the same. -/
theorem saveMod_eq {k : ModName} {w : World} {self : Backend} {role : Role} {data : LuaVal}
    {nhcode : BitVec 32} (hself : w.backends.get k = some self) (hrole : self.profile = some role)
    (hdata : self.data = some data) (hhash : LuaHash.hashcode data = .ok nhcode) :
    saveMod k w = .ok ()
      { w with
        db := if w.hashcodes.get k = some nhcode then w.db
          else { w.db with mods := w.db.mods.set (k, role.uin) data }
        hashcodes := w.hashcodes.set k nhcode } := by
  have hsave : self.save k data w.db = .ok { w.db with mods := w.db.mods.set (k, role.uin) data } := by
    simp only [Backend.save, hrole]
  rw [saveMod_run]
  simp only [hself, hdata, hhash, hsave]
  split <;> rfl

theorem Backend.save_profile {self : Backend} {k : ModName} {data : LuaVal} {db db' : Database}
    (h : self.save k data db = .ok db') : db'.profile = db.profile := by
  unfold Backend.save at h
  split at h
  · cases h
  · cases h
    rfl

/-- A save touches neither the mods nor the profiles, whether it returns or raises. -/
theorem saveMod_after (k : ModName) (w : World) :
    (after (saveMod k w)).backends = w.backends ∧ (after (saveMod k w)).db.profile = w.db.profile := by
  rw [saveMod_run]
  split
  · exact ⟨rfl, rfl⟩
  · split
    · exact ⟨rfl, rfl⟩
    · split
      · exact ⟨rfl, rfl⟩
      · split
        · exact ⟨rfl, rfl⟩
        · split
          · exact ⟨rfl, rfl⟩
          · rename_i db hsave
            exact ⟨rfl, Backend.save_profile hsave⟩

theorem onModSave_after (order : PairsOrder) (w : World) :
    (after (onModSave order w)).backends = w.backends ∧
      (after (onModSave order w)).db.profile = w.db.profile :=
  forPairs_after (fun w' => w'.backends = w.backends ∧ w'.db.profile = w.db.profile)
    (fun k w' h => ⟨(saveMod_after k w').1.trans h.1, (saveMod_after k w').2.trans h.2⟩)
    order.visit ⟨rfl, rfl⟩

end AntServer.Agent
