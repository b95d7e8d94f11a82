/-
# AntServer.Agent.SaveFlow — what an agent has in the database when its user leaves

The runs of one agent: `start`, modifications of the documents, `on_mod_save` at any moment and
`logout`, for one user after another (the constructors receive the data `reg_mods` passes them). A
ghost keeps for every mod the document of the first `start` with every modification since (`ideal`).

The saves are the write-back of `Lib.WriteBack` (`saveMod_writeBack`), so a `logout` stores every
document whose hash the agent can tell from the remembered one. Two things come between: a
`start` repeated for the same user loads the stored documents over the modified ones, and the code
remembered for another document, of an earlier user or an earlier state, may be the hash of the
present one. `Orderly` excludes the two, and under it no modification is lost.
-/
import AntServer.Lib.Machine
import AntServer.Agent.Commands

namespace AntServer.Agent

open Lib (Table)

/-! ## The saves as a write-back -/

/-- The documents of an agent whose role has the uin, over the database. -/
def World.writeBack (w : World) (uin : String) :
    Lib.WriteBack ModName LuaVal (Except LuaError (BitVec 32)) where
  memory k := (w.backends.get k).bind Backend.data
  store k := w.db.mods.get (k, uin)
  seen k := (w.hashcodes.get k).map Except.ok

/-- The mod `k` holds the document `data` of the role. -/
def World.Holds (w : World) (role : Role) (k : ModName) (data : LuaVal) : Prop :=
  ∃ self, w.backends.get k = some self ∧ self.profile = some role ∧ self.data = some data

theorem World.Holds.memory {w : World} {role : Role} {k : ModName} {data : LuaVal}
    (h : w.Holds role k data) (uin : String) : (w.writeBack uin).memory k = some data := by
  obtain ⟨self, hself, -, hdata⟩ := h
  show (w.backends.get k).bind Backend.data = some data
  rw [hself]
  exact hdata

/-- One save is one flush. -/
theorem saveMod_writeBack {k : ModName} {w : World} {role : Role} {data : LuaVal} {nhcode : BitVec 32}
    (hk : w.Holds role k data) (hhash : LuaHash.hashcode data = .ok nhcode) :
    ∃ w', saveMod k w = .ok () w' ∧ w'.backends = w.backends ∧
      w'.writeBack role.uin = (w.writeBack role.uin).flush LuaHash.hashcode k := by
  have hmem := hk.memory role.uin
  obtain ⟨self, hself, hrole, hdata⟩ := hk
  refine ⟨_, saveMod_eq hself hrole hdata hhash, rfl, ?_⟩
  have hseen : (w.writeBack role.uin).seen k = some (LuaHash.hashcode data) ↔
      w.hashcodes.get k = some nhcode := by
    show (w.hashcodes.get k).map Except.ok = _ ↔ _
    rw [hhash]
    cases w.hashcodes.get k <;> simp
  unfold Lib.WriteBack.flush
  simp only [hmem, hseen]
  unfold World.writeBack
  congr 1
  · funext j
    by_cases hold : w.hashcodes.get k = some nhcode
    · simp only [if_pos hold]
    · simp only [if_neg hold, Table.get_set, Prod.mk.injEq, and_true, Function.update_apply]
  · funext j
    simp only [Table.get_set, Function.update_apply, hhash]
    split <;> rfl

/-- A loop of saves is the flush of its mods. -/
theorem forPairs_saveMod_writeBack {role : Role} {data : ModName → LuaVal}
    (hhash : ∀ k, ∃ nhcode, LuaHash.hashcode (data k) = .ok nhcode) (ks : List ModName) {w : World}
    (hw : ∀ k, w.Holds role k (data k)) :
    ∃ w', forPairs saveMod ks w = .ok () w' ∧
      w'.writeBack role.uin = (w.writeBack role.uin).flushAll LuaHash.hashcode ks := by
  induction ks generalizing w with
  | nil => exact ⟨w, rfl, rfl⟩
  | cons k ks ih =>
    obtain ⟨nhcode, hk⟩ := hhash k
    obtain ⟨w₁, hsave, hmods, hflush⟩ := saveMod_writeBack (hw k) hk
    have hw₁ : ∀ j, w₁.Holds role j (data j) := fun j => by
      obtain ⟨self, hself, h⟩ := hw j
      exact ⟨self, hmods ▸ hself, h⟩
    obtain ⟨w', hrest, hflushAll⟩ := ih hw₁
    refine ⟨w', forPairs_cons_ok.mpr ⟨w₁, hsave, hrest⟩, ?_⟩
    rw [hflushAll, hflush]
    rfl

/-! ## The runs of an agent -/

/-- The user an agent is started for: the session of the first `start`, and the role it found. -/
structure Live where
  session : Session
  role : Role

/-- An agent, its user, and for every mod the document with all modifications since the user's first
`start`. -/
structure Run where
  world : World
  live : Option Live
  ideal : ModName → Option LuaVal

inductive Op where
  | start (session : Session)
  | modify (k : ModName) (f : LuaVal → LuaVal)
  | onModSave
  | logout

/-- Change the document of a mod in place. -/
def World.modify (w : World) (k : ModName) (f : LuaVal → LuaVal) : World :=
  match w.backends.get k with
  | none => w
  | some self => { w with backends := w.backends.set k { self with data := self.data.map f } }

/-- A `start` is repeated for the user the agent has. -/
def SameAccount (a b : Session) : Prop := a.openid = b.openid ∧ a.serverId = b.serverId

instance (a b : Session) : Decidable (SameAccount a b) := inferInstanceAs (Decidable (_ ∧ _))

namespace Run

variable (order : PairsOrder)

/-- One operation. The first `start` that returns 1 gives the agent its user, `logout` ends it. -/
def step (s : Run) : Op → Option Run
  | .start session =>
    match s.live with
    | some l =>
      if SameAccount l.session session then
        some { s with world := after (Agent.start order id session s.world) }
      else none
    | none =>
      match Agent.start order id session s.world with
      | .ok 1 w => some
          { world := w
            live := (w.db.storedRole session).map fun role => ⟨session, role⟩
            ideal := fun k => (w.backends.get k).bind Backend.data }
      | .ok _ w => some { s with world := w }
      | .error _ w => some { s with world := w }
  | .modify k f => some
      { s with
        world := s.world.modify k f
        ideal := Function.update s.ideal k ((s.ideal k).map f) }
  | .onModSave => some { s with world := after (Agent.onModSave order s.world) }
  | .logout => some { s with world := after (Agent.logout order s.world), live := none }

/-- The runs of an agent over a database of any content. -/
def machine : Lib.Machine Run Op where
  start s := ∃ db, s = { world := .fresh db, live := none, ideal := fun _ => none }
  step := step order

/-- The `logout` of a user returns, and every document is then stored as the modifications left it. -/
def NoLoss (s : Run) : Prop :=
  ∀ l, s.live = some l → ∃ w', Agent.logout order s.world = .ok () w' ∧
    ∀ k, ∃ data, s.ideal k = some data ∧ w'.db.mods.get (k, l.role.uin) = some data

/-- A save of the document leaves it stored: it can be hashed, and it is already stored if its hash is
the remembered one. -/
def SaveSees (w : World) (uin : String) (k : ModName) (data : LuaVal) : Prop :=
  match LuaHash.hashcode data with
  | .ok nhcode => w.hashcodes.get k = some nhcode → w.db.mods.get (k, uin) = some data
  | .error _ => False

theorem saveSees_iff {w : World} {uin : String} {k : ModName} {data : LuaVal} :
    SaveSees w uin k data ↔ ∃ nhcode, LuaHash.hashcode data = .ok nhcode ∧
      (w.hashcodes.get k = some nhcode → w.db.mods.get (k, uin) = some data) := by
  unfold SaveSees
  cases LuaHash.hashcode data with
  | ok nhcode => exact ⟨fun h => ⟨nhcode, rfl, h⟩, fun ⟨_, hn, h⟩ => by cases hn; exact h⟩
  | error e => exact ⟨False.elim, fun ⟨_, hn, _⟩ => by cases hn⟩

/-- A repeated `start` finds every document stored as it is in memory, and the save of `logout` sees
every document. -/
def Orderly (s : Run) : Op → Prop
  | .start _ => ∀ l, s.live = some l → ∀ k,
      s.world.db.mods.get (k, l.role.uin) = (s.world.backends.get k).bind Backend.data
  | .logout => ∀ l, s.live = some l → ∀ k data, (s.world.backends.get k).bind Backend.data = some data →
      SaveSees s.world l.role.uin k data
  | _ => True

/-! ## The invariant -/

/-- While an agent has a user, the stored profile has the user's role, and every mod holds the
document with all modifications. -/
def Inv (s : Run) : Prop :=
  ∀ l, s.live = some l → s.world.db.storedRole l.session = some l.role ∧
    ∀ k, ∃ data, s.ideal k = some data ∧ s.world.Holds l.role k data

theorem storedRole_congr {db db' : Database} (h : db'.profile = db.profile) {a b : Session}
    (hab : SameAccount a b) : db'.storedRole b = db.storedRole a := by
  unfold Database.storedRole
  rw [h, hab.1, hab.2]

/-- A save changes no document in memory. -/
theorem holds_onModSave {w : World} {role : Role} {k : ModName} {data : LuaVal}
    (h : w.Holds role k data) : (after (Agent.onModSave order w)).Holds role k data := by
  obtain ⟨self, hself, h⟩ := h
  exact ⟨self, (onModSave_after order w).1 ▸ hself, h⟩

/-- What a `start` that finds a role leaves, when its load returns. -/
theorem start_loaded {session : Session} {w : World} {role : Role}
    (hrole : w.db.storedRole session = some role) {w₁ : World}
    (hload : load order ((w.profileLoaded session).registered { profile := some role }) = .ok () w₁) :
    after (Agent.start order id session w) = after (Agent.onModSave order w₁) ∧ w₁.db = w.db ∧
      ∀ k, ∃ self, w₁.backends.get k = some self ∧ HoldsDocument w.db role k self := by
  obtain ⟨hreg, hdb, hmods⟩ := forPairs_loadMod_ok
    ((w.profileLoaded session).registered_for role none) hload
  refine ⟨?_, hdb, fun k => ?_⟩
  · rw [start_id order hrole]
    show after (EStateM.bind (EStateM.bind (load order) _) _ _) = _
    simp only [EStateM.bind, hload]
    cases Agent.onModSave order w₁ <;> rfl
  · obtain ⟨self, hself, -⟩ := hreg k
    rcases hmods k self hself with hholds | ⟨hnot, -⟩
    · exact ⟨self, hself, hholds⟩
    · exact absurd (order.complete k) hnot

/-- A `start` that returns 1 has found a role and loaded its documents. -/
theorem start_ok {session : Session} {w w' : World} (h : Agent.start order id session w = .ok 1 w') :
    ∃ role, w'.db.storedRole session = some role ∧ ∀ k, ∃ data, w'.Holds role k data := by
  cases hrole : w.db.storedRole session with
  | none =>
    rw [start_eq, hrole] at h
    cases h
  | some role =>
    have hrun := h
    rw [start_id order hrole] at hrun
    cases hload : load order ((w.profileLoaded session).registered { profile := some role }) with
    | error e w₁ =>
      have : (Agent.start order id session w) = .error e w₁ := by
        rw [start_id order hrole]
        show EStateM.bind (EStateM.bind (load order) _) _ _ = _
        simp only [EStateM.bind, hload]
      rw [this] at h
      cases h
    | ok _ w₁ =>
      obtain ⟨hafter, hdb, hmods⟩ := start_loaded order hrole hload
      rw [h, after_ok] at hafter
      subst hafter
      refine ⟨role, ?_, fun k => ?_⟩
      · rw [← hrole, ← hdb]
        exact storedRole_congr (onModSave_after order w₁).2 ⟨rfl, rfl⟩
      · obtain ⟨self, hself, hprofile, data, hdata, -⟩ := hmods k
        exact ⟨data, holds_onModSave order ⟨self, hself, hprofile, hdata⟩⟩

/-- A `start` repeated when every document is stored as it is in memory changes no document. -/
theorem start_repeated {session : Session} {w : World} {role : Role} {data : ModName → LuaVal}
    (hrole : w.db.storedRole session = some role)
    (hstored : ∀ k, w.db.mods.get (k, role.uin) = some (data k)) :
    (after (Agent.start order id session w)).db.storedRole session = some role ∧
      ∀ k, (after (Agent.start order id session w)).Holds role k (data k) := by
  obtain ⟨w₁, hload⟩ := forPairs_loadMod_stored order.visit
    ((w.profileLoaded session).registered_for role none) fun k => ⟨_, hstored k⟩
  obtain ⟨hafter, hdb, hmods⟩ := start_loaded order hrole hload
  rw [hafter]
  refine ⟨?_, fun k => holds_onModSave order ?_⟩
  · rw [← hrole, ← hdb]
    exact storedRole_congr (onModSave_after order w₁).2 ⟨rfl, rfl⟩
  · obtain ⟨self, hself, hprofile, d, hd, hdoc⟩ := hmods k
    refine ⟨self, hself, hprofile, hd.trans ?_⟩
    rcases hdoc with hdoc | ⟨hnone, -⟩
    · exact hdoc.symm.trans (hstored k)
    · rw [hstored k] at hnone
      cases hnone

theorem holds_modify {w : World} {role : Role} {j k : ModName} {data : LuaVal} (f : LuaVal → LuaVal)
    (h : w.Holds role j data) : (w.modify k f).Holds role j (if j = k then f data else data) := by
  obtain ⟨self, hself, hprofile, hdata⟩ := h
  unfold World.modify
  by_cases hjk : j = k
  · subst hjk
    rw [if_pos rfl, hself]
    exact ⟨{ self with data := self.data.map f }, Table.get_set_self _ _ _, hprofile,
      by rw [hdata]; rfl⟩
  · rw [if_neg hjk]
    cases hk : w.backends.get k with
    | none => exact ⟨self, hself, hprofile, hdata⟩
    | some selfk => exact ⟨self, (Table.get_set_ne _ _ hjk).trans hself, hprofile, hdata⟩

theorem modify_db (w : World) (k : ModName) (f : LuaVal → LuaVal) : (w.modify k f).db = w.db := by
  unfold World.modify
  split <;> rfl

theorem inv_step {s s' : Run} {op : Op} (h : Inv s) (hg : Orderly s op)
    (hs : step order s op = some s') : Inv s' := by
  cases op with
  | start session =>
    simp only [step] at hs
    split at hs
    · rename_i l hlive
      split at hs
      · rename_i hsame
        cases hs
        intro l' hl'
        obtain rfl : l = l' := Option.some.inj (hlive.symm.trans hl')
        obtain ⟨hrole, hdocs⟩ := h l hlive
        have hstored : ∀ k, ∃ data, s.ideal k = some data ∧
            s.world.db.mods.get (k, l.role.uin) = some data := fun k => by
          obtain ⟨data, hideal, hholds⟩ := hdocs k
          exact ⟨data, hideal, (hg l hlive k).trans (hholds.memory "")⟩
        choose data hideal hstored using hstored
        have hrole' : s.world.db.storedRole session = some l.role :=
          (storedRole_congr rfl hsame).trans hrole
        obtain ⟨hafter, hholds⟩ := start_repeated order hrole' hstored
        refine ⟨?_, fun k => ⟨data k, hideal k, hholds k⟩⟩
        exact (storedRole_congr rfl hsame).symm.trans hafter
      · cases hs
    · rename_i hlive
      split at hs
      · rename_i w hstart
        cases hs
        intro l hl
        obtain ⟨role, hrole, hholds⟩ := start_ok order hstart
        simp only [hrole, Option.map_some, Option.some.injEq] at hl
        subst hl
        refine ⟨hrole, fun k => ?_⟩
        obtain ⟨data, hk⟩ := hholds k
        exact ⟨data, hk.memory "", hk⟩
      · cases hs
        intro l hl
        exact absurd (hl.symm.trans hlive) (by simp)
      · cases hs
        intro l hl
        exact absurd (hl.symm.trans hlive) (by simp)
  | modify k f =>
    cases hs
    intro l hl
    obtain ⟨hrole, hdocs⟩ := h l hl
    refine ⟨(storedRole_congr (by rw [modify_db]) ⟨rfl, rfl⟩).trans hrole, fun j => ?_⟩
    obtain ⟨data, hideal, hholds⟩ := hdocs j
    refine ⟨_, ?_, holds_modify f hholds⟩
    by_cases hjk : j = k
    · subst hjk
      simp only [Function.update_self, hideal, Option.map_some, if_pos]
    · simp only [Function.update_of_ne hjk, hideal, if_neg hjk]
  | onModSave =>
    cases hs
    intro l hl
    obtain ⟨hrole, hdocs⟩ := h l hl
    refine ⟨(storedRole_congr (onModSave_after order _).2 ⟨rfl, rfl⟩).trans hrole, fun k => ?_⟩
    obtain ⟨data, hideal, hholds⟩ := hdocs k
    exact ⟨data, hideal, holds_onModSave order hholds⟩
  | logout =>
    cases hs
    intro l hl
    cases hl

theorem reachUnder_inv {s : Run} (h : (machine order).ReachUnder Orderly s) : Inv s :=
  h.invariant Inv
    (by rintro s ⟨db, rfl⟩ l hl; cases hl)
    (fun _ _ _ _ hI hg hs => inv_step order hI hg hs)

/-! ## The logout -/

/-- In a run whose operations are all `Orderly`, an `Orderly` `logout` loses nothing. -/
theorem noLoss_of_orderly (s : Run) (hs : (machine order).ReachUnder Orderly s)
    (hg : Orderly s .logout) : NoLoss order s := by
  intro l hl
  obtain ⟨hrole, hdocs⟩ := reachUnder_inv order hs l hl
  choose data hideal hholds using hdocs
  have hready : ∀ k, ∃ nhcode, LuaHash.hashcode (data k) = .ok nhcode ∧
      (s.world.hashcodes.get k = some nhcode → s.world.db.mods.get (k, l.role.uin) = some (data k)) :=
    fun k => saveSees_iff.mp (hg l hl k (data k) ((hholds k).memory ""))
  obtain ⟨w', hlogout, hflush⟩ := forPairs_saveMod_writeBack
    (fun k => (hready k).imp fun _ h => h.1) order.visit hholds
  refine ⟨w', hlogout, fun k => ⟨data k, hideal k, ?_⟩⟩
  have hstore : w'.db.mods.get (k, l.role.uin) = (w'.writeBack l.role.uin).store k := rfl
  rw [hstore, hflush]
  refine Lib.WriteBack.flushAll_store _ _ order.nodup (fun j _ => ?_) (order.complete k)
    ((hholds k).memory _)
  rintro ⟨d, hmem, hseen, hlacks⟩
  obtain rfl : data j = d := Option.some.inj (((hholds j).memory _).symm.trans hmem)
  obtain ⟨nhcode, hhash, hsame⟩ := hready j
  refine hlacks (hsame ?_)
  have hseen : (s.world.hashcodes.get j).map Except.ok = some (LuaHash.hashcode (data j)) := hseen
  rw [hhash] at hseen
  cases hold : s.world.hashcodes.get j with
  | none => rw [hold] at hseen; cases hseen
  | some h => rw [hold] at hseen; cases hseen; rfl

/-! ## Two runs of a returning player -/

instance (w : World) (uin : String) (k : ModName) (data : LuaVal) : Decidable (SaveSees w uin k data) := by
  unfold SaveSees
  split <;> infer_instance

instance (P : ModName → Prop) [DecidablePred P] : Decidable (∀ k, P k) :=
  decidable_of_iff (P .property ∧ P .battle)
    ⟨fun h k => (match k with | .property => h.1 | .battle => h.2), fun h => ⟨h _, h _⟩⟩

instance (s : Run) : (op : Op) → Decidable (Orderly s op)
  | .start _ => inferInstanceAs (Decidable (∀ l ∈ s.live, ∀ k,
      s.world.db.mods.get (k, l.role.uin) = (s.world.backends.get k).bind Backend.data))
  | .logout => inferInstanceAs (Decidable (∀ l ∈ s.live, ∀ k,
      ∀ data ∈ (s.world.backends.get k).bind Backend.data, SaveSees s.world l.role.uin k data))
  | .modify _ _ => .isTrue trivial
  | .onModSave => .isTrue trivial

/-- A fresh agent and the database of the returning player. -/
def returning : Run := { world := .fresh returningPlayer, live := none, ideal := fun _ => none }

/-- A property document with `n` coins. -/
def coins (n : BitVec 64) : LuaVal := .table (.entry (.str (.ofText "coin")) (.int n) .empty)

/-- The modification is saved before the second `start`, and a later one is saved by `logout`. -/
theorem noLoss_of_orderly_returning :
    ∃ s, (machine propertyFirst).exec returning
        [.start ⟨"a", 1, false⟩, .modify .property fun _ => coins 200, .onModSave,
          .start ⟨"a", 1, true⟩, .modify .property fun _ => coins 300] = some s ∧
      NoLoss propertyFirst s := by
  have hrun : ∃ s ∈ (machine propertyFirst).execWhile (fun s op => decide (Orderly s op)) returning
      [.start ⟨"a", 1, false⟩, .modify .property fun _ => coins 200, .onModSave,
        .start ⟨"a", 1, true⟩, .modify .property fun _ => coins 300], Orderly s .logout := by
    decide +kernel
  obtain ⟨s, hs, hg⟩ := hrun
  refine ⟨s, Lib.Machine.exec_of_execWhile hs, ?_⟩
  exact noLoss_of_orderly propertyFirst s
    (Lib.Machine.ReachUnder.execWhile (fun _ _ h => of_decide_eq_true h) (.start ⟨_, rfl⟩) hs) hg

/-- The modification of the property document is lost when the player reconnects before it is
saved. -/
theorem not_noLoss_reconnect :
    ¬ ∀ (order : PairsOrder) (s : Run), (machine order).Reach s → NoLoss order s := by
  intro h
  have hrun : ∃ s ∈ (machine propertyFirst).exec returning
      [.start ⟨"a", 1, false⟩, .modify .property fun _ => coins 200, .start ⟨"a", 1, true⟩],
      s.live.map (fun l => l.role.uin) = some "10" ∧ s.ideal .property = some (coins 200) ∧
      (after (Agent.logout propertyFirst s.world)).db.mods.get (.property, "10") = some (.table .empty) := by
    decide +kernel
  obtain ⟨s, hs, hlive, hideal, hstored⟩ := hrun
  obtain ⟨l, hl, huin⟩ := Option.map_eq_some_iff.mp hlive
  obtain ⟨w', hlogout, hdocs⟩ := h propertyFirst s (Lib.Machine.Reach.exec (.start ⟨_, rfl⟩) hs) l hl
  obtain ⟨data, hdata, hsaved⟩ := hdocs .property
  rw [hideal] at hdata
  cases hdata
  rw [hlogout, after_ok, ← huin] at hstored
  rw [hsaved] at hstored
  revert hstored
  decide

end Run

end AntServer.Agent
