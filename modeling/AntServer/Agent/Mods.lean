/-
# AntServer.Agent.Mods — the documents of an agent, and how they are loaded and saved

`service/agent/mods/` over the database: the profile of an account (one role per server), the two
backend mods `property` and `battle` with a document under the role's uin, the registration of the
mods, and the write-back that compares `hash.hashcode` with the code remembered at the last save.

A function of the agent may raise and keeps what it did before it raised: `AgentM` is the state and
error monad over `World`. `do_register_mod` builds every mod with `require(pack):new(data)` although
`class.lua` declares `cls.new(...)`: what `initialize` then receives is the class table (`colonNew`).
The registration takes the calling convention as the parameter `pass`, so that the other results
can be read at the convention the code intends.

The timers of `M.save` and `M.update` are not here: `on_mod_save` is a step that may come at any
moment. The front mods keep nothing a modelled function reads; of them only the constructor that may
raise is modelled.
-/
import AntServer.Lib.Table
import AntServer.Lib.WriteBack
import AntServer.Lua

namespace AntServer.Agent

open Lib (Table)

/-- The backend mods of `M.reg_mods`, by the name they are registered under. -/
inductive ModName where
  | property
  | battle
  deriving DecidableEq, Repr

/-- An order in which `pairs(_backends)` may visit the mods. -/
structure PairsOrder where
  visit : List ModName
  nodup : visit.Nodup
  complete : ∀ k, k ∈ visit

/-- The order `property`, `battle`. -/
def propertyFirst : PairsOrder where
  visit := [.property, .battle]
  nodup := by decide
  complete := by rintro (_ | _) <;> decide

/-- A role: what `Profiled:born` stores under a server. -/
structure Role where
  uin : String
  serverId : Int
  born : Nat
  deriving DecidableEq, Repr

/-- The profile document of an account, its roles by `tostring(serverId)`. -/
structure ProfileDoc where
  uin : String
  data : Table String Role

/-- The arguments of the client's `born` request. -/
structure BornArgs where
  name : Option LuaString
  head : Option LuaString
  job : Option LuaString
  deriving DecidableEq, Repr

/-- The session table of a `start` message, as far as the agent's documents depend on it. -/
structure Session where
  openid : String
  serverId : Int
  isReconnect : Bool
  deriving DecidableEq, Repr

/-- The collections of the game database, and the redis hash `max_uin`. -/
structure Database where
  profile : Table String ProfileDoc
  mods : Table (ModName × String) LuaVal
  maxUin : Table Int Int

/-- The account `"a"` with the role `"10"` on server 1, and a property document of it. -/
def returningPlayer : Database where
  profile := Table.empty.set "a"
    { uin := "a", data := Table.empty.set "1" { uin := "10", serverId := 1, born := 0 } }
  mods := Table.empty.set (.property, "10") (.table .empty)
  maxUin := Table.empty.set 1 10

/-- `Profiled`: the session it was made with and the document it loaded. -/
structure Profiled where
  session : Session
  data : Option ProfileDoc

/-- A backend mod object: `_profile`, `_born` and `_data`. -/
structure Backend where
  profile : Option Role
  born : Option BornArgs
  data : Option LuaVal
  deriving DecidableEq, Repr

/-- The fields a mod's `initialize` reads of its argument. -/
structure InitData where
  profile : Option Role := none
  born : Option BornArgs := none
  proxy : Option ModName := none
  handler : Bool := false
  deriving DecidableEq, Repr

/-- What `initialize` receives when the constructor is called as `pack:new(data)`: the class table,
in which none of these fields is set. -/
def colonNew (_data : InitData) : InitData := {}

/-- The tables of one agent, and the database. -/
structure World where
  db : Database
  profiled : Option Profiled
  backends : Table ModName Backend
  hashcodes : Table ModName (BitVec 32)

/-- A computation of the agent: it may raise, and what it did before stays done. -/
abbrev AgentM := EStateM LuaError World

/-- An agent as `skynet.newservice` makes it. -/
def World.fresh (db : Database) : World where
  db := db
  profiled := none
  backends := Table.empty
  hashcodes := Table.empty

/-! ## The profile -/

/-- `Profiled:_check_born`. -/
def Profiled.checkBorn (self : Profiled) : Option Role :=
  self.data.bind fun doc => doc.data.get (toString self.session.serverId)

/-- `Profiled:load`. -/
def Profiled.load (self : Profiled) (db : Database) : Profiled :=
  { self with data := db.profile.get self.session.openid }

/-- `redisx.hincrby`. -/
def Database.hincrby (db : Database) (serverId increment : Int) : Database × Int :=
  let n := (db.maxUin.get serverId).getD 0 + increment
  ({ db with maxUin := db.maxUin.set serverId n }, n)

/-- `Profiled:born`, at the draw `random + 1` of `math.random(1, 10)` and the time `now`. -/
def Profiled.born (self : Profiled) (db : Database) (random : Fin 10) (now : Nat) :
    Role × Profiled × Database :=
  let serverId := self.session.serverId
  let (db, n) := db.hincrby serverId (random.val + 1)
  let role : Role := { uin := toString n, serverId := serverId, born := now }
  let doc := self.data.getD { uin := self.session.openid, data := Table.empty }
  (role, { self with data := some { doc with data := doc.data.set (toString serverId) role } }, db)

/-- `Profiled:save`. -/
def saveProfile : AgentM Unit := do
  let w ← get
  match w.profiled with
  | none => throw (.index "nil" "_profiled")
  | some self =>
    match self.data with
    | none => throw .assertion
    | some doc => set { w with db.profile := w.db.profile.set self.session.openid doc }

/-- `M.reg_profile`: made with `.new(session)`, so it receives the session. -/
def regProfile (session : Session) : AgentM Unit :=
  modify fun w => { w with profiled := some { session := session, data := none } }

/-- `profiled:load()` on the object `M.get_profile` returns. -/
def loadProfile : AgentM (Option Role) := do
  let w ← get
  match w.profiled with
  | none => throw (.index "nil" "profiled")
  | some self =>
    let self := self.load w.db
    set { w with profiled := some self }
    return self.checkBorn

/-! ## The mods -/

/-- A table of string keys; a field that is nil is no entry. -/
def LuaTable.ofFields : List (String × Option LuaVal) → LuaTable
  | [] => .empty
  | (key, some v) :: rest => .entry (.str (.ofText key)) v (ofFields rest)
  | (_, none) :: rest => ofFields rest

/-- The document `Propertyd:load` makes for a role that has none. -/
def Propertyd.newData (role : Role) (born : BornArgs) : LuaVal :=
  .table (LuaTable.ofFields [
    ("uin", some (.str (.ofText role.uin))),
    ("data", some (.table (LuaTable.ofFields [
      ("name", born.name.map .str), ("head", born.head.map .str), ("job", born.job.map .str),
      ("coin", some (.int 100))])))])

/-- The document `Battled:load` makes for a role that has none. -/
def Battled.newData (role : Role) : LuaVal :=
  .table (LuaTable.ofFields [("uin", some (.str (.ofText role.uin))), ("data", some (.table .empty))])

/-- `Propertyd:initialize` and `Battled:initialize`. -/
def Backend.initializeWith : ModName → InitData → Backend
  | .property, data => { profile := data.profile, born := data.born, data := none }
  | .battle, data => { profile := data.profile, born := none, data := none }

/-- What the mod makes for a role without a stored document. -/
def Backend.newData (self : Backend) (role : Role) : ModName → Except LuaError LuaVal
  | .property =>
    match self.born with
    | none => .error .assertion
    | some born => .ok (Propertyd.newData role born)
  | .battle => .ok (Battled.newData role)

/-- `Propertyd:load` and `Battled:load`. -/
def Backend.load (self : Backend) (k : ModName) (db : Database) : Except LuaError Backend :=
  match self.profile with
  | none => .error (.index "nil" "_profile")
  | some role =>
    match db.mods.get (k, role.uin) with
    | some data => .ok { self with data := some data }
    | none => (self.newData role k).map fun data => { self with data := some data }

/-- `Propertyd:save` and `Battled:save`: the document `data` of the mod, under its role. -/
def Backend.save (self : Backend) (k : ModName) (data : LuaVal) (db : Database) :
    Except LuaError Database :=
  match self.profile with
  | none => .error (.index "nil" "_profile")
  | some role => .ok { db with mods := db.mods.set (k, role.uin) data }

section Registration

variable (pass : InitData → InitData)

/-- `do_register_backends`. -/
def doRegisterBackends (name : ModName) (data : InitData) : AgentM Unit :=
  modify fun w => { w with backends := w.backends.set name (.initializeWith name (pass data)) }

/-- `do_register_fronts`: `Battle:initialize` indexes the handler, `Property:initialize` only keeps
it. -/
def doRegisterFronts (name : ModName) (data : InitData) : AgentM Unit :=
  match name with
  | .property => pure ()
  | .battle => if (pass data).handler then pure () else throw (.index "nil" "_handler")

/-- `M.reg_mods`. -/
def regMods (data : InitData) : AgentM Unit := do
  doRegisterBackends pass .property data
  doRegisterFronts pass .property { proxy := some .property, handler := true }
  doRegisterBackends pass .battle data
  doRegisterFronts pass .battle { proxy := some .battle, handler := true }

end Registration

/-- The body of the loop of `M.load`. -/
def loadMod (k : ModName) : AgentM Unit := do
  let w ← get
  match w.backends.get k with
  | none => pure ()
  | some self =>
    match self.load k w.db with
    | .error e => throw e
    | .ok self => set { w with backends := w.backends.set k self }

/-- The body of the loop of `on_mod_save`. -/
def saveMod (k : ModName) : AgentM Unit := do
  let w ← get
  match w.backends.get k with
  | none => pure ()
  | some self =>
    match self.data with
    | none => throw .assertion
    | some data =>
      match LuaHash.hashcode data with
      | .error e => throw e
      | .ok nhcode =>
        if w.hashcodes.get k = some nhcode then
          set { w with hashcodes := w.hashcodes.set k nhcode }
        else
          match self.save k data w.db with
          | .error e => throw e
          | .ok db => set { w with db := db, hashcodes := w.hashcodes.set k nhcode }

/-- Do `body` for every mod `pairs` visits. -/
def forPairs (body : ModName → AgentM Unit) : List ModName → AgentM Unit
  | [] => pure ()
  | k :: ks => do
    body k
    forPairs body ks

/-- `M.load`. -/
def load (order : PairsOrder) : AgentM Unit := forPairs loadMod order.visit

/-- `on_mod_save`, which is also `M.force_save` and what `M.save` does at once. -/
def onModSave (order : PairsOrder) : AgentM Unit := forPairs saveMod order.visit

end AntServer.Agent
