/-
# AntServer.Login.LoginMaster — the login service and the servers it gives tokens of

`service/login/logind.lua` with the tables of `logind/login_logic.lua` and `logind/loginserver.lua`:
`accept` runs `login_handler` under a lock per uid, `login_handler` reads and clears the record of
the users online, yields at the `access` call to a game server, and makes the token. Around it a
system of any number of game servers, of which the login node sees three things: that `access` stores
a token under a new subid (`CMD.access` of `hubd.lua`), that at some moment the token is dropped, and
that a `logout` notice is then on its way.

After a successful `access` the handler calls `login_logic.get_user_online(uid, {..})`, which has one
parameter and reads. `login_logic.add_user_online` is never called.

A call of a game server may fail at any moment; its request may then still arrive.
-/
import AntServer.Lib.Machine
import AntServer.Lib.Table

namespace AntServer.Login

open Lib (Table)

/-! ## The tables -/

/-- The record of a user online. -/
structure Online where
  subid : Nat
  server : String
  deriving DecidableEq, Repr

/-- What `login_logic.get_server` reads of a game node. -/
structure NodeConf where
  host : String
  port : String

/-- `user_online` of `login_logic.lua` and `user_login` of `loginserver.lua`. -/
structure LoginNode where
  userOnline : Table String Online
  userLogin : Table String Unit

/-- A `login_handler` waiting for the answer of `access`. When the server has processed the request,
`stored` is the subid on its way back. -/
structure Call where
  server : String
  conf : NodeConf
  secret : String
  stored : Option Nat

namespace LoginNode

/-! ## The handlers -/

/-- `get_user_online`: a second argument is ignored. -/
def getUserOnline (n : LoginNode) (uid : String) (_user : Option Online) : Option Online :=
  n.userOnline.get uid

/-- `del_user_online`. -/
def delUserOnline (n : LoginNode) (uid : String) : LoginNode :=
  { n with userOnline := n.userOnline.del uid }

def lock (n : LoginNode) (uid : String) : LoginNode := { n with userLogin := n.userLogin.set uid () }

def unlock (n : LoginNode) (uid : String) : LoginNode := { n with userLogin := n.userLogin.del uid }

/-- `login_handler` up to its `access` call: the server asked to kick the user, and whether the call
is made. -/
def loginHandlerBegin (n : LoginNode) (uid : String) : LoginNode × Option String × Bool :=
  let (n, kicked) :=
    match n.getUserOnline uid none with
    | some last => (n.delUserOnline uid, some last.server)
    | none => (n, none)
  (n, kicked, (n.getUserOnline uid none).isNone)

/-- `login_handler` after its `access` call: the token. -/
def loginHandlerEnd (n : LoginNode) (uid : String) (call : Call) (subid : Nat) : LoginNode × String :=
  let _ := n.getUserOnline uid (some { subid := subid, server := call.server })
  (n, call.conf.host ++ "$" ++ call.conf.port ++ "$" ++ uid ++ "$" ++ call.secret ++ "$" ++ toString subid)

/-- `CMD.logout`. -/
def logout (n : LoginNode) (uid : String) : LoginNode := n.delUserOnline uid

end LoginNode

/-! ## The machine -/

/-- The login node and the game servers. `calls` are the waiting handlers by uid, `lost` the requests
of failed calls that may still arrive. `asked` and `granted` are ghosts: the servers asked to kick a
user since they last stored a token for it, and the last token returned for a user that no notice of
its server and no later login has ended. -/
structure System where
  node : LoginNode
  calls : Table String Call
  lost : List (String × String)
  subids : Table String Nat
  held : Table (String × String) Nat
  notices : List (String × String)
  asked : List (String × String)
  granted : Table String Online

inductive Event where
  /-- an authenticated client asks for a token of `server` -/
  | accept (uid server secret : String)
  /-- the server processes the `access` of the waiting handler of `uid` -/
  | access (uid : String)
  /-- the server processes an `access` whose call has failed -/
  | accessLost (i : Nat)
  /-- the answer arrives and the token is returned -/
  | answer (uid : String)
  /-- the call fails -/
  | fail (uid : String)
  /-- the server drops the token of `uid` -/
  | drop (server uid : String)
  /-- a `logout` notice arrives -/
  | notice (i : Nat)
  deriving DecidableEq, Repr

namespace System

def init : System where
  node := { userOnline := Table.empty, userLogin := Table.empty }
  calls := Table.empty
  lost := []
  subids := Table.empty
  held := Table.empty
  notices := []
  asked := []
  granted := Table.empty

/-! ## Its steps -/

/-- `CMD.access` of the hub of `server`. -/
def storeToken (s : System) (server uid : String) : System × Nat :=
  let subid := (s.subids.get server).getD 1 + 1
  ({ s with
      subids := s.subids.set server subid
      held := s.held.set (server, uid) subid
      asked := s.asked.filter (· ≠ (server, uid)) }, subid)

section Step

variable (nodes : String → Option NodeConf)

/-- `accept` after the authentication, up to the `access` call. -/
def accept (s : System) (uid server secret : String) : System :=
  if (s.node.userLogin.get uid).isSome then s
  else
    match nodes server with
    -- `login_logic.get_server` indexes nil; the lock is released again
    | none => s
    | some conf =>
      let (node, kicked, calls) := s.node.loginHandlerBegin uid
      let s := { s with
        node := node
        asked := kicked.toList.map (·, uid) ++ s.asked
        granted := s.granted.del uid }
      if calls then
        { s with
          node := s.node.lock uid
          calls := s.calls.set uid { server := server, conf := conf, secret := secret, stored := none } }
      else s

def step (s : System) : Event → Option System
  | .accept uid server secret => some (s.accept nodes uid server secret)
  | .access uid =>
    match s.calls.get uid with
    | some call =>
      match call.stored with
      | none =>
        let (s, subid) := s.storeToken call.server uid
        some { s with calls := s.calls.set uid { call with stored := some subid } }
      | some _ => none
    | none => none
  | .accessLost i =>
    match s.lost[i]? with
    | some (server, uid) => some { (s.storeToken server uid).1 with lost := s.lost.eraseIdx i }
    | none => none
  | .answer uid =>
    match s.calls.get uid with
    | some call =>
      match call.stored with
      | some subid =>
        some { s with
          node := (s.node.loginHandlerEnd uid call subid).1.unlock uid
          calls := s.calls.del uid
          granted := s.granted.set uid { subid := subid, server := call.server } }
      | none => none
    | none => none
  | .fail uid =>
    match s.calls.get uid with
    | some call =>
      some { s with
        node := s.node.unlock uid
        calls := s.calls.del uid
        lost := if call.stored.isNone then (call.server, uid) :: s.lost else s.lost }
    | none => none
  | .drop server uid =>
    if (s.held.get (server, uid)).isSome then
      some { s with held := s.held.del (server, uid), notices := (server, uid) :: s.notices }
    else none
  | .notice i =>
    match s.notices[i]? with
    | some (server, uid) =>
      some { s with
        node := s.node.logout uid
        notices := s.notices.eraseIdx i
        granted :=
          if ((s.granted.get uid).map Online.server) = some server then s.granted.del uid else s.granted }
    | none => none

/-- The runs of the login node and its game servers. -/
def machine : Lib.Machine System Event where
  start s := s = init
  step := step nodes

end Step

end System

end AntServer.Login
