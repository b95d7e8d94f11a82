/-
# AntServer.Game.HubSlave — the hub slaves

`service/game/hub_slave.lua` and the hub branch of `request` in `lualib/service/client.lua`. A slave keeps
no state: it forwards, and it is the client side of the requests of connections that have not shaken
hands. The only request it handles is `handshake`; any other is an error that is logged.

When `hubd` has answered, a pack makes the slave respond, and a code other than `success` beside the
pack makes it send itself a `kick` with the uid of the arguments. Without a pack it calls
`socket.close(fd)` of a socket the gate owns, which changes nothing here.
-/
import AntServer.Game.Hubd

namespace AntServer.Game.HubSlave

/-- A request of a client: `auth.handshake`. -/
def request (fd : Fd) : ClientReq → List Msg
  | .handshake args => [.hubHandshake fd args]
  | .other _ => []

/-- `request` from the answer of `hubd`. -/
def requestRet (fd : Fd) (args : HandshakeArgs) (res : HandshakeRes) : List Msg :=
  match res.pack with
  | some _ => if res.errcode ≠ success then [.slaveKick fd.gate args.uid (some fd)] else []
  | none => []

/-- `CMD.connect`, its return, `CMD.logout` and `CMD.kick`. -/
def connect (conn : Conn) : List Msg := [.hubConnect conn]

def connectRet (conn : Conn) : List Msg := [.gateConnectRet conn]

def logout (conn : Conn) (cause : Cause) : List Msg :=
  [.hubLogout conn cause.origin, .gateLogoutRet conn.fd cause]

def kick (uid : String) (origin : Option Fd) : List Msg := [.hubKick uid origin]

theorem request_sends {fd : Fd} {req : ClientReq} {m : Msg} (hm : m ∈ request fd req) :
    ∃ args, req = .handshake args ∧ m = .hubHandshake fd args := by
  cases req with
  | handshake args => exact ⟨args, rfl, List.mem_singleton.mp hm⟩
  | other name => cases hm

theorem requestRet_sends {fd : Fd} {args : HandshakeArgs} {res : HandshakeRes} {m : Msg}
    (hm : m ∈ requestRet fd args res) :
    res.errcode ≠ success ∧ m = .slaveKick fd.gate args.uid (some fd) := by
  unfold requestRet at hm
  split at hm
  · split at hm
    · rename_i hcode
      exact ⟨hcode, List.mem_singleton.mp hm⟩
    · cases hm
  · cases hm

end AntServer.Game.HubSlave
