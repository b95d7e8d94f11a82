/-
# AntServer.Game.Gateserver — a gate server with its sockets

`gateserver_tcp.lua` and `gateserver_ws.lua` of `service/game/gate`, under the handlers of `gated`: what
they do to the two tables is `Gate`, and here is what it is done to, the sockets. Recorded of a socket is
whether `openclient` started it and how often the gate closed it, since it was accepted; of the gate, the
calls to the hub that are not answered yet and what each run of `handler.message` found in `connection`.
A message that `netpack` queued is dispatched like one that it returned.

The listening socket is one of the sockets. It has no entry, and `MSG.error` closes it whenever `accept`
fails, which it may do again before the close is reported.
-/
import AntServer.Game.Gated
import AntServer.WebSocket.GateserverWs

namespace AntServer.Game

open Lib (Table)
open WebSocket (checkwebsocketValid parseHttpheader max_headersize max_packsize)

structure Gateserver where
  gate : Gate
  /-- the listening socket -/
  socket : Option Fd
  /-- `iswebsocket_handeshake` of the entries of `gateserver_ws` -/
  handshake : Table Fd Bool
  /-- the calls of `connect` and `logout` that are not answered -/
  calls : List Msg
  started : Table Fd Unit
  closes : Fd → Nat
  /-- the runs of `handler.message`, with the `connection[fd]` they index -/
  handled : List (Fd × Option Conn)

namespace Gateserver

variable (s : Gateserver)

/-- `socketdriver.close`. -/
def close (fd : Fd) : Gateserver := { s with closes := Function.update s.closes fd (s.closes fd + 1) }

/-- `openclient`. -/
def openclient (fd : Fd) : Gateserver :=
  if s.gate.client.get fd = some true then { s with started := s.started.set fd () } else s

/-- `closeclient`. -/
def closeclient (fd : Fd) : Gateserver :=
  if s.gate.client.get fd = some true then { s with gate := s.gate.closeclient fd }.close fd else s

/-- The end of `close_agent`. -/
def finishClose (fd : Fd) : Gateserver :=
  { s with gate.connection := s.gate.connection.del fd }.closeclient fd

/-- What follows `close_agent` in its caller. -/
def afterClose (fd : Fd) (cause : Cause) : Gateserver := { s with gate := s.gate.afterClose fd cause }

/-- `close_agent` up to its `logout` call. -/
def closeAgent (fd : Fd) (raw : Bool) (cause : Cause) : Gateserver :=
  match s.gate.connection.get fd with
  | some c =>
    if raw then (s.finishClose fd).afterClose fd cause
    else { s with calls := s.calls ++ [.slaveLogout c cause] }
  | none => s.afterClose fd cause

/-- `MSG.open`, for a new socket, up to the `connect` call of `create_conn_data`. -/
def openSocket (fd : Fd) (ip : String) : Gateserver :=
  let s := { s with started := s.started.del fd, closes := Function.update s.closes fd 0 }
  if s.gate.clientNumber ≥ s.gate.maxclient then s.close fd
  else
    { s with
      gate := (s.gate.openSocket fd ip).1
      handshake := s.handshake.set fd true
      calls := s.calls ++ (s.gate.openSocket fd ip).2 }

/-- `handler.connect` from the answer of its `connect` call. -/
def connectRet (conn : Conn) : Gateserver := { s with gate := s.gate.connectRet conn }.openclient conn.fd

/-- `MSG.close` and `MSG.error` of a client. -/
def disconnect (fd : Fd) : Gateserver :=
  { s with gate.sock := s.gate.sock.del fd }.closeAgent fd false .event

/-- `handler.message`. -/
def message (fd : Fd) : Gateserver := { s with handled := s.handled ++ [(fd, s.gate.connection.get fd)] }

variable (accept : WebSocket.Bytes → WebSocket.Bytes)

/-- What `dispatch_msg` of `gateserver_ws` does with the upgrade request. `sent` tells whether
`socketdriver.send` took the lines of the refusal: if not, `write_response` raises. -/
def checkwebsocket (fd : Fd) (msg : WebSocket.Bytes) (sent : Bool) : Gateserver :=
  match checkwebsocketValid accept (parseHttpheader msg) with
  | .error _ => if sent then s.closeclient fd else s
  | .ok _ => { s with handshake := s.handshake.set fd false }

/-- `dispatch_msg`. -/
def dispatchMsg (fd : Fd) (msg : WebSocket.Bytes) (sent : Bool) : Gateserver :=
  if s.gate.client.get fd = some true then
    match fd.gate with
    | .tcp => s.message fd
    | .ws =>
      if s.handshake.get fd = some true then
        if msg.length ≥ max_headersize then s.closeclient fd else s.checkwebsocket accept fd msg sent
      else if msg.length ≥ max_packsize then s.closeclient fd
      else s.message fd
  else s

/-- The answer of a call to the hub. An error raises in the handler, which ends there. -/
def answer (call : Msg) (ok : Bool) : Gateserver :=
  match call, ok with
  | .slaveConnect conn, true => s.connectRet conn
  | .slaveLogout c cause, true => (s.finishClose c.fd).afterClose c.fd cause
  | _, _ => s

/-! ## The tables are those of the gate -/

@[simp] theorem close_gate (fd : Fd) : (s.close fd).gate = s.gate := rfl

@[simp] theorem openclient_gate (fd : Fd) : (s.openclient fd).gate = s.gate := by
  unfold openclient
  split <;> rfl

@[simp] theorem closeclient_gate (fd : Fd) : (s.closeclient fd).gate = s.gate.closeclient fd := by
  unfold closeclient Gate.closeclient
  split
  · rfl
  · split <;> simp_all

theorem finishClose_gate (fd : Fd) : (s.finishClose fd).gate = s.gate.finishClose fd :=
  closeclient_gate _ fd

@[simp] theorem closeclient_calls (fd : Fd) : (s.closeclient fd).calls = s.calls := by
  unfold closeclient
  split <;> rfl

theorem finishClose_calls (fd : Fd) : (s.finishClose fd).calls = s.calls := closeclient_calls _ fd

/-- The gate server closes the agent of a socket as the gate does, and its calls are those of the gate. -/
theorem closeAgent_gate (fd : Fd) (raw : Bool) (cause : Cause) :
    (s.closeAgent fd raw cause).gate = (s.gate.closeAgent fd raw cause).1 ∧
      (s.closeAgent fd raw cause).calls = s.calls ++ (s.gate.closeAgent fd raw cause).2 := by
  unfold closeAgent Gate.closeAgent afterClose
  cases s.gate.connection.get fd with
  | none => exact ⟨rfl, (List.append_nil _).symm⟩
  | some c =>
    cases raw with
    | true => exact ⟨by simp [finishClose_gate], by simp [finishClose_calls]⟩
    | false => exact ⟨rfl, rfl⟩

/-- Opening a socket, too, is what the gate does, with its call to the hub. -/
theorem openSocket_gate (fd : Fd) (ip : String) :
    (s.openSocket fd ip).gate = (s.gate.openSocket fd ip).1 ∧
      (s.openSocket fd ip).calls = s.calls ++ (s.gate.openSocket fd ip).2 := by
  unfold openSocket Gate.openSocket
  dsimp only
  by_cases hfull : s.gate.clientNumber ≥ s.gate.maxclient
  · simp [hfull, close]
  · simp [hfull]

end Gateserver

end AntServer.Game
