/-
# AntServer.WebSocket.GateserverWs — the gate in front of the decoder

`service/game/gate/gateserver_ws.lua`: whether a segment is decoded as a part of the upgrade request or
as frames is a flag of its connection, read when the segment is unpacked. The flag changes when the
request, a message like any other, is dispatched and found valid; what the decoder has of the connection
by then it keeps. The hash and the encoding of the answer to the client's key are not of this
repository: `accept` stands for them.
-/
import AntServer.Lib.Table
import AntServer.WebSocket.Connection

namespace AntServer.WebSocket

open Lib (Table)

/-- A string literal of the source, as bytes. -/
def bytes (s : String) : Bytes := s.toList.map fun c => UInt8.ofNat c.toNat

def max_packsize : Nat := 10 * 1024
def max_headersize : Nat := 1024

/-! ## The request -/

def crlf : Bytes := [13, 10]

/-- The parts of a string that end with `"\r\n"`, without it. -/
def lines : Bytes → List Bytes
  | [] => []
  | c :: rest =>
    if crlf.isPrefixOf (c :: rest) then [] :: lines (rest.drop 1)
    else match lines rest with
      | [] => []
      | line :: others => (c :: line) :: others
termination_by s => s.length
decreasing_by
  · simp only [List.length_drop, List.length_cons]
    omega
  · simp only [List.length_cons]
    omega

/-- `[%a-]` -/
def isKey (c : UInt8) : Bool := (65 ≤ c && c ≤ 90) || (97 ≤ c && c ≤ 122) || c = 45

/-- `%s` -/
def isSpace (c : UInt8) : Bool := (9 ≤ c && c ≤ 13) || c = 32

/-- `string.match(str, "([%a-]+)%s*: (.*)")`: a run of key characters and one of spaces can only match
whole, since neither `" "` nor `":"` is of the class before it. -/
def matchHeader : Bytes → Option (Bytes × Bytes)
  | [] => none
  | c :: rest =>
    if isKey c then
      match ((c :: rest).dropWhile isKey).dropWhile isSpace with
      | 58 :: 32 :: value => some ((c :: rest).takeWhile isKey, value)
      | _ => matchHeader rest
    else matchHeader rest

/-- `string.lower` -/
def lower (s : Bytes) : Bytes := s.map fun c => if 65 ≤ c && c ≤ 90 then c + 32 else c

/-- `parse_httpheader`: the lines behind the first one. -/
def parseHttpheader (httpStr : Bytes) : Table Bytes Bytes :=
  (lines httpStr).tail.foldl
    (fun header line =>
      match matchHeader line with
      | none => header
      | some (key, value) => header.set (lower key) value) .empty

variable (accept : Bytes → Bytes)

/-- `getwebsocket_response`. -/
def getwebsocketResponse (key protocol : Bytes) : Bytes :=
  let protocol := if protocol = [] then [] else protocol ++ crlf
  bytes "HTTP/1.1 101 Switching Protocols\r\nUpgrade: websocket\r\nConnection: Upgrade\r\nSec-WebSocket-Accept: "
    ++ accept (key ++ bytes "258EAFA5-E914-47DA-95CA-C5AB0DC85B11") ++ crlf ++ protocol ++ crlf

/-- `checkwebsocket_valid`, without an origin check: a code and its text, or the response. -/
def checkwebsocketValid (header : Table Bytes Bytes) : Except (Nat × Bytes) Bytes :=
  if (header.get (bytes "upgrade")).map lower ≠ some (bytes "websocket") then
    .error (400, bytes "Can \"Upgrade\" only to \"WebSocket\".")
  else if ((header.get (bytes "connection")).bind fun c =>
      websocketStrnpos (bytes "upgrade") (lower c)).isNone then
    .error (400, bytes "\"Connection\" must be \"Upgrade\".")
  else if header.get (bytes "sec-websocket-version") ≠ some (bytes "13") then
    .error (400, bytes "HTTP/1.1 Upgrade Required\r\nSec-WebSocket-Version: 13\r\n\r\n")
  else match header.get (bytes "sec-websocket-key") with
    | none => .error (400, bytes "\"Sec-WebSocket-Key\" must not be  nil.")
    | some key =>
      .ok (getwebsocketResponse accept key ((header.get (bytes "sec-websocket-protocol")).getD []))

/-! ## The gate -/

/-- What the gate hands over. -/
inductive Handed where
  /-- a request, to `checkwebsocket` -/
  | checkwebsocket (fd : Fd) (msg : Bytes)
  /-- `handler.message` -/
  | message (fd : Fd) (msg : Bytes)
  /-- `Drop message from fd` -/
  | drop (fd : Fd) (msg : Bytes)
  deriving DecidableEq, Repr

structure Gateserver where
  queue : Queue
  /-- the connections, with `iswebsocket_handeshake` -/
  connection : Table Fd Bool
  handed : List Handed
  /-- what is sent to the clients: a response, or the code and text of an error -/
  sent : List (Fd × Except (Nat × Bytes) Bytes)
  fault : Option Fault

namespace Gateserver

variable (g : Gateserver)

/-- `closeclient`. -/
def closeclient (fd : Fd) : Gateserver := { g with connection := g.connection.del fd }

/-- `close_fd`: the socket stays open. -/
def closeFd (fd : Fd) : Gateserver := { g with connection := g.connection.del fd }

/-- `checkwebsocket`, and what `dispatch_msg` does with its result. -/
def checkwebsocket (fd : Fd) (msg : Bytes) : Gateserver :=
  let result := checkwebsocketValid accept (parseHttpheader msg)
  let g :=
    { g with
      handed := g.handed ++ [Handed.checkwebsocket fd msg]
      sent := g.sent ++ [(fd, result)] }
  match result with
  | .error _ => g.closeclient fd
  | .ok _ => { g with connection := g.connection.set fd false }

/-- `dispatch_msg`. -/
def dispatchMsg (fd : Fd) (msg : Bytes) : Gateserver :=
  match g.connection.get fd with
  | none => { g with handed := g.handed ++ [.drop fd msg] }
  | some true =>
    if msg.length ≥ max_headersize then g.closeclient fd else g.checkwebsocket accept fd msg
  | some false =>
    if msg.length ≥ max_packsize then g.closeclient fd
    else { g with handed := g.handed ++ [.message fd msg] }

/-- `dispatch_queue`: messages are popped until there is none. -/
def dispatchQueue : Nat → Gateserver → Gateserver
  | 0, g => g
  | n + 1, g =>
    match g.queue.lpop with
    | none => g
    | some (pack, q) => dispatchQueue n (dispatchMsg accept { g with queue := q } pack.id pack.buffer)

/-- The mode a segment is unpacked in: `iswebsocket_handeshake`, or 1 for no connection. -/
def mode (fd : Fd) : Bool := (g.connection.get fd).getD true

/-- `unpack` and `dispatch`, for a segment. -/
def socket (fd : Fd) (buffer : Bytes) : Gateserver :=
  match filterData g.queue fd buffer (g.mode fd) with
  | .error fault => { g with fault := some fault }
  | .ok (q, returned) =>
    let g := { g with queue := q }
    match returned with
    | .queue => g
    | .data fd msg => g.dispatchMsg accept fd msg
    | .more => dispatchQueue accept g.queue.queue.length g
    | .close fd => g.closeFd fd

/-- Segments of one connection, up to a memory error. -/
def sockets (fd : Fd) : Gateserver → List Bytes → Gateserver
  | g, [] => g
  | g, s :: segments => if g.fault.isSome then g else sockets fd (g.socket accept fd s) segments

end Gateserver

end AntServer.WebSocket
