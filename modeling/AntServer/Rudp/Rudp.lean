/-
# AntServer.Rudp.Rudp — a reliable channel over datagrams

`rudp.c` of `lualib-src/rudp`. One end of a channel numbers the messages it sends, keeps those it has sent
for a while, orders those it receives by their numbers, asks for the ones that are missing in between and
answers what the other end asks for. `rudp_update` takes a datagram and the time that has passed, and
gives the datagrams that are to be sent. A datagram is a row of segments: a head of one or two bytes, which
is a type or the size of a message, the low 16 bits of a number, and the bytes of the message.

The messages that are recycled (`free_list`) are not modelled, nor are the sizes of the buffers they lie
in. An assertion that fails gives `none`. The numbers of messages and the ticks are integers without a
bound here and `int` in C: the model is one of connections with less than 2^31 messages in each direction
whose ticks sum up to less than 2^31.
-/
import Mathlib.Data.Int.Order.Basic

namespace AntServer

namespace Rudp

/-- The bytes of a buffer. -/
abbrev Bytes := List UInt8

/-- `GENERAL_PACKAGE`. -/
def generalPackage : Nat := 128

/-- `MAX_PACKAGE`. -/
def maxPackage : Nat := 0x7fff - 4

def typeIgnore : Nat := 0
def typeCorrupt : Nat := 1
def typeRequest : Nat := 2
def typeMissing : Nat := 3
def typeNormal : Nat := 4

/-- `struct message`, of what the user sends; `rudp_send` asserts its size. -/
structure Message where
  id : Int
  tick : Int
  buffer : Bytes
  size_le : buffer.length ≤ maxPackage
  deriving DecidableEq

/-- `struct message`, of what is received. A message that the other end no longer has is without a buffer. -/
structure Received where
  id : Int
  buffer : Option Bytes
  deriving DecidableEq

/-- Its `sz`: -1 without a buffer. -/
def Received.sz (m : Received) : Int :=
  match m.buffer with
  | none => -1
  | some b => b.length

end Rudp

/-- `struct rudp`. -/
structure Rudp where
  /-- user packages will send -/
  sendQueue : List Rudp.Message
  /-- the packages recv -/
  recvQueue : List Rudp.Received
  /-- user packages already send -/
  sendHistory : List Rudp.Message
  /-- package id need send again -/
  sendAgain : List Int
  corrupt : Bool
  currentTick : Int
  lastSendTick : Int
  lastExpiredTick : Int
  sendId : Int
  recvIdMin : Int
  recvIdMax : Int
  sendDelay : Int
  expired : Int
  deriving DecidableEq

namespace Rudp

/-- `rudp_new`. -/
def rudpNew (sendDelay expiredTime : Int) : Rudp where
  sendQueue := []
  recvQueue := []
  sendHistory := []
  sendAgain := []
  corrupt := false
  currentTick := 0
  lastSendTick := 0
  lastExpiredTick := 0
  sendId := 0
  recvIdMin := 0
  recvIdMax := 0
  sendDelay := sendDelay
  expired := expiredTime

/-- `queue_pop`. -/
def queuePop : List Received → Int → Option (Received × List Received)
  | [], _ => none
  | m :: rest, id => if m.id ≠ id then none else some (m, rest)

/-- `array_insert`: no number twice. -/
def arrayInsert : List Int → Int → List Int
  | [], id => [id]
  | a :: rest, id =>
    if a = id then a :: rest
    else if a > id then id :: a :: rest
    else a :: arrayInsert rest id

/-- `rudp_send`. -/
def rudpSend (U : Rudp) (buffer : Bytes) : Option Rudp :=
  if h : buffer.length ≤ maxPackage then
    some { U with
      sendId := U.sendId + 1
      sendQueue := U.sendQueue ++ [⟨U.sendId, U.currentTick, buffer, h⟩] }
  else none

/-- `rudp_recv`: the size it returns and the bytes it copies. -/
def rudpRecv (U : Rudp) : Int × Bytes × Rudp :=
  if U.corrupt then (-1, [], { U with corrupt := false })
  else
    match queuePop U.recvQueue U.recvIdMin with
    | none => (0, [], U)
    | some (m, rest) =>
      (m.sz, m.buffer.getD [], { U with recvIdMin := U.recvIdMin + 1, recvQueue := rest })

/-- `clear_send_expired`. -/
def clearSendExpired (U : Rudp) (tick : Int) : Rudp :=
  { U with sendHistory := U.sendHistory.dropWhile fun m => m.tick < tick }

/-! ## What comes in -/

/-- `get_id`. `recv_id_max & ~0xffff` is the multiple of `0x10000` below it. -/
def getId (U : Rudp) (b0 b1 : UInt8) : Int :=
  let id : Int := U.recvIdMax / 0x10000 * 0x10000 + (b0.toNat * 256 + b1.toNat : Nat)
  if id < U.recvIdMax - 0x8000 then id + 0x10000
  else if id > U.recvIdMax + 0x8000 then id - 0x10000
  else id

/-- `add_request`. -/
def addRequest (U : Rudp) (id : Int) : Rudp := { U with sendAgain := arrayInsert U.sendAgain id }

/-- The walk of `insert_message` to the first message with a greater number. -/
def insertBefore : List Received → Received → List Received
  | [], _ => []
  | m :: rest, tmp => if m.id > tmp.id then tmp :: m :: rest else m :: insertBefore rest tmp

/-- `insert_message`. -/
def insertMessage (U : Rudp) (id : Int) (buffer : Option Bytes) : Rudp :=
  if id < U.recvIdMin then U
  else if id > U.recvIdMax ∨ U.recvQueue = [] then
    { U with recvQueue := U.recvQueue ++ [⟨id, buffer⟩], recvIdMax := id }
  else { U with recvQueue := insertBefore U.recvQueue ⟨id, buffer⟩ }

/-- `add_missing`. -/
def addMissing (U : Rudp) (id : Int) : Rudp := insertMessage U id none

/-- The heartbeat of the other end. -/
def onIgnore (U : Rudp) : Rudp :=
  if U.sendAgain = [] then { U with sendAgain := arrayInsert U.sendAgain U.recvIdMin } else U

/-- The head of a segment and what is behind it. -/
def readHead : Bytes → Option (Nat × Bytes)
  | [] => none
  | b :: rest =>
    if b.toNat > 127 then
      match rest with
      | [] => none
      | c :: rest => some ((b.toNat * 256 + c.toNat) &&& 0x7fff, rest)
    else some (b.toNat, rest)

/-- The loop of `extract_package`; a round takes at least one byte, so that the size of the package is
fuel enough. -/
def extractFrom : Nat → Rudp → Bytes → Rudp
  | 0, U, _ => U
  | fuel + 1, U, buffer =>
    if buffer = [] then U
    else
      match readHead buffer with
      | none => { U with corrupt := true }
      | some (len, rest) =>
        if len = typeIgnore then extractFrom fuel (onIgnore U) rest
        else if len = typeCorrupt then { U with corrupt := true }
        else
          match rest with
          | b0 :: b1 :: rest =>
            if len = typeRequest then extractFrom fuel (addRequest U (getId U b0 b1)) rest
            else if len = typeMissing then extractFrom fuel (addMissing U (getId U b0 b1)) rest
            else if rest.length < len - typeNormal then { U with corrupt := true }
            else
              extractFrom fuel
                (insertMessage U (getId U b0 b1) (some (rest.take (len - typeNormal))))
                (rest.drop (len - typeNormal))
          | _ => { U with corrupt := true }

/-- `extract_package`. -/
def extractPackage (U : Rudp) (buffer : Bytes) : Rudp := extractFrom buffer.length U buffer

/-! ## What goes out -/

/-- `struct tmp_buffer`: the package that is filled, and those that are full. -/
structure TmpBuffer where
  buf : Bytes
  packages : List Bytes
  deriving DecidableEq

/-- `new_package`. -/
def newPackage (tmp : TmpBuffer) : TmpBuffer := ⟨[], tmp.packages ++ [tmp.buf]⟩

/-- `fill_header`. -/
def fillHeader (len : Nat) (id : Int) : Bytes :=
  (if len < 128 then [UInt8.ofNat len]
    else [UInt8.ofNat (((len &&& 0x7f00) >>> 8) ||| 0x80), UInt8.ofNat (len &&& 0xff)]) ++
  [UInt8.ofInt (id / 256), UInt8.ofInt id]

/-- `pack_request`. -/
def packRequest (tmp : TmpBuffer) (id : Int) (tag : Nat) : TmpBuffer :=
  let tmp := if generalPackage - tmp.buf.length < 3 then newPackage tmp else tmp
  { tmp with buf := tmp.buf ++ fillHeader tag id }

/-- `pack_message`. -/
def packMessage (tmp : TmpBuffer) (m : Message) : TmpBuffer :=
  if m.buffer.length > generalPackage - 4 then
    -- big package
    let tmp := if tmp.buf.length > 0 then newPackage tmp else tmp
    { tmp with
      packages := tmp.packages ++ [fillHeader (m.buffer.length + typeNormal) m.id ++ m.buffer] }
  else
    let tmp := if generalPackage - tmp.buf.length < 4 + m.buffer.length then newPackage tmp else tmp
    { tmp with buf := tmp.buf ++ (fillHeader (m.buffer.length + typeNormal) m.id ++ m.buffer) }

/-- The inner loop of `request_missing`: `n` requests from the number `id` on. -/
def requestRange (tmp : TmpBuffer) (id : Int) : Nat → TmpBuffer
  | 0 => tmp
  | n + 1 => requestRange (packRequest tmp id typeRequest) (id + 1) n

/-- `request_missing`, whose assertion can fail. -/
def requestMissing (tmp : TmpBuffer) (id : Int) : List Received → Option TmpBuffer
  | [] => some tmp
  | m :: rest =>
    if m.id ≥ id then requestMissing (requestRange tmp id (m.id - id).toNat) (m.id + 1) rest
    else none

/-- `reply_request`: one walk over the history for all numbers that are asked for. -/
def replyRequest (recvIdMin : Int) (tmp : TmpBuffer) : List Int → List Message → TmpBuffer
  | [], _ => tmp
  | id :: rest, history =>
    if id < recvIdMin then
      -- alreay recv, ignore
      replyRequest recvIdMin tmp rest history
    else
      match history.dropWhile fun m => m.id < id with
      | [] => replyRequest recvIdMin (packRequest tmp id typeMissing) rest []
      | m :: history =>
        if id < m.id then
          -- expired
          replyRequest recvIdMin (packRequest tmp id typeMissing) rest (m :: history)
        else replyRequest recvIdMin (packMessage tmp m) rest (m :: history)

/-- The packing of `send_message`. -/
def sendMessage (tmp : TmpBuffer) (queue : List Message) : TmpBuffer := queue.foldl packMessage tmp

/-- The end of `gen_outpackage`: a heartbeat when there is nothing to send. -/
def closeTmp (tmp : TmpBuffer) : List Bytes :=
  (newPackage (if tmp.packages = [] ∧ tmp.buf = [] then ⟨[UInt8.ofNat typeIgnore], []⟩ else tmp)).packages

/-- `gen_outpackage`. -/
def genOutpackage (U : Rudp) : Option (List Bytes × Rudp) :=
  (requestMissing ⟨[], []⟩ U.recvIdMin U.recvQueue).map fun tmp =>
    (closeTmp (sendMessage (replyRequest U.recvIdMin tmp U.sendAgain U.sendHistory) U.sendQueue),
      { U with sendAgain := [], sendHistory := U.sendHistory ++ U.sendQueue, sendQueue := [] })

/-- `clear_send_expired` as `rudp_update` calls it. -/
def expire (U : Rudp) : Rudp :=
  if U.currentTick ≥ U.lastExpiredTick + U.expired then
    { clearSendExpired U U.lastExpiredTick with lastExpiredTick := U.currentTick }
  else U

/-- `rudp_update`: the packages to be sent. -/
def rudpUpdate (U : Rudp) (buffer : Bytes) (tick : Int) : Option (List Bytes × Rudp) :=
  let U := expire (extractPackage { U with currentTick := U.currentTick + tick } buffer)
  if U.currentTick ≥ U.lastSendTick + U.sendDelay then
    (genOutpackage U).map fun p => (p.1, { p.2 with lastSendTick := p.2.currentTick })
  else some ([], U)

end Rudp

end AntServer
