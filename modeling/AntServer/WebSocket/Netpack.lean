/-
# AntServer.WebSocket.Netpack — the stream decoder of the WebSocket gate

`lualib-src/websocketnetpack/lua-websocketnetpack.c`: what a connection sends is cut into segments
anywhere, and the decoder keeps what is not a whole message yet, the bytes of a header or the payload
read so far, in a table of `uncomplete`s hashed by the connection's number. A message that ends where
its segment ends is returned; when more follows, messages go to a circular queue that Lua pops.

A buffer and its `size` are one list of bytes. The code writes into a header of `HEADERSIZE` bytes and
into messages of `pack_size` bytes without a check of its own: a write past the end, or an allocation
of a negative size, is a `Fault`, and nothing is said of what the code does after it.
-/
import Mathlib.Order.Lattice
import AntServer.Lib.Ring
import AntServer.Lib.Buckets

namespace AntServer.WebSocket

open Lib (Ring Buckets.take Buckets.put)

def QUEUESIZE : Nat := 1024
def HASHSIZE : Nat := 4096
def HEADERSIZE : Nat := 1024
def WEBSOCKET_HEADER_LEN : Nat := 2
def WEBSOCKET_MASK_LEN : Nat := 4
def MAX_PACKSIZE : Nat := 10 * 1024

instance : NeZero QUEUESIZE := ⟨by decide⟩

abbrev Fd := BitVec 32

abbrev Bytes := List UInt8

/-- The memory errors the code can run into. -/
inductive Fault where
  /-- `uc->header[uc->header_size] = ...` at an index from `HEADERSIZE` on -/
  | headerWrite
  /-- `memcpy(uc->header, buffer, size)` of more than `HEADERSIZE` bytes -/
  | headerCopy
  /-- `skynet_malloc` of a negative `pack_size` -/
  | malloc
  /-- a `memcpy` past the end of the message's buffer -/
  | packCopy
  deriving DecidableEq, Repr

/-- The mask of a frame, and how many bytes of its payload it was taken off. -/
structure Mask where
  mask : Bytes := [0, 0, 0, 0]
  ismask : Bool := false
  hasunmaskSize : Nat := 0
  deriving DecidableEq, Repr

/-- `struct uncomplete`: the bytes of a header (`read` is -1), or a message of `size` bytes with the
payload read so far. -/
inductive Uncomplete where
  | header (header : Bytes)
  | body (size : Nat) (buffer : Bytes) (mask : Mask)
  deriving DecidableEq, Repr

/-- `struct netpack`: a message of the connection `id`. -/
structure Netpack where
  id : Fd
  buffer : Bytes
  deriving DecidableEq, Repr, Inhabited

/-- `hash_fd`. -/
def hashFd (fd : Fd) : Fin HASHSIZE :=
  ⟨(fd.sshiftRight 24 + fd.sshiftRight 12 + fd).toNat % HASHSIZE, Nat.mod_lt _ (by decide)⟩

/-- `struct queue`. -/
structure Queue where
  hash : Fin HASHSIZE → List (Fd × Uncomplete)
  queue : Ring Netpack QUEUESIZE

namespace Queue

/-- The queue `get_queue` makes. -/
def init : Queue where
  hash := fun _ => []
  queue := .empty

/-- `find_uncomplete`: what it finds is no longer in the table. -/
def findUncomplete (q : Queue) (fd : Fd) : Option Uncomplete × Queue :=
  ((Buckets.take hashFd fd q.hash).1, { q with hash := (Buckets.take hashFd fd q.hash).2 })

/-- `save_uncomplete`, and the lines that put an `uncomplete` back at the head of its chain. -/
def saveUncomplete (q : Queue) (fd : Fd) (uc : Uncomplete) : Queue :=
  { q with hash := Buckets.put hashFd fd uc q.hash }

/-- `close_uncomplete`. -/
def closeUncomplete (q : Queue) (fd : Fd) : Queue := (q.findUncomplete fd).2

/-- `push_data`, with `expand_queue`. -/
def pushData (q : Queue) (fd : Fd) (buffer : Bytes) : Queue :=
  { q with queue := q.queue.push ⟨fd, buffer⟩ }

/-- `lpop`. -/
def lpop (q : Queue) : Option (Netpack × Queue) :=
  q.queue.pop.map fun p => (p.1, { q with queue := p.2 })

end Queue

/-! ## The header of a frame -/

/-- The out-parameters of `read_size`. -/
structure Head where
  packHeadLength : Nat := 0
  mask : Mask := {}
  deriving DecidableEq, Repr

/-- An unsigned number in network order. -/
def ntoh (bytes : Bytes) : Nat := bytes.foldl (fun n b => 256 * n + b.toNat) 0

/-- `pack_size` and the offset of what follows it, or nothing when the buffer ends before. The 64 bits of
the long form are stored in an `int`. -/
def readLength (buffer : Bytes) : Option (Int × Nat) :=
  let length := buffer.getD 1 0 &&& 0x7f
  if length < 0x7e then some (length.toNat, WEBSOCKET_HEADER_LEN)
  else if length = 0x7e then
    if buffer.length < WEBSOCKET_HEADER_LEN + 2 then none
    else some (ntoh ((buffer.drop 2).take 2), WEBSOCKET_HEADER_LEN + 2)
  else if buffer.length < WEBSOCKET_HEADER_LEN + 8 then none
  else some ((BitVec.ofNat 32 (ntoh ((buffer.drop 2).take 8))).toInt, WEBSOCKET_HEADER_LEN + 8)

/-- `read_size`: -1 when the header is not complete, -2 when its first two bytes are no data frame's,
-3 for a close frame. -/
def readSize (buffer : Bytes) (head : Head) : Int × Head :=
  let b := buffer.getD 0 0
  let opcode := b &&& 0xf
  if buffer.length < 2 then (-1, head)
  else if (b >>> 6) &&& 1 ≠ 0 ∨ (b >>> 5) &&& 1 ≠ 0 ∨ (b >>> 4) &&& 1 ≠ 0 then (-2, head)
  else if (b >>> 7) &&& 1 = 0 ∨ opcode = 0 then (-2, head)
  else if opcode = 8 then (-3, head)
  else match readLength buffer with
    | none => (-1, head)
    | some (packSize, offset) =>
      if (buffer.getD 1 0 >>> 7) &&& 1 = 0 then (packSize, { head with packHeadLength := offset })
      else if offset + WEBSOCKET_MASK_LEN > buffer.length then (-1, head)
      else (packSize,
        { packHeadLength := offset + WEBSOCKET_MASK_LEN
          mask := { head.mask with
            ismask := true, mask := (buffer.drop offset).take WEBSOCKET_MASK_LEN } })

/-- `decode_wsmask_data`. -/
def decodeWsmaskData (buffer : Bytes) (uc : Mask) : Bytes × Mask :=
  if uc.ismask then
    (buffer.mapIdx fun i b =>
        b ^^^ uc.mask.getD ((i + uc.hasunmaskSize) % WEBSOCKET_MASK_LEN) 0,
      { uc with hasunmaskSize := uc.hasunmaskSize + buffer.length })
  else (buffer, uc)

/-- `websocket_strnpos`: the first position at which `needle` stands. -/
def websocketStrnpos (needle : Bytes) : Bytes → Option Nat
  | [] => none
  | b :: haystack =>
    if needle.isPrefixOf (b :: haystack) then some 0
    else (websocketStrnpos needle haystack).map (· + 1)

/-- `"\r\n\r\n"`. -/
def crlfcrlf : Bytes := [13, 10, 13, 10]

/-- `get_http_header`. -/
def getHttpHeader (buffer : Bytes) : Int :=
  match websocketStrnpos crlfcrlf buffer with
  | none => -1
  | some n => n + 4

/-- What is known of a message once its header was read: `pack_size`, the out-parameters of `read_size`,
and the buffer from the header on. -/
structure Start where
  packSize : Int
  head : Head
  buffer : Bytes

/-- The loop around `read_size`: two bytes are thrown away as long as the code is a `bad` one. -/
def readWhile (bad : Int → Bool) : Bytes → Head → Start
  | b₀ :: b₁ :: buffer, head =>
    if bad (readSize (b₀ :: b₁ :: buffer) head).1 then
      readWhile bad buffer { (readSize (b₀ :: b₁ :: buffer) head).2 with mask := {} }
    else
      { packSize := (readSize (b₀ :: b₁ :: buffer) head).1
        head := (readSize (b₀ :: b₁ :: buffer) head).2
        buffer := b₀ :: b₁ :: buffer }
  | buffer, head =>
    { packSize := (readSize buffer head).1, head := (readSize buffer head).2, buffer := buffer }

/-- No message is longer than `MAX_PACKSIZE`. -/
def Start.clip (s : Start) : Start :=
  { s with packSize := if s.packSize > MAX_PACKSIZE then MAX_PACKSIZE else s.packSize }

/-- How `push_more` and `filter_data_` read what a buffer starts with. -/
def readStart (handshake : Bool) (bad : Int → Bool) (buffer : Bytes) : Start :=
  if handshake then { packSize := getHttpHeader buffer, head := {}, buffer := buffer }
  else (readWhile bad buffer {}).clip

/-- The loop of `push_more` throws a close frame away, too. -/
def badMore (packSize : Int) : Bool := packSize ≤ -2

/-- The loops of `filter_data_`. -/
def badFirst (packSize : Int) : Bool := packSize = -2

/-! ## Memory -/

def malloc (packSize : Int) : Except Fault Nat :=
  if packSize < 0 then throw .malloc else pure packSize.toNat

/-- `memcpy` behind what a message's buffer of `size` bytes already has. -/
def copyPack (size : Nat) (buffer data : Bytes) : Except Fault Bytes :=
  if buffer.length + data.length > size then throw .packCopy else pure (buffer ++ data)

/-- The `uncomplete` of a header whose bytes are in `buffer`. -/
def headerUncomplete (handshake : Bool) (buffer : Bytes) : Except Fault Uncomplete :=
  if handshake && buffer.length > HEADERSIZE then pure (.header (buffer.take HEADERSIZE))
  else if buffer.length > HEADERSIZE then throw .headerCopy
  else pure (.header buffer)

/-- The `uncomplete` of a message the first bytes of which are in `buffer`. -/
def bodyUncomplete (packSize : Int) (mask : Mask) (buffer : Bytes) : Except Fault Uncomplete := do
  let size ← malloc packSize
  let data ← copyPack size [] (decodeWsmaskData buffer mask).1
  pure (.body size data (decodeWsmaskData buffer mask).2)

/-- The message the first `packSize` bytes of `buffer` are. -/
def clonePack (packSize : Int) (mask : Mask) (buffer : Bytes) : Except Fault Bytes := do
  let size ← malloc packSize
  copyPack size [] (decodeWsmaskData (buffer.take size) mask).1

/-! ## `push_more` -/

/-- The length is read of two to ten bytes, which are there. -/
theorem readLength_offset {buffer : Bytes} {packSize : Int} {offset : Nat}
    (h : readLength buffer = some (packSize, offset)) :
    2 ≤ offset ∧ offset ≤ 10 ∧ (2 ≤ buffer.length → offset ≤ buffer.length) := by
  have hhead : WEBSOCKET_HEADER_LEN = 2 := rfl
  unfold readLength at h
  dsimp only at h
  split at h
  · cases h
    omega
  · split at h <;> split at h <;> cases h <;> omega

/-- A code below zero comes with the out-parameters as they were, unless it is a length. -/
theorem readSize_cases (buffer : Bytes) (head : Head) :
    (∃ code < 0, readSize buffer head = (code, head)) ∨
      2 ≤ buffer.length ∧ ∃ packSize offset, readLength buffer = some (packSize, offset) ∧
        (readSize buffer head = (packSize, { head with packHeadLength := offset }) ∨
          offset + WEBSOCKET_MASK_LEN ≤ buffer.length ∧ ∃ mask,
            readSize buffer head = (packSize, ⟨offset + WEBSOCKET_MASK_LEN, mask⟩)) := by
  unfold readSize
  dsimp only
  by_cases hsize : buffer.length < 2
  · rw [if_pos hsize]
    exact .inl ⟨-1, by decide, rfl⟩
  rw [if_neg hsize]
  by_cases hrsv : buffer.getD 0 0 >>> 6 &&& 1 ≠ 0 ∨ buffer.getD 0 0 >>> 5 &&& 1 ≠ 0 ∨
      buffer.getD 0 0 >>> 4 &&& 1 ≠ 0
  · rw [if_pos hrsv]
    exact .inl ⟨-2, by decide, rfl⟩
  rw [if_neg hrsv]
  by_cases hcont : buffer.getD 0 0 >>> 7 &&& 1 = 0 ∨ buffer.getD 0 0 &&& 0xf = 0
  · rw [if_pos hcont]
    exact .inl ⟨-2, by decide, rfl⟩
  rw [if_neg hcont]
  by_cases hclose : buffer.getD 0 0 &&& 0xf = 8
  · rw [if_pos hclose]
    exact .inl ⟨-3, by decide, rfl⟩
  rw [if_neg hclose]
  rcases hlen : readLength buffer with - | ⟨packSize, offset⟩
  · exact .inl ⟨-1, by decide, rfl⟩
  · dsimp only
    split
    · exact .inr ⟨not_lt.mp hsize, packSize, offset, rfl, .inl rfl⟩
    · split
      · exact .inl ⟨-1, by decide, rfl⟩
      · rename_i hroom
        exact .inr ⟨not_lt.mp hsize, packSize, offset, rfl, .inr ⟨not_lt.mp hroom, _, rfl⟩⟩

/-- A data frame's header takes at least two bytes, and all of them are in the buffer. -/
theorem readSize_nonneg {buffer : Bytes} {head : Head} (h : 0 ≤ (readSize buffer head).1) :
    2 ≤ (readSize buffer head).2.packHeadLength ∧
      (readSize buffer head).2.packHeadLength ≤ buffer.length := by
  obtain ⟨code, hneg, heq⟩ | ⟨hsize, packSize, offset, hlen, heq | ⟨hroom, mask, heq⟩⟩ :=
    readSize_cases buffer head
  · rw [heq] at h
    exact absurd h (not_le.mpr hneg)
  · rw [heq]
    exact ⟨(readLength_offset hlen).1, (readLength_offset hlen).2.2 hsize⟩
  · rw [heq]
    exact ⟨(readLength_offset hlen).1.trans (Nat.le_add_right _ _), hroom⟩

/-- A bad pair of bytes is thrown away. -/
theorem readWhile_of_bad {bad : Int → Bool} {b₀ b₁ : UInt8} {buffer : Bytes} {head : Head}
    (h : bad (readSize (b₀ :: b₁ :: buffer) head).1 = true) :
    readWhile bad (b₀ :: b₁ :: buffer) head =
      readWhile bad buffer { (readSize (b₀ :: b₁ :: buffer) head).2 with mask := {} } := if_pos h

/-- The first pair that is not bad is kept. -/
theorem readWhile_of_not_bad {bad : Int → Bool} {buffer : Bytes} {head : Head}
    (h : bad (readSize buffer head).1 = false) : readWhile bad buffer head =
      ⟨(readSize buffer head).1, (readSize buffer head).2, buffer⟩ := by
  match buffer with
  | [] => rfl
  | [_] => rfl
  | b₀ :: b₁ :: buffer => exact if_neg (Bool.eq_false_iff.mp h)

/-- Where `readWhile` stops, `read_size` gave the result. -/
theorem readWhile_eq (bad : Int → Bool) (buffer : Bytes) (head : Head) :
    ∃ head', readSize (readWhile bad buffer head).buffer head' =
      ((readWhile bad buffer head).packSize, (readWhile bad buffer head).head) := by
  fun_induction readWhile bad buffer head with
  | case1 b₀ b₁ buffer head hbad ih => exact ih
  | case2 b₀ b₁ buffer head hbad => exact ⟨head, rfl⟩
  | case3 buffer head => exact ⟨head, rfl⟩

/-- A size that is read has its header in the buffer. -/
theorem readWhile_nonneg {bad : Int → Bool} {buffer : Bytes} {head : Head}
    (h : 0 ≤ (readWhile bad buffer head).packSize) :
    2 ≤ (readWhile bad buffer head).head.packHeadLength ∧
      (readWhile bad buffer head).head.packHeadLength ≤
        (readWhile bad buffer head).buffer.length := by
  obtain ⟨head', heq⟩ := readWhile_eq bad buffer head
  have hread : 0 ≤ (readSize (readWhile bad buffer head).buffer head').1 → _ := readSize_nonneg
  rw [heq] at hread
  exact hread h

/-- Bytes are only thrown away. -/
theorem readWhile_length (bad : Int → Bool) (buffer : Bytes) (head : Head) :
    (readWhile bad buffer head).buffer.length ≤ buffer.length := by
  fun_induction readWhile bad buffer head with
  | case1 b₀ b₁ buffer head hbad ih =>
    apply ih.trans
    show buffer.length ≤ buffer.length + 1 + 1
    omega
  | case2 b₀ b₁ buffer head hbad => exact le_rfl
  | case3 buffer head => exact le_rfl

/-- One byte is not a header. -/
theorem readSize_short {buffer : Bytes} (h : buffer.length < 2) (head : Head) :
    readSize buffer head = (-1, head) := if_pos h

/-- The loop leaves with no `bad` code, when -1 is none. -/
theorem readWhile_not_bad {bad : Int → Bool} (hshort : bad (-1) = false) (buffer : Bytes)
    (head : Head) : bad (readWhile bad buffer head).packSize = false := by
  fun_induction readWhile bad buffer head with
  | case1 b₀ b₁ buffer head hbad ih => exact ih
  | case2 b₀ b₁ buffer head hbad => exact Bool.eq_false_iff.mpr hbad
  | case3 buffer head hlong =>
    have hlen : buffer.length < 2 := by
      match buffer, hlong with
      | [], _ => exact Nat.zero_lt_two
      | [_], _ => exact Nat.one_lt_two
      | b₀ :: b₁ :: rest, hlong => exact absurd rfl (hlong b₀ b₁ rest)
    show bad (readSize buffer head).1 = false
    rw [readSize_short hlen]
    exact hshort

theorem Start.clip_nonneg {s : Start} : 0 ≤ s.clip.packSize ↔ 0 ≤ s.packSize := by
  unfold clip
  dsimp only
  split
  · rename_i h
    exact iff_of_true (by decide) ((Int.natCast_nonneg _).trans h.le)
  · rfl

theorem Start.clip_of_neg {s : Start} (h : s.packSize < 0) : s.clip = s := by
  have hmax : (0 : Int) ≤ MAX_PACKSIZE := by decide
  have hle : ¬s.packSize > MAX_PACKSIZE := not_lt.mpr (h.le.trans hmax)
  unfold clip
  rw [show (if s.packSize > MAX_PACKSIZE then (MAX_PACKSIZE : Int) else s.packSize) = s.packSize
    from if_neg hle]

/-- A request is incomplete, or ends in four bytes. -/
theorem getHttpHeader_cases (buffer : Bytes) : getHttpHeader buffer = -1 ∨ 4 ≤ getHttpHeader buffer := by
  unfold getHttpHeader
  split
  · exact .inl rfl
  · right
    omega

/-- Nor does the start of a packet add any. -/
theorem readStart_length (handshake : Bool) (bad : Int → Bool) (buffer : Bytes) :
    (readStart handshake bad buffer).buffer.length ≤ buffer.length := by
  unfold readStart
  split
  · exact le_rfl
  · exact readWhile_length bad buffer {}

/-- In `push_more` a message is skipped, by more than nothing, or its header is kept. -/
theorem readStart_more (handshake : Bool) (buffer : Bytes) :
    (readStart handshake badMore buffer).packSize = -1 ∨
      0 ≤ (readStart handshake badMore buffer).packSize ∧
      0 < (readStart handshake badMore buffer).head.packHeadLength +
        (readStart handshake badMore buffer).packSize.toNat := by
  unfold readStart
  split
  · obtain h | h := getHttpHeader_cases buffer
    · exact .inl h
    · refine .inr ⟨(by decide : (0 : Int) ≤ 4).trans h, ?_⟩
      show 0 < 0 + (getHttpHeader buffer).toNat
      omega
  · have hbad := readWhile_not_bad (show badMore (-1) = false from rfl) buffer {}
    have hge : -2 < (readWhile badMore buffer {}).packSize := lt_of_not_ge (of_decide_eq_false hbad)
    by_cases h : 0 ≤ (readWhile badMore buffer {}).packSize
    · refine .inr ⟨Start.clip_nonneg.mpr h, Nat.add_pos_left ?_ _⟩
      exact (Nat.zero_lt_two).trans_le (readWhile_nonneg h).1
    · left
      rw [Start.clip_of_neg (not_le.mp h)]
      omega

def pushMore (q : Queue) (fd : Fd) (buffer : Bytes) (handshake : Bool) : Except Fault Queue :=
  let s := readStart handshake badMore buffer
  if _hsize : s.packSize = -1 then do
    let uc ← headerUncomplete handshake s.buffer
    pure (q.saveUncomplete fd uc)
  else
    let data := s.buffer.drop s.head.packHeadLength
    if data.length < s.packSize ∧ handshake = false then do
      let uc ← bodyUncomplete s.packSize s.head.mask data
      pure (q.saveUncomplete fd uc)
    else do
      let msg ← clonePack s.packSize s.head.mask data
      let rest := data.drop s.packSize.toNat
      if _hrest : rest = [] then pure (q.pushData fd msg)
      else pushMore (q.pushData fd msg) fd rest handshake
termination_by buffer.length
decreasing_by
  have hcons := (readStart_more handshake buffer).resolve_left _hsize
  have hlen := readStart_length handshake badMore buffer
  have hpos := List.length_pos_of_ne_nil _hrest
  simp only [rest, data, s, List.length_drop] at hpos ⊢
  omega

/-! ## `filter_data_` -/

/-- What `filter_data_` returns to Lua. -/
inductive Returned where
  /-- the queue alone -/
  | queue
  /-- `TYPE_DATA` -/
  | data (fd : Fd) (buffer : Bytes)
  /-- `TYPE_MORE` -/
  | more
  /-- `TYPE_CLOSE` -/
  | close (fd : Fd)
  deriving DecidableEq, Repr

/-- What is read once a byte was added to a header. -/
def readHeader (handshake : Bool) (header : Bytes) (head : Head) : Start :=
  if handshake then
    if header.length > HEADERSIZE then
      { packSize := HEADERSIZE, head := head, buffer := header.take HEADERSIZE }
    else { packSize := getHttpHeader header, head := head, buffer := header }
  else (readWhile badFirst header head).clip

/-- The loop that adds the bytes of a segment to a header until it is complete. The last component is
what is left of the segment. -/
def fillHeader (handshake : Bool) : Start → Bytes → Except Fault (Start × Bytes)
  | s, [] => pure (s, [])
  | s, b :: buffer =>
    if s.buffer.length ≥ HEADERSIZE then throw .headerWrite
    else if (readHeader handshake (s.buffer ++ [b]) s.head).packSize ≥ 0 then
      pure (readHeader handshake (s.buffer ++ [b]) s.head, buffer)
    else fillHeader handshake (readHeader handshake (s.buffer ++ [b]) s.head) buffer

/-- One byte of a header that is filled up. -/
theorem fillHeader_cons (handshake : Bool) {s : Start} (hs : s.buffer.length < HEADERSIZE) (b : UInt8)
    (buffer : Bytes) : fillHeader handshake s (b :: buffer) =
      if (readHeader handshake (s.buffer ++ [b]) s.head).packSize ≥ 0 then
        pure (readHeader handshake (s.buffer ++ [b]) s.head, buffer)
      else fillHeader handshake (readHeader handshake (s.buffer ++ [b]) s.head) buffer :=
  if_neg (not_le.mpr hs)

/-- The second half of the branch of `filter_data_` that found an `uncomplete`: `buffer` goes behind
what is read of a message of `size` bytes. -/
def fillBody (q : Queue) (fd : Fd) (size : Nat) (read : Bytes) (mask : Mask) (buffer : Bytes)
    (handshake : Bool) : Except Fault (Queue × Returned) :=
  let need := size - read.length
  if buffer.length < need then do
    let read ← copyPack size read (decodeWsmaskData buffer mask).1
    pure (q.saveUncomplete fd (.body size read (decodeWsmaskData buffer mask).2), .queue)
  else do
    let msg ← copyPack size read (decodeWsmaskData (buffer.take need) mask).1
    let rest := buffer.drop need
    if rest = [] then pure (q, .data fd msg)
    else do
      let q ← pushMore (q.pushData fd msg) fd rest handshake
      pure (q, .more)

/-- The branch for a connection of which an incomplete header is kept. -/
def filterHeader (q : Queue) (fd : Fd) (header buffer : Bytes) (handshake : Bool) :
    Except Fault (Queue × Returned) := do
  let (s, rest) ← fillHeader handshake { packSize := 0, head := {}, buffer := header } buffer
  if s.packSize = -1 then pure (q.saveUncomplete fd (.header s.buffer), .queue)
  else if s.packSize = -3 then pure (q.closeUncomplete fd, .close fd)
  else do
    let size ← malloc s.packSize
    -- the bytes a frame's header was read with are not part of the message
    let read ← if handshake then copyPack size [] (s.buffer.take size) else pure []
    fillBody q fd size read s.head.mask rest handshake

/-- The branch for a connection of which nothing is kept. -/
def filterFresh (q : Queue) (fd : Fd) (buffer : Bytes) (handshake : Bool) :
    Except Fault (Queue × Returned) :=
  let s := readStart handshake badFirst buffer
  if s.packSize = -1 then do
    let uc ← headerUncomplete handshake s.buffer
    pure (q.saveUncomplete fd uc, .queue)
  else if s.packSize = -3 then pure (q.closeUncomplete fd, .close fd)
  else
    let data := s.buffer.drop s.head.packHeadLength
    if data.length < s.packSize ∧ handshake = false then do
      let uc ← bodyUncomplete s.packSize s.head.mask data
      pure (q.saveUncomplete fd uc, .queue)
    else do
      let msg ← clonePack s.packSize s.head.mask data
      if (data.length : Int) = s.packSize then pure (q, .data fd msg)
      else do
        let q ← pushMore (q.pushData fd msg) fd (data.drop s.packSize.toNat) handshake
        pure (q, .more)

/-- `filter_data_`. -/
def filterData (q : Queue) (fd : Fd) (buffer : Bytes) (handshake : Bool) :
    Except Fault (Queue × Returned) :=
  match q.findUncomplete fd with
  | (none, q) => filterFresh q fd buffer handshake
  | (some (.header header), q) => filterHeader q fd header buffer handshake
  | (some (.body size read mask), q) => fillBody q fd size read mask buffer handshake

end AntServer.WebSocket
