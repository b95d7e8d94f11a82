/-
# AntServer.WebSocket.Connection — the decoder, one connection at a time

What `filter_data_` does with a segment depends on nothing but what is kept of the segment's own
connection. `feed` is the decoder of one connection: from what is kept and the segment, what is kept
then, the messages for the queue, and what is returned. The decoder of all connections takes what it
keeps of the segment's connection out of the table, feeds it, and puts back what is kept then, whatever
other connections share the bucket (`filterData_eq`).
-/
import Mathlib.Data.Fintype.Basic
import AntServer.WebSocket.Netpack

namespace AntServer.WebSocket

open Lib

/-- `push_more`, for one connection: what is kept of it, and its messages for the queue. -/
def more (buffer : Bytes) (handshake : Bool) : Except Fault (Option Uncomplete × List Bytes) :=
  let s := readStart handshake badMore buffer
  if _hsize : s.packSize = -1 then (fun uc => (some uc, [])) <$> headerUncomplete handshake s.buffer
  else
    let data := s.buffer.drop s.head.packHeadLength
    if data.length < s.packSize ∧ handshake = false then
      (fun uc => (some uc, [])) <$> bodyUncomplete s.packSize s.head.mask data
    else do
      let msg ← clonePack s.packSize s.head.mask data
      let rest := data.drop s.packSize.toNat
      if _hrest : rest = [] then pure (none, [msg])
      else (fun m => (m.1, msg :: m.2)) <$> more rest handshake
termination_by buffer.length
decreasing_by
  have hcons := (readStart_more handshake buffer).resolve_left _hsize
  have hlen := readStart_length handshake badMore buffer
  have hpos := List.length_pos_of_ne_nil _hrest
  simp only [rest, data, s, List.length_drop] at hpos ⊢
  omega

/-- What a segment does to its connection. -/
structure Fed where
  saved : Option Uncomplete
  pushed : List Bytes
  returned : Returned

/-- A message that ends in the segment, with `rest` behind it. -/
def complete (fd : Fd) (msg rest : Bytes) (handshake : Bool) : Except Fault Fed :=
  if rest = [] then pure ⟨none, [], .data fd msg⟩
  else (fun m => ⟨m.1, msg :: m.2, .more⟩) <$> more rest handshake

def feedBody (fd : Fd) (size : Nat) (read : Bytes) (mask : Mask) (buffer : Bytes)
    (handshake : Bool) : Except Fault Fed :=
  let need := size - read.length
  if buffer.length < need then
    (fun read => ⟨some (.body size read (decodeWsmaskData buffer mask).2), [], .queue⟩) <$>
      copyPack size read (decodeWsmaskData buffer mask).1
  else do
    let msg ← copyPack size read (decodeWsmaskData (buffer.take need) mask).1
    complete fd msg (buffer.drop need) handshake

def feedHeader (fd : Fd) (header buffer : Bytes) (handshake : Bool) : Except Fault Fed := do
  let (s, rest) ← fillHeader handshake { packSize := 0, head := {}, buffer := header } buffer
  if s.packSize = -1 then pure ⟨some (.header s.buffer), [], .queue⟩
  else if s.packSize = -3 then pure ⟨none, [], .close fd⟩
  else do
    let size ← malloc s.packSize
    let read ← if handshake then copyPack size [] (s.buffer.take size) else pure []
    feedBody fd size read s.head.mask rest handshake

def feedFresh (fd : Fd) (buffer : Bytes) (handshake : Bool) : Except Fault Fed :=
  let s := readStart handshake badFirst buffer
  if s.packSize = -1 then
    (fun uc => ⟨some uc, [], .queue⟩) <$> headerUncomplete handshake s.buffer
  else if s.packSize = -3 then pure ⟨none, [], .close fd⟩
  else
    let data := s.buffer.drop s.head.packHeadLength
    if data.length < s.packSize ∧ handshake = false then
      (fun uc => ⟨some uc, [], .queue⟩) <$> bodyUncomplete s.packSize s.head.mask data
    else do
      let msg ← clonePack s.packSize s.head.mask data
      if (data.length : Int) = s.packSize then pure ⟨none, [], .data fd msg⟩
      else (fun m => ⟨m.1, msg :: m.2, .more⟩) <$>
        more (data.drop s.packSize.toNat) handshake

/-- `filter_data_`, for one connection. -/
def feed (fd : Fd) (uc : Option Uncomplete) (buffer : Bytes) (handshake : Bool) : Except Fault Fed :=
  match uc with
  | none => feedFresh fd buffer handshake
  | some (.header header) => feedHeader fd header buffer handshake
  | some (.body size read mask) => feedBody fd size read mask buffer handshake

/-! ## What a call can return -/

theorem bind_ok {α β : Type} {x : Except Fault α} {g : α → Except Fault β} {b : β} :
    x >>= g = .ok b ↔ ∃ a, x = .ok a ∧ g a = .ok b := by
  cases x with
  | error fault => exact ⟨nofun, nofun⟩
  | ok a => exact ⟨fun h => ⟨a, rfl, h⟩, fun ⟨_, rfl, h⟩ => h⟩

theorem map_ok {α β : Type} {x : Except Fault α} {g : α → β} {b : β} :
    g <$> x = .ok b ↔ ∃ a, x = .ok a ∧ g a = b := by
  cases x with
  | error fault => exact ⟨nofun, nofun⟩
  | ok a => exact ⟨fun h => ⟨a, rfl, Except.ok.inj h⟩, fun ⟨_, rfl, h⟩ => congrArg Except.ok h⟩

/-- What is returned is about the connection, and `TYPE_MORE` when there are messages in the queue. -/
def Fed.Formed (fd : Fd) (m : Fed) : Prop :=
  match m.returned with
  | .more => True
  | .data fd' _ => fd' = fd ∧ m.pushed = []
  | .close fd' => fd' = fd ∧ m.pushed = []
  | .queue => m.pushed = []

/-- The messages that follow a whole packet. -/
theorem complete_formed {fd : Fd} {msg rest : Bytes} {handshake : Bool} {m : Fed}
    (h : complete fd msg rest handshake = .ok m) : m.Formed fd := by
  unfold complete at h
  split at h
  · cases h
    exact ⟨rfl, rfl⟩
  · obtain ⟨_, _, rfl⟩ := map_ok.mp h
    trivial

/-- A segment for a body that is waited for. -/
theorem feedBody_formed {fd : Fd} {size : Nat} {read buffer : Bytes} {mask : Mask} {handshake : Bool}
    {m : Fed} (h : feedBody fd size read mask buffer handshake = .ok m) : m.Formed fd := by
  unfold feedBody at h
  dsimp only at h
  split at h
  · obtain ⟨_, _, rfl⟩ := map_ok.mp h
    rfl
  · obtain ⟨_, _, h⟩ := bind_ok.mp h
    exact complete_formed h

/-- A segment for a header that is waited for. -/
theorem feedHeader_formed {fd : Fd} {header buffer : Bytes} {handshake : Bool} {m : Fed}
    (h : feedHeader fd header buffer handshake = .ok m) : m.Formed fd := by
  obtain ⟨r, _, h⟩ := bind_ok.mp h
  dsimp only at h
  split at h
  · cases h
    rfl
  split at h
  · cases h
    exact ⟨rfl, rfl⟩
  · obtain ⟨size, _, h⟩ := bind_ok.mp h
    split at h
    · obtain ⟨read, _, h⟩ := bind_ok.mp h
      exact feedBody_formed h
    · exact feedBody_formed h

/-- A segment with nothing waited for. -/
theorem feedFresh_formed {fd : Fd} {buffer : Bytes} {handshake : Bool} {m : Fed}
    (h : feedFresh fd buffer handshake = .ok m) : m.Formed fd := by
  unfold feedFresh at h
  dsimp only at h
  split at h
  · obtain ⟨_, _, rfl⟩ := map_ok.mp h
    rfl
  split at h
  · cases h
    exact ⟨rfl, rfl⟩
  split at h
  · obtain ⟨_, _, rfl⟩ := map_ok.mp h
    rfl
  · obtain ⟨msg, _, h⟩ := bind_ok.mp h
    split at h
    · cases h
      exact ⟨rfl, rfl⟩
    · obtain ⟨_, _, rfl⟩ := map_ok.mp h
      trivial

/-- Any segment. -/
theorem feed_formed {fd : Fd} {uc : Option Uncomplete} {buffer : Bytes} {handshake : Bool} {m : Fed}
    (h : feed fd uc buffer handshake = .ok m) : m.Formed fd := by
  match uc, h with
  | none, h => exact feedFresh_formed h
  | some (.header header), h => exact feedHeader_formed h
  | some (.body size read mask), h => exact feedBody_formed h

/-! ## The table and the queue -/

namespace Queue

variable (q : Queue) (fd : Fd)

/-- Messages of `fd` for the queue, and what is kept of `fd`. -/
def keep (saved : Option Uncomplete) (pushed : List Bytes) : Queue where
  hash := saved.elim q.hash fun uc => Buckets.put hashFd fd uc q.hash
  queue := (pushed.map (Netpack.mk fd)).foldl Ring.push q.queue

/-- The queue holds one `uncomplete` of a connection at most. -/
def Single : Prop := Buckets.Single hashFd q.hash

/-- What is kept of `fd`. -/
def pending : Option Uncomplete := (Buckets.entries hashFd q.hash fd).head?

/-- `find_uncomplete` finds what is kept of the socket. -/
theorem findUncomplete_fst : (q.findUncomplete fd).1 = q.pending fd := Buckets.take_fst hashFd fd q.hash

end Queue

/-- `push_more` on a queue is what it makes of the bytes, kept for the socket. -/
theorem pushMore_eq (q : Queue) (fd : Fd) (buffer : Bytes) (handshake : Bool) :
    pushMore q fd buffer handshake = (fun m => q.keep fd m.1 m.2) <$> more buffer handshake := by
  fun_induction more buffer handshake generalizing q with
  | case1 buffer s hsize =>
    rw [pushMore, dif_pos hsize, Functor.map_map]
    rfl
  | case2 buffer s hsize data hshort =>
    rw [pushMore, dif_neg hsize]
    rw [if_pos hshort, Functor.map_map]
    rfl
  | case3 buffer s hsize data hfull ih =>
    rw [pushMore, dif_neg hsize]
    rw [if_neg hfull, map_bind]
    refine bind_congr fun msg => ?_
    by_cases hrest : data.drop s.packSize.toNat = []
    · rw [dif_pos hrest, dif_pos hrest]
      rfl
    · rw [dif_neg hrest, dif_neg hrest, Functor.map_map]
      exact ih hrest (q.pushData fd msg)

/-- What a call of `filter_data_` leaves, from the table `q` without the connection. -/
def Queue.fed (q : Queue) (fd : Fd) (m : Fed) : Queue × Returned :=
  (q.keep fd m.saved m.pushed, m.returned)

/-- So is the segment for a body. -/
theorem fillBody_eq (q : Queue) (fd : Fd) (size : Nat) (read : Bytes) (mask : Mask) (buffer : Bytes)
    (handshake : Bool) : fillBody q fd size read mask buffer handshake =
      q.fed fd <$> feedBody fd size read mask buffer handshake := by
  unfold fillBody feedBody complete
  dsimp only
  split
  · rw [Functor.map_map]
    rfl
  · rw [map_bind]
    refine bind_congr fun msg => ?_
    split
    · rfl
    · rw [Functor.map_map, pushMore_eq]
      exact (bind_map_left _ _ _).trans (bind_pure_comp _ _)

/-- And the one for a header. -/
theorem filterHeader_eq {q : Queue} {fd : Fd} (hclose : q.closeUncomplete fd = q)
    (header buffer : Bytes) (handshake : Bool) : filterHeader q fd header buffer handshake =
      q.fed fd <$> feedHeader fd header buffer handshake := by
  unfold filterHeader feedHeader
  rw [map_bind]
  refine bind_congr fun r => ?_
  dsimp only
  split
  · rfl
  split
  · rw [hclose]
    rfl
  · rw [map_bind]
    refine bind_congr fun size => ?_
    split
    · rw [map_bind]
      exact bind_congr fun read => fillBody_eq q fd size read r.1.head.mask r.2 handshake
    · exact fillBody_eq q fd size [] r.1.head.mask r.2 handshake

/-- And the one with nothing waited for. -/
theorem filterFresh_eq {q : Queue} {fd : Fd} (hclose : q.closeUncomplete fd = q) (buffer : Bytes)
    (handshake : Bool) : filterFresh q fd buffer handshake =
      q.fed fd <$> feedFresh fd buffer handshake := by
  unfold filterFresh feedFresh
  dsimp only
  split
  · rw [Functor.map_map]
    rfl
  split
  · rw [hclose]
    rfl
  split
  · rw [Functor.map_map]
    rfl
  · rw [map_bind]
    refine bind_congr fun msg => ?_
    split
    · rfl
    · rw [Functor.map_map, pushMore_eq]
      exact (bind_map_left _ _ _).trans (bind_pure_comp _ _)

/-- After `find_uncomplete` there is nothing left of the connection to close. -/
theorem Queue.Single.close {q : Queue} (hq : q.Single) (fd : Fd) :
    (q.findUncomplete fd).2.closeUncomplete fd = (q.findUncomplete fd).2 := by
  have hnone : Buckets.entries hashFd (q.findUncomplete fd).2.hash fd = [] := by
    show Buckets.entries hashFd (Buckets.take hashFd fd q.hash).2 fd = []
    rw [Buckets.entries_take, if_pos rfl]
    exact hq.tail fd
  show Queue.mk (Buckets.take hashFd fd (q.findUncomplete fd).2.hash).2 _ = _
  rw [Buckets.take_of_entries hnone]

/-- **The decoder keeps its connections apart.** A call takes what is kept of its connection, feeds it,
and puts back what is kept then. -/
theorem filterData_eq {q : Queue} (hq : q.Single) (fd : Fd) (buffer : Bytes) (handshake : Bool) :
    filterData q fd buffer handshake =
      (q.findUncomplete fd).2.fed fd <$> feed fd (q.pending fd) buffer handshake := by
  have hclose := hq.close fd
  unfold filterData
  rw [← q.findUncomplete_fst fd]
  match q.findUncomplete fd, hclose with
  | (none, q'), hclose => exact filterFresh_eq hclose buffer handshake
  | (some (.header header), q'), hclose => exact filterHeader_eq hclose header buffer handshake
  | (some (.body size read mask), q'), _ => exact fillBody_eq q' fd size read mask buffer handshake

/-! ## What a call leaves -/

namespace Queue

variable {q : Queue} (hq : q.Single) (fd : Fd) (m : Fed)

/-- What was kept of the socket is replaced. -/
theorem fed_hash : ((q.findUncomplete fd).2.fed fd m).1.hash =
    Buckets.replace hashFd fd q.hash m.saved := by
  show m.saved.elim _ _ = m.saved.elim _ _
  rfl

include hq in
/-- One entry for a socket at most. -/
theorem Single.fed : ((q.findUncomplete fd).2.fed fd m).1.Single := by
  unfold Single
  rw [fed_hash]
  exact Buckets.Single.replace fd hq m.saved

include hq in
/-- The connection keeps what `feed` leaves of it, the others keep what they had. -/
theorem Single.pending_fed (fd' : Fd) : ((q.findUncomplete fd).2.fed fd m).1.pending fd' =
    if fd' = fd then m.saved else q.pending fd' := by
  unfold pending
  rw [fed_hash, Buckets.Single.entries_replace fd fd' hq]
  split
  · cases m.saved <;> rfl
  · rfl

/-- The queue gets the connection's messages, in order, even when it has to grow. -/
theorem toList_fed : ((q.findUncomplete fd).2.fed fd m).1.queue.toList =
    q.queue.toList ++ m.pushed.map (Netpack.mk fd) := Ring.toList_foldl_push _ _

/-- None at the start. -/
theorem single_init : init.Single := Buckets.single_empty hashFd

end Queue

end AntServer.WebSocket
