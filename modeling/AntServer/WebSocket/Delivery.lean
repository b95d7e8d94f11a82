/-
# AntServer.WebSocket.Delivery — segments of many connections, and the messages of one

The decoder serves all connections: segments come in any order, Lua pops the queue at any time, and
sockets close. When a call runs into a memory error the run is over. The bytes of one connection being
a stream of data frames, in segments of any size, the decoder has its payloads as messages, in order and
each once, and never an error in a call for it; what was popped and what is in the queue are the
messages that went to the queue.
-/
import AntServer.Lib.Machine
import AntServer.WebSocket.Stream

namespace AntServer.WebSocket

open Lib

/-! ## Runs of the decoder -/

inductive Event where
  /-- `filter_data_`, with the flag the segment is unpacked with -/
  | segment (fd : Fd) (buffer : Bytes) (handshake : Bool)
  /-- the socket is closed: `lfilter` forgets the connection -/
  | close (fd : Fd)
  | lpop
  deriving DecidableEq, Repr

/-- A message, the flag of the call that produced it, and whether it went to the queue. -/
structure Produced where
  handshake : Bool
  queued : Bool
  pack : Netpack
  deriving DecidableEq, Repr

structure Decoder where
  queue : Queue
  /-- the connection of the call that ran into an error -/
  fault : Option (Fd × Fault)
  /-- all messages, in the order the calls had them -/
  produced : List Produced
  popped : List Netpack
  /-- the connections `TYPE_CLOSE` was returned for -/
  closed : List Fd

/-- The messages of a call that found the queue `q` and left `q'`: what it returned with `TYPE_DATA`, or
what is new in the queue with `TYPE_MORE`. -/
def Returned.produced (handshake : Bool) (q q' : Queue) : Returned → List Produced
  | .data fd buffer => [⟨handshake, false, ⟨fd, buffer⟩⟩]
  | .more => (q'.queue.toList.drop q.queue.toList.length).map fun pack => ⟨handshake, true, pack⟩
  | .queue | .close _ => []

def Returned.closed : Returned → List Fd
  | .close fd => [fd]
  | .data _ _ | .more | .queue => []

theorem Returned.count_closed {returned : Returned} {fd : Fd} (h : returned ≠ .close fd) :
    returned.closed.count fd = 0 := by
  match returned, h with
  | .close fd', h =>
    refine List.count_eq_zero_of_not_mem fun hmem => h ?_
    rw [List.mem_singleton.mp hmem]
  | .data _ _, _ => rfl
  | .more, _ => rfl
  | .queue, _ => rfl

namespace Decoder

def init : Decoder where
  queue := .init
  fault := none
  produced := []
  popped := []
  closed := []

def next (d : Decoder) : Event → Decoder
  | .segment fd buffer handshake =>
    match filterData d.queue fd buffer handshake with
    | .error fault => { d with fault := some (fd, fault) }
    | .ok (q, returned) =>
      { d with
        queue := q
        produced := d.produced ++ returned.produced handshake d.queue q
        closed := d.closed ++ returned.closed }
  | .close fd => { d with queue := d.queue.closeUncomplete fd }
  | .lpop =>
    match d.queue.lpop with
    | none => d
    | some (pack, q) => { d with queue := q, popped := d.popped ++ [pack] }

/-- The messages of `fd` so far. -/
def messagesOf (d : Decoder) (fd : Fd) : List Bytes :=
  (d.produced.filter (·.pack.id = fd)).map (·.pack.buffer)

/-- The messages that went to the queue. -/
def queued (d : Decoder) : List Netpack := (d.produced.filter (·.queued)).map (·.pack)

end Decoder

/-- The decoder, up to the first memory error. -/
def decoder : Machine Decoder Event where
  start d := d = .init
  step d e := if d.fault.isSome then none else some (d.next e)

/-! ## One call -/

namespace Queue

variable {q q' : Queue} {fd : Fd} {buffer : Bytes} {handshake : Bool} {returned : Returned}

/-- What a call does that runs into no error. -/
structure Calls (q : Queue) (fd : Fd) (m : Fed) (q' : Queue) : Prop where
  single : q'.Single
  pending : ∀ fd', q'.pending fd' = if fd' = fd then m.saved else q.pending fd'
  queue : q'.queue.toList = q.queue.toList ++ m.pushed.map (Netpack.mk fd)
  formed : m.Formed fd

theorem Single.calls (hq : q.Single)
    (h : filterData q fd buffer handshake = .ok (q', returned)) :
    ∃ m, feed fd (q.pending fd) buffer handshake = .ok m ∧ m.returned = returned ∧
      q.Calls fd m q' := by
  rw [filterData_eq hq] at h
  obtain ⟨m, hm, hfed⟩ := map_ok.mp h
  cases hfed
  exact ⟨m, hm, rfl, hq.fed fd m, hq.pending_fed fd m, q.toList_fed fd m, feed_formed hm⟩

theorem Single.faults (hq : q.Single) {fault : Fault}
    (h : filterData q fd buffer handshake = .error fault) :
    feed fd (q.pending fd) buffer handshake = .error fault := by
  rw [filterData_eq hq] at h
  cases hm : feed fd (q.pending fd) buffer handshake with
  | ok m =>
    rw [hm] at h
    cases h
  | error fault' =>
    rw [hm] at h
    cases h
    rfl

variable {m : Fed} (h : q.Calls fd m q')

include h in
theorem Calls.drop : q'.queue.toList.drop q.queue.toList.length = m.pushed.map (Netpack.mk fd) := by
  rw [h.queue, List.drop_left]

include h in
/-- The messages a call has are its connection's. -/
theorem Calls.packs (handshake : Bool) : (m.returned.produced handshake q q').map (·.pack) =
    m.messages.map (Netpack.mk fd) := by
  have hformed := h.formed
  have hdrop := h.drop
  unfold Fed.Formed at hformed
  unfold Returned.produced Fed.messages
  match hr : m.returned with
  | .more =>
    rw [hdrop, List.map_map]
    exact List.map_id _
  | .data fd' msg =>
    rw [hr] at hformed
    obtain ⟨rfl, hpushed⟩ := hformed
    rw [hpushed]
    rfl
  | .close fd' =>
    rw [hr] at hformed
    rw [hformed.2]
    rfl
  | .queue =>
    rw [hr] at hformed
    rw [show m.pushed = [] from hformed]
    rfl

include h in
/-- `TYPE_CLOSE` is returned for the connection of the call. -/
theorem Calls.closed_other {fd' : Fd} (hne : fd ≠ fd') : m.returned.closed.count fd' = 0 := by
  have hformed := h.formed
  unfold Fed.Formed at hformed
  unfold Returned.closed
  match hr : m.returned with
  | .close fd'' =>
    rw [hr] at hformed
    rw [hformed.1]
    exact List.count_eq_zero_of_not_mem fun hmem => hne (List.mem_singleton.mp hmem).symm
  | .more => rfl
  | .data _ _ => rfl
  | .queue => rfl

include h in
/-- Those in the queue are those that went there. -/
theorem Calls.queued (handshake : Bool) :
    ((m.returned.produced handshake q q').filter (·.queued)).map (·.pack) =
      m.pushed.map (Netpack.mk fd) := by
  have hformed := h.formed
  have hdrop := h.drop
  unfold Fed.Formed at hformed
  unfold Returned.produced
  match hr : m.returned with
  | .more =>
    dsimp only
    rw [hdrop, List.filter_eq_self.mpr, List.map_map]
    · exact List.map_id _
    · intro x hx
      obtain ⟨pack, _, rfl⟩ := List.mem_map.mp hx
      rfl
  | .data fd' msg =>
    rw [hr] at hformed
    rw [hformed.2]
    rfl
  | .close fd' =>
    rw [hr] at hformed
    rw [hformed.2]
    rfl
  | .queue =>
    rw [hr] at hformed
    rw [show m.pushed = [] from hformed]
    rfl

/-- Closing a connection forgets what is kept of it. -/
theorem Single.closeUncomplete (hq : q.Single) (fd : Fd) : (q.closeUncomplete fd).Single ∧
    ∀ fd', (q.closeUncomplete fd).pending fd' = if fd' = fd then none else q.pending fd' := by
  refine ⟨Buckets.Single.replace fd hq none, fun fd' => ?_⟩
  show (Buckets.entries hashFd (Buckets.replace hashFd fd q.hash none) fd').head? = _
  rw [Buckets.Single.entries_replace fd fd' hq none]
  split
  · rfl
  · rfl

end Queue

/-! ## Any event -/

namespace Decoder

variable {d : Decoder}

/-- One entry a connection, and a queue that is first in, first out. -/
structure Good (d : Decoder) : Prop where
  single : d.queue.Single
  fifo : d.popped ++ d.queue.queue.toList = d.queued

theorem queued_append (produced new : List Produced) :
    ((produced ++ new).filter (·.queued)).map (·.pack) =
      (produced.filter (·.queued)).map (·.pack) ++ (new.filter (·.queued)).map (·.pack) := by
  rw [List.filter_append, List.map_append]

theorem good_init : init.Good where
  single := Queue.single_init
  fifo := rfl

theorem Good.next (h : d.Good) (e : Event) : (d.next e).Good := by
  match e with
  | .segment fd buffer handshake =>
    unfold Decoder.next
    dsimp only
    split
    · exact ⟨h.single, h.fifo⟩
    · rename_i q returned hcall
      obtain ⟨m, -, rfl, hcalls⟩ := h.single.calls hcall
      refine ⟨hcalls.single, ?_⟩
      show d.popped ++ q.queue.toList = ((d.produced ++ _).filter _).map _
      rw [queued_append, hcalls.queued, hcalls.queue, ← List.append_assoc, h.fifo]
      rfl
  | .close fd => exact ⟨(h.single.closeUncomplete fd).1, h.fifo⟩
  | .lpop =>
    unfold Decoder.next
    dsimp only
    split
    · exact h
    · rename_i pack q hpop
      obtain ⟨⟨pack', ring⟩, hring, heq⟩ := Option.map_eq_some_iff.mp hpop
      cases heq
      refine ⟨h.single, ?_⟩
      show d.popped ++ [pack'] ++ ring.toList = d.queued
      rw [← h.fifo, Ring.pop_some hring, List.append_assoc]
      rfl

end Decoder

/-! ## One connection -/

/-- The bytes an event has for `fd`. -/
def Event.bytesOf (fd : Fd) : Event → Bytes
  | .segment fd' buffer _ => if fd' = fd then buffer else []
  | _ => []

/-- An event of a run in which `fd` is open, shook hands, and sends no empty segment. Of the other
connections nothing is said. -/
def Event.Streams (fd : Fd) : Event → Prop
  | .segment fd' buffer handshake => fd' = fd → buffer ≠ [] ∧ handshake = false
  | .close fd' => fd' ≠ fd
  | .lpop => True

instance (fd : Fd) (e : Event) : Decidable (e.Streams fd) :=
  match e with
  | .segment fd' buffer handshake =>
    inferInstanceAs (Decidable (fd' = fd → buffer ≠ [] ∧ handshake = false))
  | .close fd' => inferInstanceAs (Decidable (fd' ≠ fd))
  | .lpop => isTrue trivial

namespace Decoder

variable {d : Decoder} {fd : Fd} {todo : List DataFrame} {left : Bytes}

/-- Messages that are all one connection's. -/
theorem messagesOf_packs {fd fd' : Fd} {new : List Produced} {msgs : List Bytes}
    (h : new.map (·.pack) = msgs.map (Netpack.mk fd')) :
    (new.filter (·.pack.id = fd)).map (·.pack.buffer) = if fd' = fd then msgs else [] := by
  have hmap : (new.filter (·.pack.id = fd)).map (·.pack.buffer) =
      ((new.map (·.pack)).filter (·.id = fd)).map (·.buffer) := by
    rw [List.filter_map, List.map_map]
    rfl
  rw [hmap, h, List.filter_map, List.map_map]
  split
  · rename_i heq
    have hall : msgs.filter ((fun x => decide (x.id = fd)) ∘ Netpack.mk fd') = msgs :=
      List.filter_eq_self.mpr fun _ _ => decide_eq_true heq
    rw [hall]
    exact List.map_id _
  · rename_i hne
    have hnone : msgs.filter ((fun x => decide (x.id = fd)) ∘ Netpack.mk fd') = [] :=
      List.filter_eq_nil_iff.mpr fun _ _ h => hne (of_decide_eq_true h)
    rw [hnone]
    rfl

/-- What a call does that runs into no error, for its connection. -/
theorem Good.next_segment (hd : d.Good) {s : Bytes} {handshake : Bool} {m : Fed}
    (hfeed : feed fd (d.queue.pending fd) s handshake = .ok m) :
    (d.next (.segment fd s handshake)).fault = d.fault ∧
      (d.next (.segment fd s handshake)).queue.pending fd = m.saved ∧
      (d.next (.segment fd s handshake)).messagesOf fd = d.messagesOf fd ++ m.messages ∧
      (d.next (.segment fd s handshake)).closed = d.closed ++ m.returned.closed := by
  unfold Decoder.next
  dsimp only
  split
  · rename_i fault hcall
    rw [hd.single.faults hcall] at hfeed
    cases hfeed
  · rename_i q returned hcall
    obtain ⟨m', hfeed', rfl, hcalls⟩ := hd.single.calls hcall
    cases hfeed.symm.trans hfeed'
    refine ⟨rfl, ?_, ?_, rfl⟩
    · show q.pending fd = m.saved
      rw [hcalls.pending, if_pos rfl]
    · show ((d.produced ++ _).filter _).map _ = _
      rw [List.filter_append, List.map_append, messagesOf_packs (hcalls.packs handshake), if_pos rfl]
      rfl

theorem Good.next_fault (hd : d.Good) {s : Bytes} {handshake : Bool} {fault : Fault}
    (hfeed : feed fd (d.queue.pending fd) s handshake = .error fault) :
    d.next (.segment fd s handshake) = { d with fault := some (fd, fault) } := by
  have hcall : filterData d.queue fd s handshake = .error fault := by
    rw [filterData_eq hd.single, hfeed]
    rfl
  unfold Decoder.next
  dsimp only
  rw [hcall]

/-- What an event of another connection leaves of `fd`'s. -/
theorem Good.next_other (hd : d.Good) {e : Event} (he : e.Streams fd) (hnil : e.bytesOf fd = [])
    (hfault : d.fault = none) :
    (∀ x ∈ (d.next e).fault, x.1 ≠ fd) ∧ (d.next e).queue.pending fd = d.queue.pending fd ∧
      (d.next e).messagesOf fd = d.messagesOf fd ∧
      (d.next e).closed.count fd = d.closed.count fd := by
  have hno : ∀ x ∈ d.fault, x.1 ≠ fd := fun x hx => nomatch hfault.symm.trans hx
  match e, he with
  | .segment fd' buffer handshake, he =>
    have hfd : fd' ≠ fd := by
      intro hfd
      have hbuffer : buffer = [] := (if_pos hfd).symm.trans hnil
      exact (he hfd).1 hbuffer
    unfold Decoder.next
    dsimp only
    split
    · refine ⟨?_, rfl, rfl, rfl⟩
      rintro x ⟨⟩
      exact hfd
    · rename_i q returned hcall
      obtain ⟨m, -, rfl, hcalls⟩ := hd.single.calls hcall
      refine ⟨hno, ?_, ?_, ?_⟩
      · show q.pending fd = _
        rw [hcalls.pending, if_neg (Ne.symm hfd)]
      · show ((d.produced ++ _).filter _).map _ = _
        rw [List.filter_append, List.map_append, messagesOf_packs (hcalls.packs handshake),
          if_neg hfd, List.append_nil]
        rfl
      · show (d.closed ++ m.returned.closed).count fd = _
        rw [List.count_append, hcalls.closed_other hfd, Nat.add_zero]
  | .close fd', he =>
    refine ⟨hno, ?_, rfl, rfl⟩
    show (d.queue.closeUncomplete fd').pending fd = _
    rw [(hd.single.closeUncomplete fd').2, if_neg (Ne.symm he)]
  | .lpop, _ =>
    unfold Decoder.next
    dsimp only
    split
    · exact ⟨hno, rfl, rfl, rfl⟩
    · rename_i pack q hpop
      obtain ⟨_, _, heq⟩ := Option.map_eq_some_iff.mp hpop
      cases heq
      exact ⟨hno, rfl, rfl, rfl⟩

variable {R : Option Uncomplete → List DataFrame → Bytes → Prop}

/-- One event: the messages of `fd` are the payloads of the frames that end in it. -/
theorem Good.next_streams (hd : d.Good) (hR : Follows R) {e : Event} (he : e.Streams fd)
    (hat : R (d.queue.pending fd) todo (e.bytesOf fd ++ left)) (hfault : d.fault = none) :
    (∀ x ∈ (d.next e).fault, x.1 ≠ fd) ∧ (d.next e).closed.count fd = d.closed.count fd ∧
      ∃ done todo', todo = done ++ todo' ∧
        (d.next e).messagesOf fd = d.messagesOf fd ++ done.map DataFrame.payload ∧
        R ((d.next e).queue.pending fd) todo' left := by
  by_cases hnil : e.bytesOf fd = []
  · obtain ⟨hsound, hpending, hmessages, hclosed⟩ := hd.next_other he hnil hfault
    rw [hnil] at hat
    refine ⟨hsound, hclosed, [], todo, rfl, ?_, hpending ▸ hat⟩
    rw [hmessages, List.map_nil, List.append_nil]
  · -- the event is a segment of `fd`
    match e, he, hnil with
    | .segment fd' buffer handshake, he, hnil =>
      have hfd : fd' = fd := by
        by_contra hne
        exact hnil (if_neg hne)
      subst hfd
      obtain ⟨hbuffer, rfl⟩ := he rfl
      have hbytes : Event.bytesOf fd' (.segment fd' buffer false) = buffer := if_pos rfl
      rw [hbytes] at hat
      obtain ⟨done, todo', m, rfl, hfeed, hat', hmessages, hclose⟩ := hR fd' _ _ _ _ hat hbuffer
      obtain ⟨hfault', hpending, hmsgs, hclosed⟩ := hd.next_segment hfeed
      refine ⟨?_, ?_, done, todo', rfl, hmsgs.trans (by rw [hmessages]), hpending.symm ▸ hat'⟩
      · rw [hfault', hfault]
        nofun
      · rw [hclosed, List.count_append, Returned.count_closed hclose, Nat.add_zero]

theorem step_eq {d d' : Decoder} {e : Event} (h : decoder.step d e = some d') :
    d.fault = none ∧ d' = d.next e := by
  change (if d.fault.isSome then none else some (d.next e)) = some d' at h
  split at h
  · cases h
  · rename_i hfault
    cases h
    exact ⟨Option.not_isSome_iff_eq_none.mp hfault, rfl⟩

theorem exec_streams (hR : Follows R) {evs : List Event} {d d' : Decoder} (hd : d.Good)
    {todo : List DataFrame} (hsound : ∀ x ∈ d.fault, x.1 ≠ fd) (hevs : ∀ e ∈ evs, e.Streams fd)
    (hat : R (d.queue.pending fd) todo (evs.flatMap (Event.bytesOf fd) ++ left))
    (hrun : decoder.exec d evs = some d') :
    d'.Good ∧ (∀ x ∈ d'.fault, x.1 ≠ fd) ∧ d'.closed.count fd = d.closed.count fd ∧
      ∃ done todo', todo = done ++ todo' ∧
        d'.messagesOf fd = d.messagesOf fd ++ done.map DataFrame.payload ∧
        R (d'.queue.pending fd) todo' left := by
  induction evs generalizing d todo with
  | nil =>
    cases hrun
    exact ⟨hd, hsound, rfl, [], todo, rfl, (List.append_nil _).symm, hat⟩
  | cons e evs ih =>
    obtain ⟨d₁, hstep, hrest⟩ := Option.bind_eq_some_iff.mp hrun
    obtain ⟨hfault, rfl⟩ := step_eq hstep
    rw [List.flatMap_cons, List.append_assoc] at hat
    obtain ⟨hsound₁, hclosed, done, todo₁, rfl, hmessages, hat₁⟩ :=
      hd.next_streams hR (hevs e List.mem_cons_self) hat hfault
    obtain ⟨hgood, hsound', hclosed', done', todo', rfl, hmessages', hat'⟩ :=
      ih (hd.next e) hsound₁ (fun e he => hevs e (List.mem_cons_of_mem _ he)) hat₁ hrest
    refine ⟨hgood, hsound', hclosed'.trans hclosed, done ++ done', todo',
      (List.append_assoc _ _ _).symm, ?_, hat'⟩
    rw [hmessages', hmessages, List.map_append, List.append_assoc]

/-- **Stream decoding.** When the segments of `fd` cut a stream of data frames, its messages are the
payloads of the frames, in order and each once: of those that ended so far, and of all of them when
nothing of the stream is left. No call for `fd` runs into an error. The queue is first in, first out. -/
theorem stream_decoded (fd : Fd) (fs : List DataFrame) (evs : List Event) (left : Bytes)
    (hevs : ∀ e ∈ evs, e.Streams fd)
    (hcut : evs.flatMap (Event.bytesOf fd) ++ left = stream fs) (d : Decoder)
    (hrun : decoder.exec init evs = some d) :
    (∃ done todo, fs = done ++ todo ∧ d.messagesOf fd = done.map DataFrame.payload ∧
        (left = [] → todo = [])) ∧
      (∀ x ∈ d.fault, x.1 ≠ fd) ∧ d.popped ++ d.queue.queue.toList = d.queued := by
  have hat : At (init.queue.pending fd) fs (evs.flatMap (Event.bytesOf fd) ++ left) := by
    rw [hcut]
    exact at_start fs
  obtain ⟨hgood, hsound, -, done, todo, hfs, hmessages, hat'⟩ :=
    exec_streams feed_at good_init nofun hevs hat hrun
  refine ⟨⟨done, todo, hfs, hmessages, ?_⟩, hsound, hgood.fifo⟩
  rintro rfl
  exact hat'.eq_nil

/-- A masked frame of three bytes, in the short form. -/
def sample : DataFrame where
  opcode := 1
  form := .short
  key := some ⟨[1, 2, 3, 4], rfl⟩
  data := [64, 64, 64]
  opcode_data := by decide
  length_le := by decide
  direct_lt := nofun

/-- Two frames, cut in the header and in the payload, beside a connection of the same bucket. -/
theorem stream_decoded_sample : ∃ d ∈ decoder.exec init
    [.segment 5 (sample.bytes.take 5) false, .segment 0x01000004 [0x81] false,
      .segment 5 (sample.bytes.drop 5 ++ sample.bytes.take 9) false, .lpop,
      .segment 0x01000004 [1, 66] false, .segment 5 (sample.bytes.drop 9) false],
    hashFd 5 = hashFd 0x01000004 ∧ d.fault = none ∧ d.popped = [⟨5, [65, 66, 67]⟩] ∧
      ∃ done todo, [sample, sample] = done ++ todo ∧
        d.messagesOf 5 = done.map DataFrame.payload ∧ (([] : Bytes) = [] → todo = []) := by
  have hrun : ∃ d ∈ decoder.exec init
    [.segment 5 (sample.bytes.take 5) false, .segment 0x01000004 [0x81] false,
      .segment 5 (sample.bytes.drop 5 ++ sample.bytes.take 9) false, .lpop,
      .segment 0x01000004 [1, 66] false, .segment 5 (sample.bytes.drop 9) false],
    d.fault = none ∧ d.popped = [⟨5, [65, 66, 67]⟩] := by decide +kernel
  obtain ⟨d, hd, hfault, hpopped⟩ := hrun
  exact ⟨d, hd, by decide, hfault, hpopped,
    (stream_decoded 5 [sample, sample] _ [] (by decide) (by decide +kernel) d hd).1⟩

end Decoder

end AntServer.WebSocket
