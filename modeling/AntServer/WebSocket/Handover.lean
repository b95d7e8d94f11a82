/-
# AntServer.WebSocket.Handover — from the upgrade request to the frames

A client sends its request and, behind it, frames; segments may end anywhere, also the request may end
and frames begin in one segment. That segment is unpacked while the flag says that a request is read,
so what it holds behind the request is looked through for the end of another request, and kept as the
bytes of a header if there is none. When the flag has changed, these bytes are the beginning of a
frame's header, if they are no more than that: `filter_data_` goes on in the header byte by byte, but
the bytes behind a header that is complete it does not look at. So nothing is lost exactly when the
segment ends within the first frame's header (`handsOver_iff`).
-/
import AntServer.WebSocket.GateserverWs
import AntServer.WebSocket.Safety

namespace AntServer.WebSocket

open Lib

/-! ## A request in segments -/

/-- A request that ends at its first empty line, of less than `HEADERSIZE` bytes. -/
structure Request (request : Bytes) : Prop where
  ends : getHttpHeader request = request.length
  short : request.length < HEADERSIZE

instance (request : Bytes) : Decidable (Request request) :=
  decidable_of_iff (getHttpHeader request = request.length ∧ request.length < HEADERSIZE)
    ⟨fun h => ⟨h.1, h.2⟩, fun h => ⟨h.ends, h.short⟩⟩

namespace Request

theorem length_pos {request : Bytes} (h : Request request) : 0 < request.length := by
  rcases getHttpHeader_cases request with hnone | hsome
  · have hends := h.ends
    omega
  · have hends := h.ends
    omega

/-- The request does not end before its end. -/
theorem part {p t : Bytes} (h : Request (p ++ t)) (ht : t ≠ []) : getHttpHeader p = -1 := by
  by_contra hends
  have hle := getHttpHeader_le p
  have happend := getHttpHeader_append (getHttpHeader_nonneg.mpr hends) t
  rw [h.ends, List.length_append] at happend
  have hpos := List.length_pos_of_ne_nil ht
  omega

theorem append {request : Bytes} (h : Request request) (rest : Bytes) :
    getHttpHeader (request ++ rest) = request.length := by
  rw [getHttpHeader_append, h.ends]
  rw [h.ends]
  exact Int.natCast_nonneg _

end Request

/-- What is kept of a connection that has sent a part of its request. -/
def held (part : Bytes) : Option Uncomplete := if part = [] then none else some (.header part)

/-- A segment in which the request does not end. -/
theorem feed_request_part (fd : Fd) {p s t : Bytes} (h : Request (p ++ s ++ t)) (hs : s ≠ [])
    (ht : t ≠ []) : feed fd (held p) s true = .ok ⟨some (.header (p ++ s)), [], .queue⟩ := by
  have hnone := h.part ht
  have hshort : (p ++ s).length ≤ HEADERSIZE := by
    have hlen := h.short
    rw [List.length_append] at hlen
    omega
  unfold held
  split
  · rename_i hp
    subst hp
    show feedFresh fd s true = _
    have hstart : readStart true badFirst s = ⟨-1, {}, s⟩ := by
      unfold readStart
      rw [if_pos rfl, show getHttpHeader s = -1 from hnone]
    unfold feedFresh
    rw [hstart]
    have huc : headerUncomplete true s = .ok (.header s) := by
      unfold headerUncomplete
      rw [if_neg (by simpa using hshort), if_neg (by simpa using hshort)]
      rfl
    show (fun uc => Fed.mk (some uc) [] .queue) <$> headerUncomplete true s = _
    rw [huc]
    rfl
  · show feedHeader fd p s true = _
    have hroom : p.length < HEADERSIZE := by
      have hpos := List.length_pos_of_ne_nil hs
      rw [List.length_append] at hshort
      omega
    obtain ⟨s', rest, hfill, ⟨hneg, -, hbuffer, -, -⟩ | ⟨part, rfl, hpart, -⟩⟩ :=
      fillHeader_request (s := ⟨0, {}, p⟩) hs hroom (.inl hshort)
    · unfold feedHeader
      rw [hfill]
      show (if s'.packSize = -1 then _ else _) = _
      rw [if_pos hneg, hbuffer]
      rfl
    · have hends := hpart.complete
      rw [show p ++ (part ++ rest) ++ t = (p ++ part) ++ (rest ++ t) by simp] at h
      rw [h.part (List.append_ne_nil_of_right_ne_nil _ ht)] at hends
      omega

/-- The segment in which the request ends. -/
theorem feed_request_end (fd : Fd) {p s : Bytes} (h : Request (p ++ s)) (hs : s ≠ []) (rest : Bytes) :
    feed fd (held p) (s ++ rest) true = complete fd (p ++ s) rest true := by
  unfold held
  split
  · rename_i hp
    subst hp
    show feedFresh fd (s ++ rest) true = complete fd s rest true
    have h : Request s := h
    have hstart : readStart true badFirst (s ++ rest) = ⟨s.length, {}, s ++ rest⟩ := by
      unfold readStart
      rw [if_pos rfl, h.append]
    unfold feedFresh
    rw [hstart]
    have hclone : clonePack s.length {} (s ++ rest) = .ok s := by
      unfold clonePack
      rw [malloc_of_nonneg (Int.natCast_nonneg _)]
      show copyPack s.length [] (decodeWsmaskData ((s ++ rest).take s.length) {}).1 = _
      rw [List.take_left]
      exact copyPack_of_le (by simp [decodeWsmaskData])
    dsimp only
    rw [if_neg (length_ne_neg_one _), if_neg (by omega), if_neg (fun hfalse => nomatch hfalse.2)]
    show clonePack s.length {} (s ++ rest) >>= _ = _
    rw [hclone]
    unfold complete
    show (if (((s ++ rest).length : Int) = s.length) then _ else
      (fun m => Fed.mk m.1 (s :: m.2) .more) <$> more ((s ++ rest).drop s.length) true) = _
    rw [List.drop_left, List.length_append]
    by_cases hrest : rest = []
    · subst hrest
      rw [if_pos rfl, if_pos (by simp)]
    · have hpos := List.length_pos_of_ne_nil hrest
      rw [if_neg hrest, if_neg (by omega)]
  · show feedHeader fd p (s ++ rest) true = _
    have hshort := h.short
    have hroom : p.length < HEADERSIZE := by
      rw [List.length_append] at hshort
      omega
    have hne : s ++ rest ≠ [] := List.append_ne_nil_of_left_ne_nil hs _
    have hfits : 0 ≤ getHttpHeader ((p ++ (s ++ rest)).take HEADERSIZE) := by
      rw [← List.append_assoc, List.take_append, List.take_of_length_le (by omega), h.append]
      exact Int.natCast_nonneg _
    obtain ⟨s', rest', hfill, ⟨-, hnone, hbuffer, -, -⟩ | ⟨part, hpart, hends, hsize, hbuffer⟩⟩ :=
      fillHeader_request (s := ⟨0, {}, p⟩) hne hroom (.inr hfits)
    · rw [hbuffer, ← List.append_assoc, h.append] at hnone
      omega
    · -- the code stops at the end of the request, not before and not behind it
      have hlen : s.length = part.length := by
        rcases Nat.lt_trichotomy s.length part.length with hlt | heq | hgt
        · have hfirst := hends.first s.length hlt (List.length_pos_of_ne_nil hs)
          have hs' : part.take s.length = s := by
            have htake := congrArg (List.take s.length) hpart
            rwa [List.take_left, List.take_append_of_le_length hlt.le, eq_comm] at htake
          rw [hs', h.ends] at hfirst
          omega
        · exact heq
        · have hs' : s = part ++ s.drop part.length := by
            have htake := congrArg (List.take part.length) hpart
            rw [List.take_left, List.take_append_of_le_length hgt.le] at htake
            conv_lhs => rw [← List.take_append_drop part.length s, htake]
          have hends := hends.complete
          have hnone : getHttpHeader (p ++ part) = -1 := by
            rw [hs', ← List.append_assoc] at h
            refine h.part (List.ne_nil_of_length_pos ?_)
            rw [List.length_drop]
            omega
          rw [show ({ packSize := 0, head := {}, buffer := p } : Start).buffer = p from rfl, hnone] at hends
          omega
      obtain ⟨rfl, rfl⟩ := List.append_inj hpart hlen
      have hsize : s'.packSize = (p ++ s).length := hsize.trans h.ends
      have hbuffer : s'.buffer = p ++ s := hbuffer
      unfold feedHeader
      rw [hfill]
      show (if s'.packSize = -1 then _ else if s'.packSize = -3 then _ else malloc s'.packSize >>= _) = _
      rw [hsize, if_neg (length_ne_neg_one _), if_neg (by omega),
        malloc_of_nonneg (Int.natCast_nonneg _), hbuffer]
      show copyPack (p ++ s).length [] ((p ++ s).take (p ++ s).length) >>= _ = _
      rw [List.take_length, copyPack_of_le (by simp)]
      show feedBody fd (p ++ s).length (p ++ s) s'.head.mask rest true = _
      unfold feedBody
      dsimp only
      rw [Nat.sub_self, if_neg (Nat.not_lt_zero _), List.take_zero, List.drop_zero, Mask.decode_nil,
        copyPack_of_le (by simp), List.append_nil]
      rfl

/-! ### What comes behind the request -/

/-- What stands behind a request in its segment, when no request ends there. -/
theorem more_request {rest : Bytes} (h : getHttpHeader rest = -1) (hlen : rest.length ≤ HEADERSIZE) :
    more rest true = .ok (some (.header rest), []) := by
  have hstart : readStart true badMore rest = ⟨-1, {}, rest⟩ := by
    unfold readStart
    rw [if_pos rfl, h]
  have huc : headerUncomplete true rest = .ok (.header rest) := by
    unfold headerUncomplete
    rw [if_neg (by simpa using hlen), if_neg (by simpa using hlen)]
    rfl
  rw [more]
  dsimp only
  rw [hstart, dif_pos rfl]
  show (fun uc => (some uc, [])) <$> headerUncomplete true rest = _
  rw [huc]
  rfl

/-- What stands behind a request in its segment is cut into messages and a rest that is kept, unless it
is longer than a header. -/
theorem more_request_flatten {rest : Bytes} {handshake : Bool} (hmode : handshake = true) :
    ∀ p msgs, more rest handshake = .ok (p, msgs) →
    p = none ∧ msgs.flatten = rest ∨
      ∃ header tail, p = some (.header header) ∧ msgs.flatten ++ (header ++ tail) = rest ∧
        (header.length < HEADERSIZE → tail = []) ∧ (msgs = [] → getHttpHeader rest = -1) := by
  fun_induction more rest handshake with
  | case1 rest s hsize =>
    intro p msgs h
    subst hmode
    obtain ⟨uc, huc, hm⟩ := map_ok.mp h
    cases hm
    have hnone : getHttpHeader rest = -1 := hsize
    unfold headerUncomplete at huc
    have hbuffer : s.buffer = rest := rfl
    rw [hbuffer] at huc
    split at huc
    · rename_i hlong
      have hlong : HEADERSIZE < rest.length := by simpa using hlong
      cases huc
      refine .inr ⟨rest.take HEADERSIZE, rest.drop HEADERSIZE, rfl, List.take_append_drop _ _, ?_,
        fun _ => hnone⟩
      intro hlt
      rw [List.length_take] at hlt
      omega
    · split at huc
      · cases huc
      · cases huc
        exact .inr ⟨rest, [], rfl, by simp, fun _ => rfl, fun _ => hnone⟩
  | case2 rest s hsize data hshort =>
    rw [hmode] at hshort
    cases hshort.2
  | case3 rest s hsize data hfull ih =>
    intro p msgs h
    subst hmode
    obtain ⟨msg, hmsg, h⟩ := bind_ok.mp h
    have hdata : data = rest := rfl
    have hmask : s.head.mask = {} := rfl
    have hclone : msg = data.take s.packSize.toNat := by
      unfold clonePack at hmsg
      obtain ⟨size, hsize', hmsg⟩ := bind_ok.mp hmsg
      unfold malloc at hsize'
      split at hsize'
      · cases hsize'
      · cases hsize'
        unfold copyPack at hmsg
        split at hmsg
        · cases hmsg
        · cases hmsg
          rfl
    dsimp only at h
    split at h
    · rename_i hnil
      cases h
      refine .inl ⟨rfl, ?_⟩
      have hsplit := List.take_append_drop s.packSize.toNat data
      rw [hnil, List.append_nil, ← hclone, hdata] at hsplit
      simpa using hsplit
    · rename_i hne
      obtain ⟨m, hm, heq⟩ := map_ok.mp h
      cases heq
      have hsplit : msg ++ data.drop s.packSize.toNat = rest := by
        rw [hclone, List.take_append_drop, hdata]
      rcases ih hne _ _ hm with ⟨hp, hflat⟩ | ⟨header, tail, hp, hflat, htail, -⟩
      · exact .inl ⟨hp, by rw [List.flatten_cons, hflat, hsplit]⟩
      · refine .inr ⟨header, tail, hp, ?_, htail, fun hnil => by cases hnil⟩
        rw [List.flatten_cons, List.append_assoc, hflat, hsplit]

/-! ## A segment at the gate -/

namespace Gateserver

variable {accept : Bytes → Bytes} {g : Gateserver} {fd : Fd}

/-- Nothing waits in the queue, and no call ran into an error. -/
structure Idle (g : Gateserver) : Prop where
  single : g.queue.Single
  empty : g.queue.queue.toList = []
  fault : g.fault = none

/-- `dispatch_msg` for messages of one connection. -/
def dispatchAll (accept : Bytes → Bytes) (fd : Fd) (g : Gateserver) (msgs : List Bytes) : Gateserver :=
  msgs.foldl (fun g msg => g.dispatchMsg accept fd msg) g

/-- `dispatch_msg` neither reads the queue nor writes it. -/
theorem dispatchMsg_queue (q : Queue) (msg : Bytes) :
    { g with queue := q }.dispatchMsg accept fd msg = { g.dispatchMsg accept fd msg with queue := q } := by
  unfold dispatchMsg
  dsimp only
  split
  · rfl
  · split
    · rfl
    · unfold checkwebsocket
      dsimp only
      split <;> rfl
  · split <;> rfl

variable (accept fd) in
theorem dispatchAll_queue (q : Queue) (msgs : List Bytes) :
    dispatchAll accept fd { g with queue := q } msgs = { dispatchAll accept fd g msgs with queue := q } := by
  induction msgs generalizing g with
  | nil => rfl
  | cons msg msgs ih =>
    unfold dispatchAll at ih ⊢
    rw [List.foldl_cons, List.foldl_cons, dispatchMsg_queue, ih]

variable (accept) in
/-- `dispatch_queue`, when the queue holds messages of one connection only. -/
theorem dispatchQueue_eq {msgs : List Bytes}
    (h : g.queue.queue.toList = msgs.map (Netpack.mk fd)) :
    ∃ ring, ring.toList = [] ∧ dispatchQueue accept msgs.length g =
      dispatchAll accept fd { g with queue := { g.queue with queue := ring } } msgs := by
  induction msgs generalizing g with
  | nil => exact ⟨g.queue.queue, h, rfl⟩
  | cons msg msgs ih =>
    cases hpop : g.queue.queue.pop with
    | none =>
      rw [Ring.pop_none _ hpop] at h
      cases h
    | some x =>
      obtain ⟨pack, ring⟩ := x
      rw [Ring.pop_some hpop] at h
      obtain ⟨rfl, hrest⟩ := List.cons.inj h
      have hlpop : g.queue.lpop = some (⟨fd, msg⟩, { g.queue with queue := ring }) := by
        unfold Queue.lpop
        rw [hpop]
        rfl
      rw [List.length_cons, dispatchQueue, hlpop]
      dsimp only
      rw [dispatchMsg_queue]
      obtain ⟨ring', hring', hrun⟩ := ih (g := { g.dispatchMsg accept fd msg with
        queue := { g.queue with queue := ring } }) hrest
      refine ⟨ring', hring', hrun.trans ?_⟩
      show dispatchAll accept fd { g.dispatchMsg accept fd msg with
        queue := { g.queue with queue := ring' } } msgs = _
      rw [← dispatchMsg_queue]
      rfl

variable (accept) in
/-- A segment that closes nothing: its messages are dispatched, in order. -/
theorem Idle.socket_feed (hg : g.Idle) {s : Bytes} {m : Fed}
    (hfeed : feed fd (g.queue.pending fd) s (g.mode fd) = .ok m) (hclose : m.returned ≠ .close fd) :
    ∃ q, q.Single ∧ q.queue.toList = [] ∧ q.pending fd = m.saved ∧
      g.socket accept fd s = dispatchAll accept fd { g with queue := q } m.messages := by
  unfold socket
  split
  · rename_i fault hcall
    rw [hg.single.faults hcall] at hfeed
    cases hfeed
  · rename_i q returned hcall
    obtain ⟨m', hfeed', rfl, hcalls⟩ := hg.single.calls hcall
    obtain rfl := Except.ok.inj (hfeed'.symm.trans hfeed)
    have hpending : q.pending fd = m'.saved := by rw [hcalls.pending, if_pos rfl]
    have hqueue : q.queue.toList = m'.pushed.map (Netpack.mk fd) := by
      rw [hcalls.queue, hg.empty, List.nil_append]
    have hformed := hcalls.formed
    unfold Fed.Formed at hformed
    unfold Fed.messages
    dsimp only
    cases hr : m'.returned with
    | queue =>
      rw [hr] at hformed
      dsimp only at hformed ⊢
      refine ⟨q, hcalls.single, by rw [hqueue, hformed]; rfl, hpending, ?_⟩
      rw [hformed]
      rfl
    | data fd' msg =>
      rw [hr] at hformed
      obtain ⟨rfl, hpushed⟩ := hformed
      refine ⟨q, hcalls.single, by rw [hqueue, hpushed]; rfl, hpending, ?_⟩
      rw [hpushed]
      rfl
    | more =>
      have hlen : q.queue.length = m'.pushed.length := by
        have hlen := congrArg List.length hqueue
        simpa [Ring.toList] using hlen
      obtain ⟨ring, hring, hrun⟩ := dispatchQueue_eq accept (g := { g with queue := q }) hqueue
      refine ⟨{ q with queue := ring }, hcalls.single, hring, hpending, ?_⟩
      dsimp only
      rw [hlen, hrun]
    | close fd' =>
      rw [hr] at hformed hclose
      exact absurd (by rw [hformed.1]) hclose

/-! ## What is handed over -/

/-- A valid request that is short enough. -/
theorem dispatchMsg_request {request : Bytes} (hopen : g.connection.get fd = some true)
    (hshort : request.length < max_headersize) {response : Bytes}
    (hvalid : checkwebsocketValid accept (parseHttpheader request) = .ok response) :
    (g.dispatchMsg accept fd request).handed = g.handed ++ [Handed.checkwebsocket fd request] ∧
      (g.dispatchMsg accept fd request).connection.get fd = some false ∧
      (g.dispatchMsg accept fd request).fault = g.fault := by
  unfold dispatchMsg
  rw [hopen]
  dsimp only
  rw [if_neg (by omega)]
  unfold checkwebsocket
  rw [hvalid]
  exact ⟨rfl, Table.get_set_self _ _ _, rfl⟩

variable (accept) in
/-- Payloads that are short enough. -/
theorem dispatchAll_messages {msgs : List Bytes} (hopen : g.connection.get fd = some false)
    (hshort : ∀ msg ∈ msgs, msg.length < max_packsize) :
    dispatchAll accept fd g msgs = { g with handed := g.handed ++ msgs.map (.message fd) } := by
  induction msgs generalizing g with
  | nil => simp [dispatchAll]
  | cons msg msgs ih =>
    have hmsg : g.dispatchMsg accept fd msg = { g with handed := g.handed ++ [Handed.message fd msg] } := by
      unfold dispatchMsg
      rw [hopen]
      dsimp only
      rw [if_neg (by have := hshort msg List.mem_cons_self; omega)]
    have hrest := ih (g := { g with handed := g.handed ++ [Handed.message fd msg] }) hopen fun m hm =>
      hshort m (List.mem_cons_of_mem _ hm)
    show dispatchAll accept fd (g.dispatchMsg accept fd msg) msgs = _
    rw [hmsg, hrest, List.append_assoc]
    rfl

/-- A connection that was closed stays closed. -/
theorem dispatchAll_closed {msgs : List Bytes} (hclosed : g.connection.get fd = none) :
    (dispatchAll accept fd g msgs).connection.get fd = none := by
  induction msgs generalizing g with
  | nil => exact hclosed
  | cons msg msgs ih =>
    have hmsg : (g.dispatchMsg accept fd msg).connection.get fd = none := by
      unfold dispatchMsg
      rw [hclosed]
      exact hclosed
    exact ih hmsg

/-- A message that is too long closes the connection. -/
theorem short_of_dispatchAll {msgs : List Bytes} (hopen : g.connection.get fd = some false)
    (hstays : (dispatchAll accept fd g msgs).connection.get fd = some false) :
    ∀ msg ∈ msgs, msg.length < max_packsize := by
  induction msgs generalizing g with
  | nil => exact nofun
  | cons msg msgs ih =>
    have hstays : (dispatchAll accept fd (g.dispatchMsg accept fd msg) msgs).connection.get fd =
      some false := hstays
    by_cases hlong : msg.length ≥ max_packsize
    · have hclosed : (g.dispatchMsg accept fd msg).connection.get fd = none := by
        unfold dispatchMsg
        rw [hopen]
        dsimp only
        rw [if_pos hlong]
        exact Table.get_del_self _ _
      rw [dispatchAll_closed hclosed] at hstays
      cases hstays
    · have hsame : (g.dispatchMsg accept fd msg).connection = g.connection := by
        unfold dispatchMsg
        rw [hopen]
        dsimp only
        rw [if_neg hlong]
      intro m hm
      rcases List.mem_cons.mp hm with rfl | hm
      · exact not_le.mp hlong
      · exact ih (by rw [hsame]; exact hopen) hstays m hm

/-! ### What is handed over stays -/

/-- More has been handed over, and no message to `handler.message` is too long. -/
def Adds (g g' : Gateserver) : Prop :=
  ∃ added, g'.handed = g.handed ++ added ∧ ∀ fd msg, .message fd msg ∈ added → msg.length < max_packsize

theorem Adds.refl {g g' : Gateserver} (h : g'.handed = g.handed) : Adds g g' :=
  ⟨[], by rw [h, List.append_nil], nofun⟩

theorem Adds.trans {g g' g'' : Gateserver} (h : Adds g g') (h' : Adds g' g'') : Adds g g'' := by
  obtain ⟨added, hadded, hshort⟩ := h
  obtain ⟨added', hadded', hshort'⟩ := h'
  refine ⟨added ++ added', by rw [hadded', hadded, List.append_assoc], fun fd msg hm => ?_⟩
  exact (List.mem_append.mp hm).elim (hshort fd msg) (hshort' fd msg)

theorem dispatchMsg_adds (fd : Fd) (msg : Bytes) : Adds g (g.dispatchMsg accept fd msg) := by
  unfold dispatchMsg
  split
  · exact ⟨_, rfl, by simp⟩
  · split
    · exact .refl rfl
    · unfold checkwebsocket
      dsimp only
      split <;> exact ⟨_, rfl, by simp⟩
  · split
    · exact .refl rfl
    · rename_i hshort
      refine ⟨_, rfl, fun fd' msg' hm => ?_⟩
      cases List.mem_singleton.mp hm
      exact not_le.mp hshort

theorem dispatchQueue_adds (n : Nat) : Adds g (dispatchQueue accept n g) := by
  induction n generalizing g with
  | zero => exact .refl rfl
  | succ n ih =>
    unfold dispatchQueue
    split
    · exact .refl rfl
    · rename_i pack q _
      have hpop : Adds g { g with queue := q } := .refl rfl
      exact hpop.trans ((dispatchMsg_adds pack.id pack.buffer).trans ih)

theorem socket_adds (fd : Fd) (s : Bytes) : Adds g (g.socket accept fd s) := by
  unfold socket
  split
  · exact .refl rfl
  · dsimp only
    split
    · exact .refl rfl
    · exact (Adds.refl rfl).trans (dispatchMsg_adds _ _)
    · exact (Adds.refl rfl).trans (dispatchQueue_adds _)
    · exact .refl rfl

theorem sockets_adds (accept : Bytes → Bytes) (g : Gateserver) (fd : Fd) (segments : List Bytes) :
    Adds g (sockets accept fd g segments) := by
  induction segments generalizing g with
  | nil => exact .refl rfl
  | cons s segments ih =>
    unfold sockets
    split
    · exact .refl rfl
    · exact (socket_adds fd s).trans (ih _)

/-- Once a call ran into an error nothing happens. -/
theorem sockets_fault {segments : List Bytes} (h : g.fault ≠ none) : sockets accept fd g segments = g := by
  cases segments with
  | nil => rfl
  | cons s segments => exact if_pos (Option.isSome_iff_ne_none.mpr h)

theorem sockets_append (before after : List Bytes) : sockets accept fd g (before ++ after) =
    sockets accept fd (sockets accept fd g before) after := by
  induction before generalizing g with
  | nil => rfl
  | cons s before ih =>
    by_cases h : g.fault = none
    · rw [List.cons_append, sockets, if_neg (by simp [h]), ih, sockets, if_neg (by simp [h])]
    · rw [sockets_fault h, sockets_fault h, sockets_fault h]

/-! ## The stream and the gate -/

/-- Where the gate stands that was `g₀` when the request began, `left` being still to come of the request
and the frames: what the decoder keeps is what has come of the message in progress, and what has been
handed over are the messages before it. -/
inductive InStep (g₀ : Gateserver) (fd : Fd) (request : Bytes) (fs : List DataFrame) (g : Gateserver) :
    Bytes → Prop
  | request {p left : Bytes} : p ++ left = request → left ≠ [] → g.queue.pending fd = held p →
      g.connection.get fd = some true → g.handed = g₀.handed →
      InStep g₀ fd request fs g (left ++ stream fs)
  | frames {done todo : List DataFrame} {left : Bytes} : fs = done ++ todo →
      At (g.queue.pending fd) todo left → g.connection.get fd = some false →
      g.handed = g₀.handed ++ .checkwebsocket fd request :: done.map (fun f => .message fd f.payload) →
      InStep g₀ fd request fs g left

/-- The request goes to the check as one message and every payload to `handler.message`, in order, and
no byte is lost: after each segment the gate stands where the stream does. -/
structure HandsOver (accept : Bytes → Bytes) (g : Gateserver) (fd : Fd) (request : Bytes)
    (fs : List DataFrame) (segments : List Bytes) : Prop where
  delivered : (sockets accept fd g segments).handed =
    g.handed ++ .checkwebsocket fd request :: fs.map (fun f => .message fd f.payload)
  sound : (sockets accept fd g segments).fault = none
  kept : ∀ before after, segments = before ++ after →
    InStep g fd request fs (sockets accept fd g before) after.flatten

/-- What stands behind the `n`-th byte in the segment of that byte. -/
def behind (n : Nat) : List Bytes → Bytes
  | [] => []
  | s :: segments => if s.length < n then behind (n - s.length) segments else s.drop n

/-- The segment in which the request ends holds less than the header of the first frame behind it, and
no end of a request; and the payloads are shorter than `max_packsize`. -/
structure EndsWithin (request : Bytes) (fs : List DataFrame) (segments : List Bytes) : Prop where
  shorter : ∀ f ∈ fs.head?, (behind request.length segments).length < f.header.length
  noRequest : getHttpHeader (behind request.length segments) = -1
  short : ∀ f ∈ fs, f.payload.length < max_packsize

/-- The segment in which a byte comes. -/
theorem exists_behind {segments : List Bytes} {a b : Bytes} (h : segments.flatten = a ++ b) (ha : a ≠ []) :
    ∃ before s after, segments = before ++ (s ++ behind a.length segments) :: after ∧ s ≠ [] ∧
      before.flatten ++ s = a := by
  induction segments generalizing a with
  | nil =>
    exact absurd (List.append_eq_nil_iff.mp h.symm).1 ha
  | cons s segments ih =>
    rw [List.flatten_cons] at h
    unfold behind
    split
    · rename_i hlt
      obtain ⟨a', rfl⟩ : ∃ a', a = s ++ a' := by
        obtain ⟨t, ha', -⟩ | ⟨t, hs, -⟩ := List.append_eq_append_iff.mp h
        · exact ⟨t, ha'⟩
        · rw [hs, List.length_append] at hlt
          omega
      rw [List.append_assoc, List.append_cancel_left_eq] at h
      have ha' : a' ≠ [] := by
        rintro rfl
        simp at hlt
      obtain ⟨before, u, after, hsegments, hu, hbefore⟩ := ih h ha'
      refine ⟨s :: before, u, after, ?_, hu, ?_⟩
      · rw [List.length_append, Nat.add_sub_cancel_left, List.cons_append, ← hsegments]
      · rw [List.flatten_cons, List.append_assoc, hbefore]
    · rename_i hge
      have hs : s = a ++ s.drop a.length := by
        have htake := congrArg (List.take a.length) h
        rw [List.take_append_of_le_length (not_lt.mp hge), List.take_left] at htake
        conv_lhs => rw [← List.take_append_drop a.length s, htake]
      exact ⟨[], a, segments, by rw [List.nil_append, ← hs], ha, rfl⟩

theorem behind_flatten {before after : List Bytes} {a b s rest : Bytes}
    (h : (before ++ (s ++ rest) :: after).flatten = a ++ b) (ha : before.flatten ++ s = a) :
    rest ++ after.flatten = b := by
  rw [← ha, List.flatten_append, List.flatten_cons, List.append_assoc, List.append_assoc,
    List.append_cancel_left_eq, List.append_cancel_left_eq] at h
  exact h

/-! ### Up to the end of the request -/

variable {request : Bytes} {fs : List DataFrame}

/-- Segments in which the request does not end. -/
theorem sockets_part (hreq : Request request) {segments : List Bytes} (hne : ∀ s ∈ segments, s ≠ [])
    {p t : Bytes} (hcut : p ++ segments.flatten ++ t = request) (ht : t ≠ []) (hg : g.Idle)
    (hpending : g.queue.pending fd = held p) (hopen : g.connection.get fd = some true) :
    (sockets accept fd g segments).Idle ∧
      (sockets accept fd g segments).queue.pending fd = held (p ++ segments.flatten) ∧
      (sockets accept fd g segments).connection.get fd = some true ∧
      (sockets accept fd g segments).handed = g.handed := by
  induction segments generalizing g p with
  | nil =>
    rw [List.flatten_nil, List.append_nil]
    exact ⟨hg, hpending, hopen, rfl⟩
  | cons s segments ih =>
    have hs := hne s List.mem_cons_self
    rw [List.flatten_cons, ← List.append_assoc] at hcut ⊢
    have hmode : g.mode fd = true := by
      unfold mode
      rw [hopen]
      rfl
    have hfeed : feed fd (g.queue.pending fd) s (g.mode fd) = .ok ⟨some (.header (p ++ s)), [], .queue⟩ := by
      rw [hpending, hmode]
      rw [← hcut, List.append_assoc] at hreq
      exact feed_request_part fd hreq hs (List.append_ne_nil_of_right_ne_nil _ ht)
    obtain ⟨q, hsingle, hempty, hq, hsocket⟩ := hg.socket_feed accept hfeed nofun
    rw [sockets, if_neg (by simp [hg.fault]), hsocket]
    have hheld : held (p ++ s) = some (.header (p ++ s)) :=
      if_neg (List.append_ne_nil_of_right_ne_nil _ hs)
    exact ih (g := { g with queue := q }) (fun s' hs' => hne s' (List.mem_cons_of_mem _ hs')) hcut
      ⟨hsingle, hempty, hg.fault⟩ (hq.trans hheld.symm) hopen

variable (accept fd) in
/-- `dispatch_msg` leaves the queue as it is. -/
theorem queue_dispatchAll (msgs : List Bytes) : (dispatchAll accept fd g msgs).queue = g.queue := by
  have h := congrArg Gateserver.queue (dispatchAll_queue accept fd (g := g) g.queue msgs)
  exact h

/-- The segment in which the request ends: what stands behind the request goes to `push_more` while the
flag is set, and what that finds is dispatched when the flag has changed. -/
theorem socket_end (hreq : Request request) {response : Bytes}
    (hvalid : checkwebsocketValid accept (parseHttpheader request) = .ok response) {p s : Bytes}
    (hcut : p ++ s = request) (hs : s ≠ []) (rest : Bytes) (hg : g.Idle)
    (hpending : g.queue.pending fd = held p) (hopen : g.connection.get fd = some true) :
    (∃ fault, rest ≠ [] ∧ more rest true = .error fault ∧ (g.socket accept fd (s ++ rest)).fault ≠ none) ∨
      ∃ saved msgs g', (rest = [] ∧ saved = none ∧ msgs = [] ∨
          rest ≠ [] ∧ more rest true = .ok (saved, msgs)) ∧
        g'.Idle ∧ g'.queue.pending fd = saved ∧ g'.connection.get fd = some false ∧
        g'.handed = g.handed ++ [Handed.checkwebsocket fd request] ∧
        g.socket accept fd (s ++ rest) = dispatchAll accept fd g' msgs := by
  have hmode : g.mode fd = true := by
    unfold mode
    rw [hopen]
    rfl
  have hfeed : feed fd (g.queue.pending fd) (s ++ rest) (g.mode fd) = complete fd request rest true := by
    rw [hpending, hmode, ← hcut]
    exact feed_request_end fd (hcut ▸ hreq) hs rest
  have hdispatched : ∀ {m : Fed} {msgs : List Bytes}, complete fd request rest true = .ok m →
      m.returned ≠ .close fd → m.messages = request :: msgs →
      ∃ g', g'.Idle ∧ g'.queue.pending fd = m.saved ∧ g'.connection.get fd = some false ∧
        g'.handed = g.handed ++ [Handed.checkwebsocket fd request] ∧
        g.socket accept fd (s ++ rest) = dispatchAll accept fd g' msgs := by
    intro m msgs hm hclose hmsgs
    obtain ⟨q, hsingle, hempty, hq, hsocket⟩ := hg.socket_feed accept (hfeed.trans hm) hclose
    obtain ⟨hhanded, hflag, hfault⟩ := dispatchMsg_request (g := { g with queue := q }) hopen hreq.short hvalid
    have hqueue := queue_dispatchAll accept fd (g := { g with queue := q }) [request]
    have hqueue : ({ g with queue := q }.dispatchMsg accept fd request).queue = q := hqueue
    refine ⟨{ g with queue := q }.dispatchMsg accept fd request, ⟨?_, ?_, hfault.trans hg.fault⟩, ?_,
      hflag, hhanded, ?_⟩
    · rw [hqueue]
      exact hsingle
    · rw [hqueue]
      exact hempty
    · rw [hqueue]
      exact hq
    · rw [hsocket, hmsgs]
      rfl
  by_cases hrest : rest = []
  · subst hrest
    have hm : complete fd request [] true = .ok ⟨none, [], .data fd request⟩ := if_pos rfl
    obtain ⟨g', h⟩ := @hdispatched _ [] hm nofun rfl
    exact .inr ⟨none, [], g', .inl ⟨rfl, rfl, rfl⟩, h⟩
  · have hcomplete : complete fd request rest true =
        (fun m => ⟨m.1, request :: m.2, .more⟩) <$> more rest true := if_neg hrest
    cases hmore : more rest true with
    | error fault =>
      refine .inl ⟨fault, hrest, rfl, ?_⟩
      rw [hcomplete, hmore] at hfeed
      have hcall : filterData g.queue fd (s ++ rest) (g.mode fd) = .error fault := by
        rw [filterData_eq hg.single, hfeed]
        rfl
      unfold socket
      rw [hcall]
      exact nofun
    | ok m =>
      obtain ⟨saved, msgs⟩ := m
      rw [hmore] at hcomplete
      obtain ⟨g', h⟩ := @hdispatched _ msgs hcomplete nofun rfl
      exact .inr ⟨saved, msgs, g', .inr ⟨hrest, rfl⟩, h⟩

/-- Segments of the frames, once the flag has changed. -/
theorem sockets_frames {g₀ : Gateserver} (hshort : ∀ f ∈ fs, f.payload.length < max_packsize)
    {segments : List Bytes} (hne : ∀ s ∈ segments, s ≠ []) {done todo : List DataFrame} {left : Bytes}
    (hfs : fs = done ++ todo) (hg : g.Idle) (hat : At (g.queue.pending fd) todo (segments.flatten ++ left))
    (hopen : g.connection.get fd = some false)
    (hhanded : g.handed =
      g₀.handed ++ Handed.checkwebsocket fd request :: done.map (fun f => Handed.message fd f.payload)) :
    (sockets accept fd g segments).Idle ∧
      InStep g₀ fd request fs (sockets accept fd g segments) left := by
  induction segments generalizing g done todo with
  | nil => exact ⟨hg, .frames hfs hat hopen hhanded⟩
  | cons s segments ih =>
    rw [List.flatten_cons, List.append_assoc] at hat
    obtain ⟨done', todo', m, rfl, hfeed, hat', hmessages, hclose⟩ :=
      feed_at fd _ _ _ _ hat (hne s List.mem_cons_self)
    have hmode : g.mode fd = false := by
      unfold mode
      rw [hopen]
      rfl
    rw [← hmode] at hfeed
    obtain ⟨q, hsingle, hempty, hq, hsocket⟩ := hg.socket_feed accept hfeed hclose
    have hpayloads : ∀ msg ∈ done'.map DataFrame.payload, msg.length < max_packsize := by
      intro msg hmsg
      obtain ⟨f, hf, rfl⟩ := List.mem_map.mp hmsg
      exact hshort f (by rw [hfs]; simp [hf])
    have hdispatched := dispatchAll_messages accept (g := { g with queue := q }) hopen hpayloads
    rw [sockets, if_neg (by simp [hg.fault]), hsocket, hmessages, hdispatched]
    have hfs' : fs = (done ++ done') ++ todo' := by rw [hfs, List.append_assoc]
    refine ih (fun s' hs' => hne s' (List.mem_cons_of_mem _ hs')) hfs' ⟨hsingle, hempty, hg.fault⟩ (hq.symm ▸ hat') hopen ?_
    show g.handed ++ _ = _
    rw [hhanded, List.append_assoc, List.map_append, List.map_map]
    rfl

theorem dispatchAll_adds (accept : Bytes → Bytes) (g : Gateserver) (fd : Fd) (msgs : List Bytes) :
    Adds g (dispatchAll accept fd g msgs) := by
  induction msgs generalizing g with
  | nil => exact .refl rfl
  | cons msg msgs ih => exact (dispatchMsg_adds fd msg).trans (ih _)

/-- Every frame is longer than its payload. -/
theorem length_payloads (fs : List DataFrame) :
    (fs.map DataFrame.payload).flatten.length + 2 * fs.length ≤ (stream fs).length := by
  induction fs with
  | nil => exact Nat.le_refl 0
  | cons f fs ih =>
    have hheader := f.length_header
    have hpayload := f.length_payload
    rw [stream_cons, List.map_cons, List.flatten_cons, List.length_append, List.length_append,
      List.length_cons, DataFrame.bytes, List.length_append]
    omega

/-! ### Segments that end within the request -/

/-- A client that begins: its connection is open and nothing is kept of it. -/
structure Fresh (g : Gateserver) (fd : Fd) : Prop extends g.Idle where
  pending : g.queue.pending fd = none
  opened : g.connection.get fd = some true

variable {segments : List Bytes} {response : Bytes}

/-- A segment that ends within the first frame's header. -/
theorem at_of_endsWithin {rest left : Bytes} (hcut : rest ++ left = stream fs) (hne : rest ≠ [])
    (hshorter : ∀ f ∈ fs.head?, rest.length < f.header.length) :
    rest.length ≤ HEADERSIZE ∧ At (some (.header rest)) fs left := by
  cases fs with
  | nil => exact absurd (List.append_eq_nil_iff.mp hcut).1 hne
  | cons f fs =>
    have hlt := hshorter f rfl
    have hle := f.length_header_le
    rw [stream_cons, DataFrame.bytes, List.append_assoc] at hcut
    refine ⟨by unfold HEADERSIZE; omega, ?_⟩
    obtain ⟨t, ht, hheader, rfl⟩ | ⟨d, hrest, -⟩ := append_cases hcut
    · exact ⟨t ++ f.data, .header hheader ht, (List.append_assoc _ _ _).symm⟩
    · rw [hrest, List.length_append] at hlt
      omega

/-- The segment in which the request ends, when it ends within the first frame's header. -/
theorem socket_endsWithin (hreq : Request request)
    (hvalid : checkwebsocketValid accept (parseHttpheader request) = .ok response) {p s rest left : Bytes}
    (hcut : p ++ s = request) (hs : s ≠ []) (hleft : rest ++ left = stream fs)
    (hshorter : ∀ f ∈ fs.head?, rest.length < f.header.length) (hnone : getHttpHeader rest = -1)
    (hg : g.Idle) (hpending : g.queue.pending fd = held p) (hopen : g.connection.get fd = some true) :
    (g.socket accept fd (s ++ rest)).Idle ∧
      At ((g.socket accept fd (s ++ rest)).queue.pending fd) fs left ∧
      (g.socket accept fd (s ++ rest)).connection.get fd = some false ∧
      (g.socket accept fd (s ++ rest)).handed = g.handed ++ [Handed.checkwebsocket fd request] := by
  have hmore : rest ≠ [] → more rest true = .ok (some (.header rest), []) := fun hrest =>
    more_request hnone (at_of_endsWithin hleft hrest hshorter).1
  rcases socket_end hreq hvalid hcut hs rest hg hpending hopen with
    ⟨fault, hrest, hfault, -⟩ | ⟨saved, msgs, g', hsaved, hidle, hq, hflag, hhanded, hrun⟩
  · rw [hmore hrest] at hfault
    cases hfault
  · rw [hrun]
    rcases hsaved with ⟨rfl, rfl, rfl⟩ | ⟨hrest, hsaved⟩
    · refine ⟨hidle, ?_, hflag, hhanded⟩
      show At (g'.queue.pending fd) fs left
      rw [hq, show left = stream fs from hleft]
      exact at_start fs
    · rw [hmore hrest] at hsaved
      cases hsaved
      exact ⟨hidle, hq ▸ (at_of_endsWithin hleft hrest hshorter).2, hflag, hhanded⟩

theorem handsOver_of_endsWithin (hg : g.Fresh fd) (hreq : Request request)
    (hvalid : checkwebsocketValid accept (parseHttpheader request) = .ok response)
    (hne : ∀ s ∈ segments, s ≠ []) (hcut : segments.flatten = request ++ stream fs)
    (h : EndsWithin request fs segments) : HandsOver accept g fd request fs segments := by
  obtain ⟨b, s, a, hsegments, hs, hb⟩ :=
    exists_behind hcut (List.ne_nil_of_length_pos hreq.length_pos)
  generalize hrest : behind request.length segments = rest at hsegments
  have hshorter := hrest ▸ h.shorter
  have hnone := hrest ▸ h.noRequest
  have hleft : rest ++ a.flatten = stream fs := behind_flatten (hsegments ▸ hcut) hb
  have hpending : g.queue.pending fd = held [] := hg.pending
  -- the segments before the one in which the request ends
  have hpart : ∀ before c, b = before ++ c → (sockets accept fd g before).Idle ∧
      (sockets accept fd g before).queue.pending fd = held before.flatten ∧
      (sockets accept fd g before).connection.get fd = some true ∧
      (sockets accept fd g before).handed = g.handed := by
    intro before c hbc
    have hcut' : [] ++ before.flatten ++ (c.flatten ++ s) = request := by
      rw [List.nil_append, ← List.append_assoc, ← List.flatten_append, ← hbc, hb]
    refine sockets_part hreq (fun s' hs' => hne s' ?_) hcut' ?_ hg.toIdle hpending hg.opened
    · rw [hsegments, hbc]
      simp [hs']
    · exact List.append_ne_nil_of_right_ne_nil _ hs
  obtain ⟨hidle, hheld, hopen, hhanded⟩ := hpart b [] (List.append_nil b).symm
  have hrun : sockets accept fd g (b ++ [s ++ rest]) = (sockets accept fd g b).socket accept fd (s ++ rest) := by
    rw [sockets_append, sockets, if_neg (by simp [hidle.fault])]
    rfl
  obtain ⟨hidle', hat, hflag, hhanded'⟩ :=
    socket_endsWithin hreq hvalid hb hs hleft hshorter hnone hidle hheld hopen
  rw [hhanded] at hhanded'
  have hframes : ∀ c after, a = c ++ after →
      (sockets accept fd g (b ++ [s ++ rest] ++ c)).Idle ∧
        InStep g fd request fs (sockets accept fd g (b ++ [s ++ rest] ++ c)) after.flatten := by
    intro c after hac
    rw [sockets_append, hrun]
    rw [hac, List.flatten_append] at hat
    refine sockets_frames h.short (fun s' hs' => hne s' ?_) (List.nil_append fs).symm hidle' hat hflag hhanded'
    rw [hsegments, hac]
    simp [hs']
  have hkept : ∀ before after, segments = before ++ after →
      InStep g fd request fs (sockets accept fd g before) after.flatten := by
    intro before after hsplit
    rw [hsegments] at hsplit
    obtain ⟨c, rfl, hafter⟩ | ⟨c, hbc, rfl⟩ := List.append_eq_append_iff.mp hsplit
    · cases c with
      | nil =>
        have hafter : after.flatten = s ++ stream fs := by
          have hafter : after = (s ++ rest) :: a := hafter.symm
          rw [hafter, ← hleft, List.flatten_cons, List.append_assoc]
        rw [hafter, List.append_nil]
        exact .request hb hs hheld hopen hhanded
      | cons x c =>
        obtain ⟨rfl, hac⟩ := List.cons.inj hafter
        have hframes := (hframes c after hac).2
        rwa [List.append_assoc] at hframes
    · obtain ⟨-, hheld', hopen', hhanded''⟩ := hpart before c hbc
      have hafter : (c ++ (s ++ rest) :: a).flatten = (c.flatten ++ s) ++ stream fs := by
        rw [← hleft]
        simp
      rw [hafter]
      refine .request ?_ (List.append_ne_nil_of_right_ne_nil _ hs) hheld' hopen' hhanded''
      rw [← List.append_assoc, ← List.flatten_append, ← hbc, hb]
  have hall : segments = b ++ [s ++ rest] ++ a := by
    rw [hsegments]
    simp
  obtain ⟨hend, hin⟩ := hframes a [] (List.append_nil a).symm
  rw [← hall] at hend hin
  refine ⟨?_, hend.fault, hkept⟩
  generalize hnil : ([] : List Bytes).flatten = left at hin
  cases hin with
  | request _ hleft' => exact absurd (List.append_eq_nil_iff.mp hnil.symm).1 hleft'
  | @frames done todo _ hfs hat' hflag' hhanded'' =>
    rw [← hnil] at hat'
    have htodo := hat'.eq_nil
    rw [htodo, List.append_nil] at hfs
    rw [hhanded'', hfs]

/-! ### Segments that do not -/

/-- What the decoder keeps when nothing was lost of what stood behind the request: no message was found
there, and it is the beginning of a header. -/
theorem rest_of_at {rest left : Bytes} {saved : Option Uncomplete} {done todo : List DataFrame}
    (hcut : rest ++ left = stream (done ++ todo)) (hne : rest ≠ [])
    (hmore : more rest true = .ok (saved, done.map DataFrame.payload)) (hat : At saved todo left) :
    getHttpHeader rest = -1 ∧ ∀ f ∈ (done ++ todo).head?, rest.length < f.header.length := by
  have hlen := length_payloads done
  have hcut' := congrArg List.length hcut
  rw [stream, List.flatMap_append, List.length_append, List.length_append] at hcut'
  change rest.length + left.length = (stream done).length + (stream todo).length at hcut'
  have hnone : 2 * done.length = 0 → done = [] := by
    intro hzero
    exact List.eq_nil_of_length_eq_zero (by omega)
  rcases more_request_flatten rfl _ _ hmore with ⟨rfl, hflat⟩ | ⟨header, tail, rfl, hflat, htail, hmsgs⟩
  · -- everything is messages, and the headers of the frames are missing
    have hleft : left = stream todo := by
      cases todo with
      | nil => exact hat.2
      | cons f fs =>
        obtain ⟨_, hamid, rfl⟩ := hat
        cases hamid
        exact (stream_cons f fs).symm
    rw [hleft, ← hflat] at hcut'
    have hdone := hnone (by omega)
    rw [hdone] at hflat
    exact absurd hflat.symm hne
  · cases todo with
    | nil => exact absurd hat.1 nofun
    | cons f fs =>
      obtain ⟨_, hamid, rfl⟩ := hat
      cases hamid with
      | @header _ t hheader ht =>
        have hle := f.length_header_le
        have hlt := congrArg List.length hheader
        have hpos := List.length_pos_of_ne_nil ht
        rw [List.length_append] at hlt
        have htail := htail (by unfold HEADERSIZE; omega)
        subst htail
        rw [List.append_nil] at hflat
        rw [← hflat, stream_cons, DataFrame.bytes, ← hheader] at hcut'
        simp only [List.length_append] at hcut'
        have hdone := hnone (by omega)
        subst hdone
        have hrest : header = rest := hflat
        refine ⟨hmsgs rfl, fun f' hf' => ?_⟩
        obtain rfl := Option.some.inj hf'
        rw [← hrest]
        omega

theorem endsWithin_of_handsOver (hg : g.Fresh fd) (hreq : Request request)
    (hvalid : checkwebsocketValid accept (parseHttpheader request) = .ok response)
    (hne : ∀ s ∈ segments, s ≠ []) (hcut : segments.flatten = request ++ stream fs)
    (h : HandsOver accept g fd request fs segments) : EndsWithin request fs segments := by
  have hshort : ∀ f ∈ fs, f.payload.length < max_packsize := by
    obtain ⟨added, hadded, hshort⟩ := sockets_adds accept g fd segments
    rw [h.delivered, List.append_cancel_left_eq] at hadded
    intro f hf
    refine hshort fd f.payload ?_
    rw [← hadded]
    exact List.mem_cons_of_mem _ (List.mem_map_of_mem hf)
  obtain ⟨b, s, a, hsegments, hs, hb⟩ :=
    exists_behind hcut (List.ne_nil_of_length_pos hreq.length_pos)
  suffices hrest : getHttpHeader (behind request.length segments) = -1 ∧
      ∀ f ∈ fs.head?, (behind request.length segments).length < f.header.length from
    ⟨hrest.2, hrest.1, hshort⟩
  generalize behind request.length segments = rest at hsegments
  by_cases hnil : rest = []
  · subst hnil
    exact ⟨by decide, fun f _ => Nat.succ_pos _⟩
  have hleft : rest ++ a.flatten = stream fs := behind_flatten (hsegments ▸ hcut) hb
  have hpending : g.queue.pending fd = held [] := hg.pending
  have hb' : [] ++ b.flatten ++ s = request := hb
  have hpart : (sockets accept fd g b).Idle ∧ _ := sockets_part hreq
    (fun s' hs' => hne s' (by rw [hsegments]; simp [hs'])) hb' hs hg.toIdle hpending hg.opened
  obtain ⟨hidle, hheld, hopen, hhanded⟩ := hpart
  have hrun : sockets accept fd g (b ++ [s ++ rest]) = (sockets accept fd g b).socket accept fd (s ++ rest) := by
    rw [sockets_append, sockets, if_neg (by simp [hidle.fault])]
    rfl
  have hall : segments = b ++ [s ++ rest] ++ a := by
    rw [hsegments]
    simp
  have hin := h.kept _ _ hall
  rw [hrun] at hin
  rcases socket_end hreq hvalid hb hs rest hidle hheld hopen with
    ⟨fault, -, -, hfault⟩ | ⟨saved, msgs, g', hsaved, -, hq, hflag, hhanded', hrun'⟩
  · -- a call that runs into an error is the last one
    have hsound := h.sound
    rw [hall, sockets_append, hrun, sockets_fault hfault] at hsound
    exact absurd hsound hfault
  · have hmore : more rest true = .ok (saved, msgs) := by
      rcases hsaved with ⟨hrest, -⟩ | ⟨-, hmore⟩
      · exact absurd hrest hnil
      · exact hmore
    rw [hhanded] at hhanded'
    rw [hrun'] at hin
    generalize hleft' : a.flatten = left at hin hleft
    cases hin with
    | request _ _ _ _ hsame =>
      obtain ⟨added, hadded, -⟩ := dispatchAll_adds accept g' fd msgs
      have hlen := congrArg List.length (hsame.symm.trans hadded)
      rw [hhanded'] at hlen
      simp at hlen
    | @frames done todo _ hfs hat hopen' hhanded'' =>
      have hmsgs := dispatchAll_messages accept hflag (short_of_dispatchAll hflag hopen')
      rw [hmsgs] at hat hhanded''
      have hmsgs : msgs.map (Handed.message fd) = done.map fun f => .message fd f.payload := by
        have hh : g'.handed ++ msgs.map (Handed.message fd) = _ := hhanded''
        rw [hhanded', List.append_assoc, List.append_cancel_left_eq] at hh
        exact (List.cons.inj hh).2
      have hmsgs : msgs = done.map DataFrame.payload := by
        have hinj : Function.Injective (Handed.message fd) := fun x y hxy => by cases hxy; rfl
        refine List.map_injective_iff.mpr hinj (hmsgs.trans ?_)
        rw [List.map_map]
        rfl
      have hat : At (g'.queue.pending fd) todo left := hat
      rw [hq] at hat
      rw [hfs]
      exact rest_of_at (hfs ▸ hleft) hnil (hmsgs ▸ hmore) hat

/-! ### When it hands everything over -/

/-- **From the request to the frames.** Whatever the segments, the gate hands over the request and then
every payload and loses nothing, if and only if the segment in which the request ends does not hold the
first frame's header, nor what looks like the end of a request, and no payload is refused. -/
theorem handsOver_iff (accept : Bytes → Bytes) (g : Gateserver) (fd : Fd) (request : Bytes)
    (fs : List DataFrame) (segments : List Bytes) (response : Bytes) (hg : g.Fresh fd)
    (hreq : Request request)
    (hvalid : checkwebsocketValid accept (parseHttpheader request) = .ok response)
    (hne : ∀ s ∈ segments, s ≠ []) (hcut : segments.flatten = request ++ stream fs) :
    HandsOver accept g fd request fs segments ↔ EndsWithin request fs segments :=
  ⟨endsWithin_of_handsOver hg hreq hvalid hne hcut, handsOver_of_endsWithin hg hreq hvalid hne hcut⟩

/-- The request of a browser. -/
def upgrade : Bytes :=
  ["GET /chat HTTP/1.1", "Upgrade: websocket", "Connection: Upgrade",
    "Sec-WebSocket-Key: dGhlIHNhbXBsZSBub25jZQ==", "Sec-WebSocket-Version: 13", ""].flatMap fun line =>
      bytes line ++ crlf

/-- What the hash and the encoding give for its key. -/
def acceptKey : Bytes → Bytes := fun _ => bytes "s3pPLMBiTxaQ9kYGzzhZRbK+xOo="

/-- A gate with one connection, just opened. -/
def opened : Gateserver where
  queue := .init
  connection := Table.empty.set 5 true
  handed := []
  sent := []
  fault := none

theorem opened_fresh : opened.Fresh 5 where
  single := Queue.single_init
  empty := rfl
  fault := rfl
  pending := rfl
  opened := by decide

theorem upgrade_request : Request upgrade := by decide +kernel

theorem upgrade_valid : checkwebsocketValid acceptKey (parseHttpheader upgrade) =
    .ok (getwebsocketResponse acceptKey (bytes "dGhlIHNhbXBsZSBub25jZQ==") []) := by decide +kernel

/-- A browser that sends its request in two segments and a frame of which one byte comes with the
request. -/
def browsing : List Bytes :=
  [upgrade.take 30, upgrade.drop 30 ++ Decoder.sample.bytes.take 1, Decoder.sample.bytes.drop 1]

theorem handsOver_iff_browsing :
    HandsOver acceptKey opened 5 upgrade [Decoder.sample] browsing := by
  have hrun : (∀ s ∈ browsing, s ≠ []) ∧ browsing.flatten = upgrade ++ stream [Decoder.sample] ∧
      behind upgrade.length browsing = Decoder.sample.bytes.take 1 := by decide +kernel
  obtain ⟨hne, hcut, hbehind⟩ := hrun
  refine (handsOver_iff acceptKey opened 5 upgrade [Decoder.sample] browsing _ opened_fresh upgrade_request
    upgrade_valid hne hcut).mpr ?_
  exact ⟨by rw [hbehind]; decide, by rw [hbehind]; decide, by decide⟩

/-- A client that sends its request and a frame in one segment: the frame is kept as the bytes of a
header, and never handed over. -/
theorem not_handsOver : ¬ ∀ (accept : Bytes → Bytes) (g : Gateserver) (fd : Fd) (request : Bytes)
    (fs : List DataFrame) (segments : List Bytes) (response : Bytes), g.Fresh fd → Request request →
    checkwebsocketValid accept (parseHttpheader request) = .ok response →
    (∀ s ∈ segments, s ≠ []) → segments.flatten = request ++ stream fs →
    (sockets accept fd g segments).handed =
      g.handed ++ .checkwebsocket fd request :: fs.map (fun f => .message fd f.payload) := by
  intro h
  have hrun : (sockets acceptKey 5 opened [upgrade ++ Decoder.sample.bytes]).handed =
      [.checkwebsocket 5 upgrade] := by decide +kernel
  have hlost := h acceptKey opened 5 upgrade [Decoder.sample] [upgrade ++ Decoder.sample.bytes] _
    opened_fresh upgrade_request upgrade_valid ?_ ?_
  · rw [hrun] at hlost
    exact absurd (congrArg List.length hlost) (by decide)
  · simp [Decoder.sample, DataFrame.bytes, DataFrame.header]
  · simp [stream]

end Gateserver

end AntServer.WebSocket
