/-
# AntServer.Game.Bookkeeping — a gate's count of its clients, its closes and its records

Every order of the events of a gate: sockets accepted, closed or in error, data, kicks, registrations and
the answers of the hub. An entry of `gateserver` that stands for an open socket has not been closed, and
once `openclient` started the socket there is a record of `gated` for it (`Booked`): the one place that
removes the record closes the socket in the same breath.

The gate closes each client's socket at most once. Not so the listening socket: `MSG.error` closes it for
every failure of `accept`, so all is well as long as none follows on its close (`ClosesOnce`).
-/
import AntServer.Game.Gateserver
import AntServer.Lib.Machine

namespace AntServer.Game

open Lib (Table Machine)

/-! ## The steps of a gate -/

/-- The events of a gate. An answer names the call of the hub by its place. -/
inductive GateEvent where
  | open (fd : Fd) (ip : String)
  | close (fd : Fd)
  | error (fd : Fd)
  | data (fd : Fd) (msg : WebSocket.Bytes) (sent : Bool)
  | kick (fd : Fd) (raw : Bool)
  | register (fd : Fd) (uid : String) (agent : AgentAddr)
  | answer (i : Nat) (ok : Bool)
  /-- the command `close`, which closes the listening socket -/
  | shut

/-- An event that does not close the listening socket. -/
def GateEvent.ofClient : GateEvent → Bool
  | .error _ | .shut => false
  | _ => true

namespace Gate

/-! ## The count of the clients -/

/-- The number of clients is that of the entries, and within its bound. -/
structure Counted (g : Gate) : Prop where
  number : g.clientNumber = g.client.size
  bound : g.clientNumber ≤ g.maxclient

/-- From `g` to `g'` clients only go: what is counted stays right, an entry that is open was, and keeps
its record. -/
structure Shrinks (g g' : Gate) : Prop where
  counted : g.Counted → g'.Counted
  absent : ∀ fd, g.client.get fd = none → g'.client.get fd = none
  client : ∀ fd, g'.client.get fd = some true → g.client.get fd = some true
  record : ∀ fd, g'.client.get fd = some true → g.connection.get fd ≠ none → g'.connection.get fd ≠ none

variable {g g' : Gate}

/-- Nothing changes. -/
theorem Shrinks.refl (g : Gate) : g.Shrinks g := ⟨id, fun _ => id, fun _ => id, fun _ _ => id⟩

/-- Removing an entry and counting it off. -/
theorem Shrinks.remove {fd : Fd} {b : Bool} (h : g.client.get fd = some b) :
    g.Shrinks { g with client := g.client.del fd, clientNumber := g.clientNumber - 1 } where
  counted hg := by
    have hsize := Table.size_del h
    have hnumber := hg.number
    have hbound := hg.bound
    constructor
    · change g.clientNumber - 1 = (g.client.del fd).size
      omega
    · change g.clientNumber - 1 ≤ g.maxclient
      omega
  absent fd' hnone := by
    change (g.client.del fd).get fd' = none
    rw [Table.get_del, hnone, ite_self]
  client fd' hopen := by
    have hopen : (g.client.del fd).get fd' = some true := hopen
    rw [Table.get_del] at hopen
    split at hopen
    · cases hopen
    · exact hopen
  record _ _ := id

/-- `closeclient` removes an entry and counts it off, or marks it. -/
theorem closeclient_shrinks (g : Gate) (fd : Fd) : g.Shrinks (g.closeclient fd) := by
  unfold closeclient
  split
  · rename_i hopen _
    constructor
    · intro hg
      exact ⟨hg.number.trans (Table.size_set_old false hopen).symm, hg.bound⟩
    · intro fd' hnone
      have hne : fd' ≠ fd := fun he => by rw [he, hopen] at hnone; cases hnone
      exact (Table.get_set_ne _ _ hne).trans hnone
    · intro fd' hopen'
      have hopen' : (g.client.set fd false).get fd' = some true := hopen'
      rw [Table.get_set] at hopen'
      split at hopen'
      · cases hopen'
      · exact hopen'
    · exact fun _ _ => id
  · rename_i hopen _
    exact .remove hopen
  · exact .refl g

/-- The entry is not open afterwards. -/
theorem closeclient_client (g : Gate) (fd : Fd) : (g.closeclient fd).client.get fd ≠ some true := by
  unfold closeclient
  split
  · simp
  · simp
  · rename_i htcp hws
    intro hopen
    cases hgate : fd.gate with
    | tcp => exact htcp hopen hgate
    | ws => exact hws hopen hgate

/-- An entry that is not open stays as it is. -/
theorem closeclient_of_not_open {fd : Fd} (h : g.client.get fd ≠ some true) : g.closeclient fd = g := by
  unfold closeclient
  split
  · contradiction
  · contradiction
  · rfl

/-- `close_fd` removes an entry and counts it off. -/
theorem closeFd_shrinks (g : Gate) (fd : Fd) : g.Shrinks (g.closeFd fd) := by
  unfold closeFd
  split
  · rename_i hentry
    exact .remove hentry
  · exact .refl g

/-- What follows `close_agent` in its caller. -/
theorem afterClose_shrinks (g : Gate) (fd : Fd) (cause : Cause) : g.Shrinks (g.afterClose fd cause) := by
  cases cause with
  | kick origin => exact .refl g
  | event => exact closeFd_shrinks g fd

/-- The record goes together with the open entry. -/
theorem finishClose_shrinks (g : Gate) (fd : Fd) : g.Shrinks (g.finishClose fd) := by
  have hclose := closeclient_shrinks { g with connection := g.connection.del fd } fd
  refine ⟨fun hg => hclose.counted ⟨hg.number, hg.bound⟩, hclose.absent, hclose.client, ?_⟩
  intro fd' hopen hrecord
  rw [finishClose_connection]
  have hne : fd' ≠ fd := fun he => closeclient_client _ fd (he ▸ hopen)
  rwa [Table.get_del_ne _ hne]

/-- `register` keeps the record of the socket. -/
theorem register_shrinks (g : Gate) (fd : Fd) (uid : String) (agent : AgentAddr) :
    g.Shrinks (g.register fd uid agent).1 := by
  rcases g.register_cases fd uid agent with ⟨-, hr⟩ | ⟨conn, hconn, hr⟩
  · rw [hr]
    exact .refl g
  · rw [hr]
    refine ⟨fun hg => ⟨hg.number, hg.bound⟩, fun _ => id, fun _ => id, ?_⟩
    intro fd' _ hrecord
    change (g.connection.set fd _).get fd' ≠ none
    rw [Table.get_set]
    split
    · exact Option.some_ne_none _
    · exact hrecord

end Gate

namespace Gateserver

/-! ## The runs -/

/-- A gate server that listens, for at most `maxclient` clients. -/
def listening (socket : Fd) (maxclient : Nat) : Gateserver where
  gate :=
    { connection := .empty, client := .empty, clientNumber := 0, maxclient := maxclient, sock := .empty }
  socket := some socket
  handshake := .empty
  calls := []
  started := .empty
  closes _ := 0
  handled := []

/-- A gate server under its events. A socket that is accepted is not the listening one and has no entry,
and there is data only of sockets that were started. -/
def machine (p : Protocol) (accept : WebSocket.Bytes → WebSocket.Bytes) :
    Machine Gateserver GateEvent where
  start s := ∃ socket maxclient, s = listening socket maxclient
  step s
    | .open fd ip =>
      if fd.gate = p ∧ s.socket ≠ some fd ∧ s.gate.client.get fd = none then some (s.openSocket fd ip)
      else none
    | .close fd => some (if s.socket = some fd then { s with socket := none } else s.disconnect fd)
    | .error fd => some (if s.socket = some fd then s.close fd else s.disconnect fd)
    | .data fd msg sent =>
      if (s.started.get fd).isSome then some (s.dispatchMsg accept fd msg sent) else none
    | .kick fd raw => some (s.closeAgent fd raw (.kick none))
    | .register fd uid agent => some { s with gate := (s.gate.register fd uid agent).1 }
    | .answer i ok => s.calls[i]?.map fun call => { s with calls := s.calls.eraseIdx i }.answer call ok
    | .shut => s.socket.map s.close

/-- What is promised: the number of clients is that of the entries and within its bound, no socket is
closed twice, and whenever `handler.message` runs there is a record for it. -/
structure Kept (s : Gateserver) : Prop where
  number : s.gate.clientNumber = s.gate.client.size
  bound : s.gate.clientNumber ≤ s.gate.maxclient
  once : ∀ fd, s.closes fd ≤ 1
  found : ∀ e ∈ s.handled, e.2 ≠ none

/-- The listening socket is not closed again once it was closed. -/
def ClosesOnce (s : Gateserver) : GateEvent → Prop
  | .error fd => s.socket = some fd → s.closes fd = 0
  | .shut => ∀ fd, s.socket = some fd → s.closes fd = 0
  | _ => True

/-! ## The invariant -/

/-- What is kept, and why: the listening socket has no entry, a socket whose entry is open is not closed,
and has a record if it was started. -/
structure Booked (s : Gateserver) : Prop extends Kept s where
  listen : ∀ fd, s.socket = some fd → s.gate.client.get fd = none
  alive : ∀ fd, s.gate.client.get fd = some true → s.closes fd = 0
  record : ∀ fd, s.gate.client.get fd = some true → s.started.get fd ≠ none →
    s.gate.connection.get fd ≠ none

/-! ## The operations keep it -/

variable {s : Gateserver}

/-- A gate server that listens has no clients. -/
theorem Booked.listening (socket : Fd) (maxclient : Nat) : (listening socket maxclient).Booked where
  number := rfl
  bound := Nat.zero_le _
  once _ := Nat.zero_le _
  found e he := by cases he
  listen _ _ := Table.get_empty _
  alive fd h := by simp [Gateserver.listening] at h
  record fd h := by simp [Gateserver.listening] at h

/-- The part of it that is about the count. -/
theorem Booked.counted (h : s.Booked) : s.gate.Counted := ⟨h.number, h.bound⟩

/-- Clients may go. -/
theorem Booked.shrink (h : s.Booked) {g : Gate} (hg : s.gate.Shrinks g) :
    { s with gate := g }.Booked where
  number := (hg.counted h.counted).number
  bound := (hg.counted h.counted).bound
  once := h.once
  found := h.found
  listen fd hsocket := hg.absent fd (h.listen fd hsocket)
  alive fd hopen := h.alive fd (hg.client fd hopen)
  record fd hopen hstarted := hg.record fd hopen (h.record fd (hg.client fd hopen) hstarted)

/-- A socket without an open entry may be closed once. -/
theorem Booked.close (h : s.Booked) {fd : Fd} (hentry : s.gate.client.get fd ≠ some true)
    (hcloses : s.closes fd = 0) : (s.close fd).Booked where
  number := h.number
  bound := h.bound
  once fd' := by
    change Function.update s.closes fd (s.closes fd + 1) fd' ≤ 1
    rw [Function.update_apply, hcloses]
    split
    · exact le_refl 1
    · exact h.once fd'
  found := h.found
  listen := h.listen
  alive fd' hopen := by
    have hne : fd' ≠ fd := fun he => hentry (he ▸ hopen)
    exact (Function.update_of_ne hne ..).trans (h.alive fd' hopen)
  record := h.record

/-- Clients go and the socket of one of them is closed, if its entry was open. -/
theorem Booked.closing (h : s.Booked) {g : Gate} {fd : Fd} (hg : s.gate.Shrinks g)
    (hentry : g.client.get fd ≠ some true) :
    (if s.gate.client.get fd = some true then { s with gate := g }.close fd
      else { s with gate := g }).Booked := by
  split
  · rename_i hopen
    exact (h.shrink hg).close hentry (h.alive fd hopen)
  · exact h.shrink hg

/-- `closeclient`. -/
theorem Booked.closeclient (h : s.Booked) (fd : Fd) : (s.closeclient fd).Booked := by
  have hclosing := h.closing (s.gate.closeclient_shrinks fd) (s.gate.closeclient_client fd)
  unfold Gateserver.closeclient
  split
  · rename_i hopen
    rwa [if_pos hopen] at hclosing
  · exact h

/-- The end of `close_agent`. -/
theorem Booked.finishClose (h : s.Booked) (fd : Fd) : (s.finishClose fd).Booked := by
  have hclosing := h.closing (s.gate.finishClose_shrinks fd)
    (Gate.closeclient_client { s.gate with connection := s.gate.connection.del fd } fd)
  unfold Gateserver.finishClose Gateserver.closeclient
  by_cases hopen : s.gate.client.get fd = some true
  · rw [if_pos hopen] at hclosing ⊢
    exact hclosing
  · have hsame : s.gate.finishClose fd = { s.gate with connection := s.gate.connection.del fd } :=
      Gate.closeclient_of_not_open hopen
    rw [if_neg hopen] at hclosing ⊢
    rwa [hsame] at hclosing

/-- What follows it in its caller. -/
theorem Booked.afterClose (h : s.Booked) (fd : Fd) (cause : Cause) : (s.afterClose fd cause).Booked :=
  h.shrink (s.gate.afterClose_shrinks fd cause)

/-- The calls that wait play no part. -/
theorem Booked.withCalls (h : s.Booked) (calls : List Msg) : { s with calls := calls }.Booked :=
  { h with }

/-- `close_agent` up to its `logout` call. -/
theorem Booked.closeAgent (h : s.Booked) (fd : Fd) (raw : Bool) (cause : Cause) :
    (s.closeAgent fd raw cause).Booked := by
  unfold Gateserver.closeAgent
  split
  · split
    · exact (h.finishClose fd).afterClose fd cause
    · exact h.withCalls _
  · exact h.afterClose fd cause

/-- The close or error event of a socket. -/
theorem Booked.disconnect (h : s.Booked) (fd : Fd) : (s.disconnect fd).Booked := by
  have hsock : { s with gate.sock := s.gate.sock.del fd }.Booked :=
    h.shrink ⟨fun hg => ⟨hg.number, hg.bound⟩, fun _ => id, fun _ => id, fun _ _ => id⟩
  exact hsock.closeAgent fd false .event

/-- A socket is accepted that has no entry. -/
theorem Booked.openSocket (h : s.Booked) {fd : Fd} (ip : String) (hsocket : s.socket ≠ some fd)
    (hnew : s.gate.client.get fd = none) : (s.openSocket fd ip).Booked := by
  have hfresh : { s with
      started := s.started.del fd, closes := Function.update s.closes fd 0 }.Booked := by
    refine { h with once := ?_, alive := ?_, record := ?_ }
    · intro fd'
      change Function.update s.closes fd 0 fd' ≤ 1
      rw [Function.update_apply]
      split
      · exact Nat.zero_le 1
      · exact h.once fd'
    · intro fd' hopen
      have hne : fd' ≠ fd := fun he => by rw [he, hnew] at hopen; cases hopen
      exact (Function.update_of_ne hne ..).trans (h.alive fd' hopen)
    · intro fd' hopen hstarted
      have hne : fd' ≠ fd := fun he => by rw [he, hnew] at hopen; cases hopen
      exact h.record fd' hopen (by rwa [Table.get_del_ne _ hne] at hstarted)
  unfold Gateserver.openSocket
  dsimp only
  split
  · exact hfresh.close (by rw [hnew]; simp) (Function.update_self ..)
  · rename_i hfull
    have hgate : (s.gate.openSocket fd ip).1 = { s.gate with
        client := s.gate.client.set fd true
        clientNumber := s.gate.clientNumber + 1
        sock := s.gate.sock.set fd () } := by
      unfold Gate.openSocket
      rw [if_neg hfull]
    have hother : ∀ fd', (s.gate.client.set fd true).get fd' = some true → fd' ≠ fd →
        s.gate.client.get fd' = some true := fun fd' hopen hne => by
      rwa [Table.get_set_ne _ _ hne] at hopen
    rw [hgate]
    refine ⟨⟨?_, ?_, hfresh.once, h.found⟩, ?_, ?_, ?_⟩
    · exact (congrArg (· + 1) h.number).trans (Table.size_set_new true hnew).symm
    · change s.gate.clientNumber + 1 ≤ s.gate.maxclient
      omega
    · intro fd' hlisten
      have hne : fd' ≠ fd := fun he => hsocket (he ▸ hlisten)
      exact (Table.get_set_ne _ _ hne).trans (h.listen fd' hlisten)
    · intro fd' hopen
      by_cases hfd : fd' = fd
      · rw [hfd]
        exact Function.update_self ..
      · exact (Function.update_of_ne hfd ..).trans (h.alive fd' (hother fd' hopen hfd))
    · intro fd' hopen hstarted
      have hne : fd' ≠ fd := fun he => hstarted (by rw [he]; exact Table.get_del_self _ _)
      exact h.record fd' (hother fd' hopen hne) (by rwa [Table.get_del_ne _ hne] at hstarted)

/-- The record is there before `openclient` starts the socket. -/
theorem Booked.connectRet (h : s.Booked) (conn : Conn) : (s.connectRet conn).Booked := by
  have hrecord : { s with gate := s.gate.connectRet conn }.Booked := by
    refine h.shrink ⟨fun hg => ⟨hg.number, hg.bound⟩, fun _ => id, fun _ => id, ?_⟩
    intro fd _ hold
    change (s.gate.connection.set conn.fd conn).get fd ≠ none
    rw [Table.get_set]
    split
    · exact Option.some_ne_none _
    · exact hold
  unfold Gateserver.connectRet openclient
  split
  · refine { hrecord with record := ?_ }
    intro fd hopen hstarted
    by_cases hfd : fd = conn.fd
    · change (s.gate.connection.set conn.fd conn).get fd ≠ none
      rw [hfd, Table.get_set_self]
      exact Option.some_ne_none _
    · exact hrecord.record fd hopen (by rwa [Table.get_set_ne _ _ hfd] at hstarted)
  · exact hrecord

/-- `handler.message` finds the record of a started socket whose entry is open. -/
theorem Booked.message (h : s.Booked) {fd : Fd} (hopen : s.gate.client.get fd = some true)
    (hstarted : s.started.get fd ≠ none) : (s.message fd).Booked :=
  { h with
    found := fun e he => by
      rcases List.mem_append.mp he with he | he
      · exact h.found e he
      · rw [List.mem_singleton.mp he]
        exact h.record fd hopen hstarted }

/-- The first message of a websocket: it is accepted, or the client is closed. -/
theorem Booked.checkwebsocket (h : s.Booked) (accept : WebSocket.Bytes → WebSocket.Bytes) (fd : Fd)
    (msg : WebSocket.Bytes) (sent : Bool) : (s.checkwebsocket accept fd msg sent).Booked := by
  unfold Gateserver.checkwebsocket
  split
  · split
    · exact h.closeclient fd
    · exact h
  · exact { h with }

/-- A message of a client whose socket was started. -/
theorem Booked.dispatchMsg (h : s.Booked) (accept : WebSocket.Bytes → WebSocket.Bytes) {fd : Fd}
    (msg : WebSocket.Bytes) (sent : Bool) (hstarted : s.started.get fd ≠ none) :
    (s.dispatchMsg accept fd msg sent).Booked := by
  unfold Gateserver.dispatchMsg
  split
  · rename_i hopen
    cases fd.gate with
    | tcp => exact h.message hopen hstarted
    | ws =>
      dsimp only
      split_ifs
      · exact h.closeclient fd
      · exact h.checkwebsocket accept fd msg sent
      · exact h.closeclient fd
      · exact h.message hopen hstarted
  · exact h

/-- The answer of a call. -/
theorem Booked.answer (h : s.Booked) (call : Msg) (ok : Bool) : (s.answer call ok).Booked := by
  unfold Gateserver.answer
  split
  · exact h.connectRet _
  · exact (h.finishClose _).afterClose _ _
  · exact h

/-- One event, if it does not close the listening socket once more. -/
theorem Booked.step {p : Protocol} {accept : WebSocket.Bytes → WebSocket.Bytes} (h : s.Booked)
    {s' : Gateserver} {e : GateEvent} (hguard : ClosesOnce s e)
    (hstep : (machine p accept).step s e = some s') : s'.Booked := by
  unfold machine at hstep
  cases e with
  | «open» fd ip =>
    obtain ⟨⟨-, hsocket, hnew⟩, hs'⟩ := Option.ite_none_right_eq_some.mp hstep
    exact Option.some.inj hs' ▸ h.openSocket ip hsocket hnew
  | close fd =>
    rw [← Option.some.inj hstep]
    split
    · exact { h with listen := fun _ hnone => by cases hnone }
    · exact h.disconnect fd
  | error fd =>
    rw [← Option.some.inj hstep]
    split
    · rename_i hsocket
      exact h.close (by rw [h.listen fd hsocket]; simp) (hguard hsocket)
    · exact h.disconnect fd
  | data fd msg sent =>
    obtain ⟨hstarted, hs'⟩ := Option.ite_none_right_eq_some.mp hstep
    exact Option.some.inj hs' ▸ h.dispatchMsg accept msg sent (Option.isSome_iff_ne_none.mp hstarted)
  | kick fd raw => exact Option.some.inj hstep ▸ h.closeAgent fd raw (.kick none)
  | register fd uid agent => exact Option.some.inj hstep ▸ h.shrink (s.gate.register_shrinks fd uid agent)
  | answer i ok =>
    obtain ⟨call, -, hs'⟩ := Option.map_eq_some_iff.mp hstep
    exact hs' ▸ (h.withCalls _).answer call ok
  | shut =>
    obtain ⟨fd, hsocket, hs'⟩ := Option.map_eq_some_iff.mp hstep
    exact hs' ▸ h.close (by rw [h.listen fd hsocket]; simp) (hguard fd hsocket)

/-! ## Over every run -/

/-- The books are kept in every state that events lead to without closing the listening socket again. -/
theorem kept_of_closesOnce {p : Protocol} {accept : WebSocket.Bytes → WebSocket.Bytes}
    (hrun : (machine p accept).ReachUnder ClosesOnce s) : s.Kept := by
  refine (hrun.invariant Booked ?_ ?_).toKept
  · rintro s ⟨socket, maxclient, rfl⟩
    exact Booked.listening socket maxclient
  · intro s e s' _ hs hguard hstep
    exact hs.step hguard hstep

/-- A client that sends a message, is kicked while its close event waits for the hub, and is gone when
the hub answers. -/
theorem kept_of_closesOnce_kicked :
    let fd : Fd := ⟨.tcp, 7⟩
    ∃ s, (machine .tcp id).exec (listening ⟨.tcp, 0⟩ 1)
        [.open fd "127.0.0.1:80", .answer 0 true, .data fd [1] true, .close fd, .kick fd true,
          .answer 0 true] = some s ∧
      (s.handled.length, s.closes fd, s.gate.clientNumber) = (1, 1, 0) ∧ s.Kept := by
  intro fd
  have hguard : ∀ (s : Gateserver) (e : GateEvent), e.ofClient = true → ClosesOnce s e := by
    intro s e h
    cases e with
    | error fd => cases h
    | shut => cases h
    | _ => trivial
  have hend : ((machine .tcp id).execWhile (fun _ => GateEvent.ofClient) (listening ⟨.tcp, 0⟩ 1)
      [.open fd "127.0.0.1:80", .answer 0 true, .data fd [1] true, .close fd, .kick fd true,
        .answer 0 true]).map (fun s => (s.handled.length, s.closes fd, s.gate.clientNumber)) =
      some (1, 1, 0) := by decide
  obtain ⟨s, hrun, hs⟩ := Option.map_eq_some_iff.mp hend
  have hreach : (machine .tcp id).ReachUnder ClosesOnce s := .execWhile hguard (.start ⟨_, _, rfl⟩) hrun
  exact ⟨s, Machine.exec_of_execWhile hrun, hs, kept_of_closesOnce hreach⟩

/-- `accept` fails twice before the close of the listening socket is reported. -/
theorem not_kept_acceptError :
    ¬ ∀ (p : Protocol) (accept : WebSocket.Bytes → WebSocket.Bytes) (s : Gateserver),
      (machine p accept).Reach s → s.Kept := by
  intro h
  have hstart : (machine .tcp id).Reach (listening ⟨.tcp, 0⟩ 1) := .start ⟨_, _, rfl⟩
  have hrun : (machine .tcp id).exec (listening ⟨.tcp, 0⟩ 1) [.error ⟨.tcp, 0⟩, .error ⟨.tcp, 0⟩] =
      some (((listening ⟨.tcp, 0⟩ 1).close ⟨.tcp, 0⟩).close ⟨.tcp, 0⟩) := rfl
  have hkept := h .tcp id _ (hstart.exec hrun)
  exact absurd (hkept.once ⟨.tcp, 0⟩) (by decide)

/-- Where the books are kept behind an event, it did not close the listening socket again. -/
theorem closesOnce_of_kept {p : Protocol} {accept : WebSocket.Bytes → WebSocket.Bytes}
    {s' : Gateserver} {e : GateEvent} (hstep : (machine p accept).step s e = some s') (h : s'.Kept) :
    ClosesOnce s e := by
  have hclosed : ∀ fd, (s.close fd).closes fd ≤ 1 → s.closes fd = 0 := by
    intro fd hle
    have : (s.close fd).closes fd = s.closes fd + 1 := Function.update_self ..
    omega
  cases e with
  | error fd =>
    intro hsocket
    have hs' : s.close fd = s' := by
      rw [← Option.some.inj hstep, if_pos hsocket]
    exact hclosed fd (hs' ▸ h.once fd)
  | shut =>
    intro fd hsocket
    have hs' : s.close fd = s' := by
      have : s.socket.map s.close = some s' := hstep
      rw [hsocket] at this
      exact Option.some.inj this
    exact hclosed fd (hs' ▸ h.once fd)
  | _ => trivial

end Gateserver

end AntServer.Game
