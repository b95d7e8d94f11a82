/-
# AntServer.Game.Tables — what holds of the tables of a node in every run

The tables of the gates and of `hubd` are well formed (`Gate.Ok`, `Hub.Ok`), and the sockets are opened
in order: as long as the `connect` of a socket is under way the socket has no connection, asks for
nothing and shakes no hands. No assumption on the run is made here; the arguments about guarded runs
build on it.
-/
import AntServer.Game.Reaction

namespace AntServer.Game

open Lib (Table)
open Lib.Mailbox (view)

namespace Sys

/-! ## Known sockets -/

/-- The socket has been opened. -/
def Known (s : Sys) (fd : Fd) : Prop :=
  fd.id < s.nextFd ∧ ∀ conn ∈ view Msg.opening s.net, conn.fd ≠ fd

/-- The tables of the gates and of the hub are well formed. A socket that is being opened has one `connect`
in flight and no connection yet; every other socket that a table or a message names is known. -/
structure Formed (s : Sys) : Prop where
  gates : ∀ p, (s.gates p).Ok p
  hub : s.hub.Ok
  newConn : ∀ conn ∈ view Msg.opening s.net, conn.user = none
  openOnce : ((view Msg.opening s.net).map Conn.fd).Nodup
  openBelow : ∀ conn ∈ view Msg.opening s.net, conn.fd.id < s.nextFd
  connKnown : ∀ p fd c, (s.gates p).connection.get fd = some c → Known s fd
  askKnown : ∀ fd ∈ view Msg.asking s.net, Known s fd
  coKnown : ∀ co ∈ view Msg.handshake s.net, Known s co.fd

/-- At the start there are no sockets. -/
theorem init_formed (warm : Warm) (maxclient : Protocol → Nat) : Formed (Sys.init warm maxclient) where
  gates p fd c hc := by
    rw [show ((Sys.init warm maxclient).gates p).connection.get fd = none from Table.get_empty fd] at hc
    cases hc
  hub :=
    { owner := fun uid r hr => by
        rw [show (Sys.init warm maxclient).hub.userMap.get uid = none from Table.get_empty uid] at hr
        cases hr
      below := fun r user hr => by
        rw [show (Sys.init warm maxclient).hub.users.get r = none from Table.get_empty r] at hr
        cases hr
      socket := fun fd conn hc => by
        rw [show (Sys.init warm maxclient).hub.fdMap.get fd = none from Table.get_empty fd] at hc
        cases hc }
  newConn conn hconn := absurd hconn List.not_mem_nil
  openOnce := List.nodup_nil
  openBelow conn hconn := absurd hconn List.not_mem_nil
  connKnown p fd c hc := by
    rw [show ((Sys.init warm maxclient).gates p).connection.get fd = none from Table.get_empty fd] at hc
    cases hc
  askKnown fd hfd := absurd hfd List.not_mem_nil
  coKnown co hco := absurd hco List.not_mem_nil

/-- The order of the messages in flight does not matter. -/
theorem Formed.perm {s : Sys} {net : List Msg} (h : Formed s) (hperm : s.net.Perm net) :
    Formed { s with net := net } := by
  have hopen := Lib.Mailbox.view_perm Msg.opening hperm
  have hknown : ∀ fd, Known s fd → Known { s with net := net } fd :=
    fun fd hk => ⟨hk.1, fun conn hconn => hk.2 conn (hopen.mem_iff.mpr hconn)⟩
  exact
    { gates := h.gates
      hub := h.hub
      newConn := fun conn hconn => h.newConn conn (hopen.mem_iff.mpr hconn)
      openOnce := (hopen.map _).nodup_iff.mp h.openOnce
      openBelow := fun conn hconn => h.openBelow conn (hopen.mem_iff.mpr hconn)
      connKnown := fun p fd c hc => hknown fd (h.connKnown p fd c hc)
      askKnown := fun fd hfd => hknown fd
        (h.askKnown fd ((Lib.Mailbox.view_perm Msg.asking hperm).mem_iff.mpr hfd))
      coKnown := fun co hco => hknown _
        (h.coKnown co ((Lib.Mailbox.view_perm Msg.handshake hperm).mem_iff.mpr hco)) }

/-! ## What keeps them known -/

/-- Nothing is opened, no connection appears, and what is sent is about known sockets. -/
theorem Formed.send {s s' : Sys} {rest outs : List Msg} (h : Formed s) (hfd : s'.nextFd = s.nextFd)
    (hrest : rest ⊆ s.net) (hnet : s'.net = rest ++ outs)
    (hopen : (view Msg.opening s'.net).Subperm (view Msg.opening s.net))
    (hgates : ∀ p, (s'.gates p).Ok p) (hhub : s'.hub.Ok)
    (hconn : ∀ p fd c, (s'.gates p).connection.get fd = some c → Known s fd)
    (hask : ∀ x ∈ outs, ∀ fd, x.asking = some fd → Known s fd)
    (hco : ∀ x ∈ outs, ∀ co, x.handshake = some co → Known s co.fd) : Formed s' := by
  have hknown : ∀ fd, Known s fd → Known s' fd :=
    fun fd hk => ⟨hfd ▸ hk.1, fun conn hc => hk.2 conn (hopen.subset hc)⟩
  have hview : ∀ {X : Type} (f : Msg → Option X) (x : X), x ∈ view f s'.net →
      x ∈ view f s.net ∨ ∃ m ∈ outs, f m = some x := by
    intro X f x hx
    obtain ⟨m, hm, hmx⟩ := Lib.Mailbox.mem_view.mp hx
    rw [hnet, List.mem_append] at hm
    rcases hm with hm | hm
    · exact .inl (Lib.Mailbox.mem_view.mpr ⟨m, hrest hm, hmx⟩)
    · exact .inr ⟨m, hm, hmx⟩
  exact
    { gates := hgates
      hub := hhub
      newConn := fun conn hc => h.newConn conn (hopen.subset hc)
      openOnce := by
        obtain ⟨l, hperm, hsub⟩ := hopen
        exact (hperm.map _).nodup_iff.mp (h.openOnce.sublist (hsub.map _))
      openBelow := fun conn hc => hfd ▸ h.openBelow conn (hopen.subset hc)
      connKnown := fun p fd c hc => hknown fd (hconn p fd c hc)
      askKnown := fun fd hx => hknown fd ((hview Msg.asking fd hx).elim (h.askKnown fd)
        fun ⟨m, hm, hmx⟩ => hask m hm fd hmx)
      coKnown := fun co hx => hknown _ ((hview Msg.handshake co hx).elim (h.coKnown co)
        fun ⟨m, hm, hmx⟩ => hco m hm co hmx) }

/-- A gate does something after which it has no connection it did not have. -/
theorem setGate_conn {s : Sys} {p : Protocol} {g : Gate}
    (hg : ∀ fd c, g.connection.get fd = some c → ∃ c', (s.gates p).connection.get fd = some c') :
    ∀ q fd c, ((s.setGate p g).gates q).connection.get fd = some c →
      ∃ c', (s.gates q).connection.get fd = some c' := by
  intro q fd c hc
  rw [show (s.setGate p g).gates q = Function.update s.gates p g q from rfl] at hc
  by_cases hq : q = p
  · subst hq
    rw [Function.update_self] at hc
    exact hg fd c hc
  · rw [Function.update_of_ne hq] at hc
    exact ⟨c, hc⟩

/-- A gate is replaced by a well-formed one. -/
theorem setGate_ok {s : Sys} {p : Protocol} {g : Gate} (h : ∀ q, (s.gates q).Ok q) (hg : g.Ok p) :
    ∀ q, ((s.setGate p g).gates q).Ok q := by
  intro q
  show (Function.update s.gates p g q).Ok q
  by_cases hq : q = p
  · subst hq
    rw [Function.update_self]
    exact hg
  · rw [Function.update_of_ne hq]
    exact h q

/-- A message that opens nothing is handled, and what is sent is about known sockets. -/
theorem Formed.pass {s s' : Sys} {m : Msg} {rest outs : List Msg} (h : Formed { s with net := m :: rest })
    (hfd : s'.nextFd = s.nextFd) (hnet : s'.net = rest ++ outs)
    (hopen : (view Msg.opening outs).Subperm m.opening.toList)
    (hgates : ∀ p, (s'.gates p).Ok p) (hhub : s'.hub.Ok)
    (hconn : ∀ p fd c, (s'.gates p).connection.get fd = some c →
      ∃ c', (s.gates p).connection.get fd = some c')
    (hask : ∀ x ∈ outs, ∀ fd, x.asking = some fd → Known { s with net := m :: rest } fd)
    (hco : ∀ x ∈ outs, ∀ co, x.handshake = some co → Known { s with net := m :: rest } co.fd) :
    Formed s' := by
  refine h.send hfd (List.subset_cons_self m rest) hnet ?_ hgates hhub (fun p fd c hc => ?_) hask hco
  · show (view Msg.opening s'.net).Subperm (view Msg.opening (m :: rest))
    rw [hnet, Lib.Mailbox.view_append, Lib.Mailbox.view_cons]
    exact List.perm_append_comm.subperm.trans ((List.subperm_append_right _).mpr hopen)
  · obtain ⟨c', hc'⟩ := hconn p fd c hc
    exact h.connKnown p fd c' hc'

/-! ## The end of a `connect` -/

/-- The `connect` of a socket is over: the socket is known from now on. -/
theorem formed_connectRet {s : Sys} {conn : Conn} {rest : List Msg} (answer : Option Nat)
    (h : Formed { s with net := .gateConnectRet conn :: rest }) :
    Formed ({ s with net := rest }.react answer (.gateConnectRet conn)) := by
  have hopen : view Msg.opening (.gateConnectRet conn :: rest) = conn :: view Msg.opening rest := rfl
  have honce := h.openOnce
  rw [show Sys.net _ = .gateConnectRet conn :: rest from rfl, hopen, List.map_cons, List.nodup_cons] at honce
  have hmem : ∀ c, c ∈ view Msg.opening rest → c ∈ view Msg.opening (.gateConnectRet conn :: rest) :=
    fun c hc => hopen ▸ List.mem_cons_of_mem _ hc
  have hknown : ∀ fd, Known { s with net := .gateConnectRet conn :: rest } fd →
      Known ({ s with net := rest }.react answer (.gateConnectRet conn)) fd :=
    fun fd hk => ⟨hk.1, fun c hc => hk.2 c (hmem c hc)⟩
  exact
    { gates := setGate_ok h.gates (Gate.connectRet_ok conn (h.gates conn.fd.gate))
      hub := h.hub
      newConn := fun c hc => h.newConn c (hmem c hc)
      openOnce := honce.2
      openBelow := fun c hc => h.openBelow c (hmem c hc)
      connKnown := fun p fd c hc => by
        have hc : (Function.update s.gates conn.fd.gate
          ((s.gates conn.fd.gate).connectRet conn) p).connection.get fd = some c := hc
        by_cases hfd : fd = conn.fd
        · subst hfd
          refine ⟨h.openBelow conn (hopen ▸ List.mem_cons_self), fun c' hc' he => ?_⟩
          exact honce.1 (List.mem_map.mpr ⟨c', hc', he⟩)
        · refine hknown fd ?_
          by_cases hp : p = conn.fd.gate
          · subst hp
            rw [Function.update_self] at hc
            exact h.connKnown conn.fd.gate fd c ((Table.get_set_ne _ _ hfd).symm.trans hc)
          · rw [Function.update_of_ne hp] at hc
            exact h.connKnown p fd c hc
      askKnown := fun fd hfd => hknown fd (h.askKnown fd hfd)
      coKnown := fun co hco => hknown _ (h.coKnown co hco) }

/-! ## A message -/

/-- Whatever message is handled, the gates stay well formed. -/
theorem react_gates_ok {s : Sys} (h : ∀ p, (s.gates p).Ok p) (answer : Option Nat) (m : Msg) :
    ∀ p, ((s.react answer m).gates p).Ok p := by
  by_cases hm : ∃ q, m.dst = .gate q
  · cases m with
    | gateConnectRet conn => exact setGate_ok h (Gate.connectRet_ok conn (h conn.fd.gate))
    | gateLogoutRet fd cause => exact setGate_ok h (Gate.logoutRet_ok (h fd.gate) fd cause)
    | gateRegister gate uid agent co role => exact setGate_ok h (Gate.register_ok (h gate) co.fd uid agent)
    | gateKick fd raw origin => exact setGate_ok h (Gate.closeAgent_ok (h fd.gate) fd raw (.kick origin))
    | _ => obtain ⟨q, hq⟩ := hm; cases hq
  · rw [react_gates s answer fun q hq => hm ⟨q, hq⟩]
    exact h

/-- So does the hub. -/
theorem react_hub_ok {s : Sys} (h : s.hub.Ok) (answer : Option Nat) (m : Msg) : (s.react answer m).hub.Ok := by
  by_cases hm : m.dst = .hubd
  · cases m with
    | hubConnect conn => exact Hub.connect_ok h conn
    | hubLogout conn origin => exact Hub.logout_ok h conn
    | hubKick uid origin => exact h
    | hubHandshake fd args => exact Hub.handshake_ok h fd args
    | hubGetRet co agent => exact Hub.getRet_ok h co agent
    | hubStartRet co agent role => exact h
    | hubRegisterRet co agent role res => exact Hub.registerRet_ok h co role res
    | _ => cases hm
  · rw [react_hub s answer hm]
    exact h

/-- One message. Only the end of a `connect` makes a connection; whatever else is sent is about sockets
that are known. -/
theorem formed_react {s : Sys} {m : Msg} {rest : List Msg} (answer : Option Nat)
    (h : Formed { s with net := m :: rest }) : Formed ({ s with net := rest }.react answer m) := by
  by_cases hm : ∃ conn, m = .gateConnectRet conn
  · obtain ⟨conn, rfl⟩ := hm
    exact formed_connectRet answer h
  obtain ⟨outs, hnet, hout⟩ := react_net s rest answer m
  have hask {fd : Fd} (hfd : m.asking = some fd) : Known { s with net := m :: rest } fd :=
    h.askKnown fd (Lib.Mailbox.mem_view.mpr ⟨m, List.mem_cons_self, hfd⟩)
  refine h.pass (react_nextFd _ answer m) hnet
    (Lib.Mailbox.view_subperm (fun x hx conn hc => (hout.sends x hx).opening hc) hout.opening)
    (react_gates_ok (s := { s with net := rest }) h.gates answer m)
    (react_hub_ok (s := { s with net := rest }) h.hub answer m) (fun p fd c hc => ?_)
    (fun x hx fd ha => hask ((hout.sends x hx).asking ha)) (fun x hx co hc => ?_)
  · cases react_kept answer hc with
    | same hc => exact ⟨c, hc⟩
    | opened hopened => exact absurd ⟨_, Option.some.inj hopened⟩ hm
    | registered _ _ hc => exact ⟨_, hc⟩
  · rcases (hout.sends x hx).handshake hc with hc | hfd
    · exact h.coKnown co (Lib.Mailbox.mem_view.mpr ⟨m, List.mem_cons_self, hc⟩)
    · exact hask hfd

/-! ## From outside -/

/-- Something is sent from outside; the gates have no new connection. -/
theorem Formed.outside {s s' : Sys} {outs : List Msg} (h : Formed s) (hfd : s'.nextFd = s.nextFd)
    (hnet : s'.net = s.net ++ outs) (hgates : ∀ p, (s'.gates p).Ok p) (hhub : s'.hub.Ok)
    (hconn : ∀ p fd c, (s'.gates p).connection.get fd = some c →
      ∃ c', (s.gates p).connection.get fd = some c')
    (hout : ∀ x ∈ outs, x.opening = none ∧ x.handshake = none ∧ ∀ fd, x.asking = some fd → Known s fd) :
    Formed s' := by
  refine h.send hfd (List.Subset.refl _) hnet ?_ hgates hhub (fun p fd c hc => ?_)
    (fun x hx fd ha => (hout x hx).2.2 fd ha) (fun x hx co hc => ?_)
  · rw [hnet, Lib.Mailbox.view_append, Lib.Mailbox.view_eq_nil fun x hx => (hout x hx).1, List.append_nil]
  · obtain ⟨c', hc'⟩ := hconn p fd c hc
    exact h.connKnown p fd c' hc'
  · rw [(hout x hx).2.1] at hc
    cases hc

/-- A socket is accepted, with a new id. -/
theorem formed_connect {s : Sys} (h : Formed s) (p : Protocol) (ip : String) :
    Formed { (s.setGate p ((s.gates p).openSocket ⟨p, s.nextFd⟩ ip).1).send
      ((s.gates p).openSocket ⟨p, s.nextFd⟩ ip).2 with nextFd := s.nextFd + 1 } := by
  have hgates : ∀ q fd c, (Function.update s.gates p ((s.gates p).openSocket ⟨p, s.nextFd⟩ ip).1 q).connection.get
      fd = some c → (s.gates q).connection.get fd = some c := by
    intro q fd c hc
    by_cases hq : q = p
    · subst hq
      rw [Function.update_self, Gate.openSocket_connection] at hc
      exact hc
    · rw [Function.update_of_ne hq] at hc
      exact hc
  have hview : ∀ {X : Type} (f : Msg → Option X), f (.slaveConnect ⟨⟨p, s.nextFd⟩, ip, none⟩) = none →
      view f (s.net ++ ((s.gates p).openSocket ⟨p, s.nextFd⟩ ip).2) = view f s.net := by
    intro X f hf
    have hnone : view f ((s.gates p).openSocket ⟨p, s.nextFd⟩ ip).2 = [] :=
      Lib.Mailbox.view_eq_nil fun x hx => Gate.openSocket_sends hx ▸ hf
    rw [Lib.Mailbox.view_append, hnone, List.append_nil]
  have hopen : ∀ conn ∈ view Msg.opening (s.net ++ ((s.gates p).openSocket ⟨p, s.nextFd⟩ ip).2),
      conn ∈ view Msg.opening s.net ∨ conn = ⟨⟨p, s.nextFd⟩, ip, none⟩ := by
    intro conn hconn
    rw [Lib.Mailbox.view_append] at hconn
    refine (List.mem_append.mp hconn).imp id fun hm => ?_
    obtain ⟨m, hm, hmc⟩ := Lib.Mailbox.mem_view.mp hm
    rw [Gate.openSocket_sends hm] at hmc
    exact (Option.some.inj hmc).symm
  have hknown : ∀ fd, Known s fd → Known { (s.setGate p ((s.gates p).openSocket ⟨p, s.nextFd⟩ ip).1).send
      ((s.gates p).openSocket ⟨p, s.nextFd⟩ ip).2 with nextFd := s.nextFd + 1 } fd := by
    intro fd hk
    refine ⟨hk.1.trans (Nat.lt_succ_self _), fun conn hconn => ?_⟩
    rcases hopen conn hconn with hconn | rfl
    · exact hk.2 conn hconn
    · rintro rfl
      exact absurd hk.1 (Nat.lt_irrefl _)
  constructor
  case gates =>
    refine setGate_ok h.gates ((h.gates p).congr ?_)
    exact Gate.openSocket_connection _ _ _
  case hub => exact h.hub
  case newConn =>
    intro conn hconn
    rcases hopen conn hconn with hconn | rfl
    · exact h.newConn conn hconn
    · rfl
  case openOnce =>
    show ((view Msg.opening (s.net ++ _)).map Conn.fd).Nodup
    unfold Gate.openSocket
    split
    · rw [List.append_nil]
      exact h.openOnce
    · rw [Lib.Mailbox.view_append, List.map_append]
      refine List.nodup_append.mpr ⟨h.openOnce, List.nodup_singleton _, fun fd hfd fd' hfd' he => ?_⟩
      obtain ⟨conn, hconn, rfl⟩ := List.mem_map.mp hfd
      obtain rfl : fd' = ⟨p, s.nextFd⟩ := List.mem_singleton.mp hfd'
      have hlt := h.openBelow conn hconn
      rw [he] at hlt
      exact absurd hlt (Nat.lt_irrefl _)
  case openBelow =>
    intro conn hconn
    rcases hopen conn hconn with hconn | rfl
    · exact (h.openBelow conn hconn).trans (Nat.lt_succ_self _)
    · exact Nat.lt_succ_self _
  case connKnown => exact fun q fd c hc => hknown fd (h.connKnown q fd c (hgates q fd c hc))
  case askKnown => exact fun fd hfd => hknown fd (h.askKnown fd (hview Msg.asking rfl ▸ hfd))
  case coKnown => exact fun co hco => hknown _ (h.coKnown co (hview Msg.handshake rfl ▸ hco))

/-! ## A step, and a run -/

/-- Any step. -/
theorem formed_step {s s' : Sys} {a : Action} (h : Formed s) (hs : s.step a = some s') : Formed s' := by
  have hgates : ∀ p fd c, (s.gates p).connection.get fd = some c →
      ∃ c', (s.gates p).connection.get fd = some c' := fun p fd c hc => ⟨c, hc⟩
  cases step_cases hs with
  | message hm hperm => exact formed_react _ (h.perm hperm)
  | connect p ip => exact formed_connect h p ip
  | data fd req =>
    refine h.outside rfl rfl h.gates h.hub hgates fun x hx => ?_
    obtain ⟨c, hc, ⟨user, -, rfl⟩ | ⟨-, rfl⟩⟩ := Gate.message_sends hx
    · exact ⟨rfl, rfl, fun fd' ha => by cases ha⟩
    · exact ⟨rfl, rfl, fun fd' ha => by cases ha; exact h.connKnown _ _ c hc⟩
  | disconnect fd =>
    let g : Gate := { s.gates fd.gate with sock := (s.gates fd.gate).sock.del fd }
    have hg : g.Ok fd.gate := h.gates fd.gate
    refine h.outside rfl rfl (setGate_ok h.gates (Gate.closeAgent_ok hg fd false .event)) h.hub
      (setGate_conn fun fd' c hc => ⟨c, g.closeAgent_conn fd false .event fd' c hc⟩) fun x hx => ?_
    rcases g.closeAgent_cases fd false .event with ⟨-, -, hout⟩ | ⟨c, -, ⟨-, -, hout⟩ | ⟨-, -, hout⟩⟩
    · exact absurd (hout ▸ hx) List.not_mem_nil
    · exact absurd (hout ▸ hx) List.not_mem_nil
    · have hx : x ∈ [Msg.slaveLogout c .event] := hout ▸ hx
      rw [List.mem_singleton.mp hx]
      exact ⟨rfl, rfl, fun fd' ha => by cases ha⟩
  | access uid secret serverId tm =>
    exact h.outside rfl (List.append_nil _).symm h.gates (Hub.access_ok h.hub uid secret serverId tm) hgates
      (fun x hx => by cases hx)
  | loginKick uid =>
    refine h.outside rfl rfl h.gates h.hub hgates fun x hx => ?_
    obtain ⟨user, conn, -, -, rfl⟩ := Hub.kick_sends hx
    exact ⟨rfl, rfl, fun fd' ha => by cases ha⟩
  | sweep now =>
    exact h.outside rfl (List.append_nil _).symm h.gates (Hub.handshakeTimeout_ok h.hub now) hgates
      (fun x hx => by cases hx)

/-- In every run the tables are well formed and the sockets known. -/
theorem reach_formed {s : Sys} (h : node.Reach s) : Formed s :=
  h.invariant Formed (by rintro _ ⟨warm, maxclient, rfl⟩; exact init_formed warm maxclient)
    fun _ _ _ _ hI _ hs => formed_step hI hs

end Sys

end AntServer.Game
