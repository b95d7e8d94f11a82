/-
# AntServer.Rudp.Link — two ends and the network between them

Two ends, each with a user that sends and receives when it likes. The packages of an end stay on the wire
for good: an update is given any one of those that the other end has put there, or none, so that packages
are lost, repeated, delayed and brought out of order. The numbers of a package are sent by their low 16
bits; the condition on a run (`Timely`) is that a package is not given to an end whose greatest number is
`0x8000` or more away from one of the package.

In every such run each direction is a channel in order that loses messages and says so
(`link_lossyChannel`): what an end takes at a place is what the other end sent at this place, or the remark
that it is missing.
-/
import AntServer.Lib.LossyChannel
import AntServer.Rudp.Endpoint

namespace AntServer.Rudp

open Lib

/-! ## Packages with their numbers -/

/-- What a segment asks for when its number is known. -/
def apply (U : Rudp) : Segment Int → Rudp
  | .ignore => onIgnore U
  | .request id => addRequest U id
  | .missing id => addMissing U id
  | .normal id payload => insertMessage U id (some payload.1)

/-- The number of a segment is found again by an end whose greatest number is `ref`. -/
def Segment.Near (ref : Int) : Segment Int → Prop
  | .ignore => True
  | .request id | .missing id | .normal id _ => ref - 0x8000 < id ∧ id < ref + 0x8000

instance (ref : Int) (s : Segment Int) : Decidable (s.Near ref) :=
  match s with
  | .ignore => inferInstanceAs (Decidable True)
  | .request _ | .missing _ | .normal _ _ => inferInstanceAs (Decidable (_ ∧ _))

/-- Every segment of a package, when it is its turn. -/
def InWindow (U : Rudp) : List (Segment Int) → Prop
  | [] => True
  | s :: rest => s.Near U.recvIdMax ∧ InWindow (apply U s) rest

instance decidableInWindow (U : Rudp) : (segs : List (Segment Int)) → Decidable (InWindow U segs)
  | [] => inferInstanceAs (Decidable True)
  | s :: rest =>
    have := decidableInWindow (apply U s) rest
    inferInstanceAs (Decidable (_ ∧ _))

theorem accept_of_near {U : Rudp} {s : Segment Int} (h : s.Near U.recvIdMax) :
    accept U (s.map lowBytes) = apply U s := by
  cases s with
  | ignore => rfl
  | request id => exact congrArg (addRequest U) ((getId_lowBytes_iff U id).mpr (.inl h))
  | missing id => exact congrArg (addMissing U) ((getId_lowBytes_iff U id).mpr (.inl h))
  | normal id payload =>
    exact congrArg (insertMessage U · (some payload.1)) ((getId_lowBytes_iff U id).mpr (.inl h))

/-- A package in the window does what its segments ask for, and the connection is not corrupt. -/
theorem extractPackage_encode {U : Rudp} {segs : List (Segment Int)} (h : InWindow U segs) :
    extractPackage U (encode segs) = segs.foldl apply U := by
  rw [extractPackage_eq, readAll_encode]
  show (segs.map (Segment.map lowBytes)).foldl accept U = _
  induction segs generalizing U with
  | nil => rfl
  | cons s segs ih =>
    rw [List.map_cons, List.foldl_cons, accept_of_near h.1, ih h.2]
    rfl

/-! ## The system -/

/-- An end with what its user sent, what its user took, and the packages it put on the wire. -/
structure End where
  rudp : Rudp
  sent : List Bytes
  got : List (Option Bytes)
  out : List (List (Segment Int))

/-- What `rudp_recv` takes from the queue: the bytes of a message, or that it is missing. -/
def taken (U : Rudp) : List (Option Bytes) :=
  if U.corrupt then []
  else
    match queuePop U.recvQueue U.recvIdMin with
    | none => []
    | some (m, _) => [m.buffer]

/-- The packages of an update, as segments. -/
def pieces (U : Rudp) (buffer : Bytes) (tick : Int) : List (List (Segment Int)) :=
  if Due (received U buffer tick) then split (content (received U buffer tick)) else []

inductive Side where
  | left
  | right

structure Link where
  left : End
  right : End

/-- What happens at an end. An update is given the package of a place on the wire, or none. -/
inductive Event where
  | send (buffer : Bytes)
  | recv
  | update (package : Option Nat) (tick : Int)

/-- The segments that an update is given. -/
def given (wire : List (List (Segment Int))) : Option Nat → Option (List (Segment Int))
  | none => some []
  | some i => wire[i]?

/-- An event at the end `p`, with the packages of the other end on the wire. -/
def happen (p : End) (wire : List (List (Segment Int))) : Event → Option End
  | .send buffer =>
    (rudpSend p.rudp buffer).map fun U => { p with rudp := U, sent := p.sent ++ [buffer] }
  | .recv => some { p with rudp := (rudpRecv p.rudp).2.2, got := p.got ++ taken p.rudp }
  | .update package tick =>
    (given wire package).bind fun segs =>
      (rudpUpdate p.rudp (encode segs) tick).map fun r =>
        { p with rudp := r.2, out := p.out ++ pieces p.rudp (encode segs) tick }

/-- The arguments of `rudp_new`. -/
structure Settings where
  sendDelay : Int
  expiredTime : Int

/-- An end that nothing has happened at. -/
def End.new (u : Settings) : End := ⟨rudpNew u.sendDelay u.expiredTime, [], [], []⟩

/-- Two ends, each with its own settings. -/
def link (left right : Settings) : Machine Link (Side × Event) where
  start s := s = ⟨.new left, .new right⟩
  step s a :=
    match a.1 with
    | .left => (happen s.left s.right.out a.2).map fun p => { s with left := p }
    | .right => (happen s.right s.left.out a.2).map fun p => { s with right := p }

/-- The end is not given a package out of its window. -/
def TimelyAt (p : End) (wire : List (List (Segment Int))) : Event → Prop
  | .update package tick => ∀ segs ∈ given wire package,
      InWindow { p.rudp with currentTick := p.rudp.currentTick + tick } segs
  | _ => True

def Timely (s : Link) (a : Side × Event) : Prop :=
  match a.1 with
  | .left => TimelyAt s.left s.right.out a.2
  | .right => TimelyAt s.right s.left.out a.2

instance (p : End) (wire : List (List (Segment Int))) (e : Event) : Decidable (TimelyAt p wire e) :=
  match e with
  | .send _ | .recv => inferInstanceAs (Decidable True)
  | .update package _ => inferInstanceAs (Decidable (∀ segs ∈ given wire package, InWindow _ segs))

instance (s : Link) (a : Side × Event) : Decidable (Timely s a) :=
  match a with
  | (.left, e) => inferInstanceAs (Decidable (TimelyAt s.left s.right.out e))
  | (.right, e) => inferInstanceAs (Decidable (TimelyAt s.right s.left.out e))

/-- The bytes of the packages that go on the wire are those `rudp_update` returns. -/
theorem rudpUpdate_pieces {U U' : Rudp} {buffer : Bytes} {tick : Int} {packages : List Bytes}
    (h : rudpUpdate U buffer tick = some (packages, U')) :
    packages = (pieces U buffer tick).map encode := by
  unfold pieces
  rcases rudpUpdate_cases h with ⟨hdue, rfl, -⟩ | ⟨hdue, -, rfl, -⟩
  · rw [if_neg hdue]
    rfl
  · rw [if_pos hdue]

/-! ## What an end sends -/

/-- The message with the number `id` is what the user sent at this place. -/
def Sent (sent : List Bytes) (id : Int) (b : Bytes) : Prop := 0 ≤ id ∧ sent[id.toNat]? = some b

theorem Sent.append {sent : List Bytes} {id : Int} {b : Bytes} (h : Sent sent id b)
    (more : List Bytes) : Sent (sent ++ more) id b := by
  refine ⟨h.1, ?_⟩
  rw [List.getElem?_append_left (List.getElem?_eq_some_iff.mp h.2).1]
  exact h.2

/-- The messages among some segments are what the user sent. -/
def Honest (sent : List Bytes) (segs : List (Segment Int)) : Prop :=
  ∀ id payload, .normal id payload ∈ segs → Sent sent id payload.1

/-- The sending half of an end. -/
structure Sending (sent : List Bytes) (U : Rudp) : Prop where
  sendId : U.sendId = sent.length
  messages : ∀ m ∈ U.sendHistory ++ U.sendQueue, Sent sent m.id m.buffer

/-- Every message of a package is what the user sent. -/
theorem Sending.honest {sent : List Bytes} {U : Rudp} (h : Sending sent U) {segs : List (Segment Int)}
    (hsegs : segs ∈ split (content U)) : Honest sent segs := by
  intro id payload hmem
  have hmessage : ∀ m ∈ U.sendHistory ++ U.sendQueue, .normal id payload = m.segment →
      Sent sent id payload.1 := by
    intro m hm heq
    obtain ⟨rfl, rfl⟩ := Segment.normal.inj heq
    exact h.messages m hm
  have hall : .normal id payload ∈ (split (content U)).flatten := List.mem_flatten.mpr ⟨segs, hsegs, hmem⟩
  rw [flatten_split] at hall
  split at hall
  · cases List.mem_singleton.mp hall
  · rcases List.mem_append.mp hall with hall | hall
    · rcases List.mem_append.mp hall with hall | hall
      · obtain ⟨x, hx⟩ := mem_missingRequests hall
        cases hx
      · rcases mem_replies hall with ⟨x, hx⟩ | ⟨m, hm, heq⟩
        · cases hx
        · exact hmessage m (List.mem_append_left _ hm) heq
    · obtain ⟨m, hm, heq⟩ := List.mem_map.mp hall
      exact hmessage m (List.mem_append_right _ hm) heq.symm

theorem Sending.received {sent : List Bytes} {U : Rudp} (h : Sending sent U) (buffer : Bytes)
    (tick : Int) : Sending sent (received U buffer tick) := by
  have hexpire {V : Rudp} (hV : Sending sent V) : Sending sent (expire V) := by
    unfold expire
    split
    · refine ⟨hV.sendId, fun m hm => hV.messages m ?_⟩
      exact ((List.dropWhile_sublist _).append (List.Sublist.refl _)).subset hm
    · exact hV
  have hinsert (V : Rudp) (hV : Sending sent V) (id : Int) (b : Option Bytes) :
      Sending sent (insertMessage V id b) := by
    rcases insertMessage_cases V id b with ⟨-, heq⟩ | ⟨-, -, heq⟩ | ⟨-, -, -, heq⟩
    · rw [heq]
      exact hV
    · rw [heq]
      exact ⟨hV.sendId, hV.messages⟩
    · rw [heq]
      exact ⟨hV.sendId, hV.messages⟩
  apply hexpire
  apply extractPackage_invariant (I := Sending sent)
  · intro V s hV
    cases s with
    | ignore =>
      show Sending sent (onIgnore V)
      unfold onIgnore
      split
      · exact ⟨hV.sendId, hV.messages⟩
      · exact hV
    | request id => exact ⟨hV.sendId, hV.messages⟩
    | missing id => exact hinsert V hV _ _
    | normal id payload => exact hinsert V hV _ _
  · exact fun V hV => ⟨hV.sendId, hV.messages⟩
  · exact ⟨h.sendId, h.messages⟩

theorem Sending.handOver {sent : List Bytes} {U : Rudp} (h : Sending sent U) :
    Sending sent (handOver U) := by
  refine ⟨h.sendId, fun m hm => ?_⟩
  change m ∈ (U.sendHistory ++ U.sendQueue) ++ [] at hm
  rw [List.append_nil] at hm
  exact h.messages m hm

theorem Sending.send {sent : List Bytes} {U U' : Rudp} {buffer : Bytes} (h : Sending sent U)
    (hs : rudpSend U buffer = some U') : Sending (sent ++ [buffer]) U' := by
  unfold rudpSend at hs
  split at hs
  · cases hs
    constructor
    · show U.sendId + 1 = _
      rw [h.sendId, List.length_append]
      rfl
    · intro m hm
      change m ∈ U.sendHistory ++ (U.sendQueue ++ [_]) at hm
      rw [← List.append_assoc] at hm
      rcases List.mem_append.mp hm with hm | hm
      · exact (h.messages m hm).append _
      · rw [List.mem_singleton.mp hm]
        show Sent _ U.sendId buffer
        rw [h.sendId]
        refine ⟨Int.natCast_nonneg _, ?_⟩
        rw [Int.toNat_natCast, List.getElem?_append_right (Nat.le_refl _), Nat.sub_self]
        rfl
  · cases hs

/-! ## What an end receives -/

/-- The receiving half of an end, when `sent` is what the other user sent. -/
structure Receiving (sent : List Bytes) (U : Rudp) (got : List (Option Bytes)) : Prop where
  queue : ∀ m ∈ U.recvQueue, ∀ b, m.buffer = some b → Sent sent m.id b
  length : U.recvIdMin = got.length
  places : LossyChannel.InPlace ⟨sent, got⟩
  clean : U.corrupt = false

namespace Receiving

variable {sent : List Bytes} {U : Rudp} {got : List (Option Bytes)}

/-- The other user sends one more message. -/
theorem send (h : Receiving sent U got) (b : Bytes) : Receiving (sent ++ [b]) U got where
  queue m hm c hc := (h.queue m hm c hc).append _
  length := h.length
  places := h.places.send b
  clean := h.clean

theorem insertMessage (h : Receiving sent U got) (id : Int) (b : Option Bytes)
    (hb : ∀ c, b = some c → Sent sent id c) : Receiving sent (insertMessage U id b) got := by
  rcases insertMessage_cases U id b with ⟨-, heq⟩ | ⟨-, -, heq⟩ | ⟨-, -, -, heq⟩
  · rw [heq]
    exact h
  · rw [heq]
    refine ⟨fun m hm => ?_, h.length, h.places, h.clean⟩
    rcases List.mem_append.mp hm with hm | hm
    · exact h.queue m hm
    · rw [List.mem_singleton.mp hm]
      exact hb
  · rw [heq]
    refine ⟨fun m hm => ?_, h.length, h.places, h.clean⟩
    rcases mem_insertBefore hm with rfl | hm
    · exact hb
    · exact h.queue m hm

theorem apply (h : Receiving sent U got) {s : Segment Int}
    (hs : ∀ id payload, s = .normal id payload → Sent sent id payload.1) :
    Receiving sent (apply U s) got := by
  cases s with
  | ignore =>
    show Receiving sent (onIgnore U) got
    unfold onIgnore
    split
    · exact ⟨h.queue, h.length, h.places, h.clean⟩
    · exact h
  | request id => exact ⟨h.queue, h.length, h.places, h.clean⟩
  | missing id => exact h.insertMessage id none fun c hc => by cases hc
  | normal id payload =>
    refine h.insertMessage id (some payload.1) fun c hc => ?_
    rw [← Option.some.inj hc]
    exact hs id payload rfl

theorem foldl (h : Receiving sent U got) {segs : List (Segment Int)} (hsegs : Honest sent segs) :
    Receiving sent (segs.foldl Rudp.apply U) got := by
  induction segs generalizing U with
  | nil => exact h
  | cons s segs ih =>
    apply ih
    · apply h.apply
      rintro id payload rfl
      exact hsegs id payload List.mem_cons_self
    · exact fun id payload hm => hsegs id payload (List.mem_cons_of_mem s hm)

/-- A package in the window, with messages that the other user sent. -/
theorem received (h : Receiving sent U got) {segs : List (Segment Int)} {tick : Int}
    (hsegs : Honest sent segs)
    (hwindow : InWindow { U with currentTick := U.currentTick + tick } segs) :
    Receiving sent (received U (encode segs) tick) got := by
  have htick : Receiving sent { U with currentTick := U.currentTick + tick } got :=
    ⟨h.queue, h.length, h.places, h.clean⟩
  have hfold := htick.foldl hsegs
  unfold Rudp.received
  rw [extractPackage_encode hwindow]
  unfold expire
  split
  · exact ⟨hfold.queue, hfold.length, hfold.places, hfold.clean⟩
  · exact hfold

theorem recv (h : Receiving sent U got) : Receiving sent (rudpRecv U).2.2 (got ++ taken U) := by
  unfold taken
  rcases rudpRecv_cases U with ⟨hc, -⟩ | ⟨hc, hno, heq⟩ | ⟨m, rest, hc, hq, hid, heq⟩
  · rw [h.clean] at hc
    cases hc
  · have hpop : queuePop U.recvQueue U.recvIdMin = none := by
      cases hq : U.recvQueue with
      | nil => rfl
      | cons m rest => rw [queuePop, if_pos (hno m rest hq)]
    rw [heq, hc, hpop]
    simpa using h
  · have hpop : queuePop U.recvQueue U.recvIdMin = some (m, rest) := by
      rw [hq, queuePop, if_neg (not_not.mpr hid)]
    have hqueue := h.queue
    rw [hq] at hqueue
    rw [heq, hc, hpop]
    refine ⟨fun a ha => hqueue a (List.mem_cons_of_mem m ha), ?_, ?_, rfl⟩
    · show U.recvIdMin + 1 = ((got ++ [m.buffer]).length : Int)
      rw [h.length, List.length_append]
      rfl
    · apply h.places.take
      intro b hb
      -- the number of the head is the place that is taken
      have hsent := (hqueue m List.mem_cons_self b hb).2
      rw [hid, h.length, Int.toNat_natCast] at hsent
      exact hsent

end Receiving

/-! ## Both ends -/

/-- The end `p`, whose messages the end `q` receives. -/
structure Channel (p q : End) : Prop where
  sending : Sending p.sent p.rudp
  out : ∀ segs ∈ p.out, Honest p.sent segs
  receiving : Receiving p.sent q.rudp q.got

/-- What happens at the sending end. -/
theorem Channel.sender {p p' q : End} {wire : List (List (Segment Int))} {e : Event}
    (h : Channel p q) (hs : happen p wire e = some p') : Channel p' q := by
  cases e with
  | send buffer =>
    obtain ⟨U, hU, rfl⟩ := Option.map_eq_some_iff.mp hs
    refine ⟨h.sending.send hU, fun segs hsegs id payload hm => ?_, h.receiving.send buffer⟩
    exact (h.out segs hsegs id payload hm).append _
  | recv =>
    cases hs
    have hsame : Sending p.sent (rudpRecv p.rudp).2.2 := by
      rcases rudpRecv_cases p.rudp with ⟨-, heq⟩ | ⟨-, -, heq⟩ | ⟨m, rest, -, -, -, heq⟩
      · rw [heq]
        exact ⟨h.sending.sendId, h.sending.messages⟩
      · rw [heq]
        exact h.sending
      · rw [heq]
        exact ⟨h.sending.sendId, h.sending.messages⟩
    exact ⟨hsame, h.out, h.receiving⟩
  | update package tick =>
    obtain ⟨segs, -, hs⟩ := Option.bind_eq_some_iff.mp hs
    obtain ⟨r, hr, rfl⟩ := Option.map_eq_some_iff.mp hs
    have hrec := h.sending.received (encode segs) tick
    refine ⟨?_, fun piece hpiece => ?_, h.receiving⟩
    · show Sending p.sent r.2
      rcases rudpUpdate_cases hr with ⟨-, -, heq⟩ | ⟨-, -, -, heq⟩
      · rw [heq]
        exact hrec
      · rw [heq]
        exact ⟨hrec.handOver.sendId, hrec.handOver.messages⟩
    · rcases List.mem_append.mp hpiece with hpiece | hpiece
      · exact h.out piece hpiece
      · unfold pieces at hpiece
        split at hpiece
        · exact hrec.honest hpiece
        · cases hpiece

/-- What happens at the receiving end, in time. -/
theorem Channel.receiver {p q q' : End} {e : Event} (h : Channel p q) (ht : TimelyAt q p.out e)
    (hs : happen q p.out e = some q') : Channel p q' := by
  refine ⟨h.sending, h.out, ?_⟩
  cases e with
  | send buffer =>
    obtain ⟨U, hU, rfl⟩ := Option.map_eq_some_iff.mp hs
    unfold rudpSend at hU
    split at hU
    · cases hU
      exact ⟨h.receiving.queue, h.receiving.length, h.receiving.places, h.receiving.clean⟩
    · cases hU
  | recv =>
    cases hs
    exact h.receiving.recv
  | update package tick =>
    obtain ⟨segs, hgiven, hs⟩ := Option.bind_eq_some_iff.mp hs
    obtain ⟨r, hr, rfl⟩ := Option.map_eq_some_iff.mp hs
    have hhonest : Honest p.sent segs := by
      cases package with
      | none =>
        cases hgiven
        exact fun id payload hm => by cases hm
      | some i => exact h.out segs (List.mem_of_getElem? hgiven)
    have hrec := h.receiving.received hhonest (ht segs hgiven)
    show Receiving p.sent r.2 q.got
    rcases rudpUpdate_cases hr with ⟨-, -, heq⟩ | ⟨-, -, -, heq⟩
    · rw [heq]
      exact hrec
    · rw [heq]
      exact ⟨hrec.queue, hrec.length, hrec.places, hrec.clean⟩

theorem channel_new (left right : Settings) : Channel (.new left) (.new right) := by
  refine ⟨⟨rfl, fun m hm => ?_⟩, fun segs hm => ?_, ⟨fun m hm => ?_, rfl, fun i a hi => ?_, rfl⟩⟩
  · cases hm
  · cases hm
  · cases hm
  · cases hi

theorem channels_of_reach {left right : Settings} {s : Link}
    (h : (link left right).ReachUnder Timely s) :
    Channel s.left s.right ∧ Channel s.right s.left := by
  refine Machine.ReachUnder.invariant
    (fun s => Channel s.left s.right ∧ Channel s.right s.left) ?_ ?_ h
  · rintro s rfl
    exact ⟨channel_new left right, channel_new right left⟩
  · rintro s ⟨side, e⟩ s' - ⟨hlr, hrl⟩ htimely hstep
    cases side with
    | left =>
      obtain ⟨p, hp, rfl⟩ := Option.map_eq_some_iff.mp hstep
      exact ⟨hlr.sender hp, hrl.receiver htimely hp⟩
    | right =>
      obtain ⟨p, hp, rfl⟩ := Option.map_eq_some_iff.mp hstep
      exact ⟨hlr.receiver htimely hp, hrl.sender hp⟩

/-- In every run of two ends in which no package is given out of its window, whatever is lost, repeated,
delayed or brought out of order, each direction is a channel in order that loses messages and says so. In
particular the messages that are received are among those sent, in their order and none of them twice. -/
theorem link_lossyChannel {left right : Settings} {s : Link}
    (h : (link left right).ReachUnder Timely s) :
    (LossyChannel.machine Bytes).Reach ⟨s.left.sent, s.right.got⟩ ∧
      (LossyChannel.machine Bytes).Reach ⟨s.right.sent, s.left.got⟩ ∧
      s.right.got.reduceOption.Sublist s.left.sent ∧
      s.left.got.reduceOption.Sublist s.right.sent := by
  obtain ⟨hlr, hrl⟩ := channels_of_reach h
  exact ⟨LossyChannel.reach_of_inPlace hlr.receiving.places,
    LossyChannel.reach_of_inPlace hrl.receiving.places,
    hlr.receiving.places.sublist, hrl.receiving.places.sublist⟩

/-- Two messages of the left end; the package that brings them to the right end is given to it twice. -/
def repeatedPackage : List (Side × Event) :=
  [(.left, .send [1]), (.left, .send [2]), (.left, .update none 1), (.right, .update (some 0) 1),
    (.right, .recv), (.right, .update (some 0) 0), (.right, .recv), (.right, .recv)]

theorem link_lossyChannel_repeated : ∃ s, (link ⟨1, 5⟩ ⟨2, 3⟩).ReachUnder Timely s ∧
    s.right.got = [some [1], some [2]] ∧ s.right.got.reduceOption.Sublist s.left.sent := by
  have hrun : ∃ s, (link ⟨1, 5⟩ ⟨2, 3⟩).execWhile (fun s a => decide (Timely s a))
      ⟨.new ⟨1, 5⟩, .new ⟨2, 3⟩⟩ repeatedPackage = some s ∧
      s.right.got = [some [1], some [2]] := ⟨_, rfl, rfl⟩
  obtain ⟨s, hs, hgot⟩ := hrun
  have hreach : (link ⟨1, 5⟩ ⟨2, 3⟩).ReachUnder Timely s :=
    Machine.ReachUnder.execWhile (fun _ _ => of_decide_eq_true) (.start rfl) hs
  exact ⟨s, hreach, hgot, (link_lossyChannel hreach).2.2.1⟩

end AntServer.Rudp
