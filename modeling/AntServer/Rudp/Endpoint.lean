/-
# AntServer.Rudp.Endpoint — one end of a channel, whatever comes in

The runs of one end: the user sends and receives in any order, and every `rudp_update` is given any bytes
at all. In every state of such a run the lists are ordered (`Ordered`), so that the one walk of
`reply_request` over the history gives every number that is asked for its reply (`replies_eq`), and
`request_missing` asserts exactly that no message was brought a second time while it waited below the end
of the receive queue (`ascending_iff_fresh`). After such a message the receive queue stays as it is at its
number (`stalled`).
-/
import AntServer.Lib.Machine
import AntServer.Rudp.Packaging
import Mathlib.Data.List.Nodup

namespace AntServer.Rudp

open Lib

/-! ## The runs of one end -/

inductive Action where
  | send (buffer : Bytes)
  | recv
  | update (buffer : Bytes) (tick : Int)

/-- A step fails when an assertion does. -/
def act (U : Rudp) : Action → Option Rudp
  | .send buffer => rudpSend U buffer
  | .recv => some (rudpRecv U).2.2
  | .update buffer tick => (rudpUpdate U buffer tick).map Prod.snd

/-- An end that is used in any way. -/
def endpoint (sendDelay expiredTime : Int) : Machine Rudp Action where
  start U := U = rudpNew sendDelay expiredTime
  step := act

/-- The end after the datagram, the time and the old messages are dealt with. -/
def received (U : Rudp) (buffer : Bytes) (tick : Int) : Rudp :=
  expire (extractPackage { U with currentTick := U.currentTick + tick } buffer)

/-- It is time to send. -/
def Due (U : Rudp) : Prop := U.currentTick ≥ U.lastSendTick + U.sendDelay

instance (U : Rudp) : Decidable (Due U) := inferInstanceAs (Decidable (_ ≥ _))

theorem rudpUpdate_eq (U : Rudp) (buffer : Bytes) (tick : Int) :
    rudpUpdate U buffer tick =
      if Due (received U buffer tick) then
        (genOutpackage (received U buffer tick)).map fun p =>
          (p.1, { p.2 with lastSendTick := p.2.currentTick })
      else some ([], received U buffer tick) := rfl

theorem rudpUpdate_of_not_due {U : Rudp} {buffer : Bytes} {tick : Int}
    (h : ¬ Due (received U buffer tick)) :
    rudpUpdate U buffer tick = some ([], received U buffer tick) := by
  rw [rudpUpdate_eq, if_neg h]

theorem rudpUpdate_of_due {U : Rudp} {buffer : Bytes} {tick : Int} (h : Due (received U buffer tick))
    (hasc : Ascending (received U buffer tick).recvIdMin (received U buffer tick).recvQueue) :
    rudpUpdate U buffer tick =
      some ((split (content (received U buffer tick))).map encode,
        { handOver (received U buffer tick) with
          lastSendTick := (received U buffer tick).currentTick }) := by
  rw [rudpUpdate_eq, if_pos h, genOutpackage_eq _ hasc]
  rfl

theorem rudpUpdate_of_not_ascending {U : Rudp} {buffer : Bytes} {tick : Int}
    (h : Due (received U buffer tick))
    (hasc : ¬ Ascending (received U buffer tick).recvIdMin (received U buffer tick).recvQueue) :
    rudpUpdate U buffer tick = none := by
  rw [rudpUpdate_eq, if_pos h, genOutpackage_none hasc]
  rfl

/-- What an update that succeeds leaves. -/
theorem rudpUpdate_cases {U U' : Rudp} {buffer : Bytes} {tick : Int} {packages : List Bytes}
    (h : rudpUpdate U buffer tick = some (packages, U')) :
    (¬ Due (received U buffer tick) ∧ packages = [] ∧ U' = received U buffer tick) ∨
      (Due (received U buffer tick) ∧
        Ascending (received U buffer tick).recvIdMin (received U buffer tick).recvQueue ∧
        packages = (split (content (received U buffer tick))).map encode ∧
        U' = { handOver (received U buffer tick) with
          lastSendTick := (received U buffer tick).currentTick }) := by
  by_cases hdue : Due (received U buffer tick)
  · by_cases hasc : Ascending (received U buffer tick).recvIdMin (received U buffer tick).recvQueue
    · rw [rudpUpdate_of_due hdue hasc] at h
      obtain ⟨rfl, rfl⟩ := Prod.mk.inj (Option.some.inj h)
      exact .inr ⟨hdue, hasc, rfl, rfl⟩
    · rw [rudpUpdate_of_not_ascending hdue hasc] at h
      cases h
  · rw [rudpUpdate_of_not_due hdue] at h
    obtain ⟨rfl, rfl⟩ := Prod.mk.inj (Option.some.inj h)
    exact .inl ⟨hdue, rfl, rfl⟩

/-- What every segment of any package keeps, and the mark of a corrupt connection too, a package keeps. -/
theorem extractPackage_invariant {I : Rudp → Prop} (hseg : ∀ U s, I U → I (accept U s))
    (hcorrupt : ∀ U, I U → I { U with corrupt := true }) {U : Rudp} (h : I U) (text : Bytes) :
    I (extractPackage U text) := by
  rw [extractPackage_eq]
  have hfold : ∀ (segs : List (Segment Low)) (U : Rudp), I U → I (segs.foldl accept U) := by
    intro segs
    induction segs with
    | nil => exact fun _ h => h
    | cons s segs ih => exact fun U h => ih _ (hseg U s h)
  unfold stopAt
  split
  · exact hfold _ _ h
  · exact hcorrupt _ (hfold _ _ h)

/-! ## The receive queue -/

/-- The three ways a message goes: too old, at the end, or in between. -/
theorem insertMessage_cases (U : Rudp) (id : Int) (buffer : Option Bytes) :
    (id < U.recvIdMin ∧ insertMessage U id buffer = U) ∨
      (U.recvIdMin ≤ id ∧ (U.recvIdMax < id ∨ U.recvQueue = []) ∧ insertMessage U id buffer =
        { U with recvQueue := U.recvQueue ++ [Received.mk id buffer], recvIdMax := id }) ∨
      (U.recvIdMin ≤ id ∧ id ≤ U.recvIdMax ∧ U.recvQueue ≠ [] ∧ insertMessage U id buffer =
        { U with recvQueue := insertBefore U.recvQueue ⟨id, buffer⟩ }) := by
  unfold insertMessage
  by_cases hold : id < U.recvIdMin
  · rw [if_pos hold]
    exact .inl ⟨hold, rfl⟩
  by_cases hend : id > U.recvIdMax ∨ U.recvQueue = []
  · rw [if_neg hold, if_pos hend]
    exact .inr (.inl ⟨by omega, hend, rfl⟩)
  · rw [if_neg hold, if_neg hend]
    exact .inr (.inr ⟨by omega, by omega, fun h => hend (.inr h), rfl⟩)

/-- `rudp_recv` takes the mark of a corrupt connection, or nothing, or the head of the queue. -/
theorem rudpRecv_cases (U : Rudp) :
    (U.corrupt = true ∧ rudpRecv U = (-1, [], { U with corrupt := false })) ∨
      (U.corrupt = false ∧ (∀ m rest, U.recvQueue = m :: rest → m.id ≠ U.recvIdMin) ∧
        rudpRecv U = (0, [], U)) ∨
      ∃ m rest, U.corrupt = false ∧ U.recvQueue = m :: rest ∧ m.id = U.recvIdMin ∧
        rudpRecv U =
          (m.sz, m.buffer.getD [], { U with recvIdMin := U.recvIdMin + 1, recvQueue := rest }) := by
  unfold rudpRecv
  by_cases hc : U.corrupt = true
  · rw [if_pos hc]
    exact .inl ⟨hc, rfl⟩
  rw [if_neg hc]
  have hfalse : U.corrupt = false := Bool.eq_false_iff.mpr hc
  cases hq : U.recvQueue with
  | nil => exact .inr (.inl ⟨hfalse, fun m rest h => absurd h.symm (List.cons_ne_nil m rest), rfl⟩)
  | cons m rest =>
    rw [queuePop]
    by_cases hid : m.id = U.recvIdMin
    · rw [if_neg (not_not.mpr hid)]
      exact .inr (.inr ⟨m, rest, hfalse, rfl, hid, rfl⟩)
    · rw [if_pos hid]
      refine .inr (.inl ⟨hfalse, fun a l h => ?_, rfl⟩)
      rw [← (List.cons.inj h).1]
      exact hid

/-! ### A message is put into the queue -/

theorem sublist_insertBefore (queue : List Received) (t : Received) :
    queue.Sublist (insertBefore queue t) := by
  induction queue with
  | nil => exact List.Sublist.refl _
  | cons m rest ih =>
    rw [insertBefore]
    split
    · exact List.sublist_cons_self _ _
    · exact ih.cons_cons m

theorem mem_insertBefore {queue : List Received} {t m : Received} (h : m ∈ insertBefore queue t) :
    m = t ∨ m ∈ queue := by
  induction queue with
  | nil => exact .inr h
  | cons a rest ih =>
    rw [insertBefore] at h
    split at h
    · exact List.mem_cons.mp h
    · rcases List.mem_cons.mp h with rfl | h
      · exact .inr List.mem_cons_self
      · exact (ih h).imp_right (List.mem_cons_of_mem a)

/-- It goes in when a greater number waits. -/
theorem mem_insertBefore_self {queue : List Received} {t : Received} (h : ∃ m ∈ queue, t.id < m.id) :
    t ∈ insertBefore queue t := by
  induction queue with
  | nil => exact absurd h (by simp)
  | cons a rest ih =>
    obtain ⟨m, hm, hlt⟩ := h
    rw [insertBefore]
    split
    · exact List.mem_cons_self
    · rename_i ha
      rcases List.mem_cons.mp hm with rfl | hm
      · exact absurd hlt ha
      · exact List.mem_cons_of_mem _ (ih ⟨m, hm, hlt⟩)

theorem sorted_insertBefore {queue : List Received} (t : Received)
    (h : queue.Pairwise fun a b => a.id ≤ b.id) :
    (insertBefore queue t).Pairwise fun a b => a.id ≤ b.id := by
  induction queue with
  | nil => exact h
  | cons a rest ih =>
    obtain ⟨ha, hrest⟩ := List.pairwise_cons.mp h
    rw [insertBefore]
    split
    · rename_i hlt
      refine List.pairwise_cons.mpr ⟨fun m hm => ?_, h⟩
      rcases List.mem_cons.mp hm with rfl | hm
      · omega
      · have := ha m hm
        omega
    · rename_i hge
      refine List.pairwise_cons.mpr ⟨fun m hm => ?_, ih hrest⟩
      rcases mem_insertBefore hm with rfl | hm
      · omega
      · exact ha m hm

/-- A number that is not there does not make one that is there twice. -/
theorem strict_insertBefore {queue : List Received} {t : Received}
    (h : queue.Pairwise fun a b => a.id < b.id) (ht : ∀ m ∈ queue, m.id ≠ t.id) :
    (insertBefore queue t).Pairwise fun a b => a.id < b.id := by
  induction queue with
  | nil => exact h
  | cons a rest ih =>
    obtain ⟨ha, hrest⟩ := List.pairwise_cons.mp h
    have hne := ht a List.mem_cons_self
    rw [insertBefore]
    split
    · rename_i hlt
      refine List.pairwise_cons.mpr ⟨fun m hm => ?_, h⟩
      rcases List.mem_cons.mp hm with rfl | hm
      · exact hlt
      · have := ha m hm
        omega
    · rename_i hge
      refine List.pairwise_cons.mpr ⟨fun m hm => ?_, ih hrest fun m hm => ht m (List.mem_cons_of_mem a hm)⟩
      rcases mem_insertBefore hm with rfl | hm
      · omega
      · exact ha m hm

/-- A number that is there and is not the greatest is there twice afterwards. -/
theorem not_strict_insertBefore {queue : List Received} {t : Received} (ht : ∃ m ∈ queue, m.id = t.id)
    (hgt : ∃ m ∈ queue, t.id < m.id) : ¬ (insertBefore queue t).Pairwise fun a b => a.id < b.id := by
  induction queue with
  | nil => exact absurd ht (by simp)
  | cons a rest ih =>
    obtain ⟨m, hm, hid⟩ := ht
    obtain ⟨g, hg, hlt⟩ := hgt
    intro hstrict
    rw [insertBefore] at hstrict
    split at hstrict
    · -- `t` stands before its equal
      have := List.rel_of_pairwise_cons hstrict hm
      omega
    · rename_i hge
      obtain ⟨ha, hrest⟩ := List.pairwise_cons.mp hstrict
      have hg' : g ∈ rest := by
        rcases List.mem_cons.mp hg with rfl | hg
        · exact absurd hlt hge
        · exact hg
      have hmem := mem_insertBefore_self ⟨g, hg', hlt⟩
      rcases List.mem_cons.mp hm with rfl | hm
      · have := ha t hmem
        omega
      · exact ih ⟨m, hm, hid⟩ ⟨g, hg', hlt⟩ hrest

theorem ascending_iff {id : Int} {queue : List Received} : Ascending id queue ↔
    (∀ m ∈ queue, id ≤ m.id) ∧ queue.Pairwise fun a b => a.id < b.id := by
  induction queue generalizing id with
  | nil => exact ⟨fun _ => ⟨fun _ h => absurd h List.not_mem_nil, List.Pairwise.nil⟩, fun _ => trivial⟩
  | cons a rest ih =>
    rw [Ascending, ih, List.pairwise_cons]
    constructor
    · rintro ⟨ha, hrest, hstrict⟩
      refine ⟨fun m hm => ?_, fun m hm => ?_, hstrict⟩
      · rcases List.mem_cons.mp hm with rfl | hm
        · exact ha
        · have := hrest m hm
          omega
      · have := hrest m hm
        omega
    · rintro ⟨hge, ha, hstrict⟩
      exact ⟨hge a List.mem_cons_self, fun m hm => by have := ha m hm; omega, hstrict⟩

theorem insertBefore_eq_self {queue : List Received} {t : Received} (h : ∀ m ∈ queue, m.id ≤ t.id) :
    insertBefore queue t = queue := by
  induction queue with
  | nil => rfl
  | cons a rest ih =>
    have ha := h a List.mem_cons_self
    rw [insertBefore, if_neg (by omega), ih fun m hm => h m (List.mem_cons_of_mem a hm)]

/-! ## What every run keeps in order -/

/-- The lists of an end. Of the numbers in the receive queue at most one has been received already. -/
structure Ordered (U : Rudp) : Prop where
  queue_sorted : U.recvQueue.Pairwise fun a b => a.id ≤ b.id
  queue_ge : ∀ m ∈ U.recvQueue, U.recvIdMin ≤ m.id + 1
  queue_le : ∀ m ∈ U.recvQueue, m.id ≤ U.recvIdMax
  queue_max : U.recvQueue ≠ [] → ∃ m ∈ U.recvQueue, m.id = U.recvIdMax
  again_sorted : U.sendAgain.Pairwise (· < ·)
  sent_sorted : (U.sendHistory ++ U.sendQueue).Pairwise fun a b => a.id < b.id
  sent_lt : ∀ m ∈ U.sendHistory ++ U.sendQueue, m.id < U.sendId

theorem mem_arrayInsert {a : List Int} {id x : Int} : x ∈ arrayInsert a id ↔ x = id ∨ x ∈ a := by
  induction a with
  | nil => simp [arrayInsert]
  | cons y rest ih =>
    rw [arrayInsert]
    split
    · rename_i hy
      rw [List.mem_cons, hy]
      tauto
    · split
      · exact List.mem_cons
      · rw [List.mem_cons, ih, List.mem_cons]
        tauto

theorem sorted_arrayInsert {a : List Int} (id : Int) (h : a.Pairwise (· < ·)) :
    (arrayInsert a id).Pairwise (· < ·) := by
  induction a with
  | nil => exact List.pairwise_singleton _ _
  | cons y rest ih =>
    obtain ⟨hy, hrest⟩ := List.pairwise_cons.mp h
    rw [arrayInsert]
    split
    · exact h
    · split
      · rename_i hlt
        refine List.pairwise_cons.mpr ⟨fun x hx => ?_, h⟩
        rcases List.mem_cons.mp hx with rfl | hx
        · exact hlt
        · have := hy x hx
          omega
      · refine List.pairwise_cons.mpr ⟨fun x hx => ?_, ih hrest⟩
        rcases mem_arrayInsert.mp hx with rfl | hx
        · omega
        · exact hy x hx

namespace Ordered

/-! ### `Ordered` and the steps -/

theorem new (sendDelay expiredTime : Int) : Ordered (rudpNew sendDelay expiredTime) where
  queue_sorted := List.Pairwise.nil
  queue_ge := by simp [rudpNew]
  queue_le := by simp [rudpNew]
  queue_max h := absurd rfl h
  again_sorted := List.Pairwise.nil
  sent_sorted := List.Pairwise.nil
  sent_lt := by simp [rudpNew]

variable {U : Rudp}

theorem again (h : Ordered U) (id : Int) : Ordered { U with sendAgain := arrayInsert U.sendAgain id } :=
  { h with again_sorted := sorted_arrayInsert id h.again_sorted }

theorem insertMessage (h : Ordered U) (id : Int) (buffer : Option Bytes) :
    Ordered (insertMessage U id buffer) := by
  rcases insertMessage_cases U id buffer with ⟨-, heq⟩ | ⟨hmin, hend, heq⟩ | ⟨hmin, hmax, hne, heq⟩
  · rw [heq]
    exact h
  · have hle : ∀ m ∈ U.recvQueue, m.id ≤ id := by
      intro m hm
      rcases hend with hlt | hnil
      · have := h.queue_le m hm
        omega
      · rw [hnil] at hm
        cases hm
    rw [heq]
    refine { h with queue_sorted := ?_, queue_ge := ?_, queue_le := ?_, queue_max := fun _ => ?_ }
    · refine List.pairwise_append.mpr ⟨h.queue_sorted, List.pairwise_singleton _ _, ?_⟩
      intro a ha b hb
      rw [List.mem_singleton.mp hb]
      exact hle a ha
    · intro m hm
      rcases List.mem_append.mp hm with hm | hm
      · exact h.queue_ge m hm
      · rw [List.mem_singleton.mp hm]
        show U.recvIdMin ≤ id + 1
        omega
    · intro m hm
      rcases List.mem_append.mp hm with hm | hm
      · exact hle m hm
      · rw [List.mem_singleton.mp hm]
    · exact ⟨⟨id, buffer⟩, List.mem_append_right _ (List.mem_singleton.mpr rfl), rfl⟩
  · rw [heq]
    refine { h with queue_sorted := ?_, queue_ge := ?_, queue_le := ?_, queue_max := fun _ => ?_ }
    · exact sorted_insertBefore _ h.queue_sorted
    · intro m hm
      rcases mem_insertBefore hm with rfl | hm
      · show U.recvIdMin ≤ id + 1
        omega
      · exact h.queue_ge m hm
    · intro m hm
      rcases mem_insertBefore hm with rfl | hm
      · exact hmax
      · exact h.queue_le m hm
    · obtain ⟨m, hm, hid⟩ := h.queue_max hne
      exact ⟨m, (sublist_insertBefore _ _).subset hm, hid⟩

theorem accept (h : Ordered U) (s : Segment Low) : Ordered (accept U s) := by
  cases s with
  | ignore =>
    show Ordered (onIgnore U)
    unfold onIgnore
    split
    · exact h.again _
    · exact h
  | request id => exact h.again _
  | missing id => exact h.insertMessage _ _
  | normal id payload => exact h.insertMessage _ _

theorem expire (h : Ordered U) : Ordered (expire U) := by
  unfold Rudp.expire
  split
  · have hsub : (U.sendHistory.dropWhile (fun m => m.tick < U.lastExpiredTick) ++ U.sendQueue).Sublist
        (U.sendHistory ++ U.sendQueue) :=
      (List.dropWhile_sublist _).append (List.Sublist.refl _)
    exact { h with
      sent_sorted := h.sent_sorted.sublist hsub
      sent_lt := fun m hm => h.sent_lt m (hsub.subset hm) }
  · exact h

theorem received (h : Ordered U) (buffer : Bytes) (tick : Int) : Ordered (received U buffer tick) := by
  apply Ordered.expire
  apply extractPackage_invariant (I := Ordered)
  · exact fun V s hV => hV.accept s
  · exact fun V hV => { hV with }
  · exact { h with }

theorem handOver (h : Ordered U) : Ordered (handOver U) where
  queue_sorted := h.queue_sorted
  queue_ge := h.queue_ge
  queue_le := h.queue_le
  queue_max := h.queue_max
  again_sorted := List.Pairwise.nil
  sent_sorted := by
    show ((U.sendHistory ++ U.sendQueue) ++ []).Pairwise _
    rw [List.append_nil]
    exact h.sent_sorted
  sent_lt m hm := by
    change m ∈ (U.sendHistory ++ U.sendQueue) ++ [] at hm
    rw [List.append_nil] at hm
    exact h.sent_lt m hm

theorem recv (h : Ordered U) : Ordered (rudpRecv U).2.2 := by
  rcases rudpRecv_cases U with ⟨-, heq⟩ | ⟨-, -, heq⟩ | ⟨m, rest, -, hq, hid, heq⟩
  · rw [heq]
    exact { h with }
  · rw [heq]
    exact h
  · have hsorted := h.queue_sorted
    have hle := h.queue_le
    rw [hq] at hsorted hle
    obtain ⟨hm, hrest⟩ := List.pairwise_cons.mp hsorted
    rw [heq]
    refine { h with queue_sorted := hrest, queue_ge := ?_, queue_le := ?_, queue_max := ?_ }
    · intro a ha
      have := hm a ha
      show U.recvIdMin + 1 ≤ a.id + 1
      omega
    · exact fun a ha => hle a (List.mem_cons_of_mem m ha)
    · intro hne
      -- the greatest number is at the end, behind the head that goes
      obtain ⟨g, hg, hgid⟩ := h.queue_max (by rw [hq]; exact List.cons_ne_nil _ _)
      obtain ⟨b, hb⟩ := List.exists_mem_of_ne_nil _ hne
      rw [hq] at hg
      rcases List.mem_cons.mp hg with rfl | hg
      · have h1 := hm b hb
        have h2 := hle b (List.mem_cons_of_mem _ hb)
        exact ⟨b, hb, by show b.id = U.recvIdMax; omega⟩
      · exact ⟨g, hg, hgid⟩

theorem send (h : Ordered U) {buffer : Bytes} {U' : Rudp} (hs : rudpSend U buffer = some U') :
    Ordered U' := by
  unfold rudpSend at hs
  split at hs
  · cases hs
    refine { h with sent_sorted := ?_, sent_lt := ?_ }
    · show (U.sendHistory ++ (U.sendQueue ++ [_])).Pairwise _
      rw [← List.append_assoc]
      refine List.pairwise_append.mpr ⟨h.sent_sorted, List.pairwise_singleton _ _, ?_⟩
      intro a ha b hb
      rw [List.mem_singleton.mp hb]
      exact h.sent_lt a ha
    · intro m hm
      change m ∈ U.sendHistory ++ (U.sendQueue ++ [_]) at hm
      show m.id < U.sendId + 1
      rw [← List.append_assoc] at hm
      rcases List.mem_append.mp hm with hm | hm
      · have := h.sent_lt m hm
        omega
      · rw [List.mem_singleton.mp hm]
        show U.sendId < U.sendId + 1
        omega
  · cases hs

theorem act (h : Ordered U) {a : Action} {U' : Rudp} (hs : act U a = some U') : Ordered U' := by
  cases a with
  | send buffer => exact h.send hs
  | recv =>
    cases hs
    exact h.recv
  | update buffer tick =>
    obtain ⟨p, hp, rfl⟩ := Option.map_eq_some_iff.mp hs
    rcases rudpUpdate_cases hp with ⟨-, -, heq⟩ | ⟨-, -, -, heq⟩
    · rw [heq]
      exact h.received buffer tick
    · rw [heq]
      exact { (h.received buffer tick).handOver with }

end Ordered

/-- In order in every state of every run, whatever the datagrams are. -/
theorem ordered_of_reach {sendDelay expiredTime : Int} {U : Rudp}
    (h : (endpoint sendDelay expiredTime).Reach U) : Ordered U := by
  refine Machine.ReachUnder.invariant Ordered ?_ ?_ h
  · rintro s rfl
    exact Ordered.new sendDelay expiredTime
  · intro s a s' _ hs _ hstep
    exact hs.act hstep

/-! ## The replies -/

/-- The reply to a number: the message if it is in the history, and that it is missing if not. -/
def replyTo (history : List Message) (id : Int) : Segment Int :=
  match history.find? fun m => m.id = id with
  | some m => m.segment
  | none => .missing id

/-- What is passed over on the way to a number is no message of a greater one. -/
theorem find?_dropWhile (history : List Message) {id id' : Int} (h : id ≤ id') :
    ((history.dropWhile fun m => m.id < id).find? fun m => m.id = id') =
      history.find? fun m => m.id = id' := by
  induction history with
  | nil => rfl
  | cons m rest ih =>
    by_cases hm : m.id < id
    · rw [List.dropWhile_cons_of_pos (by simpa using hm), ih,
        List.find?_cons_of_neg (by simp only [decide_eq_true_eq]; omega)]
    · rw [List.dropWhile_cons_of_neg (by simpa using hm)]

theorem replyTo_dropWhile (history : List Message) {id id' : Int} (h : id ≤ id') :
    replyTo (history.dropWhile fun m => m.id < id) id' = replyTo history id' := by
  unfold replyTo
  rw [find?_dropWhile history h]

/-- Where the walk stops for a number. -/
theorem replyTo_of_dropWhile {history : List Message} (id : Int)
    (hs : history.Pairwise fun a b => a.id < b.id) :
    replyTo history id =
      match history.dropWhile fun m => m.id < id with
      | [] => .missing id
      | m :: _ => if id < m.id then .missing id else m.segment := by
  rw [← replyTo_dropWhile history (Int.le_refl id)]
  have hsub := hs.sublist (List.dropWhile_sublist fun m => decide (m.id < id))
  cases hd : history.dropWhile fun m => m.id < id with
  | nil => rfl
  | cons m rest =>
    have hm : ¬ m.id < id := by
      have hhead := List.head?_dropWhile_not (fun m : Message => decide (m.id < id)) history
      rw [hd] at hhead
      exact of_decide_eq_false hhead
    rw [hd] at hsub
    obtain ⟨hgt, -⟩ := List.pairwise_cons.mp hsub
    dsimp only
    by_cases hlt : id < m.id
    · have hnone : ((m :: rest).find? fun m => m.id = id) = none := by
        rw [List.find?_eq_none]
        intro a ha
        simp only [decide_eq_true_eq]
        rcases List.mem_cons.mp ha with rfl | ha
        · omega
        · have := hgt a ha
          omega
      rw [if_pos hlt, replyTo, hnone]
    · have hsome : ((m :: rest).find? fun m => m.id = id) = some m :=
        List.find?_cons_of_pos (by simp only [decide_eq_true_eq]; omega)
      rw [if_neg hlt, replyTo, hsome]

/-- One walk over the history gives what a lookup for each number would. -/
theorem replies_eq_map (recvIdMin : Int) {ids : List Int} {history : List Message}
    (hids : ids.Pairwise (· < ·)) (hhist : history.Pairwise fun a b => a.id < b.id) :
    replies recvIdMin ids history =
      (ids.filter fun id => recvIdMin ≤ id).map (replyTo history) := by
  induction ids generalizing history with
  | nil => rfl
  | cons id rest ih =>
    obtain ⟨hid, hrest⟩ := List.pairwise_cons.mp hids
    have hsub := hhist.sublist (List.dropWhile_sublist fun m => decide (m.id < id))
    have hlater : (rest.filter fun id => recvIdMin ≤ id).map
          (replyTo (history.dropWhile fun m => m.id < id)) =
        (rest.filter fun id => recvIdMin ≤ id).map (replyTo history) := by
      apply List.map_congr_left
      intro a ha
      exact replyTo_dropWhile history (Int.le_of_lt (hid a (List.mem_of_mem_filter ha)))
    have hthis := replyTo_of_dropWhile id hhist
    rw [replies]
    by_cases hold : id < recvIdMin
    · rw [if_pos hold, List.filter_cons_of_neg (by simpa using hold), ih hrest hhist]
    rw [if_neg hold, List.filter_cons_of_pos (by simpa using hold), List.map_cons, hthis, ← hlater]
    cases hd : history.dropWhile fun m => m.id < id with
    | nil =>
      rw [hd] at hsub
      exact congrArg _ (ih hrest hsub)
    | cons m history' =>
      rw [hd] at hsub
      exact congrArg _ (ih hrest hsub)

/-- In every state that an end comes to, whatever datagrams it was given, it replies to the numbers that
are asked for in ascending order and to each of them once: with the message while the history has it, with
`TYPE_MISSING` after that. Numbers below the one it waits for itself are passed over. -/
theorem replies_eq {sendDelay expiredTime : Int} {U : Rudp}
    (h : (endpoint sendDelay expiredTime).Reach U) :
    replies U.recvIdMin U.sendAgain U.sendHistory =
      (U.sendAgain.filter fun id => U.recvIdMin ≤ id).map (replyTo U.sendHistory) := by
  have hord := ordered_of_reach h
  exact replies_eq_map U.recvIdMin hord.again_sorted (List.pairwise_append.mp hord.sent_sorted).1

/-- The second package asks for a message that was sent and for one that never was. -/
theorem replies_eq_resend : ∃ U, (endpoint 1 5).exec (rudpNew 1 5)
      [.send [7], .update [] 1, .update [2, 0, 9, 2, 0, 0] 0] = some U ∧
      replies U.recvIdMin U.sendAgain U.sendHistory =
        (U.sendAgain.filter fun id => U.recvIdMin ≤ id).map (replyTo U.sendHistory) := by
  have hrun : ∃ U, (endpoint 1 5).exec (rudpNew 1 5)
      [.send [7], .update [] 1, .update [2, 0, 9, 2, 0, 0] 0] = some U := ⟨_, rfl⟩
  obtain ⟨U, hU⟩ := hrun
  have hreach : (endpoint 1 5).Reach U := Machine.Reach.exec (.start rfl) hU
  exact ⟨U, hU, replies_eq hreach⟩

/-! ### The requests -/

/-- The requests are those for the numbers that are not in the queue and have a greater one there. -/
theorem mem_missingRequests_iff {id x : Int} {queue : List Received} (h : Ascending id queue) :
    .request x ∈ missingRequests id queue ↔
      id ≤ x ∧ (∃ m ∈ queue, x < m.id) ∧ ∀ m ∈ queue, m.id ≠ x := by
  have hgap (n : Nat) : ∀ i, .request x ∈ gapRequests i n ↔ i ≤ x ∧ x < i + n := by
    induction n with
    | zero =>
      intro i
      constructor
      · exact fun hmem => absurd hmem List.not_mem_nil
      · omega
    | succ n ih =>
      intro i
      rw [gapRequests, List.mem_cons, ih, Segment.request.injEq]
      omega
  induction queue generalizing id with
  | nil =>
    constructor
    · exact fun hmem => absurd hmem List.not_mem_nil
    · rintro ⟨-, ⟨m, hm, -⟩, -⟩
      cases hm
  | cons m rest ih =>
    have hrest := (ascending_iff.mp h.2).1
    have hlater : .request x ∈ missingRequests (m.id + 1) rest ↔
        m.id + 1 ≤ x ∧ (∃ a ∈ rest, x < a.id) ∧ ∀ a ∈ rest, a.id ≠ x := ih h.2
    rw [missingRequests, List.mem_append, hgap, hlater]
    have hid : ((m.id - id).toNat : Int) = m.id - id := Int.toNat_of_nonneg (by have := h.1; omega)
    constructor
    · rintro (⟨h1, h2⟩ | ⟨h1, ⟨a, ha, hlt⟩, hne⟩)
      · refine ⟨h1, ⟨m, List.mem_cons_self, by omega⟩, fun a ha => ?_⟩
        rcases List.mem_cons.mp ha with rfl | ha
        · omega
        · have := hrest a ha
          omega
      · refine ⟨by have := h.1; omega, ⟨a, List.mem_cons_of_mem m ha, hlt⟩, fun b hb => ?_⟩
        rcases List.mem_cons.mp hb with rfl | hb
        · omega
        · exact hne b hb
    · rintro ⟨h1, ⟨a, ha, hlt⟩, hne⟩
      have hm := hne m List.mem_cons_self
      by_cases hx : x < m.id
      · exact .inl ⟨h1, by omega⟩
      · refine .inr ⟨by omega, ⟨a, ?_, hlt⟩, fun b hb => hne b (List.mem_cons_of_mem m hb)⟩
        rcases List.mem_cons.mp ha with rfl | ha
        · omega
        · exact ha

theorem mem_replies {recvIdMin : Int} {ids : List Int} {history : List Message} {s : Segment Int}
    (h : s ∈ replies recvIdMin ids history) :
    (∃ id, s = .missing id) ∨ ∃ m ∈ history, s = m.segment := by
  induction ids generalizing history with
  | nil => cases h
  | cons id rest ih =>
    rw [replies] at h
    split at h
    · exact ih h
    · have hsub := List.dropWhile_sublist (l := history) fun m => decide (m.id < id)
      cases hd : history.dropWhile fun m => m.id < id with
      | nil =>
        rw [hd] at h
        rcases List.mem_cons.mp h with rfl | h
        · exact .inl ⟨id, rfl⟩
        · rcases ih h with h | ⟨m, hm, -⟩
          · exact .inl h
          · cases hm
      | cons m history' =>
        rw [hd] at h hsub
        rcases List.mem_cons.mp h with rfl | h
        · split
          · exact .inl ⟨id, rfl⟩
          · exact .inr ⟨m, hsub.subset List.mem_cons_self, rfl⟩
        · rcases ih h with h | ⟨a, ha, hs⟩
          · exact .inl h
          · exact .inr ⟨a, hsub.subset ha, hs⟩

theorem mem_missingRequests {id : Int} {queue : List Received} {s : Segment Int}
    (h : s ∈ missingRequests id queue) : ∃ x, s = .request x := by
  have hgap (n : Nat) : ∀ i, s ∈ gapRequests i n → ∃ x, s = .request x := by
    induction n with
    | zero =>
      intro i hs
      cases hs
    | succ n ih =>
      intro i hs
      rcases List.mem_cons.mp hs with rfl | hs
      · exact ⟨i, rfl⟩
      · exact ih (i + 1) hs
  induction queue generalizing id with
  | nil => cases h
  | cons m queue ih =>
    rcases List.mem_append.mp h with h | h
    · exact hgap _ _ h
    · exact ih h

theorem replyTo_eq_missing {history : List Message} {id x : Int} :
    replyTo history id = .missing x ↔ id = x ∧ ∀ m ∈ history, m.id ≠ id := by
  unfold replyTo
  cases hf : history.find? fun m => m.id = id with
  | none =>
    have hno := List.find?_eq_none.mp hf
    dsimp only
    rw [Segment.missing.injEq]
    exact ⟨fun h => ⟨h, fun m hm hid => hno m hm (decide_eq_true hid)⟩, fun h => h.1⟩
  | some m =>
    constructor
    · intro h
      cases h
    · rintro ⟨-, hno⟩
      have hid := List.find?_some hf
      exact absurd (of_decide_eq_true hid) (hno m (List.mem_of_find?_eq_some hf))

theorem replyTo_eq_normal {history : List Message} (hs : history.Pairwise fun a b => a.id < b.id)
    {id x : Int} {payload : Payload} : replyTo history id = .normal x payload ↔
      id = x ∧ ∃ m ∈ history, m.id = x ∧ m.buffer = payload.1 := by
  unfold replyTo
  cases hf : history.find? fun m => m.id = id with
  | none =>
    have hno := List.find?_eq_none.mp hf
    constructor
    · intro h
      cases h
    · rintro ⟨rfl, m, hm, hid, -⟩
      exact absurd (decide_eq_true hid) (hno m hm)
  | some m =>
    have hmem := List.mem_of_find?_eq_some hf
    have hfound := List.find?_some hf
    have hid : m.id = id := of_decide_eq_true hfound
    constructor
    · intro h
      obtain ⟨hx, hp⟩ := Segment.normal.inj h
      exact ⟨hid.symm.trans hx, m, hmem, hx, congrArg Subtype.val hp⟩
    · rintro ⟨rfl, a, ha, haid, hbuf⟩
      -- no two messages of the history have one number
      have hnodup : (history.map Message.id).Nodup := by
        apply List.pairwise_map.mpr
        exact hs.imp fun h => Int.ne_of_lt h
      have ham : a = m := List.inj_on_of_nodup_map hnodup ha hmem (haid.trans hid.symm)
      subst ham
      show Segment.normal a.id ⟨a.buffer, _⟩ = _
      rw [haid]
      congr 1
      exact Subtype.ext hbuf

/-- What an end sends, in every state it comes to in which `request_missing` does not fail: it asks for
the numbers that are missing in front of a message of its queue and for no others; it sends a message for
the first time, or again when it is asked for, is still in the history and has a number that is not below
the one the end itself waits for; and under this condition too it says that a message is missing. -/
theorem mem_content_iff {sendDelay expiredTime : Int} {U : Rudp}
    (h : (endpoint sendDelay expiredTime).Reach U) (hasc : Ascending U.recvIdMin U.recvQueue) :
    (∀ id, .request id ∈ content U ↔
      U.recvIdMin ≤ id ∧ (∃ m ∈ U.recvQueue, id < m.id) ∧ ∀ m ∈ U.recvQueue, m.id ≠ id) ∧
    (∀ id payload, .normal id payload ∈ content U ↔
      (∃ m ∈ U.sendQueue, m.id = id ∧ m.buffer = payload.1) ∨
        (id ∈ U.sendAgain ∧ U.recvIdMin ≤ id ∧
          ∃ m ∈ U.sendHistory, m.id = id ∧ m.buffer = payload.1)) ∧
    (∀ id, .missing id ∈ content U ↔
      id ∈ U.sendAgain ∧ U.recvIdMin ≤ id ∧ ∀ m ∈ U.sendHistory, m.id ≠ id) := by
  have hhist := (List.pairwise_append.mp (ordered_of_reach h).sent_sorted).1
  have hreply (s : Segment Int) : s ∈ replies U.recvIdMin U.sendAgain U.sendHistory ↔
      ∃ id ∈ U.sendAgain, U.recvIdMin ≤ id ∧ replyTo U.sendHistory id = s := by
    rw [replies_eq h, List.mem_map]
    simp only [List.mem_filter, decide_eq_true_eq, and_assoc]
  have hmissing (s : Segment Int) (hs : s ∈ missingRequests U.recvIdMin U.recvQueue) :
      ∃ x, s = .request x := mem_missingRequests hs
  have hcontent (s : Segment Int) : s ∈ content U ↔
      s ∈ missingRequests U.recvIdMin U.recvQueue ∨
        s ∈ replies U.recvIdMin U.sendAgain U.sendHistory ∨ ∃ m ∈ U.sendQueue, m.segment = s := by
    rw [content, List.mem_append, List.mem_append, List.mem_map, or_assoc]
  refine ⟨fun id => ?_, fun id payload => ?_, fun id => ?_⟩
  · rw [hcontent, mem_missingRequests_iff hasc]
    constructor
    · rintro (hs | hs | ⟨m, -, hs⟩)
      · exact hs
      · rcases mem_replies hs with ⟨x, hx⟩ | ⟨m, -, hm⟩
        · cases hx
        · cases hm
      · cases hs
    · exact .inl
  · rw [hcontent, hreply]
    constructor
    · rintro (hs | ⟨x, hx, hmin, hs⟩ | ⟨m, hm, hs⟩)
      · obtain ⟨x, hx⟩ := hmissing _ hs
        cases hx
      · obtain ⟨rfl, hin⟩ := (replyTo_eq_normal hhist).mp hs
        exact .inr ⟨hx, hmin, hin⟩
      · obtain ⟨rfl, rfl⟩ := Segment.normal.inj hs
        exact .inl ⟨m, hm, rfl, rfl⟩
    · rintro (⟨m, hm, rfl, hbuf⟩ | ⟨hx, hmin, hin⟩)
      · refine .inr (.inr ⟨m, hm, ?_⟩)
        exact congrArg (Segment.normal m.id) (Subtype.ext hbuf)
      · exact .inr (.inl ⟨id, hx, hmin, (replyTo_eq_normal hhist).mpr ⟨rfl, hin⟩⟩)
  · rw [hcontent, hreply]
    constructor
    · rintro (hs | ⟨x, hx, hmin, hs⟩ | ⟨m, hm, hs⟩)
      · obtain ⟨x, hx⟩ := hmissing _ hs
        cases hx
      · obtain ⟨rfl, hno⟩ := replyTo_eq_missing.mp hs
        exact ⟨hx, hmin, hno⟩
      · cases hs
    · rintro ⟨hx, hmin, hno⟩
      exact .inr (.inl ⟨id, hx, hmin, replyTo_eq_missing.mpr ⟨rfl, hno⟩⟩)

/-- The gap in front of the message that comes is asked for. -/
theorem mem_content_iff_gap : ∃ U, (endpoint 5 5).exec (rudpNew 5 5)
      [.update [5, 0, 2, 8] 0] = some U ∧ .request 1 ∈ content U := by
  have hrun : ∃ U, (endpoint 5 5).exec (rudpNew 5 5) [.update [5, 0, 2, 8] 0] = some U ∧
      U.recvIdMin = 0 ∧ U.recvQueue = [⟨2, some [8]⟩] := ⟨_, rfl, rfl, rfl⟩
  obtain ⟨U, hU, hmin, hq⟩ := hrun
  have hreach : (endpoint 5 5).Reach U := Machine.Reach.exec (.start rfl) hU
  have hasc : Ascending U.recvIdMin U.recvQueue := by
    rw [hmin, hq]
    exact ⟨by decide, trivial⟩
  refine ⟨U, hU, ((mem_content_iff hreach hasc).1 1).mpr ?_⟩
  rw [hmin, hq]
  decide

/-! ## A message that comes twice -/

/-- The number is not one that waits in the queue below its end. -/
def Fresh (U : Rudp) (id : Int) : Prop := (∃ m ∈ U.recvQueue, m.id = id) → id = U.recvIdMax

/-- The number that a segment puts into the queue. -/
def FreshSegment (U : Rudp) : Segment Low → Prop
  | .ignore | .request _ => True
  | .missing id | .normal id _ => Fresh U (getId U id.1 id.2)

/-- The segments of a package, each in the state it comes to. -/
def FreshSegments (U : Rudp) : List (Segment Low) → Prop
  | [] => True
  | s :: rest => FreshSegment U s ∧ FreshSegments (accept U s) rest

/-- No message that waits below the end of the queue comes again. -/
def FreshAction (U : Rudp) : Action → Prop
  | .update buffer tick =>
    FreshSegments { U with currentTick := U.currentTick + tick } (wire.readAll buffer).1
  | _ => True

/-- What `request_missing` asserts of an end. -/
def Sound (U : Rudp) : Prop := Ascending U.recvIdMin U.recvQueue

/-! ### The steps that keep the queue ascending -/

theorem sound_insertMessage {U : Rudp} (h : Ordered U) (id : Int) (buffer : Option Bytes) :
    Sound (insertMessage U id buffer) ↔ Sound U ∧ Fresh U id := by
  unfold Sound
  simp only [ascending_iff]
  rcases insertMessage_cases U id buffer with ⟨hold, heq⟩ | ⟨hmin, hend, heq⟩ | ⟨hmin, hmax, hne, heq⟩
  · rw [heq]
    refine ⟨fun hs => ⟨hs, ?_⟩, fun hs => hs.1⟩
    rintro ⟨m, hm, rfl⟩
    have := hs.1 m hm
    omega
  · have hlt : ∀ m ∈ U.recvQueue, m.id < id := by
      intro m hm
      rcases hend with hlt | hnil
      · have := h.queue_le m hm
        omega
      · rw [hnil] at hm
        cases hm
    rw [heq]
    constructor
    · rintro ⟨hge, hstrict⟩
      refine ⟨⟨fun m hm => hge m (List.mem_append_left _ hm), (List.pairwise_append.mp hstrict).1⟩, ?_⟩
      rintro ⟨m, hm, hid⟩
      have := hlt m hm
      omega
    · rintro ⟨⟨hge, hstrict⟩, -⟩
      refine ⟨fun m hm => ?_, List.pairwise_append.mpr ⟨hstrict, List.pairwise_singleton _ _, ?_⟩⟩
      · rcases List.mem_append.mp hm with hm | hm
        · exact hge m hm
        · rw [List.mem_singleton.mp hm]
          exact hmin
      · intro a ha b hb
        rw [List.mem_singleton.mp hb]
        exact hlt a ha
  · rw [heq]
    constructor
    · rintro ⟨hge, hstrict⟩
      have hsub := sublist_insertBefore U.recvQueue ⟨id, buffer⟩
      refine ⟨⟨fun m hm => hge m (hsub.subset hm), hstrict.sublist hsub⟩, ?_⟩
      rintro ⟨m, hm, hid⟩
      by_contra hlast
      -- the end of the queue has a greater number, so that the walk stops in front of it
      obtain ⟨g, hg, hgid⟩ := h.queue_max hne
      exact not_strict_insertBefore (t := ⟨id, buffer⟩) ⟨m, hm, hid⟩
        ⟨g, hg, by show id < g.id; omega⟩ hstrict
    · rintro ⟨⟨hge, hstrict⟩, hfresh⟩
      by_cases hin : ∃ m ∈ U.recvQueue, m.id = id
      · have hlast := hfresh hin
        have hself : insertBefore U.recvQueue ⟨id, buffer⟩ = U.recvQueue := by
          apply insertBefore_eq_self
          intro m hm
          have := h.queue_le m hm
          show m.id ≤ id
          omega
        rw [hself]
        exact ⟨hge, hstrict⟩
      · refine ⟨fun m hm => ?_, strict_insertBefore hstrict fun m hm hid => hin ⟨m, hm, hid⟩⟩
        rcases mem_insertBefore hm with rfl | hm
        · exact hmin
        · exact hge m hm

theorem sound_accept {U : Rudp} (h : Ordered U) (s : Segment Low) :
    Sound (accept U s) ↔ Sound U ∧ FreshSegment U s := by
  cases s with
  | ignore =>
    have hsame : Sound (onIgnore U) ↔ Sound U := by
      unfold onIgnore
      split <;> exact Iff.rfl
    exact hsame.trans (and_iff_left (a := Sound U) trivial).symm
  | request id => exact (and_iff_left (a := Sound U) trivial).symm
  | missing id => exact sound_insertMessage h _ _
  | normal id payload => exact sound_insertMessage h _ _

theorem sound_foldl {U : Rudp} (h : Ordered U) (segs : List (Segment Low)) :
    Sound (segs.foldl accept U) ↔ Sound U ∧ FreshSegments U segs := by
  induction segs generalizing U with
  | nil => exact (and_iff_left (a := Sound U) trivial).symm
  | cons s segs ih =>
    rw [List.foldl_cons, ih (h.accept s), sound_accept h]
    exact and_assoc

theorem sound_received {U : Rudp} (h : Ordered U) (buffer : Bytes) (tick : Int) :
    Sound (received U buffer tick) ↔ Sound U ∧ FreshAction U (.update buffer tick) := by
  have hexpire (V : Rudp) : Sound (expire V) ↔ Sound V := by
    unfold expire
    split <;> exact Iff.rfl
  have hstop (V : Rudp) (rest : Bytes) : Sound (stopAt V rest) ↔ Sound V := by
    unfold stopAt
    split <;> exact Iff.rfl
  have hord : Ordered { U with currentTick := U.currentTick + tick } := { h with }
  unfold received
  rw [hexpire, extractPackage_eq, hstop, sound_foldl hord]
  exact Iff.rfl

theorem sound_recv (U : Rudp) : Sound (rudpRecv U).2.2 ↔ Sound U := by
  rcases rudpRecv_cases U with ⟨-, heq⟩ | ⟨-, -, heq⟩ | ⟨m, rest, -, hq, hid, heq⟩
  · rw [heq]
    exact Iff.rfl
  · rw [heq]
  · rw [heq]
    unfold Sound
    rw [hq, Ascending, hid]
    exact ⟨fun h => ⟨Int.le_refl _, h⟩, fun h => h.2⟩

theorem sound_act {U U' : Rudp} {a : Action} (h : Ordered U) (hs : act U a = some U') :
    Sound U' ↔ Sound U ∧ FreshAction U a := by
  cases a with
  | send buffer =>
    have hsame : Sound U' ↔ Sound U := by
      change rudpSend U buffer = some U' at hs
      unfold rudpSend at hs
      split at hs
      · cases hs
        exact Iff.rfl
      · cases hs
    exact hsame.trans (and_iff_left (a := Sound U) trivial).symm
  | recv =>
    cases hs
    exact (sound_recv U).trans (and_iff_left (a := Sound U) trivial).symm
  | update buffer tick =>
    obtain ⟨p, hp, rfl⟩ := Option.map_eq_some_iff.mp hs
    rw [← sound_received h]
    rcases rudpUpdate_cases hp with ⟨-, -, heq⟩ | ⟨-, -, -, heq⟩
    · rw [heq]
    · rw [heq]
      exact Iff.rfl

/-- Over every run and every row of datagrams: the assertion of `request_missing` holds at the end exactly
when no message came again while it waited in the receive queue below its end. -/
theorem ascending_iff_fresh {sendDelay expiredTime : Int} {actions : List Action} {U : Rudp}
    (h : (endpoint sendDelay expiredTime).exec (rudpNew sendDelay expiredTime) actions = some U) :
    Ascending U.recvIdMin U.recvQueue ↔
      (endpoint sendDelay expiredTime).Meets FreshAction (rudpNew sendDelay expiredTime) actions := by
  have hany : ∀ (actions : List Action) (V : Rudp), Ordered V →
      (endpoint sendDelay expiredTime).exec V actions = some U →
      (Sound U ↔ Sound V ∧ (endpoint sendDelay expiredTime).Meets FreshAction V actions) := by
    intro actions
    induction actions with
    | nil =>
      intro V _ hexec
      obtain rfl := Option.some.inj hexec
      exact (and_iff_left (a := Sound V) trivial).symm
    | cons a actions ih =>
      intro V hV hexec
      obtain ⟨W, hW, hrest⟩ := Option.bind_eq_some_iff.mp hexec
      rw [ih W (hV.act hW) hrest, sound_act hV hW, and_assoc]
      refine and_congr_right fun _ => and_congr_right fun _ => ?_
      constructor
      · intro hmeets s' hs'
        obtain rfl := Option.some.inj (hW.symm.trans hs')
        exact hmeets
      · intro hmeets
        exact hmeets W hW
  have hstart : Sound (rudpNew sendDelay expiredTime) := trivial
  exact (hany actions _ (Ordered.new sendDelay expiredTime) h).trans (and_iff_right hstart)

/-- Three messages, the second of which comes again while the third waits behind it. -/
def repeated : Bytes := [4, 0, 1, 4, 0, 2, 4, 0, 3, 4, 0, 2]

theorem ascending_iff_fresh_repeated :
    ¬ (endpoint 5 5).Meets FreshAction (rudpNew 5 5) [.update repeated 0] := by
  have hrun : ∃ U, (endpoint 5 5).exec (rudpNew 5 5) [.update repeated 0] = some U ∧
      U.recvQueue = [⟨1, some []⟩, ⟨2, some []⟩, ⟨2, some []⟩, ⟨3, some []⟩] := ⟨_, rfl, rfl⟩
  obtain ⟨U, hU, hq⟩ := hrun
  intro hmeets
  have hasc := (ascending_iff_fresh hU).mpr hmeets
  rw [hq] at hasc
  exact absurd hasc.2.2.1 (by decide)

/-! ## The queue after such a message -/

/-- How often a number waits. -/
def waiting (U : Rudp) (x : Int) : Nat := U.recvQueue.countP fun m => m.id = x

/-- A number waits twice, or it was received and still waits. -/
def Stalled (x : Int) (U : Rudp) : Prop :=
  2 ≤ waiting U x ∨ (1 ≤ waiting U x ∧ U.recvIdMin = x + 1)

namespace Stalled

/-! ### `Stalled` and the steps -/

variable {x : Int} {U : Rudp}

/-- More messages change nothing. -/
theorem of_sublist {V : Rudp} (h : Stalled x U) (hsub : U.recvQueue.Sublist V.recvQueue)
    (hmin : V.recvIdMin = U.recvIdMin) : Stalled x V := by
  have hle : waiting U x ≤ waiting V x := hsub.countP_le
  rcases h with h | ⟨h, hx⟩
  · exact .inl (by omega)
  · exact .inr ⟨by omega, by omega⟩

theorem insertMessage (h : Stalled x U) (id : Int) (buffer : Option Bytes) :
    Stalled x (insertMessage U id buffer) := by
  rcases insertMessage_cases U id buffer with ⟨-, heq⟩ | ⟨-, -, heq⟩ | ⟨-, -, -, heq⟩
  · rw [heq]
    exact h
  · rw [heq]
    exact h.of_sublist (List.sublist_append_left _ _) rfl
  · rw [heq]
    exact h.of_sublist (sublist_insertBefore _ _) rfl

theorem accept (h : Stalled x U) (s : Segment Low) : Stalled x (accept U s) := by
  cases s with
  | ignore =>
    show Stalled x (onIgnore U)
    unfold onIgnore
    split
    · exact h
    · exact h
  | request id => exact h
  | missing id => exact h.insertMessage _ _
  | normal id payload => exact h.insertMessage _ _

theorem received (h : Stalled x U) (buffer : Bytes) (tick : Int) : Stalled x (received U buffer tick) := by
  have hexpire {V : Rudp} (hV : Stalled x V) : Stalled x (expire V) := by
    unfold Rudp.expire
    split
    · exact hV
    · exact hV
  apply hexpire
  apply extractPackage_invariant (I := Stalled x)
  · exact fun V s hV => hV.accept s
  · exact fun V hV => hV
  · exact h

/-- `rudp_recv` gives the number once, and nothing after that. -/
theorem recv (h : Stalled x U) (hord : Ordered U) : Stalled x (rudpRecv U).2.2 := by
  rcases rudpRecv_cases U with ⟨-, heq⟩ | ⟨-, -, heq⟩ | ⟨m, rest, -, hq, hid, heq⟩
  · rw [heq]
    exact h
  · rw [heq]
    exact h
  · have hsorted := hord.queue_sorted
    unfold Stalled waiting at h
    rw [hq, List.countP_cons] at h
    rw [hq] at hsorted
    obtain ⟨hm, -⟩ := List.pairwise_cons.mp hsorted
    rw [heq]
    unfold Stalled waiting
    dsimp only
    by_cases hx : m.id = x
    · rw [if_pos (decide_eq_true hx)] at h
      rcases h with h | ⟨-, hmin⟩
      · exact .inr ⟨by omega, by omega⟩
      · omega
    · rw [if_neg (by simpa using hx)] at h
      rcases h with h | ⟨h, hmin⟩
      · exact .inl (by omega)
      · -- the head that would go stands behind the number that was received
        obtain ⟨a, ha, hax⟩ :=
          (List.countP_pos_iff (l := rest) (p := fun m => decide (m.id = x))).mp (by omega)
        have := hm a ha
        have := of_decide_eq_true hax
        omega

theorem act (h : Stalled x U) (hord : Ordered U) {a : Action} {U' : Rudp} (hs : act U a = some U') :
    Stalled x U' := by
  cases a with
  | send buffer =>
    change rudpSend U buffer = some U' at hs
    unfold rudpSend at hs
    split at hs
    · cases hs
      exact h
    · cases hs
  | recv =>
    cases hs
    exact h.recv hord
  | update buffer tick =>
    obtain ⟨p, hp, rfl⟩ := Option.map_eq_some_iff.mp hs
    have hrec := h.received buffer tick
    rcases rudpUpdate_cases hp with ⟨-, -, heq⟩ | ⟨-, -, -, heq⟩
    · rw [heq]
      exact hrec
    · rw [heq]
      exact hrec

end Stalled

/-- Once a number waits twice, no run gets past it: the message of that number is the last one that is
ever received, and the number stays in the queue. -/
theorem stalled {sendDelay expiredTime x : Int} {U U' : Rudp} {actions : List Action}
    (h : (endpoint sendDelay expiredTime).Reach U) (htwice : 2 ≤ waiting U x)
    (hexec : (endpoint sendDelay expiredTime).exec U actions = some U') :
    U'.recvIdMin ≤ x + 1 ∧ 1 ≤ waiting U' x := by
  have hrun : Ordered U' ∧ Stalled x U' := by
    apply Machine.exec_invariant (fun V => Ordered V ∧ Stalled x V) (P := fun _ => True) _
      (fun _ _ => trivial) ⟨ordered_of_reach h, .inl htwice⟩ hexec
    intro s a s' _ hs hstep
    exact ⟨hs.1.act hstep, hs.2.act hs.1 hstep⟩
  obtain ⟨hord, hst⟩ := hrun
  have hone : 1 ≤ waiting U' x := by
    rcases hst with h2 | ⟨h1, -⟩
    · omega
    · exact h1
  obtain ⟨m, hm, hx⟩ := List.countP_pos_iff.mp hone
  have := hord.queue_ge m hm
  have := of_decide_eq_true hx
  exact ⟨by omega, hone⟩

/-- The message 0 comes last, and all are received up to the one that came twice. -/
theorem stalled_repeated : ∃ U U', (endpoint 5 5).exec (rudpNew 5 5) [.update repeated 0] = some U ∧
    (endpoint 5 5).exec U [.update [4, 0, 0] 0, .recv, .recv, .recv, .recv, .recv] = some U' ∧
    U'.recvIdMin = 3 ∧ U'.recvIdMin ≤ 2 + 1 := by
  have hrun : ∃ U U', (endpoint 5 5).exec (rudpNew 5 5) [.update repeated 0] = some U ∧
      waiting U 2 = 2 ∧
      (endpoint 5 5).exec U [.update [4, 0, 0] 0, .recv, .recv, .recv, .recv, .recv] = some U' ∧
      U'.recvIdMin = 3 := ⟨_, _, rfl, rfl, rfl, rfl⟩
  obtain ⟨U, U', hU, htwice, hU', hmin⟩ := hrun
  have hreach : (endpoint 5 5).Reach U := Machine.Reach.exec (.start rfl) hU
  exact ⟨U, U', hU, hU', hmin, (stalled hreach (Nat.le_of_eq htwice.symm) hU').1⟩

end AntServer.Rudp
