/-
# AntServer.WebSocket.Close — a close frame behind data frames

A close frame is told by its first two bytes. `filter_data_` reports it when a segment starts with it,
and when its first byte is all that is kept and the rest of the segment fits in `uc->header`; in both
cases the rest of the segment is dropped. A close frame with the end of a data frame before it in its
segment goes to `push_more`, which takes its first two bytes for an invalid pair and throws them away.
After a close frame was reported nothing is kept of the connection, and a further segment is decoded as
if the stream began with it.
-/
import AntServer.WebSocket.Delivery

namespace AntServer.WebSocket

open Lib

/-- The first byte of a close frame: FIN and opcode 8. -/
def closeByte : UInt8 := 0x88

theorem readSize_close (b : UInt8) (rest : Bytes) (head : Head) :
    readSize (closeByte :: b :: rest) head = (-3, head) := by
  have hlong : ¬(closeByte :: b :: rest).length < 2 := by
    show ¬rest.length + 1 + 1 < 2
    omega
  unfold readSize
  simp only [List.getD_cons_zero]
  rw [if_neg hlong, if_neg (by decide), if_neg (by decide), if_pos (by decide)]

/-! ## A stream up to the first byte of a close frame -/

/-- As `At`, with the first byte of a close frame behind the frames. -/
def AtClose (p : Option Uncomplete) (fs : List DataFrame) (left : Bytes) : Prop :=
  (∃ rest, left = rest ++ [closeByte] ∧ At p fs rest) ∨
    left = [] ∧ fs = [] ∧ p = some (.header [closeByte])

theorem more_closeByte : more [closeByte] false = .ok (some (.header [closeByte]), []) := by
  rw [more]
  rfl

theorem feed_atClose : Follows AtClose := by
  intro fd p fs s left h hs
  obtain ⟨rest, hleft, hat⟩ | ⟨hnil, -⟩ := h
  · obtain ⟨t, ht, hst, hleft'⟩ | ⟨u, rfl, hu⟩ := append_cases hleft
    · -- the segment ends before the close frame
      rw [← hst] at hat
      obtain ⟨done, todo, m, hfs, hfeed, hat', hmessages, hclose⟩ := feed_at fd _ _ _ _ hat hs
      exact ⟨done, todo, m, hfs, hfeed, .inl ⟨t, hleft', hat'⟩, hmessages, hclose⟩
    · obtain ⟨rfl, rfl⟩ | ⟨rfl, rfl⟩ := List.append_eq_singleton_iff.mp hu
      · -- the segment ends with the frames
        rw [List.append_nil] at hs ⊢
        have hat' : At p fs (rest ++ []) := by
          rw [List.append_nil]
          exact hat
        obtain ⟨done, todo, m, hfs, hfeed, hat'', hmessages, hclose⟩ := feed_at fd _ _ _ _ hat' hs
        exact ⟨done, todo, m, hfs, hfeed, .inl ⟨[], rfl, hat''⟩, hmessages, hclose⟩
      · by_cases hrest : rest = []
        · subst hrest
          have hfs := hat.eq_nil
          subst hfs
          obtain ⟨rfl, -⟩ := hat
          exact ⟨[], [], _, rfl, rfl, .inr ⟨rfl, rfl, rfl⟩, rfl, nofun⟩
        · have hfeed := feed_stream fd hat hrest (List.cons_ne_nil closeByte [])
          rw [more_closeByte] at hfeed
          refine ⟨fs, [], _, (List.append_nil fs).symm, hfeed, .inr ⟨rfl, rfl, rfl⟩, ?_, nofun⟩
          exact List.append_nil _
  · exact absurd (List.append_eq_nil_iff.mp hnil).1 hs

/-! ## The segment with the second byte -/

/-- The segment starts with the close frame. -/
theorem feed_close (fd : Fd) (b : UInt8) (rest : Bytes) :
    feed fd none (closeByte :: b :: rest) false = .ok ⟨none, [], .close fd⟩ := by
  have hread := readSize_close b rest {}
  have hstart : readStart false badFirst (closeByte :: b :: rest) =
      ⟨-3, {}, closeByte :: b :: rest⟩ := by
    show (readWhile badFirst _ {}).clip = _
    rw [readWhile_of_not_bad, hread]
    · rfl
    · rw [hread]
      rfl
  show feedFresh fd _ false = _
  unfold feedFresh
  rw [hstart]
  rfl

theorem readHeader_close (t : Bytes) (b : UInt8) (head : Head) :
    readHeader false (closeByte :: t ++ [b]) head = ⟨-3, head, closeByte :: t ++ [b]⟩ := by
  obtain ⟨c, rest, heq⟩ : ∃ c rest, t ++ [b] = c :: rest :=
    List.exists_cons_of_ne_nil (List.append_ne_nil_of_right_ne_nil t (List.cons_ne_nil b []))
  have hread := readSize_close c rest head
  show (readWhile badFirst (closeByte :: (t ++ [b])) head).clip = ⟨-3, head, closeByte :: (t ++ [b])⟩
  rw [heq, readWhile_of_not_bad, hread]
  · rfl
  · rw [hread]
    rfl

/-- A close frame behind its first byte: the whole segment goes to `uc->header`. -/
theorem fillHeader_close {s : Start} {buffer t : Bytes} (hs : s.buffer = closeByte :: t)
    (hbuffer : buffer ≠ []) :
    fillHeader false s buffer = if s.buffer.length + buffer.length ≤ HEADERSIZE
      then .ok (⟨-3, s.head, s.buffer ++ buffer⟩, []) else .error .headerWrite := by
  induction buffer generalizing s t with
  | nil => exact absurd rfl hbuffer
  | cons b buffer ih =>
    have hlen : (b :: buffer).length = buffer.length + 1 := rfl
    by_cases hroom : s.buffer.length < HEADERSIZE
    · have hread := readHeader_close t b s.head
      rw [← hs] at hread
      rw [fillHeader_cons false hroom, hread, if_neg (show ¬(-3 : Int) ≥ 0 by decide)]
      by_cases hnil : buffer = []
      · subst hnil
        rw [if_pos (show s.buffer.length + [b].length ≤ HEADERSIZE from hroom)]
        rfl
      · have hs' : s.buffer ++ [b] = closeByte :: (t ++ [b]) := by
          rw [hs]
          rfl
        rw [ih hs' hnil]
        dsimp only
        rw [List.length_append, List.append_assoc, List.length_singleton, Nat.add_assoc,
          Nat.add_comm 1, ← hlen]
        rfl
    · rw [if_neg (by omega)]
      exact if_pos (not_lt.mp hroom)

theorem feed_header_close (fd : Fd) {buffer : Bytes} (hbuffer : buffer ≠ []) :
    feed fd (some (.header [closeByte])) buffer false =
      if buffer.length < HEADERSIZE then .ok ⟨none, [], .close fd⟩ else .error .headerWrite := by
  have hfill := fillHeader_close (s := { packSize := 0, head := {}, buffer := [closeByte] })
    rfl hbuffer
  show feedHeader fd [closeByte] buffer false = _
  unfold feedHeader
  rw [hfill]
  show (if 1 + buffer.length ≤ HEADERSIZE then _ else _) >>= _ = _
  by_cases hlen : buffer.length < HEADERSIZE
  · rw [if_pos (by omega), if_pos hlen]
    rfl
  · rw [if_neg (by omega), if_neg hlen]
    rfl

/-! ## A run -/

/-- How the segment `s` stands that has the second byte of the close frame behind `fs`, when the segments
before it have `n` bytes: it starts with the close frame, or with its second byte and leaves `uc->header`
one byte of room. -/
def Aligned (fs : List DataFrame) (n : Nat) (s : Bytes) : Prop :=
  n = (stream fs).length ∨ n = (stream fs).length + 1 ∧ s.length < HEADERSIZE

namespace Decoder

variable {d₀ d₁ : Decoder} {fd : Fd} {fs : List DataFrame}

/-- No more of `fd` comes: its messages stay, and its closes. -/
theorem exec_quiet {evs : List Event} {d d' : Decoder} (hd : d.Good)
    (hsound : ∀ x ∈ d.fault, x.1 ≠ fd) (hevs : ∀ e ∈ evs, e.Streams fd)
    (hquiet : evs.flatMap (Event.bytesOf fd) = []) (hrun : decoder.exec d evs = some d') :
    d'.messagesOf fd = d.messagesOf fd ∧ d'.closed.count fd = d.closed.count fd := by
  have hR : Follows fun _ fs left => fs = [] ∧ left = [] := by
    rintro fd p fs s left ⟨-, hnil⟩ hs
    exact absurd (List.append_eq_nil_iff.mp hnil).1 hs
  have hat : ([] : List DataFrame) = [] ∧ evs.flatMap (Event.bytesOf fd) ++ [] = [] :=
    ⟨rfl, by rw [hquiet]; rfl⟩
  obtain ⟨-, -, hclosed, done, todo, hnil, hmessages, -⟩ := exec_streams hR hd hsound hevs hat hrun
  rw [(List.append_eq_nil_iff.mp hnil.symm).1] at hmessages
  exact ⟨hmessages.trans (List.append_nil _), hclosed⟩

end Decoder

/-- A run in which `fd` sends data frames, a close frame, and whatever follows; the segment `s` has the
second byte of the close frame. -/
structure Closing (fd : Fd) (fs : List DataFrame) (before after : List Event) (s : Bytes) : Prop where
  streams : ∀ e ∈ before ++ .segment fd s false :: after, e.Streams fd
  cut : ∃ b further, (before ++ .segment fd s false :: after).flatMap (Event.bytesOf fd) =
    stream fs ++ closeByte :: b :: further
  first : (before.flatMap (Event.bytesOf fd)).length ≤ (stream fs).length + 1
  second : (stream fs).length + 1 < (before.flatMap (Event.bytesOf fd)).length + s.length

namespace Closing

variable {fd : Fd} {fs : List DataFrame} {before after : List Event} {s : Bytes}
  (h : Closing fd fs before after s)

theorem cons_of_append {u rest further : Bytes} {c : UInt8} (hu : u ++ rest = c :: further)
    (hpos : 0 < u.length) : ∃ u', u = c :: u' ∧ u' ++ rest = further := by
  obtain ⟨rfl, -⟩ | ⟨u', rfl, hu'⟩ := List.append_eq_cons_iff.mp hu
  · exact absurd hpos (Nat.lt_irrefl 0)
  · exact ⟨u', rfl, hu'.symm⟩

include h in
/-- Where the segment starts: amid the frames, with the close frame, or behind its first byte. -/
theorem cases : ∃ b rest,
    (∃ left, left ≠ [] ∧ before.flatMap (Event.bytesOf fd) ++ left = stream fs ∧
      s = left ++ closeByte :: b :: rest) ∨
    (before.flatMap (Event.bytesOf fd) = stream fs ∧ s = closeByte :: b :: rest) ∨
    (before.flatMap (Event.bytesOf fd) = stream fs ++ [closeByte] ∧ s = b :: rest) := by
  obtain ⟨b, further, hcut⟩ := h.cut
  have hfirst := h.first
  have hsecond := h.second
  have hself : Event.bytesOf fd (.segment fd s false) = s := if_pos rfl
  rw [List.flatMap_append, List.flatMap_cons, hself] at hcut
  generalize before.flatMap (Event.bytesOf fd) = bytes at *
  generalize after.flatMap (Event.bytesOf fd) = rest at *
  refine ⟨b, ?_⟩
  obtain ⟨left, hleft, hbytes, hs⟩ | ⟨read, rfl, hs⟩ := append_cases hcut
  · rw [← hbytes, List.length_append] at hsecond
    obtain ⟨t, -, hst, -⟩ | ⟨u, rfl, hu⟩ := append_cases hs
    · rw [← hst, List.length_append] at hsecond
      omega
    · -- two bytes of the close frame stand behind the frames
      rw [List.length_append] at hsecond
      obtain ⟨v, rfl, hv⟩ := cons_of_append hu (by omega)
      rw [List.length_cons] at hsecond
      obtain ⟨w, rfl, -⟩ := cons_of_append hv (by omega)
      exact ⟨w, .inl ⟨left, hleft, hbytes, rfl⟩⟩
  · rw [List.length_append] at hfirst hsecond
    by_cases hread : read = []
    · subst hread
      rw [List.nil_append] at hs
      rw [List.length_nil] at hsecond
      obtain ⟨v, rfl, hv⟩ := cons_of_append hs (by omega)
      rw [List.length_cons] at hsecond
      obtain ⟨w, rfl, -⟩ := cons_of_append hv (by omega)
      exact ⟨w, .inr (.inl ⟨List.append_nil _, rfl⟩)⟩
    · obtain ⟨v, rfl, hv⟩ := cons_of_append hs (List.length_pos_of_ne_nil hread)
      rw [List.length_cons] at hfirst hsecond
      obtain rfl : v = [] := List.eq_nil_of_length_eq_zero (by omega)
      rw [List.nil_append] at hv
      rw [List.length_nil] at hsecond
      obtain ⟨w, rfl, -⟩ := cons_of_append hv (by omega)
      exact ⟨w, .inr (.inr ⟨rfl, rfl⟩)⟩

include h in
/-- What the segment does, from the state before it. -/
theorem feed {d₀ : Decoder} (h₀ : decoder.exec .init before = some d₀) :
    d₀.Good ∧ (∀ x ∈ d₀.fault, x.1 ≠ fd) ∧ d₀.closed.count fd = 0 ∧
      (Aligned fs (before.flatMap (Event.bytesOf fd)).length s →
        d₀.messagesOf fd = fs.map DataFrame.payload ∧
          WebSocket.feed fd (d₀.queue.pending fd) s false = .ok ⟨none, [], .close fd⟩) ∧
      (¬Aligned fs (before.flatMap (Event.bytesOf fd)).length s →
        ∀ m, WebSocket.feed fd (d₀.queue.pending fd) s false = .ok m → m.returned = .more) := by
  have hevs : ∀ e ∈ before, e.Streams fd := fun e he => h.streams e (List.mem_append_left _ he)
  obtain ⟨b, rest, ⟨left, hleft, hbytes, rfl⟩ | ⟨hbytes, rfl⟩ | ⟨hbytes, rfl⟩⟩ := h.cases
  · -- `push_more` has the close frame
    have hat : At (Decoder.init.queue.pending fd) fs (before.flatMap (Event.bytesOf fd) ++ left) := by
      rw [hbytes]
      exact at_start fs
    obtain ⟨hgood, hsound, hclosed, done, todo, -, -, hat'⟩ :=
      Decoder.exec_streams feed_at Decoder.good_init nofun hevs hat h₀
    have hlt : (before.flatMap (Event.bytesOf fd)).length < (stream fs).length := by
      rw [← hbytes, List.length_append]
      exact Nat.lt_add_of_pos_right (List.length_pos_of_ne_nil hleft)
    refine ⟨hgood, hsound, hclosed, fun haligned => ?_, fun _ m hm => ?_⟩
    · unfold Aligned at haligned
      omega
    · rw [feed_stream fd hat' hleft (List.cons_ne_nil _ _)] at hm
      obtain ⟨_, _, rfl⟩ := map_ok.mp hm
      rfl
  · have hat : At (Decoder.init.queue.pending fd) fs (before.flatMap (Event.bytesOf fd) ++ []) := by
      rw [hbytes, List.append_nil]
      exact at_start fs
    obtain ⟨hgood, hsound, hclosed, done, todo, hfs, hmessages, hat'⟩ :=
      Decoder.exec_streams feed_at Decoder.good_init nofun hevs hat h₀
    obtain rfl := hat'.eq_nil
    rw [List.append_nil] at hfs
    refine ⟨hgood, hsound, hclosed, fun _ => ⟨hfs ▸ hmessages, ?_⟩, fun hnot => ?_⟩
    · rw [hat'.1]
      exact feed_close fd b rest
    · exact absurd (.inl (congrArg List.length hbytes)) hnot
  · have hat : AtClose (Decoder.init.queue.pending fd) fs
        (before.flatMap (Event.bytesOf fd) ++ []) := by
      rw [hbytes, List.append_nil]
      exact .inl ⟨stream fs, rfl, at_start fs⟩
    obtain ⟨hgood, hsound, hclosed, done, todo, hfs, hmessages, hat'⟩ :=
      Decoder.exec_streams feed_atClose Decoder.good_init nofun hevs hat h₀
    obtain ⟨rest', hnil, -⟩ | ⟨-, rfl, hpending⟩ := hat'
    · exact absurd hnil.symm (List.append_ne_nil_of_right_ne_nil _ (List.cons_ne_nil _ _))
    rw [List.append_nil] at hfs
    have hlen : (before.flatMap (Event.bytesOf fd)).length = (stream fs).length + 1 := by
      rw [hbytes, List.length_append]
      rfl
    rw [hpending, feed_header_close fd (List.cons_ne_nil b rest)]
    refine ⟨hgood, hsound, hclosed, fun haligned => ⟨hfs ▸ hmessages, ?_⟩, fun hnot m hm => ?_⟩
    · unfold Aligned at haligned
      rw [if_pos (by omega)]
    · rw [if_neg fun hlt => hnot (.inr ⟨hlen, hlt⟩)] at hm
      cases hm

end Closing

namespace Decoder

/-- **Close frames.** The call with the second byte of the close frame reports it if and only if the
segment starts with the close frame, or with its second byte and fits in `uc->header` behind the first
one. The messages are then the payloads of the data frames, all of them before the report; when the
segment is the last one, nothing is added to that. -/
theorem close_reported (fd : Fd) (fs : List DataFrame) (before after : List Event) (s : Bytes)
    (h : Closing fd fs before after s) (d₀ d₁ : Decoder) (h₀ : decoder.exec init before = some d₀)
    (h₁ : decoder.step d₀ (.segment fd s false) = some d₁) :
    (0 < d₁.closed.count fd ↔ Aligned fs (before.flatMap (Event.bytesOf fd)).length s) ∧
      (Aligned fs (before.flatMap (Event.bytesOf fd)).length s →
        (d₀.messagesOf fd = fs.map DataFrame.payload ∧ d₀.closed.count fd = 0) ∧
        (d₁.messagesOf fd = fs.map DataFrame.payload ∧ d₁.closed.count fd = 1) ∧
        ∀ d, decoder.exec d₁ after = some d → after.flatMap (Event.bytesOf fd) = [] →
          d.messagesOf fd = fs.map DataFrame.payload ∧ d.closed.count fd = 1) := by
  obtain ⟨hgood, hsound, hclosed, haligned, hnot⟩ := h.feed h₀
  obtain ⟨hfault, rfl⟩ := step_eq h₁
  have hreport (hal : Aligned fs (before.flatMap (Event.bytesOf fd)).length s) :
      (d₀.next (.segment fd s false)).fault = none ∧
        (d₀.next (.segment fd s false)).messagesOf fd = fs.map DataFrame.payload ∧
        (d₀.next (.segment fd s false)).closed.count fd = 1 := by
    obtain ⟨hmessages, hfeed⟩ := haligned hal
    obtain ⟨hfault', -, hmsgs, hcount⟩ := hgood.next_segment hfeed
    refine ⟨hfault'.trans hfault, ?_, ?_⟩
    · rw [hmsgs, hmessages]
      exact List.append_nil _
    · rw [hcount, List.count_append, hclosed, Nat.zero_add]
      show [fd].count fd = 1
      exact List.count_singleton_self
  refine ⟨⟨fun hpos => ?_, fun hal => ?_⟩, fun hal => ?_⟩
  · by_contra hal
    have hnone : (d₀.next (.segment fd s false)).closed.count fd = 0 := by
      match hm : WebSocket.feed fd (d₀.queue.pending fd) s false with
      | .ok m =>
        rw [(hgood.next_segment hm).2.2.2, hnot hal m hm, List.count_append, hclosed]
        rfl
      | .error fault =>
        rw [hgood.next_fault hm]
        exact hclosed
    omega
  · rw [(hreport hal).2.2]
    exact Nat.one_pos
  · obtain ⟨hfault', hmessages, hcount⟩ := hreport hal
    refine ⟨⟨(haligned hal).1, hclosed⟩, ⟨hmessages, hcount⟩, fun d hrun hquiet => ?_⟩
    have hevs : ∀ e ∈ after, e.Streams fd := fun e he =>
      h.streams e (List.mem_append_right _ (List.mem_cons_of_mem _ he))
    have hno : ∀ x ∈ (d₀.next (.segment fd s false)).fault, x.1 ≠ fd := by
      rw [hfault']
      nofun
    obtain ⟨hmsgs, hcount'⟩ := exec_quiet (hgood.next _) hno hevs hquiet hrun
    exact ⟨hmsgs.trans hmessages, hcount'.trans hcount⟩

/-- A data frame and a close frame in one segment: the close frame is never reported. -/
theorem not_close_reported : ¬∀ (fd : Fd) (fs : List DataFrame) (b : UInt8) (further : Bytes)
    (evs : List Event) (d : Decoder), (∀ e ∈ evs, e.Streams fd) →
    evs.flatMap (Event.bytesOf fd) = stream fs ++ closeByte :: b :: further →
    decoder.exec init evs = some d →
    d.messagesOf fd = fs.map DataFrame.payload ∧ 0 < d.closed.count fd := by
  intro hall
  have hrun : ∃ d ∈ decoder.exec init [.segment 5 (sample.bytes ++ [closeByte, 0]) false],
      d.closed.count 5 = 0 := by decide +kernel
  obtain ⟨d, hd, hnone⟩ := hrun
  have hpos := (hall 5 [sample] 0 [] _ d (by decide) (by decide +kernel) hd).2
  omega

/-- A close frame cut behind its first byte. -/
theorem close_reported_sample :
    ∃ d₀ ∈ decoder.exec init [.segment 5 (sample.bytes ++ [closeByte]) false],
      ∃ d₁ ∈ decoder.step d₀ (.segment 5 [0, 7] false),
        d₁.messagesOf 5 = [sample].map DataFrame.payload ∧ d₁.closed.count 5 = 1 := by
  have hrun : ∃ d₀ ∈ decoder.exec init [.segment 5 (sample.bytes ++ [closeByte]) false],
      ∃ d₁ ∈ decoder.step d₀ (.segment 5 [0, 7] false), d₁.fault = none := by decide +kernel
  obtain ⟨d₀, hd₀, d₁, hd₁, -⟩ := hrun
  have hclosing : Closing 5 [sample] [.segment 5 (sample.bytes ++ [closeByte]) false] [] [0, 7] := by
    refine ⟨by decide, ⟨0, [7], ?_⟩, ?_, ?_⟩
    · decide +kernel
    · decide +kernel
    · decide +kernel
  exact ⟨d₀, hd₀, d₁, hd₁, ((close_reported 5 [sample] _ [] [0, 7] hclosing d₀ d₁ hd₀ hd₁).2
    (.inr (by decide +kernel))).2.1⟩

end Decoder

end AntServer.WebSocket
