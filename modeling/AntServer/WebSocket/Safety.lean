/-
# AntServer.WebSocket.Safety — hostile bytes

Whatever a client sends, a call of `filter_data_` ends. It is safe in memory under a condition on the
segment and on what is kept of the connection (`Fits`): the code stores a 64-bit length in an `int`
whose negative values it also uses as status codes, and adds a segment to a header without a look at the
header's size. Under the condition, what is kept is within its bounds again, and every message of a call
after the handshake has at most `MAX_PACKSIZE` bytes.
-/
import AntServer.WebSocket.Delivery
import AntServer.WebSocket.Resumed

namespace AntServer.WebSocket

open Lib

/-! ## The condition -/

/-- What `push_more` reads in a buffer: the starts of the frames in it. -/
def starts (buffer : Bytes) : List Start :=
  let s := readStart false badMore buffer
  let rest := (s.buffer.drop s.head.packHeadLength).drop s.packSize.toNat
  if _h : s.packSize = -1 ∨ rest = [] then [s] else s :: starts rest
termination_by buffer.length
decreasing_by
  obtain ⟨hsize, hrest⟩ := not_or.mp _h
  have hcons := (readStart_more false buffer).resolve_left hsize
  have hlen := readStart_length false badMore buffer
  have hpos := List.length_pos_of_ne_nil hrest
  simp only [rest, s, List.length_drop] at hpos ⊢
  omega

/-- Where `push_more` keeps a header there is no more left than `HEADERSIZE` bytes. -/
def MoreFits (buffer : Bytes) : Prop :=
  ∀ s ∈ starts buffer, s.packSize = -1 → s.buffer.length ≤ HEADERSIZE

/-- At the start of a frame: no length is negative as an `int`, and an incomplete header has no more than
`HEADERSIZE` bytes. -/
def Start.Fits (s : Start) : Prop :=
  s.packSize ≥ -3 ∧ (s.packSize = -1 → s.buffer.length ≤ HEADERSIZE) ∧
    (0 ≤ s.packSize → MoreFits ((s.buffer.drop s.head.packHeadLength).drop s.packSize.toNat))

/-- A segment amid the header of a frame: what is kept leaves room, no length is negative as an `int`,
and the header gets complete or all the bytes fit. -/
def FitsHeader (header buffer : Bytes) : Prop :=
  buffer = [] ∨ header.length < HEADERSIZE ∧ code (header ++ buffer) ≥ -3 ∧
    (code (header ++ buffer) < 0 → (kept (header ++ buffer)).length ≤ HEADERSIZE) ∧
    ∀ n ≤ buffer.length, Completes code header (buffer.take n) →
      MoreFits ((buffer.drop n).drop (code (header ++ buffer.take n)).toNat)

/-- A segment of a request of which a part is kept: all of it fits, or it is complete within the first
`HEADERSIZE` bytes. -/
def FitsRequest (header buffer : Bytes) : Prop :=
  (header ++ buffer).length ≤ HEADERSIZE ∨
    header.length < HEADERSIZE ∧ 0 ≤ getHttpHeader ((header ++ buffer).take HEADERSIZE)

/-- The calls that are safe, from what is kept of the connection. -/
def Fits (uc : Option Uncomplete) (buffer : Bytes) (handshake : Bool) : Prop :=
  match uc, handshake with
  | none, true => True
  | none, false => (readStart false badFirst buffer).Fits
  | some (.header header), true => FitsRequest header buffer
  | some (.header header), false => FitsHeader header buffer
  | some (.body _ _ _), true => True
  | some (.body size read _), false => MoreFits (buffer.drop (size - read.length))

instance (buffer : Bytes) : Decidable (MoreFits buffer) :=
  inferInstanceAs (Decidable (∀ s ∈ starts buffer, s.packSize = -1 → s.buffer.length ≤ HEADERSIZE))

instance (s : Start) : Decidable s.Fits :=
  inferInstanceAs (Decidable (s.packSize ≥ -3 ∧ (s.packSize = -1 → s.buffer.length ≤ HEADERSIZE) ∧
    (0 ≤ s.packSize → MoreFits ((s.buffer.drop s.head.packHeadLength).drop s.packSize.toNat))))

instance (header buffer : Bytes) : Decidable (FitsHeader header buffer) :=
  inferInstanceAs (Decidable (buffer = [] ∨ header.length < HEADERSIZE ∧
    code (header ++ buffer) ≥ -3 ∧
    (code (header ++ buffer) < 0 → (kept (header ++ buffer)).length ≤ HEADERSIZE) ∧
    ∀ n ≤ buffer.length, Completes code header (buffer.take n) →
      MoreFits ((buffer.drop n).drop (code (header ++ buffer.take n)).toNat)))

instance (header buffer : Bytes) : Decidable (FitsRequest header buffer) :=
  inferInstanceAs (Decidable ((header ++ buffer).length ≤ HEADERSIZE ∨
    header.length < HEADERSIZE ∧ 0 ≤ getHttpHeader ((header ++ buffer).take HEADERSIZE)))

instance (uc : Option Uncomplete) (buffer : Bytes) (handshake : Bool) :
    Decidable (Fits uc buffer handshake) :=
  match uc, handshake with
  | none, true => isTrue trivial
  | none, false => inferInstanceAs (Decidable (readStart false badFirst buffer).Fits)
  | some (.header header), true => inferInstanceAs (Decidable (FitsRequest header buffer))
  | some (.header header), false => inferInstanceAs (Decidable (FitsHeader header buffer))
  | some (.body _ _ _), true => isTrue trivial
  | some (.body size read _), false =>
    inferInstanceAs (Decidable (MoreFits (buffer.drop (size - read.length))))

/-! ## What is kept -/

/-- The bounds of an `uncomplete`. -/
def Uncomplete.Bounded : Uncomplete → Prop
  | .header bytes => bytes.length ≤ HEADERSIZE
  | .body size read _ => read.length < size ∧ size ≤ MAX_PACKSIZE

/-- A header that is kept fits into its buffer, or it is a request, which has one of its size. -/
theorem headerUncomplete_ok {handshake : Bool} {buffer : Bytes}
    (h : handshake = false → buffer.length ≤ HEADERSIZE) :
    ∃ uc, headerUncomplete handshake buffer = .ok uc ∧ uc.Bounded := by
  unfold headerUncomplete
  split
  · refine ⟨_, rfl, ?_⟩
    show (buffer.take HEADERSIZE).length ≤ HEADERSIZE
    exact List.length_take_le _ _
  · rename_i hclip
    have hle : buffer.length ≤ HEADERSIZE := by
      by_contra hlt
      match handshake, h with
      | false, h => exact hlt (h rfl)
      | true, _ => exact hclip (decide_eq_true (not_le.mp hlt))
    rw [if_neg (not_lt.mpr hle)]
    exact ⟨_, rfl, hle⟩

/-- A size that is not negative is that of a block. -/
theorem malloc_of_nonneg {packSize : Int} (h : 0 ≤ packSize) : malloc packSize = .ok packSize.toNat :=
  if_neg (not_lt.mpr h)

/-- A body that is kept is shorter than its block. -/
theorem bodyUncomplete_ok {packSize : Int} {buffer : Bytes} (h : buffer.length < packSize)
    (hmax : packSize ≤ MAX_PACKSIZE) (mask : Mask) :
    ∃ uc, bodyUncomplete packSize mask buffer = .ok uc ∧ uc.Bounded := by
  have hle : ([] : Bytes).length + (decodeWsmaskData buffer mask).1.length ≤ packSize.toNat := by
    rw [Mask.length_decode, List.length_nil]
    omega
  unfold bodyUncomplete
  rw [malloc_of_nonneg (by omega)]
  refine ⟨.body packSize.toNat (decodeWsmaskData buffer mask).1 (decodeWsmaskData buffer mask).2,
    ?_, ?_, by omega⟩
  · show copyPack _ _ _ >>= _ = _
    rw [copyPack_of_le hle]
    rfl
  · rw [Mask.length_decode]
    omega

/-- A packet is copied out of a buffer that holds it. -/
theorem clonePack_ok {packSize : Int} {buffer : Bytes} (h : 0 ≤ packSize)
    (hle : packSize ≤ buffer.length) (mask : Mask) :
    ∃ msg, clonePack packSize mask buffer = .ok msg ∧ (msg.length : Int) = packSize := by
  have hlen : (decodeWsmaskData (buffer.take packSize.toNat) mask).1.length = packSize.toNat := by
    rw [Mask.length_decode, List.length_take]
    omega
  refine ⟨(decodeWsmaskData (buffer.take packSize.toNat) mask).1, ?_, by omega⟩
  unfold clonePack
  rw [malloc_of_nonneg h]
  exact copyPack_of_le (by rw [hlen, List.length_nil, Nat.zero_add])

/-! ## `push_more` -/

/-- The sizes above the bound are bad. -/
theorem readStart_le_max (bad : Int → Bool) (buffer : Bytes) :
    (readStart false bad buffer).packSize ≤ MAX_PACKSIZE := by
  show (readWhile bad buffer {}).clip.packSize ≤ MAX_PACKSIZE
  unfold Start.clip
  dsimp only
  split
  · exact le_rfl
  · exact not_lt.mp ‹_›

/-- The messages of a call after the handshake have at most `MAX_PACKSIZE` bytes. -/
def Small (handshake : Bool) (msgs : List Bytes) : Prop :=
  handshake = false → ∀ msg ∈ msgs, msg.length ≤ MAX_PACKSIZE

/-- The loop of `filter_data_` does not end with -2. -/
theorem readStart_ne_bad (buffer : Bytes) : (readStart false badFirst buffer).packSize ≠ -2 := by
  intro hbad
  have hstop := readWhile_not_bad (show badFirst (-1) = false from rfl) buffer {}
  change (readWhile badFirst buffer {}).clip.packSize = -2 at hbad
  have hneg : (readWhile badFirst buffer {}).packSize < 0 := by
    rw [← not_le, ← Start.clip_nonneg, hbad]
    decide
  rw [Start.clip_of_neg hneg] at hbad
  rw [hbad] at hstop
  cases hstop

/-- A request is not longer than what was read of it. -/
theorem readStart_request_le {bad : Int → Bool} {buffer : Bytes} :
    (readStart true bad buffer).packSize ≤
      ((readStart true bad buffer).buffer.drop (readStart true bad buffer).head.packHeadLength).length :=
  getHttpHeader_le buffer

/-- What the code takes for a whole message is there. -/
theorem size_le_of_not_short {handshake : Bool} {bad : Int → Bool} {buffer : Bytes}
    (h : ¬((((readStart handshake bad buffer).buffer.drop
        (readStart handshake bad buffer).head.packHeadLength).length : Int) <
          (readStart handshake bad buffer).packSize ∧ handshake = false)) :
    (readStart handshake bad buffer).packSize ≤ ((readStart handshake bad buffer).buffer.drop
      (readStart handshake bad buffer).head.packHeadLength).length := by
  match handshake with
  | true => exact readStart_request_le
  | false => exact not_lt.mp fun hlt => h ⟨hlt, rfl⟩

/-- So a packet is within the bound. -/
theorem small_of_packSize {handshake : Bool} {bad : Int → Bool} {buffer msg : Bytes}
    (h : (msg.length : Int) = (readStart handshake bad buffer).packSize) (hfalse : handshake = false) :
    msg.length ≤ MAX_PACKSIZE := by
  subst hfalse
  have := readStart_le_max bad buffer
  omega

/-- `push_more`, from the size of the rest on. -/
theorem more_sound (buffer : Bytes) (handshake : Bool)
    (h : handshake = false → MoreFits buffer) :
    ∃ m, more buffer handshake = .ok m ∧ (∀ uc ∈ m.1, uc.Bounded) ∧ Small handshake m.2 := by
  fun_induction more buffer handshake with
  | case1 buffer s hsize =>
    have hroom : handshake = false → s.buffer.length ≤ HEADERSIZE := by
      rintro rfl
      refine h rfl s ?_ hsize
      unfold starts
      rw [dif_pos (.inl hsize)]
      exact List.mem_singleton_self s
    obtain ⟨uc, huc, hbounded⟩ := headerUncomplete_ok hroom
    rw [huc]
    refine ⟨(some uc, []), rfl, ?_, fun _ m hm => by cases hm⟩
    rintro _ ⟨⟩
    exact hbounded
  | case2 buffer s hsize data hshort =>
    obtain ⟨hlt, rfl⟩ := hshort
    obtain ⟨uc, huc, hbounded⟩ := bodyUncomplete_ok hlt (readStart_le_max badMore buffer) s.head.mask
    rw [huc]
    refine ⟨(some uc, []), rfl, ?_, fun _ m hm => by cases hm⟩
    rintro _ ⟨⟩
    exact hbounded
  | case3 buffer s hsize data hfull ih =>
    have hnonneg := ((readStart_more handshake buffer).resolve_left hsize).1
    obtain ⟨msg, hmsg, hlen⟩ := clonePack_ok hnonneg (size_le_of_not_short hfull) s.head.mask
    have hsmall : handshake = false → msg.length ≤ MAX_PACKSIZE := small_of_packSize hlen
    rw [hmsg]
    by_cases hrest : data.drop s.packSize.toNat = []
    · refine ⟨(none, [msg]), dif_pos hrest, fun uc huc => (by cases huc), fun hfalse => ?_⟩
      intro m hm
      rw [List.mem_singleton.mp hm]
      exact hsmall hfalse
    · have hfits : handshake = false → MoreFits (data.drop s.packSize.toNat) := by
        rintro rfl s' hs'
        apply h rfl s'
        unfold starts
        rw [dif_neg (not_or.mpr ⟨hsize, hrest⟩)]
        exact List.mem_cons_of_mem _ hs'
      obtain ⟨m, hm, hbounded, hmsgs⟩ := ih hrest hfits
      refine ⟨(m.1, msg :: m.2), ?_, hbounded, fun hfalse => ?_⟩
      · refine (dif_neg hrest).trans ?_
        rw [hm]
        rfl
      · intro x hx
        obtain rfl | hx := List.mem_cons.mp hx
        · exact hsmall hfalse
        · exact hmsgs hfalse x hx

/-! ## A call -/

/-- A call that runs into no error, keeps within its bounds what it keeps, and whose messages are small
after the handshake. -/
def Sound (handshake : Bool) (r : Except Fault Fed) : Prop :=
  ∃ m, r = .ok m ∧ (∀ uc ∈ m.saved, uc.Bounded) ∧ Small handshake m.messages

/-- A message with more behind it. -/
theorem more_complete_sound {msg rest : Bytes} {handshake : Bool}
    (hmsg : handshake = false → msg.length ≤ MAX_PACKSIZE) (h : handshake = false → MoreFits rest) :
    Sound handshake ((fun m => ⟨m.1, msg :: m.2, .more⟩) <$> more rest handshake) := by
  obtain ⟨m, hm, hbounded, hmsgs⟩ := more_sound rest handshake h
  rw [hm]
  refine ⟨_, rfl, hbounded, fun hfalse x hx => ?_⟩
  obtain rfl | hx := List.mem_cons.mp hx
  · exact hmsg hfalse
  · exact hmsgs hfalse x hx

/-- A single packet. -/
theorem data_sound (fd : Fd) {msg : Bytes} {handshake : Bool}
    (hmsg : handshake = false → msg.length ≤ MAX_PACKSIZE) :
    Sound handshake (.ok ⟨none, [], .data fd msg⟩) := by
  refine ⟨_, rfl, nofun, fun hfalse m hm => ?_⟩
  rw [List.mem_singleton.mp hm]
  exact hmsg hfalse

/-- A packet with something behind it. -/
theorem complete_sound (fd : Fd) {msg rest : Bytes} {handshake : Bool}
    (hmsg : handshake = false → msg.length ≤ MAX_PACKSIZE)
    (h : handshake = false → MoreFits rest) : Sound handshake (complete fd msg rest handshake) := by
  unfold complete
  split
  · exact data_sound fd hmsg
  · exact more_complete_sound hmsg h

/-- A segment for a body that is waited for. -/
theorem feedBody_sound (fd : Fd) {size : Nat} {read : Bytes} (mask : Mask) {buffer : Bytes}
    {handshake : Bool} (hle : read.length ≤ size)
    (hsize : handshake = false ∨ read.length < size → size ≤ MAX_PACKSIZE)
    (h : handshake = false → MoreFits (buffer.drop (size - read.length))) :
    Sound handshake (feedBody fd size read mask buffer handshake) := by
  unfold feedBody
  dsimp only
  split
  · rename_i hshort
    rw [copyPack_of_le (by rw [Mask.length_decode]; omega)]
    refine ⟨_, rfl, ?_, nofun⟩
    rintro _ ⟨⟩
    refine ⟨?_, hsize (.inr (by omega))⟩
    rw [List.length_append, Mask.length_decode]
    omega
  · rename_i hfull
    have hlen : read.length + (decodeWsmaskData (buffer.take (size - read.length)) mask).1.length =
        size := by
      rw [Mask.length_decode, List.length_take]
      omega
    rw [copyPack_of_le hlen.le]
    refine complete_sound fd (fun hfalse => ?_) h
    rw [List.length_append, hlen]
    exact hsize (.inl hfalse)

/-- A segment with nothing waited for. -/
theorem feedFresh_sound (fd : Fd) {buffer : Bytes} {handshake : Bool}
    (h : handshake = false → (readStart false badFirst buffer).Fits) :
    Sound handshake (feedFresh fd buffer handshake) := by
  unfold feedFresh
  dsimp only
  split
  · rename_i hsize
    have hroom : handshake = false →
        (readStart handshake badFirst buffer).buffer.length ≤ HEADERSIZE := by
      rintro rfl
      exact (h rfl).2.1 hsize
    obtain ⟨uc, huc, hbounded⟩ := headerUncomplete_ok hroom
    rw [huc]
    refine ⟨_, rfl, ?_, nofun⟩
    rintro _ ⟨⟩
    exact hbounded
  split
  · exact ⟨_, rfl, nofun, nofun⟩
  split
  · rename_i hshort
    obtain ⟨hlt, rfl⟩ := hshort
    obtain ⟨uc, huc, hbounded⟩ := bodyUncomplete_ok hlt (readStart_le_max badFirst buffer) _
    rw [huc]
    refine ⟨_, rfl, ?_, nofun⟩
    rintro _ ⟨⟩
    exact hbounded
  · rename_i hhead hclose hfull
    have hnonneg : 0 ≤ (readStart handshake badFirst buffer).packSize := by
      match handshake, h with
      | true, _ => exact getHttpHeader_nonneg.mpr hhead
      | false, h =>
        have hge := (h rfl).1
        have hne := readStart_ne_bad buffer
        omega
    obtain ⟨msg, hmsg, hlen⟩ := clonePack_ok hnonneg (size_le_of_not_short hfull) _
    have hsmall : handshake = false → msg.length ≤ MAX_PACKSIZE := small_of_packSize hlen
    rw [hmsg]
    show Sound handshake (if _ then _ else _)
    split
    · exact data_sound fd hsmall
    · refine more_complete_sound hsmall ?_
      rintro rfl
      exact (h rfl).2.2 hnonneg

/-- A segment of no bytes: the loop that looks for the header does not run, and the message is empty. -/
theorem feedHeader_nil_sound (fd : Fd) (header : Bytes) (handshake : Bool) :
    Sound handshake (feedHeader fd header [] handshake) := by
  have hnil : feedHeader fd header [] handshake = .ok ⟨none, [], .data fd []⟩ := by
    match handshake with
    | true => rfl
    | false => rfl
  rw [hnil]
  exact data_sound fd fun _ => Nat.zero_le _

/-- A segment for the header of a frame. -/
theorem feedHeader_sound (fd : Fd) {header buffer : Bytes} (h : FitsHeader header buffer) :
    Sound false (feedHeader fd header buffer false) := by
  by_cases hne : buffer = []
  · rw [hne]
    exact feedHeader_nil_sound fd header false
  obtain ⟨hroom, hge, hfits, hmore⟩ := h.resolve_left hne
  have hfits' : 0 ≤ code (header ++ buffer) ∨ (kept (header ++ buffer)).length ≤ HEADERSIZE :=
    (lt_or_ge (code (header ++ buffer)) 0).symm.imp_right hfits
  obtain ⟨s, rest, hfill, hcases⟩ :=
    fillHeader_frame (s := { packSize := 0, head := {}, buffer := header }) hne hroom hfits'
  unfold feedHeader
  rw [hfill]
  show Sound false (if _ then _ else _)
  obtain ⟨hneg, hcode, hkept, rfl⟩ | ⟨part, rfl, hpart, hcode⟩ := hcases
  · have hne2 : code (header ++ buffer) ≠ -2 := readStart_ne_bad (header ++ buffer)
    dsimp only at hcode hkept
    split
    · refine ⟨_, rfl, ?_, nofun⟩
      rintro _ ⟨⟩
      show s.buffer.length ≤ HEADERSIZE
      rw [hkept]
      exact hfits (hcode ▸ hneg)
    · rename_i hshort
      rw [if_pos (by omega)]
      exact ⟨_, rfl, nofun, nofun⟩
  · have hnonneg : 0 ≤ s.packSize := hcode ▸ hpart.complete
    have hmax : s.packSize ≤ MAX_PACKSIZE := hcode ▸ readStart_le_max badFirst (header ++ part)
    have hmore' := hmore part.length (by rw [List.length_append]; omega)
    rw [List.take_left, List.drop_left] at hmore'
    rw [if_neg (by omega), if_neg (by omega), malloc_of_nonneg hnonneg]
    refine feedBody_sound fd s.head.mask (Nat.zero_le _) (fun _ => by omega) fun _ => ?_
    have hrest := hmore' hpart
    rw [← hcode] at hrest
    exact hrest

/-- A segment for a request. -/
theorem feedRequest_sound (fd : Fd) {header buffer : Bytes} (h : FitsRequest header buffer) :
    Sound true (feedHeader fd header buffer true) := by
  by_cases hne : buffer = []
  · rw [hne]
    exact feedHeader_nil_sound fd header true
  have hroom : header.length < HEADERSIZE := by
    obtain hlen | ⟨hroom, -⟩ := h
    · have hpos := List.length_pos_of_ne_nil hne
      rw [List.length_append] at hlen
      omega
    · exact hroom
  obtain ⟨s, rest, hfill, hcases⟩ := fillHeader_request
    (s := { packSize := 0, head := {}, buffer := header }) hne hroom (h.imp_right And.right)
  unfold feedHeader
  rw [hfill]
  show Sound true (if _ then _ else _)
  obtain ⟨hnone, -, -, hlen, rfl⟩ | ⟨part, rfl, hpart, hcode, hbuffer⟩ := hcases
  · rw [if_pos hnone]
    refine ⟨_, rfl, ?_, nofun⟩
    rintro _ ⟨⟩
    exact hlen
  · have hnonneg : 0 ≤ s.packSize := hcode ▸ hpart.complete
    have hle : s.packSize ≤ s.buffer.length := by
      rw [hcode, hbuffer]
      exact getHttpHeader_le _
    have hlen : (s.buffer.take s.packSize.toNat).length = s.packSize.toNat := by
      rw [List.length_take]
      omega
    have hcopy : copyPack s.packSize.toNat [] (s.buffer.take s.packSize.toNat) =
        .ok (s.buffer.take s.packSize.toNat) := copyPack_of_le (by rw [hlen, List.length_nil]; omega)
    rw [if_neg (by omega), if_neg (by omega), malloc_of_nonneg hnonneg]
    show Sound true (copyPack _ _ _ >>= _)
    rw [hcopy]
    refine feedBody_sound fd s.head.mask hlen.le (fun h => ?_) nofun
    exact h.elim nofun fun hlt => absurd hlt (by omega)

/-- Any segment, by what is kept of the socket. -/
theorem feed_sound (fd : Fd) {uc : Option Uncomplete} {buffer : Bytes} {handshake : Bool}
    (huc : ∀ u ∈ uc, u.Bounded) (h : Fits uc buffer handshake) :
    Sound handshake (feed fd uc buffer handshake) := by
  match uc, handshake with
  | none, true => exact feedFresh_sound fd nofun
  | none, false => exact feedFresh_sound fd fun _ => h
  | some (.header header), true => exact feedRequest_sound fd h
  | some (.header header), false => exact feedHeader_sound fd h
  | some (.body size read mask), true =>
    obtain ⟨hlt, hmax⟩ := huc _ rfl
    exact feedBody_sound fd mask hlt.le (fun _ => hmax) nofun
  | some (.body size read mask), false =>
    obtain ⟨hlt, hmax⟩ := huc _ rfl
    exact feedBody_sound fd mask hlt.le (fun _ => hmax) fun _ => h

/-! ## Runs -/

namespace Decoder

variable {d : Decoder}

/-- A call that is safe in the state `d`. -/
def Fits (d : Decoder) : Event → Prop
  | .segment fd buffer handshake => WebSocket.Fits (d.queue.pending fd) buffer handshake
  | .close _ | .lpop => True

instance (d : Decoder) (e : Event) : Decidable (d.Fits e) :=
  match e with
  | .segment fd buffer handshake =>
    inferInstanceAs (Decidable (WebSocket.Fits (d.queue.pending fd) buffer handshake))
  | .close _ | .lpop => isTrue trivial

/-- What is kept is within its bounds, and the messages are small. -/
structure Safe (d : Decoder) : Prop where
  good : d.Good
  fault : d.fault = none
  bounded : ∀ fd, ∀ uc ∈ d.queue.pending fd, uc.Bounded
  small : ∀ x ∈ d.produced, x.handshake = false → x.pack.buffer.length ≤ MAX_PACKSIZE

/-- What a segment produces is of its kind. -/
theorem produced_handshake {handshake : Bool} {q q' : Queue} {returned : Returned} {x : Produced}
    (hx : x ∈ returned.produced handshake q q') : x.handshake = handshake := by
  match returned, hx with
  | .data fd buffer, hx =>
    rw [List.mem_singleton.mp hx]
  | .more, hx =>
    obtain ⟨pack, -, rfl⟩ := List.mem_map.mp hx
    rfl

/-- At the start nothing is kept. -/
theorem safe_init : init.Safe where
  good := good_init
  fault := rfl
  bounded := nofun
  small := nofun

/-- One event. -/
theorem Safe.next (h : d.Safe) {e : Event} (he : d.Fits e) : (d.next e).Safe := by
  have hgood := h.good.next e
  match e, he with
  | .segment fd buffer handshake, he =>
    obtain ⟨m, hfeed, hbounded, hsmall⟩ := feed_sound fd (h.bounded fd) he
    unfold Decoder.next at hgood ⊢
    dsimp only at hgood ⊢
    split
    · rename_i fault hcall
      rw [h.good.single.faults hcall] at hfeed
      cases hfeed
    · rename_i q returned hcall
      obtain ⟨m', hfeed', rfl, hcalls⟩ := h.good.single.calls hcall
      cases hfeed.symm.trans hfeed'
      rw [hcall] at hgood
      refine ⟨hgood, h.fault, ?_, ?_⟩
      · intro fd' uc huc
        change uc ∈ q.pending fd' at huc
        rw [hcalls.pending] at huc
        split at huc
        · exact hbounded uc huc
        · exact h.bounded fd' uc huc
      · intro x hx hfalse
        obtain hx | hx := List.mem_append.mp hx
        · exact h.small x hx hfalse
        · have hpack : x.pack ∈ m.messages.map (Netpack.mk fd) :=
            hcalls.packs handshake ▸ List.mem_map_of_mem hx
          obtain ⟨msg, hmsg, heq⟩ := List.mem_map.mp hpack
          rw [← heq]
          exact hsmall ((produced_handshake hx).symm.trans hfalse) msg hmsg
  | .close fd, _ =>
    refine ⟨hgood, h.fault, ?_, h.small⟩
    intro fd' uc huc
    change uc ∈ (d.queue.closeUncomplete fd).pending fd' at huc
    rw [(h.good.single.closeUncomplete fd).2] at huc
    split at huc
    · cases huc
    · exact h.bounded fd' uc huc
  | .lpop, _ =>
    unfold Decoder.next at hgood ⊢
    dsimp only at hgood ⊢
    split
    · exact h
    · rename_i pack q hpop
      rw [hpop] at hgood
      obtain ⟨_, _, heq⟩ := Option.map_eq_some_iff.mp hpop
      cases heq
      exact ⟨hgood, h.fault, h.bounded, h.small⟩

/-- Every run, by induction on its events. -/
theorem safe_of_reach (h : decoder.ReachUnder Fits d) : d.Safe := by
  refine h.invariant Safe ?_ ?_
  · rintro d rfl
    exact safe_init
  · intro d e d' _ hsafe he hstep
    obtain ⟨-, rfl⟩ := step_eq hstep
    exact hsafe.next he

/-- **Safety on hostile input.** In a run whose calls all fit no call runs into a memory error, and no
message of a call after the handshake is larger than `MAX_PACKSIZE`. -/
theorem safe_of_fits (d : Decoder) (h : decoder.ReachUnder Fits d) :
    d.fault = none ∧
      ∀ x ∈ d.produced, x.handshake = false → x.pack.buffer.length ≤ MAX_PACKSIZE :=
  ⟨(safe_of_reach h).fault, (safe_of_reach h).small⟩

/-- A request of 1024 bytes without an end, and one byte more. -/
theorem not_safe : ¬∀ d, decoder.Reach d → d.fault = none ∧
    ∀ x ∈ d.produced, x.handshake = false → x.pack.buffer.length ≤ MAX_PACKSIZE := by
  intro hall
  have hrun : ∃ d ∈ decoder.exec init
      [.segment 5 (List.replicate 1024 65) true, .segment 5 [65] true],
      d.fault = some (5, .headerWrite) := by decide +kernel
  obtain ⟨d, hd, hfault⟩ := hrun
  have hnone := (hall d (Machine.Reach.exec (.start rfl) hd)).1
  rw [hfault] at hnone
  cases hnone

/-- A request in two pieces, a frame of 126 bytes declared as one of 2^32 + 126, and a close frame. -/
theorem safe_of_fits_sample : ∃ d ∈ decoder.exec init
    [.segment 5 [65, 13, 10] true, .segment 5 [13, 10] true,
      .segment 5 ([0x82, 0x7f, 0, 0, 0, 1, 0, 0, 0, 126] ++ List.replicate 126 7) false,
      .segment 5 [0x88] false, .segment 5 [0] false],
    d.fault = none ∧
      ∀ x ∈ d.produced, x.handshake = false → x.pack.buffer.length ≤ MAX_PACKSIZE := by
  have hrun : ∃ d ∈ decoder.execWhile (fun d e => decide (d.Fits e)) init
      [.segment 5 [65, 13, 10] true, .segment 5 [13, 10] true,
        .segment 5 ([0x82, 0x7f, 0, 0, 0, 1, 0, 0, 0, 126] ++ List.replicate 126 7) false,
        .segment 5 [0x88] false, .segment 5 [0] false], d.fault = none := by decide +kernel
  obtain ⟨d, hd, -⟩ := hrun
  exact ⟨d, Machine.exec_of_execWhile hd, safe_of_fits d
    (Machine.ReachUnder.execWhile (fun _ _ h => of_decide_eq_true h) (.start rfl) hd)⟩

end Decoder

end AntServer.WebSocket
