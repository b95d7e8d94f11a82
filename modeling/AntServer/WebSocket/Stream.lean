/-
# AntServer.WebSocket.Stream — a stream of data frames through one connection's decoder

Between two segments the decoder of a connection is at the start of a frame, in its header, or in its
payload (`Amid`). Fed the rest of the frame and more, on whichever of its three paths, it has the frame's
payload as a message and goes on behind it (`feed_complete`); fed less, it is amid the frame further on
(`feed_amid`). So a segment of a stream of frames gives the payloads of the frames that end in it, in
order, and leaves the decoder where the segment ends (`feed_at`).
-/
import AntServer.WebSocket.Frames

namespace AntServer.WebSocket

variable {f : DataFrame}

/-! ## The start of a frame -/

/-- What no loop throws away: an incomplete header and a length. -/
def Keeps (bad : Int → Bool) : Prop := ∀ n, -1 ≤ n → bad n = false

theorem keeps_badMore : Keeps badMore := by
  intro n hn
  apply decide_eq_false
  omega

theorem keeps_badFirst : Keeps badFirst := by
  intro n hn
  apply decide_eq_false
  omega

variable {bad : Int → Bool} (hbad : Keeps bad)

include hbad in
theorem readWhile_part {part rest : Bytes} (h : part ++ rest = f.header) (hrest : rest ≠ [])
    (head : Head) : (readWhile bad part head).clip = ⟨-1, head, part⟩ := by
  have hread := f.readSize_part h hrest head
  rw [readWhile_of_not_bad, hread]
  · rfl
  · rw [hread]
    exact hbad (-1) le_rfl

include hbad in
theorem readWhile_header (rest : Bytes) (n : Nat) : (readWhile bad (f.header ++ rest) ⟨n, {}⟩).clip =
    ⟨f.data.length, ⟨f.header.length, f.mask⟩, f.header ++ rest⟩ := by
  have hread := f.readSize_header rest n
  have hle : ¬(f.data.length : Int) > MAX_PACKSIZE := not_lt.mpr (Int.ofNat_le.mpr f.length_le)
  rw [readWhile_of_not_bad, hread]
  · unfold Start.clip
    dsimp only
    rw [if_neg hle]
  · rw [hread]
    exact hbad _ (by omega)

/-- A header that is kept fits in `uc->header`. -/
theorem headerUncomplete_part {part rest : Bytes} (h : part ++ rest = f.header) :
    headerUncomplete false part = pure (.header part) := by
  have hlen := f.length_header_le
  rw [← h, List.length_append] at hlen
  unfold headerUncomplete
  rw [if_neg Bool.noConfusion, if_neg]
  show ¬part.length > 1024
  omega

theorem copyPack_of_le {size : Nat} {buffer data : Bytes} (h : buffer.length + data.length ≤ size) :
    copyPack size buffer data = pure (buffer ++ data) := if_neg (not_lt.mpr h)

theorem malloc_natCast (n : Nat) : malloc n = pure n := by
  unfold malloc
  rw [if_neg (not_lt.mpr (Int.natCast_nonneg n))]
  rfl

/-! ## Three paths -/

namespace DataFrame

variable (f)

/-- What is kept when the frame's payload was read up to and without `d₀`'s end. -/
def bodyAt (d₀ : Bytes) : Uncomplete :=
  .body f.data.length (decodeWsmaskData d₀ f.mask).1 (f.mask.skip d₀.length)

variable {f}

theorem bodyUncomplete_eq {d₀ d₁ : Bytes} (h : d₀ ++ d₁ = f.data) :
    bodyUncomplete f.data.length f.mask d₀ = pure (f.bodyAt d₀) := by
  have hle : ([] : Bytes).length + (decodeWsmaskData d₀ f.mask).1.length ≤ f.data.length := by
    rw [Mask.length_decode, ← h, List.length_append, List.length_nil]
    omega
  unfold bodyUncomplete
  rw [malloc_natCast, pure_bind, copyPack_of_le hle, pure_bind, Mask.decode_snd]
  rfl

theorem clonePack_eq (rest : Bytes) :
    clonePack f.data.length f.mask (f.data ++ rest) = pure f.payload := by
  have hle : ([] : Bytes).length + (decodeWsmaskData f.data f.mask).1.length ≤ f.data.length := by
    rw [Mask.length_decode, List.length_nil, Nat.zero_add]
  unfold clonePack
  rw [malloc_natCast, pure_bind, List.take_left, copyPack_of_le hle, payload_eq]
  rfl

end DataFrame

/-- `push_more` on what may be nothing. -/
def trailing (buffer : Bytes) : Except Fault (Option Uncomplete × List Bytes) :=
  if buffer = [] then pure (none, []) else more buffer false

theorem readStart_part {part rest : Bytes} (h : part ++ rest = f.header) (hrest : rest ≠ []) :
    (readStart false badMore part = ⟨-1, {}, part⟩) ∧ readStart false badFirst part = ⟨-1, {}, part⟩ :=
  ⟨readWhile_part keeps_badMore h hrest {}, readWhile_part keeps_badFirst h hrest {}⟩

theorem more_part {part rest : Bytes} (h : part ++ rest = f.header) (hrest : rest ≠ []) :
    more part false = pure (some (.header part), []) := by
  rw [more, (readStart_part h hrest).1]
  dsimp only
  rw [dif_pos rfl, headerUncomplete_part h]
  rfl

theorem drop_header (rest : Bytes) : (f.header ++ rest).drop f.header.length = rest :=
  List.drop_left

theorem length_ne_neg_one (n : Nat) : ¬(n : Int) = -1 := by omega

theorem more_short {d₀ d₁ : Bytes} (h : d₀ ++ d₁ = f.data) (hd₁ : d₁ ≠ []) :
    more (f.header ++ d₀) false = pure (some (f.bodyAt d₀), []) := by
  have hstart : readStart false badMore (f.header ++ d₀) = _ := readWhile_header keeps_badMore d₀ 0
  have hlt : ((d₀.length : Nat) : Int) < (f.data.length : Nat) := by
    rw [← h, List.length_append]
    have := List.length_pos_of_ne_nil hd₁
    omega
  rw [more, hstart]
  dsimp only
  rw [dif_neg (length_ne_neg_one _), drop_header, if_pos ⟨hlt, rfl⟩, DataFrame.bodyUncomplete_eq h]
  rfl

/-- A whole frame in `push_more`. -/
theorem more_frame (rest : Bytes) :
    more (f.bytes ++ rest) false = (fun m => (m.1, f.payload :: m.2)) <$> trailing rest := by
  have hstart : readStart false badMore (f.header ++ (f.data ++ rest)) = _ :=
    readWhile_header keeps_badMore (f.data ++ rest) 0
  have hge : ¬((((f.data ++ rest).length : Nat) : Int) < (f.data.length : Nat) ∧ false = false) := by
    rw [List.length_append]
    omega
  show more (f.header ++ f.data ++ rest) false = _
  rw [List.append_assoc, more, hstart]
  dsimp only
  rw [dif_neg (length_ne_neg_one _), drop_header, if_neg hge, DataFrame.clonePack_eq, pure_bind,
    Int.toNat_natCast, List.drop_left]
  unfold trailing
  split
  · rfl
  · rfl

theorem feedFresh_part (fd : Fd) {part rest : Bytes} (h : part ++ rest = f.header) (hrest : rest ≠ []) :
    feedFresh fd part false = pure ⟨some (.header part), [], .queue⟩ := by
  unfold feedFresh
  rw [(readStart_part h hrest).2]
  dsimp only
  rw [if_pos rfl, headerUncomplete_part h]
  rfl

theorem feedFresh_short (fd : Fd) {d₀ d₁ : Bytes} (h : d₀ ++ d₁ = f.data) (hd₁ : d₁ ≠ []) :
    feedFresh fd (f.header ++ d₀) false = pure ⟨some (f.bodyAt d₀), [], .queue⟩ := by
  have hstart : readStart false badFirst (f.header ++ d₀) = _ := readWhile_header keeps_badFirst d₀ 0
  have hlt : ((d₀.length : Nat) : Int) < (f.data.length : Nat) := by
    rw [← h, List.length_append]
    have := List.length_pos_of_ne_nil hd₁
    omega
  unfold feedFresh
  rw [hstart]
  dsimp only
  rw [if_neg (length_ne_neg_one _), if_neg (by omega), drop_header, if_pos ⟨hlt, rfl⟩,
    DataFrame.bodyUncomplete_eq h]
  rfl

/-- A whole frame in a segment of its own. -/
theorem feedFresh_frame (fd : Fd) (rest : Bytes) :
    feedFresh fd (f.bytes ++ rest) false = complete fd f.payload rest false := by
  have hstart : readStart false badFirst (f.header ++ (f.data ++ rest)) = _ :=
    readWhile_header keeps_badFirst (f.data ++ rest) 0
  have hge : ¬((((f.data ++ rest).length : Nat) : Int) < (f.data.length : Nat) ∧ false = false) := by
    rw [List.length_append]
    omega
  have hexact : (((f.data ++ rest).length : Nat) : Int) = (f.data.length : Nat) ↔ rest = [] := by
    rw [List.length_append, ← List.length_eq_zero_iff]
    omega
  show feedFresh fd (f.header ++ f.data ++ rest) false = _
  unfold feedFresh complete
  rw [List.append_assoc, hstart]
  dsimp only
  rw [if_neg (length_ne_neg_one _), if_neg (by omega), drop_header, if_neg hge,
    DataFrame.clonePack_eq, pure_bind, Int.toNat_natCast, List.drop_left]
  exact if_congr hexact rfl rfl

theorem feedBody_short (fd : Fd) {d₀ d₁ d₂ : Bytes} (h : d₀ ++ (d₁ ++ d₂) = f.data) (hd₂ : d₂ ≠ []) :
    feedBody fd f.data.length (decodeWsmaskData d₀ f.mask).1 (f.mask.skip d₀.length) d₁ false =
      pure ⟨some (f.bodyAt (d₀ ++ d₁)), [], .queue⟩ := by
  have hlen : f.data.length = d₀.length + (d₁.length + d₂.length) := by
    rw [← h, List.length_append, List.length_append]
  have hpos := List.length_pos_of_ne_nil hd₂
  unfold feedBody
  dsimp only
  rw [Mask.length_decode, if_pos (by omega), copyPack_of_le, ← Mask.decode_append, Mask.decode_snd,
    Mask.skip_skip, ← List.length_append]
  · rfl
  · rw [Mask.length_decode, Mask.length_decode]
    omega

/-- The rest of a payload. -/
theorem feedBody_rest (fd : Fd) {d₀ d₁ : Bytes} (h : d₀ ++ d₁ = f.data) (rest : Bytes) :
    feedBody fd f.data.length (decodeWsmaskData d₀ f.mask).1 (f.mask.skip d₀.length) (d₁ ++ rest)
      false = complete fd f.payload rest false := by
  have hlen : f.data.length = d₀.length + d₁.length := by rw [← h, List.length_append]
  have hneed : f.data.length - d₀.length = d₁.length := by omega
  unfold feedBody
  dsimp only
  rw [Mask.length_decode, hneed, if_neg, List.take_left, List.drop_left, copyPack_of_le, pure_bind,
    ← Mask.decode_append, h, DataFrame.payload_eq]
  · rw [Mask.length_decode, Mask.length_decode]
    omega
  · rw [List.length_append]
    omega

/-! ## A header in pieces -/

theorem readHeader_eq (header : Bytes) (head : Head) :
    readHeader false header head = (readWhile badFirst header head).clip := rfl

theorem part_lt {part rest : Bytes} (h : part ++ rest = f.header) : part.length < HEADERSIZE := by
  have hlen := f.length_header_le
  rw [← h, List.length_append] at hlen
  show part.length < 1024
  omega

/-- The segment ends within the header. -/
theorem fillHeader_part {s : Start} {buffer rest : Bytes} (hhead : s.head = {})
    (h : s.buffer ++ (buffer ++ rest) = f.header) (hrest : rest ≠ []) (hbuffer : buffer ≠ []) :
    fillHeader false s buffer = pure (⟨-1, {}, s.buffer ++ buffer⟩, []) := by
  induction buffer generalizing s with
  | nil => exact absurd rfl hbuffer
  | cons b buffer ih =>
    have h' : s.buffer ++ [b] ++ (buffer ++ rest) = f.header := by rw [← h, List.append_assoc]; rfl
    have hread := readWhile_part keeps_badFirst h' (List.append_ne_nil_of_right_ne_nil _ hrest) s.head
    rw [fillHeader_cons false (part_lt h), readHeader_eq, hread,
      if_neg (show ¬(-1 : Int) ≥ 0 by decide), hhead]
    by_cases hnil : buffer = []
    · rw [hnil]
      rfl
    · rw [ih rfl h' hnil, List.append_assoc]
      rfl

/-- The header ends in the segment. -/
theorem fillHeader_header {s : Start} {buffer : Bytes} (hhead : s.head = {})
    (h : s.buffer ++ buffer = f.header) (hbuffer : buffer ≠ []) (rest : Bytes) :
    fillHeader false s (buffer ++ rest) =
      pure (⟨f.data.length, ⟨f.header.length, f.mask⟩, f.header⟩, rest) := by
  induction buffer generalizing s with
  | nil => exact absurd rfl hbuffer
  | cons b buffer ih =>
    have h' : s.buffer ++ [b] ++ buffer = f.header := by rw [← h, List.append_assoc]; rfl
    rw [List.cons_append, fillHeader_cons false (part_lt h), readHeader_eq, hhead]
    by_cases hnil : buffer = []
    · have hread := readWhile_header (f := f) keeps_badFirst [] 0
      rw [List.append_nil] at hread
      rw [hnil, List.append_nil] at h'
      rw [h', hread, if_pos (Int.natCast_nonneg _), hnil]
      rfl
    · have hread := readWhile_part keeps_badFirst h' hnil {}
      rw [hread, if_neg (show ¬(-1 : Int) ≥ 0 by decide)]
      exact ih rfl h' hnil

theorem feedHeader_part (fd : Fd) {part buffer rest : Bytes} (h : part ++ (buffer ++ rest) = f.header)
    (hrest : rest ≠ []) (hbuffer : buffer ≠ []) : feedHeader fd part buffer false =
      pure ⟨some (.header (part ++ buffer)), [], .queue⟩ := by
  unfold feedHeader
  rw [fillHeader_part rfl h hrest hbuffer, pure_bind]
  rfl

theorem feedHeader_header (fd : Fd) {part buffer : Bytes} (h : part ++ buffer = f.header)
    (hbuffer : buffer ≠ []) (rest : Bytes) : feedHeader fd part (buffer ++ rest) false =
      feedBody fd f.data.length [] f.mask rest false := by
  unfold feedHeader
  rw [fillHeader_header rfl h hbuffer rest, pure_bind]
  dsimp only
  rw [if_neg (length_ne_neg_one _), if_neg (by omega), malloc_natCast]
  rfl

/-! ## Amid a frame -/

/-- What is kept of a connection amid the frame `f`, when the bytes `left` of it are still to come. -/
inductive Amid (f : DataFrame) : Option Uncomplete → Bytes → Prop
  | start : Amid f none f.bytes
  | header {part tail : Bytes} : part ++ tail = f.header → tail ≠ [] →
      Amid f (some (.header part)) (tail ++ f.data)
  | body {d₀ d₁ : Bytes} : d₀ ++ d₁ = f.data → d₁ ≠ [] → Amid f (some (f.bodyAt d₀)) d₁

theorem Amid.ne_nil {p : Option Uncomplete} {left : Bytes} (h : Amid f p left) : left ≠ [] := by
  cases h with
  | start => exact List.cons_ne_nil _ _
  | header _ htail => exact List.append_ne_nil_of_left_ne_nil htail _
  | body _ hd₁ => exact hd₁

/-- On each path a frame is complete when the rest of it comes. -/
theorem feed_complete (fd : Fd) {p : Option Uncomplete} {left : Bytes} (h : Amid f p left)
    (rest : Bytes) : feed fd p (left ++ rest) false = complete fd f.payload rest false := by
  cases h with
  | start => exact feedFresh_frame fd rest
  | @header part tail hheader htail =>
    show feedHeader fd part (tail ++ f.data ++ rest) false = _
    rw [List.append_assoc, feedHeader_header fd hheader htail]
    have hrest := feedBody_rest fd (List.nil_append f.data) rest
    rw [Mask.decode_nil, List.length_nil, Mask.skip_zero] at hrest
    exact hrest
  | body hdata hd₁ => exact feedBody_rest fd hdata rest

/-- Where a cut of a list stands that is two others in a row: within the first, or behind it. -/
theorem append_cases {s left a b : Bytes} (h : s ++ left = a ++ b) :
    (∃ t, t ≠ [] ∧ s ++ t = a ∧ left = t ++ b) ∨ ∃ d, s = a ++ d ∧ d ++ left = b := by
  obtain ⟨t, ha, hleft⟩ | ⟨d, hs, hb⟩ := List.append_eq_append_iff.mp h
  · by_cases ht : t = []
    · subst ht
      exact .inr ⟨[], by rw [ha, List.append_nil, List.append_nil], by rw [hleft]; rfl⟩
    · exact .inl ⟨t, ht, ha.symm, hleft⟩
  · exact .inr ⟨d, hs, hb.symm⟩

/-- A prefix of the frame in `push_more`. -/
theorem more_amid {part left : Bytes} (h : part ++ left = f.bytes) (hleft : left ≠ []) :
    ∃ p, more part false = pure (p, []) ∧ Amid f p left := by
  obtain ⟨tail, htail, hheader, rfl⟩ | ⟨d₀, rfl, hdata⟩ := append_cases h
  · exact ⟨some (.header part), more_part hheader htail, .header hheader htail⟩
  · exact ⟨some (f.bodyAt d₀), more_short hdata hleft, .body hdata hleft⟩

/-- On each path the decoder goes on in the frame when not all of the rest of it comes. -/
theorem feed_amid (fd : Fd) {p : Option Uncomplete} {s left : Bytes} (h : Amid f p (s ++ left))
    (hs : s ≠ []) (hleft : left ≠ []) :
    ∃ p', feed fd p s false = pure ⟨p', [], .queue⟩ ∧ Amid f p' left := by
  generalize hr : s ++ left = r at h
  cases h with
  | start =>
    obtain ⟨tail, htail, hheader, rfl⟩ | ⟨d₀, rfl, hdata⟩ := append_cases hr
    · exact ⟨some (.header s), feedFresh_part fd hheader htail, .header hheader htail⟩
    · exact ⟨some (f.bodyAt d₀), feedFresh_short fd hdata hleft, .body hdata hleft⟩
  | @header part tail hheader htail =>
    obtain ⟨t, ht, hst, rfl⟩ | ⟨d₀, rfl, hdata⟩ := append_cases hr
    · rw [← hst] at hheader
      refine ⟨some (.header (part ++ s)), feedHeader_part fd hheader ht hs, .header ?_ ht⟩
      rw [← hheader, List.append_assoc]
    · -- the header ends in the segment, and the payload begins
      refine ⟨some (f.bodyAt d₀), ?_, .body hdata hleft⟩
      show feedHeader fd part (tail ++ d₀) false = _
      rw [feedHeader_header fd hheader htail]
      have hshort := feedBody_short fd ((List.nil_append _).trans hdata) hleft
      rw [Mask.decode_nil, List.length_nil, Mask.skip_zero] at hshort
      exact hshort
  | @body d₀ d₁ hdata hd₁ =>
    subst hr
    refine ⟨some (f.bodyAt (d₀ ++ s)), feedBody_short fd hdata hleft, .body ?_ hleft⟩
    rw [← hdata, List.append_assoc]

/-! ## A stream -/

/-- Frames, one behind the other. -/
def stream (fs : List DataFrame) : Bytes := fs.flatMap DataFrame.bytes

theorem stream_cons (f : DataFrame) (fs : List DataFrame) : stream (f :: fs) = f.bytes ++ stream fs :=
  List.flatMap_cons

/-- What is kept of a connection when the frames `fs` have still to end, and `left` is to come of them. -/
def At (p : Option Uncomplete) : List DataFrame → Bytes → Prop
  | [], left => p = none ∧ left = []
  | f :: fs, left => ∃ rest, Amid f p rest ∧ left = rest ++ stream fs

theorem at_start (fs : List DataFrame) : At none fs (stream fs) :=
  match fs with
  | [] => ⟨rfl, rfl⟩
  | f :: fs => ⟨f.bytes, .start, stream_cons f fs⟩

/-- Nothing is to come of no frames only. -/
theorem At.eq_nil {p : Option Uncomplete} {fs : List DataFrame} (h : At p fs []) : fs = [] := by
  match fs, h with
  | [], _ => rfl
  | f :: fs, ⟨rest, hamid, hnil⟩ =>
    exact absurd (List.append_eq_nil_iff.mp hnil.symm).1 hamid.ne_nil

/-- The messages of a call, in the order it has them. -/
def Fed.messages (m : Fed) : List Bytes :=
  match m.returned with
  | .data _ msg => m.pushed ++ [msg]
  | _ => m.pushed

theorem trailing_frame (f : DataFrame) (rest : Bytes) :
    trailing (f.bytes ++ rest) = (fun m => (m.1, f.payload :: m.2)) <$> trailing rest :=
  (if_neg (List.cons_ne_nil _ _)).trans (more_frame rest)

/-- Frames in `push_more`, with anything behind them. -/
theorem trailing_stream (fs : List DataFrame) (rest : Bytes) : trailing (stream fs ++ rest) =
    (fun m => (m.1, fs.map DataFrame.payload ++ m.2)) <$> trailing rest := by
  induction fs with
  | nil => exact (id_map _).symm
  | cons f fs ih =>
    rw [stream_cons, List.append_assoc, trailing_frame, ih, Functor.map_map]
    rfl

/-- A segment of the stream in `push_more`. -/
theorem trailing_at {fs : List DataFrame} {s left : Bytes} (h : s ++ left = stream fs) :
    ∃ done todo p, fs = done ++ todo ∧ trailing s = pure (p, done.map DataFrame.payload) ∧
      At p todo left := by
  induction fs generalizing s with
  | nil =>
    obtain ⟨rfl, rfl⟩ := List.append_eq_nil_iff.mp h
    exact ⟨[], [], none, rfl, rfl, rfl, rfl⟩
  | cons f fs ih =>
    rw [stream_cons] at h
    obtain ⟨t, ht, hst, rfl⟩ | ⟨s', rfl, hs'⟩ := append_cases h
    · by_cases hs : s = []
      · subst hs
        rw [List.nil_append] at hst
        exact ⟨[], f :: fs, none, rfl, rfl, t, hst ▸ .start, rfl⟩
      · obtain ⟨p, hmore, hamid⟩ := more_amid hst ht
        refine ⟨[], f :: fs, p, rfl, ?_, t, hamid, rfl⟩
        unfold trailing
        rw [if_neg hs, hmore]
        rfl
    · obtain ⟨done, todo, p, rfl, htrailing, hat⟩ := ih hs'
      refine ⟨f :: done, todo, p, rfl, ?_, hat⟩
      rw [trailing_frame, htrailing]
      rfl

theorem complete_eq (fd : Fd) (msg rest : Bytes) : complete fd msg rest false =
    (fun m => if rest = [] then ⟨none, [], .data fd msg⟩ else ⟨m.1, msg :: m.2, .more⟩) <$>
      trailing rest := by
  unfold complete trailing
  by_cases h : rest = []
  · simp only [if_pos h]
    rfl
  · simp only [if_neg h]

/-- `R` says, of what is kept of a connection, which frames have still to end and which bytes are still to
come; a segment takes it on, and its messages are the payloads of the frames that end in it. -/
def Follows (R : Option Uncomplete → List DataFrame → Bytes → Prop) : Prop :=
  ∀ fd p fs s left, R p fs (s ++ left) → s ≠ [] →
    ∃ done todo m, fs = done ++ todo ∧ feed fd p s false = .ok m ∧ R m.saved todo left ∧
      m.messages = done.map DataFrame.payload ∧ m.returned ≠ .close fd

/-- A segment of a stream of frames. -/
theorem feed_at : Follows At := by
  intro fd p fs s left h hs
  match fs, h with
  | [], ⟨_, hnil⟩ => exact absurd (List.append_eq_nil_iff.mp hnil).1 hs
  | f :: fs, ⟨rest, hamid, hleft⟩ =>
    obtain ⟨t, ht, rfl, rfl⟩ | ⟨s', rfl, hs'⟩ := append_cases hleft
    · obtain ⟨p', hfeed, hamid'⟩ := feed_amid fd hamid hs ht
      exact ⟨[], f :: fs, _, rfl, hfeed, ⟨t, hamid', rfl⟩, rfl, nofun⟩
    · obtain ⟨done, todo, p', rfl, htrailing, hat⟩ := trailing_at hs'
      have hfeed := feed_complete fd hamid s'
      rw [complete_eq, htrailing] at hfeed
      by_cases hnil : s' = []
      · -- the frame ends the segment, and is returned
        subst hnil
        obtain ⟨rfl, hdone⟩ := Prod.mk.inj (Except.ok.inj htrailing)
        have hnone : done = [] := List.map_eq_nil_iff.mp hdone.symm
        subst hnone
        exact ⟨[f], todo, _, rfl, hfeed, hat, rfl, nofun⟩
      · simp only [if_neg hnil] at hfeed
        exact ⟨f :: done, todo, _, rfl, hfeed, hat, rfl, nofun⟩

/-- The rest of some frames and more, in one segment. -/
theorem feed_stream (fd : Fd) {p : Option Uncomplete} {fs : List DataFrame} {s u : Bytes}
    (h : At p fs s) (hs : s ≠ []) (hu : u ≠ []) : feed fd p (s ++ u) false =
      (fun m => ⟨m.1, fs.map DataFrame.payload ++ m.2, .more⟩) <$> more u false := by
  match fs, h with
  | [], ⟨_, hnil⟩ => exact absurd hnil hs
  | f :: fs, ⟨rest, hamid, hrest⟩ =>
    have hne : stream fs ++ u ≠ [] := List.append_ne_nil_of_right_ne_nil _ hu
    have htrailing : trailing u = more u false := if_neg hu
    rw [hrest, List.append_assoc, feed_complete fd hamid, complete_eq, trailing_stream, htrailing,
      Functor.map_map]
    simp only [if_neg hne]
    rfl

end AntServer.WebSocket
