/-
# AntServer.WebSocket.Resumed — a header that comes in pieces, whatever its bytes

`read_size` does not look behind the 14 bytes a header can have, and bytes behind what it made up its
mind about change nothing. So the loop that adds a segment to a header byte by byte, dropping two bytes
whenever they are no frame's, stands where one `read_size` loop over all the bytes would stand; it ends
at the first byte with which the header is complete, or with the segment (`fillHeader_frame`).
-/
import AntServer.WebSocket.Netpack

namespace AntServer.WebSocket

/-! ## What `read_size` looks at -/

/-- The size does not depend on the header that was there before. -/
theorem readSize_fst (buffer : Bytes) (head head' : Head) :
    (readSize buffer head).1 = (readSize buffer head').1 := by
  unfold readSize
  dsimp only
  by_cases hsize : buffer.length < 2
  · rw [if_pos hsize, if_pos hsize]
  rw [if_neg hsize, if_neg hsize]
  by_cases hrsv : buffer.getD 0 0 >>> 6 &&& 1 ≠ 0 ∨ buffer.getD 0 0 >>> 5 &&& 1 ≠ 0 ∨
      buffer.getD 0 0 >>> 4 &&& 1 ≠ 0
  · rw [if_pos hrsv, if_pos hrsv]
  rw [if_neg hrsv, if_neg hrsv]
  by_cases hcont : buffer.getD 0 0 >>> 7 &&& 1 = 0 ∨ buffer.getD 0 0 &&& 0xf = 0
  · rw [if_pos hcont, if_pos hcont]
  rw [if_neg hcont, if_neg hcont]
  by_cases hclose : buffer.getD 0 0 &&& 0xf = 8
  · rw [if_pos hclose, if_pos hclose]
  rw [if_neg hclose, if_neg hclose]
  split
  · rfl
  · split
    · rfl
    · split
      · rfl
      · rfl

theorem getD_append {x : Bytes} {i : Nat} (hi : i < x.length) (y : Bytes) :
    (x ++ y).getD i 0 = x.getD i 0 := by
  rw [List.getD_eq_getElem?_getD, List.getD_eq_getElem?_getD, List.getElem?_append_left hi]

theorem drop_take_append {x : Bytes} {i n : Nat} (h : i + n ≤ x.length) (y : Bytes) :
    ((x ++ y).drop i).take n = (x.drop i).take n := by
  rw [List.drop_append_of_le_length (by omega), List.take_append_of_le_length]
  rw [List.length_drop]
  omega

/-- A length that is read stays when bytes are appended. -/
theorem readLength_append {x : Bytes} (hx : 2 ≤ x.length)
    (h : readLength x ≠ none ∨ 10 ≤ x.length) (y : Bytes) : readLength (x ++ y) = readLength x := by
  have hhead : WEBSOCKET_HEADER_LEN = 2 := rfl
  unfold readLength at h ⊢
  dsimp only at h ⊢
  rw [getD_append (by omega), List.length_append]
  split
  · rfl
  · rename_i hlong
    rw [if_neg hlong] at h
    split
    · rename_i hshort
      rw [if_pos hshort] at h
      have hroom : ¬x.length < WEBSOCKET_HEADER_LEN + 2 := by
        intro hlt
        rw [if_pos hlt] at h
        exact h.elim (absurd rfl) (by omega)
      rw [if_neg hroom, if_neg (by omega), drop_take_append (by omega)]
    · rename_i hshort
      rw [if_neg hshort] at h
      have hroom : ¬x.length < WEBSOCKET_HEADER_LEN + 8 := by
        intro hlt
        rw [if_pos hlt] at h
        exact h.elim (absurd rfl) (by omega)
      rw [if_neg hroom, if_neg (by omega), drop_take_append (by omega)]

/-- A code other than -1, and any code of 14 bytes, stays when more bytes come. -/
theorem readSize_append {x : Bytes} {head : Head} (h : (readSize x head).1 ≠ -1 ∨ 14 ≤ x.length)
    (y : Bytes) : readSize (x ++ y) head = readSize x head := by
  have hx : 2 ≤ x.length := by
    by_contra hlt
    rw [readSize_short (not_le.mp hlt)] at h
    exact h.elim (absurd rfl) (by omega)
  have hx' : ¬(x ++ y).length < 2 := by
    rw [List.length_append]
    omega
  unfold readSize at h ⊢
  dsimp only at h ⊢
  rw [getD_append (by omega), getD_append (by omega), if_neg hx', if_neg (not_lt.mpr hx)]
  rw [if_neg (not_lt.mpr hx)] at h
  by_cases hrsv : x.getD 0 0 >>> 6 &&& 1 ≠ 0 ∨ x.getD 0 0 >>> 5 &&& 1 ≠ 0 ∨ x.getD 0 0 >>> 4 &&& 1 ≠ 0
  · rw [if_pos hrsv, if_pos hrsv]
  rw [if_neg hrsv] at h
  rw [if_neg hrsv, if_neg hrsv]
  by_cases hcont : x.getD 0 0 >>> 7 &&& 1 = 0 ∨ x.getD 0 0 &&& 0xf = 0
  · rw [if_pos hcont, if_pos hcont]
  rw [if_neg hcont] at h
  rw [if_neg hcont, if_neg hcont]
  by_cases hclose : x.getD 0 0 &&& 0xf = 8
  · rw [if_pos hclose, if_pos hclose]
  rw [if_neg hclose] at h
  rw [if_neg hclose, if_neg hclose]
  match hlen : readLength x with
  | none =>
    rw [hlen] at h
    have hlong : 14 ≤ x.length := h.resolve_left (absurd rfl)
    rw [readLength_append hx (.inr (by omega)), hlen]
  | some (packSize, offset) =>
    have hoffset := (readLength_offset hlen).2.1
    rw [readLength_append hx (.inl (hlen ▸ Option.some_ne_none _)), hlen]
    rw [hlen] at h
    dsimp only at h ⊢
    split
    · rfl
    · rename_i hmask
      rw [if_neg hmask] at h
      have hroom : ¬offset + WEBSOCKET_MASK_LEN > x.length := by
        intro hlt
        rw [if_pos hlt] at h
        have : WEBSOCKET_MASK_LEN = 4 := rfl
        exact h.elim (absurd rfl) (by omega)
      rw [if_neg hroom, if_neg, drop_take_append (not_lt.mp hroom)]
      rw [List.length_append]
      omega

/-! ## The loop over all the bytes -/

/-- Nor does what is kept of the bytes. -/
theorem readWhile_buffer (bad : Int → Bool) (buffer : Bytes) (head head' : Head) :
    (readWhile bad buffer head).buffer = (readWhile bad buffer head').buffer := by
  fun_induction readWhile bad buffer head generalizing head' with
  | case1 b₀ b₁ buffer head hbad ih =>
    rw [readSize_fst _ head head'] at hbad
    rw [readWhile_of_bad hbad]
    exact ih _
  | case2 b₀ b₁ buffer head hbad =>
    rw [readSize_fst _ head head'] at hbad
    rw [readWhile_of_not_bad (Bool.eq_false_iff.mpr hbad)]
  | case3 buffer head hshort => rw [readWhile.eq_2 bad buffer head' hshort]

/-- The size is that of the bytes that are kept. -/
theorem readWhile_packSize (bad : Int → Bool) (buffer : Bytes) (head : Head) :
    (readWhile bad buffer head).packSize = (readSize (readWhile bad buffer {}).buffer {}).1 := by
  obtain ⟨head', heq⟩ := readWhile_eq bad buffer head
  rw [← readWhile_buffer bad buffer head {}, readSize_fst _ {} head', heq]

/-- What the loop of `filter_data_` leaves of a buffer. -/
def kept (buffer : Bytes) : Bytes := (readWhile badFirst buffer {}).buffer

/-- The `pack_size` it ends with. -/
def code (buffer : Bytes) : Int := (readWhile badFirst buffer {}).clip.packSize

/-- The code of the bytes depends on what is kept of them. -/
theorem code_congr {x y : Bytes} (h : kept x = kept y) : code x = code y := by
  unfold code Start.clip
  rw [readWhile_packSize, readWhile_packSize]
  unfold kept at h
  rw [h]

/-- A header that is read again keeps the same bytes. -/
theorem readHeader_buffer (header : Bytes) (head : Head) :
    (readHeader false header head).buffer = kept header := readWhile_buffer badFirst header head {}

/-- And has the same code. -/
theorem readHeader_packSize (header : Bytes) (head : Head) :
    (readHeader false header head).packSize = code header := by
  unfold code readHeader
  rw [if_neg Bool.noConfusion]
  unfold Start.clip
  rw [readWhile_packSize, readWhile_packSize]

/-- The loop over more bytes goes on from where it stood. -/
theorem kept_append (x y : Bytes) : kept (x ++ y) = kept (kept x ++ y) := by
  have hloop (head : Head) : kept (x ++ y) = kept ((readWhile badFirst x head).buffer ++ y) := by
    fun_induction readWhile badFirst x head with
    | case1 b₀ b₁ x head hbad ih =>
      have hcode : (readSize (b₀ :: b₁ :: x) head).1 = -2 := of_decide_eq_true hbad
      have hne : (readSize (b₀ :: b₁ :: x) head).1 ≠ -1 := by
        rw [hcode]
        decide
      have hmore : readSize (b₀ :: b₁ :: (x ++ y)) head = readSize (b₀ :: b₁ :: x) head :=
        readSize_append (.inl hne) y
      rw [← ih]
      show kept (b₀ :: b₁ :: (x ++ y)) = _
      unfold kept
      rw [readWhile_buffer badFirst (b₀ :: b₁ :: (x ++ y)) {} head, readWhile_of_bad (hmore ▸ hbad)]
      exact readWhile_buffer badFirst (x ++ y) _ _
    | case2 b₀ b₁ x head hbad => rfl
    | case3 x head hshort => rfl
  exact hloop {}

/-- The bytes that were thrown away can be left out from the beginning. -/
theorem code_append (x y : Bytes) : code (x ++ y) = code (kept x ++ y) := code_congr (kept_append x y)

/-- A header of which 14 bytes are kept is decided. -/
theorem decided_of_length {x : Bytes} (hlen : 14 ≤ (kept x).length) (y : Bytes) :
    code (x ++ y) = code x ∧ kept (x ++ y) = kept x ++ y := by
  have hread : readSize (kept x ++ y) {} = readSize (kept x) {} := readSize_append (.inr hlen) y
  have hgood : badFirst (readSize (kept x ++ y) {}).1 = false := by
    rw [hread]
    have hstop := readWhile_not_bad (show badFirst (-1) = false from rfl) x {}
    rw [readWhile_packSize] at hstop
    exact hstop
  have hkept : kept (x ++ y) = kept x ++ y := by
    rw [kept_append]
    show (readWhile badFirst (kept x ++ y) {}).buffer = _
    rw [readWhile_of_not_bad hgood]
  refine ⟨?_, hkept⟩
  unfold code Start.clip
  rw [readWhile_packSize, readWhile_packSize]
  unfold kept at hread hkept
  rw [hkept, hread]

/-! ## Adding a segment -/

/-- The bytes of the segment up to the one with which the header is complete, for what `code` says of
the bytes so far. -/
structure Completes (code : Bytes → Int) (header part : Bytes) : Prop where
  ne_nil : part ≠ []
  complete : 0 ≤ code (header ++ part)
  first : ∀ n < part.length, 0 < n → code (header ++ part.take n) < 0

instance (code : Bytes → Int) (header part : Bytes) : Decidable (Completes code header part) :=
  decidable_of_iff (part ≠ [] ∧ 0 ≤ code (header ++ part) ∧
      ∀ n < part.length, 0 < n → code (header ++ part.take n) < 0)
    ⟨fun h => ⟨h.1, h.2.1, h.2.2⟩, fun h => ⟨h.ne_nil, h.complete, h.first⟩⟩

/-- The first byte is one of them when it completes the header. -/
theorem Completes.single {code : Bytes → Int} {header : Bytes} {b : UInt8}
    (h : 0 ≤ code (header ++ [b])) : Completes code header [b] where
  ne_nil := List.cons_ne_nil _ _
  complete := h
  first := by
    intro n hlt hn
    have hlt : n < 1 := hlt
    omega

/-- One byte that does not complete it yet. -/
theorem Completes.cons {code : Bytes → Int} {header part : Bytes} {b : UInt8}
    (h : code (header ++ [b]) < 0) (hpart : Completes (fun y => code (header ++ b :: y)) [] part) :
    Completes code header (b :: part) where
  ne_nil := List.cons_ne_nil _ _
  complete := hpart.complete
  first := by
    intro n hlt hn
    obtain ⟨n, rfl⟩ : ∃ k, n = k + 1 := ⟨n - 1, by omega⟩
    rw [List.take_succ_cons]
    by_cases hzero : n = 0
    · rw [hzero, List.take_zero]
      exact h
    · exact hpart.first n (Nat.lt_of_succ_lt_succ hlt) (Nat.pos_of_ne_zero hzero)

/-- A frame's header goes on in a segment. The header never outgrows its `HEADERSIZE` bytes when it gets
complete, or fits as a whole. -/
theorem fillHeader_frame {s : Start} {buffer : Bytes} (hne : buffer ≠ [])
    (hroom : s.buffer.length < HEADERSIZE)
    (hfits : 0 ≤ code (s.buffer ++ buffer) ∨ (kept (s.buffer ++ buffer)).length ≤ HEADERSIZE) :
    ∃ s' rest, fillHeader false s buffer = .ok (s', rest) ∧
      ((s'.packSize < 0 ∧ s'.packSize = code (s.buffer ++ buffer) ∧
          s'.buffer = kept (s.buffer ++ buffer) ∧ rest = []) ∨
        ∃ part, buffer = part ++ rest ∧ Completes code s.buffer part ∧
          s'.packSize = code (s.buffer ++ part)) := by
  induction buffer generalizing s with
  | nil => exact absurd rfl hne
  | cons b buffer ih =>
    have hcode : (readHeader false (s.buffer ++ [b]) s.head).packSize = code (s.buffer ++ [b]) :=
      readHeader_packSize _ _
    have hbuffer : (readHeader false (s.buffer ++ [b]) s.head).buffer = kept (s.buffer ++ [b]) :=
      readHeader_buffer _ _
    have happend (y : Bytes) : s.buffer ++ b :: y = s.buffer ++ [b] ++ y := by
      rw [List.append_assoc]
      rfl
    rw [fillHeader_cons false hroom]
    split
    · rename_i hdone
      rw [hcode] at hdone
      exact ⟨_, buffer, rfl, .inr ⟨[b], rfl, .single hdone, hcode⟩⟩
    · rename_i hmore
      rw [hcode, ge_iff_le, not_le] at hmore
      by_cases hnil : buffer = []
      · subst hnil
        exact ⟨_, [], rfl, .inl ⟨hcode ▸ hmore, hcode, hbuffer, rfl⟩⟩
      · -- with `HEADERSIZE` bytes kept the code would stay below zero, and the rest would not fit
        rw [happend] at hfits
        have hroom₁ : (readHeader false (s.buffer ++ [b]) s.head).buffer.length < HEADERSIZE := by
          rw [hbuffer]
          by_contra hfull
          have hsize : HEADERSIZE = 1024 := rfl
          have hpos := List.length_pos_of_ne_nil hnil
          have hlen : 14 ≤ (kept (s.buffer ++ [b])).length := by omega
          obtain ⟨hstay, hall⟩ := decided_of_length hlen buffer
          rw [hstay, hall, List.length_append] at hfits
          omega
        obtain ⟨s', rest, hfill, hcases⟩ := ih hnil hroom₁ (by
          rw [hbuffer, ← code_append, ← kept_append]
          exact hfits)
        refine ⟨s', rest, hfill, ?_⟩
        rw [hbuffer, ← code_append, ← kept_append, ← happend] at hcases
        refine hcases.imp_right ?_
        rintro ⟨part, rfl, hpart, hsize⟩
        have hgo (y : Bytes) : code (kept (s.buffer ++ [b]) ++ y) = code (s.buffer ++ b :: y) := by
          rw [← code_append, ← happend]
        refine ⟨b :: part, rfl, .cons hmore ⟨hpart.ne_nil, ?_, ?_⟩, hsize.trans (hgo part)⟩
        · exact (hgo part) ▸ hpart.complete
        · exact fun n hlt hn => (hgo _) ▸ hpart.first n hlt hn

/-! ## A request -/

/-- What is found is there. -/
theorem websocketStrnpos_le {needle x : Bytes} {n : Nat} (h : websocketStrnpos needle x = some n) :
    n + needle.length ≤ x.length := by
  induction x generalizing n with
  | nil => cases h
  | cons b x ih =>
    unfold websocketStrnpos at h
    split at h
    · rename_i hprefix
      cases h
      rw [Nat.zero_add]
      exact (List.isPrefixOf_iff_prefix.mp hprefix).length_le
    · obtain ⟨k, hk, rfl⟩ := Option.map_eq_some_iff.mp h
      have := ih hk
      show k + 1 + needle.length ≤ x.length + 1
      omega

/-- And is still found when bytes are appended. -/
theorem websocketStrnpos_append {needle x : Bytes} {n : Nat} (h : websocketStrnpos needle x = some n)
    (y : Bytes) : websocketStrnpos needle (x ++ y) = some n := by
  induction x generalizing n with
  | nil => cases h
  | cons b x ih =>
    unfold websocketStrnpos at h
    show websocketStrnpos needle (b :: (x ++ y)) = _
    unfold websocketStrnpos
    split at h
    · rename_i hprefix
      have hprefix' := List.isPrefixOf_iff_prefix.mp hprefix
      have hlong : needle.isPrefixOf (b :: (x ++ y)) = true :=
        List.isPrefixOf_iff_prefix.mpr (hprefix'.trans (List.prefix_append (b :: x) y))
      rw [if_pos hlong]
      exact h
    · rename_i hprefix
      obtain ⟨k, hk, rfl⟩ := Option.map_eq_some_iff.mp h
      have hlen := websocketStrnpos_le hk
      have hprefix' : ¬needle.isPrefixOf (b :: (x ++ y)) = true := by
        intro hp
        have hp' : needle <+: (b :: x) ++ y := List.isPrefixOf_iff_prefix.mp hp
        refine hprefix (List.isPrefixOf_iff_prefix.mpr ?_)
        exact List.prefix_of_prefix_length_le hp' (List.prefix_append (b :: x) y)
          (by rw [List.length_cons]; omega)
      rw [if_neg hprefix', ih hk]
      rfl

/-- A request that is found is there. -/
theorem getHttpHeader_le (x : Bytes) : getHttpHeader x ≤ x.length := by
  unfold getHttpHeader
  split
  · omega
  · rename_i n hn
    have : n + 4 ≤ x.length := websocketStrnpos_le hn
    omega

/-- The size of a request is -1 or not negative. -/
theorem getHttpHeader_nonneg {x : Bytes} : 0 ≤ getHttpHeader x ↔ getHttpHeader x ≠ -1 := by
  obtain h | h := getHttpHeader_cases x
  · rw [h]
    decide
  · omega

/-- A request that is complete is not changed by what follows it. -/
theorem getHttpHeader_append {x : Bytes} (h : 0 ≤ getHttpHeader x) (y : Bytes) :
    getHttpHeader (x ++ y) = getHttpHeader x := by
  unfold getHttpHeader at h ⊢
  match hn : websocketStrnpos crlfcrlf x with
  | none =>
    rw [hn] at h
    exact absurd h (by decide)
  | some n => rw [websocketStrnpos_append hn]

/-- A request goes on in a segment. -/
theorem fillHeader_request {s : Start} {buffer : Bytes} (hne : buffer ≠ [])
    (hroom : s.buffer.length < HEADERSIZE)
    (hfits : (s.buffer ++ buffer).length ≤ HEADERSIZE ∨
      0 ≤ getHttpHeader ((s.buffer ++ buffer).take HEADERSIZE)) :
    ∃ s' rest, fillHeader true s buffer = .ok (s', rest) ∧
      ((s'.packSize = -1 ∧ getHttpHeader s'.buffer = -1 ∧ s'.buffer = s.buffer ++ buffer ∧
          s'.buffer.length ≤ HEADERSIZE ∧ rest = []) ∨
        ∃ part, buffer = part ++ rest ∧ Completes getHttpHeader s.buffer part ∧
          s'.packSize = getHttpHeader (s.buffer ++ part) ∧ s'.buffer = s.buffer ++ part) := by
  induction buffer generalizing s with
  | nil => exact absurd rfl hne
  | cons b buffer ih =>
    have happend (y : Bytes) : s.buffer ++ b :: y = s.buffer ++ [b] ++ y := by
      rw [List.append_assoc]
      rfl
    have hlen : (s.buffer ++ [b]).length ≤ HEADERSIZE := by
      rw [List.length_append]
      exact hroom
    have hread : readHeader true (s.buffer ++ [b]) s.head =
        ⟨getHttpHeader (s.buffer ++ [b]), s.head, s.buffer ++ [b]⟩ := by
      unfold readHeader
      rw [if_pos rfl, if_neg (not_lt.mpr hlen)]
    rw [fillHeader_cons true hroom, hread]
    split
    · rename_i hdone
      exact ⟨_, buffer, rfl, .inr ⟨[b], rfl, .single hdone, rfl, rfl⟩⟩
    · rename_i hmore
      have hmore' : getHttpHeader (s.buffer ++ [b]) < 0 := not_le.mp hmore
      by_cases hnil : buffer = []
      · subst hnil
        have hnone := (getHttpHeader_cases (s.buffer ++ [b])).resolve_right (by omega)
        exact ⟨_, [], rfl, .inl ⟨hnone, hnone, rfl, hlen, rfl⟩⟩
      · rw [happend] at hfits
        have hroom₁ : (s.buffer ++ [b]).length < HEADERSIZE := by
          by_contra hfull
          have hsize : (s.buffer ++ [b]).length = HEADERSIZE := by omega
          have hpos := List.length_pos_of_ne_nil hnil
          rw [← hsize, List.take_left, List.length_append] at hfits
          omega
        obtain ⟨s', rest, hfill, hcases⟩ := ih
          (s := ⟨getHttpHeader (s.buffer ++ [b]), s.head, s.buffer ++ [b]⟩) hnil hroom₁ hfits
        refine ⟨s', rest, hfill, ?_⟩
        dsimp only at hcases
        rw [← happend] at hcases
        refine hcases.imp_right ?_
        rintro ⟨part, rfl, hpart, hsize, hbuffer⟩
        have hgo (y : Bytes) : getHttpHeader (s.buffer ++ [b] ++ y) = getHttpHeader (s.buffer ++ b :: y) := by
          rw [← happend]
        refine ⟨b :: part, rfl, .cons hmore' ⟨hpart.ne_nil, ?_, ?_⟩, hsize.trans (hgo part),
          hbuffer.trans (happend part).symm⟩
        · exact (hgo part) ▸ hpart.complete
        · exact fun n hlt hn => (hgo _) ▸ hpart.first n hlt hn

end AntServer.WebSocket
