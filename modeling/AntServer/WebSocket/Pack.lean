/-
# AntServer.WebSocket.Pack — what the gate packs, and how it would be read

`lpack` of `lualib-src/websocketnetpack/lua-websocketnetpack.c` and `read_size` as it is called: with an
`int` for the number of bytes that are there. `lpack` writes an unmasked binary frame with its length in
the shortest of the three forms. Of such a frame `read_size` reads the length from any number of bytes
that has the header in it and fits an `int`; a frame of more than `INT_MAX` bytes cannot be handed to it
as a whole.
-/
import AntServer.WebSocket.Frames

namespace AntServer.WebSocket

/-! ## `lpack` -/

/-- `FRAME_SET_FIN(fin) | FRAME_SET_OPCODE(opcode)`. -/
def frameSetFirst (fin opcode : UInt8) : UInt8 := ((fin &&& 0x01) <<< 7) ||| (opcode &&& 0x0F)

/-- `FRAME_SET_MASK`. -/
def frameSetMask (b : UInt8) : UInt8 := (b &&& 0x01) <<< 7

/-- `FRAME_SET_LENGTH`. -/
def frameSetLength (len idx : Nat) : UInt8 := UInt8.ofNat ((len >>> (idx * 8)) &&& 0xFF)

/-- `frame_header`, as `lpack` fills it. -/
def frameHeader (len : Nat) : Bytes :=
  frameSetFirst 1 2 ::
    if len < 126 then [frameSetMask 0 ||| frameSetLength len 0]
    else if len < 65536 then [frameSetMask 0 ||| 126, frameSetLength len 1, frameSetLength len 0]
    else
      [frameSetMask 0 ||| 127, frameSetLength len 7, frameSetLength len 6, frameSetLength len 5,
        frameSetLength len 4, frameSetLength len 3, frameSetLength len 2, frameSetLength len 1,
        frameSetLength len 0]

/-- `lpack`. -/
def lpack (payload : Bytes) : Bytes := frameHeader payload.length ++ payload

/-- `read_size` of the first `size` bytes of a buffer, `size` being an `int`. -/
def readSizeInt (buffer : Bytes) (size : BitVec 32) (head : Head) : Int × Head :=
  if size.toInt < 2 then (-1, head) else readSize (buffer.take size.toNat) head

/-! ## The header as one of a data frame -/

/-- The form `lpack` writes a length in. -/
def lengthForm (len : Nat) : LengthForm :=
  if len < 126 then .direct else if len < 65536 then .short else .long

theorem lengthForm_cases (len : Nat) :
    len < 126 ∧ lengthForm len = .direct ∨ len < 65536 ∧ ¬ len < 126 ∧ lengthForm len = .short ∨
      ¬ len < 65536 ∧ lengthForm len = .long := by
  unfold lengthForm
  by_cases h : len < 126
  · exact .inl ⟨h, if_pos h⟩
  · by_cases h' : len < 65536
    · exact .inr (.inl ⟨h', h, by rw [if_neg h, if_pos h']⟩)
    · exact .inr (.inr ⟨h', by rw [if_neg h, if_neg h']⟩)

/-- The opcode of a binary frame is one of data. -/
theorem binary_data : (2 : Fin 16) ≠ 0 ∧ (2 : Fin 16) ≠ 8 := by decide

/-- A small data frame that begins with the two bytes that `lpack` begins with. -/
def packShape (len : Nat) : DataFrame where
  opcode := ⟨2, by decide⟩
  form := lengthForm len
  key := none
  data := List.replicate (len % 126) 0
  opcode_data := binary_data
  length_le := by
    rw [List.length_replicate]
    exact (Nat.mod_lt len (by decide)).le.trans (by decide)
  direct_lt _ := by
    rw [List.length_replicate]
    exact Nat.mod_lt len (by decide)

theorem packShape_form (len : Nat) : (packShape len).form = lengthForm len := rfl

/-- Without a key the second byte is the length. -/
theorem packShape_second (len : Nat) : (packShape len).second = UInt8.ofNat (packShape len).length7 := by
  show (0 : UInt8) ||| _ = _
  exact UInt8.zero_or

theorem frameSetLength_eq (len idx : Nat) : frameSetLength len idx = UInt8.ofNat (len / 256 ^ idx) := by
  unfold frameSetLength
  have hshift : len >>> (idx * 8) = len / 256 ^ idx := by
    rw [Nat.shiftRight_eq_div_pow, Nat.mul_comm, Nat.pow_mul]
  rw [hshift, show (0xFF : Nat) = 2 ^ 8 - 1 from rfl, Nat.and_two_pow_sub_one_eq_mod]
  apply UInt8.toNat_inj.mp
  rw [UInt8.toNat_ofNat', UInt8.toNat_ofNat', Nat.mod_mod]

/-- The length behind the two bytes, in network order. -/
def packExtended (len : Nat) : Bytes :=
  match lengthForm len with
  | .direct => []
  | .short => hton 2 len
  | .long => hton 8 len

theorem length_packExtended (len : Nat) : (packExtended len).length = (packShape len).extended.length := by
  rw [DataFrame.length_extended, packShape_form]
  unfold packExtended
  cases lengthForm len with
  | direct => rfl
  | short => exact length_hton 2 _
  | long => exact length_hton 8 _

theorem frameHeader_eq (len : Nat) : frameHeader len =
    (packShape len).first :: (packShape len).second :: packExtended len := by
  have hfirst : frameSetFirst 1 2 = (packShape len).first := by
    show _ = (0x80 : UInt8) ||| UInt8.ofNat (2 : Fin 16)
    decide
  have hmask (b : UInt8) : frameSetMask 0 ||| b = b := by
    rw [show frameSetMask 0 = 0 from by decide]
    exact UInt8.zero_or
  unfold frameHeader packExtended
  rw [packShape_second, hfirst]
  simp only [hmask]
  unfold DataFrame.length7
  rw [packShape_form]
  unfold lengthForm
  split
  · rename_i hlt
    have hdata : (packShape len).data.length = len := by
      show (List.replicate (len % 126) (0 : UInt8)).length = len
      rw [List.length_replicate, Nat.mod_eq_of_lt hlt]
    dsimp only
    rw [hdata, frameSetLength_eq, Nat.pow_zero, Nat.div_one]
  · split
    · simp only [frameSetLength_eq, hton, Nat.pow_one, Nat.pow_zero, Nat.div_one, List.nil_append,
        List.cons_append]
      rfl
    · simp only [frameSetLength_eq, hton, Nat.div_div_eq_div_mul, Nat.reducePow, Nat.reduceMul, Nat.div_one,
        List.nil_append, List.cons_append]
      rfl

/-- Any bytes behind the two that `lpack` begins with. -/
theorem readSize_shape (len : Nat) (tail : Bytes) (head : Head) :
    readSize ((packShape len).first :: (packShape len).second :: tail) head =
      if tail.length < (packExtended len).length then (-1, head)
      else ((packShape len).readExtended tail,
        { head with packHeadLength := 2 + (packExtended len).length }) := by
  rw [DataFrame.readSize_first, DataFrame.readLength_first, length_packExtended]
  by_cases h : tail.length < (packShape len).extended.length
  · rw [if_pos h, if_pos h]
  · rw [if_neg h, if_neg h]
    rfl

/-- A length that fits an `int` is read as it was written. -/
theorem readExtended_packExtended {len : Nat} (h : len < 2 ^ 31) (rest : Bytes) :
    (packShape len).readExtended (packExtended len ++ rest) = len := by
  have htake (k n : Nat) : (hton k n ++ rest).take k = hton k n := List.take_left' (length_hton k n)
  unfold DataFrame.readExtended packExtended
  rw [packShape_form]
  rcases lengthForm_cases len with ⟨hlt, hform⟩ | ⟨hlt, -, hform⟩ | ⟨-, hform⟩
  · rw [hform]
    show (((List.replicate (len % 126) (0 : UInt8)).length : Nat) : Int) = len
    rw [List.length_replicate, Nat.mod_eq_of_lt hlt]
  · rw [hform]
    dsimp only
    rw [htake, ntoh_hton hlt]
  · -- of the eight bytes `read_size` keeps 32 bits, as an `int`
    rw [hform]
    dsimp only
    have hlt : len < 256 ^ 8 := h.trans (by decide)
    rw [htake, ntoh_hton hlt, BitVec.toInt_eq_toNat_of_lt]
    · rw [BitVec.toNat_ofNat, Nat.mod_eq_of_lt (by omega)]
    · rw [BitVec.toNat_ofNat, Nat.mod_eq_of_lt (by omega)]
      omega

theorem length_frameHeader (len : Nat) : (frameHeader len).length = 2 + (packExtended len).length := by
  rw [frameHeader_eq, List.length_cons, List.length_cons]
  omega

theorem length_frameHeader_form (len : Nat) : (frameHeader len).length =
    match lengthForm len with
    | .direct => 2
    | .short => 4
    | .long => 10 := by
  rw [length_frameHeader, length_packExtended, DataFrame.length_extended, packShape_form]
  cases lengthForm len <;> rfl

/-! ## Reading what was packed -/

/-- An `int` that is not negative is the number it was made from. -/
theorem int_ofNat {size : Nat} (h : size < 2 ^ 31) :
    (BitVec.ofNat 32 size).toInt = size ∧ (BitVec.ofNat 32 size).toNat = size := by
  have hnat : (BitVec.ofNat 32 size).toNat = size := by
    rw [BitVec.toNat_ofNat, Nat.mod_eq_of_lt (by omega)]
  exact ⟨by rw [BitVec.toInt_eq_toNat_of_lt (by omega), hnat], hnat⟩

/-- The first bytes of a frame, when the two that begin it are there. -/
theorem take_lpack (payload : Bytes) {size : Nat} (h : 2 ≤ size) : (lpack payload).take size =
    (packShape payload.length).first :: (packShape payload.length).second ::
      (packExtended payload.length ++ payload).take (size - 2) := by
  obtain ⟨n, rfl⟩ := Nat.exists_eq_add_of_le h
  unfold lpack
  rw [frameHeader_eq, Nat.add_comm 2 n, Nat.add_sub_cancel]
  rfl

/-- A header that is not all there. -/
theorem readSizeInt_short (payload : Bytes) {size : Nat} (hint : size < 2 ^ 31)
    (hlt : size < (frameHeader payload.length).length) (head : Head) :
    readSizeInt (lpack payload) (BitVec.ofNat 32 size) head = (-1, head) := by
  obtain ⟨htoInt, htoNat⟩ := int_ofNat hint
  unfold readSizeInt
  rw [htoInt, htoNat]
  split
  · rfl
  · rename_i hsize
    rw [length_frameHeader] at hlt
    rw [take_lpack payload (by omega), readSize_shape, if_pos]
    rw [List.length_take]
    omega

/-- A header that is all there, whatever of the payload is there. -/
theorem readSizeInt_full (payload : Bytes) (hlen : payload.length < 2 ^ 31) {size : Nat}
    (hint : size < 2 ^ 31) (hle : (frameHeader payload.length).length ≤ size) (n : Nat) :
    readSizeInt (lpack payload) (BitVec.ofNat 32 size) ⟨n, {}⟩ =
      ((payload.length : Int), ⟨(frameHeader payload.length).length, {}⟩) := by
  obtain ⟨htoInt, htoNat⟩ := int_ofNat hint
  rw [length_frameHeader] at hle
  have htake : (packExtended payload.length ++ payload).take (size - 2) =
      packExtended payload.length ++ payload.take (size - 2 - (packExtended payload.length).length) := by
    rw [List.take_append, List.take_of_length_le (by omega)]
  unfold readSizeInt
  rw [htoInt, htoNat, if_neg (by omega), take_lpack payload (by omega), htake, readSize_shape, if_neg,
    readExtended_packExtended hlen, length_frameHeader]
  rw [List.length_append]
  omega

/-! ## The shortest form -/

theorem ntoh_lt (bytes : Bytes) : ntoh bytes < 256 ^ bytes.length := by
  unfold ntoh
  induction bytes using List.reverseRecOn with
  | nil => exact Nat.one_pos
  | append_singleton bytes b ih =>
    have hb := b.toNat_lt
    rw [List.foldl_append, List.length_append, List.length_singleton, Nat.pow_succ]
    show 256 * _ + b.toNat < _
    omega

/-- A length that is read from a header of 2 bytes is below 126, one of 4 bytes below 65536. -/
theorem readLength_le {buffer : Bytes} {packSize : Int} {offset : Nat}
    (h : readLength buffer = some (packSize, offset)) :
    (offset < 4 → packSize < 126) ∧ (offset < 10 → packSize < 65536) := by
  have hhead : WEBSOCKET_HEADER_LEN = 2 := rfl
  unfold readLength at h
  dsimp only at h
  split at h
  · rename_i hlt
    have hlt : (buffer.getD 1 0 &&& 0x7f).toNat < 126 := UInt8.lt_iff_toNat_lt.mp hlt
    cases h
    omega
  · -- two bytes of length, or eight
    split at h
    · split at h
      · cases h
      · have hlt := ntoh_lt ((buffer.drop 2).take 2)
        have hpow : 256 ^ ((buffer.drop 2).take 2).length ≤ 256 ^ 2 :=
          Nat.pow_le_pow_right (by decide) (List.length_take_le 2 _)
        cases h
        omega
    · split at h
      · cases h
      · cases h
        omega

/-- Whatever header `read_size` reads a length from is not shorter than the one `lpack` writes for it. -/
theorem frameHeader_shortest {len : Nat} {buffer : Bytes} {n : Nat}
    (h : (readSize buffer ⟨n, {}⟩).1 = len) :
    (frameHeader len).length ≤ (readSize buffer ⟨n, {}⟩).2.packHeadLength := by
  obtain ⟨code, hneg, heq⟩ | ⟨hsize, packSize, offset, hlen, heq⟩ := readSize_cases buffer ⟨n, {}⟩
  · rw [heq] at h
    simp only at h
    omega
  · have hoffset := (readLength_offset hlen).1
    obtain ⟨hdirect, hshort⟩ := readLength_le hlen
    have hle : (frameHeader len).length ≤ offset := by
      have hpack : packSize = len := by
        rcases heq with heq | ⟨-, mask, heq⟩
        · rw [heq] at h
          exact h
        · rw [heq] at h
          exact h
      rw [length_frameHeader_form]
      rcases lengthForm_cases len with ⟨-, hform⟩ | ⟨-, hge, hform⟩ | ⟨hge, hform⟩
      · rw [hform]
        exact hoffset
      · rw [hform]
        dsimp only
        omega
      · rw [hform]
        dsimp only
        omega
    rcases heq with heq | ⟨-, mask, heq⟩
    · rw [heq]
      exact hle
    · rw [heq]
      exact hle.trans (Nat.le_add_right _ _)

/-! ## Agreement -/

/-- Encoder and decoder agree on a payload, as far as an `int` counts bytes: of any number of bytes of the
frame `read_size` returns -1 when they end in the header, and else the length of the payload, no mask and
the length of the header, behind which the payload stands. And no header that is read as this length is
shorter. -/
theorem lpack_readSize (payload : Bytes) (hlen : payload.length < 2 ^ 31) :
    (∀ size < 2 ^ 31, size ≤ (lpack payload).length →
        readSizeInt (lpack payload) (BitVec.ofNat 32 size) {} =
          if size < (frameHeader payload.length).length then (-1, {})
          else ((payload.length : Int), ⟨(frameHeader payload.length).length, {}⟩)) ∧
      (lpack payload).drop (frameHeader payload.length).length = payload ∧
      ∀ buffer, (readSize buffer {}).1 = payload.length →
        (frameHeader payload.length).length ≤ (readSize buffer {}).2.packHeadLength := by
  refine ⟨fun size hint _ => ?_, List.drop_left, fun buffer h => frameHeader_shortest h⟩
  split
  · rename_i hlt
    exact readSizeInt_short payload hint hlt {}
  · rename_i hle
    exact readSizeInt_full payload hlen hint (not_lt.mp hle) 0

/-- A payload of one byte, read from the first byte of its frame and from all three. -/
theorem lpack_readSize_one : readSizeInt (lpack [7]) (BitVec.ofNat 32 1) {} = (-1, {}) ∧
    readSizeInt (lpack [7]) (BitVec.ofNat 32 3) {} = (1, ⟨2, {}⟩) :=
  have h := lpack_readSize [7] (by decide)
  ⟨h.1 1 (by decide) (by decide), h.1 3 (by decide) (by decide)⟩

/-- The frame of a payload of `2 ^ 31 - 1` bytes has more bytes than an `int` counts. -/
theorem not_lpack_readSize_whole : ¬ ∀ payload : Bytes, payload.length < 2 ^ 31 →
    readSizeInt (lpack payload) (BitVec.ofNat 32 (lpack payload).length) {} =
      ((payload.length : Int), ⟨(frameHeader payload.length).length, {}⟩) := by
  intro hall
  obtain ⟨payload, hlen⟩ : ∃ payload : Bytes, payload.length = 2 ^ 31 - 1 :=
    ⟨List.replicate (2 ^ 31 - 1) 0, List.length_replicate⟩
  have hframe : (lpack payload).length = 2 ^ 31 + 9 := by
    unfold lpack
    rw [List.length_append, hlen, length_frameHeader_form]
    rfl
  have h := hall payload (by rw [hlen]; decide)
  unfold readSizeInt at h
  rw [hframe, if_pos (by decide), hlen] at h
  exact absurd (Prod.mk.inj h).1 (by decide)

end AntServer.WebSocket
