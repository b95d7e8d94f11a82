/-
# AntServer.WebSocket.Frames — data frames, and how their headers are read

A well-formed data frame: the final fragment of a message, with any opcode but those of a continuation
and of a close frame, its length in one of the three forms, masked or not, and no longer than
`MAX_PACKSIZE`. `read_size` asks for more at every proper prefix of the frame's header (`readSize_part`),
and reads the length and the mask at the whole of it, whatever stands behind (`readSize_header`).
-/
import AntServer.WebSocket.Connection

namespace AntServer.WebSocket

/-! ## Masks -/

namespace Mask

variable (m : Mask)

/-- The mask after `n` bytes of a payload. -/
def skip (n : Nat) : Mask := if m.ismask then { m with hasunmaskSize := m.hasunmaskSize + n } else m

theorem skip_zero : m.skip 0 = m := by
  unfold skip
  split <;> rfl

/-- The mask after two runs of bytes. -/
theorem skip_skip (k n : Nat) : (m.skip k).skip n = m.skip (k + n) := by
  unfold skip
  by_cases h : m.ismask = true
  · rw [if_pos h, if_pos h, if_pos h, Nat.add_assoc]
  · rw [if_neg h, if_neg h, if_neg h]

/-- The mask that is left over is the one after the bytes. -/
theorem decode_snd (buffer : Bytes) : (decodeWsmaskData buffer m).2 = m.skip buffer.length := by
  unfold decodeWsmaskData skip
  split <;> rfl

@[simp] theorem length_decode (buffer : Bytes) :
    (decodeWsmaskData buffer m).1.length = buffer.length := by
  unfold decodeWsmaskData
  split
  · exact List.length_mapIdx
  · rfl

/-- A payload that comes in two pieces: the second one is unmasked where the first one left off. -/
theorem decode_append (a b : Bytes) : (decodeWsmaskData (a ++ b) m).1 =
    (decodeWsmaskData a m).1 ++ (decodeWsmaskData b (m.skip a.length)).1 := by
  unfold decodeWsmaskData skip
  by_cases h : m.ismask = true
  · rw [if_pos h, if_pos h, if_pos h, if_pos h]
    dsimp only
    rw [List.mapIdx_append]
    congr 2
    funext i b
    rw [Nat.add_assoc, Nat.add_comm a.length]
  · rw [if_neg h, if_neg h, if_neg h, if_neg h]

theorem decode_nil : (decodeWsmaskData [] m).1 = [] :=
  List.eq_nil_of_length_eq_zero (m.length_decode [])

end Mask

/-! ## Numbers in network order -/

/-- The last `k` bytes of a number. -/
def hton : Nat → Nat → Bytes
  | 0, _ => []
  | k + 1, n => hton k (n / 256) ++ [UInt8.ofNat n]

@[simp] theorem length_hton (k n : Nat) : (hton k n).length = k := by
  induction k generalizing n with
  | zero => rfl
  | succ k ih =>
    unfold hton
    rw [List.length_append, ih]
    rfl

/-- A length that fits into its bytes is read back. -/
theorem ntoh_hton {k n : Nat} (h : n < 256 ^ k) : ntoh (hton k n) = n := by
  induction k generalizing n with
  | zero => exact (Nat.lt_one_iff.mp h).symm
  | succ k ih =>
    have hdiv : n / 256 < 256 ^ k := Nat.div_lt_of_lt_mul (Nat.pow_succ' ▸ h)
    have hlast : (UInt8.ofNat n).toNat = n % 256 := UInt8.toNat_ofNat'
    unfold ntoh at ih ⊢
    unfold hton
    rw [List.foldl_append, ih hdiv]
    show 256 * (n / 256) + (UInt8.ofNat n).toNat = n
    omega

/-! ## Data frames -/

/-- How the length of a payload is written. -/
inductive LengthForm where
  | direct
  | short
  | long
  deriving DecidableEq, Repr

structure DataFrame where
  opcode : Fin 16
  form : LengthForm
  key : Option { key : Bytes // key.length = WEBSOCKET_MASK_LEN }
  /-- the payload as it is sent -/
  data : Bytes
  opcode_data : opcode ≠ 0 ∧ opcode ≠ 8
  length_le : data.length ≤ MAX_PACKSIZE
  direct_lt : form = .direct → data.length < 126

namespace DataFrame

variable (f : DataFrame)

/-- FIN is set, the RSV bits are not. -/
def first : UInt8 := 0x80 ||| UInt8.ofNat f.opcode

def length7 : Nat :=
  match f.form with
  | .direct => f.data.length
  | .short => 126
  | .long => 127

def second : UInt8 := (if f.key.isSome then 0x80 else 0) ||| UInt8.ofNat f.length7

/-- The length, when it is not in the second byte. -/
def extended : Bytes :=
  match f.form with
  | .direct => []
  | .short => hton 2 f.data.length
  | .long => hton 8 f.data.length

def keyBytes : Bytes := f.key.elim [] Subtype.val

def header : Bytes := f.first :: f.second :: (f.extended ++ f.keyBytes)

def bytes : Bytes := f.header ++ f.data

/-- The mask of the frame, before its payload. -/
def mask : Mask := f.key.elim {} fun key => { mask := key.1, ismask := true }

/-- What the frame carries: byte `i` of a masked payload has byte `i mod 4` of the key taken off. -/
def payload : Bytes :=
  f.key.elim f.data fun key => f.data.mapIdx fun i b => b ^^^ key.1.getD (i % WEBSOCKET_MASK_LEN) 0

/-- The payload is the data of the frame, unmasked. -/
theorem payload_eq : f.payload = (decodeWsmaskData f.data f.mask).1 := by
  unfold payload mask
  match f.key with
  | none => rfl
  | some key => rfl

/-- Unmasking keeps the length. -/
theorem length_payload : f.payload.length = f.data.length := by
  rw [payload_eq, Mask.length_decode]

/-- The header: two bytes, the extended length and the key. -/
theorem length_header : f.header.length = 2 + (f.extended.length + f.keyBytes.length) := by
  show (f.extended ++ f.keyBytes).length + 1 + 1 = _
  rw [List.length_append]
  omega

theorem length_keyBytes : f.keyBytes.length = if f.key.isSome then WEBSOCKET_MASK_LEN else 0 := by
  unfold keyBytes
  match f.key with
  | none => rfl
  | some key => exact key.2

theorem length_extended : f.extended.length =
    match f.form with
    | .direct => 0
    | .short => 2
    | .long => 8 := by
  unfold extended
  match f.form with
  | .direct => rfl
  | .short => exact length_hton 2 _
  | .long => exact length_hton 8 _

/-- A header has 14 bytes at most. -/
theorem length_header_le : f.header.length ≤ 14 := by
  have hkey : f.keyBytes.length ≤ 4 := by
    rw [length_keyBytes]
    split
    · exact le_rfl
    · exact Nat.zero_le 4
  have hext : f.extended.length ≤ 8 := by
    rw [length_extended]
    split <;> omega
  rw [length_header]
  omega

/-! ## The first two bytes -/

/-- The bits of the first byte, for every opcode. -/
theorem first_bits : ∀ opcode : Fin 16,
    let b : UInt8 := 0x80 ||| UInt8.ofNat opcode
    ((b >>> 7) &&& 1 ≠ 0 ∧ (b >>> 6) &&& 1 = 0 ∧ (b >>> 5) &&& 1 = 0 ∧ (b >>> 4) &&& 1 = 0) ∧
      (b &&& 0xf = 0 → opcode = 0) ∧ (b &&& 0xf = 8 → opcode = 8) := by decide

/-- The bits of the second byte, for every length of seven bits. -/
theorem second_bits : ∀ (masked : Bool) (n : Fin 128),
    let b : UInt8 := (if masked then 0x80 else 0) ||| UInt8.ofNat n
    (b &&& 0x7f).toNat = n ∧ ((b >>> 7) &&& 1 = 0 ↔ masked = false) := by decide +kernel

theorem length7_lt : f.length7 < 128 := by
  unfold length7
  split
  · rename_i h
    exact (f.direct_lt h).trans (by decide)
  · exact (by decide : 126 < 128)
  · exact Nat.lt_succ_self 127

/-- The length that is read of the second byte. -/
theorem second_length : (f.second &&& 0x7f).toNat = f.length7 :=
  (second_bits f.key.isSome ⟨f.length7, f.length7_lt⟩).1

/-- The bit that says whether there is a key. -/
theorem second_masked : (f.second >>> 7) &&& 1 = 0 ↔ f.key.isSome = false :=
  (second_bits f.key.isSome ⟨f.length7, f.length7_lt⟩).2

/-- The first byte is a data frame's: how the length is read decides. -/
theorem readSize_first (tail : Bytes) (head : Head) :
    readSize (f.first :: f.second :: tail) head =
      match readLength (f.first :: f.second :: tail) with
      | none => (-1, head)
      | some (packSize, offset) =>
        if f.key.isSome = false then (packSize, { head with packHeadLength := offset })
        else if offset + WEBSOCKET_MASK_LEN > tail.length + 2 then (-1, head)
        else (packSize,
          { packHeadLength := offset + WEBSOCKET_MASK_LEN
            mask := { head.mask with
              ismask := true
              mask := ((f.first :: f.second :: tail).drop offset).take WEBSOCKET_MASK_LEN } }) := by
  obtain ⟨⟨hfin, h6, h5, h4⟩, hop0, hop8⟩ := first_bits f.opcode
  have hrsv : ¬((f.first >>> 6) &&& 1 ≠ 0 ∨ (f.first >>> 5) &&& 1 ≠ 0 ∨ (f.first >>> 4) &&& 1 ≠ 0) := by
    rintro (h | h | h)
    · exact h h6
    · exact h h5
    · exact h h4
  have hcont : ¬((f.first >>> 7) &&& 1 = 0 ∨ f.first &&& 0xf = 0) := by
    rintro (h | h)
    · exact hfin h
    · exact f.opcode_data.1 (hop0 h)
  have hclose : ¬f.first &&& 0xf = 8 := fun h => f.opcode_data.2 (hop8 h)
  have hlong : ¬(f.first :: f.second :: tail).length < 2 := by
    show ¬tail.length + 1 + 1 < 2
    omega
  unfold readSize
  simp only [List.getD_cons_zero, List.getD_cons_succ]
  rw [if_neg hlong, if_neg hrsv, if_neg hcont, if_neg hclose]
  simp only [f.second_masked]
  rfl

/-- The number in the length field, which `tail` starts with. -/
def readExtended (tail : Bytes) : Int :=
  match f.form with
  | .direct => f.data.length
  | .short => ntoh (tail.take 2)
  | .long => (BitVec.ofNat 32 (ntoh (tail.take 8))).toInt

/-- The extended length is read when its bytes are there. -/
theorem readLength_first (tail : Bytes) : readLength (f.first :: f.second :: tail) =
    if tail.length < f.extended.length then none
    else some (f.readExtended tail, 2 + f.extended.length) := by
  have hlength := f.second_length
  have hroom (n : Nat) :
      (f.first :: f.second :: tail).length < WEBSOCKET_HEADER_LEN + n ↔ tail.length < n := by
    show tail.length + 1 + 1 < 2 + n ↔ _
    omega
  unfold readLength readExtended
  unfold length7 at hlength
  rw [length_extended]
  simp only [List.getD_cons_zero, List.getD_cons_succ, hroom]
  match hform : f.form with
  | .direct =>
    rw [hform] at hlength
    have hlt : f.second &&& 0x7f < 0x7e :=
      UInt8.lt_iff_toNat_lt.mpr (hlength.trans_lt (f.direct_lt hform))
    rw [if_pos hlt, hlength]
    rfl
  | .short =>
    rw [hform] at hlength
    have heq : f.second &&& 0x7f = 0x7e := UInt8.toNat_inj.mp hlength
    rw [heq, if_neg (by decide), if_pos rfl]
    rfl
  | .long =>
    rw [hform] at hlength
    have heq : f.second &&& 0x7f = 0x7f := UInt8.toNat_inj.mp hlength
    rw [heq, if_neg (by decide), if_neg (by decide)]
    rfl

/-- The length of a frame is small enough for an `int`. -/
theorem readExtended_append (rest : Bytes) : f.readExtended (f.extended ++ rest) = f.data.length := by
  have hle : f.data.length ≤ 10240 := f.length_le
  have htake (k : Nat) : (hton k f.data.length ++ rest).take k = hton k f.data.length :=
    List.take_left' (length_hton k _)
  unfold readExtended extended
  match f.form with
  | .direct => rfl
  | .short =>
    show ((ntoh ((hton 2 f.data.length ++ rest).take 2) : Nat) : Int) = _
    rw [htake, ntoh_hton (by omega)]
  | .long =>
    show (BitVec.ofNat 32 (ntoh ((hton 8 f.data.length ++ rest).take 8))).toInt = _
    rw [htake, ntoh_hton (by omega), BitVec.toInt_eq_toNat_of_lt]
    · rw [BitVec.toNat_ofNat, Nat.mod_eq_of_lt (by omega)]
    · rw [BitVec.toNat_ofNat, Nat.mod_eq_of_lt (by omega)]
      omega

/-- A header that is not complete yet. -/
theorem readSize_part {part rest : Bytes} (h : part ++ rest = f.header) (hrest : rest ≠ [])
    (head : Head) : readSize part head = (-1, head) := by
  match part with
  | [] => rfl
  | [_] => rfl
  | b₀ :: b₁ :: tail =>
    have hcons : b₀ :: b₁ :: (tail ++ rest) = f.first :: f.second :: (f.extended ++ f.keyBytes) := h
    simp only [List.cons.injEq] at hcons
    obtain ⟨rfl, rfl, htail⟩ := hcons
    have hlen : tail.length < f.extended.length + f.keyBytes.length := by
      rw [← List.length_append, ← htail, List.length_append]
      exact Nat.lt_add_of_pos_right (List.length_pos_of_ne_nil hrest)
    rw [readSize_first, readLength_first]
    by_cases hext : tail.length < f.extended.length
    · rw [if_pos hext]
    · -- the length is there, so the key is not
      rw [length_keyBytes] at hlen
      have hkey : ¬f.key.isSome = false := by
        intro hnone
        rw [hnone] at hlen
        exact hext hlen
      rw [if_neg hext]
      dsimp only
      rw [if_neg hkey, if_pos]
      rw [if_pos (Bool.eq_true_of_not_eq_false hkey)] at hlen
      omega

/-- The key is behind the extended length. -/
theorem take_keyBytes (rest : Bytes) {key : { key : Bytes // key.length = WEBSOCKET_MASK_LEN }}
    (h : f.key = some key) : ((f.header ++ rest).drop (2 + f.extended.length)).take
      WEBSOCKET_MASK_LEN = key.1 := by
  have hbytes : f.keyBytes = key.1 := congrArg (fun k => Option.elim k [] Subtype.val) h
  show ((f.first :: f.second :: ((f.extended ++ f.keyBytes) ++ rest)).drop _).take _ = _
  rw [Nat.add_comm, hbytes, List.append_assoc]
  show ((f.extended ++ (key.1 ++ rest)).drop f.extended.length).take _ = _
  rw [List.drop_left, List.take_left' key.2]

/-- The whole header, whatever stands behind it. -/
theorem readSize_header (rest : Bytes) (n : Nat) : readSize (f.header ++ rest) ⟨n, {}⟩ =
    ((f.data.length : Int), ⟨f.header.length, f.mask⟩) := by
  have hlen := f.length_header
  have hkeys := f.length_keyBytes
  have hlong : ¬(f.extended ++ f.keyBytes ++ rest).length < f.extended.length := by
    rw [List.length_append, List.length_append]
    omega
  show readSize (f.first :: f.second :: (f.extended ++ f.keyBytes ++ rest)) _ = _
  rw [readSize_first, readLength_first, if_neg hlong]
  dsimp only
  rw [List.append_assoc, readExtended_append]
  match hkey : f.key with
  | none =>
    have hmask : f.mask = {} := congrArg (fun k => Option.elim k _ _) hkey
    have hheader : f.header.length = 2 + f.extended.length := by
      rw [hlen, hkeys, hkey]
      rfl
    rw [if_pos Option.isSome_none, hmask, hheader]
  | some key =>
    have hmask : f.mask = { mask := key.1, ismask := true } :=
      congrArg (fun k => Option.elim k _ _) hkey
    have hheader : f.header.length = 2 + f.extended.length + WEBSOCKET_MASK_LEN := by
      rw [hlen, hkeys, hkey, Nat.add_assoc]
      rfl
    have hroom : ¬2 + f.extended.length + WEBSOCKET_MASK_LEN >
        (f.extended ++ (f.keyBytes ++ rest)).length + 2 := by
      rw [List.length_append, List.length_append]
      omega
    rw [if_neg Bool.noConfusion, if_neg hroom, hmask, hheader, ← f.take_keyBytes rest hkey]
    show _ = ((f.data.length : Int), Head.mk _ { mask :=
      ((f.first :: f.second :: (f.extended ++ f.keyBytes ++ rest)).drop _).take _, ismask := true })
    rw [List.append_assoc]

end DataFrame

end AntServer.WebSocket
