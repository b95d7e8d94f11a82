/-
# AntServer.Rudp.Segments — packages as rows of segments

A package is read segment by segment. The segments are a framing (`wire`), so that a row of them is read
back as it was written, and `extract_package` does with any package what its segments ask for one after the
other, up to the place where no segment begins: there it marks the connection as corrupt
(`extractPackage_eq`). A segment has the low 16 bits of a number, and `get_id` finds the number again when
it is near the greatest number received (`getId_lowBytes_iff`).
-/
import AntServer.Lib.Framing
import AntServer.Lib.SerialNumber
import AntServer.Rudp.Rudp

namespace AntServer.Rudp

open Lib

/-- The bytes of a message that fit a package. -/
abbrev Payload := { b : Bytes // b.length ≤ maxPackage }

/-- The segments of a package; `ι` are the numbers of the messages. -/
inductive Segment (ι : Type) where
  /-- the heartbeat -/
  | ignore
  /-- a message is asked for -/
  | request (id : ι)
  /-- a message that was asked for is no longer there -/
  | missing (id : ι)
  | normal (id : ι) (payload : Payload)
  deriving DecidableEq

/-- The same segment with other numbers. -/
def Segment.map {ι κ : Type} (f : ι → κ) : Segment ι → Segment κ
  | ignore => ignore
  | request id => request (f id)
  | missing id => missing (f id)
  | normal id payload => normal (f id) payload

/-! ## The head -/

/-- A head as `fill_header` writes it. -/
def headBytes (len : Nat) : Bytes :=
  if len < 128 then [UInt8.ofNat len]
  else [UInt8.ofNat (((len &&& 0x7f00) >>> 8) ||| 0x80), UInt8.ofNat (len &&& 0xff)]

/-- The two bytes of a number. -/
def lowBytes (id : Int) : UInt8 × UInt8 := (UInt8.ofInt (id / 256), UInt8.ofInt id)

theorem fillHeader_eq (len : Nat) (id : Int) :
    fillHeader len id = headBytes len ++ [(lowBytes id).1, (lowBytes id).2] := rfl

theorem length_headBytes (len : Nat) : (headBytes len).length = if len < 128 then 1 else 2 := by
  unfold headBytes
  split <;> rfl

/-- The first byte of a long head. -/
theorem long_head {len : Nat} (h : len < 0x8000) :
    ((len &&& 0x7f00) >>> 8) ||| 0x80 = len / 256 + 128 := by
  have hand : (len &&& 0x7f00) >>> 8 = len / 256 := by
    rw [Nat.shiftRight_and_distrib, Nat.shiftRight_eq_div_pow]
    show len / 256 &&& (2 ^ 7 - 1) = len / 256
    rw [Nat.and_two_pow_sub_one_eq_mod]
    exact Nat.mod_eq_of_lt (by omega)
  rw [hand, Nat.or_comm, show (0x80 : Nat) = 2 ^ 7 * 1 from rfl,
    ← Nat.two_pow_add_eq_or_of_lt (show len / 256 < 2 ^ 7 by omega)]
  exact Nat.add_comm _ _

theorem readHead_headBytes {len : Nat} (h : len < 0x8000) (rest : Bytes) :
    readHead (headBytes len ++ rest) = some (len, rest) := by
  unfold headBytes
  by_cases hlen : len < 128
  · have hnat : (UInt8.ofNat len).toNat = len := by
      rw [UInt8.toNat_ofNat']
      exact Nat.mod_eq_of_lt (by omega)
    rw [if_pos hlen]
    show (if (UInt8.ofNat len).toNat > 127 then _ else some ((UInt8.ofNat len).toNat, rest)) = _
    rw [hnat, if_neg (by omega)]
  · have hfirst : (UInt8.ofNat (((len &&& 0x7f00) >>> 8) ||| 0x80)).toNat = len / 256 + 128 := by
      rw [long_head h, UInt8.toNat_ofNat']
      exact Nat.mod_eq_of_lt (by omega)
    have hsecond : (UInt8.ofNat (len &&& 0xff)).toNat = len % 256 := by
      rw [show (0xff : Nat) = 2 ^ 8 - 1 from rfl, Nat.and_two_pow_sub_one_eq_mod, UInt8.toNat_ofNat']
      exact Nat.mod_mod _ _
    have hlow : ((len / 256 + 128) * 256 + len % 256) &&& 0x7fff = len := by
      rw [show (0x7fff : Nat) = 2 ^ 15 - 1 from rfl, Nat.and_two_pow_sub_one_eq_mod]
      omega
    rw [if_neg hlen]
    simp only [List.cons_append, List.nil_append, readHead]
    rw [hfirst, hsecond, if_pos (by omega), hlow]

theorem readHead_lt {text rest : Bytes} {len : Nat} (h : readHead text = some (len, rest)) :
    rest.length < text.length ∧ len ≤ 0x7fff := by
  have hand (n : Nat) : n &&& 0x7fff ≤ 0x7fff := Nat.and_le_right
  cases text with
  | nil => cases h
  | cons b text =>
    simp only [readHead] at h
    by_cases hb : b.toNat > 127
    · rw [if_pos hb] at h
      cases text with
      | nil => cases h
      | cons c text =>
        obtain ⟨rfl, rfl⟩ := Prod.mk.inj (Option.some.inj h)
        exact ⟨by simp only [List.length_cons]; omega, hand _⟩
    · rw [if_neg hb] at h
      obtain ⟨rfl, rfl⟩ := Prod.mk.inj (Option.some.inj h)
      exact ⟨by simp only [List.length_cons]; omega, by omega⟩

/-! ## Segments as a framing -/

/-- The numbers of the segments of a package: two bytes. -/
abbrev Low := UInt8 × UInt8

/-- A segment as it is packed. -/
def writeSegment : Segment Low → Bytes
  | .ignore => headBytes typeIgnore
  | .request id => headBytes typeRequest ++ [id.1, id.2]
  | .missing id => headBytes typeMissing ++ [id.1, id.2]
  | .normal id payload => headBytes (payload.1.length + typeNormal) ++ id.1 :: id.2 :: payload.1

/-- What is behind the head and the number of a segment. -/
def readBody (len : Nat) (id : Low) (rest : Bytes) : Option (Segment Low × Bytes) :=
  if len = typeRequest then some (.request id, rest)
  else if len = typeMissing then some (.missing id, rest)
  else if rest.length < len - typeNormal then none
  else if h : (rest.take (len - typeNormal)).length ≤ maxPackage then
    some (.normal id ⟨_, h⟩, rest.drop (len - typeNormal))
  else none

/-- A segment as it is extracted; there is none of type `TYPE_CORRUPT`. -/
def readSegment (text : Bytes) : Option (Segment Low × Bytes) :=
  match readHead text with
  | none => none
  | some (len, rest) =>
    if len = typeIgnore then some (.ignore, rest)
    else if len = typeCorrupt then none
    else
      match rest with
      | b0 :: b1 :: rest => readBody len (b0, b1) rest
      | _ => none

theorem readSegment_head {len : Nat} (hlen : len < 0x8000) (h0 : len ≠ typeIgnore)
    (h1 : len ≠ typeCorrupt) (id : Low) (rest : Bytes) :
    readSegment (headBytes len ++ id.1 :: id.2 :: rest) = readBody len id rest := by
  unfold readSegment
  rw [readHead_headBytes hlen]
  dsimp only
  rw [if_neg h0, if_neg h1]

theorem readSegment_writeSegment (s : Segment Low) (rest : Bytes) :
    readSegment (writeSegment s ++ rest) = some (s, rest) := by
  cases s with
  | ignore => rfl
  | request id =>
    show readSegment (headBytes typeRequest ++ [id.1, id.2] ++ rest) = _
    rw [List.append_assoc]
    exact readSegment_head (by decide) (by decide) (by decide) id rest
  | missing id =>
    show readSegment (headBytes typeMissing ++ [id.1, id.2] ++ rest) = _
    rw [List.append_assoc]
    exact readSegment_head (by decide) (by decide) (by decide) id rest
  | normal id payload =>
    obtain ⟨b, hb⟩ := payload
    have hmax : maxPackage = 0x7ffb := rfl
    unfold writeSegment
    rw [List.append_assoc]
    simp only [List.cons_append]
    rw [readSegment_head (by unfold typeNormal; omega) (by unfold typeNormal typeIgnore; omega)
      (by unfold typeNormal typeCorrupt; omega)]
    unfold readBody
    rw [if_neg (by unfold typeNormal typeRequest; omega), if_neg (by unfold typeNormal typeMissing; omega),
      Nat.add_sub_cancel, if_neg (by rw [List.length_append]; omega)]
    have htake : (b ++ rest).take b.length = b := List.take_left
    rw [dif_pos (by rw [htake]; exact hb)]
    congr 2
    · congr 1
      exact Subtype.ext htake
    · exact List.drop_left

theorem readSegment_lt {text rest : Bytes} {s : Segment Low} (h : readSegment text = some (s, rest)) :
    rest.length < text.length := by
  unfold readSegment at h
  cases hhead : readHead text with
  | none => rw [hhead] at h; cases h
  | some x =>
    obtain ⟨len, behind⟩ := x
    have hlt := (readHead_lt hhead).1
    rw [hhead] at h
    dsimp only at h
    split at h
    · obtain ⟨-, rfl⟩ := Prod.mk.inj (Option.some.inj h)
      exact hlt
    · split at h
      · cases h
      · split at h
        · rename_i b0 b1 body
          have hbody : body.length < text.length := by
            simp only [List.length_cons] at hlt
            omega
          unfold readBody at h
          split_ifs at h with h2 h3 h4 h5
          · obtain ⟨-, rfl⟩ := Prod.mk.inj (Option.some.inj h)
            exact hbody
          · obtain ⟨-, rfl⟩ := Prod.mk.inj (Option.some.inj h)
            exact hbody
          · obtain ⟨-, rfl⟩ := Prod.mk.inj (Option.some.inj h)
            rw [List.length_drop]
            omega
        · cases h

/-- The segments of a package. -/
def wire : Framing (Segment Low) UInt8 where
  write := writeSegment
  read := readSegment
  read_write := readSegment_writeSegment
  read_lt := readSegment_lt

/-! ## What a segment asks for -/

/-- What one segment does to the end that receives it. -/
def accept (U : Rudp) : Segment Low → Rudp
  | .ignore => onIgnore U
  | .request id => addRequest U (getId U id.1 id.2)
  | .missing id => addMissing U (getId U id.1 id.2)
  | .normal id payload => insertMessage U (getId U id.1 id.2) (some payload.1)

/-- What `extract_package` does when it stops with some of the package left. -/
def stopAt (U : Rudp) (rest : Bytes) : Rudp := if rest = [] then U else { U with corrupt := true }

theorem extractFrom_succ (fuel : Nat) (U : Rudp) (text : Bytes) :
    extractFrom (fuel + 1) U text =
      match readSegment text with
      | none => stopAt U text
      | some (s, rest) => extractFrom fuel (accept U s) rest := by
  rw [extractFrom]
  unfold readSegment
  by_cases hnil : text = []
  · subst hnil
    rfl
  rw [if_neg hnil]
  have hstop : stopAt U text = { U with corrupt := true } := if_neg hnil
  cases hhead : readHead text with
  | none => exact hstop.symm
  | some x =>
    obtain ⟨len, rest⟩ := x
    have hlen := (readHead_lt hhead).2
    dsimp only
    by_cases h0 : len = typeIgnore
    · rw [if_pos h0, if_pos h0]
      rfl
    rw [if_neg h0, if_neg h0]
    by_cases h1 : len = typeCorrupt
    · rw [if_pos h1, if_pos h1]
      exact hstop.symm
    rw [if_neg h1, if_neg h1]
    match rest with
    | [] => exact hstop.symm
    | [_] => exact hstop.symm
    | b0 :: b1 :: rest =>
      dsimp only
      unfold readBody
      by_cases h2 : len = typeRequest
      · rw [if_pos h2, if_pos h2]
        rfl
      rw [if_neg h2, if_neg h2]
      by_cases h3 : len = typeMissing
      · rw [if_pos h3, if_pos h3]
        rfl
      rw [if_neg h3, if_neg h3]
      by_cases h4 : rest.length < len - typeNormal
      · rw [if_pos h4, if_pos h4]
        exact hstop.symm
      rw [if_neg h4, if_neg h4, dif_pos (by
        rw [List.length_take]
        unfold maxPackage typeNormal
        omega)]
      rfl

/-- A package does what its segments ask for, one after the other; a rest that is no segment marks the
connection as corrupt. -/
theorem extractPackage_eq (U : Rudp) (text : Bytes) :
    extractPackage U text = stopAt ((wire.readAll text).1.foldl accept U) (wire.readAll text).2 := by
  have hany : ∀ (fuel : Nat) (U : Rudp) (text : Bytes), text.length ≤ fuel →
      extractFrom fuel U text = stopAt ((wire.readAll text).1.foldl accept U) (wire.readAll text).2 := by
    intro fuel
    induction fuel with
    | zero =>
      intro U text h
      obtain rfl := List.length_eq_zero_iff.mp (Nat.le_zero.mp h)
      rw [wire.readAll_nil]
      rfl
    | succ fuel ih =>
      intro U text h
      rw [extractFrom_succ]
      cases hread : readSegment text with
      | none =>
        have hall := wire.readAll_of_none hread
        rw [hall]
        rfl
      | some x =>
        have hlt := readSegment_lt hread
        have hall := wire.readAll_of_some hread
        rw [hall]
        exact ih _ _ (by omega)
  exact hany text.length U text (Nat.le_refl _)

/-! ## Numbers -/

theorem getId_lowBytes (U : Rudp) (id : Int) :
    getId U (lowBytes id).1 (lowBytes id).2 = SerialNumber.unwrap 0x8000 U.recvIdMax (id % 0x10000) := by
  have hbyte (n : Int) : ((UInt8.ofInt n).toNat : Int) = n % 256 := by
    have h0 := Int.emod_nonneg n (show (256 : Int) ≠ 0 by decide)
    have h1 := Int.emod_lt_of_pos n (show (0 : Int) < 256 by decide)
    show ((UInt8.ofNat (n % 256).toNat).toNat : Int) = n % 256
    rw [UInt8.toNat_ofNat', Nat.mod_eq_of_lt (by omega), Int.toNat_of_nonneg h0]
  have hlow : (((lowBytes id).1.toNat * 256 + (lowBytes id).2.toNat : Nat) : Int) = id % 0x10000 := by
    push_cast
    show ((UInt8.ofInt (id / 256)).toNat : Int) * 256 + ((UInt8.ofInt id).toNat : Int) = _
    rw [hbyte, hbyte]
    omega
  unfold getId SerialNumber.unwrap
  rw [hlow]
  rfl

/-- Exactly the numbers that `get_id` finds again: those less than `0x8000` from the greatest one
received, and at that distance the one in the block of the greatest. -/
theorem getId_lowBytes_iff (U : Rudp) (id : Int) : getId U (lowBytes id).1 (lowBytes id).2 = id ↔
    U.recvIdMax - 0x8000 < id ∧ id < U.recvIdMax + 0x8000 ∨
      (id = U.recvIdMax + 0x8000 ∨ id = U.recvIdMax - 0x8000) ∧
        id / 0x10000 = U.recvIdMax / 0x10000 := by
  rw [getId_lowBytes]
  exact SerialNumber.unwrap_eq_iff (by decide) id

end AntServer.Rudp
