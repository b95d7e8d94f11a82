/-
# AntServer.Lib.Base64 — the base64 text of a byte string

Three bytes are four digits of 6 bits, and the last group is filled up with `=`. The round trip goes group
by group (`decode_encode`); the text of a byte string has no other characters than the 64 digits and the
pad (`mem_encode`), and it is empty for the empty byte string only.

Nothing here names the modelled system.
-/
import Mathlib.Data.List.Basic

namespace AntServer.Lib.Base64

/-! ## The code -/

/-- `=`. -/
def pad : UInt8 := 61

/-- The digit of a number below 64: `A`-`Z`, `a`-`z`, `0`-`9`, `+`, `/`. -/
def digit (n : Nat) : UInt8 :=
  if n < 26 then UInt8.ofNat (65 + n)
  else if n < 52 then UInt8.ofNat (97 + (n - 26))
  else if n < 62 then UInt8.ofNat (48 + (n - 52))
  else if n = 62 then 43
  else 47

/-- The number of a digit. -/
def value (c : UInt8) : Option Nat :=
  let n := c.toNat
  if 65 ≤ n ∧ n ≤ 90 then some (n - 65)
  else if 97 ≤ n ∧ n ≤ 122 then some (n - 97 + 26)
  else if 48 ≤ n ∧ n ≤ 57 then some (n - 48 + 52)
  else if n = 43 then some 62
  else if n = 47 then some 63
  else none

def encode : List UInt8 → List UInt8
  | [] => []
  | [a] => [digit (a.toNat / 4), digit (a.toNat % 4 * 16), pad, pad]
  | [a, b] =>
    [digit (a.toNat / 4), digit (a.toNat % 4 * 16 + b.toNat / 16), digit (b.toNat % 16 * 4), pad]
  | a :: b :: c :: rest =>
    digit (a.toNat / 4) :: digit (a.toNat % 4 * 16 + b.toNat / 16) ::
      digit (b.toNat % 16 * 4 + c.toNat / 64) :: digit (c.toNat % 64) :: encode rest

/-- `none` for a text that is not made of whole groups. -/
def decode : List UInt8 → Option (List UInt8)
  | [] => some []
  | c₁ :: c₂ :: c₃ :: c₄ :: rest => do
    let p ← value c₁
    let q ← value c₂
    let a := UInt8.ofNat (p * 4 + q / 16)
    if c₄ = pad then
      if rest ≠ [] then none
      else if c₃ = pad then some [a]
      else do
        let r ← value c₃
        some [a, UInt8.ofNat (q % 16 * 16 + r / 4)]
    else do
      let r ← value c₃
      let s ← value c₄
      let tail ← decode rest
      some (a :: UInt8.ofNat (q % 16 * 16 + r / 4) :: UInt8.ofNat (r % 4 * 64 + s) :: tail)
  | _ => none

/-! ## What is written is read -/

theorem value_digit {n : Nat} (h : n < 64) : value (digit n) = some n :=
  (by decide : ∀ m : Fin 64, value (digit m) = some m.val) ⟨n, h⟩

theorem digit_ne_pad {n : Nat} (h : n < 64) : digit n ≠ pad :=
  (by decide : ∀ m : Fin 64, digit m ≠ pad) ⟨n, h⟩

theorem ofNat_eq {n : Nat} {a : UInt8} (h : n = a.toNat) : UInt8.ofNat n = a := by
  rw [h]
  exact UInt8.ofNat_toNat

theorem toNat_lt (a : UInt8) : a.toNat < 256 := a.toNat_lt

/-- What was encoded is decoded. -/
theorem decode_encode : ∀ bytes : List UInt8, decode (encode bytes) = some bytes
  | [] => rfl
  | [a] => by
    have ha := toNat_lt a
    simp only [encode, decode, value_digit (show a.toNat / 4 < 64 by omega),
      value_digit (show a.toNat % 4 * 16 < 64 by omega), Option.bind_eq_bind, Option.bind_some, if_true,
      ne_eq, not_true_eq_false, if_false]
    rw [ofNat_eq (a := a) (by omega)]
  | [a, b] => by
    have ha := toNat_lt a
    have hb := toNat_lt b
    simp only [encode, decode, value_digit (show a.toNat / 4 < 64 by omega),
      value_digit (show a.toNat % 4 * 16 + b.toNat / 16 < 64 by omega),
      value_digit (show b.toNat % 16 * 4 < 64 by omega),
      digit_ne_pad (show b.toNat % 16 * 4 < 64 by omega), Option.bind_eq_bind, Option.bind_some, if_true,
      ne_eq, not_true_eq_false, if_false]
    rw [ofNat_eq (a := a) (by omega), ofNat_eq (a := b) (by omega)]
  | a :: b :: c :: rest => by
    have ha := toNat_lt a
    have hb := toNat_lt b
    have hc := toNat_lt c
    simp only [encode, decode, value_digit (show a.toNat / 4 < 64 by omega),
      value_digit (show a.toNat % 4 * 16 + b.toNat / 16 < 64 by omega),
      value_digit (show b.toNat % 16 * 4 + c.toNat / 64 < 64 by omega),
      value_digit (show c.toNat % 64 < 64 by omega), digit_ne_pad (show c.toNat % 64 < 64 by omega),
      decode_encode rest, Option.bind_eq_bind, Option.bind_some, if_false]
    rw [ofNat_eq (a := a) (by omega), ofNat_eq (a := b) (by omega), ofNat_eq (a := c) (by omega)]

/-! ## What is written -/

/-- The characters of a text are digits and pads. -/
theorem mem_encode {bytes : List UInt8} {c : UInt8} (h : c ∈ encode bytes) :
    c = pad ∨ ∃ n < 64, c = digit n := by
  induction bytes using encode.induct with
  | case1 => cases h
  | case2 a =>
    have ha := toNat_lt a
    simp only [encode, List.mem_cons, List.not_mem_nil, or_false] at h
    rcases h with rfl | rfl | rfl | rfl
    · exact .inr ⟨_, by omega, rfl⟩
    · exact .inr ⟨_, by omega, rfl⟩
    · exact .inl rfl
    · exact .inl rfl
  | case3 a b =>
    have ha := toNat_lt a
    have hb := toNat_lt b
    simp only [encode, List.mem_cons, List.not_mem_nil, or_false] at h
    rcases h with rfl | rfl | rfl | rfl
    · exact .inr ⟨_, by omega, rfl⟩
    · exact .inr ⟨_, by omega, rfl⟩
    · exact .inr ⟨_, by omega, rfl⟩
    · exact .inl rfl
  | case4 a b c' rest ih =>
    have ha := toNat_lt a
    have hb := toNat_lt b
    have hc := toNat_lt c'
    simp only [encode, List.mem_cons] at h
    rcases h with rfl | rfl | rfl | rfl | h
    · exact .inr ⟨_, by omega, rfl⟩
    · exact .inr ⟨_, by omega, rfl⟩
    · exact .inr ⟨_, by omega, rfl⟩
    · exact .inr ⟨_, by omega, rfl⟩
    · exact ih h

/-- A character that is no digit and no pad is in no text. -/
theorem notMem_encode {c : UInt8} (hpad : c ≠ pad) (hdigit : ∀ n : Fin 64, c ≠ digit n)
    (bytes : List UInt8) : c ∉ encode bytes := fun h => by
  rcases mem_encode h with rfl | ⟨n, hn, rfl⟩
  · exact hpad rfl
  · exact hdigit ⟨n, hn⟩ rfl

theorem encode_eq_nil {bytes : List UInt8} : encode bytes = [] ↔ bytes = [] := by
  fun_cases encode bytes <;> simp

end AntServer.Lib.Base64
