/-
# AntServer.LuaNumber — Lua numbers, and the numbers that strings stand for

A number of Lua 5.3 is a 64-bit integer or a double. `%` on two integers rounds the quotient down; as soon
as one operand is a double, or a string, both are made doubles (`lvm.c`), and `%` is `fmod` with the sign of
the divisor. A double indexes a table like the integer it is equal to, and finds nothing when there is none.

`tonumber` reads a string as an integer when it can (`l_str2int` of `lobject.c`: a decimal numeral that
fits, or a hexadecimal one modulo 2^64), and otherwise as a double (`l_str2d`, the numerals of `strtod`
without `inf` and `nan`). A character stands for a byte.
-/
import Mathlib.Data.List.TakeWhile
import Mathlib.Tactic.Ring
import AntServer.LuaString

namespace AntServer

open Float.Model (UnpackedFloat Format)

/-! ## The two kinds of numbers -/

/-- A number: an integer or a double. -/
inductive LuaNumber where
  | int (n : Int)
  | float (x : Float)
  deriving DecidableEq

namespace LuaFloat

/-! ## Doubles -/

/-- The largest integer that is not above a double, if it is finite. -/
def floor (x : Float) : Option Int :=
  match x.toModel.unpack with
  | .zero _ => some 0
  | .finite s m e _ => some (Int.fdiv (s.apply (m * 2 ^ e.toNat : Nat)) (2 ^ (-e).toNat))
  | _ => none

/-- The smallest integer that is not below a double, if it is finite. -/
def ceil (x : Float) : Option Int := (floor (-x)).map Neg.neg

/-- The number that a finite double stands for. -/
def toRat (x : Float) : Rat :=
  match x.toModel.unpack with
  | .finite s m e _ => mkRat (s.apply (m * 2 ^ e.toNat : Nat)) (2 ^ (-e).toNat)
  | _ => 0

/-- `fmod` of the C library. -/
def fmod (a b : Float) : Float :=
  match a.toModel.unpack, b.toModel.unpack with
  | .notANumber, _ => .ofModel (.pack .notANumber)
  | _, .notANumber => .ofModel (.pack .notANumber)
  | .infinity _, _ => .ofModel (.pack .notANumber)
  | _, .zero _ => .ofModel (.pack .notANumber)
  | .zero _, _ => a
  | _, .infinity _ => a
  | .finite s m e _, .finite _ n f _ =>
    let g := min e f
    let r := (m * 2 ^ (e - g).toNat) % (n * 2 ^ (f - g).toNat)
    .ofModel (.pack (UnpackedFloat.normalize Format.binary64 (s.apply r) g s))

/-- `luai_nummod`. -/
def mod (a b : Float) : Float :=
  let m := fmod a b
  if m * b < 0 then m + b else m

/-- The integer a double is equal to (`luaV_tointeger`). -/
def toInteger (x : Float) : Option Int :=
  match x.toModel.unpack with
  | .zero _ => some 0
  | .finite s m e _ =>
    if e < 0 ∧ m % 2 ^ (-e).toNat ≠ 0 then none
    else
      let i := s.apply (m * 2 ^ e.toNat / 2 ^ (-e).toNat : Nat)
      if -2 ^ 63 ≤ i ∧ i < 2 ^ 63 then some i else none
  | _ => none

end LuaFloat

namespace LuaNumber

/-! ## Arithmetic and order -/

/-- `a % b`, for an integer `b` other than 0. -/
def modInt : LuaNumber → Int → LuaNumber
  | .int n, b => .int (n.fmod b)
  | .float x, b => .float (LuaFloat.mod x (Float.ofInt b))

/-- `a + b`, for an integer `b`. -/
def addInt : LuaNumber → Int → LuaNumber
  | .int n, b => .int (n + b)
  | .float x, b => .float (x + Float.ofInt b)

def toFloat : LuaNumber → Float
  | .int n => Float.ofInt n
  | .float x => x

/-- `a + b`. Integers wrap around. -/
def add : LuaNumber → LuaNumber → LuaNumber
  | .int a, .int b => .int (Int.bmod (a + b) (2 ^ 64))
  | a, b => .float (a.toFloat + b.toFloat)

/-- `a - b`. -/
def sub : LuaNumber → LuaNumber → LuaNumber
  | .int a, .int b => .int (Int.bmod (a - b) (2 ^ 64))
  | a, b => .float (a.toFloat - b.toFloat)

/-- `a < b`. An integer and a double are compared as the numbers they are (`LTnum` of `lvm.c`). -/
def lt : LuaNumber → LuaNumber → Bool
  | .int a, .int b => a < b
  | .float x, .float y => x < y
  | .int a, .float y =>
    match y.toModel.unpack with
    | .infinity s => s == .positive
    | _ => (LuaFloat.ceil y).any (a < ·)
  | .float x, .int b =>
    match x.toModel.unpack with
    | .infinity s => s != .positive
    | _ => (LuaFloat.floor x).any (· < b)

/-- `a <= b` (`LEnum`). -/
def le : LuaNumber → LuaNumber → Bool
  | .int a, .int b => a ≤ b
  | .float x, .float y => x ≤ y
  | .int a, .float y =>
    match y.toModel.unpack with
    | .infinity s => s == .positive
    | _ => (LuaFloat.floor y).any (a ≤ ·)
  | .float x, .int b =>
    match x.toModel.unpack with
    | .infinity s => s != .positive
    | _ => (LuaFloat.ceil x).any (· ≤ b)

/-- The integer that `a // b` is, for `b` other than 0 and a finite quotient. Two doubles are divided and
rounded before the floor is taken (`luai_numidiv`). -/
def floorDiv : LuaNumber → LuaNumber → Option Int
  | .int a, .int b => some (a.fdiv b)
  | a, b => LuaFloat.floor (a.toFloat / b.toFloat)

/-- `math.ceil(a / b)`, for a finite quotient. `/` divides doubles, integers too. -/
def ceilDiv (a b : LuaNumber) : Option Int := LuaFloat.ceil (a.toFloat / b.toFloat)

instance (n : Nat) : OfNat LuaNumber n := ⟨.int n⟩
instance : Zero LuaNumber := ⟨.int 0⟩
instance : Add LuaNumber := ⟨add⟩
instance : Sub LuaNumber := ⟨sub⟩
instance : LT LuaNumber := ⟨fun a b => a.lt b = true⟩
instance : LE LuaNumber := ⟨fun a b => a.le b = true⟩
instance : DecidableLT LuaNumber := fun a b => inferInstanceAs (Decidable (a.lt b = true))
instance : DecidableLE LuaNumber := fun a b => inferInstanceAs (Decidable (a.le b = true))

/-- The number that a finite number of Lua stands for. -/
def toRat : LuaNumber → Rat
  | .int n => n
  | .float x => LuaFloat.toRat x

protected theorem zero_lt_one : (0 : LuaNumber) < 1 := by decide

/-! ## Indices of arrays -/

/-- The integer that a number indexes a table with, if there is one. -/
def toIndex : LuaNumber → Option Int
  | .int n => some n
  | .float x => LuaFloat.toInteger x

/-- `array[i]`. -/
def index {α : Type*} (array : List α) (i : LuaNumber) : Option α :=
  i.toIndex.bind fun n => luaIndex array n.toNat

theorem index_eq_some {α : Type*} {array : List α} {i : LuaNumber} :
    (∃ a, i.index array = some a) ↔ ∃ n, i.toIndex = some n ∧ 1 ≤ n ∧ n ≤ array.length := by
  unfold index
  cases i.toIndex with
  | none => simp
  | some n =>
    simp only [Option.bind_some, Option.some.injEq, exists_eq_left', luaIndex_isSome]
    omega

theorem mem_of_index {α : Type*} {array : List α} {i : LuaNumber} {a : α}
    (h : i.index array = some a) : a ∈ array := by
  obtain ⟨n, -, hn⟩ := Option.bind_eq_some_iff.mp h
  exact mem_of_luaIndex hn

/-! ## Numerals -/

/-- `lisspace`. -/
def isSpace (c : Char) : Bool := c.toNat ∈ [9, 10, 11, 12, 13, 32]

/-- `lisxdigit`. -/
def isXDigit (c : Char) : Bool :=
  c.isDigit || ('a' ≤ c && c ≤ 'f') || ('A' ≤ c && c ≤ 'F')

/-- `luaO_hexavalue`. -/
def hexValue (c : Char) : Nat :=
  if c.isDigit then c.toNat - 48 else if 'a' ≤ c then c.toNat - 97 + 10 else c.toNat - 65 + 10

def skipSpaces (s : List Char) : List Char := s.dropWhile isSpace

/-- A sign, and what follows it. -/
def sign : List Char → Bool × List Char
  | '-' :: s => (true, s)
  | '+' :: s => (false, s)
  | s => (false, s)

/-- What follows `0x`. -/
def hexPrefix : List Char → Option (List Char)
  | '0' :: 'x' :: s => some s
  | '0' :: 'X' :: s => some s
  | _ => none

def hexDigits (digits : List Char) : Nat := digits.foldl (fun a c => a * 16 + hexValue c) 0

/-- `l_str2int`. -/
def str2int (s : List Char) : Option Int :=
  let (neg, s) := sign (skipSpaces s)
  match hexPrefix s with
  | some s =>
    let digits := s.takeWhile isXDigit
    if digits = [] ∨ skipSpaces (s.dropWhile isXDigit) ≠ [] then none
    else
      let a : Int := hexDigits digits
      some (Int.bmod (if neg then -a else a) (2 ^ 64))
  | none =>
    let digits := s.takeWhile Char.isDigit
    let a := Nat.ofDigitChars 10 digits 0
    if digits = [] ∨ skipSpaces (s.dropWhile Char.isDigit) ≠ [] ∨ a > 2 ^ 63 - 1 + neg.toNat then none
    else some (if neg then -a else a)

/-- The digits before and after the point, and what follows. -/
def mantissa (isDigit : Char → Bool) (s : List Char) : List Char × List Char × List Char :=
  match s.dropWhile isDigit with
  | '.' :: r => (s.takeWhile isDigit, r.takeWhile isDigit, r.dropWhile isDigit)
  | r => (s.takeWhile isDigit, [], r)

/-- An exponent after one of two marks, and what follows; 0 without one. -/
def exponent (lower upper : Char) (s : List Char) : Int × List Char :=
  match s with
  | c :: r =>
    if c = lower ∨ c = upper then
      let (neg, r) := sign r
      let digits := r.takeWhile Char.isDigit
      let a : Int := Nat.ofDigitChars 10 digits 0
      if digits = [] then (0, s) else (if neg then -a else a, r.dropWhile Char.isDigit)
    else (0, s)
  | [] => (0, s)

/-- `l_str2d`. -/
def str2d (s : List Char) : Option Float :=
  let (neg, s) := sign (skipSpaces s)
  let x : Option Float :=
    match hexPrefix s with
    | some s =>
      let (before, after, s) := mantissa isXDigit s
      let (e, s) := exponent 'p' 'P' s
      if before ++ after = [] ∨ skipSpaces s ≠ [] then none
      else
        some (.ofModel (.pack (UnpackedFloat.normalize Format.binary64 (hexDigits (before ++ after))
          (e - 4 * after.length) .positive)))
    | none =>
      let (before, after, s) := mantissa Char.isDigit s
      let (e, s) := exponent 'e' 'E' s
      let e := e - after.length
      if before ++ after = [] ∨ skipSpaces s ≠ [] then none
      else some (Float.ofScientific (Nat.ofDigitChars 10 (before ++ after) 0) (e < 0) e.natAbs)
  x.map fun x => if neg then -x else x

/-- `tonumber` of a string. -/
def tonumber (s : List Char) : Option LuaNumber :=
  match str2int s with
  | some n => some (.int n)
  | none => (str2d s).map .float

/-- `tostring` of an integer. -/
def integerText : Int → List Char
  | .ofNat n => Nat.toDigits 10 n
  | .negSucc n => '-' :: Nat.toDigits 10 (n + 1)

/-- A digit is no space and no sign, and digits are no hexadecimal prefix. -/
theorem sign_digits {c : Char} {s : List Char} (hc : c.isDigit = true) :
    sign (skipSpaces (c :: s)) = (false, c :: s) := by
  have hrange : 48 ≤ c.toNat ∧ c.toNat ≤ 57 := Char.isDigit_iff_toNat.mp hc
  have hspace : isSpace c = false := by
    simp only [isSpace, List.mem_cons, List.not_mem_nil, or_false, decide_eq_false_iff_not]
    omega
  have hminus : c ≠ '-' := fun h => by rw [h] at hrange; revert hrange; decide
  have hplus : c ≠ '+' := fun h => by rw [h] at hrange; revert hrange; decide
  unfold skipSpaces
  rw [List.dropWhile_cons_of_neg (by simp [hspace])]
  unfold sign
  split
  · rename_i h
    exact absurd (List.cons.inj h).1 hminus
  · rename_i h
    exact absurd (List.cons.inj h).1 hplus
  · rfl

theorem hexPrefix_digits {s : List Char} (hs : ∀ c ∈ s, c.isDigit = true) : hexPrefix s = none := by
  unfold hexPrefix
  split
  · exact absurd (hs 'x' (by simp)) (by decide)
  · exact absurd (hs 'X' (by simp)) (by decide)
  · rfl

/-- A decimal numeral that fits is an integer. -/
theorem tonumber_digits {s : List Char} (hne : s ≠ []) (hs : ∀ c ∈ s, c.isDigit = true)
    (hlt : Nat.ofDigitChars 10 s 0 < 2 ^ 63) :
    tonumber s = some (.int (Nat.ofDigitChars 10 s 0 : Nat)) := by
  have hsign : sign (skipSpaces s) = (false, s) := by
    obtain ⟨c, r, rfl⟩ := List.exists_cons_of_ne_nil hne
    exact sign_digits (hs c List.mem_cons_self)
  have hint : str2int s = some ((Nat.ofDigitChars 10 s 0 : Nat) : Int) := by
    unfold str2int
    simp only [hsign, hexPrefix_digits hs]
    rw [List.takeWhile_eq_self_iff.mpr hs, List.dropWhile_eq_nil_iff.mpr hs, if_neg]
    · rfl
    · simp only [not_or]
      exact ⟨hne, by simp [skipSpaces], by simp; omega⟩
  unfold tonumber
  rw [hint]

/-- What `tostring` writes for an integer that is not negative, `tonumber` reads. -/
theorem tonumber_toDigits {n : Nat} (hlt : n < 2 ^ 63) : tonumber (Nat.toDigits 10 n) = some (.int n) := by
  have hdigits : ∀ c ∈ Nat.toDigits 10 n, c.isDigit = true := fun _ hc =>
    Nat.isDigit_of_mem_toDigits (by decide) (by decide) hc
  have h := tonumber_digits Nat.toDigits_ne_nil hdigits
    (by rw [Nat.ofDigitChars_ten_toDigits]; exact hlt)
  rwa [Nat.ofDigitChars_ten_toDigits] at h

end LuaNumber

end AntServer
