/-
# AntServer.Crab.Utf8 — texts as runes

`lualib-src/crab/lua-utf8.c`. `_toutf32` reads a string rune by rune: the first byte says how many bytes a
rune has, and the low bits of the others are taken whatever their high bits are. `_toutf8` writes runes
below 0x110000, each with as few bytes as it takes. So runes that were written are read back
(`toutf32_toutf8`), and a string that was read is written as it was exactly when it is made of shortest
forms (`toutf8_toutf32_iff`). `_len` counts what `_toutf32` reads (`len_eq`).

A string is a list of bytes. Where the C code fills a Lua table and returns a count or nothing, the model
gives the table and whether a count is returned. The reading is the one of `Lib.Framing`, for all runes
that a string can be read as.
-/
import AntServer.Lib.Framing
import AntServer.Crab.Dict

namespace AntServer.Crab

open Lib

/-! ## The code -/

/-- `_steps`. -/
def steps (c : UInt8) : Nat :=
  if c < 0x80 then 1
  else if c < 0xc0 then 0
  else if c < 0xe0 then 2
  else if c < 0xf0 then 3
  else if c < 0xf8 then 4
  else 0

/-- `_bytes`. -/
def bytes (rune : Nat) : Nat :=
  if rune < 0x80 then 1
  else if rune < 0x800 then 2
  else if rune < 0x10000 then 3
  else if rune < 0x110000 then 4
  else 0

/-- `_decode`, at the front of the string. -/
def decode (str : List UInt8) (step : Nat) : Nat :=
  match str with
  | [] => 0
  | c :: tail =>
    (tail.take (step - 1)).foldl (fun v b => v <<< 6 ||| b.toNat &&& 0x3f) (c.toNat &&& 0xff >>> step)

/-- What `FILL_LOW_BITS` writes. -/
def lowBits (rune : Nat) : UInt8 := UInt8.ofNat (rune &&& 0x3f ||| 0x80)

/-- `_encode`. -/
def encode (rune bytes : Nat) : List UInt8 :=
  match bytes with
  | 1 => [UInt8.ofNat (rune &&& 0x7f)]
  | 2 => [UInt8.ofNat (rune >>> 6 ||| 0xc0), lowBits rune]
  | 3 => [UInt8.ofNat (rune >>> 6 >>> 6 ||| 0xe0), lowBits (rune >>> 6), lowBits rune]
  | _ => [UInt8.ofNat (rune >>> 6 >>> 6 >>> 6 ||| 0xf0), lowBits (rune >>> 6 >>> 6), lowBits (rune >>> 6),
      lowBits rune]

/-- One turn of the loop of `_toutf32`: the rune, and the string behind it. -/
def readRune (str : List UInt8) : Option (Nat × List UInt8) :=
  match str with
  | [] => none
  | c :: _ => if steps c = 0 ∨ str.length < steps c then none
      else some (decode str (steps c), str.drop (steps c))

/-- The loop of `_toutf32`, at most `fuel` times: the table, and whether the string was read to its end. -/
def toutf32Loop : Nat → List UInt8 → List Nat × Bool
  | 0, str => ([], str.isEmpty)
  | _ + 1, [] => ([], true)
  | fuel + 1, c :: tail =>
    match readRune (c :: tail) with
    | none => ([], false)
    | some (rune, rest) => (rune :: (toutf32Loop fuel rest).1, (toutf32Loop fuel rest).2)

/-- `_toutf32`. -/
def toutf32 (str : List UInt8) : List Nat × Bool := toutf32Loop str.length str

/-- The first loop of `_toutf8`, at one value of the table: none when it is not an integer. -/
def checkRune (v : Option Int) : Option Nat :=
  v.bind fun v => if bytes (runeOf v).toNat = 0 then none else some (runeOf v).toNat

/-- `_toutf8`. -/
def toutf8 (texts : List (Option Int)) : Option (List UInt8) :=
  (texts.mapM checkRune).map fun runes => runes.flatMap fun rune => encode rune (bytes rune)

/-- The loop of `_len`. -/
def lenLoop : Nat → Nat → List UInt8 → Option Nat
  | 0, count, _ => some count
  | fuel + 1, count, str =>
    match str with
    | [] => some count
    | c :: _ => if steps c = 0 ∨ str.length < steps c then none
        else lenLoop fuel (count + 1) (str.drop (steps c))

/-- `_len`. -/
def len (str : List UInt8) : Option Nat := lenLoop str.length 0 str

/-! ## Bits as numbers -/

theorem and_low (x n : Nat) : x &&& (2 ^ n - 1) = x % 2 ^ n := Nat.and_two_pow_sub_one_eq_mod x n

theorem low6 (x : Nat) : x &&& 0x3f = x % 64 := and_low x 6

theorem shift_or (v b : Nat) : v <<< 6 ||| b &&& 0x3f = v * 64 + b % 64 := by
  rw [low6, ← Nat.shiftLeft_add_eq_or_of_lt (Nat.mod_lt b (by omega) : b % 64 < 2 ^ 6), Nat.shiftLeft_eq]

theorem toNat_lowBits (rune : Nat) : (lowBits rune).toNat = 128 + rune % 64 := by
  have hlt := Nat.mod_lt rune (show 64 > 0 by omega)
  have hor : rune % 64 ||| 0x80 = 128 + rune % 64 := by
    have h := Nat.or_two_pow_eq_add_of_lt (a := rune % 64) (n := 7) (by omega)
    rw [h, Nat.add_comm]
  unfold lowBits
  rw [low6, hor, UInt8.toNat_ofNat']
  omega

/-- A first byte: `high` above `low` bits. -/
theorem toNat_lead {x k a : Nat} (hx : x < 2 ^ k) (ha : 2 ^ k * a + x < 256) :
    (UInt8.ofNat (x ||| 2 ^ k * a)).toNat = 2 ^ k * a + x := by
  rw [Nat.or_comm, ← Nat.two_pow_add_eq_or_of_lt hx, UInt8.toNat_ofNat']
  exact Nat.mod_eq_of_lt ha

/-! ## The four lengths of a rune -/

theorem readRune_one {a : UInt8} (ha : a.toNat < 0x80) (rest : List UInt8) :
    readRune (a :: rest) = some (a.toNat, rest) := by
  have hsteps : steps a = 1 := if_pos (UInt8.lt_iff_toNat_lt.mpr ha)
  have hdecode : decode (a :: rest) 1 = a.toNat := by
    have hlt : a.toNat < 2 ^ 7 := ha
    show a.toNat &&& (2 ^ 7 - 1) = a.toNat
    rw [and_low, Nat.mod_eq_of_lt hlt]
  rw [readRune, hsteps, hdecode]
  exact if_neg (by simp)

theorem readRune_two {a b : UInt8} (h1 : 0xc0 ≤ a.toNat) (h2 : a.toNat < 0xe0) (rest : List UInt8) :
    readRune (a :: b :: rest) = some ((a.toNat - 0xc0) * 64 + b.toNat % 64, rest) := by
  have hsteps : steps a = 2 := by
    simp only [steps, UInt8.lt_iff_toNat_lt, UInt8.reduceToNat]
    rw [if_neg (by omega), if_neg (by omega), if_pos h2]
  have hdecode : decode (a :: b :: rest) 2 = (a.toNat - 0xc0) * 64 + b.toNat % 64 := by
    show (a.toNat &&& (2 ^ 6 - 1)) <<< 6 ||| b.toNat &&& 0x3f = _
    rw [shift_or, and_low]
    omega
  rw [readRune, hsteps, hdecode]
  exact if_neg (by simp)

theorem readRune_three {a b c : UInt8} (h1 : 0xe0 ≤ a.toNat) (h2 : a.toNat < 0xf0) (rest : List UInt8) :
    readRune (a :: b :: c :: rest) =
      some (((a.toNat - 0xe0) * 64 + b.toNat % 64) * 64 + c.toNat % 64, rest) := by
  have hsteps : steps a = 3 := by
    simp only [steps, UInt8.lt_iff_toNat_lt, UInt8.reduceToNat]
    rw [if_neg (by omega), if_neg (by omega), if_neg (by omega), if_pos h2]
  have hdecode : decode (a :: b :: c :: rest) 3 =
      ((a.toNat - 0xe0) * 64 + b.toNat % 64) * 64 + c.toNat % 64 := by
    show ((a.toNat &&& (2 ^ 5 - 1)) <<< 6 ||| b.toNat &&& 0x3f) <<< 6 ||| c.toNat &&& 0x3f = _
    rw [shift_or, shift_or, and_low]
    omega
  rw [readRune, hsteps, hdecode]
  exact if_neg (by simp)

theorem readRune_four {a b c d : UInt8} (h1 : 0xf0 ≤ a.toNat) (h2 : a.toNat < 0xf8) (rest : List UInt8) :
    readRune (a :: b :: c :: d :: rest) =
      some ((((a.toNat - 0xf0) * 64 + b.toNat % 64) * 64 + c.toNat % 64) * 64 + d.toNat % 64, rest) := by
  have hsteps : steps a = 4 := by
    simp only [steps, UInt8.lt_iff_toNat_lt, UInt8.reduceToNat]
    rw [if_neg (by omega), if_neg (by omega), if_neg (by omega), if_neg (by omega), if_pos h2]
  have hdecode : decode (a :: b :: c :: d :: rest) 4 =
      (((a.toNat - 0xf0) * 64 + b.toNat % 64) * 64 + c.toNat % 64) * 64 + d.toNat % 64 := by
    show (((a.toNat &&& (2 ^ 4 - 1)) <<< 6 ||| b.toNat &&& 0x3f) <<< 6 ||| c.toNat &&& 0x3f) <<< 6 |||
      d.toNat &&& 0x3f = _
    rw [shift_or, shift_or, shift_or, and_low]
    omega
  rw [readRune, hsteps, hdecode]
  exact if_neg (by simp)

/-! ### The runes that are read -/

/-- What a rune can be read from. -/
inductive Reads : List UInt8 → Nat → List UInt8 → Prop
  | one {a : UInt8} {rest : List UInt8} : a.toNat < 0x80 → Reads (a :: rest) a.toNat rest
  | two {a b : UInt8} {rest : List UInt8} : 0xc0 ≤ a.toNat → a.toNat < 0xe0 →
      Reads (a :: b :: rest) ((a.toNat - 0xc0) * 64 + b.toNat % 64) rest
  | three {a b c : UInt8} {rest : List UInt8} : 0xe0 ≤ a.toNat → a.toNat < 0xf0 →
      Reads (a :: b :: c :: rest) (((a.toNat - 0xe0) * 64 + b.toNat % 64) * 64 + c.toNat % 64) rest
  | four {a b c d : UInt8} {rest : List UInt8} : 0xf0 ≤ a.toNat → a.toNat < 0xf8 →
      Reads (a :: b :: c :: d :: rest)
        ((((a.toNat - 0xf0) * 64 + b.toNat % 64) * 64 + c.toNat % 64) * 64 + d.toNat % 64) rest

theorem readRune_eq_some_iff {str rest : List UInt8} {rune : Nat} :
    readRune str = some (rune, rest) ↔ Reads str rune rest := by
  constructor
  · intro h
    cases str with
    | nil => cases h
    | cons a tail =>
      have hlen : ¬ (steps a = 0 ∨ (a :: tail).length < steps a) := by
        intro hbad
        rw [readRune, if_pos hbad] at h
        cases h
      have hwhich := hlen
      simp only [steps, UInt8.lt_iff_toNat_lt, UInt8.reduceToNat] at hwhich
      by_cases h1 : a.toNat < 0x80
      · rw [readRune_one h1] at h
        obtain ⟨rfl, rfl⟩ := Prod.mk.inj (Option.some.inj h)
        exact .one h1
      by_cases h2 : a.toNat < 0xc0
      · rw [if_neg h1, if_pos h2] at hwhich
        exact absurd (.inl rfl) hwhich
      by_cases h3 : a.toNat < 0xe0
      · rw [if_neg h1, if_neg h2, if_pos h3] at hwhich
        match tail, hwhich, h with
        | [], hwhich, _ => exact absurd (.inr (by simp)) hwhich
        | b :: tail, _, h =>
          rw [readRune_two (by omega) h3] at h
          obtain ⟨rfl, rfl⟩ := Prod.mk.inj (Option.some.inj h)
          exact .two (by omega) h3
      by_cases h4 : a.toNat < 0xf0
      · rw [if_neg h1, if_neg h2, if_neg h3, if_pos h4] at hwhich
        match tail, hwhich, h with
        | [], hwhich, _ => exact absurd (.inr (by simp)) hwhich
        | [b], hwhich, _ => exact absurd (.inr (by simp)) hwhich
        | b :: c :: tail, _, h =>
          rw [readRune_three (by omega) h4] at h
          obtain ⟨rfl, rfl⟩ := Prod.mk.inj (Option.some.inj h)
          exact .three (by omega) h4
      by_cases h5 : a.toNat < 0xf8
      · rw [if_neg h1, if_neg h2, if_neg h3, if_neg h4, if_pos h5] at hwhich
        match tail, hwhich, h with
        | [], hwhich, _ => exact absurd (.inr (by simp)) hwhich
        | [b], hwhich, _ => exact absurd (.inr (by simp)) hwhich
        | [b, c], hwhich, _ => exact absurd (.inr (by simp)) hwhich
        | b :: c :: d :: tail, _, h =>
          rw [readRune_four (by omega) h5] at h
          obtain ⟨rfl, rfl⟩ := Prod.mk.inj (Option.some.inj h)
          exact .four (by omega) h5
      rw [if_neg h1, if_neg h2, if_neg h3, if_neg h4, if_neg h5] at hwhich
      exact absurd (.inl rfl) hwhich
  · intro h
    induction h with
    | one h1 => exact readRune_one h1 _
    | two h1 h2 => exact readRune_two h1 h2 _
    | three h1 h2 => exact readRune_three h1 h2 _
    | four h1 h2 => exact readRune_four h1 h2 _

theorem Reads.rest_lt {str rest : List UInt8} {rune : Nat} (h : Reads str rune rest) :
    rest.length < str.length := by
  induction h <;> simp only [List.length_cons] <;> omega

theorem Reads.rune_lt {str rest : List UInt8} {rune : Nat} (h : Reads str rune rest) :
    rune < 0x200000 := by
  induction h <;> omega

/-! ## What is written -/

/-- The length that `_encode` is called with, and 4 for runes that `_toutf8` refuses. -/
def width (rune : Nat) : Nat := if bytes rune = 0 then 4 else bytes rune

theorem bytes_ne_zero_iff {rune : Nat} : bytes rune ≠ 0 ↔ rune < 0x110000 := by
  unfold bytes
  split_ifs <;> omega

theorem width_of_lt {rune : Nat} (h : rune < 0x110000) : width rune = bytes rune :=
  if_neg (bytes_ne_zero_iff.mpr h)

/-- The bytes of a rune. -/
inductive Written (rune : Nat) : List UInt8 → Prop
  | one {a : UInt8} : rune < 0x80 → a.toNat = rune → Written rune [a]
  | two {a b : UInt8} : 0x80 ≤ rune → rune < 0x800 → a.toNat = 0xc0 + rune / 64 →
      b.toNat = 0x80 + rune % 64 → Written rune [a, b]
  | three {a b c : UInt8} : 0x800 ≤ rune → rune < 0x10000 → a.toNat = 0xe0 + rune / 4096 →
      b.toNat = 0x80 + rune / 64 % 64 → c.toNat = 0x80 + rune % 64 → Written rune [a, b, c]
  | four {a b c d : UInt8} : 0x10000 ≤ rune → rune < 0x200000 → a.toNat = 0xf0 + rune / 262144 →
      b.toNat = 0x80 + rune / 4096 % 64 → c.toNat = 0x80 + rune / 64 % 64 → d.toNat = 0x80 + rune % 64 →
      Written rune [a, b, c, d]

/-- `_encode` writes the bytes of a rune. -/
theorem written_encode {rune : Nat} (h : rune < 0x200000) : Written rune (encode rune (width rune)) := by
  have h12 : rune >>> 6 >>> 6 = rune / 4096 := by
    rw [← Nat.shiftRight_add, Nat.shiftRight_eq_div_pow]
  have h18 : rune >>> 6 >>> 6 >>> 6 = rune / 262144 := by
    rw [← Nat.shiftRight_add, ← Nat.shiftRight_add, Nat.shiftRight_eq_div_pow]
  have h6 : rune >>> 6 = rune / 64 := Nat.shiftRight_eq_div_pow rune 6
  by_cases h1 : rune < 0x80
  · have hw : width rune = 1 := by
      unfold width bytes
      rw [if_pos h1]
      rfl
    rw [hw]
    refine .one h1 ?_
    show (UInt8.ofNat (rune &&& (2 ^ 7 - 1))).toNat = rune
    rw [and_low, UInt8.toNat_ofNat']
    omega
  by_cases h2 : rune < 0x800
  · have hw : width rune = 2 := by
      unfold width bytes
      rw [if_neg h1, if_pos h2]
      rfl
    rw [hw]
    refine .two (by omega) h2 ?_ (toNat_lowBits rune)
    rw [h6]
    exact toNat_lead (k := 6) (a := 3) (by omega) (by omega)
  by_cases h3 : rune < 0x10000
  · have hw : width rune = 3 := by
      unfold width bytes
      rw [if_neg h1, if_neg h2, if_pos h3]
      rfl
    rw [hw]
    refine .three (by omega) h3 ?_ ?_ (toNat_lowBits rune)
    · rw [h12]
      exact toNat_lead (k := 5) (a := 7) (by omega) (by omega)
    · rw [toNat_lowBits, h6]
  · have hw : width rune = 4 := by
      unfold width bytes
      rw [if_neg h1, if_neg h2, if_neg h3]
      split_ifs <;> first | rfl | contradiction
    rw [hw]
    refine .four (by omega) h ?_ ?_ ?_ (toNat_lowBits rune)
    · rw [h18]
      exact toNat_lead (k := 4) (a := 15) (by omega) (by omega)
    · rw [toNat_lowBits, h12]
    · rw [toNat_lowBits, h6]

/-- The bytes of a rune are determined. -/
theorem Written.unique {rune : Nat} {s s' : List UInt8} (h : Written rune s) (h' : Written rune s') :
    s = s' := by
  have heq {a b : UInt8} (hab : a.toNat = b.toNat) : a = b := UInt8.toNat_inj.mp hab
  cases h with
  | one h1 ha =>
    cases h' with
    | one _ ha' => rw [heq (ha.trans ha'.symm)]
    | two | three | four => omega
  | two h1 h2 ha hb =>
    cases h' with
    | two _ _ ha' hb' => rw [heq (ha.trans ha'.symm), heq (hb.trans hb'.symm)]
    | one | three | four => omega
  | three h1 h2 ha hb hc =>
    cases h' with
    | three _ _ ha' hb' hc' =>
      rw [heq (ha.trans ha'.symm), heq (hb.trans hb'.symm), heq (hc.trans hc'.symm)]
    | one | two | four => omega
  | four h1 h2 ha hb hc hd =>
    cases h' with
    | four _ _ ha' hb' hc' hd' =>
      rw [heq (ha.trans ha'.symm), heq (hb.trans hb'.symm), heq (hc.trans hc'.symm),
        heq (hd.trans hd'.symm)]
    | one | two | three => omega

/-- A rune is read back from its bytes. -/
theorem Written.reads {rune : Nat} {s : List UInt8} (h : Written rune s) (rest : List UInt8) :
    Reads (s ++ rest) rune rest := by
  cases h with
  | @one a h1 ha =>
    have hread := @Reads.one a rest (by omega)
    rwa [ha] at hread
  | @two a b h1 h2 ha hb =>
    have hread := @Reads.two a b rest (by omega) (by omega)
    have hval : (a.toNat - 0xc0) * 64 + b.toNat % 64 = rune := by omega
    rwa [hval] at hread
  | @three a b c h1 h2 ha hb hc =>
    have hread := @Reads.three a b c rest (by omega) (by omega)
    have hval : ((a.toNat - 0xe0) * 64 + b.toNat % 64) * 64 + c.toNat % 64 = rune := by omega
    rwa [hval] at hread
  | @four a b c d h1 h2 ha hb hc hd =>
    have hread := @Reads.four a b c d rest (by omega) (by omega)
    have hval :
        (((a.toNat - 0xf0) * 64 + b.toNat % 64) * 64 + c.toNat % 64) * 64 + d.toNat % 64 = rune := by
      omega
    rwa [hval] at hread

/-- Runes are written with `_encode` and read with the loop of `_toutf32`. -/
def utf8 : Framing (Fin 0x200000) UInt8 where
  write rune := encode rune (width rune)
  read str := (readRune str).map fun r => (Fin.ofNat 0x200000 r.1, r.2)
  read_write rune rest := by
    rw [readRune_eq_some_iff.mpr ((written_encode rune.isLt).reads rest)]
    exact congrArg (fun r => some (r, rest)) (Fin.ext (Nat.mod_eq_of_lt rune.isLt))
  read_lt h := by
    obtain ⟨r, hread, heq⟩ := Option.map_eq_some_iff.mp h
    obtain ⟨-, rfl⟩ := Prod.mk.inj heq
    exact (readRune_eq_some_iff.mp hread).rest_lt

/-! ## Whole strings -/

/-- The loop of `_toutf32` reads rune after rune. -/
theorem toutf32Loop_eq (fuel : Nat) (str : List UInt8) : toutf32Loop fuel str =
    ((utf8.readUpTo fuel str).1.map Fin.val, (utf8.readUpTo fuel str).2.isEmpty) := by
  induction fuel generalizing str with
  | zero => rfl
  | succ fuel ih =>
    cases str with
    | nil =>
      rw [utf8.readUpTo_of_none utf8.read_nil]
      rfl
    | cons a tail =>
      cases hread : readRune (a :: tail) with
      | none =>
        have hnone : utf8.read (a :: tail) = none := congrArg (Option.map _) hread
        rw [utf8.readUpTo_of_none hnone, toutf32Loop, hread]
        rfl
      | some r =>
        have hlt := (readRune_eq_some_iff.mp hread).rune_lt
        have hsome : utf8.read (a :: tail) = some (⟨r.1, hlt⟩, r.2) := by
          refine (congrArg (Option.map _) hread).trans ?_
          exact congrArg (fun x => some (x, r.2)) (Fin.ext (Nat.mod_eq_of_lt hlt))
        rw [utf8.readUpTo_of_some hsome, toutf32Loop, hread]
        show (_ :: _, _) = _
        rw [ih]
        rfl

theorem toutf32_eq (str : List UInt8) :
    toutf32 str = ((utf8.readAll str).1.map Fin.val, (utf8.readAll str).2.isEmpty) :=
  toutf32Loop_eq _ str

/-- `_len` takes the strings that `_toutf32` takes, and counts their runes. -/
theorem len_eq (str : List UInt8) :
    len str = if (toutf32 str).2 then some (toutf32 str).1.length else none := by
  have hloop : ∀ (fuel count : Nat) (str : List UInt8), str.length ≤ fuel → lenLoop fuel count str =
      if (toutf32Loop fuel str).2 then some (count + (toutf32Loop fuel str).1.length) else none := by
    intro fuel
    induction fuel with
    | zero =>
      intro count str h
      obtain rfl := List.length_eq_zero_iff.mp (Nat.le_zero.mp h)
      rfl
    | succ fuel ih =>
      intro count str h
      cases str with
      | nil => rfl
      | cons a tail =>
        by_cases hbad : steps a = 0 ∨ (a :: tail).length < steps a
        · have hread : readRune (a :: tail) = none := if_pos hbad
          rw [lenLoop, if_pos hbad, toutf32Loop, hread]
          rfl
        · have hread : readRune (a :: tail) =
              some (decode (a :: tail) (steps a), (a :: tail).drop (steps a)) := if_neg hbad
          have hlt := (readRune_eq_some_iff.mp hread).rest_lt
          rw [lenLoop, if_neg hbad, ih _ _ (by omega), toutf32Loop, hread]
          show _ = if (toutf32Loop fuel ((a :: tail).drop (steps a))).2 then _ else _
          rw [List.length_cons, Nat.add_assoc, Nat.add_comm 1]
  have h := hloop str.length 0 str (Nat.le_refl _)
  rw [Nat.zero_add] at h
  exact h

/-- A table of runes. -/
def ofRunes (runes : List Nat) : List (Option Int) := runes.map fun rune : Nat => some (rune : Int)

theorem toNat_runeOf {n : Nat} (h : n < 2 ^ 32) : (runeOf n).toNat = n := by
  show (UInt32.ofNat ((n : Int) % 2 ^ 32).toNat).toNat = n
  rw [UInt32.toNat_ofNat']
  omega

/-- What the first loop of `_toutf8` makes of a rune. -/
theorem checkRune_rune (r : Fin 0x200000) :
    checkRune (some (r.val : Int)) = if r.val < 0x110000 then some r.val else none := by
  have hr := r.isLt
  show (if bytes (runeOf r.val).toNat = 0 then none else some (runeOf r.val).toNat) = _
  rw [toNat_runeOf (by omega)]
  by_cases hlt : r.val < 0x110000
  · rw [if_neg (bytes_ne_zero_iff.mpr hlt), if_pos hlt]
  · rw [if_pos (not_not.mp fun h => hlt (bytes_ne_zero_iff.mp h)), if_neg hlt]

/-- `_toutf8` writes runes below 0x110000. -/
theorem toutf8_of_lt {rs : List (Fin 0x200000)} (h : ∀ r ∈ rs, r.val < 0x110000) :
    toutf8 (ofRunes (rs.map Fin.val)) = some (utf8.writeAll rs) := by
  have hmap : (rs.map fun r => some (r.val : Int)).mapM checkRune = some (rs.map Fin.val) := by
    induction rs with
    | nil => rfl
    | cons r rs ih =>
      have hr := h r List.mem_cons_self
      rw [List.map_cons, List.mapM_cons, ih fun r hr => h r (List.mem_cons_of_mem _ hr), checkRune_rune,
        if_pos hr]
      rfl
  unfold toutf8 ofRunes
  rw [List.map_map]
  refine (congrArg (Option.map _) hmap).trans ?_
  refine congrArg some ((List.flatMap_map Fin.val _ rs).trans (List.flatMap_congr fun r hr => ?_))
  show encode r.val (bytes r.val) = encode r.val (width r.val)
  rw [width_of_lt (h r hr)]

/-- It refuses a table with another one. -/
theorem toutf8_of_ge {rs : List (Fin 0x200000)} {r : Fin 0x200000} (hr : r ∈ rs)
    (h : ¬ r.val < 0x110000) : toutf8 (ofRunes (rs.map Fin.val)) = none := by
  have hmap : (rs.map fun r => some (r.val : Int)).mapM checkRune = none := by
    induction rs with
    | nil => cases hr
    | cons r' rs ih =>
      rw [List.map_cons, List.mapM_cons, checkRune_rune]
      by_cases hr' : r'.val < 0x110000
      · have hmem : r ∈ rs := (List.mem_cons.mp hr).resolve_left fun he => h (he ▸ hr')
        rw [if_pos hr', ih hmem]
        rfl
      · rw [if_neg hr']
        rfl
  unfold toutf8 ofRunes
  rw [List.map_map]
  exact congrArg (Option.map _) hmap

/-! ### Characters -/

/-- A byte behind the first one of a rune. -/
def IsTail (b : UInt8) : Prop := 0x80 ≤ b.toNat ∧ b.toNat < 0xc0

/-- The shortest form of a rune below 0x110000, byte by byte. Surrogates are runes like others. -/
inductive Utf8Char : List UInt8 → Prop
  | one {a : UInt8} : a.toNat < 0x80 → Utf8Char [a]
  | two {a b : UInt8} : 0xc2 ≤ a.toNat → a.toNat < 0xe0 → IsTail b → Utf8Char [a, b]
  | three {a b c : UInt8} : 0xe0 ≤ a.toNat → a.toNat < 0xf0 → (a.toNat = 0xe0 → 0xa0 ≤ b.toNat) →
      IsTail b → IsTail c → Utf8Char [a, b, c]
  | four {a b c d : UInt8} : 0xf0 ≤ a.toNat → a.toNat < 0xf5 → (a.toNat = 0xf0 → 0x90 ≤ b.toNat) →
      (a.toNat = 0xf4 → b.toNat < 0x90) → IsTail b → IsTail c → IsTail d → Utf8Char [a, b, c, d]

theorem utf8Char_iff {s : List UInt8} : Utf8Char s ↔ ∃ rune, rune < 0x110000 ∧ Written rune s := by
  constructor
  · intro h
    cases h with
    | one ha => exact ⟨_, by omega, .one ha rfl⟩
    | @two a b h1 h2 hb =>
      obtain ⟨hb1, hb2⟩ := hb
      exact ⟨(a.toNat - 0xc0) * 64 + b.toNat % 64, by omega,
        .two (by omega) (by omega) (by omega) (by omega)⟩
    | @three a b c h1 h2 h3 hb hc =>
      obtain ⟨hb1, hb2⟩ := hb
      obtain ⟨hc1, hc2⟩ := hc
      exact ⟨((a.toNat - 0xe0) * 64 + b.toNat % 64) * 64 + c.toNat % 64, by omega,
        .three (by omega) (by omega) (by omega) (by omega) (by omega)⟩
    | @four a b c d h1 h2 h3 h4 hb hc hd =>
      obtain ⟨hb1, hb2⟩ := hb
      obtain ⟨hc1, hc2⟩ := hc
      obtain ⟨hd1, hd2⟩ := hd
      exact ⟨(((a.toNat - 0xf0) * 64 + b.toNat % 64) * 64 + c.toNat % 64) * 64 + d.toNat % 64, by omega,
        .four (by omega) (by omega) (by omega) (by omega) (by omega) (by omega)⟩
  · rintro ⟨rune, hlt, h⟩
    cases h with
    | one h1 ha => exact .one (by omega)
    | two h1 h2 ha hb => exact .two (by omega) (by omega) ⟨by omega, by omega⟩
    | three h1 h2 ha hb hc =>
      exact .three (by omega) (by omega) (by omega) ⟨by omega, by omega⟩ ⟨by omega, by omega⟩
    | four h1 h2 ha hb hc hd =>
      exact .four (by omega) (by omega) (by omega) (by omega) ⟨by omega, by omega⟩ ⟨by omega, by omega⟩
        ⟨by omega, by omega⟩

/-- Only the first byte of a rune is none that stands behind the first one. -/
theorem utf8_synchronizes : utf8.Synchronizes fun b => ¬ IsTail b := by
  intro r
  have hw := written_encode r.isLt
  show ∃ b bs, encode r (width r) = b :: bs ∧ _
  generalize encode r (width r) = s at hw
  unfold IsTail
  cases hw with
  | one h1 ha => exact ⟨_, _, rfl, by omega, by simp⟩
  | two h1 h2 ha hb =>
    refine ⟨_, _, rfl, by omega, ?_⟩
    simp only [List.mem_cons, List.not_mem_nil, or_false, not_not]
    rintro b' rfl
    omega
  | three h1 h2 ha hb hc =>
    refine ⟨_, _, rfl, by omega, ?_⟩
    simp only [List.mem_cons, List.not_mem_nil, or_false, not_not]
    rintro b' (rfl | rfl) <;> omega
  | four h1 h2 ha hb hc hd =>
    refine ⟨_, _, rfl, by omega, ?_⟩
    simp only [List.mem_cons, List.not_mem_nil, or_false, not_not]
    rintro b' (rfl | rfl | rfl) <;> omega

/-! ### Strings in shortest forms -/

/-- A string of shortest forms. -/
def IsUtf8 (str : List UInt8) : Prop :=
  ∃ chars : List (List UInt8), (∀ c ∈ chars, Utf8Char c) ∧ str = chars.flatten

/-- Such strings are what `_toutf8` writes. -/
theorem isUtf8_iff {str : List UInt8} : IsUtf8 str ↔
    ∃ rs : List (Fin 0x200000), (∀ r ∈ rs, r.val < 0x110000) ∧ str = utf8.writeAll rs := by
  constructor
  · rintro ⟨chars, hchars, rfl⟩
    induction chars with
    | nil => exact ⟨[], (List.forall_mem_nil _), rfl⟩
    | cons c chars ih =>
      obtain ⟨hc, hrest⟩ := List.forall_mem_cons.mp hchars
      obtain ⟨rs, hrs, heq⟩ := ih hrest
      obtain ⟨rune, hlt, hw⟩ := utf8Char_iff.mp hc
      refine ⟨⟨rune, by omega⟩ :: rs, List.forall_mem_cons.mpr ⟨hlt, hrs⟩, ?_⟩
      rw [List.flatten_cons, heq, utf8.writeAll_cons]
      refine congrArg (· ++ _) (hw.unique (written_encode ?_))
      omega
  · rintro ⟨rs, hrs, rfl⟩
    induction rs with
    | nil => exact ⟨[], (List.forall_mem_nil _), rfl⟩
    | cons r rs ih =>
      obtain ⟨hr, hrest⟩ := List.forall_mem_cons.mp hrs
      obtain ⟨chars, hchars, heq⟩ := ih hrest
      refine ⟨encode r (width r) :: chars, List.forall_mem_cons.mpr ⟨?_, hchars⟩, ?_⟩
      · exact utf8Char_iff.mpr ⟨r, hr, written_encode r.isLt⟩
      · rw [List.flatten_cons, ← heq, utf8.writeAll_cons]
        rfl

/-- Runes that were written are read back. -/
theorem toutf32_writeAll (rs : List (Fin 0x200000)) :
    toutf32 (utf8.writeAll rs) = (rs.map Fin.val, true) := by
  rw [toutf32_eq, utf8.readAll_writeAll]
  rfl

/-- A string that `_toutf32` reads is what `_toutf8` writes exactly when it is made of shortest forms. -/
theorem toutf8_toutf32_iff (str : List UInt8) :
    ((toutf32 str).2 = true ∧ toutf8 (ofRunes (toutf32 str).1) = some str) ↔ IsUtf8 str := by
  rw [isUtf8_iff]
  constructor
  · rintro ⟨-, h⟩
    rw [toutf32_eq] at h
    by_cases hall : ∀ r ∈ (utf8.readAll str).1, r.val < 0x110000
    · exact ⟨_, hall, Option.some.inj (h.symm.trans (toutf8_of_lt hall))⟩
    · obtain ⟨r, hr⟩ := not_forall.mp hall
      obtain ⟨hmem, hge⟩ := Classical.not_imp.mp hr
      cases h.symm.trans (toutf8_of_ge hmem hge)
  · rintro ⟨rs, hrs, rfl⟩
    rw [toutf32_writeAll]
    exact ⟨rfl, toutf8_of_lt hrs⟩

/-- Runes below 0x200000 that are numbers. -/
theorem exists_runes {runes : List Nat} (h : ∀ r ∈ runes, r < 0x200000) :
    ∃ rs : List (Fin 0x200000), runes = rs.map Fin.val := by
  refine ⟨runes.map (Fin.ofNat 0x200000), ?_⟩
  rw [List.map_map]
  exact (List.map_id runes).symm.trans
    (List.map_congr_left fun r hr => (Nat.mod_eq_of_lt (h r hr)).symm)

/-- Runes that `_toutf8` takes are read back by `_toutf32`. -/
theorem toutf32_toutf8 {runes : List Nat} (h : ∀ r ∈ runes, r < 0x110000) :
    ∃ str, toutf8 (ofRunes runes) = some str ∧ toutf32 str = (runes, true) := by
  obtain ⟨rs, rfl⟩ := exists_runes fun r hr => Nat.lt_trans (h r hr) (by decide)
  exact ⟨_, toutf8_of_lt fun r hr => h r.val (List.mem_map_of_mem hr), toutf32_writeAll rs⟩

end AntServer.Crab
