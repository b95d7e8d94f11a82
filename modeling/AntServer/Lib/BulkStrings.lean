/-
# AntServer.Lib.BulkStrings — strings with their length in front, and arrays of them

A bulk string is written as its length and its characters, each behind a line end, and an array of them as
their number and the strings one after the other. The characters may be any, line ends among them: a string
is read by its length, so that bulk strings are a framing (`bulk`), and an array is read back as what was
written whatever stands behind it (`readArray_array`).

Nothing here names the modelled system.
-/
import AntServer.Lib.Framing
import Mathlib.Data.List.Infix

namespace AntServer.Lib.BulkStrings

/-! ## Lines -/

/-- The end of a line. -/
def crlf : List Char := ['\r', '\n']

/-- What is in front of the first line end, and what is behind it. -/
def line : List Char → Option (List Char × List Char)
  | [] => none
  | c :: t => if crlf <+: c :: t then some ([], (c :: t).drop 2)
      else (line t).map fun r => (c :: r.1, r.2)

/-- A line without a carriage return is read up to its end. -/
theorem line_append {l : List Char} (h : '\r' ∉ l) (rest : List Char) :
    line (l ++ crlf ++ rest) = some (l, rest) := by
  induction l with
  | nil => exact if_pos (List.prefix_append crlf rest)
  | cons c l ih =>
    have hc : ¬ crlf <+: c :: (l ++ crlf ++ rest) := fun hp =>
      h ((List.cons_prefix_cons.mp hp).1 ▸ List.mem_cons_self)
    have hl := ih fun hm => h (List.mem_cons_of_mem c hm)
    show line (c :: (l ++ crlf ++ rest)) = _
    rw [line, if_neg hc, hl]
    rfl

theorem line_length {t l rest : List Char} (h : line t = some (l, rest)) :
    l.length + 2 + rest.length = t.length := by
  induction t generalizing l with
  | nil => cases h
  | cons c t ih =>
    rw [line] at h
    split at h
    · rename_i hp
      obtain ⟨rfl, rfl⟩ := Prod.mk.inj (Option.some.inj h)
      have hle := hp.length_le
      rw [List.length_drop]
      simp only [crlf, List.length_cons, List.length_nil] at hle ⊢
      omega
    · obtain ⟨r, hr, heq⟩ := Option.map_eq_some_iff.mp h
      obtain ⟨rfl, rfl⟩ := Prod.mk.inj heq
      have hlen := ih hr
      simp only [List.length_cons] at hlen ⊢
      omega

/-! ## Numerals -/

/-- The numeral of a number. -/
def numeral (n : Nat) : List Char := Nat.toDigits 10 n

/-- The number of a numeral. -/
def number (s : List Char) : Nat := Nat.ofDigitChars 10 s 0

@[simp] theorem number_numeral (n : Nat) : number (numeral n) = n := Nat.ofDigitChars_ten_toDigits

/-- A numeral is on one line. -/
theorem cr_not_mem_numeral (n : Nat) : '\r' ∉ numeral n := fun h =>
  absurd (Nat.isDigit_of_mem_toDigits (by decide) (by decide) h : '\r'.isDigit = true) (by decide)

theorem line_numeral (c : Char) (hc : c ≠ '\r') (n : Nat) (rest : List Char) :
    line (c :: numeral n ++ crlf ++ rest) = some (c :: numeral n, rest) := by
  refine line_append (fun h => ?_) rest
  rcases List.mem_cons.mp h with h | h
  · exact hc h.symm
  · exact cr_not_mem_numeral n h

/-! ## Bulk strings -/

/-- A bulk string is written. -/
def writeBulk (s : List Char) : List Char := '$' :: numeral s.length ++ crlf ++ (s ++ crlf)

/-- A bulk string is read: the line of its length, its characters, and the line end behind them. -/
def readBulk (t : List Char) : Option (List Char × List Char) :=
  (line t).bind fun r =>
    if r.1.head? = some '$' ∧ (r.2.drop (number r.1.tail)).take 2 = crlf then
      some (r.2.take (number r.1.tail), r.2.drop (number r.1.tail + 2))
    else none

theorem readBulk_writeBulk (s rest : List Char) : readBulk (writeBulk s ++ rest) = some (s, rest) := by
  have htext : writeBulk s ++ rest = '$' :: numeral s.length ++ crlf ++ (s ++ (crlf ++ rest)) := by
    unfold writeBulk
    simp only [List.append_assoc]
  have hdrop : (s ++ (crlf ++ rest)).drop s.length = crlf ++ rest := List.drop_left
  unfold readBulk
  rw [htext, line_numeral '$' (by decide)]
  show (if some '$' = some '$' ∧ ((s ++ (crlf ++ rest)).drop (number (numeral s.length))).take 2 = crlf then
    some ((s ++ (crlf ++ rest)).take (number (numeral s.length)),
      (s ++ (crlf ++ rest)).drop (number (numeral s.length) + 2)) else none) = _
  rw [number_numeral, hdrop, if_pos ⟨rfl, rfl⟩, List.take_left, ← List.drop_drop, hdrop]
  rfl

theorem readBulk_lt {t s rest : List Char} (h : readBulk t = some (s, rest)) : rest.length < t.length := by
  obtain ⟨r, hline, hr⟩ := Option.bind_eq_some_iff.mp h
  have hlen := line_length hline
  split at hr
  · obtain ⟨-, rfl⟩ := Prod.mk.inj (Option.some.inj hr)
    rw [List.length_drop]
    omega
  · cases hr

/-- Bulk strings one after the other. -/
def bulk : Framing (List Char) Char where
  write := writeBulk
  read := readBulk
  read_write := readBulk_writeBulk
  read_lt := readBulk_lt

/-! ## Arrays -/

/-- An array of bulk strings. -/
def array (items : List (List Char)) : List Char :=
  '*' :: numeral items.length ++ crlf ++ bulk.writeAll items

/-- `n` bulk strings are read. -/
def readItems : Nat → List Char → Option (List (List Char) × List Char)
  | 0, t => some ([], t)
  | n + 1, t => (readBulk t).bind fun r => (readItems n r.2).map fun q => (r.1 :: q.1, q.2)

/-- An array is read. -/
def readArray (t : List Char) : Option (List (List Char) × List Char) :=
  (line t).bind fun r => if r.1.head? = some '*' then readItems (number r.1.tail) r.2 else none

/-- An array is read back as what was written. -/
theorem readArray_array (items : List (List Char)) (rest : List Char) :
    readArray (array items ++ rest) = some (items, rest) := by
  have hitems : readItems items.length (bulk.writeAll items ++ rest) = some (items, rest) := by
    induction items with
    | nil => rfl
    | cons s items ih =>
      rw [Framing.writeAll_cons, List.append_assoc, List.length_cons, readItems]
      show (readBulk (writeBulk s ++ _)).bind _ = _
      rw [readBulk_writeBulk]
      show (readItems items.length _).map _ = _
      rw [ih]
      rfl
  unfold readArray array
  rw [List.append_assoc, line_numeral '*' (by decide)]
  show (if some '*' = some '*' then readItems (number (numeral items.length)) _ else none) = _
  rw [if_pos rfl, number_numeral]
  exact hitems

end AntServer.Lib.BulkStrings
