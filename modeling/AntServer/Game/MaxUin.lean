/-
# AntServer.Game.MaxUin — the redis hash `max_uin`, and the ids that are counted in it

`hub/index.lua` writes the first uin of a server into the hash when its `hubd` starts, unless the hash has
one; `Profiled:born` of `mods/profile/profiled.lua` adds a random step to it and takes the result. The first
uin is put together as a text: the platform, four digits of the server and ten zeros.

Redis and its driver are a parameter (`Redis`): a command is one step on the store, and what a field holds
is a text. A session's `serverId` is the text by which the login server found the node, so the field that
`born` counts in is the one `init` wrote.
-/
import AntServer.LuaNumber
import AntServer.Lib.Decimal
import AntServer.Lib.Table

namespace AntServer.Game

open LuaNumber (integerText tonumber)
open Lib

/-! ## Redis -/

/-- The redis commands that are used on hashes, as documented: `HSETNX` sets a field that is not there,
`HINCRBY` adds to a field that holds the numeral of an integer, or to 0. `arg` is the text the driver sends
for a number. -/
structure Redis where
  Store : Type
  arg : LuaNumber → List Char
  hget : Store → String → List Char → Option (List Char)
  hsetnx : Store → String → List Char → List Char → Store
  hincrby : Store → String → List Char → Int → Option (Store × Int)
  arg_int (n : Int) : arg (.int n) = integerText n
  hget_hsetnx (s : Store) (key key' : String) (field field' value : List Char) :
    hget (hsetnx s key field value) key' field' =
      if key' = key ∧ field' = field then some ((hget s key field).getD value) else hget s key' field'
  hincrby_integer (s : Store) (key : String) (field : List Char) (increment n : Int) :
    (hget s key field).getD (integerText 0) = integerText n → -2 ^ 63 ≤ n → n < 2 ^ 63 →
    -2 ^ 63 ≤ n + increment → n + increment < 2 ^ 63 →
    ∃ s', hincrby s key field increment = some (s', n + increment) ∧
      ∀ key' field', hget s' key' field' =
        if key' = key ∧ field' = field then some (integerText (n + increment))
        else hget s key' field'

/-- The integer that a sign and digits stand for. -/
def numeral : List Char → Int
  | '-' :: digits => -(Nat.ofDigitChars 10 digits 0 : Nat)
  | digits => (Nat.ofDigitChars 10 digits 0 : Nat)

theorem numeral_integerText (n : Int) : numeral (integerText n) = n := by
  cases n with
  | negSucc n =>
    change -((Nat.ofDigitChars 10 (Nat.toDigits 10 (n + 1)) 0 : Nat) : Int) = .negSucc n
    rw [Nat.ofDigitChars_ten_toDigits]
    rfl
  | ofNat n =>
    change numeral (Nat.toDigits 10 n) = n
    unfold numeral
    split
    · rename_i digits hdigits
      have hminus : '-' ∈ Nat.toDigits 10 n := hdigits ▸ List.mem_cons_self
      exact absurd (Nat.isDigit_of_mem_toDigits (by decide) (by decide) hminus) (by decide)
    · rw [Nat.ofDigitChars_ten_toDigits]

/-- The integer of 64 bits that a text is the numeral of. -/
def readInteger (s : List Char) : Option Int :=
  if integerText (numeral s) = s ∧ -2 ^ 63 ≤ numeral s ∧ numeral s < 2 ^ 63 then some (numeral s)
  else none

theorem readInteger_integerText {n : Int} (hlow : -2 ^ 63 ≤ n) (hhigh : n < 2 ^ 63) :
    readInteger (integerText n) = some n := by
  unfold readInteger
  rw [numeral_integerText]
  exact if_pos ⟨rfl, hlow, hhigh⟩

/-- A redis that keeps its hashes in a table. -/
def Redis.table : Redis where
  Store := Table (String × List Char) (List Char)
  arg
    | .int n => integerText n
    | .float x => (toString x).toList
  hget s key field := s.get (key, field)
  hsetnx s key field value := s.set (key, field) ((s.get (key, field)).getD value)
  hincrby s key field increment :=
    (readInteger ((s.get (key, field)).getD (integerText 0))).bind fun n =>
      if -2 ^ 63 ≤ n + increment ∧ n + increment < 2 ^ 63 then
        some (s.set (key, field) (integerText (n + increment)), n + increment)
      else none
  arg_int n := rfl
  hget_hsetnx s key key' field field' value := by
    simp only [Table.get_set, Prod.mk.injEq]
  hincrby_integer s key field increment n hn hlow hhigh hlow' hhigh' := by
    rw [hn, readInteger_integerText hlow hhigh, Option.bind_some, if_pos ⟨hlow', hhigh'⟩]
    exact ⟨_, rfl, fun key' field' => by simp only [Table.get_set, Prod.mk.injEq]⟩

/-! ## The functions -/

/-- `max_uin_key`. -/
def maxUinKey : String := "max_uin"

/-- `tostring` of an id of the settings. -/
def tostring (n : Nat) : List Char := integerText n

/-- `fill_string(str, len, expr)`. -/
def fillString (str : List Char) (len : Nat) (expr : List Char) : List Char :=
  if str.length < len then (fun str => expr ++ str)^[len - str.length] str else str

/-- `string.format("%<width>s", str)`. -/
def formatString (width : Nat) (str : List Char) : List Char :=
  List.replicate (width - str.length) ' ' ++ str

/-- `first_uin` of `init_agent_uin`. -/
def firstUin (platformId serverId : Nat) : List Char :=
  tostring platformId ++ (formatString 4 (fillString (tostring serverId) 4 ['0']) ++
    formatString 10 (fillString ['0'] 10 ['0']))

/-- `init_agent_uin(serverId)`, `none` when the text is no number. -/
def initAgentUin (redis : Redis) (platformId serverId : Nat) (s : redis.Store) : Option redis.Store :=
  (tonumber (firstUin platformId serverId)).map fun first =>
    redis.hsetnx s maxUinKey (tostring serverId) (redis.arg first)

/-- The uin of `Profiled:born`, at the draw `random + 1` of `math.random(1, 10)`; `none` when redis
answers with an error. -/
def born (redis : Redis) (serverId : List Char) (random : Fin 10) (s : redis.Store) :
    Option (redis.Store × List Char) :=
  (redis.hincrby s maxUinKey serverId (random.val + 1)).map fun (s, n) => (s, integerText n)

/-! ## The texts -/

@[simp] theorem tostring_eq (n : Nat) : tostring n = Nat.toDigits 10 n := rfl

theorem iterate_fill (k : Nat) (str : List Char) :
    (fun str => ['0'] ++ str)^[k] str = List.replicate k '0' ++ str := by
  induction k generalizing str with
  | zero => rfl
  | succ k ih =>
    rw [Function.iterate_succ_apply, ih]
    simp [List.replicate_succ']

/-- Filled with zeros, a numeral is a field of its width. -/
theorem fillString_tostring (n w : Nat) : fillString (tostring n) w ['0'] = Decimal.field w n := by
  unfold fillString Decimal.field
  rw [iterate_fill, tostring_eq]
  split
  · rfl
  · rw [Nat.sub_eq_zero_of_le (by omega)]
    rfl

/-- A text as wide as asked for is formatted without spaces. -/
theorem formatString_of_le {width : Nat} {str : List Char} (h : width ≤ str.length) :
    formatString width str = str := by
  unfold formatString
  rw [Nat.sub_eq_zero_of_le h]
  rfl

/-- The first uin of a server as a number. -/
def firstNumber (platformId serverId : Nat) : Nat := (platformId * 10 ^ 4 + serverId) * 10 ^ 10

/-- A uin is platform, server and counter in fields of their width. -/
theorem toDigits_uin {platformId serverId counter : Nat} (hplatform : 0 < platformId)
    (hserver : serverId < 10 ^ 4) (hcounter : counter < 10 ^ 10) :
    Nat.toDigits 10 (firstNumber platformId serverId + counter) =
      tostring platformId ++ fillString (tostring serverId) 4 ['0'] ++
        fillString (tostring counter) 10 ['0'] := by
  rw [fillString_tostring, fillString_tostring, tostring_eq,
    Decimal.toDigits_append_field hplatform (by decide) hserver,
    Decimal.toDigits_append_field (by omega) (by decide) hcounter]
  rfl

/-- `first_uin` is the numeral of the first number. -/
theorem firstUin_eq {platformId serverId : Nat} (hplatform : 0 < platformId)
    (hserver : serverId < 10 ^ 4) :
    firstUin platformId serverId = Nat.toDigits 10 (firstNumber platformId serverId) := by
  have h := toDigits_uin hplatform hserver (by decide : 0 < 10 ^ 10)
  rw [Nat.add_zero] at h
  rw [h]
  unfold firstUin
  rw [formatString_of_le, formatString_of_le, List.append_assoc]
  · rfl
  · decide
  · rw [fillString_tostring, Decimal.length_field (by decide) hserver]

end AntServer.Game
