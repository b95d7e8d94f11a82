/-
# AntServer.Lua — errors, values and the change hash of the Lua services

The modelled services are Lua chunks. A function that may raise returns `Except LuaError`; what the
caller's `pcall` sees is only that an error was raised, the constructor says which operation failed.

`LuaVal` are the values the documents of the players are made of, and `hashcode` is the function of
`lualib-src/hash/lua-hash.c` the agents use to tell a changed document from an unchanged one: 32-bit
arithmetic, the entries of a table summed in whatever order `lua_next` gives them. Two documents that
differ in that order only are the same (`LuaVal.Same`), and have the same hash.
-/
import AntServer.LuaString

namespace AntServer

/-! ## Errors -/

/-- The run-time errors the modelled code can raise, with the field or the function at fault. -/
inductive LuaError where
  /-- `attempt to index a <kind> value (field '<name>')` -/
  | index (kind name : String)
  /-- `attempt to perform arithmetic on a string value (constant '<text>')` -/
  | arith (text : String)
  /-- `attempt to call a nil value (method '<name>')` -/
  | call (name : String)
  /-- `attempt to get length of a nil value (local '<name>')` -/
  | length (name : String)
  /-- `assertion failed!` -/
  | assertion
  /-- an error raised by a C function with its own text -/
  | raised (text : String)
  deriving DecidableEq, Repr

/-! ## Values -/

mutual

/-- The values a stored document is made of. A float is its 64 bits. -/
inductive LuaVal where
  | bool (b : Bool)
  | int (n : BitVec 64)
  | float (bits : BitVec 64)
  | str (s : LuaString)
  | table (t : LuaTable)
  deriving DecidableEq, Repr

/-- The entries of a table, in the order `lua_next` gives them. -/
inductive LuaTable where
  | empty
  | entry (key value : LuaVal) (rest : LuaTable)
  deriving DecidableEq, Repr

end

mutual

/-- Two values are the same document: equal up to the order of the entries of their tables, which a
table that was stored and loaded need not keep. -/
inductive LuaVal.Same : LuaVal → LuaVal → Prop
  | refl (v : LuaVal) : LuaVal.Same v v
  | table {t t' : LuaTable} (h : LuaTable.Same t t') : LuaVal.Same (.table t) (.table t')

/-- The same for the entries of two tables. -/
inductive LuaTable.Same : LuaTable → LuaTable → Prop
  | empty : LuaTable.Same .empty .empty
  | entry (key : LuaVal) {v v' : LuaVal} {t t' : LuaTable} (hv : LuaVal.Same v v')
      (ht : LuaTable.Same t t') : LuaTable.Same (.entry key v t) (.entry key v' t')
  | swap (k₁ v₁ k₂ v₂ : LuaVal) (t : LuaTable) :
      LuaTable.Same (.entry k₁ v₁ (.entry k₂ v₂ t)) (.entry k₂ v₂ (.entry k₁ v₁ t))
  | trans {t₁ t₂ t₃ : LuaTable} (h : LuaTable.Same t₁ t₂) (h' : LuaTable.Same t₂ t₃) :
      LuaTable.Same t₁ t₃

end
namespace LuaHash

/-! ## The change hash -/

/-- `MAX_DEPTH`. -/
def maxDepth : Nat := 16

/-- `_hash_number`. -/
def hashNumber : BitVec 64 → BitVec 32 := fun n =>
  if n = (n.setWidth 32).signExtend 64 then n.setWidth 32 else (n ^^^ (n >>> 32)).setWidth 32

def hashFloat (bits : BitVec 64) : BitVec 32 := (bits ^^^ (bits >>> 32)).setWidth 32

/-- `_hash_boolean`. -/
def hashBoolean (b : Bool) : BitVec 32 := if b then 1231 else 1237

/-- `_hash_string`: the bytes are signed characters. -/
def hashString (s : LuaString) : BitVec 32 :=
  s.foldl (fun h c => 31 * h + c.toBitVec.signExtend 32) 0

mutual

/-- `_hash_one` at the depth of its table. -/
def hashOne (depth : Nat) : LuaVal → Except LuaError (BitVec 32)
  | .bool b => if depth > maxDepth then .error tooDeep else .ok (hashBoolean b)
  | .int n => if depth > maxDepth then .error tooDeep else .ok (hashNumber n)
  | .float bits => if depth > maxDepth then .error tooDeep else .ok (hashFloat bits)
  | .str s => if depth > maxDepth then .error tooDeep else .ok (hashString s)
  | .table t =>
    if depth > maxDepth then .error tooDeep
    else do
      let h ← hashEntries (depth + 1) t
      return h * BitVec.ofNat 32 (depth + 1)
where
  tooDeep : LuaError := .raised "Can't hash too depth table"

/-- The loop of `_hash_table` over the entries. -/
def hashEntries (depth : Nat) : LuaTable → Except LuaError (BitVec 32)
  | .empty => .ok 0
  | .entry key value rest => do
    let kh ← hashOne depth key
    let vh ← hashOne depth value
    let h ← hashEntries depth rest
    return (kh ^^^ vh) + h

end

/-- `hash.hashcode`: the argument must be a table. -/
def hashcode : LuaVal → Except LuaError (BitVec 32)
  | .table t => do
    let h ← hashEntries 1 t
    return h * BitVec.ofNat 32 1
  | _ => .error (.raised "Argument must be table")

/-! ## The order of the entries -/

mutual

/-- The only error is that of a depth above `maxDepth`. -/
theorem hashOne_error : ∀ (depth : Nat) (v : LuaVal) {e : LuaError},
    hashOne depth v = .error e → e = hashOne.tooDeep
  | depth, .bool _, e, h | depth, .int _, e, h | depth, .float _, e, h | depth, .str _, e, h => by
    unfold hashOne at h
    split at h
    · exact (Except.error.inj h).symm
    · cases h
  | depth, .table t, e, h => by
    unfold hashOne at h
    split at h
    · exact (Except.error.inj h).symm
    · cases ht : hashEntries (depth + 1) t with
      | error e' =>
        rw [ht] at h
        obtain rfl := Except.error.inj h
        exact hashEntries_error (depth + 1) t ht
      | ok n => rw [ht] at h; cases h

theorem hashEntries_error : ∀ (depth : Nat) (t : LuaTable) {e : LuaError},
    hashEntries depth t = .error e → e = hashOne.tooDeep
  | depth, .empty, e, h => by cases h
  | depth, .entry key value rest, e, h => by
    unfold hashEntries at h
    cases hk : hashOne depth key with
    | error e' =>
      rw [hk] at h
      obtain rfl := Except.error.inj h
      exact hashOne_error depth key hk
    | ok kh =>
      cases hv : hashOne depth value with
      | error e' =>
        rw [hk, hv] at h
        obtain rfl := Except.error.inj h
        exact hashOne_error depth value hv
      | ok vh =>
        cases ht : hashEntries depth rest with
        | error e' =>
          rw [hk, hv, ht] at h
          obtain rfl := Except.error.inj h
          exact hashEntries_error depth rest ht
        | ok th => rw [hk, hv, ht] at h; cases h

end

/-- What one entry adds to the sum. -/
def entryHash (depth : Nat) (key value : LuaVal) : Except LuaError (BitVec 32) := do
  let kh ← hashOne depth key
  let vh ← hashOne depth value
  return kh ^^^ vh

theorem hashEntries_entry (depth : Nat) (key value : LuaVal) (rest : LuaTable) :
    hashEntries depth (.entry key value rest) = (do
      let n ← entryHash depth key value
      let h ← hashEntries depth rest
      return n + h) := by
  rw [hashEntries, entryHash]
  cases hashOne depth key with
  | error e => rfl
  | ok kh => cases hashOne depth value <;> rfl

theorem entryHash_error {depth : Nat} {key value : LuaVal} {e : LuaError}
    (h : entryHash depth key value = .error e) : e = hashOne.tooDeep := by
  unfold entryHash at h
  cases hk : hashOne depth key with
  | error e' =>
    rw [hk] at h
    obtain rfl := Except.error.inj h
    exact hashOne_error depth key hk
  | ok kh =>
    cases hv : hashOne depth value with
    | error e' =>
      rw [hk, hv] at h
      obtain rfl := Except.error.inj h
      exact hashOne_error depth value hv
    | ok vh => rw [hk, hv] at h; cases h

/-- The order of two entries does not matter: the sum commutes, and there is only one error. -/
theorem hashEntries_swap (depth : Nat) (k₁ v₁ k₂ v₂ : LuaVal) (t : LuaTable) :
    hashEntries depth (.entry k₁ v₁ (.entry k₂ v₂ t)) =
      hashEntries depth (.entry k₂ v₂ (.entry k₁ v₁ t)) := by
  simp only [hashEntries_entry]
  cases h₁ : entryHash depth k₁ v₁ with
  | error e =>
    obtain rfl := entryHash_error h₁
    cases h₂ : entryHash depth k₂ v₂ with
    | error e' => obtain rfl := entryHash_error h₂; rfl
    | ok m => rfl
  | ok n =>
    cases entryHash depth k₂ v₂ with
    | error e' => rfl
    | ok m =>
      cases hashEntries depth t with
      | error e => rfl
      | ok h => exact congrArg Except.ok (by rw [← BitVec.add_assoc, BitVec.add_comm n m, BitVec.add_assoc])

mutual

/-- The same document has the same hash. -/
theorem hashOne_same : ∀ {v v' : LuaVal}, v.Same v' → ∀ depth, hashOne depth v = hashOne depth v'
  | _, _, .refl _, _ => rfl
  | _, _, .table h, depth => by
    unfold hashOne
    rw [hashEntries_same h (depth + 1)]

theorem hashEntries_same : ∀ {t t' : LuaTable}, t.Same t' →
    ∀ depth, hashEntries depth t = hashEntries depth t'
  | _, _, .empty, _ => rfl
  | _, _, .entry key hv ht, depth => by
    rw [hashEntries, hashEntries, hashOne_same hv, hashEntries_same ht]
  | _, _, .swap k₁ v₁ k₂ v₂ t, depth => hashEntries_swap depth k₁ v₁ k₂ v₂ t
  | _, _, .trans h h', depth => (hashEntries_same h depth).trans (hashEntries_same h' depth)

end

theorem hashcode_same {v v' : LuaVal} (h : v.Same v') : hashcode v = hashcode v' := by
  cases h with
  | refl => rfl
  | table ht => simp only [hashcode, hashEntries_same ht 1]

end LuaHash

end AntServer
