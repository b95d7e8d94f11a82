/-
# AntServer.LuaString — Lua strings and arrays

A Lua string is the list of its bytes, and a Lua array is indexed from 1: outside of the array the index
gives nil. `string.split` of `preload/luaext.lua` collects the matches of `[^delim]+`, the maximal runs of
other bytes, so that a piece between two delimiters is lost when it is empty (`stringSplit_intercalate`).
-/
import Mathlib.Data.List.Basic

namespace AntServer

/-- A Lua string: its bytes. -/
abbrev LuaString := List UInt8

/-- The string of a literal of the source, or of an identifier: the bytes of its characters in UTF-8. -/
def LuaString.ofText (text : String) : LuaString := text.toUTF8.data.toList

/-- A Lua array indexed from 1. -/
def luaIndex {α : Type*} (array : List α) (i : Nat) : Option α := if i = 0 then none else array[i - 1]?

theorem luaIndex_eq_some {α : Type*} {array : List α} {i : Nat} {a : α}
    (h : luaIndex array i = some a) : 1 ≤ i ∧ i ≤ array.length := by
  unfold luaIndex at h
  split at h
  · cases h
  · have := (List.getElem?_eq_some_iff.mp h).1
    omega

theorem luaIndex_isSome {α : Type*} {array : List α} {i : Nat} :
    (∃ a, luaIndex array i = some a) ↔ 1 ≤ i ∧ i ≤ array.length := by
  constructor
  · rintro ⟨a, ha⟩
    exact luaIndex_eq_some ha
  · intro h
    unfold luaIndex
    rw [if_neg (by omega)]
    exact ⟨_, List.getElem?_eq_getElem (by omega)⟩

theorem mem_of_luaIndex {α : Type*} {array : List α} {i : Nat} {a : α} (h : luaIndex array i = some a) :
    a ∈ array := by
  unfold luaIndex at h
  split at h
  · cases h
  · exact List.mem_of_getElem? h

/-- An assignment to an element that is there. -/
theorem luaIndex_set {α : Type*} {array : List α} {i : Nat} {a : α} (h : luaIndex array i = some a)
    (b : α) (j : Nat) : luaIndex (array.set (i - 1) b) j = if j = i then some b else luaIndex array j := by
  have hi := luaIndex_eq_some h
  unfold luaIndex
  by_cases hj : j = i
  · rw [if_pos hj, hj, if_neg (by omega), List.getElem?_set_self (by omega)]
  · rw [if_neg hj]
    split
    · rfl
    · exact List.getElem?_set_ne (by omega)

/-- `string.split(s, delim)`, for a delimiter of one byte. -/
def stringSplit (s : LuaString) (delim : UInt8) : List LuaString := (s.splitOn delim).filter (· ≠ [])

/-- What `string.split` makes of joined pieces: those that are not empty. -/
theorem stringSplit_intercalate {delim : UInt8} {pieces : List LuaString} (hne : pieces ≠ [])
    (hfree : ∀ p ∈ pieces, delim ∉ p) :
    stringSplit ([delim].intercalate pieces) delim = pieces.filter (· ≠ []) := by
  unfold stringSplit
  rw [List.splitOn_intercalate delim hfree hne]

/-- The pieces come back exactly when none of them is empty. -/
theorem stringSplit_eq_iff {delim : UInt8} {pieces : List LuaString} (hne : pieces ≠ [])
    (hfree : ∀ p ∈ pieces, delim ∉ p) :
    stringSplit ([delim].intercalate pieces) delim = pieces ↔ ∀ p ∈ pieces, p ≠ [] := by
  rw [stringSplit_intercalate hne hfree, List.filter_eq_self]
  simp only [decide_eq_true_eq]

end AntServer
