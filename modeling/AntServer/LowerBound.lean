/-
# AntServer.LowerBound — `table.lower_bound`

`table.lower_bound` of `preload/luaext.lua` looks for the first element of a sorted array that is not
less than a number, by halves. Positions are counted from 0 in the loop and from 1 in the array, and
with a field the elements are compared by that field. An element without the field is compared itself;
comparing anything but numbers raises, and so does taking a field of what is no table.

Numbers are any preorder with a comparison that can be decided.
-/
import Mathlib.Data.Int.ConditionallyCompleteOrder
import Mathlib.Order.ConditionallyCompleteLattice.Basic
import AntServer.Lib.Bisection
import AntServer.Lua
import AntServer.LuaString

namespace AntServer

open Lib (IsCut Bracket)

/-- What an array or a field holds. A table is given by its fields. -/
inductive Element (F N : Type) where
  | nil
  | bool (b : Bool)
  | number (n : N)
  | table (fields : F → Element F N)

namespace Element

variable {F N : Type}

def typeName : Element F N → String
  | .nil => "nil"
  | .bool _ => "boolean"
  | .number _ => "number"
  | .table _ => "table"

/-- Everything but nil and false is true. -/
def truthy : Element F N → Bool
  | .nil => false
  | .bool b => b
  | .number _ => true
  | .table _ => true

/-- `element[field]` -/
def field : Element F N → F → Except LuaError (Element F N)
  | .table fields, f => .ok (fields f)
  | element, _ => .error (.index element.typeName "element")

/-- `value <x` -/
def lessThan [LT N] [DecidableLT N] : Element F N → Element F N → Except LuaError Bool
  | .number value, .number x => .ok (decide (value < x))
  | value, x => .error (.raised (
    if value.typeName = x.typeName then "attempt to compare two " ++ value.typeName ++ " values"
    else "attempt to compare " ++ value.typeName ++ " with " ++ x.typeName))

/-- `field and element[field] or element` -/
def select (selector : Option F) (element : Element F N) : Except LuaError (Element F N) :=
  match selector with
  | none => .ok element
  | some f => do
    let value ← element.field f
    return if value.truthy then value else element

end Element

/-- What a search has read, by the indexes, and what it comes to. -/
structure Search where
  reads : List Nat
  result : Except LuaError Nat

variable {F N : Type} [Preorder N] [DecidableLT N]

/-- Whether the element at the index is less than `x`. -/
def belowAt (elements : List (Element F N)) (x : Element F N) (field : Option F) (i : Nat) :
    Except LuaError Bool := do
  let value ← ((luaIndex elements i).getD .nil).select field
  value.lessThan x

/-- The loop of `table.lower_bound`. -/
def lowerBoundLoop (elements : List (Element F N)) (x : Element F N) (field : Option F)
    (first len : Nat) : Search :=
  if len > 0 then
    let half := len / 2
    let mid := first + half
    -- `mid` counts from 0, the array from 1.
    match belowAt elements x field (mid + 1) with
    | .error e => ⟨[mid + 1], .error e⟩
    | .ok true =>
      let rest := lowerBoundLoop elements x field (mid + 1) (len - half - 1)
      { rest with reads := (mid + 1) :: rest.reads }
    | .ok false =>
      let rest := lowerBoundLoop elements x field first half
      { rest with reads := (mid + 1) :: rest.reads }
  else ⟨[], .ok (first + 1)⟩
termination_by len

/-- `table.lower_bound` -/
def lowerBound (elements : List (Element F N)) (x : Element F N) (field : Option F) : Search :=
  lowerBoundLoop elements x field 0 elements.length

/-! ## The search -/

/-- The elements are numbers, or have numbers in the field they are compared by. -/
def Selects (field : Option F) (elements : List (Element F N)) (values : List N) : Prop :=
  elements.map (Element.select field) = values.map fun v => .ok (.number v)

/-- The element at the position, counted from 0, is less than `x`. -/
def Below (values : List N) (x : N) (j : Nat) : Prop := ∃ v, values[j]? = some v ∧ v < x

variable {elements : List (Element F N)} {field : Option F} {values : List N} {x : N}

omit [Preorder N] [DecidableLT N] in
theorem Selects.length (h : Selects field elements values) : elements.length = values.length := by
  have := congrArg List.length h
  simpa using this

omit [Preorder N] [DecidableLT N] in
theorem Selects.get (h : Selects field elements values) {j : Nat} {v : N} (hv : values[j]? = some v) :
    ((luaIndex elements (j + 1)).getD .nil).select field = .ok (.number v) := by
  have hget := congrArg (·[j]?) h
  simp only [List.getElem?_map, hv, Option.map_some] at hget
  obtain ⟨element, helement, hselect⟩ := Option.map_eq_some_iff.mp hget
  unfold luaIndex
  rw [if_neg (by omega), Nat.add_sub_cancel, helement]
  exact hselect

/-- A probe inside the array compares a number. -/
theorem Selects.belowAt (h : Selects field elements values) (x : N) {j : Nat} (hj : j < values.length) :
    ∃ b, AntServer.belowAt elements (.number x) field (j + 1) = .ok b ∧
      (b = true ↔ Below values x j) := by
  have hv := List.getElem?_eq_getElem hj
  refine ⟨decide (values[j] < x), ?_, ?_⟩
  · unfold AntServer.belowAt
    rw [h.get hv]
    rfl
  · rw [decide_eq_true_eq]
    unfold Below
    rw [hv]
    simp

omit [DecidableLT N] in
/-- In a sorted array what is before a smaller element is smaller. -/
theorem below_of_le (hsorted : values.Pairwise (· ≤ ·)) (x : N) (i j : Nat) (hij : i ≤ j)
    (hj : Below values x j) : Below values x i := by
  obtain ⟨v, hv, hlt⟩ := hj
  obtain heq | hlt' := Nat.eq_or_lt_of_le hij
  · subst heq
    exact ⟨v, hv, hlt⟩
  · obtain ⟨hj, rfl⟩ := List.getElem?_eq_some_iff.mp hv
    have hi : i < values.length := by omega
    have hle := List.pairwise_iff_getElem.mp hsorted i j hi hj hlt'
    exact ⟨values[i], List.getElem?_eq_getElem hi, lt_of_le_of_lt hle hlt⟩

/-- The loop keeps a bracket of the cut, and looks inside of it only. -/
theorem lowerBoundLoop_spec (hselects : Selects field elements values)
    (hsorted : values.Pairwise (· ≤ ·)) (x : N) {first len : Nat}
    (h : Bracket (Below values x) values.length first len) :
    ∃ i, (lowerBoundLoop elements (.number x) field first len).result = .ok (i + 1) ∧
      IsCut (Below values x) values.length i ∧
      ∀ k ∈ (lowerBoundLoop elements (.number x) field first len).reads,
        first < k ∧ k ≤ first + len := by
  have hdown := below_of_le hsorted x
  induction len using Nat.strong_induction_on generalizing first with
  | _ len ih =>
    unfold lowerBoundLoop
    by_cases hlen : len > 0
    · have hhalf : len / 2 < len := by omega
      have hmid : first + len / 2 < values.length := by
        have := h.le
        omega
      obtain ⟨b, hprobe, hb⟩ := hselects.belowAt x hmid
      rw [if_pos hlen]
      dsimp only
      rw [hprobe]
      cases b with
      | true =>
        -- The rest starts behind the probe.
        have hright := h.right hdown (first + len / 2) (by omega) (hb.mp rfl)
        have hrest : first + len - (first + len / 2 + 1) = len - len / 2 - 1 := by omega
        rw [hrest] at hright
        obtain ⟨i, hresult, hcut, hreads⟩ := ih (len - len / 2 - 1) (by omega) hright
        refine ⟨i, hresult, hcut, ?_⟩
        intro k hk
        obtain rfl | hk := List.mem_cons.mp hk
        · omega
        · have := hreads k hk
          omega
      | false =>
        -- The rest is the half before the probe, and does not have it.
        have hfalse : ¬ Below values x (first + len / 2) := by
          intro hbelow
          cases hb.mpr hbelow
        have hleft := h.left hdown (first + len / 2) (by omega) (by omega) hfalse
        rw [Nat.add_sub_cancel_left] at hleft
        obtain ⟨i, hresult, hcut, hreads⟩ := ih (len / 2) hhalf hleft
        refine ⟨i, hresult, hcut, ?_⟩
        intro k hk
        obtain rfl | hk := List.mem_cons.mp hk
        · omega
        · have := hreads k hk
          omega
    · -- Nothing is left between what is below and what is not.
      obtain rfl : len = 0 := by omega
      rw [if_neg hlen]
      refine ⟨first, rfl, h.cut, ?_⟩
      intro k hk
      cases hk

/-! ## What it returns -/

/-- The index, counted from 1, before which all elements are less than `x`, and from which on none is. -/
structure LowerBoundAt (values : List N) (x : N) (i : Nat) : Prop where
  pos : 1 ≤ i
  le : i ≤ values.length + 1
  before : ∀ k v, luaIndex values k = some v → k < i → v < x
  after : ∀ k v, luaIndex values k = some v → i ≤ k → ¬ v < x

omit [Preorder N] [DecidableLT N] in
theorem luaIndex_succ (values : List N) (j : Nat) : luaIndex values (j + 1) = values[j]? := by
  unfold luaIndex
  rw [if_neg (by omega), Nat.add_sub_cancel]

omit [DecidableLT N] in
/-- It is the cut, counted from 1. -/
theorem lowerBoundAt_iff {i : Nat} :
    LowerBoundAt values x (i + 1) ↔ IsCut (Below values x) values.length i := by
  constructor
  · intro h
    refine ⟨by have := h.le; omega, ?_, ?_⟩
    · intro j hj
      have hlt : j < values.length := by
        have := h.le
        omega
      have hv := List.getElem?_eq_getElem hlt
      exact ⟨values[j], hv, h.before (j + 1) _ ((luaIndex_succ values j).trans hv) (by omega)⟩
    · rintro j - hj ⟨v, hv, hlt⟩
      exact h.after (j + 1) v ((luaIndex_succ values j).trans hv) (by omega) hlt
  · intro h
    refine ⟨by omega, by have := h.le; omega, ?_, ?_⟩
    · intro k v hk hlt
      obtain ⟨j, rfl⟩ : ∃ j, k = j + 1 := ⟨k - 1, by have := luaIndex_eq_some hk; omega⟩
      rw [luaIndex_succ] at hk
      obtain ⟨v', hv', hbelow⟩ := h.before j (by omega)
      cases hk.symm.trans hv'
      exact hbelow
    · intro k v hk hge hlt
      obtain ⟨j, rfl⟩ : ∃ j, k = j + 1 := ⟨k - 1, by have := luaIndex_eq_some hk; omega⟩
      rw [luaIndex_succ] at hk
      have hj := (List.getElem?_eq_some_iff.mp hk).1
      exact h.after j hj (by omega) ⟨v, hk, hlt⟩

/-- On a sorted array `table.lower_bound` returns the one index before which the elements are less than
`x` and from which on they are not, and it reads within the array. -/
theorem lowerBound_cut (hselects : Selects field elements values)
    (hsorted : values.Pairwise (· ≤ ·)) (x : N) :
    ∃ i, (lowerBound elements (.number x) field).result = .ok i ∧ LowerBoundAt values x i ∧
      (∀ j, LowerBoundAt values x j → j = i) ∧
      ∀ k ∈ (lowerBound elements (.number x) field).reads, 1 ≤ k ∧ k ≤ elements.length := by
  have hall := Bracket.all (Below values x) values.length
  obtain ⟨i, hresult, hcut, hreads⟩ := lowerBoundLoop_spec hselects hsorted x hall
  rw [← hselects.length] at hresult hreads
  refine ⟨i + 1, hresult, lowerBoundAt_iff.mpr hcut, ?_, ?_⟩
  · intro j hj
    obtain ⟨j, rfl⟩ : ∃ j', j = j' + 1 := ⟨j - 1, by have := hj.pos; omega⟩
    rw [(lowerBoundAt_iff.mp hj).unique hcut]
  · intro k hk
    have := hreads k hk
    omega

/-- Three records by a field of theirs. -/
theorem lowerBound_cut_records :
    ∃ i, (lowerBound (F := Unit) (N := Int)
        [.table fun _ => .number 1, .table fun _ => .number 3, .table fun _ => .number 3]
        (.number 3) (some ())).result = .ok i ∧ LowerBoundAt [1, 3, 3] (3 : Int) i := by
  have hselects : Selects (F := Unit) (N := Int) (some ())
      [.table fun _ => .number 1, .table fun _ => .number 3, .table fun _ => .number 3]
      [1, 3, 3] := rfl
  obtain ⟨i, hresult, hbound, -⟩ := lowerBound_cut hselects (by decide) 3
  exact ⟨i, hresult, hbound⟩

end AntServer
