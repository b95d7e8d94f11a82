/-
# AntServer.Entitas.MatcherCache — which matcher is given

A matcher is made once for a text of the names in its lists, and given again for the same text. The text is
that of the names of all lists one after the other: it does not say which list a name is in. So what is
given is the first matcher that was asked for with this text (`make_eq_find`), and of the matchers with one
list, be it of components that all are to be there, of which one is, or of which none is, the one that is
given is the one that is asked for if and only if the list was in the same place when it came first
(`make_right_iff`).
-/
import AntServer.Entitas.Context
import Mathlib.Data.List.Find
import Mathlib.Data.List.TakeWhile

namespace AntServer.Entitas.Matcher

open Lib

abbrev Text := List Char

/-! ## The cache -/

/-- `string_components_ex`. -/
def stringComponentsEx (components : Option (List Text)) : Text :=
  (components.getD []).foldl (fun str v => (if str = [] then str else str ++ [',']) ++ v) []

/-- The text under which a matcher is kept. -/
def key (m : Matcher Text) : Text :=
  stringComponentsEx m.allOf ++ stringComponentsEx m.anyOf ++ stringComponentsEx m.noneOf

/-- The function that makes a matcher: the one that is given, and the cache. -/
def make (cache : Table Text (Matcher Text)) (m : Matcher Text) : Matcher Text × Table Text (Matcher Text) :=
  match cache.get m.key with
  | some tb => (tb, cache)
  | none => (m, cache.set m.key m)

/-- The cache after some matchers were asked for. -/
def cacheAfter (ms : List (Matcher Text)) : Table Text (Matcher Text) :=
  ms.foldl (fun cache m => (make cache m).2) .empty

theorem get_make (cache : Table Text (Matcher Text)) (m : Matcher Text) (k : Text) :
    (make cache m).2.get k = (cache.get k).or (if m.key = k then some m else none) := by
  unfold make
  cases hm : cache.get m.key with
  | some tb =>
    by_cases hk : m.key = k
    · subst hk
      rw [if_pos rfl, hm]
      rfl
    · rw [if_neg hk, Option.or_none]
  | none =>
    show (cache.set m.key m).get k = _
    rw [Table.get_set]
    by_cases hk : k = m.key
    · subst hk
      rw [if_pos rfl, if_pos rfl, hm]
      rfl
    · rw [if_neg hk, if_neg (Ne.symm hk), Option.or_none]

/-- What is under a text is the first matcher with it. -/
theorem get_cacheAfter (ms : List (Matcher Text)) (k : Text) :
    (cacheAfter ms).get k = ms.find? fun m => m.key = k := by
  have main : ∀ cache : Table Text (Matcher Text),
      (ms.foldl (fun cache m => (make cache m).2) cache).get k =
        (cache.get k).or (ms.find? fun m => m.key = k) := by
    induction ms with
    | nil =>
      intro cache
      exact Option.or_none.symm
    | cons m ms ih =>
      intro cache
      rw [List.foldl_cons, ih, get_make, Option.or_assoc]
      refine congrArg _ ?_
      by_cases hk : m.key = k
      · rw [if_pos hk, List.find?_cons_of_pos (by simpa using hk)]
        rfl
      · rw [if_neg hk, List.find?_cons_of_neg (by simpa using hk)]
        rfl
  refine (main .empty).trans ?_
  rw [Table.get_empty]
  rfl

/-- The matcher that is given is the first one that was asked for with this text. -/
theorem make_eq_find (ms : List (Matcher Text)) (m : Matcher Text) :
    some (make (cacheAfter ms) m).1 = (ms ++ [m]).find? fun m' => m'.key = m.key := by
  rw [List.find?_append, ← get_cacheAfter]
  unfold make
  cases (cacheAfter ms).get m.key with
  | some tb => rfl
  | none => simp

/-! ## The text of a list -/

/-- The names of components, which are not empty and have no comma. -/
def Named (l : List Text) : Prop := ∀ n ∈ l, n ≠ [] ∧ ',' ∉ n

/-- The names behind the first one. -/
def tailText (l : List Text) : Text := l.flatMap fun n => ',' :: n

theorem foldl_names {l : List Text} {str : Text} (hstr : str ≠ []) (h : Named l) :
    l.foldl (fun str v => (if str = [] then str else str ++ [',']) ++ v) str = str ++ tailText l := by
  induction l generalizing str with
  | nil => exact (List.append_nil str).symm
  | cons n l ih =>
    have hne : str ++ [','] ++ n ≠ [] := by simp
    rw [List.foldl_cons, if_neg hstr, ih hne fun x hx => h x (List.mem_cons_of_mem n hx)]
    unfold tailText
    rw [List.flatMap_cons]
    simp

theorem stringComponentsEx_cons {n : Text} {l : List Text} (h : Named (n :: l)) :
    stringComponentsEx (some (n :: l)) = n ++ tailText l := by
  obtain ⟨hn, -⟩ := h n List.mem_cons_self
  show (n :: l).foldl _ [] = _
  rw [List.foldl_cons, if_pos rfl, List.nil_append]
  exact foldl_names hn fun x hx => h x (List.mem_cons_of_mem n hx)

/-- A name ends at the first comma. -/
theorem takeWhile_name {n : Text} (hn : ',' ∉ n) (l : List Text) :
    (n ++ tailText l).takeWhile (· ≠ ',') = n := by
  have hpos : ∀ c ∈ n, decide (c ≠ ',') = true := by
    intro c hc
    rw [decide_eq_true_eq]
    rintro rfl
    exact hn hc
  rw [List.takeWhile_append_of_pos hpos]
  cases l with
  | nil => exact List.append_nil n
  | cons m l =>
    unfold tailText
    rw [List.flatMap_cons, List.cons_append, List.takeWhile_cons_of_neg (by decide), List.append_nil]

/-- Lists with one text are the same. -/
theorem tailText_inj {l l' : List Text} (h : Named l) (h' : Named l') (heq : tailText l = tailText l') :
    l = l' := by
  induction l generalizing l' with
  | nil =>
    cases l' with
    | nil => rfl
    | cons n l' =>
      unfold tailText at heq
      rw [List.flatMap_cons] at heq
      cases heq
  | cons n l ih =>
    cases l' with
    | nil =>
      unfold tailText at heq
      rw [List.flatMap_cons] at heq
      cases heq
    | cons n' l' =>
      have hcons : n ++ tailText l = n' ++ tailText l' := by
        unfold tailText at heq ⊢
        rw [List.flatMap_cons, List.flatMap_cons] at heq
        exact (List.cons.inj heq).2
      have hn : n = n' := by
        rw [← takeWhile_name (h n List.mem_cons_self).2 l, hcons,
          takeWhile_name (h' n' List.mem_cons_self).2 l']
      subst hn
      rw [ih (fun x hx => h x (List.mem_cons_of_mem n hx)) (fun x hx => h' x (List.mem_cons_of_mem n hx))
        (List.append_cancel_left hcons)]

theorem stringComponentsEx_inj {l l' : List Text} (hne : l ≠ []) (hne' : l' ≠ []) (h : Named l)
    (h' : Named l') (heq : stringComponentsEx (some l) = stringComponentsEx (some l')) : l = l' := by
  match l, l' with
  | n :: l, n' :: l' =>
    rw [stringComponentsEx_cons h, stringComponentsEx_cons h'] at heq
    refine tailText_inj h h' ?_
    unfold tailText
    rw [List.flatMap_cons, List.flatMap_cons]
    exact congrArg (',' :: ·) heq

/-! ## Matchers with one list -/

/-- The list of a matcher that names are in. -/
inductive Place where
  | all
  | any
  | none
  deriving DecidableEq

/-- The matcher with one list. -/
def single : Place → List Text → Matcher Text
  | .all, l => ⟨some l, Option.none, Option.none⟩
  | .any, l => ⟨Option.none, some l, Option.none⟩
  | .none, l => ⟨Option.none, Option.none, some l⟩

/-- The text of a matcher does not say where its list is. -/
theorem key_single (p : Place) (l : List Text) : (single p l).key = stringComponentsEx (some l) := by
  cases p with
  | all => exact (List.append_nil _).trans (List.append_nil _)
  | any => exact List.append_nil _
  | none => rfl

theorem single_inj {p q : Place} {l l' : List Text} (h : single p l = single q l') : p = q ∧ l = l' := by
  cases p <;> cases q <;> cases h <;> exact ⟨rfl, rfl⟩

/-- Of matchers with one list of names: what is given is what is asked for if and only if the list was in
the same place when it came first. -/
theorem make_right_iff {asked : List (Place × List Text)} {p : Place} {l : List Text}
    (hasked : ∀ r ∈ asked ++ [(p, l)], r.2 ≠ [] ∧ Named r.2) :
    (make (cacheAfter (asked.map fun r => single r.1 r.2)) (single p l)).1 = single p l ↔
      ((asked ++ [(p, l)]).find? fun r => r.2 = l) = some (p, l) := by
  obtain ⟨hne, hnamed⟩ := hasked (p, l) (List.mem_append_right _ List.mem_cons_self)
  have hmap : (asked.map fun r => single r.1 r.2) ++ [single p l] =
      (asked ++ [(p, l)]).map fun r => single r.1 r.2 := by
    rw [List.map_append]
    rfl
  -- two of them have one text if they have one list
  have hsame : ((asked ++ [(p, l)]).find? fun r => (single r.1 r.2).key = (single p l).key) =
      (asked ++ [(p, l)]).find? fun r => r.2 = l := by
    refine List.find?_congr fun r hr => ?_
    obtain ⟨hrne, hrnamed⟩ := hasked r hr
    rw [decide_eq_decide, key_single, key_single]
    exact ⟨stringComponentsEx_inj hrne hne hrnamed hnamed, fun h => h ▸ rfl⟩
  have hfind := make_eq_find (asked.map fun r => single r.1 r.2) (single p l)
  rw [hmap, List.find?_map] at hfind
  change _ = ((asked ++ [(p, l)]).find? fun r => (single r.1 r.2).key = (single p l).key).map _ at hfind
  rw [hsame] at hfind
  constructor
  · intro hgiven
    rw [hgiven] at hfind
    obtain ⟨r, hr, heq⟩ := Option.map_eq_some_iff.mp hfind.symm
    obtain ⟨hp, hl⟩ := single_inj heq
    rw [hr]
    exact congrArg some (Prod.ext hp hl)
  · intro hfirst
    rw [hfirst] at hfind
    exact Option.some.inj hfind

/-- One of two components is asked for, and then none of them. -/
theorem make_right_iff_none :
    (make (cacheAfter [single .any [['a'], ['b']]]) (single .none [['a'], ['b']])).1 =
        single .any [['a'], ['b']] ∧
      ((make (cacheAfter ([(Place.any, [['a'], ['b']])].map fun r => single r.1 r.2))
        (single .none [['a'], ['b']])).1 = single .none [['a'], ['b']] ↔
      (([(Place.any, [['a'], ['b']])] ++ [(Place.none, [['a'], ['b']])]).find? fun r => r.2 = [['a'], ['b']]) =
        some (Place.none, [['a'], ['b']])) :=
  ⟨by rfl, make_right_iff (by unfold Named; decide)⟩

end AntServer.Entitas.Matcher
