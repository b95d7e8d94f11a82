/-
# AntServer.Behavior3.Forest — trees, and the trees their sub-trees load

Which nodes a node can execute, through its children and through `SubTree` (`Runs`). The memory of a
node is found by the ids of its tree and of itself; no node is executed inside itself
(`Unrepeated`) when the ids of every tree are distinct and the trees are loaded without a cycle.
-/
import AntServer.Behavior3.BehaviorTree
import Mathlib.Logic.Relation
import Mathlib.Order.Basic

namespace AntServer.Behavior3

open Relation (ReflTransGen TransGen)

/-! ## Which nodes a node can execute -/

/-- A node of a tree. -/
abbrev Place := String × Node

/-- Where the memory of the node is. -/
def placeKey (x : Place) : Key := (x.1, x.2.id)

/-- The nodes whose `_execute` the `tick` of a node may call. -/
inductive Runs (env : Env) : Place → Place → Prop
  | composite {t id : String} {cls : CompositeClass} {children : List Node} {v : Node}
      (hv : v ∈ children) : Runs env (t, .composite id cls children) (t, v)
  | decorator {t id : String} {cls : DecoratorClass} {child : Node} :
      Runs env (t, .decorator id cls (some child)) (t, child)
  | subTree {t id name : String} {load : String → Option Tree} {tree : Tree}
      (hload : env.subTreeLoadFunc = some load) (htree : load name = some tree) :
      Runs env (t, .subTree id name) (tree.id, tree.root)

/-- The keys of a node and of the nodes below it. -/
def Scope (env : Env) (x : Place) (k : Key) : Prop := ∃ y, ReflTransGen (Runs env) x y ∧ placeKey y = k

/-- The keys of the nodes below a node. -/
def Below (env : Env) (x : Place) (k : Key) : Prop := ∃ y, TransGen (Runs env) x y ∧ placeKey y = k

/-- Neither the node nor one below it is executed inside itself. -/
def Unrepeated (env : Env) (x : Place) : Prop :=
  ∀ y, ReflTransGen (Runs env) x y → ¬ Below env y (placeKey y)

theorem Unrepeated.runs {env : Env} {x y : Place} (h : Unrepeated env x) (hxy : Runs env x y) :
    Unrepeated env y := fun z hyz => h z (hyz.head hxy)

theorem Scope.below {env : Env} {x y : Place} (hxy : Runs env x y) {k : Key} (h : Scope env y k) :
    Below env x k := by
  obtain ⟨z, hz, hk⟩ := h
  exact ⟨z, .head' hxy hz, hk⟩

theorem Below.scope {env : Env} {x : Place} {k : Key} (h : Below env x k) : Scope env x k := by
  obtain ⟨z, hz, hk⟩ := h
  exact ⟨z, hz.to_reflTransGen, hk⟩

/-! ## Distinct ids and no cycles -/

mutual

/-- The ids of the nodes of a tree. -/
def Node.ids : Node → List String
  | .base id => [id]
  | .custom id => [id]
  | .action id _ => [id]
  | .subTree id _ => [id]
  | .composite id _ children => id :: idsOfAll children
  | .decorator id _ child => id :: idsOfChild child

def idsOfAll : List Node → List String
  | [] => []
  | v :: vs => v.ids ++ idsOfAll vs

def idsOfChild : Option Node → List String
  | none => []
  | some v => v.ids

end

mutual

/-- The names its sub-trees load. -/
def Node.loads : Node → List String
  | .base _ => []
  | .custom _ => []
  | .action _ _ => []
  | .subTree _ name => [name]
  | .composite _ _ children => loadsOfAll children
  | .decorator _ _ child => loadsOfChild child

def loadsOfAll : List Node → List String
  | [] => []
  | v :: vs => v.loads ++ loadsOfAll vs

def loadsOfChild : Option Node → List String
  | none => []
  | some v => v.loads

end

/-- The tree that a name loads. -/
def Env.loaded (env : Env) (name : String) : Option Tree := env.subTreeLoadFunc.bind fun load => load name

/-- The ids of a node and of the nodes below it in its tree are distinct, and the trees it loads are of
lower rank. -/
structure WellFormed (env : Env) (rank : String → Nat) (x : Place) : Prop where
  ids : x.2.ids.Nodup
  loads : ∀ name ∈ x.2.loads, ∀ tree, env.loaded name = some tree → rank tree.id < rank x.1

theorem mem_idsOfAll {vs : List Node} {id : String} : id ∈ idsOfAll vs ↔ ∃ v ∈ vs, id ∈ v.ids := by
  induction vs with
  | nil => simp [idsOfAll]
  | cons v vs ih => simp [idsOfAll, ih]

theorem mem_loadsOfAll {vs : List Node} {name : String} :
    name ∈ loadsOfAll vs ↔ ∃ v ∈ vs, name ∈ v.loads := by
  induction vs with
  | nil => simp [loadsOfAll]
  | cons v vs ih => simp [loadsOfAll, ih]

theorem nodup_ids_of_mem {vs : List Node} {v : Node} (h : (idsOfAll vs).Nodup) (hv : v ∈ vs) :
    v.ids.Nodup := by
  induction vs with
  | nil => cases hv
  | cons w vs ih =>
    obtain ⟨hw, hvs, -⟩ := List.nodup_append.mp h
    rcases List.mem_cons.mp hv with rfl | hv
    · exact hw
    · exact ih hvs hv

theorem Node.id_mem_ids (v : Node) : v.id ∈ v.ids := by
  cases v <;> simp [Node.id, Node.ids]

/-- One step stays in the tree, below the node, or goes to a tree of lower rank. -/
def Descends (rank : String → Nat) (x y : Place) : Prop :=
  (y.1 = x.1 ∧ (∀ id ∈ y.2.ids, id ∈ x.2.ids ∧ id ≠ x.2.id)) ∨ rank y.1 < rank x.1

section Forest

variable {env : Env} {rank : String → Nat}
  (hloaded : ∀ name tree, env.loaded name = some tree → WellFormed env rank (tree.id, tree.root))

include hloaded

theorem Runs.descends {x y : Place} (h : Runs env x y) (hx : WellFormed env rank x) :
    WellFormed env rank y ∧ Descends rank x y := by
  cases h with
  | @composite t id cls children v hv =>
    obtain ⟨hid, hids⟩ := List.nodup_cons.mp (show (id :: idsOfAll children).Nodup from hx.ids)
    refine ⟨⟨nodup_ids_of_mem hids hv, fun name hname => hx.loads name ?_⟩, .inl ⟨rfl, fun i hi => ?_⟩⟩
    · exact mem_loadsOfAll.mpr ⟨v, hv, hname⟩
    · have hmem : i ∈ idsOfAll children := mem_idsOfAll.mpr ⟨v, hv, hi⟩
      exact ⟨List.mem_cons_of_mem _ hmem, fun he : i = id => hid (he ▸ hmem)⟩
  | @decorator t id cls child =>
    obtain ⟨hid, hids⟩ := List.nodup_cons.mp (show (id :: child.ids).Nodup from hx.ids)
    refine ⟨⟨hids, hx.loads⟩, .inl ⟨rfl, fun i hi => ?_⟩⟩
    exact ⟨List.mem_cons_of_mem _ hi, fun he : i = id => hid (he ▸ hi)⟩
  | @subTree t id name load tree hload htree =>
    have hname : env.loaded name = some tree := by rw [Env.loaded, hload]; exact htree
    exact ⟨hloaded name tree hname,
      .inr (hx.loads name (by simp [Node.loads]) tree hname)⟩

theorem descends_of_transGen {x y : Place} (h : TransGen (Runs env) x y) (hx : WellFormed env rank x) :
    WellFormed env rank y ∧ Descends rank x y := by
  induction h with
  | single h => exact h.descends hloaded hx
  | tail _ h ih =>
    obtain ⟨hwf, hdesc⟩ := ih
    obtain ⟨hwf', hdesc'⟩ := h.descends hloaded hwf
    refine ⟨hwf', ?_⟩
    rcases hdesc' with ⟨htree', hids'⟩ | hrank'
    · rcases hdesc with ⟨htree, hids⟩ | hrank
      · exact .inl ⟨htree'.trans htree, fun i hi => hids i (hids' i hi).1⟩
      · exact .inr (htree' ▸ hrank)
    · rcases hdesc with ⟨htree, -⟩ | hrank
      · exact .inr (htree ▸ hrank')
      · exact .inr (hrank'.trans hrank)

/-- With distinct ids and without cycles no node is executed inside itself. -/
theorem WellFormed.unrepeated {x : Place} (hx : WellFormed env rank x) : Unrepeated env x := by
  rintro y hxy ⟨z, hyz, hkey⟩
  have hy : WellFormed env rank y := by
    rcases Relation.reflTransGen_iff_eq_or_transGen.mp hxy with rfl | hxy
    · exact hx
    · exact (descends_of_transGen hloaded hxy hx).1
  obtain ⟨htree, hid⟩ := Prod.mk.inj hkey
  rcases (descends_of_transGen hloaded hyz hy).2 with ⟨-, hids⟩ | hrank
  · exact (hids z.2.id z.2.id_mem_ids).2 hid
  · rw [htree] at hrank
    omega

end Forest

end AntServer.Behavior3
