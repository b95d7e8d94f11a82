/-
# AntServer.Agent.ChangeDetection — `on_mod_save` over a database that can fail

`on_mod_save` as in `Agent.Mods`, for any set of backend mods and a database that may answer a `set`
with false or raise. What `set` answers is not looked at: the hash is remembered when the document was
refused, and a mod that raises ends the loop over the others. The table of remembered hashes is a
local of the chunk, so it outlives the users of the agent.

Every mod is settled by what is there when the loop begins (`Saver.found`), since a visit touches the
hash and the document of its own mod only. So a call does what it should exactly when no hash stands
for a document that is not stored, no `set` is refused, and no mod raises before one that has a document
to store (`Saver.SeesAll`).
-/
import AntServer.Lib.Machine
import AntServer.Agent.Commands

namespace AntServer.Agent

open Lib (Table)

/-- What a call of `dbproxyx.set` comes to: true; false with the error of `getLastError`; or it raises,
with the document written or not. -/
inductive SetAnswer where
  | stored
  | refused
  | raised (written : Bool)
  deriving DecidableEq, Repr

/-- A backend mod: whether its class has a `save`, the uin of its `_profile`, and `_data`. -/
structure BackendMod where
  saves : Bool
  uin : Option String
  data : Option LuaVal
  deriving DecidableEq, Repr

/-- The backend mods of an agent by their names, the hashes remembered for them, and the documents of
their collections. -/
structure Saver (K : Type*) where
  backends : Table K BackendMod
  hashcodes : Table K (BitVec 32)
  docs : Table (K × String) LuaVal

namespace Saver

variable {K : Type*} [DecidableEq K]

/-- `mod:save()`: nobody looks at what `dbproxyx.set` returns. -/
def callSave (s : Saver K) (k : K) (m : BackendMod) (data : LuaVal) (answer : SetAnswer) :
    Option LuaError × Saver K :=
  match m.uin with
  | none => (some (.index "nil" "_profile"), s)
  | some uin =>
    match answer with
    | .stored => (none, { s with docs := s.docs.set (k, uin) data })
    | .refused => (none, s)
    | .raised true => (some (.raised "call failed"), { s with docs := s.docs.set (k, uin) data })
    | .raised false => (some (.raised "call failed"), s)

/-- The body of the loop of `on_mod_save`: the error if it raises, and what it leaves. -/
def saveMod (answer : K → SetAnswer) (s : Saver K) (k : K) : Option LuaError × Saver K :=
  match s.backends.get k with
  | none => (none, s)
  | some m =>
    if m.saves then
      match m.data with
      | none => (some .assertion, s)
      | some data =>
        match LuaHash.hashcode data with
        | .error e => (some e, s)
        | .ok nhcode =>
          if s.hashcodes.get k = some nhcode then
            (none, { s with hashcodes := s.hashcodes.set k nhcode })
          else
            match s.callSave k m data (answer k) with
            | (none, s') => (none, { s' with hashcodes := s'.hashcodes.set k nhcode })
            | (some e, s') => (some e, s')
    else (none, s)

/-- `on_mod_save` when `pairs(_backends)` visits the mods in this order. -/
def onModSave (answer : K → SetAnswer) : List K → Saver K → Option LuaError × Saver K
  | [], s => (none, s)
  | k :: ks, s =>
    match s.saveMod answer k with
    | (none, s') => onModSave answer ks s'
    | (some e, s') => (some e, s')

/-- The document of the mod is stored. -/
def Stored (s : Saver K) (k : K) : Prop :=
  ∃ m data uin doc, s.backends.get k = some m ∧ m.data = some data ∧ m.uin = some uin ∧
    s.docs.get (k, uin) = some doc ∧ data.Same doc

/-! ## What a visit finds -/

/-- What `on_mod_save` finds when it gets to a mod: nothing to save; a document that is missing or that
cannot be hashed; one whose hash is the remembered one; one with another hash. -/
inductive Found where
  | nothing
  | bad (e : LuaError)
  | same (nhcode : BitVec 32)
  | changed (m : BackendMod) (data : LuaVal) (nhcode : BitVec 32)

def found (s : Saver K) (k : K) : Found :=
  match s.backends.get k with
  | none => .nothing
  | some m =>
    if m.saves then
      match m.data with
      | none => .bad .assertion
      | some data =>
        match LuaHash.hashcode data with
        | .error e => .bad e
        | .ok nhcode => if s.hashcodes.get k = some nhcode then .same nhcode else .changed m data nhcode
    else .nothing

/-- A visit is settled by what it finds. -/
theorem saveMod_found (answer : K → SetAnswer) (s : Saver K) (k : K) :
    s.saveMod answer k =
      match s.found k with
      | .nothing => (none, s)
      | .bad e => (some e, s)
      | .same nhcode => (none, { s with hashcodes := s.hashcodes.set k nhcode })
      | .changed m data nhcode =>
        match s.callSave k m data (answer k) with
        | (none, s') => (none, { s' with hashcodes := s'.hashcodes.set k nhcode })
        | (some e, s') => (some e, s') := by
  unfold saveMod found
  cases s.backends.get k with
  | none => rfl
  | some m =>
    dsimp only
    split
    · cases m.data with
      | none => rfl
      | some data =>
        dsimp only
        cases LuaHash.hashcode data with
        | error e => rfl
        | ok nhcode =>
          dsimp only
          split <;> rfl
    · rfl

/-- The mod is one of those `on_mod_save` is to save. -/
def Due (s : Saver K) (k : K) : Prop :=
  ∃ m, s.backends.get k = some m ∧ m.saves = true

/-- The visit of the mod raises. -/
def Raises (answer : K → SetAnswer) (s : Saver K) (k : K) : Prop :=
  match s.found k with
  | .nothing => False
  | .bad _ => True
  | .same _ => False
  | .changed m _ _ => m.uin = none ∨ ∃ written, answer k = .raised written

/-- The save of the mod fails: its visit raises, or the database refuses the document. -/
def Fails (answer : K → SetAnswer) (s : Saver K) (k : K) : Prop :=
  match s.found k with
  | .nothing => False
  | .bad _ => True
  | .same _ => False
  | .changed m _ _ => m.uin = none ∨ answer k ≠ .stored

theorem Raises.fails {answer : K → SetAnswer} {s : Saver K} {k : K} (h : s.Raises answer k) :
    s.Fails answer k := by
  unfold Raises at h
  unfold Fails
  split at h
  · exact h
  · trivial
  · exact h
  · refine h.imp_right ?_
    rintro ⟨written, hw⟩ hstored
    rw [hw] at hstored
    cases hstored

theorem due_found {s : Saver K} {k : K} : s.Due k ↔ s.found k ≠ .nothing := by
  unfold Due found
  cases s.backends.get k with
  | none => simp
  | some m =>
    simp only [Option.some.injEq, exists_eq_left']
    split
    · rename_i hsaves
      refine iff_of_true hsaves ?_
      split
      · simp
      · split
        · simp
        · split <;> simp
    · rename_i hsaves
      exact iff_of_false hsaves (by simp)

/-- Two states have the same for the mod `k`. -/
structure AgreeAt (s s' : Saver K) (k : K) : Prop where
  backends : s'.backends.get k = s.backends.get k
  hashcodes : s'.hashcodes.get k = s.hashcodes.get k
  docs : ∀ uin, s'.docs.get (k, uin) = s.docs.get (k, uin)

namespace AgreeAt

variable {s s' s'' : Saver K} {k : K}

theorem refl (s : Saver K) (k : K) : AgreeAt s s k := ⟨rfl, rfl, fun _ => rfl⟩

theorem trans (h : AgreeAt s s' k) (h' : AgreeAt s' s'' k) : AgreeAt s s'' k :=
  ⟨h'.backends.trans h.backends, h'.hashcodes.trans h.hashcodes,
    fun uin => (h'.docs uin).trans (h.docs uin)⟩

theorem found (h : AgreeAt s s' k) : s'.found k = s.found k := by
  unfold Saver.found
  rw [h.backends, h.hashcodes]

theorem raises (h : AgreeAt s s' k) (answer : K → SetAnswer) :
    s'.Raises answer k ↔ s.Raises answer k := by
  unfold Saver.Raises
  rw [h.found]

theorem stored (h : AgreeAt s s' k) : s'.Stored k ↔ s.Stored k := by
  unfold Saver.Stored
  simp only [h.backends, h.docs]

end AgreeAt

/-! ## One visit -/

section Visit

variable (answer : K → SetAnswer) (s : Saver K)

/-- A `save` writes at its own mod only. -/
theorem callSave_agree {j k : K} (hjk : j ≠ k) (m : BackendMod) (data : LuaVal) (a : SetAnswer) :
    AgreeAt s (s.callSave k m data a).2 j := by
  have hset : ∀ uin, AgreeAt s { s with docs := s.docs.set (k, uin) data } j := fun uin =>
    ⟨rfl, rfl, fun uin' => Table.get_set_ne _ _ fun he => hjk (congrArg Prod.fst he)⟩
  unfold callSave
  cases m.uin with
  | none => exact .refl s j
  | some uin =>
    rcases a with _ | _ | (_ | _)
    · exact hset uin
    · exact .refl s j
    · exact .refl s j
    · exact hset uin

theorem remember_agree {j k : K} (hjk : j ≠ k) (nhcode : BitVec 32) :
    AgreeAt s { s with hashcodes := s.hashcodes.set k nhcode } j :=
  ⟨rfl, Table.get_set_ne _ _ hjk, fun _ => rfl⟩

/-- A visit touches its own mod only. -/
theorem saveMod_agree {j k : K} (hjk : j ≠ k) : AgreeAt s (s.saveMod answer k).2 j := by
  rw [saveMod_found]
  split
  · exact .refl s j
  · exact .refl s j
  · exact remember_agree s hjk _
  · rename_i m data nhcode _
    have hcall := callSave_agree s hjk m data (answer k)
    split
    · rename_i s' hs'
      rw [hs'] at hcall
      exact hcall.trans (remember_agree s' hjk nhcode)
    · rename_i e s' hs'
      rw [hs'] at hcall
      exact hcall

/-- A visit raises exactly when it is said to. -/
theorem saveMod_raises (k : K) : (s.saveMod answer k).1 = none ↔ ¬ s.Raises answer k := by
  rw [saveMod_found]
  unfold Raises
  split
  · simp
  · simp
  · simp
  · rename_i m data nhcode _
    unfold callSave
    cases m.uin with
    | none => simp
    | some uin =>
      rcases answer k with _ | _ | (_ | _) <;> simp

/-- What a visit leaves for its mod: the document is stored if there was one to write and the database
took it; otherwise it is stored if it was. -/
theorem saveMod_stored {k : K} :
    (s.Due k → ¬ s.Fails answer k → (∀ nhcode, s.found k ≠ .same nhcode) →
      (s.saveMod answer k).2.Stored k) ∧
    (¬ s.Raises answer k → (s.Fails answer k ∨ ∃ nhcode, s.found k = .same nhcode) →
      ((s.saveMod answer k).2.Stored k ↔ s.Stored k)) := by
  rw [saveMod_found, due_found]
  unfold Raises Fails
  cases hfound : s.found k with
  | nothing => simp
  | bad e => simp
  | same nhcode => exact ⟨fun _ _ h => absurd rfl (h nhcode), fun _ _ => Iff.rfl⟩
  | changed m data nhcode =>
    simp only [not_or, not_not, reduceCtorEq, exists_false, or_false]
    obtain ⟨hm, hdata⟩ : s.backends.get k = some m ∧ m.data = some data := by
      unfold found at hfound
      split at hfound
      · cases hfound
      · split at hfound
        · split at hfound
          · cases hfound
          · split at hfound
            · cases hfound
            · split at hfound
              · cases hfound
              · cases hfound
                exact ⟨‹_›, ‹_›⟩
        · cases hfound
    unfold callSave
    cases huin : m.uin with
    | none => simp
    | some uin =>
      constructor
      · rintro - ⟨-, hanswer⟩ -
        rw [hanswer]
        exact ⟨m, data, uin, data, hm, hdata, huin, Table.get_set_self _ _ _, .refl data⟩
      · rintro ⟨-, hraised⟩ (hnone | hanswer)
        · cases hnone
        · cases ha : answer k with
          | stored => exact absurd ha hanswer
          | refused => exact Iff.rfl
          | raised written => exact absurd ⟨written, ha⟩ hraised

/-- A visit depends on its own mod only. -/
theorem saveMod_congr {s' : Saver K} {k : K} (h : AgreeAt s s' k) :
    AgreeAt (s.saveMod answer k).2 (s'.saveMod answer k).2 k := by
  rw [saveMod_found, saveMod_found, h.found]
  split
  · exact h
  · exact h
  · exact ⟨h.backends, by rw [Table.get_set_self, Table.get_set_self], h.docs⟩
  · rename_i m data nhcode _
    unfold callSave
    cases m.uin with
    | none => exact h
    | some uin =>
      have hset : ∀ uin', (s'.docs.set (k, uin) data).get (k, uin') =
          (s.docs.set (k, uin) data).get (k, uin') := fun uin' => by
        rw [Table.get_set, Table.get_set, h.docs]
      rcases answer k with _ | _ | (_ | _)
      · exact ⟨h.backends, by rw [Table.get_set_self, Table.get_set_self], hset⟩
      · exact ⟨h.backends, by rw [Table.get_set_self, Table.get_set_self], h.docs⟩
      · exact h
      · exact ⟨h.backends, h.hashcodes, hset⟩

end Visit

/-! ## One call -/

section Call

variable (answer : K → SetAnswer)

/-- A loop over two lists is the loop over the second after one over the first that returned. -/
theorem onModSave_append (before rest : List K) (s : Saver K) :
    onModSave answer (before ++ rest) s =
      match onModSave answer before s with
      | (none, s') => onModSave answer rest s'
      | (some e, s') => (some e, s') := by
  induction before generalizing s with
  | nil => rfl
  | cons j js ih =>
    simp only [List.cons_append, onModSave]
    split
    · exact ih _
    · rfl

/-- The loop touches the mods it visits only. -/
theorem onModSave_agree {k : K} {order : List K} (hk : k ∉ order) (s : Saver K) :
    AgreeAt s (onModSave answer order s).2 k := by
  induction order generalizing s with
  | nil => exact .refl s k
  | cons j js ih =>
    obtain ⟨hkj, hkjs⟩ := not_or.mp fun h => hk (List.mem_cons.mpr h)
    have hvisit := saveMod_agree answer s hkj
    unfold onModSave
    split
    · rename_i s' hs'
      rw [hs'] at hvisit
      exact hvisit.trans (ih hkjs s')
    · rename_i e s' hs'
      rw [hs'] at hvisit
      exact hvisit

/-- The loop returns exactly when no visit is one that raises, as things stand when it begins. -/
theorem onModSave_raises {order : List K} (horder : order.Nodup) (s : Saver K) :
    (onModSave answer order s).1 = none ↔ ∀ k ∈ order, ¬ s.Raises answer k := by
  induction order generalizing s with
  | nil => simp [onModSave]
  | cons j js ih =>
    obtain ⟨hj, hjs⟩ := List.nodup_cons.mp horder
    have hraises := saveMod_raises answer s j
    have hagree : ∀ k ∈ js, AgreeAt s (s.saveMod answer j).2 k := fun k hk =>
      saveMod_agree answer s fun he => hj (he ▸ hk)
    rw [List.forall_mem_cons]
    unfold onModSave
    split
    · rename_i s' hs'
      rw [hs'] at hraises hagree
      rw [ih hjs s']
      have hrest : (∀ k ∈ js, ¬ s'.Raises answer k) ↔ ∀ k ∈ js, ¬ s.Raises answer k :=
        forall₂_congr fun k hk => ((hagree k hk).raises answer).not
      rw [hrest]
      exact (and_iff_right (hraises.mp rfl)).symm
    · rename_i e s' hs'
      rw [hs'] at hraises
      refine iff_of_false (by simp) fun h => ?_
      have := hraises.mpr h.1
      cases this

/-- What the loop leaves for a mod when no visit before its own raises: what the visit leaves. -/
theorem onModSave_visited {before rest : List K} {k : K} (horder : (before ++ k :: rest).Nodup)
    {s : Saver K} (hbefore : ∀ j ∈ before, ¬ s.Raises answer j) :
    (onModSave answer (before ++ k :: rest) s).2.Stored k ↔ (s.saveMod answer k).2.Stored k := by
  obtain ⟨hnodup, hkrest, hdisjoint⟩ := List.nodup_append.mp horder
  have hk : k ∉ before := fun hmem => hdisjoint k hmem k List.mem_cons_self rfl
  have hret := (onModSave_raises answer hnodup s).mpr hbefore
  have hagree := onModSave_agree answer hk s
  rw [onModSave_append]
  split
  · rename_i s' hs'
    rw [hs'] at hagree
    have hvisit := saveMod_congr answer s hagree
    unfold onModSave
    split
    · rename_i s'' hs''
      rw [hs''] at hvisit
      have hafter := onModSave_agree answer (List.nodup_cons.mp hkrest).1 s''
      exact (hvisit.trans hafter).stored
    · rename_i e s'' hs''
      rw [hs''] at hvisit
      exact hvisit.stored
  · rename_i e s' hs'
    rw [hs'] at hret
    cases hret

/-- The loop does not get to a mod behind one whose visit raises. -/
theorem onModSave_unvisited {before rest : List K} {k : K} (horder : (before ++ k :: rest).Nodup)
    {s : Saver K} (hbefore : ∃ j ∈ before, s.Raises answer j) :
    (onModSave answer (before ++ k :: rest) s).2.Stored k ↔ s.Stored k := by
  obtain ⟨hnodup, hkrest, hdisjoint⟩ := List.nodup_append.mp horder
  have hk : k ∉ before := fun hmem => hdisjoint k hmem k List.mem_cons_self rfl
  have hret := onModSave_raises answer hnodup s
  have hagree := onModSave_agree answer hk s
  rw [onModSave_append]
  split
  · rename_i s' hs'
    rw [hs'] at hret
    obtain ⟨j, hj, hraises⟩ := hbefore
    exact absurd hraises (hret.mp rfl j hj)
  · rename_i e s' hs'
    rw [hs'] at hagree
    exact hagree.stored

variable (s : Saver K) (order : List K)

/-- A call does what it is for. When it returns, every document is stored; and whether or not it
returns, the document of every mod whose own save does not fail is. -/
structure Detects : Prop where
  returned : (onModSave answer order s).1 = none →
    ∀ k, s.Due k → (onModSave answer order s).2.Stored k
  others : ∀ k, s.Due k → ¬ s.Fails answer k → (onModSave answer order s).2.Stored k

/-- A call sees every change. A document whose hash is the remembered one is stored already; so is one
that the database refuses, unless the call raises; and no visit raises before that of a mod whose
document is still to be stored. -/
structure SeesAll : Prop where
  same : ∀ k nhcode, s.found k = .same nhcode → s.Stored k
  refused : (∀ k, ¬ s.Raises answer k) → ∀ k, s.Fails answer k → s.Stored k
  reached : ∀ before k rest, order = before ++ k :: rest → s.Due k → ¬ s.Fails answer k →
    ¬ s.Stored k → ∀ j ∈ before, ¬ s.Raises answer j

variable {answer s order}

theorem Fails.due {k : K} (h : s.Fails answer k) : s.Due k := by
  rw [due_found]
  intro hnothing
  unfold Fails at h
  rw [hnothing] at h
  exact h

theorem found_same_due {k : K} {nhcode : BitVec 32} (h : s.found k = .same nhcode) :
    s.Due k ∧ ¬ s.Fails answer k := by
  rw [due_found]
  unfold Fails
  rw [h]
  exact ⟨by simp, id⟩

/-- A call does what it is for exactly when it sees every change. -/
theorem detects_iff (horder : order.Nodup) (hall : ∀ k, s.Due k → k ∈ order) :
    s.Detects answer order ↔ s.SeesAll answer order := by
  have hraises := onModSave_raises answer horder s
  constructor
  · intro h
    refine ⟨fun k nhcode hsame => ?_, fun hnone k hfails => ?_, ?_⟩
    · have hfound : s.Due k ∧ ¬ s.Fails answer k := found_same_due hsame
      obtain ⟨hdue, hok⟩ := hfound
      have hstored := h.others k hdue hok
      obtain ⟨before, rest, rfl⟩ := List.append_of_mem (hall k hdue)
      by_cases hbefore : ∀ j ∈ before, ¬ s.Raises answer j
      · rw [onModSave_visited answer horder hbefore] at hstored
        exact ((saveMod_stored answer s).2 (fun hr => hok hr.fails) (.inr ⟨nhcode, hsame⟩)).mp hstored
      · push Not at hbefore
        exact (onModSave_unvisited answer horder hbefore).mp hstored
    · have hstored := h.returned (hraises.mpr fun j _ => hnone j) k hfails.due
      obtain ⟨before, rest, rfl⟩ := List.append_of_mem (hall k hfails.due)
      rw [onModSave_visited answer horder fun j _ => hnone j] at hstored
      exact ((saveMod_stored answer s).2 (hnone k) (.inl hfails)).mp hstored
    · rintro before k rest rfl hdue hok hlacks j hj hraise
      have hstored := h.others k hdue hok
      exact hlacks ((onModSave_unvisited answer horder ⟨j, hj, hraise⟩).mp hstored)
  · intro h
    -- a mod whose save does not fail
    have hothers : ∀ k, s.Due k → ¬ s.Fails answer k →
        (onModSave answer order s).2.Stored k := by
      intro k hdue hok
      obtain ⟨before, rest, horder'⟩ := List.append_of_mem (hall k hdue)
      have hnodup := horder' ▸ horder
      rw [horder']
      by_cases hbefore : ∀ j ∈ before, ¬ s.Raises answer j
      · rw [onModSave_visited answer hnodup hbefore]
        by_cases hsame : ∃ nhcode, s.found k = .same nhcode
        · obtain ⟨nhcode, hsame'⟩ := hsame
          exact ((saveMod_stored answer s).2 (fun hr => hok hr.fails)
            (.inr ⟨nhcode, hsame'⟩)).mpr (h.same k nhcode hsame')
        · push Not at hsame
          exact (saveMod_stored answer s).1 hdue hok hsame
      · have hstored : s.Stored k := by
          by_contra hlacks
          exact hbefore (h.reached before k rest horder' hdue hok hlacks)
        push Not at hbefore
        exact (onModSave_unvisited answer hnodup hbefore).mpr hstored
    refine ⟨fun hret k hdue => ?_, hothers⟩
    have hnone : ∀ j, ¬ s.Raises answer j := fun j hj =>
      hraises.mp hret j (hall j hj.fails.due) hj
    by_cases hfails : s.Fails answer k
    · obtain ⟨before, rest, horder'⟩ := List.append_of_mem (hall k hdue)
      have hnodup := horder' ▸ horder
      rw [horder', onModSave_visited answer hnodup fun j _ => hnone j]
      exact ((saveMod_stored answer s).2 (hnone k) (.inl hfails)).mpr (h.refused hnone k hfails)
    · exact hothers k hdue hfails

/-- The test cannot tell 1 coin from 2³²: a change from one to the other is not saved. -/
example : LuaHash.hashcode (.table (.entry (.str (.ofText "coin")) (.int 1) .empty)) =
    LuaHash.hashcode (.table (.entry (.str (.ofText "coin")) (.int 4294967296) .empty)) := by decide

end Call

/-! ## The mods of the repository -/

/-- An agent with the mods of `M.reg_mods`. -/
def ofWorld (w : World) : Saver ModName where
  backends := w.backends.filterMap fun _ self =>
    some { saves := true, uin := self.profile.map Role.uin, data := self.data }
  hashcodes := w.hashcodes
  docs := w.db.mods

/-- The error of an execution that raised. -/
def errorOf {α : Type} : EStateM.Result LuaError World α → Option LuaError
  | .ok _ _ => none
  | .error e _ => some e

/-- The visit of a mod of the repository, whose database takes every document, is the visit here. -/
theorem saveMod_ofWorld (k : ModName) (w : World) :
    (ofWorld w).saveMod (fun _ => .stored) k =
      (errorOf (Agent.saveMod k w), ofWorld (after (Agent.saveMod k w))) := by
  rw [saveMod_run]
  unfold saveMod
  have hget : (ofWorld w).backends.get k = (w.backends.get k).map fun self =>
      { saves := true, uin := self.profile.map Role.uin, data := self.data } := by
    simp only [ofWorld, Table.get_filterMap, Option.map_eq_bind]
    rfl
  rw [hget]
  cases w.backends.get k with
  | none => rfl
  | some self =>
    simp only [Option.map_some, if_true]
    cases self.data with
    | none => rfl
    | some data =>
      dsimp only
      cases LuaHash.hashcode data with
      | error e => rfl
      | ok nhcode =>
        dsimp only
        by_cases hseen : w.hashcodes.get k = some nhcode
        · rw [if_pos hseen, if_pos (show (ofWorld w).hashcodes.get k = some nhcode from hseen)]
          rfl
        · rw [if_neg hseen, if_neg (show ¬ (ofWorld w).hashcodes.get k = some nhcode from hseen)]
          unfold callSave Backend.save
          cases self.profile <;> rfl

/-- So is the call. -/
theorem onModSave_ofWorld (ks : List ModName) (w : World) :
    onModSave (fun _ => .stored) ks (ofWorld w) =
      (errorOf (forPairs Agent.saveMod ks w), ofWorld (after (forPairs Agent.saveMod ks w))) := by
  induction ks generalizing w with
  | nil => rfl
  | cons k ks ih =>
    unfold onModSave
    rw [saveMod_ofWorld]
    show _ = (errorOf (EStateM.bind (Agent.saveMod k) _ w), ofWorld (after (EStateM.bind _ _ w)))
    unfold EStateM.bind
    cases Agent.saveMod k w with
    | ok _ w' => exact ih w'
    | error e w' => rfl

/-! ## The histories of an agent -/

/-- The steps of a history: a mod is registered under a name, in place of the one of the user before;
its document is loaded or changed; another service stores or removes a document; `on_mod_save` is
called. What other coroutines change while a call waits for the database belongs before or after it,
since a visit reads its own mod only. -/
inductive SaverOp (K : Type*) where
  | register (k : K) (m : BackendMod)
  | change (k : K) (data : Option LuaVal)
  | elsewhere (k : K) (uin : String) (doc : Option LuaVal)
  | onModSave (order : List K) (answer : K → SetAnswer)

/-- One step. `pairs` visits every mod once. -/
def step (s : Saver K) : SaverOp K → Option (Saver K)
  | .register k m => some { s with backends := s.backends.set k m }
  | .change k data => some { s with backends := s.backends.modify k fun m => { m with data := data } }
  | .elsewhere k uin none => some { s with docs := s.docs.del (k, uin) }
  | .elsewhere k uin (some doc) => some { s with docs := s.docs.set (k, uin) doc }
  | .onModSave order answer =>
    if order.Perm s.backends.keys then some (onModSave answer order s).2 else none

/-- The agent as it is made, over collections of any content. -/
def fresh (docs : Table (K × String) LuaVal) : Saver K where
  backends := Table.empty
  hashcodes := Table.empty
  docs := docs

/-- The histories of an agent. -/
def saving (K : Type*) [DecidableEq K] : Lib.Machine (Saver K) (SaverOp K) where
  start s := ∃ docs, s = fresh docs
  step := step

/-- In every history, the calls of `on_mod_save` all do what they are for exactly when each of them
sees every change. -/
theorem detects_run_iff (docs : Table (K × String) LuaVal) (as : List (SaverOp K)) :
    (∀ before order answer s s', before ++ [SaverOp.onModSave order answer] <+: as →
        (saving K).exec (fresh docs) before = some s → s.step (.onModSave order answer) = some s' →
        s.Detects answer order) ↔
      ∀ before order answer s s', before ++ [SaverOp.onModSave order answer] <+: as →
        (saving K).exec (fresh docs) before = some s → s.step (.onModSave order answer) = some s' →
        s.SeesAll answer order := by
  have hcall : ∀ {order answer} {s s' : Saver K}, s.step (.onModSave order answer) = some s' →
      (s.Detects answer order ↔ s.SeesAll answer order) := by
    intro order answer s s' hstep
    change (if order.Perm s.backends.keys then _ else _) = _ at hstep
    split at hstep
    · rename_i hperm
      refine detects_iff (hperm.nodup_iff.mpr (Table.keys_nodup _)) fun k hdue => ?_
      obtain ⟨m, hm, -⟩ := hdue
      rw [hperm.mem_iff, Table.mem_keys, hm]
      rfl
    · cases hstep
  constructor
  · intro h before order answer s s' hpre hs hstep
    exact (hcall hstep).mp (h before order answer s s' hpre hs hstep)
  · intro h before order answer s s' hpre hs hstep
    exact (hcall hstep).mpr (h before order answer s s' hpre hs hstep)

/-- The property document of a new user, whose first save the database refuses. -/
def refusedOnce : List (SaverOp ModName) :=
  [.register .property ⟨true, some "10", some (.table .empty)⟩,
    .onModSave [.property] fun _ => .refused]

/-- The second save is not made, although the database would take it. -/
theorem not_detects_refused : ∃ s s', (saving ModName).exec (fresh Table.empty) refusedOnce = some s ∧
    s.step (.onModSave [.property] fun _ => .stored) = some s' ∧
    ¬ s.Detects (fun _ => .stored) [.property] := by
  have hrun : ∃ s ∈ (saving ModName).exec (fresh Table.empty) refusedOnce,
      (∃ s' ∈ s.step (.onModSave [.property] fun _ => .stored), s'.docs.get (.property, "10") = none) ∧
      (onModSave (fun _ => .stored) [.property] s).1 = none ∧
      s.backends.get .property = some ⟨true, some "10", some (.table .empty)⟩ ∧
      (onModSave (fun _ => .stored) [.property] s).2.backends.get .property =
        some ⟨true, some "10", some (.table .empty)⟩ ∧
      (onModSave (fun _ => .stored) [.property] s).2.docs.get (.property, "10") = none := by
    decide +kernel
  obtain ⟨s, hs, ⟨s', hs', -⟩, hret, hm, hm', hnone⟩ := hrun
  refine ⟨s, s', hs, hs', fun h => ?_⟩
  obtain ⟨m, data, uin, doc, hm₁, hdata, huin, hdoc, -⟩ := h.returned hret .property ⟨_, hm, rfl⟩
  rw [hm'] at hm₁
  obtain rfl := Option.some.inj hm₁
  obtain rfl := Option.some.inj huin
  rw [hnone] at hdoc
  cases hdoc

end Saver

end AntServer.Agent
