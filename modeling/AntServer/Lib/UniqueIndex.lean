/-
# AntServer.Lib.UniqueIndex — an index with one object under each key

Objects have keys, and an index gives the object of a key. An object that gets a key is put under it, which
must be free, and it is taken out when it loses the key. The index is *complete* when every object with a
key is under it, and *sound* when every object is under its own key only.

An object whose key changes is put under the new one and stays under the old one. Such an index is complete
and never sound again: no later change takes away what is under the old key (`Change.not_sound`), as it is
under the key of no object, and the key is not free.

Nothing here names the modelled system.
-/
import Mathlib.Logic.Function.Basic
import Mathlib.Logic.Relation

namespace AntServer.Lib.UniqueIndex

variable {O K : Type*}

/-- The keys of the objects, and the index. -/
@[ext]
structure State (O K : Type*) where
  key : O → Option K
  index : K → Option O

/-- Every object with a key is under it. -/
def State.Complete (s : State O K) : Prop := ∀ o k, s.key o = some k → s.index k = some o

/-- Every object is under its own key only. -/
def State.Sound (s : State O K) : Prop := ∀ k o, s.index k = some o → s.key o = some k

/-- What is under a key that is not free is not under a free one. -/
theorem State.ne_of_free {s : State O K} {k k' : K} {o : O} (hk : s.index k = none)
    (hk' : s.index k' = some o) : k' ≠ k := by
  rintro rfl
  rw [hk] at hk'
  cases hk'

variable [DecidableEq O] [DecidableEq K]

/-- An object is put under a free key. -/
def State.put (s : State O K) (o : O) (k : K) : State O K :=
  ⟨Function.update s.key o (some k), Function.update s.index k (some o)⟩

/-- An object loses its key. -/
def State.take (s : State O K) (o : O) (k : K) : State O K :=
  ⟨Function.update s.key o none, Function.update s.index k none⟩

variable {s s' : State O K} {b : Bool}

theorem key_put (s : State O K) (o o' : O) (k : K) :
    (s.put o k).key o' = if o' = o then some k else s.key o' := Function.update_apply ..

theorem index_put (s : State O K) (o : O) (k k' : K) :
    (s.put o k).index k' = if k' = k then some o else s.index k' := Function.update_apply ..

theorem key_take (s : State O K) (o o' : O) (k : K) :
    (s.take o k).key o' = if o' = o then none else s.key o' := Function.update_apply ..

theorem index_take (s : State O K) (o : O) (k k' : K) :
    (s.take o k).index k' = if k' = k then none else s.index k' := Function.update_apply ..

/-- One change; the first argument says whether a key was changed. -/
inductive Change : Bool → State O K → State O K → Prop
  | put {s : State O K} {o : O} {k : K} (ho : s.key o = none) (hk : s.index k = none) :
      Change false s (s.put o k)
  | take {s : State O K} {o : O} {k : K} (ho : s.key o = some k) : Change false s (s.take o k)
  | rekey {s : State O K} {o : O} {old k : K} (ho : s.key o = some old) (hk : s.index k = none) :
      Change true s (s.put o k)

/-! ## Completeness -/

theorem State.Complete.put {o : O} {k : K} (h : s.Complete) (hk : s.index k = none) :
    (s.put o k).Complete := by
  intro o' k' hkey
  rw [key_put] at hkey
  rw [index_put]
  split at hkey
  · rename_i ho
    rw [if_pos (Option.some.inj hkey).symm, ho]
  · have hold := h o' k' hkey
    rw [if_neg (State.ne_of_free hk hold), hold]

theorem State.Complete.take {o : O} {k : K} (h : s.Complete) (ho : s.key o = some k) :
    (s.take o k).Complete := by
  intro o' k' hkey
  rw [key_take] at hkey
  rw [index_take]
  split at hkey
  · cases hkey
  · rename_i hne
    have hold := h o' k' hkey
    have hne' : k' ≠ k := by
      rintro rfl
      exact hne (Option.some.inj (hold.symm.trans (h o k' ho)))
    rw [if_neg hne', hold]

theorem Change.complete (h : s.Complete) (hc : Change b s s') : s'.Complete := by
  cases hc with
  | put ho hk => exact h.put hk
  | take ho => exact h.take ho
  | rekey ho hk => exact h.put hk

/-! ## Soundness -/

/-- As long as no key is changed, the index stays sound. -/
theorem Change.sound (h : s.Sound) (hc : Change false s s') : s'.Sound := by
  cases hc with
  | @put _ o k ho hk =>
    intro k' o' hindex
    rw [index_put] at hindex
    rw [key_put]
    split at hindex
    · rename_i heq
      rw [if_pos (Option.some.inj hindex).symm, heq]
    · have hold := h k' o' hindex
      rw [if_neg, hold]
      rintro rfl
      rw [ho] at hold
      cases hold
  | @take _ o k ho =>
    intro k' o' hindex
    rw [index_take] at hindex
    rw [key_take]
    split at hindex
    · cases hindex
    · rename_i hne
      have hold := h k' o' hindex
      rw [if_neg, hold]
      rintro rfl
      exact hne (Option.some.inj (hold.symm.trans ho))

/-- A changed key makes the index unsound: the object is under both. -/
theorem Change.not_sound_of_rekey (h : s.Complete) (hc : Change true s s') : ¬ s'.Sound := by
  cases hc with
  | @rekey _ o old k ho hk =>
    intro hsound
    have hold := h o old ho
    have hne := State.ne_of_free hk hold
    have hkey := hsound old o (by rw [index_put, if_neg hne, hold])
    rw [key_put, if_pos rfl] at hkey
    exact hne (Option.some.inj hkey).symm

theorem not_sound_put {o : O} {k : K} (h : ¬ s.Sound) (hk : s.index k = none) : ¬ (s.put o k).Sound := by
  intro hsound
  refine h fun k' o' hindex => ?_
  have hne := State.ne_of_free hk hindex
  have hkey := hsound k' o' (by rw [index_put, if_neg hne, hindex])
  rw [key_put] at hkey
  split at hkey
  · exact absurd (Option.some.inj hkey).symm hne
  · exact hkey

theorem not_sound_take {o : O} {k : K} (hcomplete : s.Complete) (ho : s.key o = some k) (h : ¬ s.Sound) :
    ¬ (s.take o k).Sound := by
  intro hsound
  refine h fun k' o' hindex => ?_
  by_cases hk : k' = k
  · -- under the key of the object there is this object
    subst hk
    rw [← Option.some.inj ((hcomplete o k' ho).symm.trans hindex)]
    exact ho
  · have hkey := hsound k' o' (by rw [index_take, if_neg hk, hindex])
    rw [key_take] at hkey
    split at hkey
    · cases hkey
    · exact hkey

/-- An index that is not sound stays so. -/
theorem Change.not_sound (hcomplete : s.Complete) (h : ¬ s.Sound) (hc : Change b s s') : ¬ s'.Sound := by
  cases hc with
  | put ho hk => exact not_sound_put h hk
  | take ho => exact not_sound_take hcomplete ho h
  | rekey ho hk => exact not_sound_put h hk

/-- Whatever comes and goes, as long as no key is changed: the index is sound afterwards if and only if it
was. -/
theorem sound_iff_of_run (hrun : Relation.ReflTransGen (Change false) s s') (h : s.Complete) :
    s'.Complete ∧ (s'.Sound ↔ s.Sound) := by
  induction hrun with
  | refl => exact ⟨h, Iff.rfl⟩
  | tail _ hstep ih =>
    obtain ⟨hcomplete, hsound⟩ := ih
    refine ⟨hstep.complete hcomplete, fun hs => hsound.mp ?_, fun hs => hstep.sound (hsound.mpr hs)⟩
    by_contra hnot
    exact hstep.not_sound hcomplete hnot hs

end AntServer.Lib.UniqueIndex
