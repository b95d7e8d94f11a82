/-
# AntServer.SkynetApi.Watchers — what the watchers of a bindable table can count on

The invariant that carries the specification of `SkynetDataBinding` through a run (`Inv`): the lists
hold the live watchers at their tags and nothing else, and every loop under way has called what it was
to call below the tag it has come to (`LoopOk`). An unwatch clears a tag without looking whose it is,
and the function of `watchonce` unwatches its tag only when the callback has returned. So the invariant
needs the steps to be `orderly`: no loop comes to a callback of `watchonce` that is under way, and no
unwatch finds the function of another watcher at its tag.
-/
import Mathlib.Data.List.Basic
import AntServer.SkynetApi.SkynetDataBinding

namespace AntServer.SkynetApi

open Lib (Table Machine)

variable {K V : Type}

/-! ## The log -/

section Log

variable {log : List (Event K V)} {e : Event K V} {w : Nat} {watcher : Watcher K}

theorem live_iff : Live log w watcher ↔
    .watched w watcher ∈ log ∧ .unwatched w ∉ log ∧ (watcher.once = true → .returned w ∉ log) := by
  constructor
  · intro h
    exact ⟨h.watched, h.unwatched, h.once⟩
  · rintro ⟨hwatched, hunwatched, honce⟩
    exact ⟨hwatched, hunwatched, honce⟩

/-- An event that is not about the life of a watcher. -/
def Event.Inert : Event K V → Prop
  | .begun _ _ _ _ => True
  | .called _ _ _ _ => True
  | .ended _ => True
  | _ => False

/-- An event that ends the life of a watcher, or may. -/
def Event.Parting : Event K V → Prop
  | .unwatched _ => True
  | .returned _ => True
  | _ => False

theorem live_inert (h : e.Inert) : Live (e :: log) w watcher ↔ Live log w watcher := by
  rw [live_iff, live_iff]
  cases e with
  | begun => simp
  | called => simp
  | ended => simp
  | watched => cases h
  | unwatched => cases h
  | returned => cases h

/-- A new watcher is live, and changes nothing about the others. -/
theorem live_watched {w₀ : Nat} {watcher₀ : Watcher K} (hunwatched : .unwatched w₀ ∉ log)
    (hreturned : .returned w₀ ∉ log) : Live (.watched w₀ watcher₀ :: log) w watcher ↔
      Live log w watcher ∨ w = w₀ ∧ watcher = watcher₀ := by
  rw [live_iff, live_iff]
  constructor
  · rintro ⟨hmem, hun, honce⟩
    obtain heq | hmem := List.mem_cons.mp hmem
    · cases heq
      exact .inr ⟨rfl, rfl⟩
    · exact .inl ⟨hmem, fun h => hun (List.mem_cons_of_mem _ h),
        fun h h' => honce h (List.mem_cons_of_mem _ h')⟩
  · rintro (⟨hmem, hun, honce⟩ | ⟨rfl, rfl⟩)
    · exact ⟨List.mem_cons_of_mem _ hmem, by simpa using hun, fun h => by simpa using honce h⟩
    · exact ⟨List.mem_cons_self, by simpa using hunwatched, fun _ => by simpa using hreturned⟩

theorem live_unwatched {w₀ : Nat} :
    Live (.unwatched w₀ :: log) w watcher ↔ Live log w watcher ∧ w ≠ w₀ := by
  rw [live_iff, live_iff]
  simp only [List.mem_cons, reduceCtorEq, false_or, Event.unwatched.injEq, not_or]
  tauto

theorem live_returned {w₀ : Nat} :
    Live (.returned w₀ :: log) w watcher ↔
      Live log w watcher ∧ (watcher.once = true → w ≠ w₀) := by
  rw [live_iff, live_iff]
  simp only [List.mem_cons, reduceCtorEq, false_or, Event.returned.injEq, not_or]
  tauto

theorem Met.cons {a : Nat} {new old : Option V} (h : Met log a w watcher new old) :
    Met (e :: log) a w watcher new old := by
  unfold Met at h ⊢
  split at h
  · obtain ⟨a', n, o, hcalled⟩ := h
    rename_i honce
    rw [if_pos honce]
    exact ⟨a', n, o, List.mem_cons_of_mem _ hcalled⟩
  · rename_i honce
    rw [if_neg honce]
    exact List.mem_cons_of_mem _ h

variable [DecidableEq K] [BEq V]

/-- An event of a sound log was right when it happened. -/
theorem Sound.right (h : Sound log) (he : e ∈ log) : ∃ past, past <:+ log ∧ Right past e := by
  induction log with
  | nil => cases he
  | cons e' log ih =>
    obtain rfl | he := List.mem_cons.mp he
    · exact ⟨log, List.suffix_cons _ _, h.1⟩
    · obtain ⟨past, hpast, hright⟩ := ih h.2 he
      exact ⟨past, hpast.trans (List.suffix_cons _ _), hright⟩

theorem Sound.watched_of_called (h : Sound log) {a : Nat} {n o : Option V}
    (he : .called a w n o ∈ log) : ∃ watcher, .watched w watcher ∈ log := by
  obtain ⟨past, hpast, watcher, hwatched, -⟩ := h.right he
  exact ⟨watcher, hpast.subset hwatched⟩

theorem Sound.watched_of_unwatched (h : Sound log) (he : .unwatched w ∈ log) :
    ∃ watcher, .watched w watcher ∈ log := by
  obtain ⟨past, hpast, ⟨watcher, hwatched⟩, -⟩ := h.right he
  exact ⟨watcher, hpast.subset hwatched⟩

theorem Sound.called_of_returned (h : Sound log) (he : .returned w ∈ log) :
    ∃ a n o, .called a w n o ∈ log := by
  obtain ⟨past, hpast, a, n, o, hcalled⟩ := h.right he
  exact ⟨a, n, o, hpast.subset hcalled⟩

/-- A number that no watcher has yet is that of no event. -/
theorem Sound.unused (h : Sound log) (hw : ∀ watcher, .watched w watcher ∉ log) :
    (∀ a n o, .called a w n o ∉ log) ∧ .unwatched w ∉ log ∧ .returned w ∉ log := by
  have hcalled : ∀ a n o, .called a w n o ∉ log := by
    intro a n o he
    obtain ⟨watcher, hwatched⟩ := h.watched_of_called he
    exact hw watcher hwatched
  refine ⟨hcalled, ?_, ?_⟩
  · intro he
    obtain ⟨watcher, hwatched⟩ := h.watched_of_unwatched he
    exact hw watcher hwatched
  · intro he
    obtain ⟨a, n, o, he⟩ := h.called_of_returned he
    exact hcalled a n o he

end Log

/-! ## A loop under way -/

/-- The loop of the assignment `a` has come to the tag `i`. -/
structure LoopOk (log : List (Event K V)) (a : Nat) (key : K) (i maxn : Nat) (new old : Option V) :
    Prop where
  begun : .begun a key new old ∈ log
  only : ∀ key' new' old', .begun a key' new' old' ∈ log → key' = key ∧ new' = new ∧ old' = old
  called : ∀ w watcher n o, .called a w n o ∈ log → .watched w watcher ∈ log → watcher.tag < i
  bound : ∀ before, (.begun a key new old :: before) <:+ log → ∀ w watcher,
    .watched w watcher ∈ before → watcher.key = key → watcher.tag ≤ maxn
  met : ∀ before, (.begun a key new old :: before) <:+ log → ∀ w watcher,
    .watched w watcher ∈ before → watcher.key = key → watcher.tag < i → .unwatched w ∉ log →
      Met log a w watcher new old

section LoopOk

variable {log : List (Event K V)} {e : Event K V} {a i maxn : Nat} {key : K} {new old : Option V}

/-- The event is not one of the assignment `a`, and no watcher that it has called starts with it. -/
def Event.Apart (log : List (Event K V)) (a : Nat) : Event K V → Prop
  | .watched w _ => ∀ n o, .called a w n o ∉ log
  | .begun a' _ _ _ => a' ≠ a
  | .called a' _ _ _ => a' ≠ a
  | _ => True

/-- What happens while the loop waits. -/
theorem LoopOk.cons (h : LoopOk log a key i maxn new old) (he : e.Apart log a) :
    LoopOk (e :: log) a key i maxn new old := by
  have hbegun : ∀ key' new' old', .begun a key' new' old' ∈ e :: log →
      .begun a key' new' old' ∈ log := by
    intro key' new' old' hmem
    obtain rfl | hmem := List.mem_cons.mp hmem
    · exact absurd rfl he
    · exact hmem
  have hsuffix : ∀ {before}, (.begun a key new old :: before) <:+ e :: log →
      (.begun a key new old :: before) <:+ log := by
    intro before hs
    obtain heq | hs := List.suffix_cons_iff.mp hs
    · obtain rfl := (List.cons.inj heq).1
      exact absurd rfl he
    · exact hs
  refine ⟨List.mem_cons_of_mem _ h.begun, ?_, ?_, ?_, ?_⟩
  · intro key' new' old' hmem
    exact h.only key' new' old' (hbegun key' new' old' hmem)
  · intro w watcher n o hcall hwatch
    obtain rfl | hcall' := List.mem_cons.mp hcall
    · exact absurd rfl he
    obtain rfl | hwatch' := List.mem_cons.mp hwatch
    · exact absurd hcall' (he n o)
    · exact h.called w watcher n o hcall' hwatch'
  · intro before hs
    exact h.bound before (hsuffix hs)
  · intro before hs w watcher hwatch hkey htag hun
    have hun' : .unwatched w ∉ log := fun hmem => hun (List.mem_cons_of_mem _ hmem)
    exact (h.met before (hsuffix hs) w watcher hwatch hkey htag hun').cons

/-- A loop that begins: there is no tag below 1, and none in use above `maxn`. -/
theorem loopOk_begun (hnew : ∀ key' new' old', .begun a key' new' old' ∉ log)
    (hcalled : ∀ w n o, .called a w n o ∉ log)
    (htags : ∀ w watcher, .watched w watcher ∈ log → watcher.key = key →
      1 ≤ watcher.tag ∧ watcher.tag ≤ maxn) :
    LoopOk (.begun a key new old :: log) a key 1 maxn new old := by
  have hbefore : ∀ {before}, (.begun a key new old :: before) <:+ .begun a key new old :: log →
      before = log := by
    intro before hs
    obtain heq | hs := List.suffix_cons_iff.mp hs
    · exact (List.cons.inj heq).2
    · exact absurd (hs.subset List.mem_cons_self) (hnew key new old)
  refine ⟨List.mem_cons_self, ?_, ?_, ?_, ?_⟩
  · intro key' new' old' hmem
    obtain heq | hmem := List.mem_cons.mp hmem
    · cases heq
      exact ⟨rfl, rfl, rfl⟩
    · exact absurd hmem (hnew key' new' old')
  · intro w watcher n o hcall
    obtain heq | hcall := List.mem_cons.mp hcall
    · cases heq
    · exact absurd hcall (hcalled w n o)
  · intro before hs w watcher hwatch hkey
    rw [hbefore hs] at hwatch
    exact (htags w watcher hwatch hkey).2
  · intro before hs w watcher hwatch hkey htag
    rw [hbefore hs] at hwatch
    have := (htags w watcher hwatch hkey).1
    omega

/-- The loop goes past a tag where no function is: whoever has it was called before. -/
theorem LoopOk.skip (h : LoopOk log a key i maxn new old)
    (hmet : ∀ w watcher, .watched w watcher ∈ log → watcher.key = key → watcher.tag = i →
      .unwatched w ∉ log → Met log a w watcher new old) : LoopOk log a key (i + 1) maxn new old := by
  refine ⟨h.begun, h.only, ?_, h.bound, ?_⟩
  · intro w watcher n o hcall hwatch
    have := h.called w watcher n o hcall hwatch
    omega
  · intro before hs w watcher hwatch hkey htag hun
    by_cases hi : watcher.tag < i
    · exact h.met before hs w watcher hwatch hkey hi hun
    · have hlog := hs.subset (List.mem_cons_of_mem _ hwatch)
      exact hmet w watcher hlog hkey (by omega) hun

/-- The loop calls the function at its tag. -/
theorem LoopOk.call (h : LoopOk log a key i maxn new old) {w : Nat}
    (htag : ∀ watcher, .watched w watcher ∈ log → watcher.tag = i)
    (hmet : ∀ w' watcher, .watched w' watcher ∈ log → watcher.key = key → watcher.tag = i →
      .unwatched w' ∉ log → Met (.called a w new old :: log) a w' watcher new old) :
    LoopOk (.called a w new old :: log) a key (i + 1) maxn new old := by
  have hsuffix : ∀ {before}, (.begun a key new old :: before) <:+ .called a w new old :: log →
      (.begun a key new old :: before) <:+ log := by
    intro before hs
    obtain heq | hs := List.suffix_cons_iff.mp hs
    · cases heq
    · exact hs
  have hlog : ∀ {w' watcher}, .watched w' watcher ∈ .called a w new old :: log →
      .watched w' watcher ∈ log := by
    intro w' watcher hwatch
    obtain heq | hwatch := List.mem_cons.mp hwatch
    · cases heq
    · exact hwatch
  refine ⟨List.mem_cons_of_mem _ h.begun, ?_, ?_, fun before hs => h.bound before (hsuffix hs), ?_⟩
  · intro key' new' old' hmem
    obtain heq | hmem := List.mem_cons.mp hmem
    · cases heq
    · exact h.only key' new' old' hmem
  · intro w' watcher n o hcall hwatch
    obtain heq | hcall := List.mem_cons.mp hcall
    · cases heq
      have := htag watcher (hlog hwatch)
      omega
    · have := h.called w' watcher n o hcall (hlog hwatch)
      omega
  · intro before hs w' watcher hwatch hkey hlt hun
    have hun' : .unwatched w' ∉ log := fun hmem => hun (List.mem_cons_of_mem _ hmem)
    by_cases hi : watcher.tag < i
    · exact (h.met before (hsuffix hs) w' watcher hwatch hkey hi hun').cons
    · have hwatch' := (hsuffix hs).subset (List.mem_cons_of_mem _ hwatch)
      exact hmet w' watcher hwatch' hkey (by omega) hun'

end LoopOk

/-! ## The invariant -/

/-- The assignment whose loop the frame is. -/
def Frame.assignment : Frame K V → Option Nat
  | .loop a _ _ _ _ _ => some a
  | .call _ => none

namespace Bindable

variable [DecidableEq K]

/-- What holds after every orderly run. -/
structure Inv [BEq V] (s : Bindable K V) : Prop where
  sound : Sound s.log
  watchers : ∀ w watcher, s.watchers.get w = some watcher ↔ .watched w watcher ∈ s.log
  fresh : ∀ w watcher, .watched w watcher ∈ s.log → w < s.nextWatcher
  begun : ∀ a key new old, .begun a key new old ∈ s.log → a < s.nextAssignment
  values : ∀ key, s.values.get key = assigned key s.log
  slots : ∀ key i w, s.slot key i = some w ↔
    ∃ watcher, Live s.log w watcher ∧ watcher.key = key ∧ watcher.tag = i
  tags : ∀ w watcher, .watched w watcher ∈ s.log → (s.binds.get watcher.key).isSome ∧
    1 ≤ watcher.tag ∧ watcher.tag ≤ (s.maxns.get watcher.key).getD 0
  calls : ∀ a w n o, .called a w n o ∈ s.log → .call w ∈ s.stack ∨ .returned w ∈ s.log
  called : ∀ w, .call w ∈ s.stack → ∃ a n o, .called a w n o ∈ s.log
  loops : ∀ a key i maxn new old, .loop a key i maxn new old ∈ s.stack →
    LoopOk s.log a key i maxn new old
  ids : (s.stack.filterMap Frame.assignment).Nodup

variable {s t : Bindable K V} {key : K} {func tag border w : Nat} {watcher : Watcher K}

/-! ## The lists -/

/-- What `watch` does: the tag is free, and only its place changes. -/
structure WatchStep (s t : Bindable K V) (key : K) (func tag : Nat) : Prop where
  pos : 1 ≤ tag
  free : s.slot key tag = none
  slot : ∀ key' i, t.slot key' i = if key' = key ∧ i = tag then some func else s.slot key' i
  binds : ∀ key', (t.binds.get key').isSome ↔ (s.binds.get key').isSome ∨ key' = key
  maxns : ∀ key', (s.binds.get key').isSome →
    (s.maxns.get key').getD 0 ≤ (t.maxns.get key').getD 0
  le : tag ≤ (t.maxns.get key).getD 0
  rest : t = { s with binds := t.binds, maxns := t.maxns }

theorem get_bind (s : Bindable K V) (key : K) (i : Nat) :
    ((s.binds.get key).getD .empty).get i = s.slot key i := by
  unfold slot
  cases s.binds.get key with
  | none => exact Table.get_empty i
  | some bind => rfl

/-- `watch` takes the place behind a border, whichever it is. -/
theorem watch_step (h : s.watch key func border = some (tag, t)) : WatchStep s t key func tag := by
  unfold Bindable.watch at h
  dsimp only at h
  split at h
  · rename_i hborder
    cases h
    have hfree := hborder.2
    rw [get_bind] at hfree
    refine ⟨by omega, hfree, ?_, ?_, ?_, ?_, rfl⟩
    · intro key' i
      by_cases hkey : key' = key
      · subst hkey
        rw [← get_bind s]
        simp only [slot, Table.get_set_self, Option.bind_some, Table.get_set, true_and]
      · simp only [slot, Table.get_set_ne _ _ hkey, hkey, false_and, if_false]
    · intro key'
      rw [Table.get_set]
      split <;> simp_all
    · intro key' hkey'
      rw [Table.get_set]
      split
      · rename_i heq
        subst heq
        rw [if_pos hkey', Option.getD_some]
        split <;> omega
      · exact le_rfl
    · have hmax : ∀ m, border + 1 ≤ if border + 1 > m then border + 1 else m := by
        intro m
        split <;> omega
      rw [Table.get_set_self, Option.getD_some]
      exact hmax _
  · cases h

theorem unwatch_slot (s : Bindable K V) (key : K) (tag : Nat) (key' : K) (i : Nat) :
    (s.unwatch key tag).slot key' i = if key' = key ∧ i = tag then none else s.slot key' i := by
  unfold Bindable.unwatch
  by_cases hkey : key' = key
  · subst hkey
    cases hbind : s.binds.get key' with
    | none => simp [slot, hbind]
    | some bind =>
      simp only [slot, hbind, Table.get_set_self, Option.bind_some, Table.get_del, true_and]
  · simp only [hkey, false_and, if_false]
    split
    · simp only [slot, Table.get_set_ne _ _ hkey]
    · rfl

theorem unwatch_rest (s : Bindable K V) (key : K) (tag : Nat) :
    s.unwatch key tag = { s with binds := (s.unwatch key tag).binds } := by
  unfold Bindable.unwatch
  split <;> rfl

theorem unwatch_binds (s : Bindable K V) (key : K) (tag : Nat) (key' : K) :
    ((s.unwatch key tag).binds.get key').isSome = (s.binds.get key').isSome := by
  unfold Bindable.unwatch
  split
  · rename_i bind hbind
    rw [Table.get_set]
    split
    · rename_i heq
      rw [heq, hbind]
      rfl
    · rfl
  · rfl

/-! ## The steps -/

variable [BEq V]

omit [DecidableEq K] [BEq V] in
theorem assignment_ne {a a' i maxn : Nat} {new old : Option V} {rest : List (Frame K V)}
    (h : ((Frame.loop a key i maxn new old :: rest).filterMap Frame.assignment).Nodup)
    {key' : K} {i' maxn' : Nat} {new' old' : Option V}
    (hmem : .loop a' key' i' maxn' new' old' ∈ rest) : a' ≠ a := by
  have hnodup : (a :: rest.filterMap Frame.assignment).Nodup := h
  rintro rfl
  exact (List.nodup_cons.mp hnodup).1 (List.mem_filterMap.mpr ⟨_, hmem, rfl⟩)

theorem Inv.unique (h : s.Inv) {watcher' : Watcher K} (hw : .watched w watcher ∈ s.log)
    (hw' : .watched w watcher' ∈ s.log) : watcher = watcher' := by
  have hget := (h.watchers w watcher).mpr hw
  rw [(h.watchers w watcher').mpr hw'] at hget
  exact (Option.some.inj hget).symm

/-- What the invariant needs after an event that is not about the life of a watcher. -/
theorem Inv.inert (h : s.Inv) {e : Event K V} (he : e.Inert) (hright : Right s.log e)
    {values : Table K V} {next : Nat} {stack : List (Frame K V)}
    (hbegun : ∀ a key new old, .begun a key new old ∈ e :: s.log → a < next)
    (hvalues : ∀ key, values.get key = assigned key (e :: s.log))
    (hcalls : ∀ a w n o, .called a w n o ∈ e :: s.log → .call w ∈ stack ∨ .returned w ∈ s.log)
    (hcalled : ∀ w, .call w ∈ stack → ∃ a n o, .called a w n o ∈ e :: s.log)
    (hloops : ∀ a key i maxn new old, .loop a key i maxn new old ∈ stack →
      LoopOk (e :: s.log) a key i maxn new old)
    (hids : (stack.filterMap Frame.assignment).Nodup) :
    Inv { s with values := values, nextAssignment := next, stack := stack, log := e :: s.log } := by
  have hwatched : ∀ {w watcher}, .watched w watcher ∈ e :: s.log ↔ .watched w watcher ∈ s.log := by
    intro w watcher
    rw [List.mem_cons, or_iff_right]
    rintro rfl
    exact he
  refine ⟨⟨hright, h.sound⟩, ?_, ?_, hbegun, hvalues, ?_, ?_, ?_, hcalled, hloops, hids⟩
  · intro w watcher
    rw [h.watchers]
    exact hwatched.symm
  · intro w watcher hmem
    exact h.fresh w watcher (hwatched.mp hmem)
  · intro key i w
    show s.slot key i = some w ↔ _
    rw [h.slots]
    exact exists_congr fun watcher => and_congr_left fun _ => (live_inert he).symm
  · intro w watcher hmem
    exact h.tags w watcher (hwatched.mp hmem)
  · intro a w n o hmem
    exact (hcalls a w n o hmem).imp_right (List.mem_cons_of_mem _)

/-- The lists after a `watch`: the new watcher is at its tag, where nobody was. -/
theorem Inv.slots_watch (h : s.Inv) (hstep : WatchStep s t key s.nextWatcher tag) (once : Bool)
    (hunused : .unwatched s.nextWatcher ∉ s.log ∧ .returned s.nextWatcher ∉ s.log) (key' : K)
    (i w : Nat) : t.slot key' i = some w ↔
      ∃ watcher, Live (.watched s.nextWatcher ⟨key, tag, once⟩ :: s.log) w watcher ∧
        watcher.key = key' ∧ watcher.tag = i := by
  rw [hstep.slot]
  simp only [live_watched hunused.1 hunused.2]
  by_cases hplace : key' = key ∧ i = tag
  · obtain ⟨rfl, rfl⟩ := hplace
    simp only [and_self, if_true, Option.some.injEq]
    constructor
    · rintro rfl
      exact ⟨_, .inr ⟨rfl, rfl⟩, rfl, rfl⟩
    · rintro ⟨watcher, hlive | ⟨hw, -⟩, hkey, htag⟩
      · have hslot := (h.slots _ _ _).mpr ⟨watcher, hlive, hkey, htag⟩
        rw [hstep.free] at hslot
        cases hslot
      · exact hw.symm
  · rw [if_neg hplace, h.slots]
    constructor
    · rintro ⟨watcher, hlive, hat⟩
      exact ⟨watcher, .inl hlive, hat⟩
    · rintro ⟨watcher, hlive | ⟨-, rfl⟩, hkey, htag⟩
      · exact ⟨watcher, hlive, hkey, htag⟩
      · exact absurd ⟨hkey.symm, htag.symm⟩ hplace

theorem Inv.watch (h : s.Inv) (hstep : WatchStep s t key s.nextWatcher tag) (once : Bool) :
    Inv { t.record (.watched t.nextWatcher ⟨key, tag, once⟩) with
      watchers := t.watchers.set t.nextWatcher ⟨key, tag, once⟩
      nextWatcher := t.nextWatcher + 1 } := by
  have hnew : ∀ watcher, .watched s.nextWatcher watcher ∉ s.log := by
    intro watcher hmem
    have := h.fresh _ _ hmem
    omega
  obtain ⟨huncalled, hununwatched, hunreturned⟩ := h.sound.unused hnew
  rw [hstep.rest]
  dsimp only [Bindable.record]
  refine ⟨⟨⟨hnew, ?_⟩, h.sound⟩, ?_, ?_, ?_, ?_, ?_, ?_, ?_, ?_, ?_, h.ids⟩
  · -- A live watcher is at its tag, and this one was free.
    intro w' watcher' hlive hkey htag
    have hslot := (h.slots _ _ _).mpr ⟨watcher', hlive, hkey, htag⟩
    rw [hstep.free] at hslot
    cases hslot
  · intro w watcher
    rw [Table.get_set, List.mem_cons]
    by_cases hw : w = s.nextWatcher
    · subst hw
      simp [hnew watcher, eq_comm]
    · simp [hw, h.watchers]
  · intro w watcher hmem
    obtain heq | hmem := List.mem_cons.mp hmem
    · cases heq
      exact Nat.lt_succ_self _
    · exact Nat.lt_succ_of_lt (h.fresh w watcher hmem)
  · intro a key' new old hmem
    obtain heq | hmem := List.mem_cons.mp hmem
    · cases heq
    · exact h.begun a key' new old hmem
  · exact h.values
  · exact h.slots_watch hstep once ⟨hununwatched, hunreturned⟩
  · intro w watcher hmem
    obtain heq | hmem := List.mem_cons.mp hmem
    · cases heq
      exact ⟨(hstep.binds key).mpr (.inr rfl), hstep.pos, hstep.le⟩
    · obtain ⟨hbinds, hpos, hle⟩ := h.tags w watcher hmem
      exact ⟨(hstep.binds _).mpr (.inl hbinds), hpos, Nat.le_trans hle (hstep.maxns _ hbinds)⟩
  · intro a w n o hmem
    obtain heq | hmem := List.mem_cons.mp hmem
    · cases heq
    · exact (h.calls a w n o hmem).imp_right (List.mem_cons_of_mem _)
  · intro w hmem
    obtain ⟨a, n, o, hcalled⟩ := h.called w hmem
    exact ⟨a, n, o, List.mem_cons_of_mem _ hcalled⟩
  · intro a key' i maxn new old hmem
    exact (h.loops a key' i maxn new old hmem).cons (huncalled a)

/-- An unwatch that finds no other function at its tag: the place of the watcher is empty then, and the
others are where they were. -/
theorem Inv.slots_unwatch (h : s.Inv) (hw : .watched w watcher ∈ s.log)
    (hown : ∀ w', s.slot watcher.key watcher.tag = some w' → w' = w) (key : K) (i w' : Nat) :
    (s.unwatch watcher.key watcher.tag).slot key i = some w' ↔
      ∃ watcher', (Live s.log w' watcher' ∧ w' ≠ w) ∧ watcher'.key = key ∧ watcher'.tag = i := by
  rw [unwatch_slot]
  by_cases hplace : key = watcher.key ∧ i = watcher.tag
  · -- Nobody is left at the place, and nobody but the watcher was there.
    rw [if_pos hplace]
    obtain ⟨rfl, rfl⟩ := hplace
    constructor
    · intro hnone
      cases hnone
    · rintro ⟨watcher', ⟨hlive, hne⟩, hat⟩
      exact absurd (hown w' ((h.slots _ _ _).mpr ⟨watcher', hlive, hat⟩)) hne
  · -- The watcher is nowhere else.
    rw [if_neg hplace, h.slots]
    refine exists_congr fun watcher' => and_congr_left ?_
    rintro ⟨rfl, rfl⟩
    refine (and_iff_left_of_imp fun hlive => ?_).symm
    rintro rfl
    have heq := h.unique hlive.watched hw
    rw [heq] at hplace
    exact hplace ⟨rfl, rfl⟩

/-- What the invariant needs after an event that ends the life of a watcher, or leaves it. -/
theorem Inv.parting (h : s.Inv) {e : Event K V} (he : e.Parting) (hright : Right s.log e)
    {binds : Table K (Table Nat Nat)}
    {stack : List (Frame K V)} (hbinds : ∀ key, (binds.get key).isSome = (s.binds.get key).isSome)
    (hslots : ∀ key i w, ((binds.get key).bind fun bind => bind.get i) = some w ↔
      ∃ watcher, Live (e :: s.log) w watcher ∧ watcher.key = key ∧ watcher.tag = i)
    (hcalls : ∀ a w n o, .called a w n o ∈ s.log → .call w ∈ stack ∨ .returned w ∈ e :: s.log)
    (hstack : stack <:+ s.stack) :
    Inv { s with binds := binds, stack := stack, log := e :: s.log } := by
  have hold : ∀ {e' : Event K V}, ¬ e'.Parting → (e' ∈ e :: s.log ↔ e' ∈ s.log) := by
    intro e' hne
    rw [List.mem_cons, or_iff_right]
    rintro rfl
    exact hne he
  refine ⟨⟨hright, h.sound⟩, ?_, ?_, ?_, ?_, hslots, ?_, ?_, ?_, ?_, ?_⟩
  · intro w watcher
    rw [h.watchers]
    exact (hold id).symm
  · intro w watcher hmem
    exact h.fresh w watcher ((hold id).mp hmem)
  · intro a key new old hmem
    exact h.begun a key new old ((hold id).mp hmem)
  · intro key
    rw [h.values]
    cases e with
    | begun => cases he
    | _ => rfl
  · intro w watcher hmem
    rw [hbinds]
    exact h.tags w watcher ((hold id).mp hmem)
  · intro a w n o hmem
    exact hcalls a w n o ((hold id).mp hmem)
  · intro w hmem
    obtain ⟨a, n, o, hcalled⟩ := h.called w (hstack.subset hmem)
    exact ⟨a, n, o, List.mem_cons_of_mem _ hcalled⟩
  · intro a key i maxn new old hmem
    refine (h.loops a key i maxn new old (hstack.subset hmem)).cons ?_
    cases e with
    | unwatched => trivial
    | returned => trivial
    | _ => cases he
  · exact h.ids.sublist (hstack.sublist.filterMap _)

theorem Inv.unwatch (h : s.Inv) (hw : s.watchers.get w = some watcher)
    (hun : .unwatched w ∉ s.log)
    (hown : ∀ w', s.slot watcher.key watcher.tag = some w' → w' = w) :
    Inv ((s.unwatch watcher.key watcher.tag).record (.unwatched w)) := by
  have hwatched := (h.watchers w watcher).mp hw
  rw [unwatch_rest]
  refine h.parting (e := .unwatched w) trivial ⟨⟨watcher, hwatched⟩, hun⟩ (unwatch_binds s _ _) ?_ ?_
    (List.suffix_refl _)
  · intro key i w'
    refine (h.slots_unwatch hwatched hown key i w').trans ?_
    exact exists_congr fun _ => and_congr_left fun _ => live_unwatched.symm
  · intro a w' n o hmem
    exact (h.calls a w' n o hmem).imp_right (List.mem_cons_of_mem _)

/-- The end of a callback. One of `watchonce` is gone from its place with it. -/
theorem Inv.giveBack (h : s.Inv) {rest : List (Frame K V)} (hstack : s.stack = .call w :: rest)
    (hw : s.watchers.get w = some watcher)
    (hown : watcher.once = true → ∀ w', s.slot watcher.key watcher.tag = some w' → w' = w) :
    Inv (s.giveBack w watcher rest) := by
  have hwatched := (h.watchers w watcher).mp hw
  have hcalled : ∃ a n o, .called a w n o ∈ s.log := h.called w (by rw [hstack]; simp)
  have hcalls : ∀ a w' n o, .called a w' n o ∈ s.log →
      .call w' ∈ rest ∨ .returned w' ∈ .returned w :: s.log := by
    intro a w' n o hmem
    obtain hcall | hreturned := h.calls a w' n o hmem
    · rw [hstack] at hcall
      obtain heq | hcall := List.mem_cons.mp hcall
      · cases heq
        exact .inr List.mem_cons_self
      · exact .inl hcall
    · exact .inr (List.mem_cons_of_mem _ hreturned)
  have hsuffix : rest <:+ s.stack := by
    rw [hstack]
    exact List.suffix_cons _ _
  unfold Bindable.giveBack
  split
  · rename_i honce
    rw [unwatch_rest]
    refine h.parting (e := .returned w) trivial hcalled (unwatch_binds s _ _) ?_ hcalls hsuffix
    · intro key i w'
      refine (h.slots_unwatch hwatched (hown honce) key i w').trans ?_
      refine exists_congr fun watcher' => and_congr_left fun _ => ?_
      rw [live_returned]
      refine and_congr_right fun hlive => ⟨fun hne _ => hne, fun hne => ?_⟩
      rintro rfl
      rw [h.unique hlive.watched hwatched] at hne
      exact hne honce rfl
  · rename_i honce
    refine h.parting (e := .returned w) trivial hcalled (fun _ => rfl) ?_ hcalls hsuffix
    · intro key i w'
      show s.slot key i = some w' ↔ _
      rw [h.slots]
      refine exists_congr fun watcher' => and_congr_left fun _ => ?_
      rw [live_returned]
      refine (and_iff_left_of_imp fun hlive honce' => ?_).symm
      rintro rfl
      rw [h.unique hlive.watched hwatched] at honce'
      exact honce honce'

/-! ## Assignments -/

/-- The number of an assignment that begins is that of nothing before it. -/
theorem Inv.unbegun (h : s.Inv) : (∀ key new old, .begun s.nextAssignment key new old ∉ s.log) ∧
    ∀ w n o, .called s.nextAssignment w n o ∉ s.log := by
  have hbegun : ∀ key new old, .begun s.nextAssignment key new old ∉ s.log := by
    intro key new old hmem
    exact absurd (h.begun _ key new old hmem) (Nat.lt_irrefl _)
  refine ⟨hbegun, ?_⟩
  intro w n o hmem
  obtain ⟨past, hpast, watcher, -, hbegun', -⟩ := h.sound.right hmem
  exact hbegun _ _ _ (hpast.subset hbegun')

omit [BEq V] in
theorem setValue_get (s : Bindable K V) (key : K) (value : Option V) (key' : K) :
    (s.setValue key value).values.get key' = if key' = key then value else s.values.get key' := by
  cases value with
  | none => exact Table.get_del _ _ _
  | some v => exact Table.get_set _ _ _ _

/-- A value changes: the assignment has begun, and its loop, if there is one, is about to. -/
theorem Inv.changed (h : s.Inv) {value : Option V} (hchange : (s.values.get key == value) = false)
    {stack : List (Frame K V)}
    (hstack : stack = s.stack ∨ ∃ maxn, stack =
      .loop s.nextAssignment key 1 maxn value (s.values.get key) :: s.stack ∧
        ∀ w watcher, .watched w watcher ∈ s.log → watcher.key = key →
          1 ≤ watcher.tag ∧ watcher.tag ≤ maxn) :
    Inv { s with
      values := (s.setValue key value).values
      nextAssignment := s.nextAssignment + 1
      stack := stack
      log := .begun s.nextAssignment key value (s.values.get key) :: s.log } := by
  obtain ⟨hnew, huncalled⟩ := h.unbegun
  have hcall : ∀ w, .call w ∈ stack ↔ .call w ∈ s.stack := by
    intro w
    obtain rfl | ⟨maxn, rfl, -⟩ := hstack
    · exact Iff.rfl
    · simp
  have hwaiting : ∀ a key' i maxn new old, .loop a key' i maxn new old ∈ s.stack →
      LoopOk (.begun s.nextAssignment key value (s.values.get key) :: s.log) a key' i maxn new old := by
    intro a key' i maxn new old hmem
    have hloop := h.loops a key' i maxn new old hmem
    refine hloop.cons ?_
    rintro rfl
    exact hnew _ _ _ hloop.begun
  refine h.inert (e := .begun s.nextAssignment key value (s.values.get key)) trivial
    ⟨hnew, h.values key, hchange⟩ ?_ ?_ ?_ ?_ ?_ ?_
  · intro a key' new old hmem
    obtain heq | hmem := List.mem_cons.mp hmem
    · cases heq
      exact Nat.lt_succ_self _
    · exact Nat.lt_succ_of_lt (h.begun a key' new old hmem)
  · intro key'
    rw [setValue_get, assigned, h.values]
    simp only [eq_comm]
  · intro a w n o hmem
    obtain heq | hmem := List.mem_cons.mp hmem
    · cases heq
    · rw [hcall]
      exact h.calls a w n o hmem
  · intro w hmem
    obtain ⟨a, n, o, hcalled⟩ := h.called w ((hcall w).mp hmem)
    exact ⟨a, n, o, List.mem_cons_of_mem _ hcalled⟩
  · intro a key' i maxn new old hmem
    obtain rfl | ⟨maxn', rfl, htags⟩ := hstack
    · exact hwaiting a key' i maxn new old hmem
    · obtain heq | hmem := List.mem_cons.mp hmem
      · cases heq
        exact loopOk_begun hnew huncalled htags
      · exact hwaiting a key' i maxn new old hmem
  · obtain rfl | ⟨maxn', rfl, -⟩ := hstack
    · exact h.ids
    · show (s.nextAssignment :: s.stack.filterMap Frame.assignment).Nodup
      refine List.nodup_cons.mpr ⟨?_, h.ids⟩
      intro hmem
      obtain ⟨frame, hframe, ha⟩ := List.mem_filterMap.mp hmem
      cases frame with
      | call w => cases ha
      | loop a key' i maxn new old =>
        cases ha
        exact hnew _ _ _ (h.loops _ _ _ _ _ _ hframe).begun

/-- The end of an assignment. -/
theorem Inv.ended (h : s.Inv) {a : Nat} (hright : Right s.log (.ended a)) {rest : List (Frame K V)}
    (hrest : rest <:+ s.stack) (hcall : ∀ w, .call w ∈ s.stack → .call w ∈ rest) :
    Inv { s.record (.ended a) with stack := rest } := by
  refine h.inert (e := .ended a) trivial hright ?_ h.values ?_ ?_ ?_
    (h.ids.sublist (hrest.sublist.filterMap _))
  · intro a' key new old hmem
    obtain heq | hmem := List.mem_cons.mp hmem
    · cases heq
    · exact h.begun a' key new old hmem
  · intro a' w n o hmem
    obtain heq | hmem := List.mem_cons.mp hmem
    · cases heq
    · exact (h.calls a' w n o hmem).imp_left (hcall w)
  · intro w hmem
    obtain ⟨a', n, o, hcalled⟩ := h.called w (hrest.subset hmem)
    exact ⟨a', n, o, List.mem_cons_of_mem _ hcalled⟩
  · intro a' key i maxn new old hmem
    exact (h.loops a' key i maxn new old (hrest.subset hmem)).cons trivial

theorem Inv.newindex (h : s.Inv) (key : K) (value : Option V) : Inv (s.newindex key value) := by
  unfold Bindable.newindex
  dsimp only
  split
  · exact h
  · rename_i hchange
    rw [Bool.not_eq_true] at hchange
    have hrest : s.setValue key value = { s with values := (s.setValue key value).values } := rfl
    split
    · refine h.changed hchange (.inr ⟨_, rfl, ?_⟩)
      intro w watcher hwatched hkey
      have htags := (h.tags w watcher hwatched).2
      rw [hkey] at htags
      exact htags
    · -- Nobody has ever watched the key.
      rename_i hnone
      have hbegun := h.changed hchange (.inl rfl)
      refine hbegun.ended ?_ (List.suffix_refl _) fun _ => id
      intro key' new old before hsuffix w watcher hwatched hkey
      obtain heq | hsuffix := List.suffix_cons_iff.mp hsuffix
      · cases heq
        have hbinds := (h.tags w watcher hwatched).1
        rw [hkey] at hbinds
        have hnone' : s.binds.get key = none := hnone
        rw [hnone'] at hbinds
        cases hbinds
      · exact absurd (hsuffix.subset List.mem_cons_self) (h.unbegun.1 _ _ _)

/-! ## The loop -/

/-- A watcher of the key at the tag, when it is no longer in its place: it was called. -/
theorem Inv.met_or_slot (h : s.Inv) {a : Nat} {new old : Option V}
    (hwatched : .watched w watcher ∈ s.log) (hun : .unwatched w ∉ s.log) :
    Met s.log a w watcher new old ∨ s.slot watcher.key watcher.tag = some w := by
  by_cases hlive : watcher.once = true → .returned w ∉ s.log
  · exact .inr ((h.slots _ _ _).mpr ⟨watcher, ⟨hwatched, hun, hlive⟩, rfl, rfl⟩)
  · rw [Classical.not_imp, not_not] at hlive
    refine .inl ?_
    unfold Met
    rw [if_pos hlive.1]
    exact h.sound.called_of_returned hlive.2

section Loop

variable {a i maxn : Nat} {new old : Option V} {rest : List (Frame K V)}

omit [DecidableEq K] [BEq V] in
/-- The callbacks under way are below the loop on top. -/
theorem call_mem_rest (hstack : s.stack = .loop a key i maxn new old :: rest)
    (hmem : .call w ∈ s.stack) : .call w ∈ rest := by
  rw [hstack] at hmem
  obtain heq | hmem := List.mem_cons.mp hmem
  · cases heq
  · exact hmem

omit [DecidableEq K] [BEq V] in
theorem rest_suffix (hstack : s.stack = .loop a key i maxn new old :: rest) : rest <:+ s.stack := by
  rw [hstack]
  exact List.suffix_cons _ _

theorem Inv.loopOk (h : s.Inv) (hstack : s.stack = .loop a key i maxn new old :: rest) :
    LoopOk s.log a key i maxn new old := by
  refine h.loops a key i maxn new old ?_
  rw [hstack]
  exact List.mem_cons_self

/-- The call of the function at the tag is right, if it is not one of `watchonce` that is under way. -/
theorem Inv.right_called (h : s.Inv) (hstack : s.stack = .loop a key i maxn new old :: rest)
    (hslot : s.slot key i = some w)
    (honce : ∀ watcher, s.watchers.get w = some watcher → watcher.once = true → .call w ∉ s.stack) :
    Right s.log (.called a w new old) := by
  have hloop := h.loopOk hstack
  obtain ⟨watcher, hlive, rfl, rfl⟩ := (h.slots _ _ _).mp hslot
  refine ⟨watcher, hlive.watched, hloop.begun, hlive.unwatched, ?_, ?_, ?_⟩
  · intro n o hmem
    exact absurd (hloop.called w watcher n o hmem hlive.watched) (Nat.lt_irrefl _)
  · -- If it was called before it is under way, for it has not returned.
    intro ho a' n o hmem
    obtain hcall | hreturned := h.calls a' w n o hmem
    · exact honce watcher ((h.watchers w watcher).mpr hlive.watched) ho hcall
    · exact hlive.once ho hreturned
  · intro w' watcher' n o hmem hwatched
    exact hloop.called w' watcher' n o hmem hwatched

/-- The loop behind the call. -/
theorem Inv.loopOk_called (h : s.Inv) (hstack : s.stack = .loop a key i maxn new old :: rest)
    (hslot : s.slot key i = some w) :
    LoopOk (.called a w new old :: s.log) a key (i + 1) maxn new old := by
  refine (h.loopOk hstack).call ?_ ?_
  · intro watcher hwatched
    obtain ⟨watcher', hlive, -, rfl⟩ := (h.slots _ _ _).mp hslot
    rw [h.unique hwatched hlive.watched]
  · intro w' watcher hwatched hkey htag hun
    obtain hmet | hslot' := h.met_or_slot hwatched hun
    · exact hmet.cons
    · rw [hkey, htag, hslot] at hslot'
      cases hslot'
      unfold Met
      split
      · exact ⟨a, new, old, List.mem_cons_self⟩
      · exact List.mem_cons_self

/-- The loop behind a tag where no function is. -/
theorem Inv.loopOk_skip (h : s.Inv) (hstack : s.stack = .loop a key i maxn new old :: rest)
    (hslot : s.slot key i = none) : LoopOk s.log a key (i + 1) maxn new old := by
  refine (h.loopOk hstack).skip ?_
  intro w watcher hwatched hkey htag hun
  obtain hmet | hslot' := h.met_or_slot hwatched hun
  · exact hmet
  · rw [hkey, htag, hslot] at hslot'
    cases hslot'

/-- Beyond `maxn` there is nobody to call. -/
theorem Inv.right_ended (h : s.Inv) (hstack : s.stack = .loop a key i maxn new old :: rest)
    (hi : maxn < i) : Right s.log (.ended a) := by
  have hloop := h.loopOk hstack
  intro key' new' old' before hsuffix w watcher hwatched hkey hun
  obtain ⟨rfl, rfl, rfl⟩ := hloop.only key' new' old' (hsuffix.subset List.mem_cons_self)
  have hbound := hloop.bound before hsuffix w watcher hwatched hkey
  exact hloop.met before hsuffix w watcher hwatched hkey (by omega) hun

theorem Inv.call (h : s.Inv) (hstack : s.stack = .loop a key i maxn new old :: rest)
    (hright : Right s.log (.called a w new old))
    (hnext : LoopOk (.called a w new old :: s.log) a key (i + 1) maxn new old) :
    Inv { s.record (.called a w new old) with
      stack := .call w :: .loop a key (i + 1) maxn new old :: rest } := by
  have hids := h.ids
  rw [hstack] at hids
  refine h.inert (e := .called a w new old) trivial hright ?_ h.values ?_ ?_ ?_ hids
  · intro a' key' new' old' hmem
    obtain heq | hmem := List.mem_cons.mp hmem
    · cases heq
    · exact h.begun a' key' new' old' hmem
  · intro a' w' n o hmem
    obtain heq | hmem := List.mem_cons.mp hmem
    · cases heq
      exact .inl List.mem_cons_self
    · refine (h.calls a' w' n o hmem).imp_left fun hcall => ?_
      exact List.mem_cons_of_mem _ (List.mem_cons_of_mem _ (call_mem_rest hstack hcall))
  · intro w' hmem
    obtain heq | hmem := List.mem_cons.mp hmem
    · cases heq
      exact ⟨a, new, old, List.mem_cons_self⟩
    obtain heq | hmem := List.mem_cons.mp hmem
    · cases heq
    obtain ⟨a', n, o, hcalled⟩ := h.called w' ((rest_suffix hstack).subset hmem)
    exact ⟨a', n, o, List.mem_cons_of_mem _ hcalled⟩
  · intro a' key' i' maxn' new' old' hmem
    obtain heq | hmem := List.mem_cons.mp hmem
    · cases heq
    obtain heq | hmem := List.mem_cons.mp hmem
    · cases heq
      exact hnext
    -- The loops below wait: they are those of other assignments.
    refine (h.loops a' key' i' maxn' new' old' ((rest_suffix hstack).subset hmem)).cons ?_
    exact (assignment_ne hids hmem).symm

theorem Inv.skip (h : s.Inv) (hstack : s.stack = .loop a key i maxn new old :: rest)
    (hnext : LoopOk s.log a key (i + 1) maxn new old) :
    Inv { s with stack := .loop a key (i + 1) maxn new old :: rest } := by
  have hids := h.ids
  rw [hstack] at hids
  refine ⟨h.sound, h.watchers, h.fresh, h.begun, h.values, h.slots, h.tags, ?_, ?_, ?_, hids⟩
  · intro a' w n o hmem
    refine (h.calls a' w n o hmem).imp_left fun hcall => ?_
    exact List.mem_cons_of_mem _ (call_mem_rest hstack hcall)
  · intro w hmem
    obtain heq | hmem := List.mem_cons.mp hmem
    · cases heq
    · exact h.called w ((rest_suffix hstack).subset hmem)
  · intro a' key' i' maxn' new' old' hmem
    obtain heq | hmem := List.mem_cons.mp hmem
    · cases heq
      exact hnext
    · exact h.loops a' key' i' maxn' new' old' ((rest_suffix hstack).subset hmem)

/-- The loop of an assignment goes on. It comes to no callback of `watchonce` that is under way. -/
theorem Inv.loop (h : s.Inv) (hstack : s.stack = .loop a key i maxn new old :: rest)
    (honce : i ≤ maxn → ∀ w watcher, s.slot key i = some w → s.watchers.get w = some watcher →
      watcher.once = true → .call w ∉ s.stack) :
    Inv (s.loop a key i maxn new old rest) := by
  unfold Bindable.loop
  split
  · rename_i hi
    dsimp only
    split
    · rename_i w hslot
      have hright := h.right_called hstack hslot fun watcher => honce hi w watcher hslot
      exact h.call hstack hright (h.loopOk_called hstack hslot)
    · rename_i hslot
      exact h.skip hstack (h.loopOk_skip hstack hslot)
  · rename_i hi
    refine h.ended (h.right_ended hstack (by omega)) (rest_suffix hstack) ?_
    intro w hmem
    exact call_mem_rest hstack hmem

end Loop

/-! ## Every run -/

theorem inv_bindable : Inv (bindable : Bindable K V) := by
  refine ⟨trivial, ?_, ?_, ?_, ?_, ?_, ?_, ?_, ?_, ?_, List.nodup_nil⟩
  · intro w watcher
    rw [show (bindable : Bindable K V).watchers.get w = none from Table.get_empty w]
    exact iff_of_false (by simp) List.not_mem_nil
  · intro w watcher hmem
    cases hmem
  · intro a key new old hmem
    cases hmem
  · exact Table.get_empty
  · intro key i w
    rw [show (bindable : Bindable K V).slot key i = none by simp [slot, bindable]]
    refine iff_of_false (by simp) ?_
    rintro ⟨watcher, hlive, -⟩
    cases hlive.watched
  · intro w watcher hmem
    cases hmem
  · intro a w n o hmem
    cases hmem
  · intro w hmem
    cases hmem
  · intro a key i maxn new old hmem
    cases hmem

omit [DecidableEq K] [BEq V] in
theorem running_iff : s.running w = true ↔ .call w ∈ s.stack := by
  unfold running
  rw [List.any_eq_true]
  constructor
  · rintro ⟨frame, hframe, hcall⟩
    cases frame with
    | loop => cases hcall
    | call w' =>
      obtain rfl := beq_iff_eq.mp hcall
      exact hframe
  · intro hmem
    exact ⟨_, hmem, beq_self_eq_true w⟩

omit [BEq V] in
theorem ownTag_iff (hw : s.watchers.get w = some watcher) : s.ownTag w = true ↔
    ∀ w', s.slot watcher.key watcher.tag = some w' → w' = w := by
  unfold ownTag
  rw [hw, Option.all_some]
  cases hslot : s.slot watcher.key watcher.tag with
  | none => simp
  | some w' => simp

omit [DecidableEq K] [BEq V] in
theorem unwatched_any (log : List (Event K V)) (w : Nat) :
    log.any (Event.isUnwatched w) = true ↔ .unwatched w ∈ log := by
  rw [List.any_eq_true]
  constructor
  · rintro ⟨e, he, hw⟩
    cases e with
    | unwatched w' =>
      obtain rfl := beq_iff_eq.mp hw
      exact he
    | _ => cases hw
  · intro hmem
    exact ⟨_, hmem, beq_self_eq_true w⟩

/-- An orderly step keeps the invariant. -/
theorem Inv.step (h : s.Inv) {action : Action K V} (hok : s.orderly action = true)
    (hstep : s.step action = some t) : t.Inv := by
  cases action with
  | watch key once border =>
    obtain ⟨-, hstep⟩ := Option.ite_none_right_eq_some.mp hstep
    obtain ⟨⟨tag, u⟩, hwatch, rfl⟩ := Option.map_eq_some_iff.mp hstep
    exact h.watch (watch_step hwatch) once
  | unwatch w =>
    obtain ⟨hfree, hstep⟩ := Option.ite_none_right_eq_some.mp hstep
    obtain ⟨watcher, hw, rfl⟩ := Option.map_eq_some_iff.mp hstep
    rw [Bool.and_eq_true, Bool.not_eq_true', ← Bool.not_eq_true, unwatched_any] at hfree
    exact h.unwatch hw hfree.2 ((ownTag_iff hw).mp hok)
  | assign key value =>
    obtain ⟨-, hstep⟩ := Option.ite_none_right_eq_some.mp hstep
    cases hstep
    exact h.newindex key value
  | next =>
    unfold Bindable.step at hstep
    unfold orderly at hok
    dsimp only at hstep hok
    split at hstep
    · rename_i a key i maxn new old rest hstack
      cases hstep
      refine h.loop hstack ?_
      intro hi w watcher hslot hw honce hcall
      rw [hstack] at hok
      simp only [hi, hslot, isOnce, hw, honce, running_iff.mpr hcall, decide_true, Option.any_some,
        Bool.and_self, Bool.not_true, Bool.false_eq_true] at hok
    · cases hstep
  | giveBack =>
    unfold Bindable.step at hstep
    unfold orderly at hok
    dsimp only at hstep hok
    split at hstep
    · rename_i w rest hstack
      obtain ⟨watcher, hw, rfl⟩ := Option.map_eq_some_iff.mp hstep
      refine h.giveBack hstack hw fun honce => (ownTag_iff hw).mp ?_
      rw [hstack] at hok
      simp only [isOnce, hw, Option.any_some, honce, Bool.not_true, Bool.false_or] at hok
      exact hok
    · cases hstep

end Bindable

variable [DecidableEq K] [BEq V]

/-- In a run whose steps are orderly everything that happens is as it should be: no `watch` takes the
tag of a live watcher; an assignment that changes a value calls every watcher that is there when it
begins and is not unwatched until it ends, once, with its values and in the order of the tags; nothing
calls a watcher that was unwatched, and nothing calls one of `watchonce` twice. -/
theorem orderly_sound {s : Bindable K V}
    (h : (dataBinding K V).ReachUnder (fun s action => s.orderly action = true) s) : Sound s.log := by
  refine (Machine.ReachUnder.invariant Bindable.Inv ?_ ?_ h).sound
  · rintro _ rfl
    exact Bindable.inv_bindable
  · intro s action t _ hinv hok hstep
    exact hinv.step hok hstep

/-- Two watchers of a key, of which the first is one of `watchonce`; the callback of the second watches
the key again, and gets the tag that has become free. -/
theorem orderly_sound_reuse : ∃ s : Bindable Unit Nat,
    (dataBinding Unit Nat).exec .bindable
      [.watch () true 0, .watch () false 1, .assign () (some 1), .next, .giveBack, .next,
        .watch () false 0, .giveBack, .next, .assign () (some 2), .next] = some s ∧
      s.log.head? = some (.called 1 2 (some 2) (some 1)) ∧ Sound s.log := by
  have hrun : ∃ s ∈ (dataBinding Unit Nat).execWhile Bindable.orderly .bindable
      [.watch () true 0, .watch () false 1, .assign () (some 1), .next, .giveBack, .next,
        .watch () false 0, .giveBack, .next, .assign () (some 2), .next],
      s.log.head? = some (.called 1 2 (some 2) (some 1)) := by
    decide
  obtain ⟨s, hs, hhead⟩ := hrun
  exact ⟨s, Machine.exec_of_execWhile hs, hhead,
    orderly_sound (Machine.ReachUnder.execWhile (fun _ _ h => h) (.start rfl) hs)⟩

/-- The callback of `watchonce` assigns the key it watches, and is called again before it has returned. -/
theorem not_sound_reentrant :
    ¬ ∀ s : Bindable Unit Nat, (dataBinding Unit Nat).Reach s → Sound s.log := by
  intro h
  have hrun : ∃ s ∈ (dataBinding Unit Nat).exec .bindable
      [.watch () true 0, .assign () (some 1), .next, .assign () (some 2), .next],
      s.log = [.called 1 0 (some 2) (some 1), .begun 1 () (some 2) (some 1),
        .called 0 0 (some 1) none, .begun 0 () (some 1) none, .watched 0 ⟨(), 1, true⟩] := by
    decide
  obtain ⟨s, hs, hlog⟩ := hrun
  have hsound := h s (Machine.Reach.exec (.start rfl) hs)
  rw [hlog] at hsound
  obtain ⟨watcher, hwatched, -, -, -, honce, -⟩ := hsound.1
  have hwatcher : watcher = ⟨(), 1, true⟩ := by simpa using hwatched
  rw [hwatcher] at honce
  exact honce rfl 0 (some 1) none (by decide)

end AntServer.SkynetApi
