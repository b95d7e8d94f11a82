/-
# AntServer.Lib.LossyChannel — a channel in order that loses messages and says so

What a channel is for that gives up on a message when it must: the receiving side takes, place by place,
the message that was sent at this place or the remark that it is lost. The states that are reached are
those in which every message that was taken is the one of its place (`reach_iff`), so that what was taken
is what was sent, in the same order and with nothing twice, less what was lost (`sublist`).

Nothing here names the modelled system.
-/
import AntServer.Lib.Machine
import Mathlib.Data.List.Induction
import Mathlib.Data.List.ReduceOption

namespace AntServer.Lib

universe u

/-! ## The channel -/

/-- What was sent, and what was taken: a message, or its loss. -/
structure LossyChannel (α : Type u) where
  sent : List α
  got : List (Option α)

namespace LossyChannel

variable {α : Type u}

inductive Event (α : Type u) where
  | send (a : α)
  | deliver
  | lose

/-- The message of the next place is delivered or lost; a place may be lost before its message is sent. -/
def step (c : LossyChannel α) : Event α → Option (LossyChannel α)
  | .send a => some { c with sent := c.sent ++ [a] }
  | .deliver => c.sent[c.got.length]?.map fun a => { c with got := c.got ++ [some a] }
  | .lose => some { c with got := c.got ++ [none] }

def machine (α : Type u) : Machine (LossyChannel α) (Event α) where
  start c := c = ⟨[], []⟩
  step := step

/-! ## What is taken is in its place -/

/-- Every message that was taken is the one of its place. -/
def InPlace (c : LossyChannel α) : Prop := ∀ (i : Nat) (a : α), c.got[i]? = some (some a) → c.sent[i]? = some a

theorem InPlace.send {c : LossyChannel α} (h : c.InPlace) (a : α) :
    InPlace ⟨c.sent ++ [a], c.got⟩ := by
  intro i b hb
  have hi := h i b hb
  rw [List.getElem?_append_left (List.getElem?_eq_some_iff.mp hi).1]
  exact hi

/-- One more place. -/
theorem InPlace.take {c : LossyChannel α} (h : c.InPlace) {x : Option α}
    (hx : ∀ a, x = some a → c.sent[c.got.length]? = some a) : InPlace ⟨c.sent, c.got ++ [x]⟩ := by
  intro i b hb
  change (c.got ++ [x])[i]? = some (some b) at hb
  rcases Nat.lt_trichotomy i c.got.length with hlt | rfl | hgt
  · rw [List.getElem?_append_left hlt] at hb
    exact h i b hb
  · rw [List.getElem?_append_right (Nat.le_refl _), Nat.sub_self] at hb
    exact hx b (Option.some.inj hb)
  · rw [List.getElem?_eq_none (by rw [List.length_append, List.length_singleton]; omega)] at hb
    cases hb

theorem inPlace_of_reach {c : LossyChannel α} (h : (machine α).Reach c) : c.InPlace := by
  refine Machine.ReachUnder.invariant InPlace ?_ ?_ h
  · rintro c rfl i a hi
    cases hi
  · intro c e c' _ hc _ hstep
    cases e with
    | send a =>
      cases hstep
      exact hc.send a
    | deliver =>
      obtain ⟨a, ha, rfl⟩ := Option.map_eq_some_iff.mp hstep
      exact hc.take fun b hb => by rw [← Option.some.inj hb]; exact ha
    | lose =>
      cases hstep
      exact hc.take fun b hb => by cases hb

/-- All messages are sent first. -/
theorem reach_sent (sent : List α) : (machine α).Reach ⟨sent, []⟩ := by
  induction sent using List.reverseRecOn with
  | nil => exact .start rfl
  | append_singleton sent a ih => exact .step (a := .send a) ih trivial rfl

theorem reach_of_inPlace {c : LossyChannel α} (h : c.InPlace) : (machine α).Reach c := by
  obtain ⟨sent, got⟩ := c
  induction got using List.reverseRecOn with
  | nil => exact reach_sent sent
  | append_singleton got x ih =>
    have hbefore : InPlace ⟨sent, got⟩ := by
      intro i a hi
      apply h i a
      show (got ++ [x])[i]? = some (some a)
      rw [List.getElem?_append_left (List.getElem?_eq_some_iff.mp hi).1]
      exact hi
    cases x with
    | none => exact .step (a := .lose) (ih hbefore) trivial rfl
    | some a =>
      have ha : sent[got.length]? = some a := by
        apply h got.length a
        show (got ++ [some a])[got.length]? = _
        rw [List.getElem?_append_right (Nat.le_refl _), Nat.sub_self]
        rfl
      refine .step (a := .deliver) (ih hbefore) trivial ?_
      show Option.map _ sent[got.length]? = _
      rw [ha]
      rfl

theorem reach_iff {c : LossyChannel α} : (machine α).Reach c ↔ c.InPlace :=
  ⟨inPlace_of_reach, reach_of_inPlace⟩

/-- What was taken is what was sent, less what was lost. -/
theorem InPlace.sublist {c : LossyChannel α} (h : c.InPlace) : c.got.reduceOption.Sublist c.sent := by
  obtain ⟨sent, got⟩ := c
  induction got generalizing sent with
  | nil => exact List.nil_sublist _
  | cons x got ih =>
    cases sent with
    | nil =>
      have htail : InPlace ⟨[], got⟩ := fun i a hi => h (i + 1) a hi
      cases x with
      | none => exact ih [] htail
      | some a => exact absurd (h 0 a rfl) (by simp)
    | cons s sent =>
      have htail : InPlace ⟨sent, got⟩ := fun i a hi => h (i + 1) a hi
      cases x with
      | none => exact (ih sent htail).cons s
      | some a =>
        have hs : some s = some a := h 0 a rfl
        rw [← Option.some.inj hs]
        exact (ih sent htail).cons_cons s

end LossyChannel

end AntServer.Lib
