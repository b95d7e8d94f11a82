/-
# AntServer.Lib.Mailbox — messages in flight, one queue per destination

The messages in flight are one list, in the order they were sent; a destination takes its messages
in that order. What a take removes is the first message for the destination, so up to a permutation
the list before is that message and the list after (`take_perm`), and of the queues only that of the
destination changes (`queue_take`). What a message will find when its turn has come is said over the
messages before it (`Meets`). Views of the messages in flight
(`filterMap`) are then those of the taken message and of the rest.

Nothing here names the modelled system.
-/
import Mathlib.Data.List.Perm.Basic

namespace AntServer.Lib.Mailbox

variable {M A : Type*} [DecidableEq A] (dst : M → A)

/-- The first message for `d`, and the others. -/
def take (d : A) : List M → Option (M × List M)
  | [] => none
  | m :: ms => if dst m = d then some (m, ms) else (take d ms).map fun t => (t.1, m :: t.2)

variable {dst}

theorem take_dst {d : A} {net : List M} {m : M} {rest : List M} (h : take dst d net = some (m, rest)) :
    dst m = d := by
  induction net generalizing rest with
  | nil => cases h
  | cons x xs ih =>
    unfold take at h
    split at h
    · rename_i hx
      cases h
      exact hx
    · obtain ⟨t, ht, heq⟩ := Option.map_eq_some_iff.mp h
      cases heq
      exact ih ht

theorem take_perm {d : A} {net : List M} {m : M} {rest : List M} (h : take dst d net = some (m, rest)) :
    net.Perm (m :: rest) := by
  induction net generalizing rest with
  | nil => cases h
  | cons x xs ih =>
    unfold take at h
    split at h
    · cases h
      exact .refl _
    · obtain ⟨t, ht, heq⟩ := Option.map_eq_some_iff.mp h
      cases heq
      exact ((ih ht).cons x).trans (.swap _ _ _)

/-! ## One queue -/

/-- The messages for one destination, in their order. -/
def queue (dst : M → A) (d : A) (net : List M) : List M := net.filter fun m => dst m = d

theorem queue_append (d : A) (net net' : List M) :
    queue dst d (net ++ net') = queue dst d net ++ queue dst d net' := List.filter_append ..

/-- A take removes the head of its queue and leaves the other queues as they are. -/
theorem queue_take {d : A} {net : List M} {m : M} {rest : List M} (h : take dst d net = some (m, rest)) :
    queue dst d net = m :: queue dst d rest ∧ ∀ d', d' ≠ d → queue dst d' net = queue dst d' rest := by
  induction net generalizing rest with
  | nil => cases h
  | cons x xs ih =>
    unfold take at h
    split at h
    · rename_i hx
      cases h
      refine ⟨?_, fun d' hd' => ?_⟩
      · simp [queue, hx]
      · simp [queue, hx, Ne.symm hd']
    · rename_i hx
      obtain ⟨t, ht, heq⟩ := Option.map_eq_some_iff.mp h
      cases heq
      obtain ⟨hself, hother⟩ := ih ht
      refine ⟨?_, fun d' hd' => ?_⟩
      · simpa [queue, hx] using hself
      · have hrest : queue dst d' xs = queue dst d' t.2 := hother d' hd'
        unfold queue at hrest ⊢
        rw [List.filter_cons, List.filter_cons, hrest]

/-- A message that is removed leaves the queues of the other destinations as they are. -/
theorem queue_erase [DecidableEq M] {d : A} {m : M} (hm : dst m ≠ d) (net : List M) :
    queue dst d (net.erase m) = queue dst d net := by
  induction net with
  | nil => rfl
  | cons x xs ih =>
    rw [List.erase_cons]
    unfold queue at ih ⊢
    split
    · rename_i hx
      obtain rfl : x = m := by simpa using hx
      simp [hm]
    · rw [List.filter_cons, List.filter_cons, ih]

/-! ## What the messages of a queue will find -/

section Meets

variable {B : Type*} (after : B → M → B) (good : B → M → Prop)

/-- Each message, when its turn has come, finds a state that is good for it. -/
def Meets : B → List M → Prop
  | _, [] => True
  | b, m :: ms => good b m ∧ Meets (after b m) ms

variable {after good}

theorem meets_append {b : B} {ms ms' : List M} : Meets after good b (ms ++ ms') ↔
    Meets after good b ms ∧ Meets after good (ms.foldl after b) ms' := by
  induction ms generalizing b with
  | nil => simp [Meets]
  | cons m ms ih =>
    rw [List.cons_append, Meets, Meets, ih, List.foldl_cons, and_assoc]

/-- Messages for which every state is good. -/
theorem meets_of_forall {b : B} {ms : List M} (h : ∀ m ∈ ms, ∀ b, good b m) : Meets after good b ms := by
  induction ms generalizing b with
  | nil => trivial
  | cons m ms ih =>
    exact ⟨h m List.mem_cons_self b, ih fun m' hm' => h m' (List.mem_cons_of_mem m hm')⟩

/-- Messages that leave the state as it is. -/
theorem meets_of_still {b : B} {ms : List M} (h : ∀ m ∈ ms, good b m ∧ after b m = b) :
    Meets after good b ms := by
  induction ms with
  | nil => trivial
  | cons m ms ih =>
    obtain ⟨hgood, hstill⟩ := h m List.mem_cons_self
    refine ⟨hgood, ?_⟩
    rw [hstill]
    exact ih fun m' hm' => h m' (List.mem_cons_of_mem m hm')

end Meets

/-! ## Views -/

variable {X : Type*}

/-- What a view shows of the messages in flight. -/
def view (f : M → Option X) (net : List M) : List X := net.filterMap f

theorem view_append (f : M → Option X) (net net' : List M) :
    view f (net ++ net') = view f net ++ view f net' := List.filterMap_append

theorem view_cons (f : M → Option X) (m : M) (net : List M) :
    view f (m :: net) = (f m).toList ++ view f net := by
  unfold view
  rw [List.filterMap_cons]
  cases f m <;> rfl

theorem view_perm (f : M → Option X) {net net' : List M} (h : net.Perm net') :
    (view f net).Perm (view f net') := h.filterMap _

theorem mem_view {f : M → Option X} {net : List M} {x : X} : x ∈ view f net ↔ ∃ m ∈ net, f m = some x :=
  List.mem_filterMap

/-- A view shows nothing of messages it shows nothing of. -/
theorem view_eq_nil {f : M → Option X} {net : List M} (h : ∀ m ∈ net, f m = none) : view f net = [] :=
  List.filterMap_eq_nil_iff.mpr h

/-- A view with one element at most, all of which are `o`. -/
theorem view_subperm {X : Type*} {f : M → Option X} {net : List M} {o : Option X}
    (hall : ∀ m ∈ net, ∀ x, f m = some x → o = some x) (hlen : (view f net).length ≤ 1) :
    (view f net).Subperm o.toList := by
  cases hview : view f net with
  | nil => exact List.nil_subperm
  | cons x rest =>
    rw [hview, List.length_cons] at hlen
    obtain rfl : rest = [] := List.eq_nil_of_length_eq_zero (by omega)
    obtain ⟨m, hm, hx⟩ := mem_view.mp (hview ▸ List.mem_cons_self : x ∈ view f net)
    rw [hall m hm x hx]
    exact (List.Perm.refl _).subperm

/-- When a message is taken and others are sent of which the view shows the same, the view shows the
same as before. -/
theorem view_pass {f : M → Option X} {m : M} {rest outs : List M} (h : (f m).toList = view f outs) :
    (view f (m :: rest)).Perm (view f (rest ++ outs)) := by
  rw [view_cons, view_append, h]
  exact List.perm_append_comm

end AntServer.Lib.Mailbox
