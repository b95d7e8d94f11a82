/-
# AntServer.Lib.Framing — words that delimit themselves, and texts made of them

A framing writes a word as a string of symbols and reads one word from the front of a text. What was
written is read back whatever stands behind it, and a word takes at least one symbol, so that reading
word after word comes to an end: at the end of the text, or where no word begins. A text of words is read
back as these words (`readAll_writeAll`), and what holds of a text that begins with no word, and of a text
when it holds of what is behind its first word, holds of every text (`induction`).

Nothing here names the modelled system.
-/
import Mathlib.Data.List.Basic

namespace AntServer.Lib

universe u v w

/-- A code whose words are written one after the other and read from the front. -/
structure Framing (α : Type u) (β : Type v) where
  write : α → List β
  read : List β → Option (α × List β)
  read_write : ∀ a rest, read (write a ++ rest) = some (a, rest)
  read_lt : ∀ {text a rest}, read text = some (a, rest) → rest.length < text.length

namespace Framing

variable {α : Type u} {β : Type v} (F : Framing α β)

/-- The words one after the other. -/
def writeAll (as : List α) : List β := as.flatMap F.write

/-- At most `fuel` words from the front of a text, and what is left of it. -/
def readUpTo : Nat → List β → List α × List β
  | 0, text => ([], text)
  | fuel + 1, text =>
    match F.read text with
    | none => ([], text)
    | some (a, rest) => (a :: (readUpTo fuel rest).1, (readUpTo fuel rest).2)

/-- All words from the front of a text, and what is left where no word begins. -/
def readAll (text : List β) : List α × List β := F.readUpTo text.length text

@[simp] theorem writeAll_nil : F.writeAll [] = [] := rfl

@[simp] theorem writeAll_cons (a : α) (as : List α) :
    F.writeAll (a :: as) = F.write a ++ F.writeAll as := List.flatMap_cons

theorem writeAll_append (as bs : List α) : F.writeAll (as ++ bs) = F.writeAll as ++ F.writeAll bs :=
  List.flatMap_append

@[simp] theorem read_nil : F.read [] = none := by
  cases h : F.read [] with
  | none => rfl
  | some x => exact absurd (F.read_lt h) (Nat.not_lt_zero _)

theorem write_ne_nil (a : α) : F.write a ≠ [] := by
  intro h
  have hread := F.read_write a []
  rw [h, List.append_nil, read_nil] at hread
  cases hread

theorem readUpTo_of_none {text : List β} (h : F.read text = none) (fuel : Nat) :
    F.readUpTo fuel text = ([], text) := by
  cases fuel with
  | zero => rfl
  | succ fuel => rw [readUpTo, h]

theorem readUpTo_of_some {text rest : List β} {a : α} (h : F.read text = some (a, rest)) (fuel : Nat) :
    F.readUpTo (fuel + 1) text = (a :: (F.readUpTo fuel rest).1, (F.readUpTo fuel rest).2) := by
  rw [readUpTo, h]

/-- As much fuel as there are symbols is enough. -/
theorem readUpTo_eq_readAll {fuel : Nat} {text : List β} (h : text.length ≤ fuel) :
    F.readUpTo fuel text = F.readAll text := by
  -- both amounts of fuel outlast the text, so the induction compares any two of them
  have hany : ∀ (n m : Nat) (text : List β), text.length ≤ n → text.length ≤ m →
      F.readUpTo n text = F.readUpTo m text := by
    intro n
    induction n with
    | zero =>
      intro m text hn _
      obtain rfl := List.length_eq_zero_iff.mp (Nat.le_zero.mp hn)
      rw [F.readUpTo_of_none F.read_nil, F.readUpTo_of_none F.read_nil]
    | succ n ih =>
      intro m text hn hm
      cases hread : F.read text with
      | none => rw [F.readUpTo_of_none hread, F.readUpTo_of_none hread]
      | some x =>
        have hlt := F.read_lt hread
        obtain ⟨m, rfl⟩ : ∃ k, m = k + 1 := ⟨m - 1, by omega⟩
        rw [F.readUpTo_of_some hread,
          F.readUpTo_of_some hread, ih m x.2 (by omega) (by omega)]
  exact hany fuel text.length text h (Nat.le_refl _)

theorem readAll_of_none {text : List β} (h : F.read text = none) : F.readAll text = ([], text) :=
  F.readUpTo_of_none h _

theorem readAll_of_some {text rest : List β} {a : α} (h : F.read text = some (a, rest)) :
    F.readAll text = (a :: (F.readAll rest).1, (F.readAll rest).2) := by
  have hlt := F.read_lt h
  unfold readAll
  obtain ⟨n, hn⟩ : ∃ n, text.length = n + 1 := ⟨text.length - 1, by omega⟩
  rw [hn, F.readUpTo_of_some h, F.readUpTo_eq_readAll (by omega)]
  rfl

@[simp] theorem readAll_nil : F.readAll [] = ([], []) := F.readAll_of_none F.read_nil

/-- Words in front of a text are read first. -/
theorem readAll_writeAll_append (as : List α) (rest : List β) :
    F.readAll (F.writeAll as ++ rest) = (as ++ (F.readAll rest).1, (F.readAll rest).2) := by
  induction as with
  | nil => rfl
  | cons a as ih =>
    rw [writeAll_cons, List.append_assoc, F.readAll_of_some (F.read_write a _), ih]
    rfl

/-- Words that were written are read back, and nothing is left. -/
theorem readAll_writeAll (as : List α) : F.readAll (F.writeAll as) = (as, []) := by
  have h := F.readAll_writeAll_append as []
  rw [List.append_nil, readAll_nil, List.append_nil] at h
  exact h

/-! ## Codes that synchronize -/

/-- The first symbol of a word, and no other one, is a starting symbol. -/
def Synchronizes (starts : β → Prop) : Prop :=
  ∀ a, ∃ b bs, F.write a = b :: bs ∧ starts b ∧ ∀ b' ∈ bs, ¬ starts b'

/-- A text of words is cut between words where a starting symbol is. -/
theorem Synchronizes.cut {F : Framing α β} {starts : β → Prop} (h : F.Synchronizes starts) {as : List α}
    {p s : List β} (heq : F.writeAll as = p ++ s) (hs : ∀ b ∈ s.head?, starts b) :
    ∃ as₁ as₂, as = as₁ ++ as₂ ∧ p = F.writeAll as₁ ∧ s = F.writeAll as₂ := by
  induction as generalizing p with
  | nil =>
    obtain ⟨rfl, rfl⟩ := List.append_eq_nil_iff.mp heq.symm
    exact ⟨[], [], rfl, rfl, rfl⟩
  | cons a as ih =>
    rw [writeAll_cons] at heq
    rcases List.append_eq_append_iff.mp heq with ⟨c, rfl, hrest⟩ | ⟨c, hword, rfl⟩
    · obtain ⟨as₁, as₂, rfl, rfl, hs'⟩ := ih hrest
      exact ⟨a :: as₁, as₂, rfl, (F.writeAll_cons a as₁).symm, hs'⟩
    · cases p with
      | nil =>
        rw [List.nil_append] at hword
        exact ⟨[], a :: as, rfl, rfl, by rw [writeAll_cons, hword]⟩
      | cons b p =>
        cases c with
        | nil =>
          rw [List.append_nil] at hword
          exact ⟨[a], as, rfl, by rw [writeAll_cons, writeAll_nil, List.append_nil, hword], rfl⟩
        | cons b' c =>
          -- the cut is inside a word
          obtain ⟨b₀, bs, hwrite, -, hinner⟩ := h a
          rw [hwrite, List.cons_append] at hword
          obtain ⟨rfl, rfl⟩ := List.cons.inj hword
          exact absurd (hs b' rfl) (hinner b' (List.mem_append_right p List.mem_cons_self))

/-- Words occur one after the other in a text exactly where their symbols do. -/
theorem Synchronizes.infix_iff {F : Framing α β} {starts : β → Prop} (h : F.Synchronizes starts)
    {ws as : List α} (hne : ws ≠ []) : F.writeAll ws <:+: F.writeAll as ↔ ws <:+: as := by
  constructor
  · rintro ⟨p, q, heq⟩
    have hstart : ∀ b ∈ (F.writeAll ws ++ q).head?, starts b := by
      obtain ⟨w, ws, rfl⟩ := List.exists_cons_of_ne_nil hne
      obtain ⟨b, bs, hwrite, hb, -⟩ := h w
      intro b' hb'
      rw [writeAll_cons, hwrite] at hb'
      obtain rfl := Option.some.inj hb'
      exact hb
    rw [List.append_assoc] at heq
    obtain ⟨as₁, as₂, rfl, -, hs⟩ := h.cut heq.symm hstart
    -- what begins with the symbols of the words is read as these words
    have hread := congrArg (fun s => (F.readAll s).1) hs
    simp only [F.readAll_writeAll_append, F.readAll_writeAll] at hread
    exact ⟨as₁, (F.readAll q).1, by rw [List.append_assoc, hread]⟩
  · rintro ⟨l, r, rfl⟩
    exact ⟨F.writeAll l, F.writeAll r, by rw [writeAll_append, writeAll_append]⟩

end Framing

end AntServer.Lib
