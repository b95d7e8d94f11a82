/-
# AntServer.Lib.Masking — the words of a text are masked

A text is read from left to right. Where the longest word that begins there has a length, that many cells
are overwritten by a mask, and the reading goes on behind them; where no word begins the cell is left
(`Masked`). What is left has no word that a mask is not part of (`Masked.clean`), so that a second reading
changes nothing (`Masked.again`), and a text is changed or flagged exactly when a word occurs in it
(`Masked.flag_iff`, `Masked.eq_iff`).

Nothing here names the modelled system.
-/
import Mathlib.Data.List.Infix

namespace AntServer.Lib

/-! ## Words of a text -/

variable {α : Type}

/-- The longest word that the text begins with has `k` cells; 0 when there is none. -/
structure IsLongest (words : List α → Prop) (text : List α) (k : Nat) : Prop where
  le : k ≤ text.length
  word : k ≠ 0 → words (text.take k)
  max : ∀ j, j ≤ text.length → words (text.take j) → j ≤ k

/-- A word is somewhere in the text. -/
def Occurs (words : List α → Prop) (text : List α) : Prop := ∃ w, words w ∧ w <:+: text

/-- The text `text`, its words masked, is `out`; `flag` says whether there was one. -/
inductive Masked (words : List α → Prop) (mask : α) : List α → List α → Bool → Prop
  | nil : Masked words mask [] [] false
  | word {w rest out : List α} {flag : Bool} :
      w ≠ [] → IsLongest words (w ++ rest) w.length → Masked words mask rest out flag →
        Masked words mask (w ++ rest) (List.replicate w.length mask ++ out) true
  | cell {c : α} {rest out : List α} {flag : Bool} :
      IsLongest words (c :: rest) 0 → Masked words mask rest out flag →
        Masked words mask (c :: rest) (c :: out) flag

/-! ## The longest word -/

/-- Where the longest word has no cells, none is a prefix. -/
theorem IsLongest.not_prefix {words : List α → Prop} {text w : List α} (h : IsLongest words text 0)
    (hw : words w) (hne : w ≠ []) : ¬ w <+: text := by
  intro hpre
  have htake : text.take w.length = w := (List.prefix_iff_eq_take.mp hpre).symm
  have hle := h.max w.length hpre.length_le (htake.symm ▸ hw)
  exact hne (List.length_eq_zero_iff.mp (Nat.le_zero.mp hle))

/-- Where there is no word. -/
theorem isLongest_zero {words : List α → Prop} {text : List α}
    (h : ∀ j, j ≤ text.length → words (text.take j) → j = 0) : IsLongest words text 0 :=
  ⟨Nat.zero_le _, fun h0 => absurd rfl h0, fun j hj hw => Nat.le_of_eq (h j hj hw)⟩

/-- A word that begins with `c` is `c` alone, or goes on as a word of `sub`. -/
theorem IsLongest.cons {words sub : List α → Prop} {c : α} {rest : List α} {j : Nat} {b : Prop}
    [Decidable b] (hw : ∀ w, words (c :: w) ↔ (w = [] ∧ b) ∨ sub w) (hnil : ¬ sub [])
    (hsub : IsLongest sub rest j) :
    IsLongest words (c :: rest) (if j = 0 then if b then 1 else 0 else j + 1) := by
  have hle := hsub.le
  by_cases hj : j = 0
  · rw [if_pos hj]
    refine ⟨?_, fun h => ?_, fun j' hj' hword => ?_⟩
    · rw [List.length_cons]
      split <;> omega
    · by_cases hb : b
      · rw [if_pos hb]
        exact (hw []).mpr (.inl ⟨rfl, hb⟩)
      · rw [if_neg hb] at h
        exact absurd rfl h
    · cases j' with
      | zero => exact Nat.zero_le _
      | succ j' =>
        rw [List.length_cons] at hj'
        rcases (hw _).mp hword with ⟨hempty, hb⟩ | hword
        · rw [if_pos hb]
          have hlen := congrArg List.length hempty
          rw [List.length_take, List.length_nil] at hlen
          omega
        · have hj0 := hsub.max j' (by omega) hword
          obtain rfl : j' = 0 := by omega
          exact absurd hword hnil
  · rw [if_neg hj]
    refine ⟨?_, fun _ => (hw _).mpr (.inr (hsub.word hj)), fun j' hj' hword => ?_⟩
    · rw [List.length_cons]
      omega
    · cases j' with
      | zero => exact Nat.zero_le _
      | succ j' =>
        rw [List.length_cons] at hj'
        rcases (hw _).mp hword with ⟨hempty, -⟩ | hword
        · have hlen := congrArg List.length hempty
          rw [List.length_take, List.length_nil] at hlen
          omega
        · have hj0 := hsub.max j' (by omega) hword
          omega

namespace Masked

/-! ## The masked text -/

variable {words : List α → Prop} {mask : α} {text out : List α} {flag : Bool}

/-- What a text is masked to is determined. -/
theorem det (h : Masked words mask text out flag) {out' : List α} {flag' : Bool}
    (h' : Masked words mask text out' flag') : out = out' ∧ flag = flag' := by
  induction h generalizing out' flag' with
  | nil =>
    generalize ht : ([] : List α) = text at h'
    induction h' with
    | nil => exact ⟨rfl, rfl⟩
    | word hne => exact absurd (List.append_eq_nil_iff.mp ht.symm).1 hne
    | cell => cases ht
  | @word w rest out flag hne hlong _ ih =>
    generalize ht : w ++ rest = text at h'
    induction h' with
    | nil => exact absurd (List.append_eq_nil_iff.mp ht).1 hne
    | @word w' rest' out' flag' hne' hlong' hrest' _ =>
      -- both words are the longest one
      have hle := hlong.max w'.length (by rw [ht]; exact hlong'.le) (by
        rw [ht]
        exact hlong'.word fun h0 => hne' (List.length_eq_zero_iff.mp h0))
      have hge := hlong'.max w.length (by rw [← ht]; exact hlong.le) (by
        rw [← ht]
        exact hlong.word fun h0 => hne (List.length_eq_zero_iff.mp h0))
      obtain ⟨rfl, rfl⟩ := List.append_inj ht (Nat.le_antisymm hge hle)
      rw [(ih hrest').1]
      exact ⟨rfl, rfl⟩
    | cell hzero _ _ =>
      have hword := hlong.word fun h0 => hne (List.length_eq_zero_iff.mp h0)
      rw [List.take_left] at hword
      exact absurd ⟨rest, ht⟩ (hzero.not_prefix hword hne)
  | @cell c rest out flag hzero _ ih =>
    generalize ht : c :: rest = text at h'
    induction h' with
    | nil => cases ht
    | @word w rest' _ _ hne hlong _ _ =>
      have hword := hlong.word fun h0 => hne (List.length_eq_zero_iff.mp h0)
      rw [List.take_left] at hword
      exact absurd ⟨rest', ht.symm⟩ (hzero.not_prefix hword hne)
    | cell _ hrest' _ =>
      obtain ⟨rfl, rfl⟩ := List.cons.inj ht
      rw [(ih hrest').1, (ih hrest').2]
      exact ⟨rfl, rfl⟩

/-- Every cell is left or masked. -/
theorem cell_eq (h : Masked words mask text out flag) (i : Nat) :
    out[i]? = text[i]? ∨ out[i]? = some mask := by
  induction h generalizing i with
  | nil => exact .inl rfl
  | @word w rest out _ _ _ _ ih =>
    rcases Nat.lt_or_ge i w.length with hlt | hge
    · right
      rw [List.getElem?_append_left (by rw [List.length_replicate]; exact hlt),
        List.getElem?_replicate, if_pos hlt]
    · rw [List.getElem?_append_right (by rw [List.length_replicate]; exact hge),
        List.getElem?_append_right hge, List.length_replicate]
      exact ih _
  | cell _ _ ih =>
    cases i with
    | zero => exact .inl rfl
    | succ i => exact ih i

theorem mem (h : Masked words mask text out flag) {c : α} (hc : c ∈ out) : c ∈ text ∨ c = mask := by
  obtain ⟨i, hi⟩ := List.mem_iff_getElem?.mp hc
  rcases h.cell_eq i with he | he
  · exact .inl (List.mem_of_getElem? (he.symm.trans hi))
  · exact .inr (Option.some.inj (hi.symm.trans he))

/-- The flag says whether a word occurs. -/
theorem flag_iff (h : Masked words mask text out flag) (hnil : ¬ words []) :
    flag = true ↔ Occurs words text := by
  induction h with
  | nil =>
    refine iff_of_false Bool.false_ne_true ?_
    rintro ⟨w, hw, hin⟩
    exact absurd (List.infix_nil.mp hin ▸ hw) hnil
  | @word w rest out flag hne hlong _ _ =>
    refine ⟨fun _ => ⟨w, ?_, (List.prefix_append w rest).isInfix⟩, fun _ => rfl⟩
    have hword := hlong.word fun h0 => hne (List.length_eq_zero_iff.mp h0)
    rwa [List.take_left] at hword
  | cell hzero _ ih =>
    rw [ih]
    constructor
    · rintro ⟨w, hw, hin⟩
      exact ⟨w, hw, List.infix_cons hin⟩
    · rintro ⟨w, hw, hin⟩
      rcases List.infix_cons_iff.mp hin with hpre | hin
      · exact absurd hpre (hzero.not_prefix hw fun he => hnil (he ▸ hw))
      · exact ⟨w, hw, hin⟩

/-! ## Words that are left -/

/-- What begins the outcome without a mask began the text. -/
theorem prefix_text (h : Masked words mask text out flag) {w : List α} (hw : mask ∉ w) (hpre : w <+: out) :
    w <+: text := by
  induction h generalizing w with
  | nil => exact hpre
  | @word v rest out _ hne _ _ _ =>
    cases w with
    | nil => exact List.nil_prefix
    | cons c w =>
      obtain ⟨a, v, rfl⟩ := List.exists_cons_of_ne_nil hne
      rw [List.length_cons, List.replicate_succ, List.cons_append] at hpre
      exact absurd (List.cons_prefix_cons.mp hpre).1 fun he => hw (he ▸ List.mem_cons_self)
  | cell _ _ ih =>
    cases w with
    | nil => exact List.nil_prefix
    | cons c w =>
      obtain ⟨rfl, htail⟩ := List.cons_prefix_cons.mp hpre
      exact List.cons_prefix_cons.mpr ⟨rfl, ih (fun hm => hw (List.mem_cons_of_mem _ hm)) htail⟩

/-- What occurs behind masks without one occurs behind them. -/
theorem infix_of_replicate {w l : List α} (hw : mask ∉ w) (hne : w ≠ []) {n : Nat}
    (hin : w <:+: List.replicate n mask ++ l) : w <:+: l := by
  induction n with
  | zero => exact hin
  | succ n ih =>
    rw [List.replicate_succ, List.cons_append] at hin
    rcases List.infix_cons_iff.mp hin with hpre | hin
    · obtain ⟨a, w, rfl⟩ := List.exists_cons_of_ne_nil hne
      exact absurd (List.cons_prefix_cons.mp hpre).1 fun he => hw (he ▸ List.mem_cons_self)
    · exact ih hin

/-- No word without a mask is left. -/
theorem clean (h : Masked words mask text out flag) {w : List α} (hword : words w) (hne : w ≠ [])
    (hw : mask ∉ w) : ¬ w <:+: out := by
  induction h with
  | nil => exact fun hin => hne (List.infix_nil.mp hin)
  | word _ _ _ ih => exact fun hin => ih (infix_of_replicate hw hne hin)
  | @cell c rest out flag hzero hrest ih =>
    intro hin
    rcases List.infix_cons_iff.mp hin with hpre | hin
    · exact hzero.not_prefix hword hne ((Masked.cell hzero hrest).prefix_text hw hpre)
    · exact ih hin

/-- A text without a word is left as it is. -/
theorem of_not_occurs (hnot : ¬ Occurs words text) :
    Masked words mask text text false := by
  induction text with
  | nil => exact .nil
  | cons c rest ih =>
    refine .cell (isLongest_zero fun j _ hj => ?_) (ih ?_)
    · exact absurd ⟨_, hj, (List.take_prefix j (c :: rest)).isInfix⟩ hnot
    · rintro ⟨w, hw, hin⟩
      exact hnot ⟨w, hw, List.infix_cons hin⟩

/-- When no word has a mask in it, a second reading changes nothing. -/
theorem again (h : Masked words mask text out flag) (hnil : ¬ words [])
    (hmask : ∀ w, words w → mask ∉ w) : Masked words mask out out false := by
  refine of_not_occurs ?_
  rintro ⟨w, hw, hin⟩
  exact h.clean hw (fun he => hnil (he ▸ hw)) (hmask w hw) hin

/-- When no word is all masks, the text is left as it is exactly when no word occurs in it. -/
theorem eq_iff (h : Masked words mask text out flag) (hnil : ¬ words [])
    (hmask : ∀ w, words w → ∃ c ∈ w, c ≠ mask) : out = text ↔ ¬ Occurs words text := by
  constructor
  · intro heq
    rw [← h.flag_iff hnil]
    induction h with
    | nil => exact Bool.false_ne_true
    | @word w rest out flag hne hlong _ _ =>
      -- the first word would be all masks
      have hword := hlong.word fun h0 => hne (List.length_eq_zero_iff.mp h0)
      rw [List.take_left] at hword
      have hw := (List.append_inj heq List.length_replicate).1
      obtain ⟨c, hc, hcm⟩ := hmask w hword
      rw [← hw] at hc
      exact absurd (List.eq_of_mem_replicate hc) hcm
    | cell _ _ ih => exact ih (List.cons.inj heq).2
  · exact fun hnot => (h.det (of_not_occurs hnot)).1

end Masked

end AntServer.Lib
