/-
# AntServer.Crab.Filter — the word filter

`dict_filter` of `lualib-src/crab/lua-crab.c`. At every position of the text it goes down the dictionary
as far as the text goes along with it, and remembers the last flagged node: the longest word that begins
there (`scanFrom_spec`). The cells of the word are overwritten by `'*'`, and the filter goes on behind it.
So a text is masked from left to right, by the longest words (`filterLoop_masked`).

The state of the library is the dictionary `g_dict`. After any calls of `dict_open` it is the one of the
last call that took all its words (`opens_spec`), and `dict_filter` masks the words of that call
(`dictFilter_spec`).
-/
import AntServer.Crab.Dict
import AntServer.Lib.Masking

namespace AntServer.Crab

open Lib

/-- The inner loop of `dict_filter`: `k` cells are behind it, and `step` of them are the last word. -/
def scanFrom (d : Dict) (k step : Nat) : List Int → Nat
  | [] => step
  | c :: rest =>
    match tableGet d.table (runeOf c) with
    | none => step
    | some n =>
      let step := if (d.table.node n).flag = .terminator then k + 1 else step
      match (d.table.node n).value with
      | none => step
      | some d => scanFrom d (k + 1) step rest

/-- `'*'`. -/
def star : Int := 42

/-- The outer loop of `dict_filter`, at most `fuel` times. -/
def filterLoop (d : Dict) : Nat → List Int → List Int × Bool
  | 0, text => (text, false)
  | _ + 1, [] => ([], false)
  | fuel + 1, c :: rest =>
    let step := scanFrom d 0 0 (c :: rest)
    if 0 < step then
      (List.replicate step star ++ (filterLoop d fuel ((c :: rest).drop step)).1, true)
    else
      let r := filterLoop d fuel rest
      (c :: r.1, r.2)

/-- `dict_filter` with the dictionary `g_dict`: the text after it, and what it returns. The text is a list
of integers. -/
def dictFilter (gdict : Option Dict) (text : List Int) : Except String (List Int × Bool) :=
  match gdict with
  | none => .error "need open first"
  | some d => .ok (filterLoop d text.length text)

/-! ## The longest word -/

/-- The words of a dictionary, as they are in a text. -/
def wordsOf (d : Dict) (w : List Int) : Prop := accepts d (w.map runeOf)

theorem not_wordsOf_nil (d : Dict) : ¬ wordsOf d [] := id

/-- The inner loop finds the longest word that the text begins with. -/
theorem scanFrom_spec (d : Dict) (k step : Nat) (text : List Int) : ∃ j,
    IsLongest (wordsOf d) text j ∧ scanFrom d k step text = if j = 0 then step else k + j := by
  induction text generalizing d k step with
  | nil => exact ⟨0, isLongest_zero fun j hj _ => Nat.le_zero.mp hj, rfl⟩
  | cons c rest ih =>
    obtain ⟨t⟩ := d
    rw [scanFrom]
    cases hget : tableGet (Dict.mk t).table (runeOf c) with
    | none =>
      have hlook : lookup t (runeOf c) = none := congrArg (Option.map _) hget
      refine ⟨0, isLongest_zero fun j _ hj => ?_, rfl⟩
      cases j with
      | zero => rfl
      | succ j =>
        rcases hj with ⟨-, v, h⟩ | ⟨f, d, h, -⟩
        · cases hlook.symm.trans h
        · cases hlook.symm.trans h
    | some n =>
      have hlook : lookup t (runeOf c) = some ((t.node n).flag, (t.node n).value) :=
        congrArg (Option.map _) hget
      have hword (w : List Int) : wordsOf (.mk t) (c :: w) ↔
          (w = [] ∧ (t.node n).flag = .terminator) ∨ ∃ d, (t.node n).value = some d ∧ wordsOf d w := by
        have h := accepts_cons (.inl hlook) (w.map runeOf)
        rw [List.map_eq_nil_iff] at h
        exact h
      have hnil : ¬ ∃ d, (t.node n).value = some d ∧ wordsOf d [] := by
        rintro ⟨d, -, h⟩
        exact h
      show ∃ j, IsLongest (wordsOf (.mk t)) (c :: rest) j ∧ (match (t.node n).value with
        | none => if (t.node n).flag = Flag.terminator then k + 1 else step
        | some d => scanFrom d (k + 1) (if (t.node n).flag = Flag.terminator then k + 1 else step) rest) = _
      cases hvalue : (t.node n).value with
      | none =>
        -- the way ends here, so that the only word is the cell itself
        have hsub : IsLongest (fun w => ∃ d, (t.node n).value = some d ∧ wordsOf d w) rest 0 := by
          refine isLongest_zero fun j _ hj => ?_
          obtain ⟨d, hd, -⟩ := hj
          cases hvalue.symm.trans hd
        refine ⟨_, hsub.cons hword hnil, ?_⟩
        by_cases hf : (t.node n).flag = .terminator
        · simp [hf]
        · simp [hf]
      | some d =>
        obtain ⟨j, hlong, hscan⟩ := ih d (k + 1) (if (t.node n).flag = .terminator then k + 1 else step)
        have hsub : IsLongest (fun w => ∃ d, (t.node n).value = some d ∧ wordsOf d w) rest j := by
          refine ⟨hlong.le, fun h => ⟨d, hvalue, hlong.word h⟩, fun j' hj' hw => ?_⟩
          obtain ⟨d', hd', hw⟩ := hw
          obtain rfl := Option.some.inj (hvalue.symm.trans hd')
          exact hlong.max j' hj' hw
        refine ⟨_, hsub.cons hword hnil, hscan.trans ?_⟩
        by_cases hj : j = 0
        · rw [if_pos hj, if_pos hj]
          by_cases hf : (t.node n).flag = .terminator
          · simp [hf]
          · simp [hf]
        · rw [if_neg hj, if_neg hj, if_neg (Nat.succ_ne_zero j), Nat.add_assoc, Nat.add_comm 1]

/-- The filter masks the words of its dictionary. -/
theorem filterLoop_masked (d : Dict) {fuel : Nat} {text : List Int} (h : text.length ≤ fuel) :
    Masked (wordsOf d) star text (filterLoop d fuel text).1 (filterLoop d fuel text).2 := by
  induction fuel generalizing text with
  | zero =>
    obtain rfl := List.length_eq_zero_iff.mp (Nat.le_zero.mp h)
    exact .nil
  | succ fuel ih =>
    cases text with
    | nil => exact .nil
    | cons c rest =>
      obtain ⟨j, hlong, hscan⟩ := scanFrom_spec d 0 0 (c :: rest)
      have hstep : scanFrom d 0 0 (c :: rest) = j := by
        rw [hscan]
        split <;> omega
      rw [filterLoop, hstep]
      rw [List.length_cons] at h
      by_cases hj : 0 < j
      · -- the longest word is masked, and the filter goes on behind it
        have hle := hlong.le
        have hlen : ((c :: rest).take j).length = j := by
          rw [List.length_take]
          omega
        have hne : (c :: rest).take j ≠ [] := fun he => by
          rw [he, List.length_nil] at hlen
          omega
        have hrest := @ih ((c :: rest).drop j) (by rw [List.length_drop, List.length_cons]; omega)
        rw [if_pos hj]
        have hmasked := Masked.word hne (by rw [List.take_append_drop, hlen]; exact hlong) hrest
        rw [List.take_append_drop, hlen] at hmasked
        exact hmasked
      · obtain rfl : j = 0 := by omega
        rw [if_neg hj]
        exact .cell hlong (ih (by omega))

/-! ## Calls of the library -/

/-- The words of a call of `dict_open`, if all of them are lists of integers. -/
def taken (words : List (Option (List (Option Int)))) : Option (List (List Int)) :=
  words.mapM fun word => word.bind fun l => l.mapM id

/-- The dictionary `g_dict` after calls of `dict_open`. -/
def opens (gdict : Option Dict) (calls : List (List (Option (List (Option Int))))) :
    Option (Option Dict) :=
  calls.foldlM (fun gdict words => (dictOpen gdict words).map Prod.fst) gdict

/-- A list all of whose members are images under `g`, which `f` takes back. -/
theorem mapM_eq_some_iff {α β : Type} {f : α → Option β} {g : β → α}
    (hfg : ∀ a b, f a = some b ↔ a = g b) {l : List α} {v : List β} :
    l.mapM f = some v ↔ l = v.map g := by
  induction l generalizing v with
  | nil =>
    rw [List.mapM_nil]
    cases v <;> simp
  | cons a l ih =>
    rw [List.mapM_cons]
    cases v with
    | nil =>
      cases f a with
      | none => simp
      | some b => cases List.mapM f l <;> simp
    | cons b v =>
      rw [List.map_cons, List.cons.injEq, ← hfg, ← ih]
      cases f a with
      | none => simp
      | some b => cases List.mapM f l <;> simp

/-- A call whose words are taken. -/
theorem taken_eq_some_iff {words : List (Option (List (Option Int)))} {l : List (List Int)} :
    taken words = some l ↔ words = l.map fun word => some (word.map some) := by
  refine mapM_eq_some_iff fun word l => ?_
  cases word with
  | none => simp
  | some word =>
    rw [Option.some.injEq]
    exact mapM_eq_some_iff fun a b => Iff.rfl

/-- A call whose words are not taken has a first word that is not a list of integers. -/
theorem taken_eq_none {words : List (Option (List (Option Int)))} (h : taken words = none) :
    ∃ (l : List (List Int)) (word : Option (List (Option Int))) (rest : List (Option (List (Option Int)))),
      words = (l.map fun word => some (word.map some)) ++ word :: rest ∧
        ∀ l', word = some l' → none ∈ l' := by
  induction words with
  | nil => cases h
  | cons word words ih =>
    by_cases hword : ∃ l : List Int, word = some (l.map some)
    · obtain ⟨l, rfl⟩ := hword
      have htail : taken words = none := by
        cases ht : taken words with
        | none => rfl
        | some ls =>
          have hall : taken (some (l.map some) :: words) = some (l :: ls) :=
            taken_eq_some_iff.mpr (congrArg (List.cons _) (taken_eq_some_iff.mp ht))
          exact absurd (h.symm.trans hall) (by simp)
      obtain ⟨ls, word, rest, rfl, hbad⟩ := ih htail
      exact ⟨l :: ls, word, rest, rfl, hbad⟩
    · refine ⟨[], word, words, rfl, ?_⟩
      rintro l rfl
      by_contra hnone
      refine hword ⟨l.map fun v => v.getD 0, ?_⟩
      rw [List.map_map]
      refine congrArg some ((List.map_id l).symm.trans (List.map_congr_left fun v hv => ?_))
      cases v with
      | none => exact absurd hv hnone
      | some v => rfl

/-- The words of the last call of `dict_open` that took all its words. -/
def lastTaken (calls : List (List (Option (List (Option Int))))) : Option (List (List Int)) :=
  (calls.filterMap taken).getLast?

/-- After any calls of `dict_open` there is a dictionary if one of them took its words, and it accepts
exactly the words of the last such call. -/
theorem opens_spec (calls : List (List (Option (List (Option Int))))) : ∃ gdict,
    opens none calls = some gdict ∧
      ((lastTaken calls = none ∧ gdict = none) ∨ ∃ words d, lastTaken calls = some words ∧
        gdict = some d ∧ ∀ w, accepts d w ↔ w ≠ [] ∧ w ∈ words.map (List.map runeOf)) := by
  induction calls using List.reverseRecOn with
  | nil => exact ⟨none, rfl, .inl ⟨rfl, rfl⟩⟩
  | append_singleton calls words ih =>
    obtain ⟨gdict, hrun, hstate⟩ := ih
    have hstep : opens none (calls ++ [words]) = (dictOpen gdict words).map Prod.fst := by
      unfold opens at hrun ⊢
      rw [List.foldlM_append, hrun]
      simp
    have hlast : lastTaken (calls ++ [words]) = (taken words).or (lastTaken calls) := by
      unfold lastTaken
      rw [List.filterMap_append, List.getLast?_append]
      cases htaken : taken words <;> simp [htaken]
    rw [hstep, hlast]
    cases htaken : taken words with
    | none =>
      -- the call fails, and the dictionary is what it was
      obtain ⟨l, word, rest, rfl, hbad⟩ := taken_eq_none htaken
      rw [(dictOpen_spec gdict l).2 word rest hbad]
      exact ⟨gdict, rfl, hstate⟩
    | some l =>
      obtain ⟨d, hopen, -, hacc⟩ := (dictOpen_spec gdict l).1
      rw [taken_eq_some_iff.mp htaken, hopen]
      exact ⟨some d, rfl, .inr ⟨l, d, rfl, rfl, hacc⟩⟩

/-- The words of a call, as they are in a text. -/
def wordsIn (words : List (List Int)) (w : List Int) : Prop :=
  w ≠ [] ∧ w.map runeOf ∈ words.map (List.map runeOf)

/-- `dict_filter` after any calls of `dict_open`. It fails as long as none of them took its words. Then it
masks the words of the last one that did, from left to right and the longest ones: it returns whether
there was one, leaves no word that a mask is not part of, and, when no word has a mask in it, does nothing
to a text that it made. -/
theorem dictFilter_spec (calls : List (List (Option (List (Option Int))))) (text : List Int) : ∃ gdict,
    opens none calls = some gdict ∧
      match lastTaken calls with
      | none => dictFilter gdict text = .error "need open first"
      | some words => ∃ out flag, dictFilter gdict text = .ok (out, flag) ∧
          Masked (wordsIn words) star text out flag ∧
          (flag = true ↔ Occurs (wordsIn words) text) ∧
          (∀ w, wordsIn words w → star ∉ w → ¬ w <:+: out) ∧
          ((∀ w, wordsIn words w → star ∉ w) → dictFilter gdict out = .ok (out, false)) := by
  obtain ⟨gdict, hrun, hstate⟩ := opens_spec calls
  refine ⟨gdict, hrun, ?_⟩
  rcases hstate with ⟨hlast, rfl⟩ | ⟨words, d, hlast, rfl, hacc⟩
  · rw [hlast]
    rfl
  · rw [hlast]
    have hwords : wordsOf d = wordsIn words := by
      funext w
      refine propext ((hacc _).trans (and_congr_left' (not_congr ?_)))
      exact List.map_eq_nil_iff
    have hmasked (text : List Int) := filterLoop_masked d (Nat.le_refl text.length)
    rw [hwords] at hmasked
    have hnil : ¬ wordsIn words [] := fun h => h.1 rfl
    refine ⟨_, _, rfl, hmasked text, (hmasked text).flag_iff hnil,
      fun w hw hs => (hmasked text).clean hw hw.1 hs, fun hs => ?_⟩
    obtain ⟨hout, hflag⟩ := (hmasked _).det ((hmasked text).again hnil hs)
    exact congrArg Except.ok (Prod.ext hout hflag)

end AntServer.Crab
