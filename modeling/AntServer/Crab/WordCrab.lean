/-
# AntServer.Crab.WordCrab — names that are valid

`service/common/word_crab/word_crab_mod.lua`. `init` opens a dictionary with the lines of a file, `filter`
masks the words in a string, and `is_valid` says that a string without its spaces is what `filter` makes of
it. A string that is not made of shortest forms is never valid, since `filter` would write it differently.
Of the others those are valid in which no word is (`isValid_spec`), and as no rune begins inside another
one, these are the strings that no line of the file is a part of (`isValid_lines`).

An error is a text and the string that is appended to it.
-/
import AntServer.Crab.Filter
import AntServer.Crab.Utf8

namespace AntServer.Crab

open Lib

/-- `M.init` with the lines of the file: the dictionary after it, and the error. -/
def init (gdict : Option Dict) (lines : List (List UInt8)) :
    Option (Option Dict × Option (String × List UInt8)) :=
  match lines.find? fun line => !(toutf32 line).2 with
  | some line => some (gdict, some ("non utf8 wods detected:", line))
  | none => (dictOpen gdict (lines.map fun line => some (ofRunes (toutf32 line).1))).map fun r =>
      (r.1, r.2.map fun e => (e, []))

/-- `M.filter`: none when `_toutf8` returns nothing. -/
def filter (gdict : Option Dict) (input : List UInt8) : Except String (Option (List UInt8)) :=
  if (toutf32 input).2 then
    (dictFilter gdict ((toutf32 input).1.map Int.ofNat)).map fun r => toutf8 (r.1.map some)
  else .error "non utf8 words detected:"

/-- `input:gsub(" ", "")`. -/
def gsubSpace (input : List UInt8) : List UInt8 := input.filter fun b => b ≠ 0x20

/-- `M.is_valid`. -/
def isValid (gdict : Option Dict) (input : List UInt8) : Except String Bool :=
  (filter gdict (gsubSpace input)).map fun out => out = some (gsubSpace input)

/-! ## A dictionary of lines -/

/-- The keys of a string of runes. -/
def keysOf (runes : List Nat) : List UInt32 := (runes.map Int.ofNat).map runeOf

/-- Runes are keys without a loss. -/
theorem map_toNat_keysOf {runes : List Nat} (h : ∀ r ∈ runes, r < 0x200000) :
    (keysOf runes).map UInt32.toNat = runes := by
  unfold keysOf
  rw [List.map_map, List.map_map]
  refine (List.map_congr_left fun r hr => ?_).trans (List.map_id runes)
  exact toNat_runeOf (Nat.lt_trans (h r hr) (by decide))

theorem keysOf_inj {l l' : List Nat} (h : ∀ r ∈ l, r < 0x200000) (h' : ∀ r ∈ l', r < 0x200000)
    (heq : keysOf l = keysOf l') : l = l' := by
  rw [← map_toNat_keysOf h, heq, map_toNat_keysOf h']

/-- The runes of a string are below 0x200000. -/
theorem toutf32_lt {str : List UInt8} : ∀ r ∈ (toutf32 str).1, r < 0x200000 := by
  intro r hr
  rw [toutf32_eq] at hr
  obtain ⟨f, -, rfl⟩ := List.mem_map.mp hr
  exact f.isLt

/-- The lines of a file make a dictionary of their runes. -/
theorem init_spec (gdict : Option Dict) {lines : List (List UInt8)}
    (h : ∀ line ∈ lines, (toutf32 line).2 = true) : ∃ d, init gdict lines = some (some d, none) ∧
      ∀ w, accepts d w ↔ w ≠ [] ∧ ∃ line ∈ lines, keysOf (toutf32 line).1 = w := by
  have hfind : lines.find? (fun line => !(toutf32 line).2) = none := by
    refine List.find?_eq_none.mpr fun line hline => ?_
    rw [h line hline]
    exact Bool.false_ne_true
  obtain ⟨⟨d, hopen, -, hacc⟩, -⟩ :=
    dictOpen_spec gdict (lines.map fun line => (toutf32 line).1.map Int.ofNat)
  refine ⟨d, ?_, fun w => ?_⟩
  · have hlines : (lines.map fun line => some (ofRunes (toutf32 line).1)) =
        (lines.map fun line => (toutf32 line).1.map Int.ofNat).map fun word => some (word.map some) := by
      rw [List.map_map]
      refine List.map_congr_left fun line _ => ?_
      show some (ofRunes (toutf32 line).1) = some (((toutf32 line).1.map Int.ofNat).map some)
      rw [List.map_map]
      rfl
    unfold init
    rw [hfind]
    show (dictOpen gdict _).map _ = _
    rw [hlines, hopen]
    rfl
  · rw [hacc, List.map_map, List.mem_map]
    exact Iff.rfl

section dictionary

variable {lines : List (List UInt8)} {d : Dict}

/-- A word of the dictionary occurs in runes exactly when the runes of a line do. -/
theorem occurs_iff (hd : ∀ w, accepts d w ↔ w ≠ [] ∧ ∃ line ∈ lines, keysOf (toutf32 line).1 = w)
    {runes : List Nat} (hr : ∀ r ∈ runes, r < 0x200000) :
    Occurs (wordsOf d) (runes.map Int.ofNat) ↔
      ∃ line ∈ lines, (toutf32 line).1 ≠ [] ∧ (toutf32 line).1 <:+: runes := by
  constructor
  · rintro ⟨w, hw, p, q, heq⟩
    -- the word is a part of the runes
    obtain ⟨l₁, l₂, rfl, hl₁, rfl⟩ := List.map_eq_append_iff.mp heq.symm
    obtain ⟨l₃, l₄, rfl, rfl, rfl⟩ := List.map_eq_append_iff.mp hl₁
    obtain ⟨hne, line, hline, hkeys⟩ := (hd _).mp hw
    have hruns : (toutf32 line).1 = l₄ := by
      refine keysOf_inj toutf32_lt (fun r hm => hr r ?_) hkeys
      exact List.mem_append_left _ (List.mem_append_right _ hm)
    refine ⟨line, hline, ?_, hruns ▸ ⟨l₃, l₂, rfl⟩⟩
    rw [hruns]
    rintro rfl
    exact hne rfl
  · rintro ⟨line, hline, hne, hin⟩
    refine ⟨(toutf32 line).1.map Int.ofNat, (hd _).mpr ⟨?_, line, hline, rfl⟩, hin.map _⟩
    rw [Ne, List.map_eq_nil_iff, List.map_eq_nil_iff]
    exact hne

/-- When no line is all masks, no word of the dictionary is. -/
theorem exists_ne_star (hd : ∀ w, accepts d w ↔ w ≠ [] ∧ ∃ line ∈ lines, keysOf (toutf32 line).1 = w)
    (hstar : ∀ line ∈ lines, (toutf32 line).1 ≠ [] → ∃ r ∈ (toutf32 line).1, r ≠ 0x2a) {w : List Int}
    (hw : wordsOf d w) : ∃ c ∈ w, c ≠ star := by
  obtain ⟨hne, line, hline, hkeys⟩ := (hd _).mp hw
  have hline' : (toutf32 line).1 ≠ [] := by
    intro hnil
    rw [hnil] at hkeys
    exact hne hkeys.symm
  by_contra hnone
  have hall (c : Int) (hc : c ∈ w) : c = star := by_contra fun h => hnone ⟨c, hc, h⟩
  obtain ⟨r, hr, hrs⟩ := hstar line hline hline'
  have hmem : runeOf (Int.ofNat r) ∈ w.map runeOf := by
    rw [← hkeys]
    exact List.mem_map_of_mem (List.mem_map_of_mem hr)
  obtain ⟨c, hc, hce⟩ := List.mem_map.mp hmem
  rw [hall c hc] at hce
  have hnat := congrArg UInt32.toNat hce
  have hrun : (runeOf (Int.ofNat r)).toNat = r := toNat_runeOf (Nat.lt_trans (toutf32_lt r hr) (by decide))
  rw [hrun] at hnat
  exact hrs hnat.symm

/-- `filter` gives a string back exactly when it is made of shortest forms and has no word in it. -/
theorem filter_eq_iff (hd : ∀ w, accepts d w ↔ w ≠ [] ∧ ∃ line ∈ lines, keysOf (toutf32 line).1 = w)
    (hstar : ∀ line ∈ lines, (toutf32 line).1 ≠ [] → ∃ r ∈ (toutf32 line).1, r ≠ 0x2a) {str : List UInt8}
    (hstr : (toutf32 str).2 = true) : ∃ out, filter (some d) str = .ok out ∧
      (out = some str ↔ IsUtf8 str ∧
        ∀ line ∈ lines, (toutf32 line).1 ≠ [] → ¬ (toutf32 line).1 <:+: (toutf32 str).1) := by
  have hmasked := filterLoop_masked d (Nat.le_refl ((toutf32 str).1.map Int.ofNat).length)
  generalize hout : filterLoop d ((toutf32 str).1.map Int.ofNat).length ((toutf32 str).1.map Int.ofNat) =
    r at hmasked
  refine ⟨toutf8 (r.1.map some), ?_, ?_⟩
  · unfold filter
    rw [if_pos hstr]
    show Except.ok (toutf8 ((filterLoop d _ _).1.map some)) = _
    rw [hout]
  · have heq := hmasked.eq_iff (not_wordsOf_nil d) fun w hw => exists_ne_star hd hstar hw
    rw [occurs_iff hd toutf32_lt] at heq
    have hsame : r.1 = (toutf32 str).1.map Int.ofNat ↔
        ∀ line ∈ lines, (toutf32 line).1 ≠ [] → ¬ (toutf32 line).1 <:+: (toutf32 str).1 := by
      rw [heq]
      constructor
      · exact fun h line hline hne hin => h ⟨line, hline, hne, hin⟩
      · rintro h ⟨line, hline, hne, hin⟩
        exact h line hline hne hin
    rw [← hsame]
    constructor
    · intro hwrite
      -- the cells of the outcome are runes too, as a mask is one
      obtain ⟨runes, hruns, hlt⟩ : ∃ runes : List Nat, r.1 = runes.map Int.ofNat ∧
          ∀ r ∈ runes, r < 0x200000 := by
        have hcell (c : Int) (hc : c ∈ r.1) : ∃ n : Nat, c = Int.ofNat n ∧ n < 0x200000 := by
          rcases hmasked.mem hc with hin | rfl
          · obtain ⟨n, hn, rfl⟩ := List.mem_map.mp hin
            exact ⟨n, rfl, toutf32_lt n hn⟩
          · exact ⟨42, rfl, by decide⟩
        refine ⟨r.1.map Int.toNat, ?_, fun n hn => ?_⟩
        · rw [List.map_map]
          refine (List.map_id r.1).symm.trans (List.map_congr_left fun c hc => ?_)
          obtain ⟨n, rfl, -⟩ := hcell c hc
          rfl
        · obtain ⟨c, hc, rfl⟩ := List.mem_map.mp hn
          obtain ⟨n, rfl, hlt⟩ := hcell c hc
          exact hlt
      obtain ⟨rs, rfl⟩ := exists_runes hlt
      have htable : r.1.map some = ofRunes (rs.map Fin.val) := by
        rw [hruns, List.map_map]
        rfl
      rw [htable] at hwrite
      by_cases hall : ∀ r ∈ rs, r.val < 0x110000
      · have hstr' := Option.some.inj ((toutf8_of_lt hall).symm.trans hwrite)
        refine ⟨isUtf8_iff.mpr ⟨rs, hall, hstr'.symm⟩, ?_⟩
        rw [hruns, ← hstr', toutf32_writeAll]
      · obtain ⟨r, hr⟩ := not_forall.mp hall
        obtain ⟨hmem, hge⟩ := Classical.not_imp.mp hr
        cases (toutf8_of_ge hmem hge).symm.trans hwrite
    · rintro ⟨hutf, hr⟩
      rw [hr]
      have h := ((toutf8_toutf32_iff str).mpr hutf).2
      rw [List.map_map]
      exact h

end dictionary

/-! ## Valid names -/

/-- After `init` with the lines of a file, `is_valid` fails on a string that cannot be read as runes. Any
other one is valid exactly when, without its spaces, it is made of shortest forms and has no word in it. -/
theorem isValid_spec (gdict : Option Dict) {lines : List (List UInt8)}
    (h : ∀ line ∈ lines, (toutf32 line).2 = true)
    (hstar : ∀ line ∈ lines, (toutf32 line).1 ≠ [] → ∃ r ∈ (toutf32 line).1, r ≠ 0x2a) : ∃ d,
      init gdict lines = some (some d, none) ∧ ∀ input,
        ((toutf32 (gsubSpace input)).2 = false →
          isValid (some d) input = .error "non utf8 words detected:") ∧
        ((toutf32 (gsubSpace input)).2 = true → ∃ b, isValid (some d) input = .ok b ∧
          (b = true ↔ IsUtf8 (gsubSpace input) ∧ ∀ line ∈ lines, (toutf32 line).1 ≠ [] →
            ¬ (toutf32 line).1 <:+: (toutf32 (gsubSpace input)).1)) := by
  obtain ⟨d, hinit, hd⟩ := init_spec gdict h
  refine ⟨d, hinit, fun input => ⟨fun hbad => ?_, fun hgood => ?_⟩⟩
  · have hfilter : filter (some d) (gsubSpace input) = .error "non utf8 words detected:" := by
      unfold filter
      rw [if_neg (by rw [hbad]; exact Bool.false_ne_true)]
    unfold isValid
    rw [hfilter]
    rfl
  · obtain ⟨out, hfilter, hiff⟩ := filter_eq_iff hd hstar hgood
    refine ⟨decide (out = some (gsubSpace input)), ?_, ?_⟩
    · unfold isValid
      rw [hfilter]
      rfl
    · rw [decide_eq_true_iff]
      exact hiff

/-- What is read from a string of shortest forms. -/
theorem IsUtf8.exists_runes {str : List UInt8} (h : IsUtf8 str) :
    ∃ rs : List (Fin 0x200000), str = utf8.writeAll rs ∧ toutf32 str = (rs.map Fin.val, true) := by
  obtain ⟨rs, -, rfl⟩ := isUtf8_iff.mp h
  exact ⟨rs, rfl, toutf32_writeAll rs⟩

theorem infix_map_val {l l' : List (Fin 0x200000)} : l.map Fin.val <:+: l'.map Fin.val ↔ l <:+: l' := by
  have hback (l : List (Fin 0x200000)) : (l.map Fin.val).map (Fin.ofNat 0x200000) = l := by
    rw [List.map_map]
    exact (List.map_congr_left fun r _ => Fin.ext (Nat.mod_eq_of_lt r.isLt)).trans (List.map_id l)
  constructor
  · intro h
    have h' := h.map (Fin.ofNat 0x200000)
    rwa [hback, hback] at h'
  · exact fun h => h.map _

/-- Of strings of shortest forms one is a part of the other exactly when its runes are a part. -/
theorem IsUtf8.infix_iff {s t : List UInt8} (hs : IsUtf8 s) (ht : IsUtf8 t) (hne : s ≠ []) :
    (toutf32 s).1 <:+: (toutf32 t).1 ↔ s <:+: t := by
  obtain ⟨rs, rfl, hrs⟩ := hs.exists_runes
  obtain ⟨rt, rfl, hrt⟩ := ht.exists_runes
  rw [hrs, hrt]
  refine infix_map_val.trans (utf8_synchronizes.infix_iff ?_).symm
  rintro rfl
  exact hne rfl

/-- A string of shortest forms is empty, or all masks, when its runes are. -/
theorem IsUtf8.runes_eq_nil_iff {s : List UInt8} (hs : IsUtf8 s) : (toutf32 s).1 = [] ↔ s = [] := by
  obtain ⟨rs, rfl, hrs⟩ := hs.exists_runes
  rw [hrs]
  constructor
  · intro h
    rw [List.map_eq_nil_iff.mp h]
    rfl
  · intro h
    cases rs with
    | nil => rfl
    | cons r rs => exact absurd (List.append_eq_nil_iff.mp h).1 (utf8.write_ne_nil r)

theorem IsUtf8.exists_rune_ne_star {s : List UInt8} (hs : IsUtf8 s) {b : UInt8} (hb : b ∈ s)
    (hne : b ≠ 0x2a) : ∃ r ∈ (toutf32 s).1, r ≠ 0x2a := by
  obtain ⟨rs, rfl, hrs⟩ := hs.exists_runes
  rw [hrs]
  obtain ⟨r, hr, hbr⟩ := List.mem_flatMap.mp hb
  refine ⟨r.val, List.mem_map_of_mem hr, fun hstar => hne ?_⟩
  have hr' : r = ⟨0x2a, by decide⟩ := Fin.ext hstar
  subst hr'
  exact List.mem_singleton.mp hbr

/-- When the lines are made of shortest forms, and none is all masks, a string is valid exactly when,
without its spaces, it is made of shortest forms and no line that is not empty is a part of it. -/
theorem isValid_lines (gdict : Option Dict) {lines : List (List UInt8)} (h : ∀ line ∈ lines, IsUtf8 line)
    (hstar : ∀ line ∈ lines, line ≠ [] → ∃ b ∈ line, b ≠ 0x2a) : ∃ d,
      init gdict lines = some (some d, none) ∧ ∀ input, isValid (some d) input = .ok true ↔
        IsUtf8 (gsubSpace input) ∧ ∀ line ∈ lines, line ≠ [] → ¬ line <:+: gsubSpace input := by
  have hread (line : List UInt8) (hline : line ∈ lines) : (toutf32 line).2 = true :=
    ((toutf8_toutf32_iff line).mpr (h line hline)).1
  have hmask (line : List UInt8) (hline : line ∈ lines) (hne : (toutf32 line).1 ≠ []) :
      ∃ r ∈ (toutf32 line).1, r ≠ 0x2a := by
    obtain ⟨b, hb, hbs⟩ := hstar line hline fun he => hne ((h line hline).runes_eq_nil_iff.mpr he)
    exact (h line hline).exists_rune_ne_star hb hbs
  obtain ⟨d, hinit, hvalid⟩ := isValid_spec gdict hread hmask
  refine ⟨d, hinit, fun input => ?_⟩
  obtain ⟨hbad, hgood⟩ := hvalid input
  by_cases hutf : IsUtf8 (gsubSpace input)
  · obtain ⟨b, hb, hiff⟩ := hgood ((toutf8_toutf32_iff _).mpr hutf).1
    rw [hb]
    refine Iff.trans ⟨fun he => Except.ok.inj he, congrArg _⟩ (hiff.trans (and_congr_right' ?_))
    refine forall₂_congr fun line hline => ?_
    have hl := h line hline
    refine ⟨fun hw hne => ?_, fun hw hne => ?_⟩
    · rw [← hl.infix_iff hutf hne]
      exact hw fun he => hne (hl.runes_eq_nil_iff.mp he)
    · have hne' : line ≠ [] := fun he => hne (hl.runes_eq_nil_iff.mpr he)
      rw [hl.infix_iff hutf hne']
      exact hw hne'
  · refine iff_of_false (fun hok => ?_) fun hok => hutf hok.1
    cases hr : (toutf32 (gsubSpace input)).2 with
    | false =>
      rw [hbad hr] at hok
      cases hok
    | true =>
      obtain ⟨b, hb, hiff⟩ := hgood hr
      rw [hb] at hok
      exact hutf (hiff.mp (Except.ok.inj hok)).1

/-- With the one line `ab`. -/
theorem isValid_lines_ab : ∃ d, init none [[0x61, 0x62]] = some (some d, none) ∧ ∀ input,
    isValid (some d) input = .ok true ↔
      IsUtf8 (gsubSpace input) ∧ ∀ line ∈ [[0x61, 0x62]], line ≠ [] → ¬ line <:+: gsubSpace input := by
  refine isValid_lines none (fun line hline => ?_) (fun line hline _ => ?_)
  · obtain rfl := List.mem_singleton.mp hline
    refine ⟨[[0x61], [0x62]], fun c hc => ?_, rfl⟩
    rcases List.mem_cons.mp hc with rfl | hc
    · exact .one (by decide)
    · obtain rfl := List.mem_singleton.mp hc
      exact .one (by decide)
  · obtain rfl := List.mem_singleton.mp hline
    exact ⟨0x61, List.mem_cons_self, by decide⟩

end AntServer.Crab
