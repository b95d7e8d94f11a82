/-
# AntServer.Crab.Dict — the dictionary of the word filter

The dictionary of `lualib-src/crab/lua-crab.c` is a tree of tables: the value of a node is the table of
what may come next, and a node where a word ends is flagged. `_dict_insert` walks down the word and makes
the tables that are missing; `dict_open` does this for every word and makes the dictionary the current one.

A Lua value of a word is none when it is not an integer, and a word is none when it is not a Lua table.
What a dictionary accepts after a word was inserted is what it accepted before and the word
(`dictInsert_spec`), so that an opened dictionary accepts exactly its words (`dictOpen_spec`), whatever
moved in its tables.
-/
import AntServer.Crab.Insert

namespace AntServer.Crab

/-- A table of the dictionary. The values of its nodes are tables again. -/
inductive Dict where
  | mk (table : Table Dict)

/-- The table of a dictionary. -/
def Dict.table : Dict → Table Dict
  | mk t => t

/-- `table_new`, as the value of a node. -/
def dictNew : Dict := .mk tableNew

/-- The key of a Lua integer. -/
def runeOf (v : Int) : UInt32 := UInt32.ofInt v

/-- `_dict_insert`: whether the word was taken, and the dictionary after it. -/
def dictInsert (d : Dict) : List (Option Int) → Option (Bool × Dict)
  | [] => some (true, d)
  | none :: _ => some (false, d)
  | some v :: rest => (tableInsert d.table (runeOf v)).bind fun r =>
    match rest with
    | [] => some (true, .mk (setNode r.1 r.2 { r.1.node r.2 with flag := .terminator }))
    | none :: _ => some (false, .mk r.1)
    | some v' :: rest =>
      (dictInsert ((r.1.node r.2).value.getD dictNew) (some v' :: rest)).map fun s =>
        (s.1, .mk (setNode r.1 r.2 { r.1.node r.2 with value := some s.2 }))

/-- The loop of `dict_open`, from the index `i` on. -/
def openFrom (d : Dict) (i : Nat) : List (Option (List (Option Int))) → Option (Except String Dict)
  | [] => some (.ok d)
  | none :: _ => some (.error s!"illegal parameters in table index {i}")
  | some word :: words => (dictInsert d word).bind fun r =>
    if r.1 then openFrom r.2 (i + 1) words else some (.error s!"illegal parameters in table index {i}")

/-- `dict_open` with the dictionary `g_dict`: the dictionary after it, and the error. -/
def dictOpen (gdict : Option Dict) (words : List (Option (List (Option Int)))) :
    Option (Option Dict × Option String) :=
  (openFrom dictNew 1 words).map fun
    | .ok d => (some d, none)
    | .error e => (gdict, some e)

/-! ## What a dictionary accepts -/

/-- There is a way down the dictionary along the word, and its last node is flagged. -/
def accepts (d : Dict) : List UInt32 → Prop
  | [] => False
  | r :: w => (w = [] ∧ ∃ v, lookup d.table r = some (.terminator, v)) ∨
      ∃ f d', lookup d.table r = some (f, some d') ∧ accepts d' w

/-- All tables of a dictionary are well-formed. -/
inductive Dict.Sound : Dict → Prop
  | mk {t : Table Dict} {ch : Nat → List Nat} : WF t ch →
      (∀ r f d, lookup t r = some (f, some d) → Dict.Sound d) → Dict.Sound (.mk t)

theorem dictNew_sound : dictNew.Sound := by
  refine .mk wf_tableNew fun r f d h => ?_
  rw [lookup_tableNew] at h
  cases h

theorem not_accepts_dictNew (w : List UInt32) : ¬ accepts dictNew w := by
  cases w with
  | nil => exact id
  | cons r w =>
    rintro (⟨-, v, h⟩ | ⟨f, d, h, -⟩)
    · cases (lookup_tableNew r).symm.trans h
    · cases (lookup_tableNew r).symm.trans h

/-- The node of a key in a table, or a new node when there is none. -/
def NodeAt (t : Table Dict) (r : UInt32) (f : Flag) (x : Option Dict) : Prop :=
  lookup t r = some (f, x) ∨ (lookup t r = none ∧ f = .nonTerminator ∧ x = none)

theorem accepts_cons {t : Table Dict} {r : UInt32} {f : Flag} {x : Option Dict} (h : NodeAt t r f x)
    (w : List UInt32) :
    accepts (.mk t) (r :: w) ↔ (w = [] ∧ f = .terminator) ∨ ∃ d, x = some d ∧ accepts d w := by
  show (w = [] ∧ ∃ v, lookup t r = some (.terminator, v)) ∨
    (∃ f d', lookup t r = some (f, some d') ∧ accepts d' w) ↔ _
  rcases h with hl | ⟨hl, rfl, rfl⟩
  · simp only [hl, Option.some.injEq, Prod.mk.injEq, exists_and_left, exists_eq', exists_eq_left',
      and_true, and_assoc]
  · simp [hl]

theorem accepts_congr {t t' : Table Dict} {r : UInt32} (h : lookup t' r = lookup t r) (w : List UInt32) :
    accepts (.mk t') (r :: w) ↔ accepts (.mk t) (r :: w) := by
  show (w = [] ∧ ∃ v, lookup t' r = some (.terminator, v)) ∨
    (∃ f d', lookup t' r = some (f, some d') ∧ accepts d' w) ↔ _
  rw [h]
  exact Iff.rfl

/-- The value of a node, or a new table, accepts what is accepted behind the key. -/
theorem accepts_getD (x : Option Dict) (w : List UInt32) :
    accepts (x.getD dictNew) w ↔ ∃ d, x = some d ∧ accepts d w := by
  cases x with
  | none => exact iff_of_false (not_accepts_dictNew w) (by rintro ⟨d, hd, -⟩; cases hd)
  | some d => simp

/-- `table_insert` leaves the node of the key as it was, or makes a new one. -/
theorem nodeAt_of_insert {t t' : Table Dict} {ch' : Nat → List Nat} {r : UInt32} {i : Nat}
    (hwf' : WF t' ch') (hu : Used t' i) (hk : (t'.node i).key = r)
    (hlook : lookup t' r = some ((lookup t r).getD (.nonTerminator, none))) :
    NodeAt t r (t'.node i).flag (t'.node i).value := by
  have hnode := hwf'.lookup_node hu
  rw [hk, hlook] at hnode
  cases hl : lookup t r with
  | none =>
    rw [hl] at hnode
    obtain ⟨hf, hx⟩ := Prod.mk.inj (Option.some.inj hnode)
    exact .inr ⟨hl, hf.symm, hx.symm⟩
  | some e =>
    rw [hl] at hnode
    exact .inl (hl.trans hnode)

theorem NodeAt.sound {t : Table Dict} {r : UInt32} {f : Flag} {x : Option Dict} (h : NodeAt t r f x)
    (hsub : ∀ r f d, lookup t r = some (f, some d) → Dict.Sound d) {d : Dict} (hd : x = some d) :
    d.Sound := by
  rcases h with hl | ⟨-, -, hnone⟩
  · exact hsub _ _ d (hd ▸ hl)
  · rw [hnone] at hd
    cases hd

theorem NodeAt.sound_getD {t : Table Dict} {r : UInt32} {f : Flag} {x : Option Dict} (h : NodeAt t r f x)
    (hsub : ∀ r f d, lookup t r = some (f, some d) → Dict.Sound d) : (x.getD dictNew).Sound := by
  cases x with
  | none => exact dictNew_sound
  | some d => exact h.sound hsub rfl

/-- A node is written in a sound dictionary. -/
theorem Dict.Sound.write {t t' : Table Dict} {ch' : Nat → List Nat} {r : UInt32} {f : Flag}
    {x : Option Dict} (hsub : ∀ r f d, lookup t r = some (f, some d) → Dict.Sound d) (hwf' : WF t' ch')
    (hx : ∀ d, x = some d → d.Sound)
    (hlook : ∀ k, lookup t' k = if k = r then some (f, x) else lookup t k) : Dict.Sound (.mk t') := by
  refine .mk hwf' fun k f' d h => ?_
  rw [hlook] at h
  by_cases hk : k = r
  · rw [if_pos hk] at h
    exact hx d (Prod.mk.inj (Option.some.inj h)).2
  · rw [if_neg hk] at h
    exact hsub k f' d h

/-- `_dict_insert` takes every word of integers, and adds it to what is accepted. -/
theorem dictInsert_spec {d : Dict} (hd : d.Sound) {word : List Int} (hne : word ≠ []) : ∃ d',
    dictInsert d (word.map some) = some (true, d') ∧ d'.Sound ∧
      ∀ w, accepts d' w ↔ w = word.map runeOf ∨ accepts d w := by
  induction word generalizing d with
  | nil => exact absurd rfl hne
  | cons v rest ih =>
    obtain ⟨hwf, hsub⟩ := hd
    rename_i t ch
    obtain ⟨t', i, ch', hins, hwf', hu, hk, hlook, -, -⟩ := tableInsert_spec hwf (runeOf v)
    have hold := nodeAt_of_insert hwf' hu hk ((hlook _).trans (if_pos rfl))
    have hwrite {f : Flag} (hf : f ≠ .empty) (x : Option Dict) (k : UInt32) :
        lookup (setNode t' i { t'.node i with flag := f, value := x }) k =
          if k = runeOf v then some (f, x) else lookup t k := by
      rw [hwf'.lookup_write hu hf, hk, hlook]
      by_cases hkk : k = runeOf v
      · rw [if_pos hkk, if_pos hkk]
      · rw [if_neg hkk, if_neg hkk, if_neg hkk]
    -- what is accepted after the node was written: behind other keys nothing changes
    have haccepts {f : Flag} (hf : f ≠ .empty) (x : Option Dict) (rest' : List UInt32)
        (hrest : ∀ w, ((w = [] ∧ f = .terminator) ∨ ∃ d, x = some d ∧ accepts d w) ↔ w = rest' ∨
          ((w = [] ∧ (t'.node i).flag = .terminator) ∨ ∃ d, (t'.node i).value = some d ∧ accepts d w))
        (w : List UInt32) :
        accepts (.mk (setNode t' i { t'.node i with flag := f, value := x })) w ↔
          w = runeOf v :: rest' ∨ accepts (.mk t) w := by
      cases w with
      | nil =>
        refine ⟨False.elim, ?_⟩
        rintro (h | h)
        · cases h
        · exact h
      | cons r w =>
        by_cases hr : r = runeOf v
        · rw [hr, accepts_cons (.inl ((hwrite hf x _).trans (if_pos rfl))), accepts_cons hold, hrest w,
            List.cons.injEq]
          simp only [true_and]
        · rw [accepts_congr ((hwrite hf x r).trans (if_neg hr)), List.cons.injEq]
          simp only [hr, false_and, false_or]
    cases rest with
    | nil =>
      have hf : Flag.terminator ≠ .empty := by decide
      refine ⟨_, ?_, Dict.Sound.write hsub (hwf'.write hu hf (t'.node i).value).1
        (fun _ => hold.sound hsub) (hwrite hf _),
        haccepts hf _ [] fun w => ?_⟩
      · show (tableInsert t (runeOf v)).bind _ = _
        rw [hins]
        rfl
      · simp only [and_true]
        tauto
    | cons v' rest =>
      have hf : (t'.node i).flag ≠ .empty := of_decide_eq_false hu.2
      obtain ⟨d', hrec, hd', hacc⟩ := ih (hold.sound_getD hsub) (List.cons_ne_nil v' rest)
      refine ⟨_, ?_, Dict.Sound.write hsub (hwf'.write hu hf (some d')).1 ?_ (hwrite hf _),
        haccepts hf _ ((v' :: rest).map runeOf) fun w => ?_⟩
      · show (tableInsert t (runeOf v)).bind _ = _
        rw [hins]
        show (dictInsert _ (some v' :: rest.map some)).map _ = _
        rw [List.map_cons] at hrec
        rw [hrec]
        rfl
      · intro d heq
        obtain rfl := Option.some.inj heq
        exact hd'
      · have hsome : (∃ d, some d' = some d ∧ accepts d w) ↔ accepts d' w := by simp
        rw [hsome, hacc w, accepts_getD]
        tauto

/-- `_dict_insert` takes no other word, but it comes back from it. -/
theorem dictInsert_bad {d : Dict} (hd : d.Sound) {word : List (Option Int)} (hbad : none ∈ word) :
    ∃ d', dictInsert d word = some (false, d') := by
  induction word generalizing d with
  | nil => cases hbad
  | cons v rest ih =>
    cases v with
    | none => exact ⟨d, rfl⟩
    | some v =>
      have hrest : none ∈ rest := (List.mem_cons.mp hbad).resolve_left (by simp)
      obtain ⟨hwf, hsub⟩ := hd
      rename_i t ch
      obtain ⟨t', i, ch', hins, hwf', hu, hk, hlook, -, -⟩ := tableInsert_spec hwf (runeOf v)
      have hold := nodeAt_of_insert hwf' hu hk ((hlook _).trans (if_pos rfl))
      cases rest with
      | nil => cases hrest
      | cons v' rest =>
        cases v' with
        | none =>
          refine ⟨.mk t', ?_⟩
          show (tableInsert t (runeOf v)).bind _ = _
          rw [hins]
          rfl
        | some v' =>
          have hsound : ((t'.node i).value.getD dictNew).Sound := hold.sound_getD hsub
          obtain ⟨d', hrec⟩ := ih hsound hrest
          refine ⟨.mk (setNode t' i { t'.node i with value := some d' }), ?_⟩
          show (tableInsert t (runeOf v)).bind _ = _
          rw [hins]
          show (dictInsert _ (some v' :: rest)).map _ = _
          rw [hrec]
          rfl

/-! ## Opening a dictionary -/

/-- The loop of `dict_open` over words of integers. -/
theorem openFrom_spec {d : Dict} (hd : d.Sound) (i : Nat) (words : List (List Int)) : ∃ d',
    (∀ rest, openFrom d i (words.map (fun word => some (word.map some)) ++ rest) =
      openFrom d' (i + words.length) rest) ∧ d'.Sound ∧
    ∀ w, accepts d' w ↔ (w ≠ [] ∧ w ∈ words.map (List.map runeOf)) ∨ accepts d w := by
  induction words generalizing d i with
  | nil => exact ⟨d, fun _ => rfl, hd, fun w => by simp⟩
  | cons word words ih =>
    by_cases hne : word = []
    · -- an empty word is taken and changes nothing
      obtain ⟨d', hrun, hd', hacc⟩ := ih hd (i + 1)
      refine ⟨d', fun rest => ?_, hd', fun w => ?_⟩
      · rw [List.length_cons, Nat.add_comm words.length, ← Nat.add_assoc, ← hrun rest, hne]
        rfl
      · rw [hacc, hne]
        simp only [List.map_cons, List.map_nil, List.mem_cons]
        tauto
    · obtain ⟨d₁, hins, hd₁, hacc₁⟩ := dictInsert_spec hd hne
      obtain ⟨d', hrun, hd', hacc⟩ := ih hd₁ (i + 1)
      refine ⟨d', fun rest => ?_, hd', fun w => ?_⟩
      · rw [List.length_cons, Nat.add_comm words.length, ← Nat.add_assoc, ← hrun rest]
        show (dictInsert d (word.map some)).bind _ = _
        rw [hins]
        rfl
      · rw [hacc, hacc₁, List.map_cons, List.mem_cons]
        constructor
        · rintro (⟨h1, h2⟩ | rfl | h)
          · exact .inl ⟨h1, .inr h2⟩
          · exact .inl ⟨fun h => hne (List.map_eq_nil_iff.mp h), .inl rfl⟩
          · exact .inr h
        · rintro (⟨h1, rfl | h2⟩ | h)
          · exact .inr (.inl rfl)
          · exact .inl ⟨h1, h2⟩
          · exact .inr (.inr h)

/-- `dict_open` takes every list of words of integers. The dictionary it makes the current one accepts
exactly the words that are not empty. At the first word that is not such a list it fails, and the current
dictionary is what it was. -/
theorem dictOpen_spec (gdict : Option Dict) (words : List (List Int)) :
    (∃ d, dictOpen gdict (words.map fun word => some (word.map some)) = some (some d, none) ∧ d.Sound ∧
      ∀ w, accepts d w ↔ w ≠ [] ∧ w ∈ words.map (List.map runeOf)) ∧
    ∀ word rest, (∀ l, word = some l → none ∈ l) →
      dictOpen gdict ((words.map fun word => some (word.map some)) ++ word :: rest) =
        some (gdict, some s!"illegal parameters in table index {words.length + 1}") := by
  obtain ⟨d, hrun, hd, hacc⟩ := openFrom_spec dictNew_sound 1 words
  constructor
  · refine ⟨d, ?_, hd, fun w => ?_⟩
    · have h := hrun []
      rw [List.append_nil] at h
      unfold dictOpen
      rw [h]
      rfl
    · rw [hacc]
      exact ⟨fun h => h.resolve_right (not_accepts_dictNew w), .inl⟩
  · intro word rest hbad
    unfold dictOpen
    rw [hrun, Nat.add_comm 1]
    cases word with
    | none => rfl
    | some l =>
      obtain ⟨d', hfail⟩ := dictInsert_bad hd (hbad l rfl)
      show ((dictInsert d l).bind _).map _ = _
      rw [hfail]
      rfl

end AntServer.Crab
