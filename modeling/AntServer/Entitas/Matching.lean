/-
# AntServer.Entitas.Matching — the matchers whose groups can be followed

A matcher says of a set of components whether an entity with them matches (`Matches`), and of one component
whether it concerns the matcher (`matchOne`). A group is looked at when a component concerns its matcher
only, so that it is up to date if the matcher is steady for the components that concern it. For a matcher
this can be read off its lists (`steady_iff`): it matches no entity, or it asks for all of some components
and for nothing else, where one of several components and none of some are something else.
-/
import AntServer.Entitas.Context
import AntServer.Lib.WatchedSets

namespace AntServer.Entitas.Matcher

open Lib

/-! ## What a matcher says -/

variable {N : Type*} [DecidableEq N]

/-- An entity with the components `S` matches. -/
def Matches (m : Matcher N) (S : Finset N) : Prop := m.matchNames (fun n => decide (n ∈ S)) = true

/-- The component concerns the matcher. -/
def Concerns (m : Matcher N) (name : N) : Prop := m.matchOne name = true

theorem matches_iff (m : Matcher N) (S : Finset N) :
    m.Matches S ↔ (∀ l, m.allOf = some l → l ≠ [] ∧ ∀ a ∈ l, a ∈ S) ∧
      (∀ l, m.anyOf = some l → ∃ a ∈ l, a ∈ S) ∧ ∀ a ∈ m.noneOf.getD [], a ∉ S := by
  have hall (l : List N) : hasAll (fun n => decide (n ∈ S)) l = true ↔ l ≠ [] ∧ ∀ a ∈ l, a ∈ S := by
    cases l <;> simp [hasAll]
  have hany (l : List N) : hasAny (fun n => decide (n ∈ S)) l = true ↔ ∃ a ∈ l, a ∈ S := by
    cases l <;> simp [hasAny]
  obtain ⟨allOf, anyOf, noneOf⟩ := m
  unfold Matches matchNames
  rw [Bool.and_eq_true, Bool.and_eq_true, and_assoc]
  refine and_congr ?_ (and_congr ?_ ?_)
  · cases allOf <;> simp [hall]
  · cases anyOf <;> simp [hany]
  · cases noneOf with
    | none => simp
    | some l =>
      rw [Option.all_some, Bool.not_eq_true', ← Bool.not_eq_true, hany]
      simp

theorem concerns_iff (m : Matcher N) (name : N) :
    m.Concerns name ↔ (∀ l, m.allOf = some l → name ∈ l) ∧ (∀ l, m.anyOf = some l → name ∈ l) ∧
      name ∉ m.noneOf.getD [] := by
  obtain ⟨allOf, anyOf, noneOf⟩ := m
  unfold Concerns matchOne
  rw [Bool.and_eq_true, Bool.and_eq_true, and_assoc]
  refine and_congr ?_ (and_congr ?_ ?_)
  · cases allOf <;> simp
  · cases anyOf <;> simp
  · cases noneOf <;> simp

/-! ## Matchers that match nothing -/

/-- No entity matches: an empty list is asked for, a component that is excluded, or one of components that
all are. -/
def Never (m : Matcher N) : Prop :=
  m.allOf = some [] ∨ (∃ a ∈ m.allOf.getD [], a ∈ m.noneOf.getD []) ∨
    (m.anyOf.isSome ∧ ∀ a ∈ m.anyOf.getD [], a ∈ m.noneOf.getD [])

theorem never_iff (m : Matcher N) : m.Never ↔ ∀ S, ¬ m.Matches S := by
  constructor
  · rintro (hall | ⟨a, ha, hnone⟩ | ⟨hsome, hany⟩) S hS
    · exact (((m.matches_iff S).mp hS).1 _ hall).1 rfl
    · obtain ⟨h1, -, h3⟩ := (m.matches_iff S).mp hS
      cases hl : m.allOf with
      | none =>
        rw [hl] at ha
        cases ha
      | some l =>
        rw [hl] at ha
        exact h3 a hnone ((h1 l hl).2 a ha)
    · obtain ⟨-, h2, h3⟩ := (m.matches_iff S).mp hS
      obtain ⟨l, hl⟩ := Option.isSome_iff_exists.mp hsome
      obtain ⟨a, ha, haS⟩ := h2 l hl
      rw [hl] at hany
      exact h3 a (hany a ha) haS
  · intro h
    by_contra hnot
    unfold Never at hnot
    push Not at hnot
    obtain ⟨hall, hnone, hany⟩ := hnot
    -- the components that are asked for, with one of those of which one is asked for
    have hone : ∃ T : Finset N, (∀ l, m.anyOf = some l → ∃ a ∈ l, a ∈ T) ∧ ∀ a ∈ T, a ∉ m.noneOf.getD [] := by
      cases hl : m.anyOf with
      | none => exact ⟨∅, by rintro l ⟨⟩, by simp⟩
      | some l =>
        rw [hl] at hany
        obtain ⟨a, ha, hout⟩ := hany rfl
        refine ⟨{a}, ?_, ?_⟩
        · rintro l' ⟨⟩
          exact ⟨a, ha, Finset.mem_singleton_self a⟩
        · intro b hb
          rw [Finset.mem_singleton.mp hb]
          exact hout
    obtain ⟨T, hT, hTout⟩ := hone
    refine h ((m.allOf.getD []).toFinset ∪ T) ((m.matches_iff _).mpr ⟨?_, ?_, ?_⟩)
    · intro l hl
      refine ⟨fun hempty => hall (hempty ▸ hl), fun a ha => ?_⟩
      rw [hl]
      exact Finset.mem_union_left T (List.mem_toFinset.mpr ha)
    · intro l hl
      obtain ⟨a, ha, haT⟩ := hT l hl
      exact ⟨a, ha, Finset.mem_union_right _ haT⟩
    · intro a ha hmem
      rcases Finset.mem_union.mp hmem with hl | hl
      · exact hnone a (List.mem_toFinset.mp hl) ha
      · exact hTout a hl ha

/-! ## Matchers that the events keep up to date -/

/-- The matcher asks for all of some components and for nothing else. -/
def Conjunctive (m : Matcher N) : Prop :=
  m.noneOf.getD [] = [] ∧
    match m.allOf, m.anyOf with
    | some all, some any => ∀ a ∈ all, a ∈ any
    | some _, none => True
    | none, some any => ∀ a ∈ any, ∀ b ∈ any, a = b
    | none, none => False

/-- A group of the matcher is up to date (`group_exact_iff`). -/
def Steady (m : Matcher N) : Prop := m.Never ∨ m.Conjunctive

/-- With an entity that matches: what concerns a conjunctive matcher is what it asks for. -/
theorem Conjunctive.watched {m : Matcher N} (h : m.Conjunctive) (hsome : ¬ m.Never) :
    (∃ a, m.Concerns a) ∧ ∀ S, m.Matches S ↔ ∀ a, m.Concerns a → a ∈ S := by
  obtain ⟨allOf, anyOf, noneOf⟩ := m
  obtain ⟨hnone, h⟩ := h
  unfold Never at hsome
  push Not at hsome
  obtain ⟨hall, -, hany⟩ := hsome
  simp only at hnone h hall hany
  simp only [matches_iff, concerns_iff, hnone, List.not_mem_nil, not_false_eq_true, and_true, false_implies,
    implies_true]
  cases allOf with
  | none =>
    cases anyOf with
    | none => exact h.elim
    | some any =>
      -- one of `any`, which are all the same
      obtain ⟨a, ha, -⟩ := hany rfl
      simp only [Option.some.injEq, forall_eq', reduceCtorEq, false_implies, implies_true, true_and]
      refine ⟨⟨a, ha⟩, fun S => ⟨?_, fun hS => ⟨a, ha, hS a ha⟩⟩⟩
      rintro ⟨b, hb, hbS⟩ c hc
      exact h b hb c hc ▸ hbS
  | some all =>
    have hne : all ≠ [] := fun h => hall (congrArg some h)
    obtain ⟨a, ha⟩ := List.exists_mem_of_ne_nil all hne
    cases anyOf with
    | none =>
      -- all of `all`
      simp only [Option.some.injEq, forall_eq', reduceCtorEq, false_implies, implies_true, and_true]
      exact ⟨⟨a, ha⟩, fun S => and_iff_right hne⟩
    | some any =>
      -- all of `all`, where one of `any` is among them
      simp only [Option.some.injEq, forall_eq']
      refine ⟨⟨a, ha, h a ha⟩, fun S => ⟨fun hS b hb => hS.1.2 b hb.1, fun hS => ⟨⟨hne, fun b hb => ?_⟩, a, h a ha, ?_⟩⟩⟩
      · exact hS b ⟨hb, h b hb⟩
      · exact hS a ⟨ha, h a ha⟩

/-- With an entity that matches: a matcher whose matching sets are those with what concerns it is
conjunctive. -/
theorem conjunctive_of_watched {m : Matcher N} (hsome : ¬ m.Never) (hex : ∃ a, m.Concerns a)
    (h : ∀ S, m.Matches S ↔ ∀ a, m.Concerns a → a ∈ S) : m.Conjunctive := by
  have hmatch : ∃ T, m.Matches T := by
    by_contra hno
    exact hsome (m.never_iff.mpr fun S hS => hno ⟨S, hS⟩)
  obtain ⟨T, hT⟩ := hmatch
  -- to add or to take away what does not concern the matcher does not matter
  have hnone : m.noneOf.getD [] = [] := by
    by_contra hne
    obtain ⟨x, hx⟩ := List.exists_mem_of_ne_nil _ hne
    have hins : m.Matches (insert x T) :=
      (h _).mpr fun a ha => Finset.mem_insert_of_mem ((h T).mp hT a ha)
    exact ((m.matches_iff _).mp hins).2.2 x hx (Finset.mem_insert_self x T)
  have hconcerns (a : N) : m.Concerns a ↔ (∀ l, m.allOf = some l → a ∈ l) ∧ ∀ l, m.anyOf = some l → a ∈ l := by
    rw [concerns_iff, hnone]
    simp
  have hmatches (S : Finset N) : m.Matches S ↔ (∀ l, m.allOf = some l → l ≠ [] ∧ ∀ a ∈ l, a ∈ S) ∧
      ∀ l, m.anyOf = some l → ∃ a ∈ l, a ∈ S := by
    rw [matches_iff, hnone]
    simp
  refine ⟨hnone, ?_⟩
  obtain ⟨allOf, anyOf, noneOf⟩ := m
  match allOf, anyOf with
  | none, none =>
    -- the empty set matches, but something concerns the matcher
    have hempty : Matches ⟨none, none, noneOf⟩ (∅ : Finset N) := (hmatches ∅).mpr (by simp)
    obtain ⟨a, ha⟩ := hex
    exact absurd ((h ∅).mp hempty a ha) (Finset.notMem_empty a)
  | none, some any =>
    intro a ha b hb
    have ha' : Matches ⟨none, some any, noneOf⟩ {a} := by
      refine (hmatches {a}).mpr ⟨by rintro l ⟨⟩, ?_⟩
      rintro l ⟨⟩
      exact ⟨a, ha, Finset.mem_singleton_self a⟩
    have hb' : b ∈ ({a} : Finset N) := (h {a}).mp ha' b ((hconcerns b).mpr ⟨by rintro l ⟨⟩, by rintro l ⟨⟩; exact hb⟩)
    exact (Finset.mem_singleton.mp hb').symm
  | some all, none => trivial
  | some all, some any =>
    intro a ha
    by_contra hout
    have hfree : ¬ Concerns ⟨some all, some any, noneOf⟩ a := fun hc => hout (((hconcerns a).mp hc).2 any rfl)
    have herase : Matches ⟨some all, some any, noneOf⟩ (T.erase a) := by
      refine (h _).mpr fun b hb => Finset.mem_erase.mpr ⟨?_, (h T).mp hT b hb⟩
      rintro rfl
      exact hfree hb
    exact Finset.notMem_erase a T ((((hmatches _).mp herase).1 all rfl).2 a ha)

/-- A matcher is steady if and only if it matches no entity, or asks for all of some components and for
nothing else. -/
theorem steady_iff (m : Matcher N) : WatchedSets.Steady m.Matches m.Concerns ↔ m.Steady := by
  unfold WatchedSets.Steady Steady
  by_cases hnever : m.Never
  · exact iff_of_true (.inl (m.never_iff.mp hnever)) (.inl hnever)
  · rw [← never_iff, or_iff_right hnever, or_iff_right hnever]
    exact ⟨fun h => conjunctive_of_watched hnever h.1 h.2, fun h => h.watched hnever⟩

end AntServer.Entitas.Matcher
