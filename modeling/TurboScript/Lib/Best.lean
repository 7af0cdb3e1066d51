import Mathlib.Data.List.Basic

/- The first entry with the highest positive score.

   A search keeps the best entry so far and replaces it only by a better one, so of several
   best entries it finds the first. `bestOf_spec` says what is found, `bestOf_of_unique` that
   a single best entry is found wherever it stands, `bestOf_cons` that any best entry is found
   once it stands first. -/
namespace TurboScript.Lib

variable {α : Type} (score : α → Nat)

/-- One step: the best entry so far with its score, and the next entry. -/
def better (best : Option α × Nat) (a : α) : Option α × Nat :=
  if best.2 < score a then (some a, score a) else best

/-- The entry that is left after all steps. -/
def bestOf (l : List α) : Option α := (l.foldl (better score) (none, 0)).1

variable {score}

/-- The best so far: nothing yet, or an entry with its score. -/
def BestSoFar (score : α → Nat) (best : Option α × Nat) : Prop :=
  (best = (none, 0)) ∨ ∃ a, best = (some a, score a) ∧ 0 < score a

theorem BestSoFar.better {best : Option α × Nat} (h : BestSoFar score best) (a : α) :
    BestSoFar score (better score best a) := by
  unfold Lib.better
  split
  · rename_i hlt
    exact .inr ⟨a, rfl, by omega⟩
  · exact h

theorem better_le (best : Option α × Nat) (a : α) :
    best.2 ≤ (better score best a).2 ∧ score a ≤ (better score best a).2 := by
  unfold better
  split
  · rename_i hlt
    exact ⟨Nat.le_of_lt hlt, Nat.le_refl _⟩
  · rename_i hlt
    exact ⟨Nat.le_refl _, Nat.le_of_not_lt hlt⟩

/-- The search from `best`: what is left scores at least as much as everything seen, and is
one of the entries or `best` itself. -/
theorem foldl_better (l : List α) : ∀ {best : Option α × Nat}, BestSoFar score best →
    BestSoFar score (l.foldl (better score) best) ∧ best.2 ≤ (l.foldl (better score) best).2 ∧
      (∀ a ∈ l, score a ≤ (l.foldl (better score) best).2) ∧
      (l.foldl (better score) best = best ∨ ∃ a ∈ l, l.foldl (better score) best = (some a, score a)) := by
  induction l with
  | nil => intro best h; exact ⟨h, Nat.le_refl _, nofun, .inl rfl⟩
  | cons x l ih =>
    intro best h
    rw [List.foldl_cons]
    obtain ⟨hh, hle, hall, hfrom⟩ := ih (h.better x)
    obtain ⟨hbest, hx⟩ := @better_le _ score best x
    refine ⟨hh, Nat.le_trans hbest hle, ?_, ?_⟩
    · intro a ha
      rcases List.mem_cons.1 ha with rfl | ha
      · exact Nat.le_trans hx hle
      · exact hall a ha
    · rcases hfrom with hsame | ⟨a, ha, heq⟩
      · rw [hsame]
        unfold better
        split
        · exact .inr ⟨x, List.mem_cons_self, rfl⟩
        · exact .inl rfl
      · exact .inr ⟨a, List.mem_cons_of_mem x ha, heq⟩

theorem bestOf_spec {l : List α} {a : α} (h : bestOf score l = some a) :
    a ∈ l ∧ 0 < score a ∧ ∀ b ∈ l, score b ≤ score a := by
  obtain ⟨hholds, -, hall, hfrom⟩ := @foldl_better _ score l (none, 0) (.inl rfl)
  unfold bestOf at h
  rcases hfrom with hsame | ⟨b, hb, heq⟩
  · rw [hsame] at h
    cases h
  · rw [heq] at h hall
    cases h
    rcases hholds with hnone | ⟨c, hc, hpos⟩
    · rw [heq] at hnone
      cases hnone
    · rw [heq] at hc
      cases hc
      exact ⟨hb, hpos, hall⟩

theorem bestOf_eq_none {l : List α} : bestOf score l = none ↔ ∀ a ∈ l, score a = 0 := by
  constructor
  · intro h a ha
    obtain ⟨hholds, -, hall, -⟩ := @foldl_better _ score l (none, 0) (.inl rfl)
    unfold bestOf at h
    rcases hholds with hnone | ⟨b, hb, -⟩
    · rw [hnone] at hall
      exact Nat.le_zero.1 (hall a ha)
    · rw [hb] at h
      cases h
  · intro h
    cases hb : bestOf score l with
    | none => rfl
    | some a =>
      obtain ⟨ha, hpos, -⟩ := bestOf_spec hb
      rw [h a ha] at hpos
      cases hpos

theorem bestOf_of_unique {l : List α} {a : α} (ha : a ∈ l) (hpos : 0 < score a)
    (hunique : ∀ b ∈ l, b ≠ a → score b < score a) : bestOf score l = some a := by
  cases hb : bestOf score l with
  | none =>
    rw [bestOf_eq_none.1 hb a ha] at hpos
    cases hpos
  | some b =>
    obtain ⟨hmem, -, hall⟩ := bestOf_spec hb
    by_cases hba : b = a
    · rw [hba]
    · exact absurd (hall a ha) (Nat.not_le.2 (hunique b hmem hba))

theorem bestOf_cons {l : List α} {a : α} (hpos : 0 < score a) (hbest : ∀ b ∈ l, score b ≤ score a) :
    bestOf score (a :: l) = some a := by
  have hfirst : better score (none, 0) a = (some a, score a) := if_pos hpos
  have hstay : ∀ l : List α, (∀ b ∈ l, score b ≤ score a) →
      l.foldl (better score) (some a, score a) = (some a, score a) := by
    intro l
    induction l with
    | nil => intro _; rfl
    | cons b l ih =>
      intro hl
      have hb : better score (some a, score a) b = (some a, score a) :=
        if_neg (Nat.not_lt.2 (hl b List.mem_cons_self))
      rw [List.foldl_cons, hb]
      exact ih fun c hc => hl c (List.mem_cons_of_mem b hc)
  unfold bestOf
  rw [List.foldl_cons, hfirst, hstay l hbest]

end TurboScript.Lib
