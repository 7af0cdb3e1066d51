import Mathlib.Data.List.Basic

/- Binary search for the end of the part of a list where a condition holds. -/
namespace TurboScript.Lib
variable {α : Type}

/-- The loop between `lo` and `hi`. -/
def bisectFrom (p : α → Bool) (l : List α) (lo hi : Nat) : Nat :=
  if lo < hi then
    if (l[lo + (hi - lo) / 2]?).any p then bisectFrom p l (lo + (hi - lo) / 2 + 1) hi
    else bisectFrom p l lo (lo + (hi - lo) / 2)
  else lo
termination_by hi - lo

def bisect (p : α → Bool) (l : List α) : Nat := bisectFrom p l 0 l.length

theorem bisectFrom_eq {p : α → Bool} {l : List α} {k lo hi : Nat}
    (hp : ∀ i < hi, (l[i]?).any p = decide (i < k)) (hlo : lo ≤ k) (hhi : k ≤ hi) :
    bisectFrom p l lo hi = k := by
  fun_induction bisectFrom p l lo hi with
  | case1 lo hi h hmid ih =>
    rw [hp _ (by omega), decide_eq_true_eq] at hmid
    exact ih hp hmid hhi
  | case2 lo hi h hmid ih =>
    rw [hp _ (by omega), decide_eq_true_eq] at hmid
    exact ih (fun i hi => hp i (by omega)) hlo (by omega)
  | case3 lo hi h => omega

theorem filter_append_filter_not {p : α → Bool} {l : List α}
    (h : l.Pairwise fun a b => p b = true → p a = true) :
    l.filter p ++ l.filter (fun a => !p a) = l := by
  induction l with
  | nil => rfl
  | cons a l ih =>
    obtain ⟨ha, hl⟩ := List.pairwise_cons.mp h
    cases hpa : p a with
    | true => simp [hpa, ih hl]
    | false =>
      have hnone : ∀ b ∈ l, p b = false := fun b hb =>
        Bool.eq_false_iff.mpr fun hpb => by simp [ha b hb hpb] at hpa
      have hf : l.filter p = [] := by
        simpa using hnone
      have hall : l.filter (fun b => !p b) = l := by
        simpa using hnone
      simp [hpa, hf, hall]

theorem bisect_eq {p : α → Bool} {l : List α}
    (h : l.Pairwise fun a b => p b = true → p a = true) : bisect p l = (l.filter p).length := by
  refine bisectFrom_eq (fun i hi => ?_) (Nat.zero_le _) (List.length_filter_le _ _)
  conv => lhs; rw [← filter_append_filter_not h]
  by_cases hk : i < (l.filter p).length
  · rw [List.getElem?_append_left hk, List.getElem?_eq_getElem hk]
    have hmem := List.of_mem_filter (List.getElem_mem hk)
    simpa [hk] using hmem
  · have hlen : (l.filter p ++ l.filter fun a => !p a).length = l.length := by
      rw [filter_append_filter_not h]
    rw [List.length_append] at hlen
    have hr : i - (l.filter p).length < (l.filter fun a => !p a).length := by omega
    rw [List.getElem?_append_right (by omega), List.getElem?_eq_getElem hr]
    have hmem := List.of_mem_filter (List.getElem_mem hr)
    simpa [hk] using hmem

theorem take_bisect {p : α → Bool} {l : List α}
    (h : l.Pairwise fun a b => p b = true → p a = true) : l.take (bisect p l) = l.filter p := by
  rw [bisect_eq h]
  conv => lhs; arg 2; rw [← filter_append_filter_not h]
  exact List.take_left

theorem drop_bisect {p : α → Bool} {l : List α} (h : l.Pairwise fun a b => p b = true → p a = true) :
    l.drop (bisect p l) = l.filter fun a => !p a := by
  rw [bisect_eq h]
  conv => lhs; arg 2; rw [← filter_append_filter_not h]
  exact List.drop_left

end TurboScript.Lib
