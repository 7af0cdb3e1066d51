import Mathlib.Data.List.Basic

/- Regular expressions over sets of letters, and scanning by the longest match.

   A generated scanner is given expressions in an order and takes the expression with the
   longest match, of several the first. `longest` finds the longest match of one expression
   by derivatives, `pick` the expression that is taken; `longest_spec`, `longest_none` and
   `pick_spec` say so against the language of the expressions (`Rx.Matches`). -/
namespace TurboScript.Lib

inductive Rx (α : Type) where
  | fail
  | eps
  | set (p : α → Bool)
  | seq (r s : Rx α)
  | alt (r s : Rx α)
  | star (r : Rx α)

namespace Rx
variable {α : Type}

inductive Matches : Rx α → List α → Prop where
  | eps : Matches .eps []
  | set {p : α → Bool} {c : α} (h : p c = true) : Matches (.set p) [c]
  | seq {r s : Rx α} {x y : List α} (hr : Matches r x) (hs : Matches s y) :
      Matches (.seq r s) (x ++ y)
  | left {r s : Rx α} {x : List α} (h : Matches r x) : Matches (.alt r s) x
  | right {r s : Rx α} {x : List α} (h : Matches s x) : Matches (.alt r s) x
  | done {r : Rx α} : Matches (.star r) []
  | more {r : Rx α} {x y : List α} (hr : Matches r x) (hs : Matches (.star r) y) :
      Matches (.star r) (x ++ y)

def opt (r : Rx α) : Rx α := .alt .eps r

def plus (r : Rx α) : Rx α := .seq r (.star r)

def many (p : α → Bool) : Rx α := .star (.set p)

def word [DecidableEq α] : List α → Rx α
  | [] => .eps
  | c :: w => .seq (.set (· == c)) (word w)

def nullable : Rx α → Bool
  | .fail => false
  | .eps => true
  | .set _ => false
  | .seq r s => r.nullable && s.nullable
  | .alt r s => r.nullable || s.nullable
  | .star _ => true

/-- What is left of an expression behind the letter `c`. -/
def deriv (c : α) : Rx α → Rx α
  | .fail => .fail
  | .eps => .fail
  | .set p => if p c then .eps else .fail
  | .seq r s =>
    if r.nullable then .alt (.seq (r.deriv c) s) (s.deriv c) else .seq (r.deriv c) s
  | .alt r s => .alt (r.deriv c) (s.deriv c)
  | .star r => .seq (r.deriv c) (.star r)

/-! The language, by the shape of the expression. -/

variable {x : List α} {r : Rx α}

theorem matches_eps : Matches .eps x ↔ x = [] := by
  constructor
  · intro h
    cases h
    rfl
  · rintro rfl
    exact .eps

theorem matches_set {p : α → Bool} : Matches (.set p) x ↔ ∃ c, x = [c] ∧ p c = true := by
  constructor
  · intro h
    cases h with
    | set h => exact ⟨_, rfl, h⟩
  · rintro ⟨c, rfl, h⟩
    exact .set h

theorem matches_seq {s : Rx α} : Matches (.seq r s) x ↔ ∃ y z, x = y ++ z ∧ Matches r y ∧ Matches s z := by
  constructor
  · intro h
    cases h with
    | seq hr hs => exact ⟨_, _, rfl, hr, hs⟩
  · rintro ⟨y, z, rfl, hr, hs⟩
    exact .seq hr hs

theorem matches_alt {s : Rx α} : Matches (.alt r s) x ↔ Matches r x ∨ Matches s x := by
  constructor
  · intro h
    cases h with
    | left h => exact .inl h
    | right h => exact .inr h
  · rintro (h | h)
    · exact .left h
    · exact .right h

theorem matches_star_cons {c : α} (h : Matches (.star r) (c :: x)) :
    ∃ y z, x = y ++ z ∧ Matches r (c :: y) ∧ Matches (.star r) z := by
  generalize hr : Rx.star r = r' at h
  generalize hx : c :: x = x' at h
  induction h with
  | eps | set | seq | left | right => cases hr
  | done => cases hx
  | @more r' y z hfirst hrest _ ih =>
    cases hr
    cases y with
    | nil => exact ih rfl hx
    | cons d y =>
      rw [List.cons_append] at hx
      cases hx
      exact ⟨y, z, rfl, hfirst, hrest⟩

theorem matches_many {p : α → Bool} : (many p).Matches x ↔ ∀ c ∈ x, p c = true := by
  induction x with
  | nil => exact ⟨fun _ => by simp, fun _ => .done⟩
  | cons c x ih =>
    rw [List.forall_mem_cons, ← ih]
    constructor
    · intro h
      obtain ⟨y, z, rfl, hset, hrest⟩ := matches_star_cons h
      obtain ⟨d, hd, hp⟩ := matches_set.mp hset
      cases hd
      exact ⟨hp, hrest⟩
    · intro h
      exact Matches.more (Matches.set h.1) h.2

theorem matches_plus {p : α → Bool} : (plus (.set p)).Matches x ↔ x ≠ [] ∧ ∀ c ∈ x, p c = true := by
  rw [plus, matches_seq]
  constructor
  · rintro ⟨y, z, rfl, hy, hz⟩
    obtain ⟨c, rfl, hc⟩ := matches_set.mp hy
    exact ⟨by simp, List.forall_mem_cons.mpr ⟨hc, matches_many.mp hz⟩⟩
  · rintro ⟨hne, hall⟩
    cases x with
    | nil => exact absurd rfl hne
    | cons c x =>
      obtain ⟨hc, hx⟩ := List.forall_mem_cons.mp hall
      exact ⟨[c], x, rfl, .set hc, matches_many.mpr hx⟩

theorem matches_word [DecidableEq α] {w : List α} : (word w).Matches x ↔ x = w := by
  induction w generalizing x with
  | nil => exact matches_eps
  | cons c w ih =>
    rw [word, matches_seq]
    constructor
    · rintro ⟨y, z, rfl, hy, hz⟩
      obtain ⟨d, rfl, hd⟩ := matches_set.mp hy
      rw [ih.mp hz, eq_of_beq hd]
      rfl
    · rintro rfl
      exact ⟨[c], w, rfl, .set (by simp), ih.mpr rfl⟩

/-! Derivatives. -/

theorem nullable_iff : r.nullable = true ↔ r.Matches [] := by
  induction r with
  | fail => exact ⟨nofun, nofun⟩
  | eps => exact ⟨fun _ => .eps, fun _ => rfl⟩
  | set p => exact ⟨nofun, nofun⟩
  | seq r s ihr ihs =>
    rw [nullable, Bool.and_eq_true, ihr, ihs, matches_seq]
    constructor
    · intro h
      exact ⟨[], [], rfl, h⟩
    · rintro ⟨y, z, h, hr, hs⟩
      obtain ⟨rfl, rfl⟩ := List.append_eq_nil_iff.mp h.symm
      exact ⟨hr, hs⟩
  | alt r s ihr ihs => rw [nullable, Bool.or_eq_true, ihr, ihs, matches_alt]
  | star r => exact ⟨fun _ => .done, fun _ => rfl⟩

theorem matches_deriv {c : α} : (r.deriv c).Matches x ↔ r.Matches (c :: x) := by
  induction r generalizing x with
  | fail | eps => exact ⟨nofun, nofun⟩
  | set p =>
    rw [deriv, matches_set]
    by_cases h : p c = true
    · rw [if_pos h, matches_eps]
      constructor
      · rintro rfl
        exact ⟨c, rfl, h⟩
      · rintro ⟨d, hd, _⟩
        exact (List.cons.inj hd).2
    · rw [if_neg h]
      constructor
      · nofun
      · rintro ⟨d, hd, hp⟩
        rw [← (List.cons.inj hd).1] at hp
        exact absurd hp h
  | seq r s ihr ihs =>
    have hfirst : (Rx.seq (r.deriv c) s).Matches x ↔
        ∃ y z, x = y ++ z ∧ r.Matches (c :: y) ∧ s.Matches z := by
      simp only [matches_seq, ihr]
    have hsplit : (Rx.seq r s).Matches (c :: x) ↔ (∃ y z, x = y ++ z ∧ r.Matches (c :: y) ∧ s.Matches z) ∨
          r.Matches [] ∧ s.Matches (c :: x) := by
      rw [matches_seq]
      constructor
      · rintro ⟨y, z, h, hr, hs⟩
        cases y with
        | nil =>
          rw [List.nil_append] at h
          exact .inr ⟨hr, h ▸ hs⟩
        | cons d y =>
          rw [List.cons_append] at h
          injection h with hd hx
          exact .inl ⟨y, z, hx, hd ▸ hr, hs⟩
      · rintro (⟨y, z, rfl, hr, hs⟩ | ⟨hr, hs⟩)
        · exact ⟨c :: y, z, rfl, hr, hs⟩
        · exact ⟨[], c :: x, rfl, hr, hs⟩
    rw [deriv, hsplit, ← hfirst]
    by_cases h : r.nullable = true
    · rw [if_pos h, matches_alt, ihs]
      simp [nullable_iff.mp h]
    · rw [if_neg h]
      simp [mt nullable_iff.mpr h]
  | alt r s ihr ihs => rw [deriv, matches_alt, matches_alt, ihr, ihs]
  | star r ih =>
    rw [deriv, matches_seq]
    constructor
    · rintro ⟨y, z, rfl, hr, hs⟩
      exact Matches.more (ih.mp hr) hs
    · intro h
      obtain ⟨y, z, rfl, hr, hs⟩ := matches_star_cons h
      exact ⟨y, z, rfl, ih.mpr hr, hs⟩

def dead : Rx α → Bool
  | .fail => true
  | .eps => false
  | .set _ => false
  | .seq r s => r.dead || s.dead
  | .alt r s => r.dead && s.dead
  | .star _ => false

theorem not_matches_of_dead (h : r.dead = true) : ¬r.Matches x := by
  induction r generalizing x with
  | fail => nofun
  | eps | set | star => cases h
  | seq r s ihr ihs =>
    rw [dead, Bool.or_eq_true] at h
    rw [matches_seq]
    rintro ⟨y, z, _, hr, hs⟩
    exact h.elim (fun h => ihr h hr) fun h => ihs h hs
  | alt r s ihr ihs =>
    rw [dead, Bool.and_eq_true] at h
    rw [matches_alt]
    exact fun hm => hm.elim (ihr h.1) (ihs h.2)

/-! The longest match. -/

def longest : List α → Rx α → Option Nat
  | [], r => if r.nullable then some 0 else none
  | c :: s, r =>
    match longest s (r.deriv c) with
    | some n => some (n + 1)
    | none => if r.nullable then some 0 else none

theorem longest_none {s : List α} (h : longest s r = none) {m : Nat} (hm : m ≤ s.length) :
    ¬r.Matches (s.take m) := by
  induction s generalizing r m with
  | nil =>
    intro hmatch
    rw [List.take_nil, ← nullable_iff] at hmatch
    simp [longest, hmatch] at h
  | cons c s ih =>
    rw [longest] at h
    cases hrest : longest s (r.deriv c) with
    | some n => simp [hrest] at h
    | none =>
      intro hmatch
      cases m with
      | zero =>
        rw [List.take_zero, ← nullable_iff] at hmatch
        simp [hrest, hmatch] at h
      | succ m =>
        rw [List.take_succ_cons, ← matches_deriv] at hmatch
        exact ih hrest (Nat.le_of_succ_le_succ hm) hmatch

theorem longest_spec {s : List α} {n : Nat} (h : longest s r = some n) :
    n ≤ s.length ∧ r.Matches (s.take n) ∧ ∀ m, m ≤ s.length → r.Matches (s.take m) → m ≤ n := by
  induction s generalizing r n with
  | nil =>
    rw [longest] at h
    obtain ⟨hnull, h⟩ : r.nullable = true ∧ 0 = n := by simpa using h
    subst h
    exact ⟨Nat.le_refl _, nullable_iff.mp hnull, fun m hm _ => hm⟩
  | cons c s ih =>
    rw [longest] at h
    cases hrest : longest s (r.deriv c) with
    | some k =>
      obtain rfl : k + 1 = n := by simpa [hrest] using h
      obtain ⟨hk, hmatch, hmax⟩ := ih hrest
      refine ⟨Nat.succ_le_succ hk, ?_, fun m hm hmm => ?_⟩
      · rw [List.take_succ_cons]
        exact matches_deriv.mp hmatch
      · cases m with
        | zero => exact Nat.zero_le _
        | succ m =>
          rw [List.take_succ_cons] at hmm
          exact Nat.succ_le_succ (hmax m (Nat.le_of_succ_le_succ hm) (matches_deriv.mpr hmm))
    | none =>
      obtain ⟨hnull, h⟩ : r.nullable = true ∧ 0 = n := by simpa [hrest] using h
      subst h
      refine ⟨Nat.zero_le _, nullable_iff.mp hnull, fun m hm hmm => ?_⟩
      cases m with
      | zero => exact Nat.le_refl 0
      | succ m =>
        rw [List.take_succ_cons] at hmm
        exact absurd (matches_deriv.mpr hmm) (longest_none hrest (Nat.le_of_succ_le_succ hm))

end Rx

/-! Several expressions in order. -/

section Pick
variable {α β : Type} (rx : β → Rx α) (s : List α)

/-- The first of the rules with the longest match, and the length of that match. -/
def pick : List β → Option (Nat × β)
  | [] => none
  | b :: rest =>
    match Rx.longest s (rx b), pick rest with
    | some n, some (m, b') => if m ≤ n then some (n, b) else some (m, b')
    | some n, none => some (n, b)
    | none, found => found

variable {rx s}

theorem pick_none {rules : List β} (h : pick rx s rules = none) :
    ∀ b ∈ rules, Rx.longest s (rx b) = none := by
  induction rules with
  | nil => simp
  | cons a rest ih =>
    rw [pick] at h
    cases ha : Rx.longest s (rx a) with
    | none =>
      rw [ha] at h
      exact List.forall_mem_cons.mpr ⟨ha, ih h⟩
    | some n =>
      rw [ha] at h
      cases hrest : pick rx s rest with
      | none => simp [hrest] at h
      | some found => by_cases hle : found.1 ≤ n <;> simp [hrest, hle] at h

theorem pick_spec {rules : List β} {n : Nat} {b : β} (h : pick rx s rules = some (n, b)) :
    Rx.longest s (rx b) = some n ∧ (∀ b' ∈ rules, ∀ m, Rx.longest s (rx b') = some m → m ≤ n) ∧
      ∃ front back, rules = front ++ b :: back ∧
        ∀ b' ∈ front, ∀ m, Rx.longest s (rx b') = some m → m < n := by
  induction rules generalizing n b with
  | nil => cases h
  | cons a rest ih =>
    rw [pick] at h
    cases ha : Rx.longest s (rx a) with
    | none =>
      rw [ha] at h
      obtain ⟨hlong, hmax, front, back, rfl, hfront⟩ := ih h
      refine ⟨hlong, List.forall_mem_cons.mpr ⟨fun m hm => ?_, hmax⟩, a :: front, back, rfl,
        List.forall_mem_cons.mpr ⟨fun m hm => ?_, hfront⟩⟩ <;>
      · rw [ha] at hm
        cases hm
    | some k =>
      rw [ha] at h
      cases hrest : pick rx s rest with
      | none =>
        obtain ⟨rfl, rfl⟩ : k = n ∧ a = b := by simpa [hrest] using h
        refine ⟨ha, List.forall_mem_cons.mpr ⟨fun m hm => ?_, fun b' hb' m hm => ?_⟩, [], rest,
          rfl, by simp⟩
        · rw [ha] at hm
          injection hm with hm
          omega
        · rw [pick_none hrest b' hb'] at hm
          cases hm
      | some found =>
        obtain ⟨m, b'⟩ := found
        obtain ⟨hlong, hmax, front, back, rfl, hfront⟩ := ih hrest
        by_cases hle : m ≤ k
        · obtain ⟨rfl, rfl⟩ : k = n ∧ a = b := by simpa [hrest, hle] using h
          refine ⟨ha, List.forall_mem_cons.mpr ⟨fun j hj => ?_, fun b₁ hb₁ j hj => ?_⟩, [], _, rfl, by simp⟩
          · rw [ha] at hj
            injection hj with hj
            omega
          · have := hmax b₁ hb₁ j hj
            omega
        · obtain ⟨rfl, rfl⟩ : m = n ∧ b' = b := by simpa [hrest, hle] using h
          refine ⟨hlong, List.forall_mem_cons.mpr ⟨fun j hj => ?_, hmax⟩, a :: front, back, rfl,
            List.forall_mem_cons.mpr ⟨fun j hj => ?_, hfront⟩⟩ <;>
          · rw [ha] at hj
            injection hj with hj
            omega

end Pick

end TurboScript.Lib
