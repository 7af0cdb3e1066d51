import Mathlib.Algebra.Group.Pointwise.Set.Basic
import Mathlib.Algebra.Order.Monoid.Canonical.Defs
import Mathlib.Data.List.Forall2

/- Checks that pay for what they look at.

   A check runs on a state that holds what has been spent, and it ends with a verdict, which may
   be `ok`, or it runs out of fuel. `Meter.Checks may must run` says of a check that it ends,
   keeps the invariant and stays within the limit, that an accepted check has spent a cost in
   `may`, and that it accepts where a cost in `must` is left to spend. Where the two sets are the
   one cost of what is looked at, the check accepts exactly what can be paid for. -/
namespace TurboScript.Lib

open scoped Pointwise

def andThen {σ ε : Type} [DecidableEq ε] (ok : ε) (run : Option (ε × σ))
    (next : σ → Option (ε × σ)) : Option (ε × σ) :=
  run.bind fun r => if r.1 = ok then next r.2 else some r

/-- A check of each item, up to the first that is not accepted. -/
def eachOf {σ ε α : Type} [DecidableEq ε] (ok : ε) (f : α → σ → Option (ε × σ)) :
    List α → σ → Option (ε × σ)
  | [], s => some (ok, s)
  | a :: as, s => andThen ok (f a s) (eachOf ok f as)

structure Meter (σ ε κ : Type) where
  ok : ε
  inv : σ → Prop
  spent : σ → κ
  limit : κ

section Sums
variable {α κ : Type} [AddCommMonoid κ]

theorem mem_sum_sets {A : α → Set κ} {as : List α} {c : κ} :
    c ∈ (as.map A).sum ↔ ∃ cs, List.Forall₂ (fun a c => c ∈ A a) as cs ∧ cs.sum = c := by
  induction as generalizing c with
  | nil => simp [eq_comm]
  | cons a as ih =>
    rw [List.map_cons, List.sum_cons, Set.mem_add]
    constructor
    · intro ⟨x, hx, y, hy, hc⟩
      obtain ⟨ys, hys, hsum⟩ := ih.mp hy
      exact ⟨x :: ys, .cons hx hys, by rw [List.sum_cons, hsum, hc]⟩
    · intro ⟨cs, hcs, hc⟩
      cases hcs with
      | cons hx hys =>
        rw [List.sum_cons] at hc
        exact ⟨_, hx, _, ih.mpr ⟨_, hys, rfl⟩, hc⟩

def Single (may must : Set κ) : Prop := ∀ c ∈ may, ∀ c' ∈ must, c = c'

end Sums

namespace Meter
variable {σ ε κ α : Type} [AddCommMonoid κ] [PartialOrder κ] [DecidableEq ε] {m : Meter σ ε κ}

/-- The check ends in every state, pays for what it accepts, and accepts what can be paid. -/
def Checks (m : Meter σ ε κ) (may must : Set κ) (run : σ → Option (ε × σ)) : Prop :=
  ∀ s, m.inv s → m.spent s ≤ m.limit → ∃ e t, run s = some (e, t) ∧ m.inv t ∧
    m.spent t ≤ m.limit ∧ (e = m.ok → ∃ c ∈ may, m.spent t = m.spent s + c) ∧
    ∀ c ∈ must, m.spent s + c ≤ m.limit → e = m.ok

namespace Checks
variable {may must may' must' : Set κ} {run next : σ → Option (ε × σ)}

omit [DecidableEq ε] in
theorem mono (h : m.Checks may must run) (hmay : may ⊆ may') (hmust : must' ⊆ must) :
    m.Checks may' must' run := by
  intro s hs hl
  obtain ⟨e, t, hrun, ht, hle, hok, hfits⟩ := h s hs hl
  refine ⟨e, t, hrun, ht, hle, fun he => ?_, fun c hc => hfits c (hmust hc)⟩
  obtain ⟨c, hc, hspent⟩ := hok he
  exact ⟨c, hmay hc, hspent⟩

omit [DecidableEq ε] in
theorem congr (h : m.Checks may must next)
    (heq : ∀ s, m.inv s → m.spent s ≤ m.limit → run s = next s) : m.Checks may must run := by
  intro s hs hl
  rw [heq s hs hl]
  exact h s hs hl

omit [DecidableEq ε] in
theorem accept : m.Checks {0} {0} fun s => some (m.ok, s) :=
  fun s hs hl => ⟨m.ok, s, rfl, hs, hl, fun _ => ⟨0, rfl, (add_zero _).symm⟩, fun _ _ _ => rfl⟩

omit [DecidableEq ε] in
theorem refuse {e : ε} (he : e ≠ m.ok) (hmust : ∀ c, c ∉ must) : m.Checks may must fun s => some (e, s) :=
  fun s hs hl => ⟨e, s, rfl, hs, hl, fun h => absurd h he, fun c hc => absurd hc (hmust c)⟩

/-- One check after another. What the first has spent is what it had to spend, so that the
    second has the rest. -/
theorem seq [CanonicallyOrderedAdd κ] (h : m.Checks may must run)
    (h' : m.Checks may' must' next) (hone : Single may must) :
    m.Checks (may + may') (must + must') fun s => andThen m.ok (run s) next := by
  intro s hs hl
  obtain ⟨e, t, hrun, ht, hle, hok, hfits⟩ := h s hs hl
  show ∃ e t, andThen m.ok (run s) next = some (e, t) ∧ _
  rw [hrun]
  by_cases he : e = m.ok
  · obtain ⟨c, hc, hspent⟩ := hok he
    obtain ⟨e', u, hnext, hu, hle', hok', hfits'⟩ := h' t ht hle
    refine ⟨e', u, by simp [andThen, he, hnext], hu, hle', fun he' => ?_, fun d hd hfit => ?_⟩
    · obtain ⟨c', hc', hspent'⟩ := hok' he'
      exact ⟨c + c', Set.add_mem_add hc hc', by rw [hspent', hspent, add_assoc]⟩
    · obtain ⟨x, hx, y, hy, rfl⟩ := Set.mem_add.mp hd
      apply hfits' y hy
      rwa [hspent, hone c hc x hx, add_assoc]
  · refine ⟨e, t, by simp [andThen, he], ht, hle, fun h => absurd h he, fun d hd hfit => ?_⟩
    obtain ⟨x, hx, y, hy, rfl⟩ := Set.mem_add.mp hd
    apply hfits x hx
    rw [← add_assoc] at hfit
    exact le_self_add.trans hfit

theorem each [CanonicallyOrderedAdd κ] {f : α → σ → Option (ε × σ)} {A B : α → Set κ}
    {as : List α} (h : ∀ a ∈ as, m.Checks (A a) (B a) (f a)) (hone : ∀ a ∈ as, Single (A a) (B a)) :
    m.Checks (as.map A).sum (as.map B).sum (eachOf m.ok f as) := by
  induction as with
  | nil => exact accept
  | cons a as ih =>
    rw [List.map_cons, List.map_cons, List.sum_cons, List.sum_cons]
    have hrest := ih (fun b hb => h b (.tail a hb)) fun b hb => hone b (.tail a hb)
    exact (h a (.head as)).seq hrest (hone a (.head as))

omit [DecidableEq ε] in
theorem guard {bad : σ → Prop} [DecidablePred bad] {e : ε} (he : e ≠ m.ok)
    (hbad : ∀ s, m.inv s → m.spent s ≤ m.limit → bad s → ∀ c ∈ must, ¬ m.spent s + c ≤ m.limit)
    (h : m.Checks may must run) :
    m.Checks may must fun s => if bad s then some (e, s) else run s := by
  intro s hs hl
  by_cases hb : bad s
  · refine ⟨e, s, if_pos hb, hs, hl, fun h => absurd h he, fun c hc hfit => ?_⟩
    exact absurd hfit (hbad s hs hl hb c hc)
  · obtain ⟨e', t, hrun, h⟩ := h s hs hl
    exact ⟨e', t, (if_neg hb).trans hrun, h⟩

omit [DecidableEq ε] in
/-- A cost paid first, and refused where nothing is left for it. The rest runs under an invariant
    of its own. -/
theorem pay [CanonicallyOrderedAdd κ] {inv : σ → Prop} {c : κ} {step : σ → σ} {bad : σ → Prop}
    [DecidablePred bad] {e : ε} (he : e ≠ m.ok)
    (hbad : ∀ s, m.inv s → m.spent s ≤ m.limit → (bad s ↔ ¬ m.spent s + c ≤ m.limit))
    (hstep : ∀ s, m.inv s → m.spent s ≤ m.limit → ¬ bad s → inv (step s) ∧ m.spent (step s) = m.spent s + c)
    (hback : ∀ s, inv s → m.inv s) (h : { m with inv := inv }.Checks may must run) :
    m.Checks ({c} + may) ({c} + must) fun s => if bad s then some (e, s) else run (step s) := by
  intro s hs hl
  by_cases hb : bad s
  · refine ⟨e, s, if_pos hb, hs, hl, fun h => absurd h he, fun d hd hfit => ?_⟩
    obtain ⟨x, hx, y, hy, rfl⟩ := Set.mem_add.mp hd
    rw [Set.mem_singleton_iff.mp hx, ← add_assoc] at hfit
    exact absurd (le_self_add.trans hfit) ((hbad s hs hl).mp hb)
  · obtain ⟨hinv, hspent⟩ := hstep s hs hl hb
    have hfits : m.spent s + c ≤ m.limit := by
      by_contra hno
      exact hb ((hbad s hs hl).mpr hno)
    obtain ⟨e', t, hrun, ht, hle, hok, hdue⟩ := h (step s) hinv (hspent ▸ hfits)
    refine ⟨e', t, (if_neg hb).trans hrun, hback t ht, hle, fun he' => ?_, fun d hd hfit => ?_⟩
    · obtain ⟨c', hc', hspent'⟩ := hok he'
      refine ⟨c + c', Set.add_mem_add rfl hc', ?_⟩
      rw [show m.spent t = m.spent (step s) + c' from hspent', hspent, add_assoc]
    · obtain ⟨x, hx, y, hy, rfl⟩ := Set.mem_add.mp hd
      rw [Set.mem_singleton_iff.mp hx] at hfit
      apply hdue y hy
      rwa [show m.spent (step s) + y = m.spent s + (c + y) by rw [hspent, add_assoc]]

end Checks
end Meter
end TurboScript.Lib
