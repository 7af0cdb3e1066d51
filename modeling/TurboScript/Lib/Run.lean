import Mathlib.Data.List.Basic

/- Bounded runs of a stateful program, and triples about them.

   A program is a state transformer that may be cut off, with the state it has reached kept.
   `Triple C P m Q`: a run of `m` from a state in `P` ends in `Q`, or is cut off in `C`. What
   must hold at every moment of a run that may never end is put in `C`: every moment of the
   run is the moment some fuel is used up.

   1. The monad: `EStateM`, with one exception that means "cut off"; the rules.
   2. `Couple`: two runs from related states end in related states, or are both cut off.
   3. `Follows`: the same for runs over different states, as long as a condition on the
      first one, which is never regained once it is lost, still holds at its end. `Mirrors`
      keeps the two facts together. -/
namespace TurboScript.Lib

/-- A run over states `σ`. Its only exception means that the fuel is used up. -/
abbrev Run (σ : Type) := EStateM Unit σ

def cutOff {σ α : Type} : Run σ α := throw ()

def reached {σ α : Type} (m : Run σ α) (s : σ) : σ :=
  match m s with
  | .ok _ t => t
  | .error _ t => t

def ended {σ α : Type} (m : Run σ α) (s : σ) : Bool :=
  match m s with
  | .ok _ _ => true
  | .error _ _ => false

/-- Every run of `m` from `P` ends in `Q` or is cut off in `C`. -/
def Triple {σ α : Type} (C P : σ → Prop) (m : Run σ α) (Q : α → σ → Prop) : Prop :=
  ∀ s, P s → match m s with
    | .ok a s' => Q a s'
    | .error _ s' => C s'

namespace Triple
variable {σ α β : Type} {C P P' : σ → Prop}

variable {Q : α → σ → Prop} {m : Run σ α}

theorem pure' (a : α) (h : ∀ s, P s → Q a s) : Triple C P (pure a) Q :=
  fun s hs => h s hs

theorem bind' {f : α → Run σ β} {R : α → σ → Prop} {Q : β → σ → Prop} (hm : Triple C P m R)
    (hf : ∀ a, Triple C (R a) (f a) Q) : Triple C P (m >>= f) Q := by
  intro s hs
  have h₁ := hm s hs
  show match EStateM.bind m f s with | .ok a s' => Q a s' | .error _ s' => C s'
  unfold EStateM.bind
  cases hr : m s with
  | ok a s' =>
    rw [hr] at h₁
    exact hf a s' h₁
  | error e s' =>
    rw [hr] at h₁
    exact h₁

theorem mono {Q' : α → σ → Prop} (h : Triple C P m Q) (hp : ∀ s, P' s → P s)
    (hq : ∀ a s, Q a s → Q' a s) : Triple C P' m Q' := by
  intro s hs
  have h₁ := h s (hp s hs)
  cases hr : m s with
  | ok a s' =>
    rw [hr] at h₁
    exact hq a s' h₁
  | error e s' =>
    rw [hr] at h₁
    exact h₁

theorem pre (h : Triple C P m Q) (hp : ∀ s, P' s → P s) : Triple C P' m Q :=
  h.mono hp fun _ _ hq => hq

theorem post {Q' : α → σ → Prop} (h : Triple C P m Q) (hq : ∀ a s, Q a s → Q' a s) : Triple C P m Q' :=
  h.mono (fun _ hp => hp) hq

theorem reached (h : Triple C P m Q) (hq : ∀ a s, Q a s → C s) {s : σ} (hs : P s) :
    C (Lib.reached m s) := by
  have h₁ := h s hs
  unfold Lib.reached
  cases hr : m s with
  | ok a s' =>
    rw [hr] at h₁
    exact hq a s' h₁
  | error e s' =>
    rw [hr] at h₁
    exact h₁

theorem map' {f : α → β} {Q : β → σ → Prop} (h : Triple C P m fun a => Q (f a)) :
    Triple C P (f <$> m) Q := by
  have : f <$> m = m >>= fun a => pure (f a) := (bind_pure_comp f m).symm
  rw [this]
  exact bind' h fun a => pure' _ fun _ hs => hs

theorem cut (h : ∀ s, P s → C s) : Triple C P (cutOff : Run σ α) Q :=
  fun s hs => h s hs

theorem get' {Q : σ → σ → Prop} (h : ∀ s, P s → Q s s) : Triple C P (get : Run σ σ) Q :=
  fun s hs => h s hs

theorem modify' {f : σ → σ} {Q : Unit → σ → Prop} (h : ∀ s, P s → Q () (f s)) :
    Triple C P (modify f : Run σ Unit) Q :=
  fun s hs => h s hs

theorem ite' {c : Prop} [Decidable c] {x y : Run σ α} (hx : c → Triple C P x Q) (hy : ¬c → Triple C P y Q) :
    Triple C P (if c then x else y) Q := by
  by_cases h : c
  · rw [if_pos h]
    exact hx h
  · rw [if_neg h]
    exact hy h

theorem or' (h : Triple C P m Q) (h' : Triple C P' m Q) : Triple C (fun s => P s ∨ P' s) m Q := by
  intro s hs
  rcases hs with hs | hs
  · exact h s hs
  · exact h' s hs

theorem exists' {ι : Type} {P : ι → σ → Prop} (h : ∀ x, Triple C (P x) m Q) :
    Triple C (fun s => ∃ x, P x s) m Q :=
  fun s ⟨x, hs⟩ => h x s hs

theorem fact' {p : Prop} (h : p → Triple C P m Q) : Triple C (fun s => p ∧ P s) m Q :=
  fun s hs => h hs.1 s hs.2

end Triple

/-! Two runs side by side. -/

section Couples
variable {σ α β : Type}

theorem bind_apply (m : Run σ α) (f : α → Run σ β) (s : σ) : (m >>= f) s = match m s with
      | .ok a t => f a t
      | .error x t => .error x t := by
  show EStateM.bind m f s = _
  unfold EStateM.bind
  cases m s <;> rfl

/-! What the steps that only read or change the state do. -/

theorem pure_apply (a : α) (s : σ) : (pure a : Run σ α) s = .ok a s := rfl

theorem get_apply (s : σ) : (get : Run σ σ) s = .ok s s := rfl

theorem modify_apply (f : σ → σ) (s : σ) : (modify f : Run σ PUnit) s = .ok ⟨⟩ (f s) := rfl

theorem get_bind_apply (f : σ → Run σ β) (s : σ) : (get >>= f : Run σ β) s = f s s := rfl

/-- Both runs ended, in `Q`, or both were cut off. -/
def BothEnd (Q : α → β → σ → σ → Prop) (r : EStateM.Result Unit σ α)
    (r' : EStateM.Result Unit σ β) : Prop :=
  match r, r' with
  | .ok a t, .ok b t' => Q a b t t'
  | .error _ _, .error _ _ => True
  | _, _ => False

/-- From states in `P` both runs end, with results and states in `Q`, or both are cut
    off. -/
def Couple (P : σ → σ → Prop) (m : Run σ α) (m' : Run σ β) (Q : α → β → σ → σ → Prop) : Prop :=
  ∀ s s', P s s' → BothEnd Q (m s) (m' s')

/-- The same result in the same state, or both cut off. -/
def SameEnd (r r' : EStateM.Result Unit σ α) : Prop :=
  BothEnd (fun a a' t t' => a = a' ∧ t = t') r r'

theorem BothEnd.refl {Q : α → α → σ → σ → Prop} (hq : ∀ a t, Q a a t t)
    (r : EStateM.Result Unit σ α) : BothEnd Q r r := by
  cases r with
  | ok a t => exact hq a t
  | error x t => trivial

theorem SameEnd.refl (r : EStateM.Result Unit σ α) : SameEnd r r :=
  BothEnd.refl (fun _ _ => ⟨rfl, rfl⟩) r

theorem BothEnd.mono {r : EStateM.Result Unit σ α} {r' : EStateM.Result Unit σ β}
    {Q Q' : α → β → σ → σ → Prop} (h : BothEnd Q r r')
    (hq : ∀ a b s s', Q a b s s' → Q' a b s s') : BothEnd Q' r r' := by
  cases r with
  | ok a t =>
    cases r' with
    | ok b t' => exact hq a b t t' h
    | error x t' => exact h.elim
  | error x t =>
    cases r' with
    | ok b t' => exact h.elim
    | error y t' => trivial

namespace Couple
variable {γ δ : Type} {P : σ → σ → Prop}

variable {Q : α → β → σ → σ → Prop}

theorem pure' (a : α) (b : β) (h : ∀ s s', P s s' → Q a b s s') : Couple P (pure a) (pure b) Q :=
  fun s s' hs => h s s' hs

theorem bind' {m : Run σ α} {m' : Run σ β} {f : α → Run σ γ} {f' : β → Run σ δ}
    {R : α → β → σ → σ → Prop} {Q : γ → δ → σ → σ → Prop} (hm : Couple P m m' R)
    (hf : ∀ a b, Couple (R a b) (f a) (f' b) Q) : Couple P (m >>= f) (m' >>= f') Q := by
  intro s s' hs
  have h₁ := hm s s' hs
  rw [bind_apply, bind_apply]
  cases hr : m s with
  | ok a t =>
    cases hr' : m' s' with
    | ok b t' =>
      rw [hr, hr'] at h₁
      exact hf a b t t' h₁
    | error x t' =>
      rw [hr, hr'] at h₁
      exact h₁.elim
  | error x t =>
    cases hr' : m' s' with
    | ok b t' =>
      rw [hr, hr'] at h₁
      exact h₁.elim
    | error y t' => trivial

theorem mono {m : Run σ α} {m' : Run σ β} {P' : σ → σ → Prop} {Q' : α → β → σ → σ → Prop}
    (h : Couple P m m' Q) (hp : ∀ s s', P' s s' → P s s')
    (hq : ∀ a b s s', Q a b s s' → Q' a b s s') : Couple P' m m' Q' :=
  fun s s' hs => (h s s' (hp s s' hs)).mono hq

theorem ite' {c : Prop} [Decidable c] {p q : Run σ α} {p' q' : Run σ β} (hp : c → Couple P p p' Q)
    (hq : ¬c → Couple P q q' Q) :
    Couple P (if c then p else q) (if c then p' else q') Q := by
  by_cases h : c
  · rw [if_pos h, if_pos h]
    exact hp h
  · rw [if_neg h, if_neg h]
    exact hq h

/-- Two programs that start alike, from one state; `I` says what is known of that state and
    `J` of the one after the common part. -/
theorem same_bind {m : Run σ α} {f f' : α → Run σ β} {Q : β → β → σ → σ → Prop}
    {I : σ → Prop} (J : α → σ → Prop) (hj : ∀ s a t, I s → m s = .ok a t → J a t)
    (hf : ∀ a, Couple (fun s s' => s' = s ∧ J a s) (f a) (f' a) Q) :
    Couple (fun s s' => s' = s ∧ I s) (m >>= f) (m >>= f') Q := by
  rintro s s' ⟨rfl, hs⟩
  rw [bind_apply, bind_apply]
  cases hr : m s' with
  | ok a t => exact hf a t t ⟨rfl, hj s' a t hs hr⟩
  | error x t => trivial

theorem cut : Couple P (cutOff : Run σ α) (cutOff : Run σ β) Q :=
  fun _ _ _ => trivial

end Couple

end Couples

/-! A run that follows another one. -/

section Following
variable {σ τ α β γ δ : Type} {ok : σ → Prop} {R : σ → τ → Prop}

/-- If `ok` holds of the state that `m` reaches, then `m'` ends as `m` does: both end, with
    results in `Q`, or both are cut off; the states they reach are in `R`. -/
def Follows (ok : σ → Prop) (R : σ → τ → Prop) (m : Run σ α) (m' : Run τ β) (Q : α → β → Prop) : Prop :=
  ∀ s t, R s t → ok (reached m s) →
    match m s, m' t with
    | .ok a s', .ok b t' => R s' t' ∧ Q a b
    | .error _ s', .error _ t' => R s' t'
    | _, _ => False

/-- A run from a state that has lost `ok` does not regain it. -/
abbrev Loses (ok : σ → Prop) (m : Run σ α) : Prop :=
  Triple (fun s => ¬ok s) (fun s => ¬ok s) m fun _ s => ¬ok s

theorem Loses.reached {m : Run σ α} (h : Loses ok m) {s : σ} (hs : ok (Lib.reached m s)) : ok s := by
  by_contra hn
  exact Triple.reached h (fun _ _ hq => hq) hn hs

namespace Follows

variable {Q : α → β → Prop} {m : Run σ α} {m' : Run τ β}

theorem mono {Q' : α → β → Prop} (h : Follows ok R m m' Q) (hq : ∀ a b, Q a b → Q' a b) :
    Follows ok R m m' Q' := by
  intro s t hR hok
  have h₁ := h s t hR hok
  cases hm : m s with
  | ok a s' =>
    cases hm' : m' t with
    | ok b t' =>
      rw [hm, hm'] at h₁
      exact ⟨h₁.1, hq a b h₁.2⟩
    | error y t' =>
      rw [hm, hm'] at h₁
      exact h₁.elim
  | error x s' =>
    cases hm' : m' t with
    | ok b t' =>
      rw [hm, hm'] at h₁
      exact h₁.elim
    | error y t' =>
      rw [hm, hm'] at h₁
      exact h₁

theorem bind' {f : α → Run σ γ} {f' : β → Run τ δ} {Q' : γ → δ → Prop} (hm : Follows ok R m m' Q)
    (hl : ∀ a, Loses ok (f a)) (hf : ∀ a b, Q a b → Follows ok R (f a) (f' b) Q') :
    Follows ok R (m >>= f) (m' >>= f') Q' := by
  intro s t hR hok
  have h₁ := hm s t hR
  unfold Lib.reached at h₁ hok
  simp only [bind_apply] at hok ⊢
  cases hr : m s with
  | error x s' =>
    rw [hr] at h₁ hok
    have h₂ := h₁ hok
    cases hr' : m' t with
    | ok b t' =>
      rw [hr'] at h₂
      exact h₂.elim
    | error y t' =>
      rw [hr'] at h₂
      exact h₂
  | ok a s' =>
    rw [hr] at h₁ hok
    -- the rest of the run ends with `ok`, so it started with it
    have h₂ := h₁ ((hl a).reached hok)
    cases hr' : m' t with
    | ok b t' =>
      rw [hr'] at h₂
      exact hf a b h₂.2 s' t' h₂.1 hok
    | error y t' =>
      rw [hr'] at h₂
      exact h₂.elim

theorem reached (h : Follows ok R m m' Q) {s : σ} {t : τ} (hR : R s t) (hok : ok (Lib.reached m s)) :
    R (Lib.reached m s) (Lib.reached m' t) := by
  have h₁ := h s t hR hok
  unfold Lib.reached
  cases hm : m s with
  | ok a s' =>
    cases hm' : m' t with
    | ok b t' =>
      rw [hm, hm'] at h₁
      exact h₁.1
    | error y t' =>
      rw [hm, hm'] at h₁
      exact h₁.elim
  | error x s' =>
    cases hm' : m' t with
    | ok b t' =>
      rw [hm, hm'] at h₁
      exact h₁.elim
    | error y t' =>
      rw [hm, hm'] at h₁
      exact h₁

theorem ended (h : Follows ok R m m' Q) {s : σ} {t : τ} (hR : R s t) (hok : ok (Lib.reached m s)) :
    Lib.ended m s = Lib.ended m' t := by
  have h₁ := h s t hR hok
  unfold Lib.ended
  cases hm : m s <;> cases hm' : m' t <;> rw [hm, hm'] at h₁ <;> first | rfl | exact h₁.elim

end Follows

/-- `m'` follows `m`, and `m` does not regain `ok`. -/
structure Mirrors (ok : σ → Prop) (R : σ → τ → Prop) (m : Run σ α) (m' : Run τ β) (Q : α → β → Prop) :
    Prop where
  loses : Loses ok m
  follows : Follows ok R m m' Q

namespace Mirrors

variable {Q : α → β → Prop} {m : Run σ α} {m' : Run τ β}

theorem pure' {a : α} {b : β} (h : Q a b) : Mirrors ok R (pure a) (pure b) Q :=
  ⟨Triple.pure' a fun _ hs => hs, fun _ _ hR _ => ⟨hR, h⟩⟩

theorem cut : Mirrors ok R (cutOff : Run σ α) (cutOff : Run τ β) Q :=
  ⟨Triple.cut fun _ hs => hs, fun _ _ hR _ => hR⟩

theorem modify' {f : σ → σ} {g : τ → τ} (hl : ∀ s, ok (f s) → ok s)
    (h : ∀ s t, R s t → R (f s) (g t)) :
    Mirrors ok R (modify f : Run σ Unit) (modify g : Run τ Unit) fun _ _ => True :=
  ⟨Triple.modify' fun s hs hf => hs (hl s hf), fun s t hR _ => ⟨h s t hR, trivial⟩⟩

theorem modifyGet' {f : σ → α × σ} {g : τ → β × τ} (hl : ∀ s, ok (f s).2 → ok s)
    (h : ∀ s t, R s t → ok (f s).2 → R (f s).2 (g t).2 ∧ Q (f s).1 (g t).1) :
    Mirrors ok R (modifyGet f : Run σ α) (modifyGet g : Run τ β) Q :=
  ⟨fun s hs hf => hs (hl s hf), fun s t hR hok => h s t hR hok⟩

theorem mono {Q' : α → β → Prop} (h : Mirrors ok R m m' Q) (hq : ∀ a b, Q a b → Q' a b) :
    Mirrors ok R m m' Q' :=
  ⟨h.loses, h.follows.mono hq⟩

theorem bind' {f : α → Run σ γ} {f' : β → Run τ δ} {Q' : γ → δ → Prop} (hm : Mirrors ok R m m' Q)
    (hQ : ∀ a, ∃ b, Q a b) (hf : ∀ a b, Q a b → Mirrors ok R (f a) (f' b) Q') :
    Mirrors ok R (m >>= f) (m' >>= f') Q' := by
  have hl : ∀ a, Loses ok (f a) := by
    intro a
    obtain ⟨b, hb⟩ := hQ a
    exact (hf a b hb).loses
  exact ⟨Triple.bind' hm.loses hl, hm.follows.bind' hl fun a b hq => (hf a b hq).follows⟩

theorem bind_eq {m' : Run τ α} {f : α → Run σ γ} {f' : α → Run τ δ} {Q' : γ → δ → Prop}
    (hm : Mirrors ok R m m' Eq) (hf : ∀ a, Mirrors ok R (f a) (f' a) Q') :
    Mirrors ok R (m >>= f) (m' >>= f') Q' :=
  hm.bind' (fun a => ⟨a, rfl⟩) fun a _ h => h ▸ hf a

theorem ite' {c : Prop} [Decidable c] {p q : Run σ α} {p' q' : Run τ β}
    (hp : c → Mirrors ok R p p' Q) (hq : ¬c → Mirrors ok R q q' Q) :
    Mirrors ok R (if c then p else q) (if c then p' else q') Q := by
  by_cases h : c
  · rw [if_pos h, if_pos h]
    exact hp h
  · rw [if_neg h, if_neg h]
    exact hq h

end Mirrors

end Following

end TurboScript.Lib
