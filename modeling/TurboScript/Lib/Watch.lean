import TurboScript.Lib.Run

/- Runs that note what they do.

   A watched run is a run that also appends to a list of notes. `Erases m m₀` says that `m`
   without its notes is `m₀`, whatever has been noted before; `Notes m s Q` says what a run
   of `m` from `s` that ends adds to the list: its result, its own notes and its last state
   are in `Q`. A run that is cut off loses its notes. -/
namespace TurboScript.Lib

abbrev Watch (σ ω : Type) := StateT (List ω) (Run σ)

section Watching
variable {σ ω α β : Type}

def quietly (m : Run σ α) : Watch σ ω α := fun log => do return (← m, log)

def note (w : ω) : Watch σ ω Unit := modify (· ++ [w])

def Erases (m : Watch σ ω α) (m₀ : Run σ α) : Prop :=
  ∀ log, Prod.fst <$> m.run log = m₀

/-- What a run from `s` that ends adds to the notes. -/
def Notes (m : Watch σ ω α) (s : σ) (Q : α → List ω → σ → Prop) : Prop :=
  ∀ log, match m.run log s with
    | .ok (a, log') t => ∃ new, log' = log ++ new ∧ Q a new t
    | .error _ _ => True

namespace Erases
variable {m : Watch σ ω α} {m₀ : Run σ α}

theorem quietly' (m : Run σ α) : Erases (quietly m : Watch σ ω α) m := by
  intro log
  show Prod.fst <$> (m >>= fun a => pure (a, log)) = m
  rw [map_bind]
  simp

theorem pure' (a : α) : Erases (pure a : Watch σ ω α) (pure a) := fun _ => rfl

theorem bind' {f : α → Watch σ ω β} {f₀ : α → Run σ β} (hm : Erases m m₀)
    (hf : ∀ a, Erases (f a) (f₀ a)) : Erases (m >>= f) (m₀ >>= f₀) := by
  intro log
  rw [StateT.run_bind, map_bind, ← hm log]
  simp only [bind_map_left]
  congr 1
  funext p
  exact hf p.1 p.2

theorem ite' {c : Prop} [Decidable c] {x y : Watch σ ω α} {x₀ y₀ : Run σ α}
    (hx : Erases x x₀) (hy : Erases y y₀) :
    Erases (if c then x else y) (if c then x₀ else y₀) := by
  by_cases h : c
  · rw [if_pos h, if_pos h]
    exact hx
  · rw [if_neg h, if_neg h]
    exact hy

theorem ok (h : Erases m m₀) {log log' : List ω} {s t : σ} {a : α}
    (hr : m.run log s = .ok (a, log') t) : m₀ s = .ok a t := by
  rw [← h log, map_eq_pure_bind, bind_apply, hr]
  rfl

end Erases

namespace Notes
variable {m : Watch σ ω α} {s : σ}

variable {Q : α → List ω → σ → Prop}

theorem pure' (a : α) (h : Q a [] s) : Notes (pure a : Watch σ ω α) s Q :=
  fun log => ⟨[], (List.append_nil log).symm, h⟩

theorem quietly' {m : Run σ α} (h : ∀ a t, m s = .ok a t → Q a [] t) :
    Notes (quietly m : Watch σ ω α) s Q := by
  intro log
  show match (m >>= fun a => pure (a, log)) s with
    | .ok (a, log') t => ∃ new, log' = log ++ new ∧ Q a new t
    | .error _ _ => True
  rw [bind_apply]
  cases hr : m s with
  | ok a t => exact ⟨[], (List.append_nil log).symm, h a t hr⟩
  | error x t => trivial

theorem bind' {f : α → Watch σ ω β} {Q : β → List ω → σ → Prop} {P : α → List ω → σ → Prop}
    (hm : Notes m s P)
    (hf : ∀ a new t, P a new t → Notes (f a) t fun b new' u => Q b (new ++ new') u) :
    Notes (m >>= f) s Q := by
  intro log
  have h₁ := hm log
  rw [StateT.run_bind, bind_apply]
  cases hr : m.run log s with
  | error x t => trivial
  | ok p t =>
    obtain ⟨a, log'⟩ := p
    rw [hr] at h₁
    obtain ⟨new, hlog, hP⟩ := h₁
    have h₂ := hf a new t hP log'
    show match (f a).run log' t with
      | .ok (b, log') t => ∃ new, log' = log ++ new ∧ Q b new t
      | .error _ _ => True
    cases hr' : (f a).run log' t with
    | error x u => trivial
    | ok q u =>
      obtain ⟨b, log''⟩ := q
      rw [hr'] at h₂
      obtain ⟨new', hlog', hQ⟩ := h₂
      exact ⟨new ++ new', by rw [hlog', hlog, List.append_assoc], hQ⟩

theorem quietly_bind {m : Run σ α} {f : α → Watch σ ω β} {Q : β → List ω → σ → Prop}
    (h : ∀ a t, m s = .ok a t → Notes (f a) t Q) : Notes (quietly m >>= f) s Q := by
  apply bind' (P := fun a new t => new = [] ∧ m s = .ok a t) (quietly' fun a t hr => ⟨rfl, hr⟩)
  intro a new t hP
  rw [hP.1]
  exact h a t hP.2

theorem note_bind (w : ω) {f : Unit → Watch σ ω β} {Q : β → List ω → σ → Prop}
    (h : Notes (f ()) s fun b new t => Q b (w :: new) t) : Notes (note w >>= f) s Q := by
  have hw : Notes (note w : Watch σ ω Unit) s fun _ new t => new = [w] ∧ t = s :=
    fun log => ⟨[w], rfl, rfl, rfl⟩
  apply hw.bind'
  intro a new t hP
  rw [hP.1, hP.2]
  exact h

theorem mono {Q' : α → List ω → σ → Prop} (h : Notes m s Q)
    (hq : ∀ a new t, Q a new t → Q' a new t) : Notes m s Q' := by
  intro log
  have h₁ := h log
  cases hr : m.run log s with
  | error x t => trivial
  | ok p t =>
    rw [hr] at h₁
    obtain ⟨new, hlog, hQ⟩ := h₁
    exact ⟨new, hlog, hq p.1 new t hQ⟩

theorem erased {m₀ : Run σ α} (he : Erases m m₀)
    (h : Notes m s fun a new t => m₀ s = .ok a t → Q a new t) : Notes m s Q := by
  intro log
  have h₁ := h log
  cases hr : m.run log s with
  | error x t => trivial
  | ok p t =>
    rw [hr] at h₁
    obtain ⟨new, hlog, hQ⟩ := h₁
    exact ⟨new, hlog, hQ (he.ok hr)⟩

theorem around {m' : Watch σ ω α} {s' : σ} {g : σ → σ}
    (hok : ∀ log p t, m.run log s = .ok p t → ∃ t', m'.run log s' = .ok p t' ∧ t = g t')
    (h : Notes m' s' fun a new t => Q a new (g t)) : Notes m s Q := by
  intro log
  have h₁ := h log
  cases hr : m.run log s with
  | error x t => trivial
  | ok p t =>
    obtain ⟨t', hr', ht⟩ := hok log p t hr
    rw [hr'] at h₁
    rw [ht]
    exact h₁

theorem of_nil (h : Notes m s Q) {a : α} {log : List ω} {t : σ} (hr : m.run [] s = .ok (a, log) t) :
    Q a log t := by
  have h₁ := h []
  rw [hr] at h₁
  obtain ⟨new, hlog, hQ⟩ := h₁
  rw [hlog]
  exact hQ

end Notes

end Watching

end TurboScript.Lib
