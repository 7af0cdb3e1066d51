import Mathlib.Logic.Basic
import Mathlib.Data.List.Induction

/- Partial labelled machines and the induction rules for their runs.

   A machine is a step function that takes a state and an input and either
   refuses the input or gives the next state together with a response. `run`
   feeds a list of inputs, `runOut` also collects the responses. The rules below
   turn a fact about one step into a fact about every run: `run_invariant` for a
   predicate of the state, `run_relates` for a reflexive and transitive relation
   between the first and the last state, `runOut_invariant` for a predicate kept
   only by steps with certain responses, `ComesTo.rule` for a predicate of the
   state and the responses so far, which the steps of one run keep. -/
namespace TurboScript.Lib

variable {σ ι ο : Type}

def run (step : σ → ι → Option (σ × ο)) : σ → List ι → Option σ
  | s, [] => some s
  | s, i :: is =>
    match step s i with
    | none => none
    | some (s', _) => run step s' is

variable {step : σ → ι → Option (σ × ο)}

theorem run_cons {s t : σ} {i : ι} {is : List ι} (h : run step s (i :: is) = some t) :
    ∃ s' o, step s i = some (s', o) ∧ run step s' is = some t := by
  simp only [run] at h
  split at h
  · cases h
  · rename_i s' o hs
    exact ⟨s', o, hs, h⟩

theorem run_invariant {P : σ → Prop} (hstep : ∀ s i s' o, P s → step s i = some (s', o) → P s') :
    ∀ (is : List ι) (s t : σ), P s → run step s is = some t → P t := by
  intro is
  induction is with
  | nil => intro s t hp h; cases h; exact hp
  | cons i is ih =>
    intro s t hp h
    obtain ⟨s', o, hs, hr⟩ := run_cons h
    exact ih s' t (hstep s i s' o hp hs) hr

theorem run_relates {P : σ → Prop} {R : σ → σ → Prop} (hrefl : ∀ s, R s s)
    (htrans : ∀ s t u, R s t → R t u → R s u)
    (hkeep : ∀ s i s' o, P s → step s i = some (s', o) → P s')
    (hstep : ∀ s i s' o, P s → step s i = some (s', o) → R s s') :
    ∀ (is : List ι) (s t : σ), P s → run step s is = some t → R s t := by
  intro is
  induction is with
  | nil => intro s t _ h; cases h; exact hrefl s
  | cons i is ih =>
    intro s t hp h
    obtain ⟨s', o, hs, hr⟩ := run_cons h
    exact htrans _ _ _ (hstep s i s' o hp hs) (ih s' t (hkeep s i s' o hp hs) hr)

def runOut (step : σ → ι → Option (σ × ο)) : σ → List ι → Option (σ × List ο)
  | s, [] => some (s, [])
  | s, i :: is =>
    match step s i with
    | none => none
    | some (s', o) =>
      match runOut step s' is with
      | none => none
      | some (t, os) => some (t, o :: os)

theorem runOut_cons {s t : σ} {i : ι} {is : List ι} {os : List ο}
    (h : runOut step s (i :: is) = some (t, os)) :
    ∃ s' o os', step s i = some (s', o) ∧ runOut step s' is = some (t, os') ∧ os = o :: os' := by
  simp only [runOut] at h
  split at h
  · cases h
  · rename_i s' o hs
    split at h
    · cases h
    · rename_i t' os' hr
      cases h
      exact ⟨s', o, os', hs, hr, rfl⟩

theorem runOut_invariant {P : σ → Prop} {Q : ο → Prop}
    (hstep : ∀ s i s' o, P s → step s i = some (s', o) → Q o → P s') :
    ∀ (is : List ι) (s t : σ) (os : List ο), P s → runOut step s is = some (t, os) →
      (∀ o ∈ os, Q o) → P t := by
  intro is
  induction is with
  | nil => intro s t os hp h _; cases h; exact hp
  | cons i is ih =>
    intro s t os hp h hq
    obtain ⟨s', o, os', hs, hr, rfl⟩ := runOut_cons h
    have hp' := hstep s i s' o hp hs (hq o (List.mem_cons_self ..))
    exact ih s' t os' hp' hr (fun o' ho' => hq o' (List.mem_cons_of_mem _ ho'))

theorem runOut_concat {i : ι} {t : σ} :
    ∀ {is : List ι} {s : σ} {os : List ο}, runOut step s (is ++ [i]) = some (t, os) →
      ∃ s' os' o, runOut step s is = some (s', os') ∧ step s' i = some (t, o) ∧ os = os' ++ [o] := by
  intro is
  induction is with
  | nil =>
    intro s os h
    obtain ⟨s', o, os', hs, hr, rfl⟩ := runOut_cons h
    cases hr
    exact ⟨s, [], o, rfl, hs, rfl⟩
  | cons k is ih =>
    intro s os h
    obtain ⟨s', o, os', hs, hr, rfl⟩ := runOut_cons h
    obtain ⟨u, os₁, o₁, hr', hs', rfl⟩ := ih hr
    exact ⟨u, o :: os₁, o₁, by simp [runOut, hs, hr'], hs', rfl⟩

/-- The run on `is` comes to `s` when it has fed a first part of `is`, which got the responses
`os`, and has `rest` before it. -/
def ComesTo (step : σ → ι → Option (σ × ο)) (s₀ : σ) (is : List ι) (s : σ) (os : List ο)
    (rest : List ι) : Prop :=
  ∃ front, is = front ++ rest ∧ runOut step s₀ front = some (s, os)

/-- What holds at the start, and after each step of the run if it does before it, holds wherever
the run comes to. -/
theorem ComesTo.rule {s₀ : σ} {is : List ι} {P : σ → List ο → Prop} (hstart : P s₀ [])
    (hstep : ∀ s os i rest s' o, ComesTo step s₀ is s os (i :: rest) → step s i = some (s', o) →
      P s os → P s' (os ++ [o])) {s : σ} {os : List ο} {rest : List ι}
    (h : ComesTo step s₀ is s os rest) : P s os := by
  obtain ⟨front, he, hr⟩ := h
  induction front using List.reverseRecOn generalizing s os rest with
  | nil => cases hr; exact hstart
  | append_singleton front i ih =>
    obtain ⟨s', os', o, hr', hs', rfl⟩ := runOut_concat hr
    have he' : is = front ++ i :: rest := by simpa using he
    exact hstep s' os' i rest s o ⟨front, he', hr'⟩ hs' (ih he' hr')

end TurboScript.Lib
