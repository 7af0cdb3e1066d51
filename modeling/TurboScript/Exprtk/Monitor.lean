import TurboScript.Exprtk.Discipline

/- A pending throw and what happens while it is pending.

   1. The monitor: from the list of events, which throw is pending, and whether something
      took effect (or was thrown) while one was.
   2. The state predicates. `Idle`: nothing is pending. `Open`: at most a throw is pending
      that the environment `e` carries in its flow flag, and only where the enclosing
      constructs will test the flag. Both are excused once a throw was raised where they
      will not, and, for the MIR evaluator, once something was aborted. -/
namespace TurboScript.Exprtk
open Lib

section Monitor
variable {D Θ : Type}

/-- The value of the throw no `try` has taken over yet; the list is newest first. -/
def pending : List (Event D) → Option (Value D)
  | [] => none
  | .throw _ v :: _ => some v
  | .caught :: _ => none
  | .aborted :: t => pending t
  | .effect _ :: t => pending t
  | .resumed :: t => pending t
  | .cleared :: t => pending t

def late : List (Event D) → Bool
  | [] => false
  | .throw _ _ :: t => late t || (pending t).isSome
  | .effect _ :: t => late t || (pending t).isSome
  | .caught :: t => late t
  | .aborted :: t => late t
  | .resumed :: t => late t
  | .cleared :: t => late t

def Quiet (trace : List (Event D)) : Prop :=
  ∀ a b c g v k, trace = a ++ .effect k :: (b ++ .throw g v :: c) → .caught ∈ b

/-- Every throw was raised where each construct up to the nearest enclosing `try` tests the
    flow flag. -/
def Guarded (trace : List (Event D)) : Prop :=
  ∀ v, Event.throw false v ∉ trace

theorem late_of_suffix {a t : List (Event D)} (h : late t = true) : late (a ++ t) = true := by
  induction a with
  | nil => exact h
  | cons ev a ih => cases ev <;> simp [late, ih]

theorem pending_of_no_catch {b c : List (Event D)} {g : Bool} {v : Value D}
    (h : .caught ∉ b) : (pending (b ++ .throw g v :: c)).isSome = true := by
  induction b with
  | nil => rfl
  | cons ev b ih =>
    have hb : Event.caught ∉ b := fun hm => h (List.mem_cons_of_mem _ hm)
    cases ev with
    | throw => rfl
    | caught => exact absurd (List.mem_cons_self) h
    | aborted | effect | resumed | cleared => exact ih hb

theorem quiet_of_not_late {t : List (Event D)} (h : late t = false) : Quiet t := by
  rintro a b c g v k rfl
  by_contra hb
  have hl : late (.effect k :: (b ++ .throw g v :: c)) = true := by
    show (late _ || (pending _).isSome) = true
    rw [pending_of_no_catch hb, Bool.or_true]
  rw [late_of_suffix hl] at h
  exact absurd h (by decide)

/-- An event after which nothing is promised; `x` says whether aborts are such. -/
def Excused (x : Bool) (trace : List (Event D)) : Prop :=
  (∃ v, Event.throw false v ∈ trace) ∨ (x = true ∧ Event.aborted ∈ trace)

theorem Excused.cons {x : Bool} {t : List (Event D)} (h : Excused x t) (ev : Event D) :
    Excused x (ev :: t) := by
  rcases h with ⟨v, hv⟩ | ⟨hx, ha⟩
  · exact .inl ⟨v, List.mem_cons_of_mem _ hv⟩
  · exact .inr ⟨hx, List.mem_cons_of_mem _ ha⟩

def Logged (s : State D Θ) : Prop :=
  ∀ i, (s.envs i).aborted = true → Event.aborted ∈ s.trace

variable (x : Bool)

def Fine (s : State D Θ) : Prop := Excused x s.trace ∨ late s.trace = false

structure Idle (g : Bool) (s : State D Θ) : Prop where
  guard : s.guard = g
  logged : Logged s
  idle : Excused x s.trace ∨ (late s.trace = false ∧ pending s.trace = none)

/-- At most a throw is pending that `e` carries, and only if `a` allows one. -/
structure Open (g a : Bool) (e : EnvId) (s : State D Θ) : Prop where
  guard : s.guard = g
  logged : Logged s
  carried : Excused x s.trace ∨ (late s.trace = false ∧ ∀ v, pending s.trace = some v →
    a = true ∧ (s.envs e).flow = .throw ∧ (s.envs e).errorValue = v)

variable {x : Bool} {g a : Bool} {e : EnvId} {s : State D Θ}

theorem Open.fine (h : Open x g a e s) : Fine x s :=
  h.carried.imp id And.left

theorem Idle.open (h : Idle x g s) (a : Bool) (e : EnvId) : Open x g a e s where
  guard := h.guard
  logged := h.logged
  carried := h.idle.imp id fun ⟨hl, hp⟩ => ⟨hl, fun v hv => by rw [hp] at hv; cases hv⟩

theorem Open.idle (h : Open x g a e s) (hf : (s.envs e).flow ≠ .throw) : Idle x g s where
  guard := h.guard
  logged := h.logged
  idle := h.carried.imp id fun ⟨hl, hp⟩ => ⟨hl, by
    cases hv : pending s.trace with
    | none => rfl
    | some v => exact absurd (hp v hv).2.1 hf⟩

theorem Open.idle_of_down (h : Open x g false e s) : Idle x g s where
  guard := h.guard
  logged := h.logged
  idle := h.carried.imp id fun ⟨hl, hp⟩ => ⟨hl, by
    cases hv : pending s.trace with
    | none => rfl
    | some v => exact absurd (hp v hv).1 (by decide)⟩

end Monitor

/-! Changes of the state. -/

section Changes
variable {D Θ : Type} {x g a : Bool} {e c : EnvId} {s : State D Θ}

theorem Silent.logged {f : State D Θ → State D Θ} (hf : Silent f) (h : Logged s) : Logged (f s) := by
  intro i hi
  rw [hf.trace]
  exact h i (by rw [← hf.aborted]; exact hi)

theorem Silent.idle {f : State D Θ → State D Θ} (hf : Silent f) (h : Idle x g s) : Idle x g (f s) where
  guard := by rw [hf.guard, h.guard]
  logged := hf.logged h.logged
  idle := by rw [hf.trace]; exact h.idle

theorem Silent.open {f : State D Θ → State D Θ} (hf : Silent f) (h : Open x g a e s) :
    Open x g a e (f s) where
  guard := by rw [hf.guard, h.guard]
  logged := hf.logged h.logged
  carried := by rw [hf.trace, hf.flow, hf.errorValue]; exact h.carried

theorem Idle.update (hs : Idle x g s) (i : EnvId) {f : Env D → Env D}
    (hf : (f (s.envs i)).aborted = true → Event.aborted ∈ s.trace) : Idle x g (s.update i f) := by
  refine ⟨hs.guard, fun j hj => ?_, hs.idle⟩
  by_cases h : j = i
  · subst h
    exact hf (by simpa [State.update] using hj)
  · exact hs.logged j (by simpa [State.update, h] using hj)

theorem Open.abort (hs : Open x g a e s) (i : EnvId) :
    Open x g a e ({ s with trace := .aborted :: s.trace }.update i
      fun env => { env with aborted := true }) := by
  refine ⟨hs.guard, fun _ _ => List.mem_cons_self, ?_⟩
  refine hs.carried.imp (fun h => h.cons _) fun ⟨hl, hp⟩ => ⟨hl, fun v hv => ?_⟩
  have h := hp v hv
  by_cases hi : e = i
  · subst hi
    simpa [State.update] using h
  · simpa [State.update, hi] using h

theorem Open.note (hs : Open x g a e s) {ev : Event D}
    (hp : ∀ t, pending (ev :: t) = pending t) (hl : ∀ t, late (ev :: t) = late t) :
    Open x g a e { s with trace := ev :: s.trace } := by
  refine ⟨hs.guard, fun i hi => List.mem_cons_of_mem _ (hs.logged i hi), ?_⟩
  refine hs.carried.imp (fun h => h.cons _) fun hc => ?_
  show late (ev :: s.trace) = false ∧ ∀ v, pending (ev :: s.trace) = some v → _
  rw [hp, hl]
  exact hc

theorem Open.handOver (hs : Open x g a e s) {t : State D Θ} (hg : t.guard = s.guard)
    (ht : t.trace = s.trace) (hlog : Logged t) (hf : (t.envs c).flow = .throw)
    (hv : (t.envs c).errorValue = (s.envs e).errorValue) : Open x g a c t where
  guard := hg.trans hs.guard
  logged := hlog
  carried := by
    rw [ht]
    exact hs.carried.imp id fun ⟨hl, hp⟩ => ⟨hl, fun v h => ⟨(hp v h).1, hf, hv.trans (hp v h).2.2⟩⟩

end Changes

end TurboScript.Exprtk
