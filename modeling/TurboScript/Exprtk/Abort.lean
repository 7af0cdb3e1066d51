import TurboScript.Exprtk.MirDiscipline
import TurboScript.Exprtk.Monitor

/- The abort flag of an evaluation.

   1. The events: after an abort the evaluation must not go on (`Heeded`), no flag may be
      replaced by 0, and a catch clause follows a throw.
   2. The invariant. `Held` is of every state of a run; `Flagged e`: an abort has reached the
      environment `e`. An evaluation at `e` keeps both (`Keeps e`); one that reports failure
      may have lost the second (`KeepsIf`).
   3. The operations, and the copy-backs of a frame and of a catch scope.

   A frame and a catch scope start with the flag clear. The step that enters them is
   logged, so in a heeded run nothing has aborted before it: what the scope has in its flag
   at the end is then all there is to copy back. -/
namespace TurboScript.Exprtk
open Lib
open Triple (bind' ite' modify' pure')

set_option linter.unusedSectionVars false

section Trace
variable {D Θ : Type}

/-- After an abort no catch clause is entered and the evaluation does not go on in an
    environment that is not aborted. -/
def Heeded (trace : List (Event D)) : Prop :=
  ∀ a b, trace = a ++ .caught :: b ∨ trace = a ++ .resumed :: b → Event.aborted ∉ b

/-- Something was thrown before each catch clause. -/
def Caused (trace : List (Event D)) : Prop :=
  ∀ a b, trace = a ++ .caught :: b → ∃ g v, Event.throw g v ∈ b

variable {t : List (Event D)} {s₀ s : State D Θ}

theorem Heeded.tail {ev : Event D} (h : Heeded (ev :: t)) : Heeded t := by
  intro a b hab
  refine h (ev :: a) b (hab.imp ?_ ?_)
  all_goals
    rintro rfl
    rfl

theorem Heeded.not_aborted (h : Heeded (.resumed :: t)) : Event.aborted ∉ t :=
  h [] t (.inr rfl)

theorem Heeded.not_aborted_of_caught (h : Heeded (.caught :: t)) : Event.aborted ∉ t :=
  h [] t (.inl rfl)

theorem Caused.cons {ev : Event D} (h : Caused t)
    (hev : ev = .caught → ∃ g v, Event.throw g v ∈ t) : Caused (ev :: t) := by
  intro a b hab
  cases a with
  | nil =>
    obtain ⟨rfl, rfl⟩ := List.cons.inj hab
    exact hev rfl
  | cons ev' a =>
    obtain ⟨-, rfl⟩ := List.cons.inj hab
    exact h a b rfl

def Safe (s : State D Θ) : Prop :=
  Caused s.trace ∧ (Heeded s.trace → Event.cleared ∉ s.trace)

/-- What holds of every state `s` after `s₀`. -/
structure Held (s₀ s : State D Θ) : Prop where
  trace : s₀.trace <:+ s.trace
  next : s₀.next ≤ s.next
  logged : Logged s
  thrown : ∀ i, (s.envs i).flow = .throw → ∃ g v, Event.throw g v ∈ s.trace
  caused : Caused s.trace
  kept : Heeded s.trace → Event.cleared ∉ s.trace

/-- An abort has reached `e`. -/
def Flagged (e : EnvId) (s : State D Θ) : Prop :=
  Heeded s.trace → Event.aborted ∈ s.trace → (s.envs e).aborted = true

/-- The invariant of an evaluation at `e`; `k` says whether the abort flag of `e` is
    followed. -/
def Inv (k : Bool) (e : EnvId) (s₀ s : State D Θ) : Prop :=
  Held s₀ s ∧ (k = true → Flagged e s)

theorem Held.safe (h : Held s₀ s) : Safe s := ⟨h.caused, h.kept⟩

theorem Held.trans {s₁ : State D Θ} (h : Held s₀ s₁) (h' : Held s₁ s) : Held s₀ s :=
  { h' with trace := h.trace.trans h'.trace, next := h.next.trans h'.next }

theorem Held.here (h : Held s₀ s) : Held s s :=
  { h with trace := List.suffix_rfl, next := le_rfl }

theorem Held.unflagged (h : Held s₀ s) (e : EnvId) : Inv false e s₀ s :=
  ⟨h, fun hk => by cases hk⟩

theorem Inv.weaken {k : Bool} {e : EnvId} (h : Inv true e s₀ s) : Inv k e s₀ s :=
  ⟨h.1, fun _ => h.2 rfl⟩

/-- A change that neither logs, nor throws, nor touches the abort flag of an environment
    that exists. -/
structure Plain (f : State D Θ → State D Θ) : Prop where
  trace : ∀ s, (f s).trace = s.trace
  next : ∀ s, s.next ≤ (f s).next
  flow : ∀ s i, ((f s).envs i).flow = .throw → (s.envs i).flow = .throw
  aborted : ∀ s i, ((f s).envs i).aborted = true → (s.envs i).aborted = true
  flag : ∀ s i, i < s.next → (s.envs i).aborted = true → ((f s).envs i).aborted = true

theorem Plain.held {f : State D Θ → State D Θ} (hf : Plain f) (h : Held s₀ s) : Held s₀ (f s) where
  trace := by rw [hf.trace]; exact h.trace
  next := h.next.trans (hf.next s)
  logged := fun i hi => by rw [hf.trace]; exact h.logged i (hf.aborted s i hi)
  thrown := fun i hi => by rw [hf.trace]; exact h.thrown i (hf.flow s i hi)
  caused := by rw [hf.trace]; exact h.caused
  kept := by rw [hf.trace]; exact h.kept

theorem Plain.inv {f : State D Θ → State D Θ} (hf : Plain f) {k : Bool} {e : EnvId}
    (he : k = true → e < s₀.next) (h : Inv k e s₀ s) : Inv k e s₀ (f s) := by
  refine ⟨hf.held h.1, fun hk hheed hab => ?_⟩
  rw [hf.trace] at hheed hab
  exact hf.flag s e ((he hk).trans_le h.1.next) (h.2 hk hheed hab)

theorem Plain.update (i : EnvId) {f : Env D → Env D}
    (hflow : ∀ env, (f env).flow = .throw → env.flow = .throw)
    (hab : ∀ env, (f env).aborted = env.aborted) :
    Plain fun s : State D Θ => s.update i f := by
  refine ⟨fun _ => rfl, fun _ => le_rfl, ?_, ?_, ?_⟩
  all_goals
    intro s j
    by_cases hj : j = i
    · subst hj
      simp [State.update, hab]
      try exact hflow _
    · simp [State.update, hj]

theorem Plain.ofSilent {f : State D Θ → State D Θ} (hf : Silent f) : Plain f where
  trace := hf.trace
  next s := (hf.next s).ge
  flow s i h := by rwa [hf.flow] at h
  aborted s i h := by rwa [hf.aborted] at h
  flag s i _ h := by rwa [hf.aborted]

theorem Held.log (h : Held s₀ s) (ev : Event D) (hc : ev = .caught → ∃ g v, Event.throw g v ∈ s.trace)
    (hk : ev = .cleared → ¬ Heeded (ev :: s.trace)) :
    Held s₀ { s with trace := ev :: s.trace } where
  trace := h.trace.trans (List.suffix_cons ev s.trace)
  next := h.next
  logged := fun i hi => List.mem_cons_of_mem _ (h.logged i hi)
  thrown := fun i hi => by
    obtain ⟨g, v, hv⟩ := h.thrown i hi
    exact ⟨g, v, List.mem_cons_of_mem _ hv⟩
  caused := h.caused.cons hc
  kept := fun hheed hm => by
    rcases List.mem_cons.mp hm with heq | hm
    · exact hk heq.symm hheed
    · exact h.kept hheed.tail hm

theorem Held.resumed (h : Held s₀ s) (e : EnvId) :
    Inv true e s₀ { s with trace := .resumed :: s.trace } := by
  refine ⟨h.log _ (fun heq => by cases heq) (fun heq => by cases heq), fun _ hheed hab => ?_⟩
  have hab : Event.aborted ∈ .resumed :: s.trace := hab
  rcases List.mem_cons.mp hab with heq | hab
  · cases heq
  · exact absurd hab (Heeded.not_aborted hheed)

end Trace

/-! Computations. -/

section Computations
variable {D Θ : Type} {α : Type} {e : EnvId}

/-- Keeps the invariant; the abort flag is followed when `ok` holds of the result. -/
def KeepsIf (ok : α → Bool) (e : EnvId) (m : Eval D Θ α) : Prop :=
  ∀ k s₀, (k = true → e < s₀.next) → Triple Safe (Inv k e s₀) m fun a => Inv (k && ok a) e s₀

def Keeps (e : EnvId) (m : Eval D Θ α) : Prop :=
  ∀ k s₀, (k = true → e < s₀.next) → Triple Safe (Inv k e s₀) m fun _ => Inv k e s₀

/-- From anywhere to a state where every abort has reached `e`. -/
def Resets (e : EnvId) (m : Eval D Θ α) : Prop :=
  ∀ s₀, Triple Safe (Held s₀) m fun _ => Inv true e s₀

theorem Resets.keeps {m : Eval D Θ α} (hm : Resets e m) : Keeps e m :=
  fun _ s₀ _ => (hm s₀).mono (fun _ hs => hs.1) fun _ _ hs => hs.weaken

/-- At rest and open alike: every abort has reached `e`, where that is followed. -/
def aborts : Discipline D Θ where
  Index := Bool × State D Θ
  cut := Safe
  idle i e s := Inv i.1 e i.2 s ∧ (i.1 = true → e < i.2.next)
  opened i e s := Inv i.1 e i.2 s ∧ (i.1 = true → e < i.2.next)
  lost i e s := Held i.2 s ∧ (i.1 = true → e < i.2.next)
  down _ := True

theorem keeps_iff {m : Eval D Θ α} : aborts.Calm e m ↔ Keeps e m := by
  refine ⟨fun h k s₀ he => ?_, fun h i => ?_⟩
  · exact (h (k, s₀)).mono (fun _ hs => ⟨hs, he⟩) fun _ _ hs => hs.1
  · intro s hs
    exact (h i.1 i.2 hs.2).post (fun _ _ hq => ⟨hq, hs.2⟩) s hs.1

theorem ends_iff {ok : α → Bool} {k : Bool} {s₀ s : State D Θ} {a : α} :
    aborts.Ends e ok (k, s₀) a s ↔ Inv (k && ok a) e s₀ s ∧ (k = true → e < s₀.next) := by
  cases ha : ok a with
  | true => simp [Discipline.Ends, aborts, ha]
  | false => simp [Discipline.Ends, aborts, ha, Inv]

theorem keepsIf_iff {ok : α → Bool} {m : Eval D Θ α} : aborts.SoundIf e ok m ↔ KeepsIf ok e m := by
  refine ⟨fun h k s₀ he => ?_, fun h i => ?_⟩
  · exact (h (k, s₀)).mono (fun _ hs => ⟨hs, he⟩) fun _ _ hs => (ends_iff.1 hs).1
  · intro s hs
    exact (h i.1 i.2 hs.2).post (fun _ _ hq => ends_iff.2 ⟨hq, hs.2⟩) s hs.1

end Computations

/-! The operations on the state. -/

section Operations
variable {D Θ : Type} {α : Type} {e : EnvId}

theorem Plain.keeps {f : State D Θ → State D Θ} (hf : Plain f) : Keeps e (modify f : Eval D Θ Unit) :=
  fun _ _ he => modify' fun _ hs => hf.inv he hs

theorem guard_keeps (g : Bool) : Keeps e (modify fun s => { s with guard := g } : Eval D Θ Unit) :=
  Plain.keeps ⟨fun _ => rfl, fun _ => le_rfl, fun _ _ h => h, fun _ _ h => h, fun _ _ _ h => h⟩

theorem newEnv_plain (env : Env D) (ha : env.aborted = false) (hf : env.flow ≠ .throw) :
    Plain fun s : State D Θ =>
      { s with envs := Function.update s.envs s.next env, next := s.next + 1 } := by
  refine ⟨fun _ => rfl, fun _ => Nat.le_succ _, ?_, ?_, ?_⟩
  all_goals
    intro s i
    by_cases hi : i = s.next
    · subst hi
      simp [ha, hf]
    · simp [hi]

theorem newEnv_keeps {env : Env D} (ha : env.aborted = false) (hf : env.flow ≠ .throw) :
    Keeps e (newEnv env : Eval D Θ EnvId) :=
  fun _ _ he _ hs => (newEnv_plain env ha hf).inv he hs

theorem newEnv_bind {env : Env D} (ha : env.aborted = false) (hf : env.flow ≠ .throw)
    {rest : EnvId → Eval D Θ α} {P : α → State D Θ → Prop} {s₀ : State D Θ}
    (h : ∀ i s₁, i < s₁.next → Triple Safe (Held s₁) (rest i) fun a s => Held s₁ s ∧ P a s) :
    Triple Safe (Held s₀) (newEnv env >>= rest) fun a s => Held s₀ s ∧ P a s := by
  intro s hs
  have h₁ := (newEnv_plain env ha hf).held hs
  have h₂ := h s.next _ (Nat.lt_succ_self s.next) _ h₁.here
  have hn : newEnv env s = .ok s.next
      { s with envs := Function.update s.envs s.next env, next := s.next + 1 } := rfl
  rw [bind_apply, hn]
  dsimp only
  cases hr : rest s.next { s with envs := Function.update s.envs s.next env, next := s.next + 1 } with
  | ok a s' =>
    rw [hr] at h₂
    exact ⟨h₁.trans h₂.1, h₂.2⟩
  | error x s' =>
    rw [hr] at h₂
    exact h₂

theorem effect_keeps (k : Effect) : Keeps e (emit (.effect k) : Eval D Θ Unit) := by
  refine fun b s₀ he => modify' fun s hs => ⟨?_, fun hb hheed hab => ?_⟩
  · exact hs.1.log _ (fun heq => by cases heq) fun heq => by cases heq
  · rcases List.mem_cons.mp hab with heq | hab
    · cases heq
    · exact hs.2 hb (Heeded.tail hheed) hab

theorem raise_keeps (i : EnvId) (v : Value D) : Keeps e (raise i v : Eval D Θ Unit) := by
  intro k s₀ he s hs
  have hlog := hs.1.log (.throw s.guard v) (fun heq => by cases heq) fun heq => by cases heq
  refine ⟨{ hlog with logged := fun j hj => hlog.logged j ?_, thrown := fun j _ => ?_ }, ?_⟩
  · by_cases h : j = i
    · subst h
      simpa [State.update] using hj
    · simpa [State.update, h] using hj
  · exact ⟨s.guard, v, List.mem_cons_self⟩
  · intro hk hheed hab
    have hflag : (s.envs e).aborted = true := by
      rcases List.mem_cons.mp hab with heq | hab
      · cases heq
      · exact hs.2 hk (Heeded.tail hheed) hab
    by_cases h : e = i
    · subst h
      simpa [State.update] using hflag
    · simpa [State.update, h] using hflag

theorem abort_resets (e : EnvId) : Resets e (abort e : Eval D Θ Unit) := by
  intro s₀ s hs
  have hlog := hs.log .aborted (fun heq => by cases heq) fun heq => by cases heq
  refine ⟨{ hlog with logged := fun _ _ => List.mem_cons_self, thrown := fun j hj => ?_ }, ?_⟩
  · refine hlog.thrown j ?_
    by_cases h : j = e
    · subst h
      simpa [State.update] using hj
    · simpa [State.update, h] using hj
  · intro _ _ _
    simp [State.update]

theorem resume_resets (e : EnvId) : Resets e (resume e : Eval D Θ Unit) := by
  intro s₀
  refine bind' (getEnv_spec e) fun env => ?_
  refine ite' (fun _ => modify' fun s hs => hs.1.resumed e) fun ha => ?_
  refine pure' _ fun s hs => ⟨hs.1, fun _ _ _ => ?_⟩
  rw [← hs.2]
  exact Bool.eq_true_of_not_eq_false ha

theorem valueArgError_resets (e : EnvId) : Resets e (valueArgError e : Eval D Θ Unit) := by
  intro s₀
  refine bind' ((getEnv_spec e).post fun _ _ hs => hs.1) fun env => ?_
  refine ite' (fun _ => ?_) fun _ => resume_resets e s₀
  refine bind' (abort_resets e s₀) fun _ => modify' fun s hs => ?_
  refine ⟨Plain.held (f := fun s => s.update e _) (Plain.update e ?_ ?_) hs.1, fun _ hheed hab => ?_⟩
  · exact fun _ h => h
  · exact fun _ => rfl
  · have hflag := hs.2 rfl hheed hab
    simpa [State.update] using hflag

end Operations

/-! The copy-backs. -/

section CopyBack
variable {D Θ : Type} {e c : EnvId} {s₀ : State D Θ} {l : Env D}

/-- The flags `l` of a scope that is left say everything an outer environment must know. -/
structure Telling (l : Env D) (s₀ s : State D Θ) : Prop where
  held : Held s₀ s
  flag : Heeded s.trace → Event.aborted ∈ s.trace → l.aborted = true
  logged : l.aborted = true → Event.aborted ∈ s.trace
  thrown : l.flow = .throw → ∃ g v, Event.throw g v ∈ s.trace

theorem noteCleared_telling (e : EnvId) :
    Triple Safe (fun s => Inv true c s₀ s ∧ l = s.envs c) (noteCleared e l.aborted : Eval D Θ Unit)
      fun _ => Telling l s₀ := by
  refine bind' (getEnv_spec e) fun env => ?_
  refine ite' (fun hc => modify' fun s hs => ?_) fun _ => pure' _ fun s hs => ?_
  · obtain ⟨⟨hs, rfl⟩, rfl⟩ := hs
    have hno : ¬ Heeded (.cleared :: s.trace) := fun hheed => by
      have := hs.2 rfl hheed.tail (hs.1.logged e hc.1)
      rw [hc.2] at this
      cases this
    refine ⟨hs.1.log _ (fun heq => by cases heq) fun _ => hno, fun hheed => absurd hheed hno, ?_, ?_⟩
    · exact fun ha => List.mem_cons_of_mem _ (hs.1.logged c ha)
    · intro hf
      obtain ⟨g, v, hv⟩ := hs.1.thrown c hf
      exact ⟨g, v, List.mem_cons_of_mem _ hv⟩
  · obtain ⟨⟨hs, rfl⟩, -⟩ := hs
    exact ⟨hs.1, hs.2 rfl, hs.1.logged c, hs.1.thrown c⟩

theorem Telling.write {s : State D Θ} (h : Telling l s₀ s) {f : Env D → Env D}
    (hab : (f (s.envs e)).aborted = l.aborted)
    (hflow : (f (s.envs e)).flow = .throw → (s.envs e).flow = .throw ∨ l.flow = .throw) :
    Telling l s₀ (s.update e f) ∧ ((s.update e f).envs e).aborted = l.aborted := by
  have hab' : ((s.update e f).envs e).aborted = l.aborted := by simpa [State.update] using hab
  refine ⟨⟨{ h.held with logged := fun i hi => ?_, thrown := fun i hi => ?_ }, h.flag, h.logged,
    h.thrown⟩, hab'⟩
  · by_cases hie : i = e
    · subst hie
      exact h.logged (hab' ▸ hi)
    · exact h.held.logged i (by simpa [State.update, hie] using hi)
  · by_cases hie : i = e
    · subst hie
      have hi : (f (s.envs i)).flow = .throw := by simpa [State.update] using hi
      exact (hflow hi).elim (h.held.thrown i) h.thrown
    · exact h.held.thrown i (by simpa [State.update, hie] using hi)

def Copied (l : Env D) (e : EnvId) (s₀ s : State D Θ) : Prop :=
  Telling l s₀ s ∧ (s.envs e).aborted = l.aborted

theorem Copied.inv {s : State D Θ} (h : Copied l e s₀ s) : Inv true e s₀ s :=
  ⟨h.1.held, fun _ hheed hab => h.2.trans (h.1.flag hheed hab)⟩

theorem Copied.write {s : State D Θ} (h : Copied l e s₀ s) {f : Env D → Env D}
    (hab : ∀ env, (f env).aborted = env.aborted)
    (hflow : ∀ env, (f env).flow = .throw → env.flow = .throw ∨ l.flow = .throw) :
    Copied l e s₀ (s.update e f) :=
  h.1.write ((hab _).trans h.2) (hflow _)

theorem leaveFrame_flags (caller frame : EnvId) (result : Value D) :
    Triple Safe (Inv true frame s₀) (leaveFrame caller frame result : Eval D Θ (Value D))
      fun _ => Inv true caller s₀ := by
  refine bind' (getEnv_spec frame) fun l => ?_
  refine bind' (noteCleared_telling caller) fun _ => ?_
  refine bind' (modify' (Q := fun _ => Copied l caller s₀) fun s hs =>
    hs.write rfl fun hf => .inl hf) fun _ => ?_
  cases hl : l.flow with
  | throw =>
    refine bind' (modify' (Q := fun _ => Copied l caller s₀) fun s hs =>
      hs.write (fun _ => rfl) fun _ _ => .inr hl) fun _ => ?_
    exact pure' _ fun _ hs => hs.inv
  | yield =>
    refine bind' (modify' (Q := fun _ => Copied l caller s₀) fun s hs =>
      hs.write (fun _ => rfl) fun _ hf => by cases hf) fun _ => ?_
    exact pure' _ fun _ hs => hs.inv
  | «return» | normal | «break» | «continue» => exact pure' _ fun _ hs => hs.inv

theorem leaveCatch_flags [Double D] [Formats] (e c : EnvId) :
    Triple Safe (Inv true c s₀) (leaveCatch e c : Eval D Θ Unit) fun _ => Inv true e s₀ := by
  refine bind' (getEnv_spec c) fun l => ?_
  refine bind' (noteCleared_telling e) fun _ => ?_
  refine bind' (modify' (Q := fun _ => Copied l e s₀) fun s hs =>
    hs.write rfl fun hf => .inl hf) fun _ => ?_
  refine ite' (fun _ => modify' fun s hs => ?_) fun _ =>
    pure' _ fun _ hs => hs.inv
  exact Copied.inv (hs.write (fun _ => rfl) fun _ hf => .inr hf)

theorem enterCatch_bind [Double D] [Formats] {α : Type} (s₀ : State D Θ) (e : EnvId) (catchVar : Option Name)
    (rest : EnvId → Eval D Θ α) {P : α → State D Θ → Prop}
    (h : ∀ c s₁, c < s₁.next → Triple Safe (Inv true c s₁) (rest c) fun a s => Held s₁ s ∧ P a s) :
    Triple Safe (fun s => Held s₀ s ∧ (s.envs e).flow = .throw) (enterCatch e catchVar >>= rest)
      fun a s => Held s₀ s ∧ P a s := by
  -- the log is clean of aborts from here on, so every scope is flagged
  have hclean : ∀ s : State D Θ, Held s₀ s ∧ (s.envs e).flow = .throw →
      Held s₀ { s with trace := .caught :: s.trace } ∧
        (Heeded (.caught :: s.trace) → Event.aborted ∉ .caught :: s.trace) := by
    intro s hs
    refine ⟨hs.1.log _ (fun _ => hs.1.thrown e hs.2) (fun heq => by cases heq), fun hheed hm => ?_⟩
    rcases List.mem_cons.mp hm with heq | hm
    · cases heq
    · exact hheed.not_aborted_of_caught hm
  intro s hs
  obtain ⟨hheld, hnone⟩ := hclean s hs
  have hflow := (Plain.update (Θ := Θ) e (f := fun env : Env D => { env with flow := .normal })
    (fun _ hf => by cases hf) fun _ => rfl).held hheld
  set t := ({ s with trace := .caught :: s.trace } : State D Θ).update e
    fun env => { env with flow := .normal } with ht
  have hplain := newEnv_plain (Θ := Θ) (catchEnv e (t.envs e) catchVar) rfl
    (by simp [catchEnv, Env.childWithCounters, initChild])
  have hnew := hplain.held hflow
  set u := ({ t with envs := Function.update t.envs t.next (catchEnv e (t.envs e) catchVar),
                     next := t.next + 1 } : State D Θ) with hu
  have heq : enterCatch e catchVar s = .ok t.next u := rfl
  rw [bind_apply, heq]
  have hrest := h t.next u (Nat.lt_succ_self _) u ⟨hnew.here, fun _ hheed hab =>
    absurd hab (hnone hheed)⟩
  dsimp only
  cases hr : rest t.next u with
  | ok a s' =>
    rw [hr] at hrest
    exact ⟨hnew.trans hrest.1, hrest.2⟩
  | error x s' =>
    rw [hr] at hrest
    exact hrest

end CopyBack

section Guards
variable {D Θ : Type} {α : Type} {e : EnvId} {ok : α → Bool} {m : Eval D Θ α}

theorem get_bind_keeps {f : State D Θ → Eval D Θ α} (h : ∀ t, KeepsIf ok e (f t)) :
    KeepsIf ok e (get >>= f) :=
  fun k s₀ he => bind' (Triple.get' fun _ hs => hs) fun t => h t k s₀ he

theorem KeepsIf.guarded (hm : KeepsIf ok e m) (g : Bool) : KeepsIf ok e (do
    let t ← get
    modify fun s => { s with guard := g }
    let a ← m
    modify fun s => { s with guard := t.guard }
    return a) := by
  refine get_bind_keeps fun t k s₀ he => ?_
  refine bind' (guard_keeps g k s₀ he) fun _ => bind' (hm k s₀ he) fun a => ?_
  refine bind' (guard_keeps t.guard (k && ok a) s₀ fun hk => ?_) fun _ =>
    pure' _ fun _ hs => hs
  exact he (Bool.and_eq_true_iff.mp hk).1

theorem KeepsIf.unchecked (hm : KeepsIf ok e m) : KeepsIf ok e (unchecked m) := hm.guarded false

theorem KeepsIf.protectedBy (hm : KeepsIf ok e m) : KeepsIf ok e (protectedBy m) := hm.guarded true

end Guards

section Instances
variable {D Θ : Type} [Double D] [Formats] {e : EnvId}

/-- A call from the new frame to the copy-back: the parameters' defaults run in the parent
    environment and are not followed, but the body is only entered after them. -/
theorem runFrame_flags {env : Env D} {parent caller : EnvId} {bind : EnvId → Eval D Θ Unit}
    {body : EnvId → Eval D Θ (Value D)} (ha : env.aborted = false) (hf : env.flow ≠ .throw)
    (hbind : ∀ frame, Keeps parent (bind frame)) (hbody : ∀ frame, Keeps frame (body frame))
    (s₀ : State D Θ) :
    Triple Safe (Held s₀) (do
      let frame ← newEnv env
      bind frame
      emit .resumed
      let result ← body frame
      leaveFrame caller frame result) fun _ => Inv true caller s₀ := by
  refine (newEnv_bind ha hf (P := fun _ s => true = true → Flagged caller s) fun frame s₁ hframe => ?_)
  refine bind' ((hbind frame false s₁
    fun hk => by cases hk).pre fun _ hs => hs.unflagged parent) fun _ => ?_
  refine bind' (modify' (Q := fun _ => Inv true frame s₁) fun s hs =>
    hs.1.resumed frame) fun _ => ?_
  refine bind' (hbody frame true s₁ fun _ => hframe) fun result => ?_
  exact leaveFrame_flags caller frame result

instance aborts_laws : (aborts : Discipline D Θ).Laws where
  open_idle := id
  lost_idle := fun hs => ⟨hs.1.1, hs.2⟩
  fine := fun hs => hs.1.1.safe
  idle_of_flow := fun hs _ => hs
  idle_of_down := fun _ hs => hs
  silent_calm := fun hf => keeps_iff.2 (Plain.ofSilent hf).keeps
  silent_passes := fun hf => keeps_iff.2 (Plain.ofSilent hf).keeps
  update_calm := fun j _ hab hflow => keeps_iff.2 (Plain.update j hflow hab).keeps
  effect_calm := fun k => keeps_iff.2 (effect_keeps k)
  newEnv_calm := fun hab hflow => keeps_iff.2 (newEnv_keeps hab hflow)
  abort_calm := fun e => keeps_iff.2 (abort_resets e).keeps
  abort_passes := fun e => keeps_iff.2 (abort_resets e).keeps
  raise_sound := fun e v => keeps_iff.2 (raise_keeps e v)
  unchecked_rests := fun hm => keepsIf_iff.2 (keepsIf_iff.1 fun i => hm i trivial).unchecked
  frame_sound := by
    intro env parent caller bind body rest hab hflow hbind hbody hrest
    refine keeps_iff.2 fun k s₀ he => ?_
    have hrun : Triple Safe (Held s₀) _ fun _ => Inv true caller s₀ := runFrame_flags hab hflow
      (fun frame => keeps_iff.1 (hbind frame)) (fun frame => keeps_iff.1 (hbody frame)) s₀
    have hall := bind' (hrun.mono (fun _ (hs : Inv k caller s₀ _) => hs.1)
      fun _ _ hs => hs.weaken (k := k)) fun result => keeps_iff.1 (hrest result) k s₀ he
    simpa only [bind_assoc] using hall
  tryCatch_sound := by
    intro e m clause catchVar hm hclause
    have hbody : aborts.SoundIf e (fun _ => true) m := fun i => hm i
    refine keeps_iff.2 fun k s₀ he => bind' ((keepsIf_iff.1 hbody).protectedBy k s₀ he) fun v => ?_
    refine bind' (getEnv_spec e) fun env => ite' (fun hf => ?_) fun _ =>
      pure' _ fun _ hs => by simpa using hs.1
    have hclause := enterCatch_bind (P := fun _ s => true = true → Flagged e s) s₀ e catchVar (fun c => do
        let v ← clause c
        leaveCatch e c
        return v) fun c s₁ hc =>
      bind' (keeps_iff.1 (hclause c) true s₁ fun _ => hc) fun v =>
        bind' (leaveCatch_flags e c) fun _ => pure' _ fun _ hs => hs
    refine hclause.mono (fun s hs => ⟨hs.1.1, ?_⟩) fun _ _ hs => Inv.weaken hs
    rw [← hs.2]
    exact hf

/-- A clause that fails keeps its flag to itself, and the `try` fails with it. -/
instance aborts_mirLaws : (aborts : Discipline D Θ).MirLaws where
  idle_of_aborted := fun hs _ => hs
  recorded := fun i e _ hs => (valueArgError_resets e i.2).post
    (fun _ _ hq => ⟨hq.weaken, hs.2⟩) _ hs.1
  resumed := fun i e _ hs => (resume_resets e i.2).post
    (fun _ _ hq => ⟨hq.weaken, hs.2⟩) _ hs.1
  mirTryCatch_sound := by
    intro e m clause catchVar hm hclause
    refine keepsIf_iff.2 fun k s₀ he => bind' ((keepsIf_iff.1 hm).protectedBy k s₀ he) fun r => ?_
    cases hr : r.1 with
    | false => exact pure' _ fun s hs => by simpa [hr] using hs
    | true =>
      refine bind' (getEnv_spec e) fun env => ite' (fun hf => ?_) fun _ =>
        pure' _ fun _ hs => by simpa using hs.1
      have hclause := enterCatch_bind (P := fun r s => r.1 = true → Flagged e s) s₀ e
        catchVar (fun c => onValue (clause c) fun v => do
          leaveCatch e c
          done v) fun c s₁ hc => by
        refine bind' (keepsIf_iff.1 (hclause c) true s₁ fun _ => hc) fun r => ?_
        cases hr : r.1 with
        | true =>
          exact bind' (leaveCatch_flags e c) fun _ => pure' _ fun _ hs =>
            ⟨hs.1, fun _ => hs.2 rfl⟩
        | false => exact pure' _ fun _ hs => ⟨hs.1, fun hk => by cases hk⟩
      refine hclause.mono (fun s hs => ⟨hs.1.1, ?_⟩) fun r s hs => ⟨hs.1, fun hk => ?_⟩
      · rw [← hs.2]
        exact hf
      · exact hs.2 (Bool.and_eq_true_iff.mp hk).2

theorem evaluators_keep (h : Host D Θ) (fuel : Nat) : aborts.Obeys (evaluators h fuel) :=
  Discipline.evaluators_obey h (fun _ => inferInstance) fuel

end Instances

end TurboScript.Exprtk
