import TurboScript.Exprtk.MirDiscipline
import TurboScript.Exprtk.Monitor

/- Pending throws under both evaluators: they are a discipline, indexed by the guard.

   A construct that tests the flow flag after a part gets back to `Idle` on the branch where
   it goes on; one that does not evaluates the part with the guard down, where nothing may
   stay pending. The MIR evaluator has two failure channels: a throw left pending comes with
   success, since one that came with a failure would leave the body of a `try` uncaught. -/
namespace TurboScript.Exprtk
open Lib
open Triple (bind' ite' modify' pure')

/-- At rest nothing is pending; an evaluation at `e` may end with a throw that `e` carries. -/
def throws {D Θ : Type} (x : Bool) : Discipline D Θ where
  Index := Bool
  cut := Fine x
  idle g _ := Idle x g
  opened g e := Open x g g e
  lost g _ := Idle x g
  down g := g = false

section Steps
variable {D Θ : Type} {x g a : Bool} {e c : EnvId}

theorem resume_spec {C P : State D Θ → Prop}
    (hP : ∀ s, P s → P { s with trace := .resumed :: s.trace }) (i : EnvId) :
    Triple C P (resume i : Eval D Θ Unit) fun _ => P := by
  refine bind' ((getEnv_spec i).post fun _ _ hs => hs.1) fun env => ?_
  exact ite' (fun _ => modify' hP) fun _ => pure' _ fun _ hs => hs

theorem noteCleared_spec {C P : State D Θ → Prop}
    (hP : ∀ s, P s → P { s with trace := .cleared :: s.trace }) (i : EnvId) (b : Bool) :
    Triple C P (noteCleared i b : Eval D Θ Unit) fun _ => P := by
  refine bind' ((getEnv_spec i).post fun _ _ hs => hs.1) fun env => ?_
  exact ite' (fun _ => modify' hP) fun _ => pure' _ fun _ hs => hs

theorem idle_of_open {α : Type} {m : Eval D Θ α}
    (h : Triple (Fine x) (Open x g false 0) m fun _ => Open x g false 0) :
    Triple (Fine x) (Idle x g) m fun _ => Idle x g :=
  h.mono (fun _ hs => hs.open false 0) fun _ _ hs => hs.idle_of_down

theorem abort_open (i : EnvId) :
    Triple (Fine x) (Open x g a e) (abort i : Eval D Θ Unit) fun _ => Open x g a e :=
  fun _ hs => hs.abort i

theorem resume_open (i : EnvId) :
    Triple (Fine x) (Open x g a e) (resume i : Eval D Θ Unit) fun _ => Open x g a e :=
  resume_spec (fun _ hs => hs.note (fun _ => rfl) fun _ => rfl) i

theorem valueArgError_open (i : EnvId) :
    Triple (Fine x) (Open x g a e) (valueArgError i : Eval D Θ Unit) fun _ => Open x g a e := by
  refine bind' ((getEnv_spec i).post fun _ _ hs => hs.1) fun env => ?_
  refine ite' (fun _ => ?_) fun _ => resume_open i
  refine bind' (abort_open i) fun _ => modify' fun s hs => ?_
  refine (Silent.update i ?_ ?_ ?_).open hs <;> exact fun _ => rfl

theorem update_idle (i : EnvId) {f : Env D → Env D} (hf : ∀ env, (f env).aborted = env.aborted) :
    Triple (Fine x) (Idle x g) (modifyEnv i f : Eval D Θ Unit) fun _ => Idle x g :=
  modify' fun s hs => hs.update i fun h => hs.logged i (by rwa [← hf])

theorem newEnv_idle {env : Env D} (h : env.aborted = false) :
    Triple (Fine x) (Idle x g) (newEnv env : Eval D Θ EnvId) fun _ => Idle x g := by
  refine fun s hs => ⟨hs.guard, fun i hi => hs.logged i ?_, hs.idle⟩
  have hi : (Function.update s.envs s.next env i).aborted = true := hi
  by_cases hn : i = s.next
  · rw [hn, Function.update_self, h] at hi
    cases hi
  · rwa [Function.update_of_ne hn] at hi

theorem effect_idle (k : Effect) :
    Triple (Fine x) (Idle x g) (emit (.effect k) : Eval D Θ Unit) fun _ => Idle x g := by
  refine modify' fun s hs => ⟨hs.guard, ?_, ?_⟩
  · exact fun i hi => List.mem_cons_of_mem _ (hs.logged i hi)
  · refine hs.idle.imp (fun h => h.cons _) fun ⟨hl, hp⟩ => ⟨?_, hp⟩
    show (late s.trace || (pending s.trace).isSome) = false
    rw [hl, hp]
    rfl

theorem raise_open (e : EnvId) (v : Value D) :
    Triple (Fine x) (Idle x g) (raise e v : Eval D Θ Unit) fun _ => Open x g g e := by
  intro s hs
  refine ⟨hs.guard, fun i hi => List.mem_cons_of_mem _ (hs.logged i ?_), ?_⟩
  · by_cases h : i = e
    · subst h
      simpa [State.update] using hi
    · simpa [State.update, h] using hi
  · have hg := hs.guard
    cases g with
    | false => exact .inl (.inl ⟨v, by rw [← hg]; exact List.mem_cons_self⟩)
    | true =>
      refine hs.idle.imp (fun h => h.cons _) fun h => ⟨?_, fun w hw => ?_⟩
      · show (late s.trace || (pending s.trace).isSome) = false
        rw [h.1, h.2]
        rfl
      · obtain rfl : v = w := Option.some.inj hw
        simp [State.update]

theorem unchecked_of_down {α : Type} {m : Eval D Θ α}
    (hm : Triple (Fine x) (Idle x false) m fun _ => Idle x false) :
    Triple (Fine x) (Idle x g) (unchecked m) fun _ => Idle x g := by
  refine bind' (Triple.get' (Q := fun t s => Idle x g s ∧ t.guard = g)
    fun s hs => ⟨hs, hs.guard⟩) fun t => ?_
  refine bind' (modify' (Q := fun _ s => Idle x false s ∧ t.guard = g)
    fun s hs => ⟨⟨rfl, hs.1.logged, hs.1.idle⟩, hs.2⟩) fun _ => ?_
  refine bind' (R := fun _ s => Idle x false s ∧ t.guard = g) (fun s hs => ?_) fun v => ?_
  · have h := hm s hs.1
    cases hr : m s with
    | ok v s' =>
      rw [hr] at h
      exact ⟨h, hs.2⟩
    | error _ s' =>
      rw [hr] at h
      exact h
  · refine bind' (modify' (Q := fun _ => Idle x g) fun s hs => ?_) fun _ =>
      pure' _ fun _ hs => hs
    exact ⟨hs.2, hs.1.logged, hs.1.idle⟩

theorem protectedBy_spec {α : Type} {m : Eval D Θ α} {Q : α → State D Θ → Prop}
    (hm : Triple (Fine x) (Idle x true) m Q)
    (hq : ∀ v s, Q v s → Q v { s with guard := g }) :
    Triple (Fine x) (Idle x g) (protectedBy m) fun v s => s.guard = g ∧ Q v s := by
  refine bind' (Triple.get' (Q := fun t s => Idle x g s ∧ t.guard = g)
    fun s hs => ⟨hs, hs.guard⟩) fun t => ?_
  refine bind' (modify' (Q := fun _ s => Idle x true s ∧ t.guard = g)
    fun s hs => ⟨⟨rfl, hs.1.logged, hs.1.idle⟩, hs.2⟩) fun _ => ?_
  refine bind' (R := fun v s => Q v s ∧ t.guard = g) (fun s hs => ?_) fun v => ?_
  · have h := hm s hs.1
    cases hr : m s with
    | ok v s' =>
      rw [hr] at h
      exact ⟨h, hs.2⟩
    | error _ s' =>
      rw [hr] at h
      exact h
  · refine bind' (modify' (Q := fun _ s => s.guard = g ∧ Q v s) fun s hs => ?_)
      fun _ => pure' _ fun _ hs => hs
    obtain ⟨hq', rfl⟩ := hs
    exact ⟨rfl, hq v s hq'⟩

theorem leaveFrame_spec (caller frame : EnvId) (result : Value D) :
    Triple (Fine x) (Open x g a frame) (leaveFrame caller frame result : Eval D Θ (Value D))
      fun _ => Open x g a caller := by
  refine bind' (getEnv_spec frame) fun l => ?_
  refine bind' (noteCleared_spec (fun s hs =>
    ⟨hs.1.note (fun _ => rfl) fun _ => rfl, hs.2⟩) caller l.aborted) fun _ => ?_
  by_cases hf : l.flow = .throw
  · refine bind' (modify' (Q := fun _ t => ∃ s, Open x g a frame s ∧
      l = s.envs frame ∧ t.guard = s.guard ∧ t.trace = s.trace ∧ Logged t)
      fun s hs => ⟨s, hs.1, hs.2, rfl, rfl, fun i hi => ?_⟩) fun _ => ?_
    · obtain ⟨hs, rfl⟩ := hs
      by_cases h : i = caller
      · subst h
        exact hs.logged frame (by simpa [State.update] using hi)
      · exact hs.logged i (by simpa [State.update, h] using hi)
    · rw [hf]
      refine bind' (modify' (Q := fun _ => Open x g a caller) fun t ht => ?_)
        fun _ => pure' _ fun _ hs => hs
      obtain ⟨s, hs, rfl, hg, htr, hlog⟩ := ht
      refine hs.handOver hg htr (fun i hi => hlog i ?_) (by simp [State.update]) (by simp [State.update])
      by_cases h : i = caller
      · subst h
        simpa [State.update] using hi
      · simpa [State.update, h] using hi
  · refine bind' (modify' (Q := fun _ => Idle x g) fun s hs => ?_) fun _ => ?_
    · obtain ⟨hs, rfl⟩ := hs
      exact (hs.idle hf).update caller fun h => hs.logged frame h
    · have hopen : Triple (Fine x) (Idle x g) (pure result : Eval D Θ (Value D))
          fun _ => Open x g a caller := pure' _ fun _ hs => hs.open a caller
      cases hl : l.flow with
      | throw => exact absurd hl hf
      | yield =>
        exact bind' (update_idle caller fun _ => rfl) fun _ => hopen
      | «return» => exact pure' _ fun _ hs => hs.open a caller
      | normal | «break» | «continue» => exact hopen

theorem enterCatch_spec [Double D] (catchVar : Option Name) :
    Triple (Fine x) (fun s : State D Θ => s.guard = g ∧ Logged s ∧ Fine x s)
      (enterCatch e catchVar : Eval D Θ EnvId) fun _ => Idle x g := by
  refine bind' (modify' (Q := fun _ => Idle x g) fun s hs => ?_) fun _ => ?_
  · refine ⟨hs.1, fun i hi => List.mem_cons_of_mem _ (hs.2.1 i hi), ?_⟩
    exact hs.2.2.imp (fun h => h.cons _) fun hl => ⟨hl, rfl⟩
  · refine bind' (update_idle e fun _ => rfl) fun _ => ?_
    refine bind' ((getEnv_spec e).post fun _ _ hs => hs.1) fun env => ?_
    exact newEnv_idle rfl

theorem leaveCatch_spec (e c : EnvId) :
    Triple (Fine x) (Open x g a c) (leaveCatch e c : Eval D Θ Unit) fun _ => Open x g a e := by
  refine bind' (getEnv_spec c) fun l => ?_
  refine bind' (noteCleared_spec (fun s hs =>
    ⟨hs.1.note (fun _ => rfl) fun _ => rfl, hs.2⟩) e l.aborted) fun _ => ?_
  refine bind' (modify' (Q := fun _ t => t.guard = g ∧ Logged t ∧
    (Excused x t.trace ∨ (late t.trace = false ∧ ∀ v, pending t.trace = some v →
      a = true ∧ l.flow = .throw ∧ l.errorValue = v))) fun s hs => ?_) fun _ => ?_
  · obtain ⟨hs, rfl⟩ := hs
    refine ⟨hs.guard, fun i hi => ?_, hs.carried⟩
    by_cases h : i = e
    · subst h
      exact hs.logged c (by simpa [State.update] using hi)
    · exact hs.logged i (by simpa [State.update, h] using hi)
  · refine ite' (fun hf => modify' fun s hs => ?_) fun hf =>
      pure' _ fun s hs => ?_
    · refine ⟨hs.1, fun i hi => hs.2.1 i ?_, ?_⟩
      · by_cases h : i = e
        · subst h
          simpa [State.update] using hi
        · simpa [State.update, h] using hi
      · refine hs.2.2.imp id fun hthrown => ⟨hthrown.1, fun v hv => ?_⟩
        simpa [State.update] using hthrown.2 v hv
    · refine ⟨hs.1, hs.2.1, hs.2.2.imp id fun hthrown => ⟨hthrown.1, fun v hv => ?_⟩⟩
      rw [not_not] at hf
      exact absurd (hf ▸ (hthrown.2 v hv).2.1) (by decide)

end Steps

section Instances
variable {D Θ : Type} [Double D] [Formats] {x : Bool}

variable {e : EnvId} {g : Bool}

omit [Double D] [Formats] in
theorem ends_of_ok {α : Type} {ok : α → Bool} {a : α} {s : State D Θ} (ha : ok a = true) :
    (throws x).Ends e ok g a s ↔ Open x g g e s := by
  simp [Discipline.Ends, throws, ha]

omit [Double D] [Formats] in
theorem ends_of_failure {α : Type} {ok : α → Bool} {a : α} {s : State D Θ} (ha : ok a = false) :
    (throws x).Ends e ok g a s ↔ Idle x g s := by
  simp [Discipline.Ends, throws, ha]

omit [Double D] [Formats] in
theorem protectedBy_ends {α : Type} {ok : α → Bool} {m : Eval D Θ α}
    (hm : (throws x).SoundIf e ok m) (g : Bool) :
    Triple (Fine x) (Idle x g) (protectedBy m) fun a s =>
      s.guard = g ∧ (throws x).Ends e ok true a { s with guard := true } := by
  refine protectedBy_spec (Q := fun a s => (throws x).Ends e ok true a { s with guard := true })
    ((hm true).post fun a s hs => ?_) fun _ _ hs => hs
  cases ha : ok a with
  | true =>
    rw [ends_of_ok ha] at hs ⊢
    exact ⟨rfl, hs.logged, hs.carried⟩
  | false =>
    rw [ends_of_failure ha] at hs ⊢
    exact ⟨rfl, hs.logged, hs.idle⟩

omit [Formats] in
theorem enterCatch_after (catchVar : Option Name) {env : Env D} :
    Triple (Fine x) (fun s : State D Θ => (s.guard = g ∧ Open x true true e
      { s with guard := true }) ∧ env = s.envs e) (enterCatch e catchVar) fun _ => Idle x g :=
  (enterCatch_spec catchVar).pre fun _ hs => ⟨hs.1.1, hs.1.2.logged, hs.1.2.fine⟩

omit [Double D] [Formats] in
theorem Open.restored {s : State D Θ} (hg : s.guard = g)
    (hs : Open x true true e { s with guard := true }) (hf : (s.envs e).flow ≠ .throw) :
    Idle x g s :=
  ⟨hg, hs.logged, (hs.idle hf).idle⟩

instance throws_laws : (throws x : Discipline D Θ).Laws where
  open_idle := fun hs => Idle.open hs _ _
  lost_idle := id
  fine := Open.fine
  idle_of_flow := Open.idle
  idle_of_down := by
    intro i e s hi hs
    cases (hi : i = false)
    exact Open.idle_of_down hs
  silent_calm := fun hf _ => modify' fun _ hs => hf.idle hs
  silent_passes := fun hf _ => modify' fun _ hs => hf.open hs
  update_calm := fun j _ hab _ _ => update_idle j hab
  effect_calm := fun k _ => effect_idle k
  newEnv_calm := fun hab _ _ => newEnv_idle hab
  abort_calm := fun e _ => idle_of_open (abort_open e)
  abort_passes := fun e _ => abort_open e
  raise_sound := fun e v _ => raise_open e v
  unchecked_rests := by
    intro α e ok m hm i
    have hrests : ∀ g a s, (throws x : Discipline D Θ).Rests e ok g a s ↔ Idle x g s :=
      fun g a s => by simp [Discipline.Rests, throws]
    have h := unchecked_of_down (g := i) ((hm false rfl).post fun a s hs => (hrests _ a s).1 hs)
    exact h.post fun a s hs => (hrests _ a s).2 hs
  frame_sound := by
    intro env parent caller bind body rest hab _ hbind hbody hrest g
    refine bind' (newEnv_idle hab) fun frame => bind' (hbind frame g) fun _ => ?_
    refine bind' (idle_of_open (modify' fun _ hs =>
      hs.note (fun _ => rfl) fun _ => rfl)) fun _ => ?_
    refine bind' (hbody frame g) fun result => ?_
    exact bind' (leaveFrame_spec caller frame result) fun result => hrest result g
  tryCatch_sound := by
    intro e m clause catchVar hm hclause g
    have hends : (throws x).SoundIf e (fun _ => true) m := fun i => hm i
    refine bind' (protectedBy_ends hends g) fun v => bind' (getEnv_spec e) fun env => ?_
    refine ite' (fun _ => ?_) fun hf => pure' _ fun s hs => ?_
    · refine bind' (enterCatch_after catchVar) fun c => ?_
      refine bind' (hclause c g) fun v => ?_
      exact bind' (leaveCatch_spec e c) fun _ => pure' _ fun _ hs => hs
    · obtain ⟨⟨hg, hs⟩, rfl⟩ := hs
      exact (Open.restored hg hs hf).open g e

theorem throws_mirLaws : (throws true : Discipline D Θ).MirLaws where
  idle_of_aborted := by
    intro i e s hs ha
    have hlog := Open.logged hs
    exact ⟨Open.guard hs, hlog, .inl (.inr ⟨rfl, hlog e ha⟩)⟩
  recorded := fun _ e => idle_of_open (valueArgError_open e)
  resumed := fun _ e => idle_of_open (resume_open e)
  mirTryCatch_sound := by
    intro e m clause catchVar hm hclause g
    refine bind' (protectedBy_ends hm g) fun r => ?_
    cases hr : r.1 with
    | false =>
      refine pure' _ fun s hs => ?_
      obtain ⟨hg, hs⟩ := hs
      rw [ends_of_failure hr] at hs
      exact ⟨hg, hs.logged, hs.idle⟩
    | true =>
      simp only [ends_of_ok hr]
      refine bind' (getEnv_spec e) fun env => ?_
      refine ite' (fun _ => ?_) fun hf => ?_
      · refine bind' (enterCatch_after catchVar) fun c => ?_
        refine (hclause c).bind (fun r i hr => ?_) (fun r i hr => ?_) g
        · simp only [hr, if_true]
          exact bind' (leaveCatch_spec e c) fun _ => Discipline.done_open r.2 i
        · simp only [hr]
          exact Discipline.failed_lost i
      · refine (Discipline.done_open r.2 g).pre fun s hs => ?_
        obtain ⟨⟨hg, hs⟩, rfl⟩ := hs
        exact (Open.restored hg hs hf).open g e

theorem evaluators_sound (h : Host D Θ) (hh : h.mirHooks = true → x = true) (n : Nat) :
    (throws x).Obeys (evaluators h n) := by
  refine Discipline.evaluators_obey h (fun hm => ?_) n
  cases hh hm
  exact throws_mirLaws

end Instances

end TurboScript.Exprtk
