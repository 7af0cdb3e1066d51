import TurboScript.Exprtk.Abort

/- The abort flag over whole runs: the jobs a script runs at the top level, and what their flag
   says at the end. -/
namespace TurboScript.Exprtk
open Lib

set_option linter.unusedSectionVars false

section Jobs
variable {D Θ : Type} [Double D] [Formats]

/-- What a script does at the top level, in the environment of its context: a node of the
    tree evaluator, a node of the MIR evaluator whose value may be assigned, and a CFlow
    kernel. The compiled lambda of a kernel is pure and captures nothing. -/
inductive Job (D : Type)
  | eval (node : Node D)
  | valueExpr (target : Option Name) (node : Node D)
  | kernel (lambda : List D → D) (args : List D)

/-- `ts_cflow_mir_kernel_invoke`; `none` is the failure it reports. -/
def kernelInvoke (lambda : List D → D) (args : List D) (e : EnvId) : Eval D Θ (Option D) := do
  emit .resumed
  noteCleared e false
  modifyEnv e fun env => { env with aborted := false, flow := .normal, errorMsg := "" }
  let result := lambda args
  let env ← getEnv e
  if env.aborted ∨ env.flow = .throw then return none else return some result

/-- `ts_mir_value_expr` and `ts_mir_value_expr_assign`, for a node that is no stream. -/
def valueExpr (R : Evaluators D Θ) (target : Option Name) (node : Node D) (e : EnvId) :
    Eval D Θ Unit := do
  let r ← R.valueArg node e
  if r.1 then
    match target with
    | some name => envSet e name r.2
    | none => return
  else valueArgError e

def runJob (R : Evaluators D Θ) (e : EnvId) : Job D → Eval D Θ Unit
  | .eval node => do
    let _ ← R.eval node e
  | .valueExpr target node => valueExpr R target node e
  | .kernel lambda args => do
    match ← kernelInvoke lambda args e with
    | some _ => return
    | none => do
      modifyEnv e fun env => { env with errorMsg := "CFlow stream execution failed" }
      abort e

/-- Compiled code does not look at the abort flag between its statements. -/
def runJobs (R : Evaluators D Θ) (e : EnvId) : List (Job D) → Eval D Θ Unit
  | [] => return
  | job :: jobs => do
    runJob R e job
    runJobs R e jobs

theorem kernelInvoke_keeps (lambda : List D → D) (args : List D) (e : EnvId) :
    aborts.Calm e (kernelInvoke lambda args e : Eval D Θ (Option D)) := by
  refine keeps_iff.2 fun k s₀ _ => ?_
  -- nothing has aborted once the start of the kernel is logged
  have hstart : Triple Safe (Inv k e s₀) (emit .resumed : Eval D Θ Unit) fun _ s =>
      Held s₀ s ∧ (Heeded s.trace → Event.aborted ∉ s.trace) := by
    refine Triple.modify' fun s hs => ⟨(hs.1.resumed e).1, fun hheed hab => ?_⟩
    rcases List.mem_cons.mp hab with heq | hab
    · cases heq
    · exact hheed.not_aborted hab
  have hnote : Triple Safe (fun s => Held s₀ s ∧ (Heeded s.trace → Event.aborted ∉ s.trace))
      (noteCleared e false : Eval D Θ Unit) fun _ s =>
        Held s₀ s ∧ (Heeded s.trace → Event.aborted ∉ s.trace) := by
    refine Triple.bind' (getEnv_spec e) fun env => ?_
    refine Triple.ite' (fun hc => Triple.modify' fun s hs => ?_) fun _ =>
      Triple.pure' _ fun s hs => hs.1
    obtain ⟨⟨hs, hno⟩, rfl⟩ := hs
    have hbroken : ¬ Heeded (.cleared :: s.trace) := fun hheed =>
      hno hheed.tail (hs.logged e hc.1)
    exact ⟨hs.log _ (fun heq => by cases heq) fun _ => hbroken, fun hheed => absurd hheed hbroken⟩
  have hreset : Triple Safe (fun s => Held s₀ s ∧ (Heeded s.trace → Event.aborted ∉ s.trace))
      (modifyEnv e fun env => { env with aborted := false, flow := .normal, errorMsg := "" } :
        Eval D Θ Unit) fun _ => Inv k e s₀ := by
    refine Triple.modify' fun s hs => ⟨⟨hs.1.trace, hs.1.next, fun i hi => ?_, fun i hi => ?_,
      hs.1.caused, hs.1.kept⟩, fun _ hheed hab => absurd hab (hs.2 hheed)⟩
    · by_cases h : i = e
      · subst h
        simp [State.update] at hi
      · exact hs.1.logged i (by simpa [State.update, h] using hi)
    · by_cases h : i = e
      · subst h
        simp [State.update] at hi
      · exact hs.1.thrown i (by simpa [State.update, h] using hi)
  refine Triple.bind' hstart fun _ => Triple.bind' hnote fun _ => Triple.bind' hreset fun _ => ?_
  refine Triple.bind' ((getEnv_spec e).post fun _ _ hs => hs.1) fun env => ?_
  exact Triple.ite' (fun _ => Triple.pure' _ fun _ hs => hs) fun _ => Triple.pure' _ fun _ hs => hs

variable {R : Evaluators D Θ} (hR : aborts.Obeys R)
include hR

theorem valueExpr_keeps (target : Option Name) (node : Node D) (e : EnvId) :
    aborts.Calm e (valueExpr R target node e) := by
  refine (hR.valueArg inferInstance node e).bind (fun r i hr => ?_) fun r i hr => ?_
  · simp only [hr, if_true]
    cases target with
    | some name => exact Discipline.envSet_calm e name _ i
    | none => exact Discipline.Calm.pure' _ i
  · simp only [hr]
    have hlaws : (aborts : Discipline D Θ).MirLaws := inferInstance
    exact hlaws.recorded i e

theorem runJob_keeps (e : EnvId) (job : Job D) : aborts.Calm e (runJob R e job) := by
  cases job with
  | eval node => exact Discipline.Calm.bind' (hR.eval node e) fun _ => Discipline.Calm.pure' _
  | valueExpr target node => exact valueExpr_keeps hR target node e
  | kernel lambda args =>
    refine (kernelInvoke_keeps lambda args e).bind' fun r => ?_
    cases r with
    | some x => exact Discipline.Calm.pure' _
    | none =>
      have herr : aborts.Calm e (modifyEnv e fun env => { env with
          errorMsg := "CFlow stream execution failed" } : Eval D Θ Unit) :=
        aborts_laws.update_calm e (fun _ => rfl) fun _ h => h
      exact herr.bind' fun _ => keeps_iff.2 (abort_resets e).keeps

theorem runJobs_keeps (e : EnvId) (jobs : List (Job D)) : aborts.Calm e (runJobs R e jobs) := by
  induction jobs with
  | nil => exact Discipline.Calm.pure' _
  | cons job jobs ih => exact (runJob_keeps hR e job).bind' fun _ => ih

end Jobs

section Runs
variable {D Θ : Type} [Double D] [Formats]

/-- The start of a top-level evaluation at `e`: nothing has happened, nothing is aborted or
    thrown. -/
structure Start (e : EnvId) (s : State D Θ) : Prop where
  trace : s.trace = []
  running : ∀ i, (s.envs i).aborted = false ∧ (s.envs i).flow ≠ .throw
  allocated : e < s.next

theorem Start.inv {e : EnvId} {s : State D Θ} (hs : Start e s) : Inv true e s s := by
  refine ⟨⟨List.suffix_rfl, le_rfl, fun i hi => ?_, fun i hi => ?_, ?_, ?_⟩, ?_⟩
  · rw [(hs.running i).1] at hi
    cases hi
  · exact absurd hi (hs.running i).2
  · rw [hs.trace]
    intro a b hab
    cases a <;> cases hab
  · rw [hs.trace]
    exact fun _ => List.not_mem_nil
  · intro _ _ hab
    rw [hs.trace] at hab
    exact absurd hab List.not_mem_nil

/-- In a run in which no catch clause, function body or kernel is entered after an abort and
    no failure is passed over, no abort flag is ever replaced by 0, every catch clause
    follows a throw, and when the run has ended with an abort the flag of the top-level
    environment is set. The first two hold at every moment of the run. -/
theorem abort_flag_kept (h : Host D Θ) (fuel : Nat) (jobs : List (Job D)) (e : EnvId)
    (s : State D Θ) (hs : Start e s)
    (hh : Heeded (reached (runJobs (evaluators h fuel) e jobs) s).trace) :
    Event.cleared ∉ (reached (runJobs (evaluators h fuel) e jobs) s).trace ∧
      Caused (reached (runJobs (evaluators h fuel) e jobs) s).trace ∧
      ∀ t, runJobs (evaluators h fuel) e jobs s = .ok () t →
        Event.aborted ∈ t.trace → (t.envs e).aborted = true := by
  have hkeep := keeps_iff.1 (runJobs_keeps (evaluators_keep h fuel) e jobs) true s fun _ => hs.allocated
  have hsafe : Safe (reached (runJobs (evaluators h fuel) e jobs) s) :=
    hkeep.reached (fun _ _ hi => hi.1.safe) hs.inv
  refine ⟨hsafe.2 hh, hsafe.1, fun t ht hab => ?_⟩
  have hend := hkeep s hs.inv
  rw [ht] at hend
  have hh : Heeded t.trace := by
    have : reached (runJobs (evaluators h fuel) e jobs) s = t := by
      unfold reached
      rw [ht]
    rwa [this] at hh
  exact hend.2 rfl hh hab

end Runs

section Examples

def limitedState (funcs : List (Name × Callee ℚ)) : State ℚ Unit where
  envs _ := {
    funcs := funcs
    returnValue := zero
    errorValue := zero
    maxLoopIterations := 0 }
  next := 1
  store := ()

/-- `function name() \x7b body \x7d`. -/
def scriptFunc (name : Name) (body : Node ℚ) : Name × Callee ℚ :=
  (name, .script ⟨name, [], body, none, none, false, .publicAccess⟩)

/-- `while (1) \x7b \x7d`, which the loop limit aborts. -/
def endless : Node ℚ := .whileLoop (.integer 1) (.block [])

def limitedFuncs : List (Name × Callee ℚ) :=
  [scriptFunc "spin" endless, scriptFunc "one" (.integer 1)]

def limitedRun (jobs : List (Job ℚ)) : State ℚ Unit :=
  reached (runJobs (evaluators Host.bare 8) 0 jobs) (limitedState limitedFuncs)

/-- `spin()`: the abort of the frame reaches the top. -/
theorem abort_flag_kept_in_call :
    Event.cleared ∉ (limitedRun [.eval (.functionCall "spin" [])]).trace ∧
      ((limitedRun [.eval (.functionCall "spin" [])]).envs 0).aborted = true := by
  have ht : (limitedRun [.eval (.functionCall "spin" [])]).trace =
      [.aborted, .effect .loopCondition, .resumed] := rfl
  have hstart : Start 0 (limitedState limitedFuncs) :=
    ⟨rfl, fun _ => ⟨rfl, by simp [limitedState]⟩, by decide⟩
  have hheeded : Heeded (limitedRun [.eval (.functionCall "spin" [])]).trace := by
    rw [ht]
    intro a b hab
    rcases a with _ | ⟨x, _ | ⟨y, _ | ⟨z, a⟩⟩⟩ <;> simp_all
  obtain ⟨hno, -, hend⟩ := abort_flag_kept Host.bare 8 [.eval (.functionCall "spin" [])] 0
    (limitedState limitedFuncs) hstart hheeded
  refine ⟨hno, hend _ rfl ?_⟩
  show Event.aborted ∈ [Event.aborted, .effect .loopCondition, .resumed]
  simp

def AbortLost (s : State ℚ Unit) : Prop :=
  Event.aborted ∈ s.trace ∧ Event.cleared ∈ s.trace ∧ (s.envs 0).aborted = false

def abortLost (s : State ℚ Unit) : Bool :=
  (s.trace.any fun ev => match ev with | .aborted => true | _ => false) &&
    (s.trace.any fun ev => match ev with | .cleared => true | _ => false) && !(s.envs 0).aborted

theorem AbortLost.of_test {s : State ℚ Unit} (h : abortLost s = true) : AbortLost s := by
  unfold abortLost at h
  rw [Bool.and_eq_true_iff, Bool.and_eq_true_iff, List.any_eq_true, List.any_eq_true] at h
  obtain ⟨⟨⟨ev, hev, ha⟩, ⟨ev', hev', hc⟩⟩, hs⟩ := h
  refine ⟨?_, ?_, by simpa using hs⟩
  · cases ev <;> simp_all
  · cases ev' <;> simp_all

/-- `one(spin())`: the argument aborts, the body of `one` runs all the same, and its frame
    clears the flag. `1 / spin()` in a `try`: the division by the zero an aborted call
    returns is thrown and caught, and the catch scope clears the flag. A kernel clears the
    flag of an aborted script. -/
theorem abort_flag_cleared :
    AbortLost (limitedRun [.eval (.functionCall "one" [.functionCall "spin" []])]) ∧
    AbortLost (limitedRun [.eval (.tryCatch
      (.binary .divide (some (.integer 1)) (.functionCall "spin" [])) none (.integer 2))]) ∧
    AbortLost (limitedRun [.eval endless, .kernel (fun _ => 0) [1]]) := by
  refine ⟨AbortLost.of_test ?_, AbortLost.of_test ?_, AbortLost.of_test ?_⟩
  all_goals decide +kernel

end Examples

end TurboScript.Exprtk
