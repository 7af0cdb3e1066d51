import TurboScript.Host.Quota

/- The cause a failed call reports.

   The host reconstructs the cause of a failure from the latched budget, from the
   diagnostic that a failing callback leaves in the active instance, and from the text of
   the environment. What ended the script is known to the script only: `Watched` adds it to
   the host machine.

   1. `Truthful`: a diagnostic says HOST_ERROR in HOST_CALLBACK, a budget latches neither.
   2. `Heard`: the active instance has a diagnostic exactly when a callback has failed since
      its call began, whether or not the script caught the throw.
   3. `cause_reported_iff`: a failed call reports its cause exactly when no callback has
      failed in it, or its script ended by the throw of one. -/
namespace TurboScript.Host
open Lib

/-- Who raised the throw that the script of the executing call has pending. -/
inductive Thrower
  | script | callback
  deriving DecidableEq, Repr

/-- The host machine with what the code does not keep: the throw that is pending in the script of
the executing call, and whether a callback has failed since that call began. -/
structure Watched where
  host : HostState
  pending : Option Thrower
  failed : Bool

def Watched.initial : Watched := ⟨HostState.initial, none, false⟩

/-- The inputs of the host machine, and what only the script of the executing call sees. -/
inductive Event
  | host (i : Input)
  | throws
  | catches
  deriving DecidableEq, Repr

/-- Whether the adapter throws instead of starting the callback. A rejected safe point does not
throw. -/
def beginThrows (c : Ctx) (stack : List Frame) (ownerThread : Bool) (adaptation : Adaptation)
    (poll : Bool) : Bool :=
  if !ownerThread then true
  else
    match adaptation.failure with
    | some _ => true
    | none =>
      match raiseOnTop c stack .callbackBefore 1 poll with
      | (false, _, _) => false
      | (true, c, _) => (enterCallback c).1 != .ok

/-- Whether the adapter throws after the callback. -/
def endThrows (r : CallbackResult) : Bool :=
  !(r.status = .ok ∧ r.terminalStatus = .ok ∧ r.builder = .value)

/-- Whether a callback fails in the step `i`. -/
def callbackThrows (s : HostState) (i : Input) : Bool :=
  match s.stack, i with
  | .call _ :: _, .callback ownerThread _ adaptation poll =>
    beginThrows s.ctx s.stack ownerThread adaptation poll
  | .create _ :: _, .callback ownerThread _ adaptation poll =>
    beginThrows s.ctx s.stack ownerThread adaptation poll
  | .callback _ _ :: _, .callbackReturn r _ => endThrows r
  | _, _ => false

def inScript : List Frame → Bool
  | .call _ :: _ => true
  | _ => false

/-- A callback of the call's own script throws into it; one of an initializer nested in a callback
throws elsewhere. -/
def Watched.after (w : Watched) (i : Input) (s : HostState) : Watched :=
  if callbackThrows w.host i then
    { host := s, failed := true
      pending := if inScript s.stack then some .callback else w.pending }
  else
    match callFrame w.host.stack, callFrame s.stack with
    | none, some _ => { host := s, pending := none, failed := false }
    | _, _ => { w with host := s }

def watch (w : Watched) : Event → Option (Watched × Option Response)
  | .host i =>
    match step w.host i with
    | none => none
    | some (s, r) => some (w.after i s, some r)
  | .throws => if inScript w.host.stack then some ({ w with pending := some .script }, none) else none
  | .catches =>
    if inScript w.host.stack ∧ w.pending ≠ none then some ({ w with pending := none }, none) else none

/-! ## What ended the script -/

/-- The status and the phase of the failure that ends the call `f`, if one does: a latched budget,
else the throw that is pending, else what happens to the value. -/
def actualCause (w : Watched) (f : CallFrame) (o : BackendOutcome) : Option (Status × Phase) :=
  match (w.host.ctx.instances f.inst).bind (·.runtime.activeHostBudget) with
  | none => none
  | some b =>
    if o.succeeded = false then
      if b.failureStatus ≠ .ok then some (b.failureStatus, b.failurePhase)
      else if w.pending = some .callback then some (.hostError, .hostCallback)
      else some (.runtimeError, .call)
    else if o.valueStored ≠ .ok then some (o.valueStored, .call)
    else
      match budgetSafePoint b .retainedBytes o.retainedBytes false with
      | (true, _) => none
      | (false, b) => some (b.failureStatus, b.failurePhase)

/-- The call `f` returned the cause, and its result holds an error with the cause. -/
def Reports (p : Status × Ctx) (f : CallFrame) (cause : Status × Phase) : Prop :=
  p.1 = cause.1 ∧ ∃ e, (p.2.results f.result).error = some e ∧ e.status = cause.1 ∧ e.phase = cause.2

/-- The error can be stored, and either no callback has failed since the call began, or the backend
failed without a latched budget while the throw of a callback was pending. -/
def Unclouded (w : Watched) (f : CallFrame) (o : BackendOutcome) : Prop :=
  o.errorStored = .ok ∧ (w.failed = false ∨ o.succeeded = false ∧ w.pending = some .callback ∧
        ∀ inst b, w.host.ctx.instances f.inst = some inst →
          inst.runtime.activeHostBudget = some b → b.failureStatus = .ok)

/-! ## Statuses -/

section Statuses
variable {b : CallBudget}

theorem budgetFail_status {status : Status} (hs : status ≠ .hostError)
    (h : b.failureStatus ≠ .hostError) (phase : Phase) (message : String) :
    (budgetFail b status phase message).2.failureStatus ≠ .hostError := by
  unfold budgetFail
  split
  · exact hs
  · exact h

theorem budgetPollInterrupt_status (h : b.failureStatus ≠ .hostError) (poll : Bool) :
    (budgetPollInterrupt b poll).2.failureStatus ≠ .hostError := by
  unfold budgetPollInterrupt
  split
  · exact h
  · split
    · exact h
    · refine budgetFail_status ?_ h _ _
      decide

theorem pollAfterSteps_status (h : b.failureStatus ≠ .hostError) (cost : Nat) (poll : Bool) :
    (pollAfterSteps b cost poll).2.failureStatus ≠ .hostError := by
  unfold pollAfterSteps
  dsimp only
  generalize (if b.interruptStepAccumulator > u32Max - cost then interruptStepInterval
    else b.interruptStepAccumulator + cost) = acc
  by_cases hacc : acc ≥ interruptStepInterval
  · rw [if_pos hacc]
    exact budgetPollInterrupt_status (b := { b with interruptStepAccumulator := 0 }) h poll
  · rw [if_neg hacc]
    exact h

theorem budgetChargeU32_status {remaining cost : Nat} {commit : Nat → CallBudget}
    {message : String} (h : b.failureStatus ≠ .hostError)
    (hcommit : ∀ n, (commit n).failureStatus = b.failureStatus) :
    (budgetChargeU32 b remaining commit cost message).2.failureStatus ≠ .hostError := by
  unfold budgetChargeU32
  split
  · refine budgetFail_status ?_ h _ _
    decide
  · rw [hcommit]
    exact h

theorem budgetSafePoint_status (h : b.failureStatus ≠ .hostError) (kind : SafePointKind)
    (cost : Nat) (poll : Bool) :
    (budgetSafePoint b kind cost poll).2.failureStatus ≠ .hostError := by
  unfold budgetSafePoint
  split
  · exact h
  cases kind with
  | step =>
    simp only [budgetCharge]
    have hc : (budgetChargeU32 b b.stepsLeft (fun n => { b with stepsLeft := n }) cost
      "call step quota exceeded").2.failureStatus ≠ .hostError :=
      budgetChargeU32_status h fun _ => rfl
    revert hc
    rcases budgetChargeU32 b b.stepsLeft (fun n => { b with stepsLeft := n }) cost
      "call step quota exceeded" with ⟨_ | _, b'⟩
    · exact fun hc => hc
    · exact fun hc => pollAfterSteps_status hc cost poll
  | loop =>
    simp only [budgetCharge]
    have hc : (budgetChargeU32 b b.loopsLeft (fun n => { b with loopsLeft := n }) cost
      "call loop quota exceeded").2.failureStatus ≠ .hostError :=
      budgetChargeU32_status h fun _ => rfl
    revert hc
    rcases budgetChargeU32 b b.loopsLeft (fun n => { b with loopsLeft := n }) cost
      "call loop quota exceeded" with ⟨_ | _, b'⟩
    · exact fun hc => hc
    · exact fun hc => budgetPollInterrupt_status hc poll
  | callbackBefore =>
    simp only [budgetCharge]
    have hc : (budgetChargeU32 b b.callbacksLeft (fun n => { b with callbacksLeft := n }) cost
      "call callback quota exceeded").2.failureStatus ≠ .hostError :=
      budgetChargeU32_status h fun _ => rfl
    revert hc
    rcases budgetChargeU32 b b.callbacksLeft (fun n => { b with callbacksLeft := n }) cost
      "call callback quota exceeded" with ⟨_ | _, b'⟩
    · exact fun hc => hc
    · exact fun hc => budgetPollInterrupt_status hc poll
  | callbackAfter => exact budgetPollInterrupt_status h poll
  | functionEnter =>
    simp only [budgetCharge]
    split
    · refine budgetFail_status ?_ h _ _
      decide
    · split
      · refine budgetFail_status ?_ h _ _
        decide
      · exact budgetPollInterrupt_status
          (b := { b with recursionLeft := b.recursionLeft - 1,
                         stackBytesLeft := b.stackBytesLeft - cost }) h poll
  | functionLeave | retainedBytes =>
    simp only [budgetCharge]
    split
    · refine budgetFail_status ?_ h _ _
      decide
    · exact h
  | other =>
    refine budgetFail_status ?_ h _ _
    decide

end Statuses

/-! ## Diagnostics and budgets of all instances -/

structure Instance.Truthful (inst : Instance) : Prop where
  diagnostic : ∀ d, inst.diagnostic = some d → d.status = .hostError ∧ d.phase = .hostCallback
  budget : ∀ b, inst.runtime.activeHostBudget = some b → b.failureStatus ≠ .hostError

def Truthful (c : Ctx) : Prop := ∀ i inst, c.instances i = some inst → inst.Truthful

/-- The diagnostic of the instance `i`. -/
def diagnosed (c : Ctx) (i : Nat) : Option Diagnostic := (c.instances i).bind (·.diagnostic)

section Context
variable {c c' : Ctx} {i : Nat} {inst inst' : Instance}

theorem Truthful.of_instances (h : Truthful c) (hc : c'.instances = c.instances) : Truthful c' := by
  intro j inst hj
  rw [hc] at hj
  exact h j inst hj

theorem Truthful.setInstance (h : Truthful c) (i : Nat) (ht : inst'.Truthful) :
    Truthful (c.setInstance i inst') := by
  intro j inst₂ hj
  by_cases hji : j = i
  · subst hji
    rw [setInstance_get] at hj
    cases hj
    exact ht
  · rw [setInstance_get_ne c inst' hji] at hj
    exact h j inst₂ hj

theorem diagnosed_of_instances (hc : c'.instances = c.instances) (j : Nat) :
    diagnosed c' j = diagnosed c j := by
  unfold diagnosed
  rw [hc]

theorem diagnosed_setInstance (hi : c.instances i = some inst) (inst' : Instance)
    (hd : inst'.diagnostic = inst.diagnostic) (j : Nat) :
    diagnosed (c.setInstance i inst') j = diagnosed c j := by
  unfold diagnosed
  by_cases hji : j = i
  · rw [hji, setInstance_get, hi]
    exact hd
  · rw [setInstance_get_ne c inst' hji]

theorem Truthful.runtimeThrow (h : Truthful c) (status : Status) (functionName message : String) :
    Truthful (runtimeThrow c status functionName message) := by
  unfold Host.runtimeThrow
  split
  · exact h
  · split
    · exact h
    · rename_i j inst hj
      refine h.setInstance _ ⟨fun d hd => ?_, (h _ _ hj).budget⟩
      cases hd
      exact ⟨rfl, rfl⟩

theorem diagnosed_runtimeThrow {stack : List Frame} {f : CallFrame} (h : Inv ⟨c, stack⟩)
    (hf : callFrame stack = some f) (status : Status) (functionName message : String) :
    diagnosed (runtimeThrow c status functionName message) f.inst ≠ none := by
  obtain ⟨inst, hi, -⟩ := h.executing f hf
  have ha : c.activeHostInstance = some f.inst := by
    have hactive := h.active
    rw [hf] at hactive
    exact hactive
  have hi : c.instances f.inst = some inst := hi
  unfold diagnosed runtimeThrow
  simp only [ha, hi, setInstance_get]
  intro hnone
  cases hnone

theorem raiseSafePoint_instance (f : CallFrame) (kind : SafePointKind) (cost : Nat) (poll : Bool) :
    (raiseSafePoint c f kind cost poll).2.2.inst = f.inst ∧
      ∀ j, diagnosed (raiseSafePoint c f kind cost poll).2.1 j = diagnosed c j := by
  unfold raiseSafePoint
  split
  · exact ⟨rfl, fun _ => rfl⟩
  · rename_i inst hi
    rcases safePoint inst.runtime kind cost poll with ⟨accepted, rt⟩
    exact ⟨rfl, fun j => diagnosed_setInstance hi { inst with runtime := rt } rfl j⟩

theorem Truthful.raiseSafePoint (h : Truthful c) (f : CallFrame) (kind : SafePointKind)
    (cost : Nat) (poll : Bool) : Truthful (raiseSafePoint c f kind cost poll).2.1 := by
  unfold Host.raiseSafePoint
  split
  · exact h
  · rename_i inst hi
    refine h.setInstance _ ⟨(h _ _ hi).diagnostic, fun b' hb' => ?_⟩
    cases hb : inst.runtime.activeHostBudget with
    | none =>
      have hnone : safePoint inst.runtime kind cost poll = (true, inst.runtime) := by
        unfold safePoint
        rw [hb]
      have hb' : (safePoint inst.runtime kind cost poll).2.activeHostBudget = some b' := hb'
      rw [hnone, hb] at hb'
      cases hb'
    | some b =>
      have hnext : (safePoint inst.runtime kind cost poll).2.activeHostBudget = some b' := hb'
      rw [(safePoint_budget hb kind cost poll).2] at hnext
      cases hnext
      exact budgetSafePoint_status ((h _ _ hi).budget b hb) kind cost poll

theorem Truthful.raiseOnTop (h : Truthful c) (stack : List Frame) (kind : SafePointKind)
    (cost : Nat) (poll : Bool) : Truthful (raiseOnTop c stack kind cost poll).2.1 := by
  unfold Host.raiseOnTop
  split
  · rename_i f rest
    exact h.raiseSafePoint f kind cost poll
  · exact h

theorem raiseOnTop_frame (stack : List Frame) (kind : SafePointKind) (cost : Nat) (poll : Bool) :
    (callFrame (raiseOnTop c stack kind cost poll).2.2).map (·.inst) = (callFrame stack).map (·.inst) ∧
      ∀ j, diagnosed (raiseOnTop c stack kind cost poll).2.1 j = diagnosed c j := by
  unfold raiseOnTop
  split
  · rename_i f rest
    obtain ⟨hinst, hdiag⟩ := raiseSafePoint_instance (c := c) f kind cost poll
    exact ⟨congrArg some hinst, hdiag⟩
  · exact ⟨rfl, fun _ => rfl⟩

theorem enterCallback_instances : (Truthful c → Truthful (enterCallback c).2.2) ∧
      ∀ j, diagnosed (enterCallback c).2.2 j = diagnosed c j := by
  unfold enterCallback
  split
  · exact ⟨id, fun _ => rfl⟩
  · split
    · exact ⟨fun h => h.of_instances rfl, fun _ => rfl⟩
    · split
      · exact ⟨fun h => h.of_instances rfl, fun _ => rfl⟩
      · rename_i inst hi
        split
        · exact ⟨id, fun _ => rfl⟩
        · refine ⟨fun h => ?_, fun k => ?_⟩
          · have hinst : Instance.Truthful { inst with state := .callingHost } :=
              ⟨(h _ _ hi).diagnostic, (h _ _ hi).budget⟩
            exact (h.setInstance _ hinst).of_instances rfl
          · have hset := diagnosed_setInstance hi { inst with state := .callingHost } rfl k
            exact (diagnosed_of_instances rfl k).trans hset

theorem leaveCallback_instances (active : Option Nat) : (Truthful c → Truthful (leaveCallback c active)) ∧
      ∀ j, diagnosed (leaveCallback c active) j = diagnosed c j := by
  unfold leaveCallback
  split
  · exact ⟨id, fun _ => rfl⟩
  · split
    · exact ⟨fun h => h.of_instances rfl, fun _ => rfl⟩
    · split
      · exact ⟨fun h => h.of_instances rfl, fun _ => rfl⟩
      · rename_i inst hi
        split
        · refine ⟨fun h => ?_, fun k => ?_⟩
          · have hinst : Instance.Truthful { inst with state := .calling } :=
              ⟨(h _ _ hi).diagnostic, (h _ _ hi).budget⟩
            exact (h.setInstance _ hinst).of_instances rfl
          · have hset := diagnosed_setInstance hi { inst with state := .calling } rfl k
            exact (diagnosed_of_instances rfl k).trans hset
        · exact ⟨fun h => h.of_instances rfl, fun _ => rfl⟩

end Context

/-! ## One step -/

/-- The executing call keeps its diagnostic, or a call begins without one. -/
def Quiet (s s' : HostState) : Prop :=
  ∀ f', callFrame s'.stack = some f' →
    (∃ f, callFrame s.stack = some f ∧ diagnosed s'.ctx f'.inst = diagnosed s.ctx f.inst) ∨
      (callFrame s.stack = none ∧ diagnosed s'.ctx f'.inst = none)

def Told (s : HostState) : Prop := ∀ f, callFrame s.stack = some f → diagnosed s.ctx f.inst ≠ none

section Steps
variable {c c' : Ctx} {stack stack' : List Frame}

theorem Quiet.of_frame (hf : (callFrame stack').map (·.inst) = (callFrame stack).map (·.inst))
    (hd : ∀ j, diagnosed c' j = diagnosed c j) : Quiet ⟨c, stack⟩ ⟨c', stack'⟩ := by
  intro f' hf'
  have hf' : callFrame stack' = some f' := hf'
  rw [hf'] at hf
  obtain ⟨f, hcall, hinst⟩ := Option.map_eq_some_iff.mp hf.symm
  refine .inl ⟨f, hcall, ?_⟩
  show diagnosed c' f'.inst = diagnosed c f.inst
  rw [hd, hinst]

theorem Told.runtimeThrow (h : Inv ⟨c, stack⟩) (status : Status) (functionName message : String) :
    Told ⟨runtimeThrow c status functionName message, stack⟩ :=
  fun _ hf => diagnosed_runtimeThrow h hf status functionName message

theorem callbackBegin_instances (ownerThread : Bool) (functionName : String)
    (adaptation : Adaptation) (poll : Bool) (h : Truthful c) :
    Truthful (callbackBegin c stack ownerThread functionName adaptation poll).1 := by
  unfold callbackBegin
  split
  · exact h.runtimeThrow _ _ _
  · split
    · exact h.runtimeThrow _ _ _
    · have hraise := h.raiseOnTop stack .callbackBefore 1 poll
      revert hraise
      rcases raiseOnTop c stack .callbackBefore 1 poll with ⟨_ | _, c₁, stack₁⟩
      · exact id
      · intro hraise
        have henter := (enterCallback_instances (c := c₁)).1 hraise
        revert henter
        dsimp only
        rcases enterCallback c₁ with ⟨status, active, c₂⟩
        intro henter
        cases status with
        | ok => exact henter
        | _ => exact henter.runtimeThrow _ _ _

theorem callbackBegin_report (h : Inv ⟨c, stack⟩) (ownerThread : Bool) (functionName : String)
    (adaptation : Adaptation) (poll : Bool) :
    let s' : HostState := ⟨(callbackBegin c stack ownerThread functionName adaptation poll).1,
      (callbackBegin c stack ownerThread functionName adaptation poll).2⟩
    (beginThrows c stack ownerThread adaptation poll = true → Told s') ∧
      (beginThrows c stack ownerThread adaptation poll = false → Quiet ⟨c, stack⟩ s') := by
  unfold callbackBegin beginThrows
  cases ownerThread with
  | false => exact ⟨fun _ => .runtimeThrow h _ _ _, fun hno => by cases hno⟩
  | true =>
    simp only [Bool.not_true, Bool.false_eq_true, if_false]
    cases adaptation.failure with
    | some failure => exact ⟨fun _ => .runtimeThrow h _ _ _, fun hno => by cases hno⟩
    | none =>
      dsimp only
      have hinv := h.raiseOnTop (show SafePointKind.callbackBefore ≠ .functionLeave by decide) 1 poll
      obtain ⟨hframe, hdiag⟩ := raiseOnTop_frame (c := c) stack .callbackBefore 1 poll
      revert hinv hframe hdiag
      rcases raiseOnTop c stack .callbackBefore 1 poll with ⟨_ | _, c₁, stack₁⟩
      · intro _ hframe hdiag
        exact ⟨fun hno => (by cases hno), fun _ => .of_frame hframe hdiag⟩
      · intro hinv hframe hdiag
        have henter := (enterCallback_instances (c := c₁)).2
        have hfail := @enterCallback_fail c₁
        revert henter hfail
        dsimp only
        rcases enterCallback c₁ with ⟨status, active, c₂⟩
        intro henter hfail
        by_cases hok : status = .ok
        · subst hok
          refine ⟨fun hno => (by simp at hno), fun _ => .of_frame hframe fun j => ?_⟩
          exact (henter j).trans (hdiag j)
        · have hsame : c₂ = c₁ := hfail rfl hok
          subst hsame
          have htold : ∀ functionName message,
              Told ⟨Host.runtimeThrow c₂ status functionName message, stack₁⟩ :=
            fun _ _ => .runtimeThrow hinv _ _ _
          cases status with
          | ok => exact absurd rfl hok
          | _ => exact ⟨fun _ => htold _ _, fun hno => by simp at hno⟩

theorem callbackEnd_instances (active : Option Nat) (functionName : String) (r : CallbackResult)
    (poll : Bool) (h : Truthful c) :
    Truthful (callbackEnd c active stack functionName r poll).1 := by
  have hleave := (leaveCallback_instances active).1 h
  unfold callbackEnd
  dsimp only
  split
  · exact hleave.raiseOnTop _ _ _ _
  split
  · exact hleave.runtimeThrow _ _ _
  split
  · exact hleave.runtimeThrow _ _ _
  split
  · exact hleave.runtimeThrow _ _ _
  · exact hleave.runtimeThrow _ _ _

theorem callbackEnd_report {active : Option Nat} {functionName : String}
    (h : Inv ⟨c, .callback active functionName :: stack⟩) (r : CallbackResult) (poll : Bool) :
    let s' : HostState := ⟨(callbackEnd c active stack functionName r poll).1,
      (callbackEnd c active stack functionName r poll).2⟩
    (endThrows r = true → Told s') ∧
      (endThrows r = false → Quiet ⟨c, .callback active functionName :: stack⟩ s') := by
  have hinv := h.leaveCallback
  have hleave := (leaveCallback_instances (c := c) active).2
  unfold callbackEnd endThrows
  dsimp only
  by_cases hgood : r.status = .ok ∧ r.terminalStatus = .ok ∧ r.builder = .value
  · rw [if_pos hgood, decide_eq_true hgood]
    obtain ⟨hframe, hdiag⟩ := raiseOnTop_frame (c := leaveCallback c active) stack .callbackAfter 0 poll
    refine ⟨fun hno => (by cases hno), fun _ => .of_frame hframe fun j => ?_⟩
    exact (hdiag j).trans (hleave j)
  · rw [if_neg hgood, decide_eq_false hgood]
    refine ⟨fun _ => ?_, fun hno => (by cases hno)⟩
    split
    · exact .runtimeThrow hinv _ _ _
    split
    · exact .runtimeThrow hinv _ _ _
    split
    · exact .runtimeThrow hinv _ _ _
    · exact .runtimeThrow hinv _ _ _


theorem Quiet.of_same (hc : c.Same c') : Quiet ⟨c, stack⟩ ⟨c', stack⟩ :=
  .of_frame rfl fun j => diagnosed_of_instances hc.instances j

theorem hostStep_quiet {s s' : HostState} {i : Input} {r : Response} (h : Inv s)
    (hs : hostStep s i = some (s', r)) : Quiet s s' := by
  obtain ⟨c, stack⟩ := s
  cases i with
  | create ownerThread m options result outPresent allocated runtimeCreated stored =>
    have hspec := (instanceCreateBegin_spec c ownerThread m options result outPresent allocated
      runtimeCreated stored).1
    simp only [hostStep] at hs
    rcases hcb : instanceCreateBegin c ownerThread m options result outPresent allocated
      runtimeCreated stored with ⟨_ | f, c'⟩
    · rw [hcb] at hs hspec
      cases hs
      exact .of_same hspec
    · rw [hcb] at hs hspec
      cases hs
      exact .of_frame rfl fun j => diagnosed_of_instances hspec.instances j
  | destroy ownerThread inst result stored =>
    cases inst with
    | none =>
      cases hs
      exact .of_same .rfl
    | some a =>
      simp only [hostStep] at hs
      split at hs
      · cases hs
      · rename_i inst hi
        cases hs
        rcases @instanceDestroy_spec c a inst ownerThread result stored with hc | ⟨hst, hc⟩
        · exact .of_same hc
        · -- the executing instance is CALLING or CALLING_HOST, so it is another one
          intro f hf
          have hf : callFrame stack = some f := hf
          obtain ⟨inst', hi', hex⟩ := h.executing f hf
          have hi' : c.instances f.inst = some inst' := hi'
          have hne : f.inst ≠ a := by
            intro heq
            rw [heq, hi] at hi'
            cases hi'
            have hstate := hex.state
            rcases hst with hready | hfaulted
            · rw [hready] at hstate
              split at hstate <;> cases hstate
            · rw [hfaulted] at hstate
              split at hstate <;> cases hstate
          refine .inl ⟨f, hf, ?_⟩
          rw [diagnosed_of_instances hc.instances]
          show (Function.update c.instances a none f.inst).bind _ = _
          rw [Function.update_of_ne hne]
          rfl
  | resolve ownerThread inst name result outPresent stored =>
    cases inst with
    | none =>
      cases hs
      exact .of_same .rfl
    | some a =>
      simp only [hostStep] at hs
      split at hs
      · cases hs
      · cases hs
        exact .of_same (same_instanceResolveExport ..)
  | call ownerThread inst q result stored =>
    cases inst with
    | none =>
      cases hs
      exact .of_same .rfl
    | some a =>
      simp only [hostStep] at hs
      split at hs
      · cases hs
      · rename_i inst hi
        rcases @instanceCallBegin_spec c a inst ownerThread q result stored
          (fun hready => h.idle_of_ready hi hready) with
          ⟨st, c', heq, hst, hc⟩ | ⟨f, c', inst', heq, had⟩
        · rw [heq] at hs
          cases hs
          exact .of_same hc
        · rw [heq] at hs
          cases hs
          intro f' hf'
          cases hf'
          have hactive := h.active
          have hidle : c.activeHostInstance = none := had.idle
          refine .inr ⟨?_, ?_⟩
          · show callFrame stack = none
            have hmap : (callFrame stack).map (·.inst) = none := hactive.symm.trans hidle
            exact Option.map_eq_none_iff.mp hmap
          · rw [diagnosed_of_instances had.same.instances, had.frame]
            show ((c.setInstance a inst').instances a).bind _ = none
            rw [setInstance_get]
            exact had.diagnostic
  | close =>
    cases hs
    exact .of_same ⟨rfl, rfl, rfl, rfl⟩
  | _ => cases hs

theorem step_report {s s' : HostState} {i : Input} {r : Response} (h : Inv s)
    (hs : step s i = some (s', r)) :
    (callbackThrows s i = true → Told s') ∧ (callbackThrows s i = false → Quiet s s') := by
  have hquiet : hostStep s i = some (s', r) → callbackThrows s i = false →
      (callbackThrows s i = true → Told s') ∧ (callbackThrows s i = false → Quiet s s') := by
    intro hhost hno
    rw [hno]
    exact ⟨fun hyes => (by cases hyes), fun _ => hostStep_quiet h hhost⟩
  obtain ⟨c, stack⟩ := s
  cases stack with
  | nil => exact hquiet hs rfl
  | cons fr rest =>
    cases fr with
    | callback active functionName =>
      cases i with
      | callbackReturn result poll =>
        cases hs
        exact callbackEnd_report h result poll
      | _ => exact hquiet hs rfl
    | interrupt =>
      cases i with
      | interruptReturn =>
        cases hs
        exact ⟨fun hyes => (by cases hyes), fun _ => .of_frame rfl fun _ => rfl⟩
      | _ => exact hquiet hs rfl
    | call f =>
      cases i with
      | safePoint kind cost poll =>
        simp only [step] at hs
        split at hs
        · cases hs
          obtain ⟨hinst, hdiag⟩ := raiseSafePoint_instance (c := c) f kind cost poll
          exact ⟨fun hyes => (by cases hyes), fun _ => .of_frame (congrArg some hinst) hdiag⟩
        · cases hs
      | interruptPoll =>
        cases hs
        exact ⟨fun hyes => (by cases hyes), fun _ => .of_frame rfl fun _ => rfl⟩
      | callback ownerThread functionName adaptation poll =>
        cases hs
        exact callbackBegin_report h ownerThread functionName adaptation poll
      | backendReturn o =>
        cases hs
        refine ⟨fun hyes => (by cases hyes), fun _ f' hf' => ?_⟩
        -- no call is below a call
        have hnone : callFrame rest = none := h.stack.1
        have hf' : callFrame rest = some f' := hf'
        rw [hnone] at hf'
        cases hf'
      | _ => cases hs
    | create f =>
      cases i with
      | callback ownerThread functionName adaptation poll =>
        cases hs
        exact callbackBegin_report h ownerThread functionName adaptation poll
      | initializerReturn o =>
        cases hs
        refine ⟨fun hyes => (by cases hyes), fun _ => .of_frame rfl fun j => ?_⟩
        show diagnosed (instanceCreateEnd c f o).2 j = diagnosed c j
        have hpending := (h.pending f List.mem_cons_self).2
        rcases instanceCreateEnd_spec c f o with hc | ⟨g, hc⟩
        · exact diagnosed_of_instances hc.instances j
        · rw [diagnosed_of_instances hc.instances]
          unfold diagnosed
          by_cases hj : j = c.nextInstance
          · rw [hj, h.fresh c.nextInstance (Nat.le_refl _)]
            show ((c.setInstance c.nextInstance _).instances c.nextInstance).bind _ = none
            rw [setInstance_get]
            exact hpending
          · show ((c.setInstance c.nextInstance _).instances j).bind _ = _
            rw [setInstance_get_ne _ _ hj]
      | _ => cases hs

theorem step_truthful {s s' : HostState} {i : Input} {r : Response} (h : Inv s)
    (ht : Truthful s.ctx) (hs : step s i = some (s', r)) : Truthful s'.ctx := by
  cases step_moves h hs with
  | quiet hc | createBegin hc => exact ht.of_instances hc.instances
  | @createEnd c f rest o =>
    obtain ⟨hidle, hdiag⟩ := h.pending f (List.mem_cons_self ..)
    rcases instanceCreateEnd_spec c f o with hc | ⟨g, hc⟩
    · exact ht.of_instances hc.instances
    · have hinst : Instance.Truthful { f.pending with generation := g } := by
        refine ⟨fun d hd => ?_, fun b hb => ?_⟩
        · have hd : f.pending.diagnostic = some d := hd
          rw [hdiag] at hd
          cases hd
        · have hb : f.pending.runtime.activeHostBudget = some b := hb
          rw [hidle.budget] at hb
          cases hb
      exact (ht.setInstance c.nextInstance hinst).of_instances hc.instances
  | @destroyed c c' stack i inst st hi hst hc =>
    intro j inst' hj
    rw [hc.instances] at hj
    have hj : Function.update c.instances i none j = some inst' := hj
    by_cases hji : j = i
    · rw [hji, Function.update_self] at hj
      cases hj
    · rw [Function.update_of_ne hji] at hj
      exact ht j inst' hj
  | @callBegin c c' stack i inst inst' f hi had =>
    obtain ⟨options, -, hb⟩ := had.ledger
    have hinst : inst'.Truthful := by
      refine ⟨fun d hd => ?_, fun b hb' => ?_⟩
      · rw [had.diagnostic] at hd
        cases hd
      · rw [hb] at hb'
        cases hb'
        show Status.ok ≠ .hostError
        decide
    exact (ht.setInstance i hinst).of_instances had.same.instances
  | @callEnd c f rest o =>
    obtain ⟨ha, hd, hatt, inst, b, hi, hst, hb, -⟩ := h.top
    obtain ⟨⟨inst', he⟩, -⟩ := instanceCallEnd_spec ha hd hatt o hi hst hb
      (fun d hdg => h.diagnostic _ inst d hi hdg)
    have hinst : inst'.Truthful := by
      refine ⟨fun d hd => ?_, fun b hb' => ?_⟩
      · rw [he.diagnostic] at hd
        cases hd
      · rw [he.budget] at hb'
        cases hb'
    exact (ht.setInstance f.inst hinst).of_instances he.same.instances
  | safePoint => exact ht.raiseSafePoint _ _ _ _
  | callbackBegin => exact callbackBegin_instances _ _ _ _ ht
  | callbackEnd => exact callbackEnd_instances _ _ _ _ ht
  | interruptBegin | interruptEnd => exact ht

end Steps

/-! ## Runs -/

structure Heard (w : Watched) : Prop where
  inv : Inv w.host
  truthful : Truthful w.host.ctx
  told : ∀ f, callFrame w.host.stack = some f →
    (diagnosed w.host.ctx f.inst = none ↔ w.failed = false)
  pending : w.pending = some .callback → w.failed = true

theorem heard_initial : Heard .initial where
  inv := Inv.initial
  truthful := fun _ _ hi => by cases hi
  told := fun _ hf => by cases hf
  pending := fun hp => by cases hp

theorem Heard.after {w : Watched} {i : Input} {s : HostState} {r : Response} (h : Heard w)
    (hs : step w.host i = some (s, r)) : Heard (w.after i s) := by
  have hinv := step_inv h.inv hs
  have htruthful := step_truthful h.inv h.truthful hs
  obtain ⟨htold, hquiet⟩ := step_report h.inv hs
  unfold Watched.after
  cases hthrows : callbackThrows w.host i with
  | true =>
    rw [if_pos rfl]
    refine ⟨hinv, htruthful, fun f hf => ?_, fun _ => rfl⟩
    exact iff_of_false (htold hthrows f hf) fun hno => by cases hno
  | false =>
    have hquiet := hquiet hthrows
    simp only [Bool.false_eq_true, if_false]
    split
    · rename_i f hbefore hafter
      refine ⟨hinv, htruthful, fun f' hf' => ?_, fun hp => by cases hp⟩
      rcases hquiet f' hf' with ⟨f₀, hf₀, -⟩ | ⟨-, hnone⟩
      · rw [hbefore] at hf₀
        cases hf₀
      · exact iff_of_true hnone rfl
    · rename_i hno
      refine ⟨hinv, htruthful, fun f' hf' => ?_, h.pending⟩
      rcases hquiet f' hf' with ⟨f₀, hf₀, hdiag⟩ | ⟨hbefore, -⟩
      · rw [hdiag]
        exact h.told f₀ hf₀
      · exact absurd hf' (hno f' hbefore)

theorem watch_heard (w : Watched) (e : Event) (w' : Watched) (r : Option Response) (h : Heard w)
    (hs : watch w e = some (w', r)) : Heard w' := by
  cases e with
  | host i =>
    simp only [watch] at hs
    split at hs
    · cases hs
    · rename_i s' r' hstep
      cases hs
      exact h.after hstep
  | throws | catches =>
    simp only [watch] at hs
    split at hs
    · cases hs
      exact ⟨h.inv, h.truthful, h.told, fun hp => by cases hp⟩
    · cases hs

theorem run_heard (es : List Event) (w : Watched) (hrun : run watch .initial es = some w) : Heard w :=
  run_invariant watch_heard es _ w heard_initial hrun

/-! ## The report -/

section Report
variable {c : Ctx} {f : CallFrame} {inst : Instance} {status : Status} {phase : Phase}

theorem stored_reports (e : ErrorInfo) (inst' : Instance) (stored : Status) (cause : Status × Phase) :
    Reports (if (resultSetError c f.result e stored).1 = .ok then e.status
          else (resultSetError c f.result e stored).1,
          (resultSetError c f.result e stored).2.setInstance f.inst inst') f cause ↔
      stored = .ok ∧ (e.status, e.phase) = cause := by
  unfold resultSetError Reports
  by_cases hok : stored = .ok
  · have hresult : (c.setResult f.result { hasValue := false, error := some e }).results f.result =
        { hasValue := false, error := some e } := Function.update_self ..
    simp only [hok, if_true]
    show e.status = cause.1 ∧ (∃ e', ((c.setResult f.result _).results f.result).error = some e' ∧
      e'.status = cause.1 ∧ e'.phase = cause.2) ↔ _
    rw [hresult]
    constructor
    · intro h
      obtain ⟨hstatus, e', he, -, hphase⟩ := h
      cases he
      exact ⟨trivial, Prod.ext hstatus hphase⟩
    · intro h
      obtain ⟨-, rfl⟩ := h
      exact ⟨rfl, e, rfl, rfl, rfl⟩
  · have hresult : (c.setResult f.result resultClear).results f.result = resultClear :=
      Function.update_self ..
    simp only [hok, if_false, false_and, iff_false]
    intro h
    obtain ⟨-, e', he, -⟩ := h
    have he : ((c.setResult f.result resultClear).results f.result).error = some e' := he
    rw [hresult] at he
    cases he

theorem callFinish_report (message : String) (stored : Status) (cause : Status × Phase)
    (hi : c.instances f.inst = some inst) (ha : c.activeHostInstance = some f.inst)
    (hst : inst.state = .calling) (hd : c.hostCallbackDepth = 0) (hatt : f.budgetAttached = true)
    (hne : status ≠ .ok) :
    Reports (callFinish c f status phase message stored) f cause ↔
      stored = .ok ∧ (match inst.diagnostic with
        | some d => (d.status, d.phase)
        | none => (status, phase)) = cause := by
  unfold callFinish
  simp only [hi, hatt, if_true]
  rw [finishCall_calling (c := c.setInstance f.inst
    (({ inst with runtime := callBudgetDetach inst.runtime } : Instance).restoreLimits f))
    status ha (setInstance_get ..) hst hd]
  simp only [ne_eq, not_true, if_false, setInstance_setInstance, hne]
  unfold publishExecutionError
  simp only [setInstance_get]
  have hdiag : (({ inst with runtime := callBudgetDetach inst.runtime } : Instance).restoreLimits
      f).diagnostic = inst.diagnostic := rfl
  rw [hdiag]
  cases inst.diagnostic with
  | none | some => exact stored_reports ..

end Report

/-- The status and the phase with which `turbo_script_instance_call` reaches `finish`. -/
def finishedWith (inst : Instance) (b : CallBudget) (o : BackendOutcome) : Status × Phase :=
  if o.succeeded = false then
    if b.failureStatus ≠ .ok then (b.failureStatus, b.failurePhase)
    else
      match inst.diagnostic with
      | some d => (d.status, d.phase)
      | none => (.runtimeError, .call)
  else if o.valueStored ≠ .ok then (o.valueStored, .call)
  else
    match budgetSafePoint b .retainedBytes o.retainedBytes false with
    | (true, _) => (.ok, .call)
    | (false, b) => (b.failureStatus, b.failurePhase)

section Report
variable {c : Ctx} {f : CallFrame} {inst : Instance} {b : CallBudget}

theorem instanceCallEnd_finish (o : BackendOutcome) (hi : c.instances f.inst = some inst)
    (hb : inst.runtime.activeHostBudget = some b) :
    ∃ c₂ inst₂ message, instanceCallEnd c f o = callFinish c₂ f (finishedWith inst b o).1
        (finishedWith inst b o).2 message o.errorStored ∧
      (c.setInstance f.inst inst₂).Same c₂ ∧ inst₂.diagnostic = inst.diagnostic ∧
      inst₂.state = inst.state := by
  let inst₁ : Instance := { inst with runtime := { inst.runtime with envErrorMsg := o.envErrorMsg } }
  have hget : ({ inst.runtime with envErrorMsg := o.envErrorMsg } : RuntimeCtx).activeHostBudget.getD
      f.ledger.initial = b := by
    show inst.runtime.activeHostBudget.getD f.ledger.initial = b
    rw [hb]
    rfl
  unfold instanceCallEnd finishedWith
  simp only [hi, hget]
  by_cases hsucceeded : o.succeeded = false
  · simp only [hsucceeded, Bool.not_false, if_true]
    by_cases hlatched : b.failureStatus = .ok
    · simp only [hlatched, ne_eq, not_true, if_false]
      cases inst.diagnostic with
      | none | some => exact ⟨_, _, _, rfl, .rfl, rfl, rfl⟩
    · simp only [ne_eq, hlatched, not_false_eq_true, if_true]
      exact ⟨_, inst₁, _, rfl, .rfl, rfl, rfl⟩
  · have hyes : o.succeeded = true := by simpa using hsucceeded
    simp only [hyes, Bool.not_true, Bool.false_eq_true, if_false, Bool.true_eq_false]
    have hstore := same_resultStore (c.setInstance f.inst inst₁) f.result o.valueStored
    have hstatus : (resultStore (c.setInstance f.inst inst₁) f.result o.valueStored).1 = o.valueStored := by
      unfold resultStore
      split
      · rename_i hok
        exact hok.symm
      · rfl
    revert hstore hstatus
    rcases resultStore (c.setInstance f.inst inst₁) f.result o.valueStored with ⟨status, c₁⟩
    intro hstore hstatus
    have hstatus : status = o.valueStored := hstatus
    subst hstatus
    by_cases hok : o.valueStored = .ok
    · rw [hok]
      simp only [ne_eq, not_true, if_false]
      obtain ⟨hfst, hsnd⟩ := safePoint_budget (show inst₁.runtime.activeHostBudget = some b from hb)
        .retainedBytes o.retainedBytes false
      revert hfst hsnd
      show (safePoint { inst.runtime with envErrorMsg := o.envErrorMsg } .retainedBytes
        o.retainedBytes false).1 = _ → _ → _
      rcases safePoint { inst.runtime with envErrorMsg := o.envErrorMsg } .retainedBytes
        o.retainedBytes false with ⟨accepted, rt⟩
      rcases budgetSafePoint b .retainedBytes o.retainedBytes false with ⟨accepted', b'⟩
      intro hfst hsnd
      obtain rfl : accepted = accepted' := hfst
      have hsame := hstore.setInstance f.inst { inst with runtime := rt }
      rw [setInstance_setInstance] at hsame
      cases accepted with
      | true => exact ⟨_, _, _, rfl, hsame, rfl, rfl⟩
      | false =>
        refine ⟨_, _, b'.failureMessage.getD "call budget failed", ?_, hsame, rfl, rfl⟩
        have hrt : rt.activeHostBudget = some b' := hsnd
        simp only [hrt, Option.getD_some]
    · simp only [ne_eq, hok, not_false_eq_true, if_true]
      cases hv : o.valueStored with
      | ok => exact absurd hv hok
      | _ => exact ⟨_, inst₁, _, rfl, hstore, rfl, rfl⟩

theorem finishedWith_ne_ok {w : Watched} (o : BackendOutcome)
    (hi : w.host.ctx.instances f.inst = some inst) (hb : inst.runtime.activeHostBudget = some b)
    (hdiag : ∀ d, inst.diagnostic = some d → d.status ≠ .ok) :
    (finishedWith inst b o).1 = .ok ↔ actualCause w f o = none := by
  have hbudget : (w.host.ctx.instances f.inst).bind (·.runtime.activeHostBudget) = some b := by
    rw [hi]
    exact hb
  unfold finishedWith actualCause
  rw [hbudget]
  dsimp only
  split
  · split
    · rename_i hlatched
      exact iff_of_false hlatched (by simp)
    · cases hdg : inst.diagnostic with
      | none => 
        refine iff_of_false (fun h => by cases h) ?_
        split <;> simp
      | some d =>
        refine iff_of_false (hdiag d hdg) ?_
        split <;> simp
  · split
    · rename_i hstored
      exact iff_of_false hstored (by simp)
    · have hrejects : (budgetSafePoint b .retainedBytes o.retainedBytes false).1 = false →
          (budgetSafePoint b .retainedBytes o.retainedBytes false).2.failureStatus ≠ .ok := by
        unfold budgetSafePoint
        split
        · rename_i hlatched
          exact fun _ => hlatched
        · exact budgetCharge_latches
      revert hrejects
      rcases budgetSafePoint b .retainedBytes o.retainedBytes false with ⟨_ | _, b'⟩
      · intro hrejects
        exact iff_of_false (hrejects rfl) (by simp)
      · intro _
        simp

theorem published_cause {w : Watched} (h : Heard w) (o : BackendOutcome)
    (hf : callFrame w.host.stack = some f) (hi : w.host.ctx.instances f.inst = some inst)
    (hb : inst.runtime.activeHostBudget = some b) {cause : Status × Phase}
    (hcause : actualCause w f o = some cause) :
    (match inst.diagnostic with
      | some d => (d.status, d.phase)
      | none => finishedWith inst b o) = cause ↔
      w.failed = false ∨ o.succeeded = false ∧ w.pending = some .callback ∧ b.failureStatus = .ok := by
  have hbudget : (w.host.ctx.instances f.inst).bind (·.runtime.activeHostBudget) = some b := by
    rw [hi]
    exact hb
  have hdiagnosed : diagnosed w.host.ctx f.inst = inst.diagnostic := by
    unfold diagnosed
    rw [hi]
    rfl
  have htold := h.told f hf
  have htruthful := h.truthful _ _ hi
  rw [hdiagnosed] at htold
  unfold actualCause at hcause
  rw [hbudget] at hcause
  dsimp only at hcause
  cases hdg : inst.diagnostic with
  | none =>
    have hquiet : w.failed = false := htold.mp hdg
    have hpending : w.pending ≠ some .callback := by
      intro hp
      rw [h.pending hp] at hquiet
      cases hquiet
    refine iff_of_true ?_ (.inl hquiet)
    unfold finishedWith
    rw [hdg]
    rw [if_neg hpending] at hcause
    split at hcause
    · rename_i hfailed
      rw [if_pos hfailed]
      split at hcause
      · rename_i hlatched
        rw [if_pos hlatched]
        exact Option.some.inj hcause
      · rename_i hlatched
        rw [if_neg hlatched]
        exact Option.some.inj hcause
    · rename_i hsucceeded
      rw [if_neg hsucceeded]
      split at hcause
      · rename_i hstored
        rw [if_pos hstored]
        exact Option.some.inj hcause
      · rename_i hstored
        rw [if_neg hstored]
        revert hcause
        rcases budgetSafePoint b .retainedBytes o.retainedBytes false with ⟨_ | _, b'⟩
        · exact fun hcause => Option.some.inj hcause
        · exact fun hcause => by cases hcause
  | some d =>
    obtain ⟨hstatus, hphase⟩ := htruthful.diagnostic d hdg
    have hfailed : w.failed ≠ false := by
      intro hno
      rw [htold.mpr hno] at hdg
      cases hdg
    dsimp only
    rw [hstatus, hphase]
    -- only a pending callback gives HOST_ERROR in HOST_CALLBACK
    have hother : ∀ (status : Status) (phase : Phase), status ≠ .hostError ∨ phase ≠ .hostCallback →
        some (status, phase) = some cause →
        ¬(Status.hostError, Phase.hostCallback) = cause := by
      intro status phase hne heq hsame
      rw [← Option.some.inj heq] at hsame
      obtain ⟨hs, hp⟩ := Prod.mk.inj hsame
      rcases hne with hne | hne
      · exact hne hs.symm
      · exact hne hp.symm
    have hbudgets := htruthful.budget b hb
    split at hcause
    · rename_i hended
      split at hcause
      · rename_i hlatched
        refine iff_of_false (hother _ _ (.inl hbudgets) hcause) fun hor => ?_
        rcases hor with hno | ⟨-, -, hok⟩
        · exact hfailed hno
        · exact hlatched hok
      · rename_i hlatched
        split at hcause
        · rename_i hpending
          refine iff_of_true (Option.some.inj hcause) (.inr ⟨hended, hpending, ?_⟩)
          exact not_not.mp hlatched
        · rename_i hpending
          refine iff_of_false (hother _ _ (.inl (by decide)) hcause) fun hor => ?_
          rcases hor with hno | ⟨-, hp, -⟩
          · exact hfailed hno
          · exact hpending hp
    · rename_i hended
      have hno : ¬(w.failed = false ∨ o.succeeded = false ∧ w.pending = some .callback ∧
          b.failureStatus = .ok) := by
        intro hor
        rcases hor with hno | ⟨hfalse, -⟩
        · exact hfailed hno
        · exact hended hfalse
      split at hcause
      · exact iff_of_false (hother _ _ (.inr (by decide)) hcause) hno
      · have hsafe := budgetSafePoint_status hbudgets .retainedBytes o.retainedBytes false
        revert hcause hsafe
        rcases budgetSafePoint b .retainedBytes o.retainedBytes false with ⟨_ | _, b'⟩
        · intro hcause hsafe
          exact iff_of_false (hother _ _ (.inl hsafe) hcause) hno
        · intro hcause
          cases hcause

end Report

/-- A call fails exactly when something ended it, and then reports the cause exactly when its error
can be stored and no callback has failed in it, unless the throw of a failing callback is what
ended the script. -/
theorem cause_reported_iff (es : List Event) (w : Watched) (hrun : run watch .initial es = some w)
    (f : CallFrame) (rest : List Frame) (hstack : w.host.stack = .call f :: rest)
    (o : BackendOutcome) (w' : Watched) (status : Status) (l : Ledger)
    (hs : watch w (.host (.backendReturn o)) = some (w', some (.callReturned f.inst status l))) :
    (status = .ok ↔ actualCause w f o = none) ∧ ∀ cause, actualCause w f o = some cause →
        (Reports (status, w'.host.ctx) f cause ↔ Unclouded w f o) := by
  have h := run_heard es w hrun
  have hinv := h.inv
  have htop : Inv ⟨w.host.ctx, .call f :: rest⟩ := by
    rw [← hstack]
    exact hinv
  obtain ⟨ha, hd, hatt, inst, b, hi, hstate, hb, -⟩ := htop.top
  have hdiag : ∀ d, inst.diagnostic = some d → d.status ≠ .ok := fun d => hinv.diagnostic _ _ d hi
  have hreturned : (status, w'.host.ctx) = instanceCallEnd w.host.ctx f o := by
    simp only [watch, step, hstack] at hs
    have hpair := Prod.mk.inj (Option.some.inj hs)
    have hresponse := Option.some.inj hpair.2
    injection hresponse with _ hstatus _
    rw [← hpair.1, ← hstatus]
    unfold Watched.after
    split
    · rfl
    · split <;> rfl
  obtain ⟨c₂, inst₂, message, hfinish, hsame, hdiag₂, hstate₂⟩ := instanceCallEnd_finish o hi hb
  have hi₂ : c₂.instances f.inst = some inst₂ := by
    rw [hsame.instances]
    exact setInstance_get ..
  have hok := finishedWith_ne_ok (w := w) o hi hb hdiag
  have hspec := (callFinish_spec (finishedWith inst b o).1 (finishedWith inst b o).2 message
    o.errorStored hi₂ (hsame.active.trans ha) (hstate₂.trans hstate) (hsame.depth.trans hd) hatt
    (hdiag₂ ▸ hdiag)).1
  rw [← hfinish, ← hreturned] at hspec
  refine ⟨hspec.trans hok, fun cause hcause => ?_⟩
  have hne : (finishedWith inst b o).1 ≠ .ok := by
    intro heq
    rw [hok.mp heq] at hcause
    cases hcause
  have hreport := @callFinish_report c₂ f inst₂ (finishedWith inst b o).1 (finishedWith inst b o).2
    message o.errorStored cause hi₂ (hsame.active.trans ha) (hstate₂.trans hstate) (hsame.depth.trans hd) hatt hne
  have hcalled : callFrame w.host.stack = some f := by
    rw [hstack]
    rfl
  rw [hreturned, hfinish, hreport, hdiag₂, published_cause h o hcalled hi hb hcause]
  unfold Unclouded
  refine and_congr Iff.rfl (or_congr Iff.rfl (and_congr Iff.rfl (and_congr Iff.rfl ?_)))
  constructor
  · intro hlatched inst' b' hi' hb'
    rw [hi] at hi'
    cases hi'
    rw [hb] at hb'
    cases hb'
    exact hlatched
  · exact fun hall => hall inst b hi hb

def failingCallback : List Event :=
  let options : InstanceOptions := ⟨true, true, false, 1000, 1000, 8, 8, 8, true, 8, 100⟩
  let q : CallRequest :=
    ⟨2 ^ 32 + 1, false, 0, some ⟨true, 8, 100, 100, 8, true, 100, false⟩, .ok, .ok⟩
  [.host (.create true ⟨"m", [⟨"f", 0⟩], true⟩ (some options) (.own 0) true true .ok .ok),
   .host (.initializerReturn ⟨.ok, .ok, 10, .ok⟩),
   .host (.call true (some 0) q (.own 0) .ok),
   .host (.callback true "host" .adapted false),
   .host (.callbackReturn ⟨.outOfMemory, .error, .ok, "no memory"⟩ false)]

def backendFailed : BackendOutcome := ⟨false, .ok, 0, "", .ok⟩

/-- The script that does not catch the throw of the callback fails for that reason, and says so. -/
theorem uncaught_callback_reported : ∃ w f rest w' l,
    run watch .initial failingCallback = some w ∧ w.host.stack = .call f :: rest ∧
      watch w (.host (.backendReturn backendFailed)) = some (w', some (.callReturned f.inst .hostError l)) ∧
      Reports (.hostError, w'.host.ctx) f (.hostError, .hostCallback) := by
  refine ⟨_, _, _, _, _, rfl, rfl, rfl, ?_⟩
  refine ((cause_reported_iff failingCallback _ rfl _ _ rfl backendFailed _ _ _ rfl).2
    (.hostError, .hostCallback) rfl).mpr ⟨rfl, .inr ⟨rfl, rfl, fun inst b hi hb => ?_⟩⟩
  cases hi
  cases hb
  rfl

/-- The script catches the throw of the callback and later raises an error of its own: the call
reports the callback. -/
theorem caught_callback_reported : ∃ w f rest w' l,
    run watch .initial (failingCallback ++ [.catches, .throws]) = some w ∧ w.host.stack = .call f :: rest ∧
      watch w (.host (.backendReturn backendFailed)) = some (w', some (.callReturned f.inst .hostError l)) ∧
      actualCause w f backendFailed = some (.runtimeError, .call) ∧
      ¬Reports (.hostError, w'.host.ctx) f (.runtimeError, .call) := by
  refine ⟨_, _, _, _, _, rfl, rfl, rfl, rfl, fun h => ?_⟩
  have hstatus : Status.hostError = .runtimeError := h.1
  cases hstatus

end TurboScript.Host
