import TurboScript.Host.Machine

/- What each routine of the call boundary does to the context.

   One lemma a routine, giving the context it leaves up to the result objects (`Ctx.Same`):
   the four transitions, the end of a call (`instanceCallEnd_spec`), its beginning
   (`instanceCallBegin_spec`), and creation, destruction and resolution. -/
namespace TurboScript.Host

/-- Equal up to the result objects, the closing flag and the generation counter. -/
structure Ctx.Same (c c' : Ctx) : Prop where
  instances : c'.instances = c.instances
  active : c'.activeHostInstance = c.activeHostInstance
  depth : c'.hostCallbackDepth = c.hostCallbackDepth
  next : c'.nextInstance = c.nextInstance

variable {c c' : Ctx} {i : Nat} {inst : Instance} {status : Status}

theorem Ctx.Same.rfl : c.Same c := ⟨Eq.refl _, Eq.refl _, Eq.refl _, Eq.refl _⟩

theorem Ctx.Same.trans {a b : Ctx} (h : a.Same b) (h' : b.Same c) : a.Same c :=
  ⟨h'.1.trans h.1, h'.2.trans h.2, h'.3.trans h.3, h'.4.trans h.4⟩

theorem same_setResult (c : Ctx) (r : Nat) (o : ResultObj) : c.Same (c.setResult r o) :=
  ⟨rfl, rfl, rfl, rfl⟩

theorem same_resultSetError (c : Ctx) (r : Nat) (e : ErrorInfo) (stored : Status) :
    c.Same (resultSetError c r e stored).2 := by
  unfold resultSetError
  split <;> exact ⟨rfl, rfl, rfl, rfl⟩

theorem same_resultStore (c : Ctx) (r : Nat) (stored : Status) : c.Same (resultStore c r stored).2 := by
  unfold resultStore
  split <;> exact ⟨rfl, rfl, rfl, rfl⟩

theorem same_instanceFail (c : Ctx) (r : Nat) (m : Module) (status : Status) (phase : Phase)
    (functionName message : String) (stored : Status) :
    c.Same (instanceFail c r m status phase functionName message stored).2 :=
  same_resultSetError ..

theorem same_instanceBegin (c : Ctx) (ownerThread : Bool) (m : Module) (result : ResultArg)
    (phase : Phase) (stored : Status) :
    c.Same (instanceBegin c ownerThread m result phase stored).2 := by
  unfold instanceBegin
  split
  · exact .rfl
  · cases result with
    | null | foreign => exact .rfl
    | own r =>
      dsimp only
      split
      · exact (same_setResult ..).trans (same_instanceFail ..)
      · exact same_setResult ..

theorem Ctx.Same.setInstance (h : c.Same c') (i : Nat) (inst : Instance) :
    (c.setInstance i inst).Same (c'.setInstance i inst) :=
  ⟨by simp only [Ctx.setInstance, h.instances], h.active, h.depth, h.next⟩

theorem setInstance_setInstance (c : Ctx) (i : Nat) (inst inst' : Instance) :
    (c.setInstance i inst).setInstance i inst' = c.setInstance i inst' := by
  simp only [Ctx.setInstance, Function.update_idem]

@[simp] theorem setInstance_get (c : Ctx) (i : Nat) (inst : Instance) :
    (c.setInstance i inst).instances i = some inst := by
  simp [Ctx.setInstance]

theorem setInstance_get_ne (c : Ctx) {j : Nat} (inst : Instance) (h : j ≠ i) :
    (c.setInstance i inst).instances j = c.instances j := by
  simp [Ctx.setInstance, h]

/-! ## The four transitions -/

theorem beginCall_ready (hi : c.instances i = some inst) (hst : inst.state = .ready)
    (hd : c.hostCallbackDepth = 0) (ha : c.activeHostInstance = none) :
    beginCall c i = (.ok, { c.setInstance i { inst.clearForCall with state := .calling } with
                            activeHostInstance := some i }) := by
  simp [beginCall, hi, hst, hd, ha]

theorem enterCallback_ok {active : Option Nat} (h : enterCallback c = (.ok, active, c'))
    (hlive : ∀ i, c.activeHostInstance = some i → ∃ inst, c.instances i = some inst) :
    (c.activeHostInstance = none ∧ active = none ∧
        c' = { c with hostCallbackDepth := c.hostCallbackDepth + 1 }) ∨
      ∃ i inst, c.activeHostInstance = some i ∧ active = some i ∧ c.instances i = some inst ∧
        inst.state = .calling ∧
        c' = { c.setInstance i { inst with state := .callingHost } with
               hostCallbackDepth := c.hostCallbackDepth + 1 } := by
  unfold enterCallback at h
  split at h
  · cases h
  · split at h
    · rename_i ha
      cases h
      exact .inl ⟨ha, rfl, rfl⟩
    · rename_i i ha
      obtain ⟨inst, hi⟩ := hlive i ha
      simp only [hi] at h
      split at h
      · cases h
      · rename_i hst
        simp only [ne_eq, not_not] at hst
        cases h
        exact .inr ⟨i, inst, ha, rfl, hi, hst, rfl⟩

theorem enterCallback_fail {active : Option Nat} (h : enterCallback c = (status, active, c'))
    (hs : status ≠ .ok) : c' = c := by
  unfold enterCallback at h
  repeat' split at h
  all_goals cases h
  all_goals first | rfl | exact absurd rfl hs

theorem leaveCallback_none (hd : c.hostCallbackDepth ≠ 0) :
    leaveCallback c none = { c with hostCallbackDepth := c.hostCallbackDepth - 1 } := by
  unfold leaveCallback
  rw [if_neg hd]

theorem leaveCallback_some (hd : c.hostCallbackDepth ≠ 0) (ha : c.activeHostInstance = some i)
    (hi : c.instances i = some inst) (hst : inst.state = .callingHost) :
    leaveCallback c (some i) = { c.setInstance i { inst with state := .calling } with
        hostCallbackDepth := c.hostCallbackDepth - 1 } := by
  unfold leaveCallback
  rw [if_neg hd]
  simp only [hi]
  rw [if_pos ⟨ha, hst⟩]

theorem finishCall_calling (status : Status) (ha : c.activeHostInstance = some i)
    (hi : c.instances i = some inst) (hst : inst.state = .calling) (hd : c.hostCallbackDepth = 0) :
    finishCall c i status = (status, { c.setInstance i
                   { inst with state := if status = .ok then .ready else .faulted } with
                 activeHostInstance := none }) := by
  unfold finishCall
  simp only [hi]
  rw [if_neg (by simp only [ne_eq, not_or, not_not]; exact ⟨ha, hst, hd⟩)]

/-! ## The end of a call -/

theorem publishExecutionError_spec {f : CallFrame} (phase : Phase) (message : String)
    (stored : Status) (hi : c.instances f.inst = some inst)
    (hdiag : ∀ d, inst.diagnostic = some d → d.status ≠ .ok) (hs : status ≠ .ok) :
    (publishExecutionError c f status phase message stored).1 ≠ .ok ∧
      (c.setInstance f.inst { inst with diagnostic := none }).Same
        (publishExecutionError c f status phase message stored).2 ∧
      ((publishExecutionError c f status phase message stored).2.results f.result).hasValue = false := by
  unfold publishExecutionError
  simp only [hi]
  refine ⟨?_, ?_, ?_⟩
  · unfold resultSetError
    by_cases hst : stored = .ok
    · simp only [hst, if_true]
      cases hd : inst.diagnostic with
      | none => exact hs
      | some d => exact hdiag d hd
    · simp only [hst, if_false]
      exact hst
  · exact (same_resultSetError ..).setInstance _ _
  · unfold resultSetError Ctx.setInstance Ctx.setResult
    by_cases hst : stored = .ok
    · simp [hst]
    · simp [hst, resultClear]

def Instance.finished (inst : Instance) (f : CallFrame) (status : Status) : Instance :=
  { ({ inst with runtime := callBudgetDetach inst.runtime } : Instance).restoreLimits f with
    state := if status = .ok then .ready else .faulted
    diagnostic := none }

/-- The label `finish`, reached from the executing call: the status stays OK or not OK, the
    instance becomes READY or FAULTED, nothing is active, and a failure leaves no value. -/
theorem callFinish_spec {f : CallFrame} (status : Status) (phase : Phase) (message : String)
    (stored : Status) (hi : c.instances f.inst = some inst)
    (ha : c.activeHostInstance = some f.inst) (hst : inst.state = .calling)
    (hd : c.hostCallbackDepth = 0) (hatt : f.budgetAttached = true)
    (hdiag : ∀ d, inst.diagnostic = some d → d.status ≠ .ok) :
    ((callFinish c f status phase message stored).1 = .ok ↔ status = .ok) ∧
      ({ c.setInstance f.inst (inst.finished f status) with activeHostInstance := none } : Ctx).Same
        (callFinish c f status phase message stored).2 ∧
      (status ≠ .ok → ((callFinish c f status phase message stored).2.results f.result).hasValue
        = false) := by
  unfold callFinish
  simp only [hi, hatt, if_true]
  have hfin := finishCall_calling (c := c.setInstance f.inst
      (({ inst with runtime := callBudgetDetach inst.runtime } : Instance).restoreLimits f))
    status ha (setInstance_get ..) hst hd
  rw [hfin]
  simp only [ne_eq, not_true, if_false, setInstance_setInstance]
  by_cases hok : status = .ok
  · subst hok
    simp only [if_true, setInstance_get]
    refine ⟨trivial, ⟨?_, rfl, rfl, rfl⟩, fun h => absurd trivial h⟩
    simp only [Ctx.setInstance, Function.update_idem, Instance.finished, if_true]
  · simp only [hok, if_false]
    let mid : Instance :=
      { ({ inst with runtime := callBudgetDetach inst.runtime } : Instance).restoreLimits f with
        state := .faulted }
    obtain ⟨h1, h2, h3⟩ := @publishExecutionError_spec
      { c.setInstance f.inst mid with activeHostInstance := none } mid status f phase message stored
      (setInstance_get c f.inst mid) hdiag hok
    refine ⟨iff_of_false h1 (by simp), ⟨?_, h2.active, h2.depth, h2.next⟩, fun _ => h3⟩
    rw [h2.instances]
    simp only [Ctx.setInstance, Function.update_idem, Instance.finished, hok, if_false, mid]

/-- What holds when the call `f` has returned from the context `c` with the status and
    context `r`. -/
structure Ended (c : Ctx) (f : CallFrame) (r : Status × Ctx) (inst : Instance) : Prop where
  same : ({ c.setInstance f.inst inst with activeHostInstance := none } : Ctx).Same r.2
  state : inst.state = if r.1 = .ok then .ready else .faulted
  budget : inst.runtime.activeHostBudget = none
  safePoint : inst.runtime.safePointInstalled = false
  diagnostic : inst.diagnostic = none
  value : r.1 ≠ .ok → (r.2.results f.result).hasValue = false

section ended

variable {c : Ctx} {f : CallFrame} {inst : Instance}
  (ha : c.activeHostInstance = some f.inst) (hd : c.hostCallbackDepth = 0)
  (hatt : f.budgetAttached = true)

include ha hd hatt

theorem ended_callFinish {c₂ : Ctx} (status : Status) (phase : Phase) (message : String)
    (stored : Status) (hc : (c.setInstance f.inst inst).Same c₂) (hst : inst.state = .calling)
    (hdiag : ∀ d, inst.diagnostic = some d → d.status ≠ .ok) :
    Ended c f (callFinish c₂ f status phase message stored) (inst.finished f status) ∧
      ((callFinish c₂ f status phase message stored).1 = .ok ↔ status = .ok) := by
  have hi : c₂.instances f.inst = some inst := by rw [hc.instances]; exact setInstance_get ..
  obtain ⟨h1, h2, h3⟩ := callFinish_spec (f := f) status phase message stored hi
    (hc.active.trans ha) hst (hc.depth.trans hd) hatt hdiag
  refine ⟨⟨⟨?_, h2.active, h2.depth.trans hc.depth, h2.next.trans hc.next⟩, ?_, rfl, rfl, rfl, ?_⟩, h1⟩
  · rw [h2.instances]
    simp only [Ctx.setInstance, hc.instances, Function.update_idem]
  · simp only [Instance.finished, h1]
  · exact fun h => h3 (fun hs => h (h1.mpr hs))

/-- **The end of an executing call.** -/
theorem instanceCallEnd_spec {b : CallBudget} (o : BackendOutcome)
    (hi : c.instances f.inst = some inst) (hst : inst.state = .calling)
    (hb : inst.runtime.activeHostBudget = some b)
    (hdiag : ∀ d, inst.diagnostic = some d → d.status ≠ .ok) :
    (∃ inst', Ended c f (instanceCallEnd c f o) inst') ∧ ((instanceCallEnd c f o).1 = .ok →
        (budgetSafePoint b .retainedBytes o.retainedBytes false).1 = true) := by
  let inst₁ : Instance := { inst with runtime := { inst.runtime with envErrorMsg := o.envErrorMsg } }
  have hsame : ∀ (inst₂ : Instance) (c₂ : Ctx), (c.setInstance f.inst inst₁).Same c₂ →
      (c.setInstance f.inst inst₂).Same (c₂.setInstance f.inst inst₂) := by
    intro inst₂ c₂ h
    have h' := h.setInstance f.inst inst₂
    rwa [setInstance_setInstance] at h'
  unfold instanceCallEnd
  simp only [hi]
  -- a failure that is reported with a status other than OK
  have hfail : ∀ (c₂ : Ctx) (inst₂ : Instance) (status : Status) (phase : Phase) (message : String),
      (c.setInstance f.inst inst₂).Same c₂ → inst₂.state = .calling →
      inst₂.diagnostic = inst.diagnostic → status ≠ .ok →
      (∃ inst', Ended c f (callFinish c₂ f status phase message o.errorStored) inst') ∧
        ((callFinish c₂ f status phase message o.errorStored).1 = .ok → 
          (budgetSafePoint b .retainedBytes o.retainedBytes false).1 = true) := by
    intro c₂ inst₂ status phase message hc h₂ hd₂ hs
    obtain ⟨he, hiff⟩ := ended_callFinish ha hd hatt status phase message o.errorStored hc h₂ (hd₂ ▸ hdiag)
    exact ⟨⟨_, he⟩, fun h => absurd (hiff.mp h) hs⟩
  split
  · split
    · rename_i hf
      exact hfail _ inst₁ _ _ _ .rfl hst rfl hf
    · split
      · rename_i d hdg
        exact hfail _ inst₁ _ _ _ .rfl hst rfl (hdiag d hdg)
      · exact hfail _ inst₁ _ _ _ .rfl hst rfl (by decide)
  · have hstore := same_resultStore (c.setInstance f.inst inst₁) f.result o.valueStored
    revert hstore
    rcases hr : resultStore (c.setInstance f.inst inst₁) f.result o.valueStored with ⟨st, c₁⟩
    intro hstore
    cases st with
    | ok =>
      dsimp only
      have hbud := (safePoint_budget (show inst₁.runtime.activeHostBudget = some b from hb)
        .retainedBytes o.retainedBytes false).1
      revert hbud
      rcases hsp : safePoint inst₁.runtime .retainedBytes o.retainedBytes false with ⟨acc, rt⟩
      intro hbud
      have hc := hsame { inst₁ with runtime := rt } c₁ hstore
      cases acc with
      | true =>
        obtain ⟨he, -⟩ := ended_callFinish ha hd hatt .ok .call "call value conversion failed"
          o.errorStored hc hst hdiag
        exact ⟨⟨_, he⟩, fun _ => hbud.symm⟩
      | false =>
        obtain ⟨b', hb', hlatched⟩ := safePoint_latches hsp
        refine hfail _ { inst₁ with runtime := rt } _ _ _ hc hst rfl ?_
        rw [hb']
        exact hlatched
    | _ => exact hfail _ inst₁ _ _ _ hstore hst rfl (by decide)

end ended

/-! ## The beginning of a call -/

theorem decodeHandle_error {handle : Nat} (h : decodeHandle inst handle = .error status) :
    status ≠ .ok := by
  unfold decodeHandle at h
  dsimp only at h
  split at h
  · cases h; decide
  split at h
  · cases h; decide
  · cases h

theorem callPreflight_error {q : CallRequest} {functionName message : String}
    (h : callPreflight c inst q = .error (status, functionName, message)) : status ≠ .ok := by
  unfold callPreflight at h
  split at h
  · cases h; decide
  split at h
  · cases h; decide
  split at h
  · cases h; decide
  split at h
  · cases h; decide
  split at h
  · cases h; decide
  split at h
  · rename_i st hdec
    cases h
    exact decodeHandle_error hdec
  split at h
  · cases h; decide
  split at h
  · cases h; decide
  split at h
  · rename_i hv
    cases h
    exact hv
  split at h
  · rename_i hv
    cases h
    exact hv
  · cases h

theorem callPreflight_ok {q : CallRequest} {a : Admission} (h : callPreflight c inst q = .ok a) :
    inst.state = .ready ∧ c.hostCallbackDepth = 0 ∧ c.activeHostInstance = none ∧
      ∃ options, q.options = some options ∧ a.budget = callBudgetInit inst.limits options := by
  unfold callPreflight at h
  split at h
  · cases h
  split at h
  · cases h
  rename_i hn
  simp only [ne_eq, not_or, not_not] at hn
  obtain ⟨hst, hd, ha⟩ := hn
  split at h
  · cases h
  rename_i options ho
  refine ⟨hst, hd, ha, options, ho, ?_⟩
  split at h
  · cases h
  split at h
  · cases h
  split at h
  · cases h
  split at h
  · cases h
  split at h
  · cases h
  split at h
  · cases h
  split at h
  · cases h
  · cases h
    rfl

structure Idle (inst : Instance) : Prop where
  state : inst.state = .ready ∨ inst.state = .faulted
  budget : inst.runtime.activeHostBudget = none
  safePoint : inst.runtime.safePointInstalled = false

/-- What holds when a call of the instance `i` has been admitted and its backend starts. -/
structure Admitted (c : Ctx) (i : Nat) (inst : Instance) (f : CallFrame) (c' : Ctx)
    (inst' : Instance) : Prop where
  ready : inst.state = .ready
  depth : c.hostCallbackDepth = 0
  idle : c.activeHostInstance = none
  frame : f.inst = i
  attached : f.budgetAttached = true
  same : ({ c.setInstance i inst' with activeHostInstance := some i } : Ctx).Same c'
  state : inst'.state = .calling
  diagnostic : inst'.diagnostic = none
  ledger : ∃ options, f.ledger = Ledger.start (callBudgetInit inst.limits options) ∧
    inst'.runtime.activeHostBudget = some (callBudgetInit inst.limits options)

/-- A request that passed the checks is admitted: the state check of `beginCall` repeats one
    of them, and an idle runtime takes the budget. -/
theorem admitCall_spec {r : Nat} {a : Admission} (stored : Status) {options : CallOptions}
    (hst : inst.state = .ready) (hd : c.hostCallbackDepth = 0) (ha : c.activeHostInstance = none)
    (hbudget : a.budget = callBudgetInit inst.limits options)
    (hb : inst.runtime.activeHostBudget = none) (hsp : inst.runtime.safePointInstalled = false) :
    ∃ f c' inst', admitCall c i r inst a stored = (.running f, c') ∧
      Admitted c i inst f c' inst' := by
  unfold admitCall
  dsimp only
  rw [beginCall_ready (setInstance_get c i (inst.applyLimits a.budget)) hst hd ha]
  dsimp only
  simp only [setInstance_get]
  have hatt : callBudgetAttach ((inst.applyLimits a.budget).clearForCall).runtime a.budget =
      (.ok, { ((inst.applyLimits a.budget).clearForCall).runtime with
              activeHostBudget := some a.budget, safePointInstalled := true }) :=
    if_neg (by simp [Instance.clearForCall, Instance.applyLimits, hb, hsp])
  rw [hatt]
  refine ⟨_, _, { (inst.applyLimits a.budget).clearForCall with
      state := .calling
      runtime := { ((inst.applyLimits a.budget).clearForCall).runtime with
                   activeHostBudget := some a.budget, safePointInstalled := true } }, rfl, ?_⟩
  refine ⟨hst, hd, ha, rfl, rfl, ⟨?_, rfl, rfl, rfl⟩, rfl, rfl, options, ?_, ?_⟩
  · simp only [Ctx.setInstance, Function.update_idem]
  · rw [hbudget]
  · rw [hbudget]

/-- **The beginning of a call** of an instance that is idle when READY: it is
    rejected and nothing but results changed, or it is admitted. -/
theorem instanceCallBegin_spec (ownerThread : Bool) (q : CallRequest) (result : ResultArg)
    (stored : Status) (hidle : inst.state = .ready → Idle inst) :
    (∃ status c', instanceCallBegin c ownerThread i inst q result stored = (.rejected status, c') ∧
        status ≠ .ok ∧ c.Same c') ∨
      ∃ f c' inst', instanceCallBegin c ownerThread i inst q result stored = (.running f, c') ∧
        Admitted c i inst f c' inst' := by
  have hbegin := same_instanceBegin c ownerThread inst.module result .call stored
  unfold instanceCallBegin
  revert hbegin
  rcases hr : instanceBegin c ownerThread inst.module result .call stored with ⟨st, c₁⟩
  intro (hbegin : c.Same c₁)
  by_cases hok : st = .ok
  swap
  · refine .inl ⟨st, c₁, ?_, hok, hbegin⟩
    cases st with
    | ok => exact absurd rfl hok
    | _ => rfl
  subst hok
  cases result with
  | null | foreign => simp only [instanceBegin] at hr; split at hr <;> cases hr
  | own r =>
    dsimp only
    cases hp : callPreflight c₁ inst q with
    | error e =>
      obtain ⟨status, functionName, message⟩ := e
      exact .inl ⟨status, _, rfl, callPreflight_error hp, hbegin.trans (same_instanceFail ..)⟩
    | ok a =>
      obtain ⟨hst, hd, ha, options, -, hbudget⟩ := callPreflight_ok hp
      obtain ⟨f, c', inst', heq, had⟩ := @admitCall_spec c₁ i inst r a stored options hst hd ha
        hbudget (hidle hst).budget (hidle hst).safePoint
      refine .inr ⟨f, c', inst', heq, { had with depth := ?_, idle := ?_, same := ?_ }⟩
      · rw [← hd]; exact hbegin.depth.symm
      · rw [← ha]; exact hbegin.active.symm
      · have hs : ({ c.setInstance i inst' with activeHostInstance := some i } : Ctx).Same
            { c₁.setInstance i inst' with activeHostInstance := some i } :=
          ⟨by simp only [Ctx.setInstance, hbegin.instances], rfl, hbegin.depth, hbegin.next⟩
        exact hs.trans had.same

/-! ## Creation, destruction, resolution -/

theorem instanceBegin_ok {ownerThread : Bool} {m : Module} {result : ResultArg} {phase : Phase}
    {stored : Status} (h : instanceBegin c ownerThread m result phase stored = (.ok, c')) :
    ∃ r, result = .own r := by
  cases result with
  | own r => exact ⟨r, rfl⟩
  | null | foreign => simp only [instanceBegin] at h; split at h <;> cases h

theorem instanceDestroy_spec (ownerThread : Bool) (result : ResultArg) (stored : Status) :
    c.Same (instanceDestroy c ownerThread i inst result stored).2 ∨
      ((inst.state = .ready ∨ inst.state = .faulted) ∧
        ({ c with instances := Function.update c.instances i none } : Ctx).Same
          (instanceDestroy c ownerThread i inst result stored).2) := by
  have hbegin := same_instanceBegin c ownerThread inst.module result .none stored
  unfold instanceDestroy
  revert hbegin
  rcases hr : instanceBegin c ownerThread inst.module result .none stored with ⟨st, c₁⟩
  intro (hbegin : c.Same c₁)
  by_cases hok : st = .ok
  · subst hok
    obtain ⟨r, rfl⟩ := instanceBegin_ok hr
    dsimp only
    split
    · exact .inl (hbegin.trans (same_instanceFail ..))
    · rename_i hn
      refine .inr ⟨by tauto, ⟨?_, hbegin.active, hbegin.depth, hbegin.next⟩⟩
      dsimp only
      rw [hbegin.instances]
  · refine .inl ?_
    cases st with
    | ok => exact absurd rfl hok
    | _ => exact hbegin

theorem same_instanceResolveExport (c : Ctx) (ownerThread : Bool) (inst : Instance)
    (name : String) (result : ResultArg) (outPresent : Bool) (stored : Status) :
    c.Same (instanceResolveExport c ownerThread inst name result outPresent stored).2.2 := by
  have hbegin := same_instanceBegin c ownerThread inst.module result .resolve stored
  unfold instanceResolveExport
  revert hbegin
  rcases hr : instanceBegin c ownerThread inst.module result .resolve stored with ⟨st, c₁⟩
  intro (hbegin : c.Same c₁)
  by_cases hok : st = .ok
  · subst hok
    obtain ⟨r, rfl⟩ := instanceBegin_ok hr
    dsimp only
    split
    · exact hbegin.trans (same_instanceFail ..)
    split
    · exact hbegin.trans (same_instanceFail ..)
    split
    · exact hbegin.trans (same_instanceFail ..)
    split
    · exact hbegin.trans (same_instanceFail ..)
    · exact hbegin
  · cases st with
    | ok => exact absurd rfl hok
    | _ => exact hbegin

theorem instanceCreateBegin_spec (c : Ctx) (ownerThread : Bool) (m : Module)
    (options : Option InstanceOptions) (result : ResultArg) (outPresent allocated : Bool)
    (runtimeCreated stored : Status) :
    c.Same (instanceCreateBegin c ownerThread m options result outPresent allocated runtimeCreated
        stored).2 ∧
      ∀ f, (instanceCreateBegin c ownerThread m options result outPresent allocated runtimeCreated
        stored).1 = .running f → Idle f.pending ∧ f.pending.diagnostic = none := by
  unfold instanceCreateBegin
  split
  · exact ⟨.rfl, fun f h => by cases h⟩
  cases result with
  | null | foreign => exact ⟨.rfl, fun f h => by cases h⟩
  | own r =>
    have hfail : ∀ (status : Status) (message : String),
        c.Same (instanceFail (c.setResult r resultClear) r m status .instantiate "" message
          stored).2 := fun _ _ => (same_setResult ..).trans (same_instanceFail ..)
    dsimp only
    split
    · exact ⟨hfail .., fun f h => by cases h⟩
    split
    · exact ⟨hfail .., fun f h => by cases h⟩
    cases options with
    | none => exact ⟨hfail .., fun f h => by cases h⟩
    | some o =>
      dsimp only
      split
      · exact ⟨hfail .., fun f h => by cases h⟩
      split
      · exact ⟨hfail .., fun f h => by cases h⟩
      split
      · exact ⟨hfail .., fun f h => by cases h⟩
      split
      · exact ⟨hfail .., fun f h => by cases h⟩
      · refine ⟨same_setResult .., ?_⟩
        intro f h
        cases h
        exact ⟨⟨.inl rfl, rfl, rfl⟩, rfl⟩

theorem instanceCreateEnd_spec (c : Ctx) (f : CreateFrame) (o : InitOutcome) :
    c.Same (instanceCreateEnd c f o).2 ∨
      ∃ g, ({ c.setInstance c.nextInstance { f.pending with generation := g } with
          nextInstance := c.nextInstance + 1 } : Ctx).Same (instanceCreateEnd c f o).2 := by
  unfold instanceCreateEnd
  split
  · exact .inl (same_instanceFail ..)
  split
  · exact .inl (same_instanceFail ..)
  split
  · exact .inl (same_instanceFail ..)
  · exact .inr ⟨_, ⟨rfl, rfl, rfl, rfl⟩⟩

end TurboScript.Host
