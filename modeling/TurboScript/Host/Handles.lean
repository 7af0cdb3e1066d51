import TurboScript.Host.Boundary

/- Export handles: the generation of an instance above the export slot plus one.

   `turbo_script_instance_create` checks the generation counter before the initializer runs
   and takes the generation from it afterwards; callbacks of the initializer may create
   instances in between. Generations are positive, below the counter and distinct, as long as
   what is published finds the counter within 32 bits (`Generations`); then what one instance
   encodes no other one decodes. -/
namespace TurboScript.Host
open Lib Function

/-- Nothing is created: the counters stay, and every instance that is left was there before, with
this generation and this module. -/
structure Kept (c c' : Ctx) : Prop where
  next : c'.nextInstance = c.nextInstance
  generation : c'.nextInstanceGeneration = c.nextInstanceGeneration
  instances : ∀ a inst', c'.instances a = some inst' → ∃ inst, c.instances a = some inst ∧
    inst'.generation = inst.generation ∧ inst'.module = inst.module

theorem Kept.rfl {c : Ctx} : Kept c c := ⟨Eq.refl _, Eq.refl _, fun _ inst h => ⟨inst, h, Eq.refl _, Eq.refl _⟩⟩

theorem Kept.trans {c₁ c₂ c₃ : Ctx} (h : Kept c₁ c₂) (h' : Kept c₂ c₃) : Kept c₁ c₃ := by
  refine ⟨h'.next.trans h.next, h'.generation.trans h.generation, fun a inst₃ h₃ => ?_⟩
  obtain ⟨inst₂, h₂, hg, hm⟩ := h'.instances a inst₃ h₃
  obtain ⟨inst₁, h₁, hg', hm'⟩ := h.instances a inst₂ h₂
  exact ⟨inst₁, h₁, hg.trans hg', hm.trans hm'⟩

section Kept
variable {c c' : Ctx} {i : Nat} {inst inst' : Instance}

theorem Kept.of_eq (hn : c'.nextInstance = c.nextInstance)
    (hg : c'.nextInstanceGeneration = c.nextInstanceGeneration)
    (hi : c'.instances = c.instances) : Kept c c' :=
  ⟨hn, hg, fun _ inst h => ⟨inst, hi ▸ h, Eq.refl _, Eq.refl _⟩⟩

theorem Kept.setInstance (h : c.instances i = some inst)
    (hg : inst'.generation = inst.generation) (hm : inst'.module = inst.module) :
    Kept c (c.setInstance i inst') := by
  refine ⟨Eq.refl _, Eq.refl _, fun a inst₂ h₂ => ?_⟩
  by_cases ha : a = i
  · subst ha
    have heq : inst' = inst₂ := Option.some.inj ((setInstance_get ..).symm.trans h₂)
    subst heq
    exact ⟨inst, h, hg, hm⟩
  · exact ⟨inst₂, (setInstance_get_ne c inst' ha).symm.trans h₂, Eq.refl _, Eq.refl _⟩

theorem Kept.remove : Kept c { c with instances := update c.instances i none } := by
  refine ⟨Eq.refl _, Eq.refl _, fun a inst₂ h₂ => ?_⟩
  have h₂ : update c.instances i none a = some inst₂ := h₂
  by_cases ha : a = i
  · rw [ha, update_self] at h₂
    cases h₂
  · rw [update_of_ne ha] at h₂
    exact ⟨inst₂, h₂, Eq.refl _, Eq.refl _⟩

theorem kept_setResult (c : Ctx) (r : Nat) (o : ResultObj) : Kept c (c.setResult r o) :=
  .of_eq (Eq.refl _) (Eq.refl _) (Eq.refl _)

theorem kept_resultSetError (c : Ctx) (r : Nat) (e : ErrorInfo) (stored : Status) :
    Kept c (resultSetError c r e stored).2 := by
  unfold resultSetError
  split
  · exact kept_setResult ..
  · exact kept_setResult ..

theorem kept_resultStore (c : Ctx) (r : Nat) (stored : Status) : Kept c (resultStore c r stored).2 := by
  unfold resultStore
  split
  · exact kept_setResult ..
  · exact kept_setResult ..

theorem kept_instanceFail (c : Ctx) (r : Nat) (m : Module) (status : Status) (phase : Phase)
    (functionName message : String) (stored : Status) :
    Kept c (instanceFail c r m status phase functionName message stored).2 :=
  kept_resultSetError ..

theorem kept_instanceBegin (c : Ctx) (ownerThread : Bool) (m : Module) (result : ResultArg)
    (phase : Phase) (stored : Status) :
    Kept c (instanceBegin c ownerThread m result phase stored).2 := by
  unfold instanceBegin
  split
  · exact .rfl
  · cases result with
    | null | foreign => exact .rfl
    | own r =>
      dsimp only
      split
      · exact (kept_setResult c r resultClear).trans (kept_instanceFail ..)
      · exact kept_setResult c r resultClear

theorem kept_beginCall (c : Ctx) (i : Nat) : Kept c (beginCall c i).2 := by
  unfold beginCall
  split
  · exact .rfl
  · rename_i inst hi
    split
    · exact .rfl
    · split
      · exact .rfl
      · have hset : Kept c (c.setInstance i { inst.clearForCall with state := .calling }) :=
          .setInstance hi (Eq.refl _) (Eq.refl _)
        exact hset.trans (.of_eq (Eq.refl _) (Eq.refl _) (Eq.refl _))

theorem kept_enterCallback (c : Ctx) : Kept c (enterCallback c).2.2 := by
  unfold enterCallback
  split
  · exact .rfl
  · split
    · exact .of_eq (Eq.refl _) (Eq.refl _) (Eq.refl _)
    · split
      · exact .of_eq (Eq.refl _) (Eq.refl _) (Eq.refl _)
      · rename_i a inst hi
        split
        · exact .rfl
        · have hset : Kept c (c.setInstance _ { inst with state := .callingHost }) :=
            .setInstance hi (Eq.refl _) (Eq.refl _)
          exact hset.trans (.of_eq (Eq.refl _) (Eq.refl _) (Eq.refl _))

theorem kept_leaveCallback (c : Ctx) (active : Option Nat) : Kept c (leaveCallback c active) := by
  unfold leaveCallback
  split
  · exact .rfl
  · split
    · exact .of_eq (Eq.refl _) (Eq.refl _) (Eq.refl _)
    · split
      · exact .of_eq (Eq.refl _) (Eq.refl _) (Eq.refl _)
      · rename_i a inst hi
        split
        · have hset : Kept c (c.setInstance _ { inst with state := .calling }) :=
            .setInstance hi (Eq.refl _) (Eq.refl _)
          exact hset.trans (.of_eq (Eq.refl _) (Eq.refl _) (Eq.refl _))
        · exact .of_eq (Eq.refl _) (Eq.refl _) (Eq.refl _)

theorem kept_finishCall (c : Ctx) (i : Nat) (status : Status) : Kept c (finishCall c i status).2 := by
  unfold finishCall
  split
  · exact .rfl
  · rename_i inst hi
    split
    · dsimp only
      split
      · have hclear : Kept c { c with activeHostInstance := none } :=
          .of_eq (Eq.refl _) (Eq.refl _) (Eq.refl _)
        exact hclear.trans (.setInstance hi (Eq.refl _) (Eq.refl _))
      · exact .setInstance hi (Eq.refl _) (Eq.refl _)
    · have hset : Kept c (c.setInstance i
          { inst with state := if status = .ok then .ready else .faulted }) :=
        .setInstance hi (Eq.refl _) (Eq.refl _)
      exact hset.trans (.of_eq (Eq.refl _) (Eq.refl _) (Eq.refl _))

theorem kept_runtimeThrow (c : Ctx) (status : Status) (functionName message : String) :
    Kept c (runtimeThrow c status functionName message) := by
  unfold runtimeThrow
  split
  · exact .rfl
  · split
    · exact .rfl
    · rename_i hi
      exact .setInstance hi (Eq.refl _) (Eq.refl _)

theorem kept_publishExecutionError (c : Ctx) (f : CallFrame) (status : Status) (phase : Phase)
    (message : String) (stored : Status) :
    Kept c (publishExecutionError c f status phase message stored).2 := by
  unfold publishExecutionError
  split
  · exact .rfl
  · rename_i inst hi
    dsimp only
    refine (kept_resultSetError c f.result _ stored).trans
      (Kept.setInstance (?_ : _ = some inst) (Eq.refl _) (Eq.refl _))
    unfold resultSetError
    split
    · exact hi
    · exact hi

theorem kept_finished {p : Status × Ctx} (hp : Kept c p.2) (f : CallFrame) (status : Status)
    (phase : Phase) (message : String) (stored : Status) :
    Kept c (if status = .ok then
      match p.2.instances f.inst with
      | none => (Status.ok, p.2)
      | some inst => (Status.ok, p.2.setInstance f.inst { inst with diagnostic := none })
    else publishExecutionError p.2 f status phase message stored).2 := by
  split
  · split
    · exact hp
    · rename_i hi
      exact hp.trans (.setInstance hi (Eq.refl _) (Eq.refl _))
  · exact hp.trans (kept_publishExecutionError ..)

theorem kept_callFinish (c : Ctx) (f : CallFrame) (status : Status) (phase : Phase)
    (message : String) (stored : Status) :
    Kept c (callFinish c f status phase message stored).2 := by
  unfold callFinish
  split
  · exact .rfl
  · rename_i inst hi
    have hfinish : ∀ inst' : Instance, inst'.generation = inst.generation → inst'.module = inst.module →
        Kept c (finishCall (c.setInstance f.inst inst') f.inst status).2 :=
      fun inst' hg hm => (Kept.setInstance hi hg hm).trans (kept_finishCall ..)
    by_cases hb : f.budgetAttached = true
    · simp only [hb, if_true]
      have hdone := hfinish (Instance.restoreLimits { inst with runtime := callBudgetDetach inst.runtime } f)
        (Eq.refl _) (Eq.refl _)
      exact kept_finished hdone f _ phase message stored
    · simp only [hb]
      have hdone := hfinish (inst.restoreLimits f) (Eq.refl _) (Eq.refl _)
      exact kept_finished hdone f _ phase message stored

theorem kept_admitCall (c : Ctx) (i r : Nat) (inst : Instance) (a : Admission) (stored : Status)
    (hi : c.instances i = some inst) : Kept c (admitCall c i r inst a stored).2 := by
  have hset : Kept c (c.setInstance i (inst.applyLimits a.budget)) :=
    .setInstance hi (Eq.refl _) (Eq.refl _)
  have hlimits := hset.trans (kept_beginCall (c.setInstance i (inst.applyLimits a.budget)) i)
  unfold admitCall
  dsimp only
  split
  · rename_i c' hb
    rw [hb] at hlimits
    split
    · exact hlimits
    · rename_i inst' hi'
      split
      · exact hlimits.trans (.setInstance hi' (Eq.refl _) (Eq.refl _))
      · exact hlimits.trans (kept_callFinish ..)
  · rename_i status c' hne hb
    rw [hb] at hlimits
    have hget : (c.setInstance i (inst.applyLimits a.budget)).instances i =
        some (inst.applyLimits a.budget) := setInstance_get ..
    have hback : Kept c (c'.setInstance i inst) := by
      -- `beginCall` has failed and left the instance with the limits of the call.
      have hsame : c'.instances i = some (inst.applyLimits a.budget) := by
        unfold beginCall at hb
        rw [hget] at hb
        dsimp only at hb
        split at hb
        · cases hb
          exact hget
        · split at hb
          · cases hb
            exact hget
          · exact absurd (Prod.mk.inj hb).1.symm hne
      exact hlimits.trans (.setInstance hsame (Eq.refl _) (Eq.refl _))
    exact hback.trans (kept_instanceFail ..)

theorem kept_instanceCallBegin (c : Ctx) (ownerThread : Bool) (i : Nat) (inst : Instance)
    (q : CallRequest) (result : ResultArg) (stored : Status) (hi : c.instances i = some inst) :
    Kept c (instanceCallBegin c ownerThread i inst q result stored).2 := by
  have hbegin := kept_instanceBegin c ownerThread inst.module result .call stored
  unfold instanceCallBegin
  split
  · rename_i c' r hb
    rw [hb] at hbegin
    split
    · exact hbegin.trans (kept_instanceFail ..)
    · have hi' : c'.instances i = some inst := by
        have hsame := (same_instanceBegin c ownerThread inst.module (.own r) .call stored).instances
        rw [hb] at hsame
        rw [show c'.instances = c.instances from hsame, hi]
      exact hbegin.trans (kept_admitCall _ _ _ _ _ _ hi')
  · rename_i status c' hne hb
    rw [hb] at hbegin
    exact hbegin

theorem kept_instanceCallEnd (c : Ctx) (f : CallFrame) (o : BackendOutcome) :
    Kept c (instanceCallEnd c f o).2 := by
  unfold instanceCallEnd
  split
  · exact .rfl
  · rename_i inst hi
    have hset : ∀ rt : RuntimeCtx, Kept c (c.setInstance f.inst { inst with runtime := rt }) :=
      fun rt => .setInstance hi (Eq.refl _) (Eq.refl _)
    have hstore := same_resultStore (c.setInstance f.inst
      { inst with runtime := { inst.runtime with envErrorMsg := o.envErrorMsg } }) f.result
      o.valueStored
    have hkept := (hset _).trans (kept_resultStore (c.setInstance f.inst
      { inst with runtime := { inst.runtime with envErrorMsg := o.envErrorMsg } }) f.result
      o.valueStored)
    dsimp only
    split
    · split
      · exact (hset _).trans (kept_callFinish ..)
      · split
        · exact (hset _).trans (kept_callFinish ..)
        · exact (hset _).trans (kept_callFinish ..)
    · split
      · rename_i c' hs
        rw [hs] at hstore hkept
        have hi' : c'.instances f.inst =
            some { inst with runtime := { inst.runtime with envErrorMsg := o.envErrorMsg } } := by
          rw [show c'.instances = _ from hstore.instances, setInstance_get]
        have hrt : ∀ rt : RuntimeCtx, Kept c (c'.setInstance f.inst { inst with runtime := rt }) :=
          fun rt => hkept.trans (.setInstance hi' (Eq.refl _) (Eq.refl _))
        split
        · exact (hrt _).trans (kept_callFinish ..)
        · exact (hrt _).trans (kept_callFinish ..)
      · rename_i status c' hs
        rw [hs] at hkept
        exact hkept.trans (kept_callFinish ..)

theorem kept_instanceDestroy (c : Ctx) (ownerThread : Bool) (i : Nat) (inst : Instance)
    (result : ResultArg) (stored : Status) :
    Kept c (instanceDestroy c ownerThread i inst result stored).2 := by
  have hbegin := kept_instanceBegin c ownerThread inst.module result .none stored
  unfold instanceDestroy
  split
  · rename_i c' r hb
    rw [hb] at hbegin
    split
    · exact hbegin.trans (kept_instanceFail ..)
    · exact hbegin.trans .remove
  · rename_i status c' hne hb
    rw [hb] at hbegin
    exact hbegin

theorem kept_instanceResolveExport (c : Ctx) (ownerThread : Bool) (inst : Instance) (name : String)
    (result : ResultArg) (outPresent : Bool) (stored : Status) :
    Kept c (instanceResolveExport c ownerThread inst name result outPresent stored).2.2 := by
  have hbegin := kept_instanceBegin c ownerThread inst.module result .resolve stored
  unfold instanceResolveExport
  split
  · rename_i c' r hb
    rw [hb] at hbegin
    split
    · exact hbegin.trans (kept_instanceFail ..)
    · split
      · exact hbegin.trans (kept_instanceFail ..)
      · split
        · exact hbegin.trans (kept_instanceFail ..)
        · split
          · exact hbegin.trans (kept_instanceFail ..)
          · exact hbegin
  · rename_i status c' hne hb
    rw [hb] at hbegin
    exact hbegin

theorem instanceCreateBegin_kept (c : Ctx) (ownerThread : Bool) (m : Module)
    (options : Option InstanceOptions) (result : ResultArg) (outPresent allocated : Bool)
    (runtimeCreated stored : Status) :
    Kept c (instanceCreateBegin c ownerThread m options result outPresent allocated runtimeCreated
        stored).2 ∧
      ∀ f, (instanceCreateBegin c ownerThread m options result outPresent allocated runtimeCreated
        stored).1 = .running f → 0 < c.nextInstanceGeneration := by
  unfold instanceCreateBegin
  split
  · exact ⟨.rfl, fun f h => nomatch h⟩
  · cases result with
    | null | foreign => exact ⟨.rfl, fun f h => nomatch h⟩
    | own r =>
      have hclear := kept_setResult c r resultClear
      have hfail : ∀ status message, Kept c (instanceFail (c.setResult r resultClear) r m status
          .instantiate "" message stored).2 := fun status message => hclear.trans (kept_instanceFail ..)
      dsimp only
      split
      · exact ⟨hfail .., fun f h => nomatch h⟩
      · split
        · exact ⟨hfail .., fun f h => nomatch h⟩
        · split
          · exact ⟨hfail .., fun f h => nomatch h⟩
          · split
            · exact ⟨hfail .., fun f h => nomatch h⟩
            · split
              · exact ⟨hfail .., fun f h => nomatch h⟩
              · rename_i hgen
                split
                · exact ⟨hfail .., fun f h => nomatch h⟩
                · split
                  · exact ⟨hfail .., fun f h => nomatch h⟩
                  · refine ⟨hclear, fun f _ => ?_⟩
                    have hne : c.nextInstanceGeneration ≠ 0 := fun h => hgen (.inl h)
                    exact Nat.pos_of_ne_zero hne

theorem kept_raiseSafePoint (c : Ctx) (f : CallFrame) (kind : SafePointKind) (cost : Nat)
    (poll : Bool) : Kept c (raiseSafePoint c f kind cost poll).2.1 := by
  unfold raiseSafePoint
  split
  · exact .rfl
  · rename_i hi
    exact .setInstance hi (Eq.refl _) (Eq.refl _)

theorem kept_raiseOnTop (c : Ctx) (stack : List Frame) (kind : SafePointKind) (cost : Nat)
    (poll : Bool) : Kept c (raiseOnTop c stack kind cost poll).2.1 := by
  unfold raiseOnTop
  split
  · exact kept_raiseSafePoint ..
  · exact .rfl

theorem kept_callbackBegin (c : Ctx) (stack : List Frame) (ownerThread : Bool)
    (functionName : String) (adaptation : Adaptation) (poll : Bool) :
    Kept c (callbackBegin c stack ownerThread functionName adaptation poll).1 := by
  have hraise := kept_raiseOnTop c stack .callbackBefore 1 poll
  unfold callbackBegin
  split
  · exact kept_runtimeThrow ..
  · split
    · exact kept_runtimeThrow ..
    · split
      · rename_i c' stack' hr
        rw [hr] at hraise
        exact hraise
      · rename_i c' stack' hr
        rw [hr] at hraise
        have henter := hraise.trans (kept_enterCallback c')
        split
        · rename_i active c'' he
          rw [he] at henter
          exact henter
        · rename_i status active c'' hne he
          rw [he] at henter
          exact henter.trans (kept_runtimeThrow ..)

theorem kept_callbackEnd (c : Ctx) (active : Option Nat) (stack : List Frame)
    (functionName : String) (r : CallbackResult) (poll : Bool) :
    Kept c (callbackEnd c active stack functionName r poll).1 := by
  have hleave := kept_leaveCallback c active
  unfold callbackEnd
  dsimp only
  split
  · exact hleave.trans (kept_raiseOnTop ..)
  · split
    · exact hleave.trans (kept_runtimeThrow ..)
    · split
      · exact hleave.trans (kept_runtimeThrow ..)
      · split
        · exact hleave.trans (kept_runtimeThrow ..)
        · exact hleave.trans (kept_runtimeThrow ..)

end Kept

/-! ## What a step creates -/

/-- An initializer that leaves nothing to object to: its instance is published. -/
def Publishes (f : CreateFrame) (o : InitOutcome) : Prop :=
  o.initialized = .ok ∧ o.exportsBound = .ok ∧ o.retainedBytes ≤ f.pending.limits.maxRetainedBytes

instance (f : CreateFrame) (o : InitOutcome) : Decidable (Publishes f o) :=
  inferInstanceAs (Decidable (_ ∧ _ ∧ _))

structure Created (c c' : Ctx) : Prop where
  next : c'.nextInstance = c.nextInstance + 1
  generation : c'.nextInstanceGeneration = c.nextInstanceGeneration + 1
  instances : ∃ inst, inst.generation = c.nextInstanceGeneration % 2 ^ 32 ∧
    c'.instances = update c.instances c.nextInstance (some inst)

variable {c c' : Ctx} {s s' : HostState} {i : Input} {o : Response}

theorem instanceCreateEnd_created (c : Ctx) (f : CreateFrame) (o : InitOutcome) :
    Kept c (instanceCreateEnd c f o).2 ∨ Publishes f o ∧ Created c (instanceCreateEnd c f o).2 := by
  unfold instanceCreateEnd
  split
  · exact .inl (kept_instanceFail ..)
  · rename_i hinit
    split
    · exact .inl (kept_instanceFail ..)
    · rename_i hbound
      split
      · exact .inl (kept_instanceFail ..)
      · rename_i hretained
        refine .inr ⟨⟨not_not.mp hinit, not_not.mp hbound, Nat.not_lt.mp hretained⟩, ?_⟩
        exact ⟨Eq.refl _, Eq.refl _, _, Eq.refl _, Eq.refl _⟩

/-- The creations in progress, whose checks have seen a counter. -/
def Started (s : HostState) : Prop :=
  ∀ f, Frame.create f ∈ s.stack → 0 < s.ctx.nextInstanceGeneration

theorem Started.kept {stack : List Frame} (h : Started s) (hk : Kept s.ctx c')
    (hstack : ∀ f, Frame.create f ∈ stack → Frame.create f ∈ s.stack) : Started ⟨c', stack⟩ := by
  intro f hf
  show 0 < c'.nextInstanceGeneration
  rw [hk.generation]
  exact h f (hstack f hf)

theorem hostStep_kept (h : Started s) (hs : hostStep s i = some (s', o)) :
    Kept s.ctx s'.ctx ∧ Started s' := by
  cases i with
  | create ownerThread m options result outPresent allocated runtimeCreated stored =>
    obtain ⟨hkept, hrunning⟩ := instanceCreateBegin_kept s.ctx ownerThread m options result
      outPresent allocated runtimeCreated stored
    simp only [hostStep] at hs
    split at hs
    · rename_i status c' hc
      rw [hc] at hkept
      cases hs
      exact ⟨hkept, h.kept hkept fun f hf => hf⟩
    · rename_i f c' hc
      rw [hc] at hkept hrunning
      cases hs
      refine ⟨hkept, fun g hg => ?_⟩
      show 0 < c'.nextInstanceGeneration
      rw [hkept.generation]
      exact hrunning f (Eq.refl _)
  | destroy ownerThread inst result stored =>
    simp only [hostStep] at hs
    split at hs
    · cases hs
      exact ⟨.rfl, h⟩
    · split at hs
      · cases hs
      · cases hs
        exact ⟨kept_instanceDestroy .., h.kept (kept_instanceDestroy ..) fun f hf => hf⟩
  | resolve ownerThread inst name result outPresent stored =>
    simp only [hostStep] at hs
    split at hs
    · cases hs
      exact ⟨.rfl, h⟩
    · split at hs
      · cases hs
      · cases hs
        exact ⟨kept_instanceResolveExport .., h.kept (kept_instanceResolveExport ..) fun f hf => hf⟩
  | call ownerThread inst q result stored =>
    simp only [hostStep] at hs
    split at hs
    · cases hs
      exact ⟨.rfl, h⟩
    · split at hs
      · cases hs
      · rename_i a _ inst hi
        have hkept := kept_instanceCallBegin s.ctx ownerThread a inst q result stored hi
        split at hs
        · rename_i hc
          rw [hc] at hkept
          cases hs
          exact ⟨hkept, h.kept hkept fun f hf => hf⟩
        · rename_i hc
          rw [hc] at hkept
          cases hs
          exact ⟨hkept, h.kept hkept fun f hf => hf⟩
        · rename_i hc
          rw [hc] at hkept
          cases hs
          refine ⟨hkept, h.kept hkept fun f hf => ?_⟩
          obtain hf | hf := List.mem_cons.mp hf
          · cases hf
          · exact hf
  | close =>
    cases hs
    have hkept : Kept s.ctx { s.ctx with closing := true } :=
      .of_eq (Eq.refl _) (Eq.refl _) (Eq.refl _)
    exact ⟨hkept, h.kept hkept fun f hf => hf⟩
  | callbackReturn | interruptReturn | safePoint | interruptPoll | callback | backendReturn
  | initializerReturn => cases hs

/-- The initializer of the instance on top has come back, and its instance is published. -/
def publishing (s : HostState) (i : Input) : Bool :=
  match s.stack, i with
  | .create f :: _, .initializerReturn o => decide (Publishes f o)
  | _, _ => false

theorem create_mem_raiseOnTop {stack : List Frame} {kind : SafePointKind} {cost : Nat}
    {poll : Bool} {f : CreateFrame}
    (hf : Frame.create f ∈ (raiseOnTop c stack kind cost poll).2.2) : Frame.create f ∈ stack := by
  unfold raiseOnTop at hf
  split at hf
  · obtain hf | hf := List.mem_cons.mp hf
    · cases hf
    · exact List.mem_cons_of_mem _ hf
  · exact hf

theorem create_mem_callbackBegin {stack : List Frame} {ownerThread : Bool} {functionName : String}
    {adaptation : Adaptation} {poll : Bool} {f : CreateFrame}
    (hf : Frame.create f ∈ (callbackBegin c stack ownerThread functionName adaptation poll).2) :
    Frame.create f ∈ stack := by
  have hraise : Frame.create f ∈ (raiseOnTop c stack .callbackBefore 1 poll).2.2 →
      Frame.create f ∈ stack := create_mem_raiseOnTop
  unfold callbackBegin at hf
  split at hf
  · exact hf
  · split at hf
    · exact hf
    · split at hf
      · rename_i c' stack' hr
        exact hraise (by rw [hr]; exact hf)
      · rename_i c' stack' hr
        split at hf
        · obtain hf | hf := List.mem_cons.mp hf
          · cases hf
          · exact hraise (by rw [hr]; exact hf)
        · exact hraise (by rw [hr]; exact hf)

theorem create_mem_callbackEnd {active : Option Nat} {rest : List Frame} {functionName : String}
    {r : CallbackResult} {poll : Bool} {f : CreateFrame}
    (hf : Frame.create f ∈ (callbackEnd c active rest functionName r poll).2) :
    Frame.create f ∈ rest := by
  unfold callbackEnd at hf
  dsimp only at hf
  split at hf
  · exact create_mem_raiseOnTop hf
  · split at hf
    · exact hf
    · split at hf
      · exact hf
      · split at hf
        · exact hf
        · exact hf

theorem step_creates (h : Started s) (hs : step s i = some (s', o)) :
    (Kept s.ctx s'.ctx ∨ publishing s i = true ∧ Created s.ctx s'.ctx) ∧ Started s' := by
  have hhost : hostStep s i = some (s', o) →
      (Kept s.ctx s'.ctx ∨ publishing s i = true ∧ Created s.ctx s'.ctx) ∧ Started s' := by
    intro hs
    obtain ⟨hkept, hstarted⟩ := hostStep_kept h hs
    exact ⟨.inl hkept, hstarted⟩
  obtain ⟨c, stack⟩ := s
  unfold step at hs
  dsimp only at hs
  split at hs
  · exact hhost hs
  · rename_i active functionName rest
    split at hs
    · cases hs
      refine ⟨.inl (kept_callbackEnd ..), h.kept (kept_callbackEnd ..) fun f hf => ?_⟩
      exact List.mem_cons_of_mem _ (create_mem_callbackEnd hf)
    · exact hhost hs
  · split at hs
    · cases hs
      exact ⟨.inl .rfl, h.kept .rfl fun f hf => List.mem_cons_of_mem _ hf⟩
    · exact hhost hs
  · rename_i f rest
    split at hs
    · split at hs
      · cases hs
        refine ⟨.inl (kept_raiseSafePoint ..), h.kept (kept_raiseSafePoint ..) fun g hg => ?_⟩
        obtain hg | hg := List.mem_cons.mp hg
        · cases hg
        · exact List.mem_cons_of_mem _ hg
      · cases hs
    · cases hs
      refine ⟨.inl .rfl, h.kept .rfl fun g hg => ?_⟩
      obtain hg | hg := List.mem_cons.mp hg
      · cases hg
      · exact hg
    · cases hs
      exact ⟨.inl (kept_callbackBegin ..),
        h.kept (kept_callbackBegin ..) fun g hg => create_mem_callbackBegin hg⟩
    · cases hs
      exact ⟨.inl (kept_instanceCallEnd ..),
        h.kept (kept_instanceCallEnd ..) fun g hg => List.mem_cons_of_mem _ hg⟩
    · cases hs
  · rename_i f rest
    split at hs
    · cases hs
      exact ⟨.inl (kept_callbackBegin ..),
        h.kept (kept_callbackBegin ..) fun g hg => create_mem_callbackBegin hg⟩
    · rename_i o'
      cases hs
      obtain hkept | ⟨hpub, hcreated⟩ := instanceCreateEnd_created c f o'
      · exact ⟨.inl hkept, h.kept hkept fun g hg => List.mem_cons_of_mem _ hg⟩
      · refine ⟨.inr ⟨decide_eq_true hpub, hcreated⟩, fun g _ => ?_⟩
        show 0 < (instanceCreateEnd c f o').2.nextInstanceGeneration
        rw [hcreated.generation]
        exact Nat.succ_pos _
    · cases hs

/-! ## Generations -/

/-- What is published finds the counter within 32 bits still. -/
def InTime (s : HostState) (i : Input) : Prop :=
  publishing s i = true → s.ctx.nextInstanceGeneration ≤ u32Max

instance (s : HostState) (i : Input) : Decidable (InTime s i) :=
  inferInstanceAs (Decidable (_ → _))

def AllInTime : HostState → List Input → Prop
  | _, [] => True
  | s, i :: is => InTime s i ∧ ∀ r ∈ step s i, AllInTime r.1 is

instance decidableAllInTime : (s : HostState) → (is : List Input) → Decidable (AllInTime s is)
  | _, [] => inferInstanceAs (Decidable True)
  | s, i :: is =>
    have := fun s => decidableAllInTime s is
    inferInstanceAs (Decidable (InTime s i ∧ ∀ r ∈ step s i, AllInTime r.1 is))

/-- Generations of the live instances are 32-bit, not zero, below the counter and distinct. -/
structure Generations (s : HostState) : Prop where
  started : Started s
  fresh : ∀ a inst, s.ctx.instances a = some inst → a < s.ctx.nextInstance
  range : ∀ a inst, s.ctx.instances a = some inst →
    0 < inst.generation ∧ inst.generation ≤ u32Max ∧ inst.generation < s.ctx.nextInstanceGeneration
  distinct : ∀ a b inst inst', s.ctx.instances a = some inst → s.ctx.instances b = some inst' →
    a ≠ b → inst.generation ≠ inst'.generation

/-- Every instance of the second context is one of the first, or is newer than all of them. -/
structure Later (c c' : Ctx) : Prop where
  next : c.nextInstance ≤ c'.nextInstance
  generation : c.nextInstanceGeneration ≤ c'.nextInstanceGeneration
  instances : ∀ a inst', c'.instances a = some inst' →
    (∃ inst, c.instances a = some inst ∧ inst'.generation = inst.generation ∧ inst'.module = inst.module) ∨
    c.nextInstance ≤ a ∧ c.nextInstanceGeneration ≤ inst'.generation

theorem Later.refl (c : Ctx) : Later c c :=
  ⟨Nat.le_refl _, Nat.le_refl _, fun _ inst h => .inl ⟨inst, h, rfl, rfl⟩⟩

theorem Later.trans {c₁ c₂ c₃ : Ctx} (h : Later c₁ c₂) (h' : Later c₂ c₃) : Later c₁ c₃ := by
  refine ⟨Nat.le_trans h.next h'.next, Nat.le_trans h.generation h'.generation, ?_⟩
  intro a inst₃ h₃
  obtain ⟨inst₂, h₂, hg, hm⟩ | ⟨ha, hg⟩ := h'.instances a inst₃ h₃
  · obtain ⟨inst₁, h₁, hg', hm'⟩ | ⟨ha', hg'⟩ := h.instances a inst₂ h₂
    · exact .inl ⟨inst₁, h₁, hg.trans hg', hm.trans hm'⟩
    · rw [← hg] at hg'
      exact .inr ⟨ha', hg'⟩
  · exact .inr ⟨Nat.le_trans h.next ha, Nat.le_trans h.generation hg⟩

theorem Kept.later (h : Kept c c') : Later c c' :=
  ⟨Nat.le_of_eq h.next.symm, Nat.le_of_eq h.generation.symm,
    fun a inst' h' => .inl (h.instances a inst' h')⟩

theorem Started.of_publishing (h : Started s) (hp : publishing s i = true) :
    0 < s.ctx.nextInstanceGeneration := by
  unfold publishing at hp
  split at hp
  · rename_i f rest o hstack
    exact h f (by rw [hstack]; exact List.mem_cons_self ..)
  · cases hp

theorem Created.instance_of_inTime (h : Created c c') (ht : c.nextInstanceGeneration ≤ u32Max) :
    ∃ inst, inst.generation = c.nextInstanceGeneration ∧
      c'.instances = update c.instances c.nextInstance (some inst) := by
  obtain ⟨inst, hg, hi⟩ := h.instances
  have hlt : c.nextInstanceGeneration < 2 ^ 32 := Nat.lt_of_le_of_lt ht (by decide)
  exact ⟨inst, hg.trans (Nat.mod_eq_of_lt hlt), hi⟩

theorem Created.later (h : Created c c') (ht : c.nextInstanceGeneration ≤ u32Max) : Later c c' := by
  obtain ⟨inst, hg, hi⟩ := h.instance_of_inTime ht
  refine ⟨h.next ▸ Nat.le_succ _, h.generation ▸ Nat.le_succ _, fun a inst' h' => ?_⟩
  rw [hi] at h'
  by_cases ha : a = c.nextInstance
  · rw [ha, update_self] at h'
    cases h'
    exact .inr ⟨Nat.le_of_eq ha.symm, Nat.le_of_eq hg.symm⟩
  · rw [update_of_ne ha] at h'
    exact .inl ⟨inst', h', rfl, rfl⟩

theorem Generations.kept (h : Generations s) (hk : Kept s.ctx s'.ctx) (hs : Started s') :
    Generations s' := by
  refine ⟨hs, fun a inst ha => ?_, fun a inst ha => ?_, fun a b inst inst' ha hb hne => ?_⟩
  · obtain ⟨old, hold, -, -⟩ := hk.instances a inst ha
    rw [hk.next]
    exact h.fresh a old hold
  · obtain ⟨old, hold, hg, -⟩ := hk.instances a inst ha
    rw [hk.generation, hg]
    exact h.range a old hold
  · obtain ⟨old, hold, hg, -⟩ := hk.instances a inst ha
    obtain ⟨old', hold', hg', -⟩ := hk.instances b inst' hb
    rw [hg, hg']
    exact h.distinct a b old old' hold hold' hne

theorem Generations.created (h : Generations s) (hc : Created s.ctx s'.ctx) (hs : Started s')
    (hpos : 0 < s.ctx.nextInstanceGeneration) (ht : s.ctx.nextInstanceGeneration ≤ u32Max) :
    Generations s' := by
  obtain ⟨new, hg, hi⟩ := hc.instance_of_inTime ht
  have hcase : ∀ a inst, s'.ctx.instances a = some inst →
      (a = s.ctx.nextInstance ∧ inst.generation = s.ctx.nextInstanceGeneration) ∨
        a ≠ s.ctx.nextInstance ∧ s.ctx.instances a = some inst := by
    intro a inst ha
    rw [hi] at ha
    by_cases hnext : a = s.ctx.nextInstance
    · rw [hnext, update_self] at ha
      cases ha
      exact .inl ⟨hnext, hg⟩
    · rw [update_of_ne hnext] at ha
      exact .inr ⟨hnext, ha⟩
  refine ⟨hs, fun a inst ha => ?_, fun a inst ha => ?_, fun a b inst inst' ha hb hne => ?_⟩
  · rw [hc.next]
    obtain ⟨rfl, -⟩ | ⟨-, hold⟩ := hcase a inst ha
    · exact Nat.lt_succ_self _
    · exact Nat.lt_succ_of_lt (h.fresh a inst hold)
  · rw [hc.generation]
    obtain ⟨-, hgen⟩ | ⟨-, hold⟩ := hcase a inst ha
    · omega
    · have := h.range a inst hold
      omega
  · obtain ⟨hanew, hgen⟩ | ⟨-, hold⟩ := hcase a inst ha
    · obtain ⟨hbnew, -⟩ | ⟨-, hold'⟩ := hcase b inst' hb
      · exact absurd (hanew.trans hbnew.symm) hne
      · have := h.range b inst' hold'
        omega
    · obtain ⟨-, hgen'⟩ | ⟨-, hold'⟩ := hcase b inst' hb
      · have := h.range a inst hold
        omega
      · exact h.distinct a b inst inst' hold hold' hne

theorem Generations.step (h : Generations s) (ht : InTime s i)
    (hs : Host.step s i = some (s', o)) : Generations s' ∧ Later s.ctx s'.ctx := by
  obtain ⟨hkept | ⟨hpub, hcreated⟩, hstarted⟩ := step_creates h.started hs
  · exact ⟨h.kept hkept hstarted, hkept.later⟩
  · exact ⟨h.created hcreated hstarted (h.started.of_publishing hpub) (ht hpub), hcreated.later (ht hpub)⟩

theorem Generations.run (h : Generations s) {is : List Input} (ht : AllInTime s is)
    (hr : Lib.run Host.step s is = some s') : Generations s' ∧ Later s.ctx s'.ctx := by
  induction is generalizing s with
  | nil =>
    cases hr
    exact ⟨h, .refl _⟩
  | cons i is ih =>
    obtain ⟨t, o, hs, hr'⟩ := run_cons hr
    obtain ⟨hstep, hlater⟩ := h.step ht.1 hs
    obtain ⟨hend, hlater'⟩ := ih hstep (ht.2 (t, o) hs) hr'
    exact ⟨hend, hlater.trans hlater'⟩

def HostState.startingAt (generation : Nat) : HostState where
  ctx := { HostState.initial.ctx with nextInstanceGeneration := generation }
  stack := []

theorem Generations.startingAt (generation : Nat) : Generations (.startingAt generation) := by
  have hnone : ∀ a inst, (HostState.startingAt generation).ctx.instances a ≠ some inst := by
    intro a inst h
    cases h
  refine ⟨fun f hf => ?_, fun a inst h => absurd h (hnone a inst),
    fun a inst h => absurd h (hnone a inst), fun a b inst inst' h => absurd h (hnone a inst)⟩
  cases hf

/-! ## Handles -/

theorem exportHandle_halves {generation slot : Nat} (hg : generation ≤ u32Max) (hs : slot < u32Max) :
    exportHandle generation slot / 2 ^ 32 % 2 ^ 32 = generation ∧
      exportHandle generation slot % 2 ^ 32 = slot + 1 ∧ exportHandle generation slot ≠ 0 := by
  unfold exportHandle u32Max at *
  omega

theorem decodeHandle_exportHandle {inst : Instance} {generation slot : Nat}
    (hpos : 0 < generation) (hg : generation ≤ u32Max) (hs : slot < u32Max) :
    decodeHandle inst (exportHandle generation slot) =
      if generation = inst.generation ∧ slot < inst.module.exports.length then .ok slot
      else .error .invalidExportHandle := by
  obtain ⟨hhigh, hlow, hne⟩ := exportHandle_halves hg hs
  unfold decodeHandle
  rw [if_neg hne]
  dsimp only
  rw [hhigh, hlow]
  by_cases hown : generation = inst.generation ∧ slot < inst.module.exports.length
  · rw [if_pos hown, if_neg (by omega)]
    rfl
  · rw [if_neg hown, if_pos (by omega)]

theorem instanceResolveExport_ok {ownerThread : Bool} {inst : Instance} {name : String}
    {result : ResultArg} {outPresent : Bool} {stored : Status} {handle : Nat}
    (h : instanceResolveExport c ownerThread inst name result outPresent stored = (.ok, handle, c')) :
    ∃ slot, inst.module.exports.findIdx? (fun e => e.name == name) = some slot ∧
      slot < u32Max ∧ handle = exportHandle inst.generation slot := by
  unfold instanceResolveExport at h
  split at h
  · split at h
    · have hst : Status.invalidArgument = .ok := congrArg Prod.fst h
      cases hst
    · split at h
      · rename_i hname
        have hst : validateName name = .ok := congrArg Prod.fst h
        exact absurd hst hname
      · split at h
        · have hst : Status.notFound = .ok := congrArg Prod.fst h
          cases hst
        · rename_i slot hfind
          split at h
          · have hst : Status.limitExceeded = .ok := congrArg Prod.fst h
            cases hst
          · rename_i hslot
            obtain ⟨-, h⟩ := Prod.mk.inj h
            exact ⟨slot, hfind, Nat.not_le.mp hslot, (Prod.mk.inj h).1.symm⟩
  · rename_i status c₀ hne hb
    have hst : status = .ok := congrArg Prod.fst h
    rw [hst] at hb
    obtain ⟨r, hr⟩ := instanceBegin_ok hb
    exact (hne r hr hst).elim

/-- What holds of the instances of a context at two moments of a history. -/
structure HandlesApart (s t : HostState) : Prop where
  generation : ∀ a inst, t.ctx.instances a = some inst →
    0 < inst.generation ∧ inst.generation ≤ u32Max
  distinct : ∀ a b inst inst', s.ctx.instances a = some inst → t.ctx.instances b = some inst' →
    a ≠ b → inst.generation ≠ inst'.generation
  handles : ∀ a inst ownerThread name result outPresent stored handle c,
    s.ctx.instances a = some inst →
    instanceResolveExport s.ctx ownerThread inst name result outPresent stored = (.ok, handle, c) →
    ∃ slot, inst.module.exports.findIdx? (fun e => e.name == name) = some slot ∧
      ∀ b inst', t.ctx.instances b = some inst' →
        decodeHandle inst' handle = if a = b then .ok slot else .error .invalidExportHandle

/-- In every history whose creations are published while the counter is within 32 bits, a handle
that one instance gave out is good for its slot on this instance, and refused by every other
one. -/
theorem handles_never_cross (generation : Nat) (is js : List Input) (s t : HostState)
    (hs : run step (.startingAt generation) is = some s) (ht : run step s js = some t)
    (hin : AllInTime (.startingAt generation) is) (hin' : AllInTime s js) : HandlesApart s t := by
  obtain ⟨hgen, -⟩ := (Generations.startingAt generation).run hin hs
  obtain ⟨hgen', hlater⟩ := hgen.run hin' ht
  have hdistinct : ∀ a b inst inst', s.ctx.instances a = some inst →
      t.ctx.instances b = some inst' → a ≠ b → inst.generation ≠ inst'.generation := by
    intro a b inst inst' ha hb hne
    obtain ⟨old, hold, hg, -⟩ | ⟨-, hnew⟩ := hlater.instances b inst' hb
    · rw [hg]
      exact hgen.distinct a b inst old ha hold hne
    · have hlt := (hgen.range a inst ha).2.2
      omega
  refine ⟨?_, hdistinct, ?_⟩
  · intro a inst ha
    obtain ⟨hpos, hle, -⟩ := hgen'.range a inst ha
    exact ⟨hpos, hle⟩
  · intro a inst ownerThread name result outPresent stored handle c ha hres
    obtain ⟨slot, hfind, hslot, rfl⟩ := instanceResolveExport_ok hres
    refine ⟨slot, hfind, fun b inst' hb => ?_⟩
    obtain ⟨hpos, hle, -⟩ := hgen.range a inst ha
    rw [decodeHandle_exportHandle hpos hle hslot]
    by_cases hab : a = b
    · subst hab
      obtain ⟨old, hold, hg, hm⟩ | ⟨hnew, -⟩ := hlater.instances a inst' hb
      · rw [ha] at hold
        cases hold
        have hlen : slot < inst.module.exports.length :=
          (List.findIdx?_eq_some_iff_getElem.mp hfind).1
        rw [hg, hm, if_pos ⟨rfl, hlen⟩, if_pos rfl]
      · exact absurd (hgen.fresh a inst ha) (Nat.not_lt.mpr hnew)
    · rw [if_neg hab, if_neg fun h => hdistinct a b inst inst' ha hb hab h.1]

/-- An instance whose initializer calls back, and whose callback creates another instance of the
same module. -/
def nestedCreation : List Input :=
  let options : InstanceOptions := ⟨true, true, false, 1000, 1000, 8, 8, 8, true, 8, 100⟩
  let m : Module := ⟨"m", [⟨"f", 0⟩, ⟨"g", 1⟩], true⟩
  [.create true m (some options) (.own 0) true true .ok .ok,
   .callback true "host" .adapted false,
   .create true m (some options) (.own 1) true true .ok .ok,
   .initializerReturn ⟨.ok, .ok, 10, .ok⟩,
   .callbackReturn ⟨.ok, .value, .ok, ""⟩ false,
   .initializerReturn ⟨.ok, .ok, 10, .ok⟩]

theorem handles_never_cross_nested : ∃ s t, run step (.startingAt 1) nestedCreation = some s ∧
    run step s [.close] = some t ∧ HandlesApart s t := by
  refine ⟨_, _, rfl, rfl, ?_⟩
  exact handles_never_cross 1 nestedCreation [.close] _ _ rfl rfl (by decide +kernel) (by decide +kernel)

/-- With the counter at its last 32-bit value the inner instance takes it, and the outer one, checked
before its initializer ran, is published with generation 0. -/
theorem nested_creation_exhausts : ¬∀ (generation : Nat) (is js : List Input) (s t : HostState),
    run step (.startingAt generation) is = some s → run step s js = some t → HandlesApart s t := by
  intro h
  have hruns : (run step (.startingAt u32Max) nestedCreation).map
      (fun s => (s.ctx.instances 1).map Instance.generation) = some (some 0) := by
    decide +kernel
  obtain ⟨s, hs, hzero⟩ := Option.map_eq_some_iff.mp hruns
  obtain ⟨inst, hi, hg⟩ := Option.map_eq_some_iff.mp hzero
  have hpos := (h u32Max nestedCreation [] s s hs rfl).generation 1 inst hi
  rw [hg] at hpos
  exact absurd hpos.1 (Nat.lt_irrefl 0)

end TurboScript.Host
