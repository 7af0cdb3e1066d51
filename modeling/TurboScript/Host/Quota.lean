import TurboScript.Host.CallState

/- Quotas over whole calls.

   `Inv` already keeps the ledger of the executing call in step with its budget. This file
   adds the latch: once a safe point of a call was rejected, no later safe point of that
   call is accepted or moves a counter (`Latched`, kept by every step until the call
   returns), and the call ends with a failure, a FAULTED instance and no value. -/
namespace TurboScript.Host

/-- The executing call is the one of instance `n` writing to result `r`, a safe point of it
    has been rejected, and its budget is `b`. -/
def Latched (n r : Nat) (b : CallBudget) (s : HostState) : Prop :=
  ∃ g, callFrame s.stack = some g ∧ g.inst = n ∧ g.result = r ∧ g.ledger.failed = true ∧
    ∃ inst, s.ctx.instances n = some inst ∧ inst.runtime.activeHostBudget = some b

section latched

variable {n r : Nat} {b : CallBudget} {c c' : Ctx} {stack : List Frame}

theorem Latched.congr {stack' : List Frame} (h : Latched n r b ⟨c, stack⟩)
    (hf : callFrame stack' = callFrame stack)
    (hi : ∀ inst, c.instances n = some inst →
      ∃ inst', c'.instances n = some inst' ∧ inst'.runtime = inst.runtime) :
    Latched n r b ⟨c', stack'⟩ := by
  obtain ⟨g, hg, hn, hr, hfail, inst, hinst, hb⟩ := h
  obtain ⟨inst', hinst', hrt⟩ := hi inst hinst
  exact ⟨g, hf.trans hg, hn, hr, hfail, inst', hinst', by rw [hrt]; exact hb⟩

theorem Latched.of_same (h : Latched n r b ⟨c, stack⟩) (hc : c.Same c') : Latched n r b ⟨c', stack⟩ :=
  h.congr rfl (fun inst hi => ⟨inst, by rw [hc.instances]; exact hi, rfl⟩)

theorem Latched.active (h : Latched n r b ⟨c, stack⟩) (hinv : Inv ⟨c, stack⟩) :
    c.activeHostInstance = some n := by
  obtain ⟨g, hg, hn, -⟩ := h
  have ha := hinv.active
  dsimp only at ha hg
  rw [ha, hg, ← hn]
  rfl

theorem Latched.status (h : Latched n r b ⟨c, stack⟩) (hinv : Inv ⟨c, stack⟩) : b.failureStatus ≠ .ok := by
  obtain ⟨g, hg, hn, -, hfail, inst, hi, hb⟩ := h
  obtain ⟨inst', hi', hex⟩ := hinv.executing g hg
  obtain ⟨b', hb', hacc⟩ := hex.budget
  rw [hn, hi] at hi'
  cases hi'
  rw [hb] at hb'
  cases hb'
  exact hacc.failed.mp hfail

theorem Latched.setInstance {i : Nat} {old inst : Instance} (h : Latched n r b ⟨c, stack⟩)
    {stack' : List Frame} (hf : callFrame stack' = callFrame stack)
    (hold : c.instances i = some old) (hc : c'.instances = (c.setInstance i inst).instances)
    (hrt : inst.runtime = old.runtime) : Latched n r b ⟨c', stack'⟩ := by
  refine h.congr hf ?_
  intro inst₀ h₀
  by_cases hni : n = i
  · subst hni
    rw [hold] at h₀
    cases h₀
    exact ⟨inst, by rw [hc]; exact setInstance_get .., hrt⟩
  · exact ⟨inst₀, by rw [hc, setInstance_get_ne _ _ hni]; exact h₀, rfl⟩

theorem Latched.runtimeThrow (h : Latched n r b ⟨c, stack⟩) (status : Status)
    (functionName message : String) :
    Latched n r b ⟨Host.runtimeThrow c status functionName message, stack⟩ := by
  unfold Host.runtimeThrow
  split
  · exact h
  · split
    · exact h
    · rename_i inst hi
      exact h.setInstance rfl hi rfl rfl

theorem record_rejected (l : Ledger) (kind : SafePointKind) (cost : Nat) :
    (l.record kind cost false).failed = true := by
  cases kind <;> rfl

theorem Latched.raiseSafePoint {f : CallFrame} {rest : List Frame}
    (h : Latched n r b ⟨c, .call f :: rest⟩) (hst : b.failureStatus ≠ .ok) (kind : SafePointKind)
    (cost : Nat) (poll : Bool) :
    (Host.raiseSafePoint c f kind cost poll).1 = false ∧
      Latched n r b ⟨(Host.raiseSafePoint c f kind cost poll).2.1,
        .call (Host.raiseSafePoint c f kind cost poll).2.2 :: rest⟩ := by
  obtain ⟨g, hg, hn, hr, hfail, inst, hi, hb⟩ := h
  cases hg
  subst hn
  dsimp only at hi
  obtain ⟨h1, h2⟩ := safePoint_budget hb kind cost poll
  rw [budgetSafePoint_latched hst] at h1 h2
  unfold Host.raiseSafePoint
  simp only [hi]
  refine ⟨h1, _, rfl, rfl, hr, ?_, _, setInstance_get .., h2⟩
  dsimp only
  rw [h1]
  exact record_rejected ..

theorem Latched.raiseOnTop (h : Latched n r b ⟨c, stack⟩) (hst : b.failureStatus ≠ .ok)
    (kind : SafePointKind) (cost : Nat) (poll : Bool) :
    Latched n r b ⟨(Host.raiseOnTop c stack kind cost poll).2.1,
      (Host.raiseOnTop c stack kind cost poll).2.2⟩ := by
  unfold Host.raiseOnTop
  split
  · exact (h.raiseSafePoint hst kind cost poll).2
  · exact h

theorem Latched.enterCallback (h : Latched n r b ⟨c, stack⟩) (hinv : Inv ⟨c, stack⟩)
    {active : Option Nat} (functionName : String)
    (he : Host.enterCallback c = (.ok, active, c')) :
    Latched n r b ⟨c', .callback active functionName :: stack⟩ := by
  have hlive : ∀ i, c.activeHostInstance = some i → ∃ inst, c.instances i = some inst := by
    intro i ha
    obtain ⟨f, inst, -, -, hi, -⟩ := hinv.live ha
    exact ⟨inst, hi⟩
  rcases enterCallback_ok he hlive with ⟨-, -, rfl⟩ | ⟨i, inst, -, -, hi, -, rfl⟩
  · exact h.congr rfl (fun inst hi => ⟨inst, hi, rfl⟩)
  · exact h.setInstance rfl hi rfl rfl

theorem Latched.callbackBegin (h : Latched n r b ⟨c, stack⟩) (hinv : Inv ⟨c, stack⟩)
    (ownerThread : Bool) (functionName : String) (adaptation : Adaptation) (poll : Bool) :
    Latched n r b ⟨(Host.callbackBegin c stack ownerThread functionName adaptation poll).1,
      (Host.callbackBegin c stack ownerThread functionName adaptation poll).2⟩ := by
  unfold Host.callbackBegin
  split
  · exact h.runtimeThrow ..
  split
  · exact h.runtimeThrow ..
  have hl := h.raiseOnTop (h.status hinv) .callbackBefore 1 poll
  have hr := hinv.raiseOnTop (show SafePointKind.callbackBefore ≠ .functionLeave by decide) 1 poll
  rcases hro : Host.raiseOnTop c stack .callbackBefore 1 poll with ⟨_ | _, c₁, stack₁⟩
  · rw [hro] at hl
    exact hl
  · rw [hro] at hl hr
    dsimp only at hl hr ⊢
    rcases he : Host.enterCallback c₁ with ⟨st, active, c₂⟩
    by_cases hok : st = .ok
    · subst hok
      exact hl.enterCallback hr functionName he
    · have hc := enterCallback_fail he hok
      subst hc
      cases st with
      | ok => exact absurd rfl hok
      | _ => exact hl.runtimeThrow ..

theorem Latched.leaveCallback {active : Option Nat} {functionName : String} {rest : List Frame}
    (h : Latched n r b ⟨c, .callback active functionName :: rest⟩) :
    Latched n r b ⟨Host.leaveCallback c active, rest⟩ := by
  have hself : ∀ d, Latched n r b ⟨{ c with hostCallbackDepth := d }, rest⟩ :=
    fun d => h.congr rfl (fun inst hi => ⟨inst, hi, rfl⟩)
  unfold Host.leaveCallback
  split
  · exact hself c.hostCallbackDepth
  cases active with
  | none => exact hself _
  | some i =>
    dsimp only
    split
    · exact hself _
    rename_i inst hi
    split
    · exact h.setInstance rfl hi rfl rfl
    · exact hself _

theorem Latched.callbackEnd {active : Option Nat} {functionName : String} {rest : List Frame}
    (h : Latched n r b ⟨c, .callback active functionName :: rest⟩)
    (hst : b.failureStatus ≠ .ok) (res : CallbackResult) (poll : Bool) :
    Latched n r b ⟨(Host.callbackEnd c active rest functionName res poll).1,
      (Host.callbackEnd c active rest functionName res poll).2⟩ := by
  have hl := h.leaveCallback
  unfold Host.callbackEnd
  dsimp only
  split
  · exact hl.raiseOnTop hst ..
  split
  · exact hl.runtimeThrow ..
  split
  · exact hl.runtimeThrow ..
  split
  · exact hl.runtimeThrow ..
  · exact hl.runtimeThrow ..

end latched

def Response.EndsCall : Response → Prop
  | .callReturned _ _ _ => True
  | _ => False

variable {s s' : HostState}

/-- **One step keeps the latch**, unless it ends the call. -/
theorem step_latched {n r : Nat} {b : CallBudget} {i : Input} {o : Response} (hinv : Inv s)
    (h : Latched n r b s) (hs : step s i = some (s', o)) (ho : ¬o.EndsCall) :
    Latched n r b s' := by
  have hst := h.status hinv
  have hact := h.active hinv
  cases step_moves hinv hs with
  | quiet hc => exact h.of_same hc
  | createBegin hc => exact (h.of_same hc).congr rfl (fun inst hi => ⟨inst, hi, rfl⟩)
  | @createEnd c f rest o =>
    have hpop : Latched n r b ⟨c, rest⟩ := h.congr rfl (fun inst hi => ⟨inst, hi, rfl⟩)
    rcases instanceCreateEnd_spec c f o with hc | ⟨g, hc⟩
    · exact hpop.of_same hc
    · -- the new address is not the executing instance's
      refine hpop.congr rfl (fun inst hi => ⟨inst, ?_, rfl⟩)
      have hne : n ≠ c.nextInstance := by
        intro hn
        have hfresh := hinv.fresh n (Nat.le_of_eq hn.symm)
        exact absurd (hfresh.symm.trans hi) (by simp)
      exact (congrFun hc.instances n).trans ((setInstance_get_ne c _ hne).trans hi)
  | @destroyed c c' stack a inst st hi hready hc =>
    refine h.congr rfl (fun inst' hi' => ⟨inst', ?_, rfl⟩)
    have hne : n ≠ a := by
      rintro rfl
      have hin := (hinv.inCall_iff hi).mpr hact
      rcases hin with hin | hin <;> rw [hin] at hready <;> simp at hready
    exact (congrFun hc.instances n).trans ((Function.update_of_ne hne ..).trans hi')
  | callBegin hi had =>
    have := had.idle.symm.trans hact
    cases this
  | callEnd o => exact absurd trivial ho
  | safePoint hk => exact (h.raiseSafePoint hst _ _ _).2
  | callbackBegin => exact h.callbackBegin hinv ..
  | callbackEnd => exact h.callbackEnd hst ..
  | interruptBegin | interruptEnd => exact h.congr rfl (fun inst hi => ⟨inst, hi, rfl⟩)

theorem Inv.accounts (h : Inv s) {f : CallFrame} (hf : callFrame s.stack = some f) :
    ∃ inst b, s.ctx.instances f.inst = some inst ∧ inst.runtime.activeHostBudget = some b ∧
      Accounts f.ledger b := by
  obtain ⟨inst, hi, hex⟩ := h.executing f hf
  obtain ⟨b, hb, hacc⟩ := hex.budget
  exact ⟨inst, b, hi, hb, hacc⟩

theorem functionLeave_verdict {f : CallFrame} {rest : List Frame} {cost : Nat}
    {poll accepted : Bool} (h : Inv s) (hstack : s.stack = .call f :: rest)
    (hf : f.ledger.frames.head? = some cost) (hopen : f.ledger.failed = false)
    (hs : step s (.safePoint .functionLeave cost poll) = some (s', .verdict accepted)) :
    accepted = true := by
  obtain ⟨c, stack⟩ := s
  subst hstack
  obtain ⟨inst, b, hi, hb, hacc⟩ := h.accounts (f := f) rfl
  have hok : b.failureStatus = .ok := by
    by_contra hne
    rw [hacc.failed.mpr hne] at hopen
    cases hopen
  simp only [step, engineAllows, hf, decide_true, if_true] at hs
  obtain ⟨h1, -⟩ := safePoint_budget hb .functionLeave cost poll
  dsimp only at hi
  simp only [raiseSafePoint, hi] at hs
  cases hs
  rw [h1]
  simp only [budgetSafePoint, hok, ne_eq, not_true, if_false]
  rw [functionLeave_accepted poll hacc hopen hf]

theorem verdict_rejected_latches {f : CallFrame} {rest : List Frame} {kind : SafePointKind}
    {cost : Nat} {poll : Bool} (h : Inv s) (hstack : s.stack = .call f :: rest)
    (hs : step s (.safePoint kind cost poll) = some (s', .verdict false)) :
    ∃ b, Latched f.inst f.result b s' := by
  obtain ⟨c, stack⟩ := s
  subst hstack
  obtain ⟨inst, b, hi, hb, hacc⟩ := h.accounts (f := f) rfl
  obtain ⟨h1, h2⟩ := safePoint_budget hb kind cost poll
  dsimp only at hi
  simp only [step, raiseSafePoint, hi] at hs
  split at hs
  · simp only [Option.some.injEq, Prod.mk.injEq, Response.verdict.injEq] at hs
    obtain ⟨rfl, hrej⟩ := hs
    refine ⟨_, _, rfl, rfl, rfl, ?_, _, setInstance_get .., h2⟩
    dsimp only
    rw [hrej]
    exact record_rejected ..
  · cases hs

theorem safePoint_of_latched {n r : Nat} {b : CallBudget} {kind : SafePointKind} {cost : Nat}
    {poll : Bool} {o : Response} (h : Inv s) (hl : Latched n r b s)
    (hs : step s (.safePoint kind cost poll) = some (s', o)) :
    o = .verdict false ∧ Latched n r b s' := by
  have hst := hl.status h
  obtain ⟨c, stack⟩ := s
  cases stack with
  | nil => cases hs
  | cons fr rest =>
    cases fr with
    | call f =>
      obtain ⟨h1, h2⟩ := hl.raiseSafePoint hst kind cost poll
      simp only [step] at hs
      split at hs
      · cases hs
        exact ⟨by rw [h1], h2⟩
      · cases hs
    | create | callback | interrupt => cases hs

/-- **A call with a rejected safe point fails**: its status is not OK, its instance is
    FAULTED and its result holds no value. -/
theorem callReturned_failed {i : Input} {a : Nat} {st : Status} {l : Ledger} (h : Inv s)
    (hs : step s i = some (s', .callReturned a st l)) (hfail : l.failed = true) :
    st ≠ .ok ∧ (∃ inst, s'.ctx.instances a = some inst ∧ inst.state = .faulted) ∧
      ∀ f, s.stack = .call f :: s'.stack → (s'.ctx.results f.result).hasValue = false := by
  have hspec := callReturned_spec h hs
  cases step_moves h hs with
  | quiet _ hret => exact absurd rfl (hret a st l)
  | @callEnd c f rest o =>
    obtain ⟨ha, hd, hatt, inst, b, hi, hstate, hb, hacc⟩ := h.top
    obtain ⟨⟨inst', he⟩, hok⟩ := instanceCallEnd_spec ha hd hatt o hi hstate hb
      (fun d hdg => h.diagnostic _ inst d hi hdg)
    have hne : (instanceCallEnd c f o).1 ≠ .ok := by
      intro hst
      have hlast := hok hst
      have hbok : b.failureStatus = .ok := by
        by_contra hbad
        rw [budgetSafePoint_latched hbad] at hlast
        cases hlast
      have hopen : f.ledger.failed = false := by
        cases hf : f.ledger.failed with
        | false => rfl
        | true => exact absurd hbok (hacc.failed.mp hf)
      have hsp := (safePoint_budget hb .retainedBytes o.retainedBytes false).1
      rw [hlast] at hsp
      simp only [finalLedger, hi] at hfail
      split at hfail
      · rw [hsp] at hfail
        simp only [Ledger.record] at hfail
        rw [hopen] at hfail
        cases hfail
      · rw [hopen] at hfail
        cases hfail
    refine ⟨hne, ?_, ?_⟩
    · obtain ⟨-, -, -, inst'', hi'', hst''⟩ := hspec
      exact ⟨inst'', hi'', by rw [hst'', if_neg hne]⟩
    · intro f' hf'
      have : f' = f := by simpa using hf'.symm
      subst this
      exact he.value hne

/-- **Call quotas are sound and latched.** In every state of every history, for the call that
    executes: the accepted costs stay within the initial quotas; as long as no safe point was
    rejected the open frames and what is left of the stack and recursion quotas add up to the
    limits; the accounting is never reported inconsistent. A rejected safe point latches the
    call: until it returns every safe point is rejected and the budget does not move, and it
    returns a failure, a FAULTED instance and no value. -/
theorem call_quotas_sound_and_latched (is : List Input) (s : HostState)
    (hrun : Lib.run step HostState.initial is = some s) :
    (∀ f, callFrame s.stack = some f →
      ∃ inst b, s.ctx.instances f.inst = some inst ∧ inst.runtime.activeHostBudget = some b ∧
        f.ledger.steps ≤ f.ledger.initial.stepsLeft ∧
        f.ledger.loops ≤ f.ledger.initial.loopsLeft ∧
        f.ledger.callbacks ≤ f.ledger.initial.callbacksLeft ∧
        (f.ledger.failed = false → f.ledger.frames.sum + b.stackBytesLeft = b.stackBytesLimit ∧
          b.recursionLeft + f.ledger.frames.length = b.recursionLimit) ∧
        b.failureMessage ≠ some "call frame accounting is inconsistent" ∧
        (f.ledger.failed = true → Latched f.inst f.result b s)) ∧
    (∀ f rest cost poll s' accepted, s.stack = .call f :: rest →
      f.ledger.frames.head? = some cost → f.ledger.failed = false →
      step s (.safePoint .functionLeave cost poll) = some (s', .verdict accepted) →
      accepted = true) ∧
    (∀ f rest kind cost poll s', s.stack = .call f :: rest →
      step s (.safePoint kind cost poll) = some (s', .verdict false) →
      ∃ b, Latched f.inst f.result b s') ∧
    (∀ n r b kind cost poll s' o, Latched n r b s → step s (.safePoint kind cost poll) = some (s', o) →
      o = .verdict false ∧ Latched n r b s') ∧
    (∀ n r b is' t os, Latched n r b s → Lib.runOut step s is' = some (t, os) →
      (∀ o ∈ os, ¬o.EndsCall) → Latched n r b t) ∧
    (∀ i s' a st l, step s i = some (s', .callReturned a st l) → l.failed = true →
      st ≠ .ok ∧ (∃ inst, s'.ctx.instances a = some inst ∧ inst.state = .faulted) ∧
        ∀ f, s.stack = .call f :: s'.stack → (s'.ctx.results f.result).hasValue = false) := by
  have h : Inv s := Reachable.inv ⟨is, hrun⟩
  refine ⟨?_, ?_, ?_, ?_, ?_, ?_⟩
  · intro f hf
    obtain ⟨inst, b, hi, hb, hacc⟩ := h.accounts hf
    have hsteps := hacc.steps
    have hloops := hacc.loops
    have hcallbacks := hacc.callbacks
    refine ⟨inst, b, hi, hb, by omega, by omega, by omega, ?_, hacc.consistent, ?_⟩
    · exact fun hopen => ⟨hacc.stack hopen, hacc.recursion hopen⟩
    · exact fun hfail => ⟨f, hf, rfl, rfl, hfail, inst, hi, hb⟩
  · exact fun _ _ _ _ _ _ hstack hf hopen hs => functionLeave_verdict h hstack hf hopen hs
  · exact fun _ _ _ _ _ _ hstack hs => verdict_rejected_latches h hstack hs
  · exact fun _ _ _ _ _ _ _ _ hl hs => safePoint_of_latched h hl hs
  · intro n r b is' t os hl hr hq
    have hboth := @Lib.runOut_invariant _ _ _ step (fun s => Inv s ∧ Latched n r b s) (fun o => ¬o.EndsCall)
      (fun _ _ _ _ hp hs ho => ⟨step_inv hp.1 hs, step_latched hp.1 hp.2 hs ho⟩) is' s t os
      ⟨h, hl⟩ hr hq
    exact hboth.2
  · exact fun _ _ _ _ _ hs hfail => callReturned_failed h hs hfail

/-- A call whose first function entry is charged and then interrupted by the hook. -/
def interruptedHistory : List Input :=
  let options : InstanceOptions := ⟨true, true, false, 1000, 1000, 8, 8, 8, true, 8, 100⟩
  let q : CallRequest :=
    ⟨2 ^ 32 + 1, false, 0, some ⟨true, 8, 100, 100, 8, true, 100, true⟩, .ok, .ok⟩
  [.create true ⟨"m", [⟨"f", 0⟩], true⟩ (some options) (.own 0) true true .ok .ok,
   .initializerReturn ⟨.ok, .ok, 10, .ok⟩,
   .call true (some 0) q (.own 0) .ok,
   .safePoint .functionEnter 100 true]

theorem call_quotas_after_interrupt : ∃ s, Lib.run step HostState.initial interruptedHistory = some s ∧
      ∃ b, Latched 0 0 b s ∧ b.failureStatus = .interrupted := by
  obtain ⟨inst, b, hi, hb, -, -, -, -, -, hl⟩ :=
    (call_quotas_sound_and_latched interruptedHistory _ rfl).1 _ rfl
  refine ⟨_, rfl, b, hl rfl, ?_⟩
  cases hi
  cases hb
  rfl

/-- An interrupt at a function entry leaves the frame charged but not open, so the two
    accounting equations do not survive it. -/
theorem interrupted_enter_unbalanced : ∃ s, Lib.run step HostState.initial interruptedHistory = some s ∧
      ∃ f inst b, callFrame s.stack = some f ∧ s.ctx.instances f.inst = some inst ∧
        inst.runtime.activeHostBudget = some b ∧
        f.ledger.frames.sum + b.stackBytesLeft ≠ b.stackBytesLimit ∧
        b.recursionLeft + f.ledger.frames.length ≠ b.recursionLimit :=
  ⟨_, rfl, _, _, _, rfl, rfl, rfl, by decide, by decide⟩

end TurboScript.Host
