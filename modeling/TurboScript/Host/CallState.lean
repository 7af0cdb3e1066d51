import TurboScript.Host.Boundary

/- The call state machine: which instance executes, and how deep in callbacks.

   The invariant `Inv` ties the instance states, the active instance and the callback depth
   to the stack of frames, and the budget of the executing call to its ledger. `Moves` says
   everything one step can do; every preservation argument is a case analysis on it. -/
namespace TurboScript.Host
open Function

/-! ## The invariant -/

def callbacks : List Frame → Nat
  | [] => 0
  | .callback _ _ :: rest => callbacks rest + 1
  | _ :: rest => callbacks rest

def callFrame : List Frame → Option CallFrame
  | [] => none
  | .call f :: _ => some f
  | _ :: rest => callFrame rest

/-- A call starts with no call and no callback below it; a callback remembers the instance
    that was executing, and an executing instance is in at most one callback. -/
def StackOk : List Frame → Prop
  | [] => True
  | .call _ :: rest => callFrame rest = none ∧ callbacks rest = 0 ∧ StackOk rest
  | .create _ :: rest => StackOk rest
  | .callback active _ :: rest =>
    active = (callFrame rest).map (·.inst) ∧ (callFrame rest ≠ none → callbacks rest = 0) ∧ StackOk rest
  | .interrupt :: rest => StackOk rest

/-- The instance of the call `f` with `n` callbacks on the stack. -/
structure Executing (f : CallFrame) (n : Nat) (inst : Instance) : Prop where
  state : inst.state = if n = 0 then .calling else .callingHost
  attached : f.budgetAttached = true
  budget : ∃ b, inst.runtime.activeHostBudget = some b ∧ Accounts f.ledger b

structure Inv (s : HostState) : Prop where
  stack : StackOk s.stack
  depth : s.ctx.hostCallbackDepth = callbacks s.stack
  active : s.ctx.activeHostInstance = (callFrame s.stack).map (·.inst)
  fresh : ∀ i, s.ctx.nextInstance ≤ i → s.ctx.instances i = none
  executing : ∀ f, callFrame s.stack = some f →
    ∃ inst, s.ctx.instances f.inst = some inst ∧ Executing f (callbacks s.stack) inst
  idle : ∀ i inst, s.ctx.instances i = some inst → s.ctx.activeHostInstance ≠ some i → Idle inst
  diagnostic : ∀ i inst d, s.ctx.instances i = some inst → inst.diagnostic = some d → d.status ≠ .ok
  pending : ∀ f, .create f ∈ s.stack → Idle f.pending ∧ f.pending.diagnostic = none

theorem Inv.initial : Inv HostState.initial where
  stack := trivial
  depth := rfl
  active := rfl
  fresh := fun _ _ => rfl
  executing := by intro f h; cases h
  idle := by intro i inst h; cases h
  diagnostic := by intro i inst d h; cases h
  pending := by intro f h; cases h

variable {c c' : Ctx} {stack rest : List Frame} {i j : Nat} {inst : Instance} {f : CallFrame}
  {active : Option Nat} {functionName : String} {r : Response} {s s' : HostState}

theorem Inv.of_same (h : Inv ⟨c, stack⟩) (hc : c.Same c') : Inv ⟨c', stack⟩ where
  stack := h.stack
  depth := hc.depth.trans h.depth
  active := hc.active.trans h.active
  fresh := by dsimp only; rw [hc.instances, hc.next]; exact h.fresh
  executing := by dsimp only; rw [hc.instances]; exact h.executing
  idle := by dsimp only; rw [hc.instances, hc.active]; exact h.idle
  diagnostic := by dsimp only; rw [hc.instances]; exact h.diagnostic
  pending := h.pending

theorem Inv.live (h : Inv ⟨c, stack⟩) (ha : c.activeHostInstance = some i) :
    ∃ f inst, callFrame stack = some f ∧ f.inst = i ∧ c.instances i = some inst ∧
      Executing f (callbacks stack) inst := by
  have h' := h.active
  dsimp only at h'
  rw [ha] at h'
  obtain ⟨f, hf, hfi⟩ := Option.map_eq_some_iff.mp h'.symm
  obtain ⟨inst, hi, hex⟩ := h.executing f hf
  exact ⟨f, inst, hf, hfi, hfi ▸ hi, hex⟩

theorem Inv.idle_of_ready (h : Inv ⟨c, stack⟩) (hi : c.instances i = some inst)
    (hready : inst.state = .ready) :
    Idle inst := by
  apply h.idle i inst hi
  intro hact
  obtain ⟨f, inst', -, -, hi', hex⟩ := h.live hact
  rw [hi] at hi'
  cases hi'
  have hs := hex.state
  rw [hready] at hs
  split at hs <;> cases hs

theorem Inv.replace {stack' : List Frame} (h : Inv ⟨c, stack⟩) {old : Instance}
    (hi : c.instances i = some old)
    (hinst : c'.instances = update c.instances i (some inst))
    (hnext : c'.nextInstance = c.nextInstance)
    (hwas : c.activeHostInstance = none ∨ c.activeHostInstance = some i) (hstack : StackOk stack')
    (hdepth : c'.hostCallbackDepth = callbacks stack')
    (hactive : c'.activeHostInstance = (callFrame stack').map (·.inst))
    (hex : ∀ f, callFrame stack' = some f → f.inst = i ∧ Executing f (callbacks stack') inst)
    (hidle : callFrame stack' = none → Idle inst)
    (hdiag : ∀ d, inst.diagnostic = some d → d.status ≠ .ok)
    (hpend : ∀ f, .create f ∈ stack' → .create f ∈ stack) : Inv ⟨c', stack'⟩ where
  stack := hstack
  depth := hdepth
  active := hactive
  fresh := by
    intro j hj
    dsimp only at hj ⊢
    rw [hnext] at hj
    have hfresh := h.fresh j hj
    have hji : j ≠ i := by
      intro hji
      subst hji
      exact absurd (hfresh.symm.trans hi) (by simp)
    rw [hinst, update_of_ne hji]
    exact hfresh
  executing := by
    intro f hf
    obtain ⟨hfi, he⟩ := hex f hf
    exact ⟨inst, by dsimp only; rw [hinst, hfi, update_self], he⟩
  idle := by
    intro j inst' hj hact
    dsimp only at hj hact
    rw [hinst] at hj
    by_cases hji : j = i
    · subst hji
      rw [update_self] at hj
      cases hj
      apply hidle
      cases hcf : callFrame stack' with
      | none => rfl
      | some f =>
        rw [hactive, hcf] at hact
        exact absurd (congrArg some (hex f hcf).1) hact
    · rw [update_of_ne hji] at hj
      refine h.idle j inst' hj ?_
      rcases hwas with hwas | hwas
      · dsimp only; rw [hwas]; simp
      · dsimp only; rw [hwas]; exact fun he => hji (Option.some.inj he).symm
  diagnostic := by
    intro j inst' d hj hd
    dsimp only at hj
    rw [hinst] at hj
    by_cases hji : j = i
    · subst hji
      rw [update_self] at hj
      cases hj
      exact hdiag d hd
    · rw [update_of_ne hji] at hj
      exact h.diagnostic j inst' d hj hd
  pending := fun f hf => h.pending f (hpend f hf)

theorem Inv.runtimeThrow (h : Inv ⟨c, stack⟩) (status : Status) (functionName message : String) :
    Inv ⟨Host.runtimeThrow c status functionName message, stack⟩ := by
  unfold Host.runtimeThrow
  split
  · exact h
  · rename_i i ha
    obtain ⟨f, inst, hf, hfi, hi, hex⟩ := h.live ha
    simp only [hi]
    refine h.replace hi rfl rfl (.inr ha) h.stack h.depth h.active ?_ ?_ ?_ (fun _ h => h)
    · intro f' hf'
      rw [hf] at hf'
      cases hf'
      exact ⟨hfi, hex.state, hex.attached, hex.budget⟩
    · intro hnone
      rw [hf] at hnone
      cases hnone
    · intro d hd
      cases hd
      show Status.hostError ≠ .ok
      decide

theorem Inv.raiseSafePoint (h : Inv ⟨c, .call f :: rest⟩) {kind : SafePointKind} {cost : Nat}
    (hk : f.ledger.Allows kind cost) (poll : Bool) :
    Inv ⟨(Host.raiseSafePoint c f kind cost poll).2.1,
      .call (Host.raiseSafePoint c f kind cost poll).2.2 :: rest⟩ := by
  obtain ⟨inst, hi, hex⟩ := h.executing f rfl
  obtain ⟨b, hb, hacc⟩ := hex.budget
  have hbud := safePoint_budget hb kind cost poll
  unfold Host.raiseSafePoint
  dsimp only at hi
  simp only [hi]
  refine h.replace hi rfl rfl (.inr h.active) h.stack h.depth h.active ?_ ?_ ?_ ?_
  · intro f' hf'
    cases hf'
    refine ⟨rfl, hex.state, hex.attached, _, hbud.2, ?_⟩
    dsimp only
    rw [hbud.1]
    exact hacc.safePoint hk poll
  · intro hnone
    cases hnone
  · exact fun d hd => h.diagnostic f.inst inst d hi hd
  · intro g hg
    simpa using hg

theorem Inv.raiseOnTop (h : Inv ⟨c, stack⟩) {kind : SafePointKind} (hk : kind ≠ .functionLeave)
    (cost : Nat) (poll : Bool) :
    Inv ⟨(Host.raiseOnTop c stack kind cost poll).2.1, (Host.raiseOnTop c stack kind cost poll).2.2⟩ := by
  unfold Host.raiseOnTop
  split
  · exact h.raiseSafePoint (fun hl => absurd hl hk) poll
  · exact h

/-! ## One step -/

theorem Inv.enterCallback (h : Inv ⟨c, stack⟩) (functionName : String)
    (he : Host.enterCallback c = (.ok, active, c')) :
    Inv ⟨c', .callback active functionName :: stack⟩ := by
  have hlive : ∀ i, c.activeHostInstance = some i → ∃ inst, c.instances i = some inst := by
    intro i ha
    obtain ⟨f, inst, -, -, hi, -⟩ := h.live ha
    exact ⟨inst, hi⟩
  have hact := h.active
  have hdep := h.depth
  dsimp only at hact hdep
  rcases enterCallback_ok he hlive with ⟨ha, rfl, rfl⟩ | ⟨i, inst, ha, rfl, hi, hst, rfl⟩
  · -- no instance executes: only the depth changes
    have hnone : callFrame stack = none := by
      rw [ha] at hact
      exact Option.map_eq_none_iff.mp hact.symm
    exact { stack := ⟨by rw [hnone]; rfl, fun hne => absurd hnone hne, h.stack⟩
            depth := by simp only [callbacks, hdep]
            active := hact
            fresh := h.fresh
            executing := by
              intro f hf
              simp only [callFrame] at hf
              rw [hnone] at hf
              cases hf
            idle := h.idle
            diagnostic := h.diagnostic
            pending := by
              intro f hf
              exact h.pending f (by simpa using hf) }
  · obtain ⟨f, inst', hf, hfi, hi', hex⟩ := h.live ha
    rw [hi] at hi'
    cases hi'
    have hzero : callbacks stack = 0 := by
      by_contra hne
      have := hex.state
      rw [if_neg hne, hst] at this
      cases this
    refine h.replace hi rfl rfl (.inr ha) ?_ ?_ ?_ ?_ ?_ ?_ ?_
    · exact ⟨by rw [hf, ← hfi]; rfl, fun _ => hzero, h.stack⟩
    · simp only [callbacks, ← hdep]
    · exact hact
    · intro f' hf'
      simp only [callFrame] at hf'
      rw [hf] at hf'
      cases hf'
      exact ⟨hfi, by simp [callbacks], hex.attached, hex.budget⟩
    · intro hnone
      simp only [callFrame] at hnone
      rw [hf] at hnone
      cases hnone
    · exact fun d hd => h.diagnostic i inst d hi hd
    · intro g hg
      simpa using hg

theorem Inv.callbackBegin (h : Inv ⟨c, stack⟩) (ownerThread : Bool) (functionName : String)
    (adaptation : Adaptation) (poll : Bool) :
    Inv ⟨(Host.callbackBegin c stack ownerThread functionName adaptation poll).1,
      (Host.callbackBegin c stack ownerThread functionName adaptation poll).2⟩ := by
  unfold Host.callbackBegin
  split
  · exact h.runtimeThrow ..
  split
  · exact h.runtimeThrow ..
  have hr := h.raiseOnTop (show SafePointKind.callbackBefore ≠ .functionLeave by decide) 1 poll
  revert hr
  rcases Host.raiseOnTop c stack .callbackBefore 1 poll with ⟨_ | _, c₁, stack₁⟩
  · exact fun hr => hr
  · intro hr
    dsimp only at hr ⊢
    rcases he : Host.enterCallback c₁ with ⟨st, active, c₂⟩
    by_cases hok : st = .ok
    · subst hok
      exact hr.enterCallback functionName he
    · have hc := enterCallback_fail he hok
      subst hc
      cases st with
      | ok => exact absurd rfl hok
      | _ => exact hr.runtimeThrow ..

theorem Inv.leaveCallback (h : Inv ⟨c, .callback active functionName :: rest⟩) :
    Inv ⟨Host.leaveCallback c active, rest⟩ := by
  obtain ⟨hactive, hone, hrest⟩ := h.stack
  have hact := h.active
  have hdep := h.depth
  simp only [callFrame, callbacks] at hact hdep
  have hd : c.hostCallbackDepth ≠ 0 := by omega
  cases hcf : callFrame rest with
  | none =>
    rw [hcf] at hactive
    subst hactive
    rw [show (none : Option CallFrame).map (·.inst) = none from rfl, leaveCallback_none hd]
    exact { stack := hrest
            depth := by dsimp only; omega
            active := hact
            fresh := h.fresh
            executing := by intro f hf; rw [hcf] at hf; cases hf
            idle := h.idle
            diagnostic := h.diagnostic
            pending := fun f hf => h.pending f (List.mem_cons_of_mem _ hf) }
  | some f =>
    obtain ⟨inst, hi, hex⟩ := h.executing f hcf
    have hst : inst.state = .callingHost := by simpa [callbacks] using hex.state
    have hzero := hone (by rw [hcf]; simp)
    rw [hcf] at hactive hact
    subst hactive
    rw [show (some f).map (·.inst) = some f.inst from rfl, leaveCallback_some hd hact hi hst]
    refine h.replace hi rfl rfl (.inr hact) hrest ?_ ?_ ?_ ?_ ?_ ?_
    · show c.hostCallbackDepth - 1 = callbacks rest
      omega
    · show c.activeHostInstance = _
      rw [hcf]
      exact hact
    · intro f' hf'
      rw [hcf] at hf'
      cases hf'
      exact ⟨rfl, by rw [hzero]; rfl, hex.attached, hex.budget⟩
    · intro hnone
      rw [hcf] at hnone
      cases hnone
    · exact fun d hd => h.diagnostic f.inst inst d hi hd
    · exact fun g hg => List.mem_cons_of_mem _ hg

theorem Inv.callbackEnd (h : Inv ⟨c, .callback active functionName :: rest⟩) (r : CallbackResult)
    (poll : Bool) :
    Inv ⟨(Host.callbackEnd c active rest functionName r poll).1,
      (Host.callbackEnd c active rest functionName r poll).2⟩ := by
  have hl := h.leaveCallback
  unfold Host.callbackEnd
  dsimp only
  split
  · exact hl.raiseOnTop (show SafePointKind.callbackAfter ≠ .functionLeave by decide) 0 poll
  split
  · exact hl.runtimeThrow ..
  split
  · exact hl.runtimeThrow ..
  split
  · exact hl.runtimeThrow ..
  · exact hl.runtimeThrow ..

theorem Inv.callBegin (h : Inv ⟨c, stack⟩) {inst' : Instance} (hi : c.instances i = some inst)
    (had : Admitted c i inst f c' inst') : Inv ⟨c', .call f :: stack⟩ := by
  have hact := h.active
  have hdep := h.depth
  dsimp only at hact hdep
  rw [had.idle] at hact
  rw [had.depth] at hdep
  have hnone : callFrame stack = none := Option.map_eq_none_iff.mp hact.symm
  refine h.replace hi had.same.instances had.same.next (.inl had.idle) ?_ ?_ ?_ ?_ ?_ ?_ ?_
  · exact ⟨hnone, hdep.symm, h.stack⟩
  · show c'.hostCallbackDepth = callbacks stack
    rw [← hdep, had.same.depth]
    exact had.depth
  · show c'.activeHostInstance = some f.inst
    rw [had.same.active, had.frame]
  · intro f' hf'
    cases hf'
    obtain ⟨options, hl, hb⟩ := had.ledger
    refine ⟨had.frame, ?_, had.attached, _, hb, ?_⟩
    · show inst'.state = if callbacks stack = 0 then _ else _
      rw [← hdep, if_pos rfl, had.state]
    · rw [hl]
      exact Accounts.start inst.limits options
  · intro h'
    cases h'
  · intro d hd
    rw [had.diagnostic] at hd
    cases hd
  · intro g hg
    simpa using hg

theorem Inv.top (h : Inv ⟨c, .call f :: rest⟩) :
    c.activeHostInstance = some f.inst ∧ c.hostCallbackDepth = 0 ∧ f.budgetAttached = true ∧
      ∃ inst b, c.instances f.inst = some inst ∧ inst.state = .calling ∧
        inst.runtime.activeHostBudget = some b ∧ Accounts f.ledger b := by
  obtain ⟨-, hzero, -⟩ := h.stack
  obtain ⟨inst, hi, hex⟩ := h.executing f rfl
  obtain ⟨b, hb, hacc⟩ := hex.budget
  refine ⟨h.active, h.depth.trans hzero, hex.attached, inst, b, hi, ?_, hb, hacc⟩
  rw [hex.state]
  exact if_pos hzero

theorem Inv.callEnd (h : Inv ⟨c, .call f :: rest⟩) {r : Status × Ctx} {inst' : Instance}
    (he : Ended c f r inst') : Inv ⟨r.2, rest⟩ := by
  obtain ⟨hnone, hzero, hrest⟩ := h.stack
  obtain ⟨ha, hd, -, inst, b, hi, -, -, -⟩ := h.top
  refine h.replace hi he.same.instances he.same.next (.inr ha) hrest ?_ ?_ ?_ ?_ ?_ ?_
  · rw [hzero, ← hd]
    exact he.same.depth
  · rw [hnone]
    exact he.same.active
  · intro f' hf'
    rw [hnone] at hf'
    cases hf'
  · intro _
    refine ⟨?_, he.budget, he.safePoint⟩
    rw [he.state]
    split
    · exact .inl rfl
    · exact .inr rfl
  · intro d hd
    rw [he.diagnostic] at hd
    cases hd
  · exact fun g hg => List.mem_cons_of_mem _ hg

theorem Inv.push (h : Inv ⟨c, stack⟩) {fr : Frame} (hcb : callbacks (fr :: stack) = callbacks stack)
    (hcf : callFrame (fr :: stack) = callFrame stack) (hok : StackOk (fr :: stack))
    (hp : ∀ f, fr = .create f → Idle f.pending ∧ f.pending.diagnostic = none) :
    Inv ⟨c, fr :: stack⟩ where
  stack := hok
  depth := h.depth.trans hcb.symm
  active := by dsimp only; rw [hcf]; exact h.active
  fresh := h.fresh
  executing := by dsimp only; rw [hcf, hcb]; exact h.executing
  idle := h.idle
  diagnostic := h.diagnostic
  pending := by
    intro f hf
    rcases List.mem_cons.mp hf with hf | hf
    · exact hp f hf.symm
    · exact h.pending f hf

theorem Inv.pop {fr : Frame} (h : Inv ⟨c, fr :: stack⟩) (hcb : callbacks (fr :: stack) = callbacks stack)
    (hcf : callFrame (fr :: stack) = callFrame stack) (hok : StackOk stack) : Inv ⟨c, stack⟩ where
  stack := hok
  depth := h.depth.trans hcb
  active := by dsimp only; rw [← hcf]; exact h.active
  fresh := h.fresh
  executing := by dsimp only; rw [← hcf, ← hcb]; exact h.executing
  idle := h.idle
  diagnostic := h.diagnostic
  pending := fun f hf => h.pending f (List.mem_cons_of_mem _ hf)

theorem Inv.destroy (h : Inv ⟨c, stack⟩) (hi : c.instances i = some inst)
    (hst : inst.state = .ready ∨ inst.state = .faulted) :
    Inv ⟨{ c with instances := update c.instances i none }, stack⟩ where
  stack := h.stack
  depth := h.depth
  active := h.active
  fresh := by
    intro j hj
    by_cases hji : j = i
    · subst hji; exact update_self ..
    · exact (update_of_ne hji ..).trans (h.fresh j hj)
  executing := by
    -- an executing instance is CALLING or CALLING_HOST, so it is not the destroyed one
    intro f hf
    obtain ⟨inst', hi', hex⟩ := h.executing f hf
    refine ⟨inst', (update_of_ne ?_ ..).trans hi', hex⟩
    intro hfi
    dsimp only at hi'
    rw [hfi, hi] at hi'
    cases hi'
    have hs := hex.state
    split at hs <;> rw [hs] at hst <;> simp at hst
  idle := by
    intro j inst' hj hact
    by_cases hji : j = i
    · subst hji; exact absurd ((update_self ..).symm.trans hj) (by simp)
    · exact h.idle j inst' ((update_of_ne hji ..).symm.trans hj) hact
  diagnostic := by
    intro j inst' d hj hd
    by_cases hji : j = i
    · subst hji; exact absurd ((update_self ..).symm.trans hj) (by simp)
    · exact h.diagnostic j inst' d ((update_of_ne hji ..).symm.trans hj) hd
  pending := h.pending

theorem Inv.publish (h : Inv ⟨c, stack⟩) (hid : Idle inst) (hdiag : inst.diagnostic = none) :
    Inv ⟨{ c.setInstance c.nextInstance inst with nextInstance := c.nextInstance + 1 }, stack⟩ where
  stack := h.stack
  depth := h.depth
  active := h.active
  fresh := by
    intro j hj
    have hlt : c.nextInstance + 1 ≤ j := hj
    exact (setInstance_get_ne c inst (by omega)).trans (h.fresh j (by dsimp only; omega))
  executing := by
    intro f hf
    obtain ⟨inst', hi', hex⟩ := h.executing f hf
    refine ⟨inst', (setInstance_get_ne c inst ?_).trans hi', hex⟩
    intro hfi
    have hnone := h.fresh c.nextInstance (Nat.le_refl _)
    dsimp only at hnone hi'
    rw [hfi, hnone] at hi'
    cases hi'
  idle := by
    intro j inst' hj hact
    by_cases hji : j = c.nextInstance
    · subst hji
      have := (setInstance_get c c.nextInstance inst).symm.trans hj
      cases this
      exact hid
    · exact h.idle j inst' ((setInstance_get_ne c inst hji).symm.trans hj) hact
  diagnostic := by
    intro j inst' d hj hd
    by_cases hji : j = c.nextInstance
    · subst hji
      have := (setInstance_get c c.nextInstance inst).symm.trans hj
      cases this
      rw [hdiag] at hd
      cases hd
    · exact h.diagnostic j inst' d ((setInstance_get_ne c inst hji).symm.trans hj) hd
  pending := h.pending

inductive Moves : HostState → Response → HostState → Prop
  /-- An operation that returned at once and changed results or the closing flag only. -/
  | quiet {c c' : Ctx} {stack : List Frame} {r : Response} (hc : c.Same c')
      (hret : ∀ i st l, r ≠ .callReturned i st l) (hrej : ∀ i st, r = .callRejected i st → st ≠ .ok) :
      Moves ⟨c, stack⟩ r ⟨c', stack⟩
  | createBegin {c c' : Ctx} {stack : List Frame} {f : CreateFrame} (hc : c.Same c')
      (hidle : Idle f.pending) (hdiag : f.pending.diagnostic = none) :
      Moves ⟨c, stack⟩ .done ⟨c', .create f :: stack⟩
  | createEnd {c : Ctx} {f : CreateFrame} {rest : List Frame} (o : InitOutcome) :
      Moves ⟨c, .create f :: rest⟩ (.status (instanceCreateEnd c f o).1) ⟨(instanceCreateEnd c f o).2, rest⟩
  | destroyed {c c' : Ctx} {stack : List Frame} {i : Nat} {inst : Instance} {st : Status}
      (hi : c.instances i = some inst) (hst : inst.state = .ready ∨ inst.state = .faulted)
      (hc : ({ c with instances := update c.instances i none } : Ctx).Same c') :
      Moves ⟨c, stack⟩ (.status st) ⟨c', stack⟩
  | callBegin {c c' : Ctx} {stack : List Frame} {i : Nat} {inst inst' : Instance} {f : CallFrame}
      (hi : c.instances i = some inst) (had : Admitted c i inst f c' inst') :
      Moves ⟨c, stack⟩ .done ⟨c', .call f :: stack⟩
  | callEnd {c : Ctx} {f : CallFrame} {rest : List Frame} (o : BackendOutcome) :
      Moves ⟨c, .call f :: rest⟩ (.callReturned f.inst (instanceCallEnd c f o).1 (finalLedger c f o))
        ⟨(instanceCallEnd c f o).2, rest⟩
  | safePoint {c : Ctx} {f : CallFrame} {rest : List Frame} {kind : SafePointKind} {cost : Nat}
      {poll : Bool} (hk : f.ledger.Allows kind cost) :
      Moves ⟨c, .call f :: rest⟩ (.verdict (raiseSafePoint c f kind cost poll).1)
        ⟨(raiseSafePoint c f kind cost poll).2.1, .call (raiseSafePoint c f kind cost poll).2.2 :: rest⟩
  | callbackBegin {c : Ctx} {stack : List Frame} (ownerThread : Bool) (functionName : String)
      (adaptation : Adaptation) (poll : Bool) :
      Moves ⟨c, stack⟩ .done ⟨(callbackBegin c stack ownerThread functionName adaptation poll).1,
          (callbackBegin c stack ownerThread functionName adaptation poll).2⟩
  | callbackEnd {c : Ctx} {active : Option Nat} {functionName : String} {rest : List Frame}
      {r : CallbackResult} {poll : Bool} :
      Moves ⟨c, .callback active functionName :: rest⟩ .done
        ⟨(callbackEnd c active rest functionName r poll).1,
          (callbackEnd c active rest functionName r poll).2⟩
  | interruptBegin {c : Ctx} {stack : List Frame} : Moves ⟨c, stack⟩ .done ⟨c, .interrupt :: stack⟩
  | interruptEnd {c : Ctx} {rest : List Frame} : Moves ⟨c, .interrupt :: rest⟩ .done ⟨c, rest⟩

theorem hostStep_moves {i : Input} (h : Inv s) (hs : hostStep s i = some (s', r)) :
    Moves s r s' := by
  obtain ⟨c, stack⟩ := s
  cases i with
  | create ownerThread m options result outPresent allocated runtimeCreated stored =>
    have hspec := instanceCreateBegin_spec c ownerThread m options result outPresent allocated
      runtimeCreated stored
    simp only [hostStep] at hs
    rcases hcb : instanceCreateBegin c ownerThread m options result outPresent allocated
      runtimeCreated stored with ⟨_ | f, c'⟩
    · rw [hcb] at hs hspec
      cases hs
      exact .quiet hspec.1 (by simp) (by simp)
    · rw [hcb] at hs hspec
      cases hs
      obtain ⟨hidle, hdiag⟩ := hspec.2 f rfl
      exact .createBegin hspec.1 hidle hdiag
  | destroy ownerThread inst result stored =>
    cases inst with
    | none =>
      cases hs
      exact .quiet .rfl (by simp) (by simp)
    | some a =>
      simp only [hostStep] at hs
      split at hs
      · cases hs
      · rename_i inst hi
        cases hs
        rcases @instanceDestroy_spec c a inst ownerThread result stored with hc | ⟨hst, hc⟩
        · exact .quiet hc (by simp) (by simp)
        · exact .destroyed hi hst hc
  | resolve ownerThread inst name result outPresent stored =>
    cases inst with
    | none =>
      cases hs
      exact .quiet .rfl (by simp) (by simp)
    | some a =>
      simp only [hostStep] at hs
      split at hs
      · cases hs
      · cases hs
        exact .quiet (same_instanceResolveExport ..) (by simp) (by simp)
  | call ownerThread inst q result stored =>
    cases inst with
    | none =>
      cases hs
      refine .quiet .rfl (by simp) ?_
      intro i st hrej
      cases hrej
      decide
    | some a =>
      simp only [hostStep] at hs
      split at hs
      · cases hs
      · rename_i inst hi
        rcases @instanceCallBegin_spec c a inst ownerThread q result stored
          (fun hready => h.idle_of_ready hi hready) with
          ⟨st, c', heq, hst, hc⟩ | ⟨f, c', inst', heq, had⟩
        · rw [heq] at hs
          cases hs
          refine .quiet hc (by simp) ?_
          intro i st' hrej
          cases hrej
          exact hst
        · rw [heq] at hs
          cases hs
          exact .callBegin hi had
  | close =>
    cases hs
    exact .quiet ⟨rfl, rfl, rfl, rfl⟩ (by simp) (by simp)
  | _ => cases hs

theorem engineAllows_allows {l : Ledger} {kind : SafePointKind} {cost : Nat}
    (h : engineAllows l kind cost = true) : l.Allows kind cost := by
  intro hk
  subst hk
  simpa [engineAllows] using h

theorem step_moves {i : Input} (h : Inv s) (hs : step s i = some (s', r)) : Moves s r s' := by
  obtain ⟨c, stack⟩ := s
  cases stack with
  | nil => exact hostStep_moves h hs
  | cons fr rest =>
    cases fr with
    | callback active functionName =>
      cases i with
      | callbackReturn r poll => cases hs; exact .callbackEnd
      | _ => simp only [step] at hs; exact hostStep_moves h hs
    | interrupt =>
      cases i with
      | interruptReturn => cases hs; exact .interruptEnd
      | _ => simp only [step] at hs; exact hostStep_moves h hs
    | call f =>
      cases i with
      | safePoint kind cost poll =>
        simp only [step] at hs
        split at hs
        · rename_i hk
          cases hs
          exact .safePoint (engineAllows_allows hk)
        · cases hs
      | interruptPoll => cases hs; exact .interruptBegin
      | callback ownerThread functionName adaptation poll =>
        cases hs
        exact .callbackBegin ownerThread functionName adaptation poll
      | backendReturn o => cases hs; exact .callEnd o
      | _ => cases hs
    | create f =>
      cases i with
      | callback ownerThread functionName adaptation poll =>
        cases hs
        exact .callbackBegin ownerThread functionName adaptation poll
      | initializerReturn o => cases hs; exact .createEnd o
      | _ => cases hs

/-- **One step keeps the invariant.** -/
theorem step_inv {i : Input} (h : Inv s) (hs : step s i = some (s', r)) : Inv s' := by
  cases step_moves h hs with
  | quiet hc => exact h.of_same hc
  | createBegin hc hidle hdiag =>
    refine (h.of_same hc).push rfl rfl (h.of_same hc).stack ?_
    intro f hf
    cases hf
    exact ⟨hidle, hdiag⟩
  | @createEnd c f rest o =>
    have hpop := h.pop rfl rfl h.stack
    obtain ⟨hidle, hdiag⟩ := h.pending f (List.mem_cons_self ..)
    rcases instanceCreateEnd_spec c f o with hc | ⟨g, hc⟩
    · exact hpop.of_same hc
    · have hidle' : Idle { f.pending with generation := g } :=
        ⟨hidle.state, hidle.budget, hidle.safePoint⟩
      exact (hpop.publish hidle' hdiag).of_same hc
  | destroyed hi hst hc => exact (h.destroy hi hst).of_same hc
  | callBegin hi had => exact h.callBegin hi had
  | callEnd o =>
    obtain ⟨ha, hd, hatt, inst, b, hi, hst, hb, -⟩ := h.top
    obtain ⟨⟨inst', he⟩, -⟩ := instanceCallEnd_spec ha hd hatt o hi hst hb
      (fun d hdg => h.diagnostic _ inst d hi hdg)
    exact h.callEnd he
  | safePoint hk => exact h.raiseSafePoint hk _
  | callbackBegin => exact h.callbackBegin ..
  | callbackEnd => exact h.callbackEnd ..
  | interruptBegin => exact h.push rfl rfl h.stack (fun f hf => by cases hf)
  | interruptEnd => exact h.pop rfl rfl h.stack

/-- **The invariant holds in every reachable state.** -/
theorem Reachable.inv (h : Reachable s) : Inv s := by
  obtain ⟨is, hrun⟩ := h
  exact Lib.run_invariant (fun _ _ _ _ hp hs => step_inv hp hs) is _ s Inv.initial hrun

/-! ## Instances that do not execute are left alone -/

theorem runtimeThrow_other (status : Status) (functionName message : String)
    (hj : c.activeHostInstance ≠ some j) :
    (Host.runtimeThrow c status functionName message).instances j = c.instances j ∧
      (Host.runtimeThrow c status functionName message).nextInstance = c.nextInstance := by
  unfold Host.runtimeThrow
  split
  · exact ⟨rfl, rfl⟩
  · rename_i i ha
    split
    · exact ⟨rfl, rfl⟩
    · refine ⟨setInstance_get_ne _ _ ?_, rfl⟩
      intro hji
      exact hj (hji ▸ ha)

theorem raiseSafePoint_other (kind : SafePointKind) (cost : Nat) (poll : Bool) (hj : j ≠ f.inst) :
    (Host.raiseSafePoint c f kind cost poll).2.1.instances j = c.instances j ∧
      (Host.raiseSafePoint c f kind cost poll).2.1.nextInstance = c.nextInstance ∧
      (Host.raiseSafePoint c f kind cost poll).2.1.activeHostInstance = c.activeHostInstance := by
  unfold Host.raiseSafePoint
  split
  · exact ⟨rfl, rfl, rfl⟩
  · exact ⟨setInstance_get_ne _ _ hj, rfl, rfl⟩

theorem raiseOnTop_other (h : Inv ⟨c, stack⟩) (kind : SafePointKind) (cost : Nat) (poll : Bool)
    (hj : c.activeHostInstance ≠ some j) :
    (Host.raiseOnTop c stack kind cost poll).2.1.instances j = c.instances j ∧
      (Host.raiseOnTop c stack kind cost poll).2.1.nextInstance = c.nextInstance ∧
      (Host.raiseOnTop c stack kind cost poll).2.1.activeHostInstance = c.activeHostInstance := by
  unfold Host.raiseOnTop
  split
  · refine raiseSafePoint_other kind cost poll ?_
    intro hji
    subst hji
    exact hj h.active
  · exact ⟨rfl, rfl, rfl⟩

theorem enterCallback_other (h : Inv ⟨c, stack⟩) (he : Host.enterCallback c = (.ok, active, c'))
    (hj : c.activeHostInstance ≠ some j) :
    c'.instances j = c.instances j ∧ c'.nextInstance = c.nextInstance := by
  have hlive : ∀ i, c.activeHostInstance = some i → ∃ inst, c.instances i = some inst := by
    intro i ha
    obtain ⟨f, inst, -, -, hi, -⟩ := h.live ha
    exact ⟨inst, hi⟩
  rcases enterCallback_ok he hlive with ⟨-, -, rfl⟩ | ⟨i, inst, ha, -, -, -, rfl⟩
  · exact ⟨rfl, rfl⟩
  · refine ⟨setInstance_get_ne _ _ ?_, rfl⟩
    intro hji
    exact hj (hji ▸ ha)

theorem callbackBegin_other (h : Inv ⟨c, stack⟩) (ownerThread : Bool) (functionName : String)
    (adaptation : Adaptation) (poll : Bool) (hj : c.activeHostInstance ≠ some j) :
    (Host.callbackBegin c stack ownerThread functionName adaptation poll).1.instances j = c.instances j ∧
      (Host.callbackBegin c stack ownerThread functionName adaptation poll).1.nextInstance
        = c.nextInstance := by
  unfold Host.callbackBegin
  split
  · exact runtimeThrow_other _ _ _ hj
  split
  · exact runtimeThrow_other _ _ _ hj
  have hr := h.raiseOnTop (show SafePointKind.callbackBefore ≠ .functionLeave by decide) 1 poll
  have ho := raiseOnTop_other h .callbackBefore 1 poll hj
  rcases hro : Host.raiseOnTop c stack .callbackBefore 1 poll with ⟨_ | _, c₁, stack₁⟩
  · rw [hro] at ho
    exact ⟨ho.1, ho.2.1⟩
  · rw [hro] at ho hr
    dsimp only at ho hr ⊢
    have hj₁ : c₁.activeHostInstance ≠ some j := by rw [ho.2.2]; exact hj
    rcases he : Host.enterCallback c₁ with ⟨st, active, c₂⟩
    by_cases hok : st = .ok
    · subst hok
      obtain ⟨h1, h2⟩ := enterCallback_other hr he hj₁
      exact ⟨h1.trans ho.1, h2.trans ho.2.1⟩
    · have hc := enterCallback_fail he hok
      subst hc
      have ht := @runtimeThrow_other c₂ j st functionName "host callback state transition failed" hj₁
      cases st with
      | ok => exact absurd rfl hok
      | _ => exact ⟨ht.1.trans ho.1, ht.2.trans ho.2.1⟩

theorem leaveCallback_other (h : Inv ⟨c, .callback active functionName :: rest⟩)
    (hj : c.activeHostInstance ≠ some j) :
    (Host.leaveCallback c active).instances j = c.instances j ∧
      (Host.leaveCallback c active).nextInstance = c.nextInstance ∧
      (Host.leaveCallback c active).activeHostInstance = c.activeHostInstance := by
  have hact : active = c.activeHostInstance := h.stack.1.trans h.active.symm
  unfold Host.leaveCallback
  split
  · exact ⟨rfl, rfl, rfl⟩
  cases active with
  | none => exact ⟨rfl, rfl, rfl⟩
  | some i =>
    dsimp only
    split
    · exact ⟨rfl, rfl, rfl⟩
    split
    · refine ⟨setInstance_get_ne _ _ ?_, rfl, rfl⟩
      intro hji
      exact hj (hji ▸ hact.symm)
    · exact ⟨rfl, rfl, rfl⟩

theorem callbackEnd_other (h : Inv ⟨c, .callback active functionName :: rest⟩)
    (r : CallbackResult) (poll : Bool) (hj : c.activeHostInstance ≠ some j) :
    (Host.callbackEnd c active rest functionName r poll).1.instances j = c.instances j ∧
      (Host.callbackEnd c active rest functionName r poll).1.nextInstance = c.nextInstance := by
  obtain ⟨h1, h2, h3⟩ := leaveCallback_other h hj
  have hj' : (Host.leaveCallback c active).activeHostInstance ≠ some j := by rw [h3]; exact hj
  have hthrow : ∀ (status : Status) (message : String),
      (Host.runtimeThrow (Host.leaveCallback c active) status functionName message).instances j
          = c.instances j ∧
        (Host.runtimeThrow (Host.leaveCallback c active) status functionName message).nextInstance
          = c.nextInstance := by
    intro status message
    have ht := runtimeThrow_other status functionName message hj'
    exact ⟨ht.1.trans h1, ht.2.trans h2⟩
  unfold Host.callbackEnd
  dsimp only
  split
  · have ho := raiseOnTop_other h.leaveCallback .callbackAfter 0 poll hj'
    exact ⟨ho.1.trans h1, ho.2.1.trans h2⟩
  split
  · exact hthrow ..
  split
  · exact hthrow ..
  split
  · exact hthrow ..
  · exact hthrow ..

/-- Later states of a history: addresses are never reused, and an instance that is FAULTED
    stays so as long as it exists. -/
def Persists (s t : HostState) : Prop :=
  s.ctx.nextInstance ≤ t.ctx.nextInstance ∧ ∀ i, i < s.ctx.nextInstance →
      (s.ctx.instances i = none → t.ctx.instances i = none) ∧
      ∀ inst inst', s.ctx.instances i = some inst → inst.state = .faulted →
        t.ctx.instances i = some inst' → inst'.state = .faulted

theorem Persists.refl (s : HostState) : Persists s s := by
  refine ⟨Nat.le_refl _, fun i _ => ⟨fun h => h, ?_⟩⟩
  intro inst inst' h hst h'
  rw [h] at h'
  cases h'
  exact hst

theorem Persists.trans {t u : HostState} (h : Persists s t) (h' : Persists t u) :
    Persists s u := by
  refine ⟨Nat.le_trans h.1 h'.1, fun i hi => ?_⟩
  obtain ⟨hn, hf⟩ := h.2 i hi
  obtain ⟨hn', hf'⟩ := h'.2 i (Nat.lt_of_lt_of_le hi h.1)
  refine ⟨fun hs => hn' (hn hs), ?_⟩
  intro inst inst' hs hst hu
  cases ht : t.ctx.instances i with
  | none => rw [hn' ht] at hu; cases hu
  | some inst₁ => exact hf' inst₁ inst' ht (hf inst inst₁ hs hst ht) hu

theorem Persists.of_other {t : HostState} (hn : t.ctx.nextInstance = s.ctx.nextInstance) (P : Nat → Prop)
    (hP : ∀ i, P i → ∃ inst, s.ctx.instances i = some inst ∧ inst.state ≠ .faulted)
    (ho : ∀ i, ¬P i → t.ctx.instances i = s.ctx.instances i) : Persists s t := by
  refine ⟨Nat.le_of_eq hn.symm, fun i _ => ?_⟩
  by_cases hi : P i
  · obtain ⟨inst, his, hst⟩ := hP i hi
    refine ⟨fun h => ?_, ?_⟩
    · rw [his] at h; cases h
    · intro inst₁ inst' h hf
      rw [his] at h
      cases h
      exact absurd hf hst
  · rw [ho i hi]
    refine ⟨fun h => h, ?_⟩
    intro inst inst' h hf h'
    rw [h] at h'
    cases h'
    exact hf

theorem Inv.active_not_faulted (h : Inv s) (ha : s.ctx.activeHostInstance = some i) :
    ∃ inst, s.ctx.instances i = some inst ∧ inst.state ≠ .faulted := by
  obtain ⟨f, inst, -, -, hi, hex⟩ := h.live ha
  refine ⟨inst, hi, ?_⟩
  rw [hex.state]
  split <;> decide

theorem step_persists {i : Input} (h : Inv s) (hs : step s i = some (s', r)) : Persists s s' := by
  have hactive : ∀ t : HostState, t.ctx.nextInstance = s.ctx.nextInstance →
      (∀ j, s.ctx.activeHostInstance ≠ some j → t.ctx.instances j = s.ctx.instances j) →
      Persists s t := fun t hn ho =>
    Persists.of_other hn (fun j => s.ctx.activeHostInstance = some j)
      (fun _ hj => h.active_not_faulted hj) ho
  cases step_moves h hs with
  | quiet hc | createBegin hc => exact hactive _ hc.next (fun j _ => congrFun hc.instances j)
  | @createEnd c f rest o =>
    rcases instanceCreateEnd_spec c f o with hc | ⟨g, hc⟩
    · exact hactive _ hc.next (fun j _ => congrFun hc.instances j)
    · refine ⟨by dsimp only; rw [hc.next]; exact Nat.le_succ _, fun i hi => ?_⟩
      dsimp only at hi ⊢
      rw [hc.instances]
      dsimp only
      rw [setInstance_get_ne _ _ (Nat.ne_of_lt hi)]
      exact (Persists.refl ⟨c, .create f :: rest⟩).2 i hi
  | @destroyed c c' stack a inst st hi hst hc =>
    refine ⟨Nat.le_of_eq hc.next.symm, fun j hj => ?_⟩
    dsimp only at hj ⊢
    rw [hc.instances]
    dsimp only
    by_cases hja : j = a
    · subst hja
      rw [update_self]
      exact ⟨fun _ => rfl, fun _ _ _ _ h' => by cases h'⟩
    · rw [update_of_ne hja]
      exact (Persists.refl ⟨c, stack⟩).2 j hj
  | @callBegin c c' stack a inst inst' f hi had =>
    refine Persists.of_other had.same.next (fun j => j = a) ?_ ?_
    · rintro j rfl
      exact ⟨inst, hi, by rw [had.ready]; decide⟩
    · intro j hj
      exact (congrFun had.same.instances j).trans (setInstance_get_ne c inst' hj)
  | @callEnd c f rest o =>
    obtain ⟨ha, hd, hatt, inst, b, hi, hst, hb, -⟩ := h.top
    obtain ⟨⟨inst', he⟩, -⟩ := instanceCallEnd_spec ha hd hatt o hi hst hb
      (fun d hdg => h.diagnostic _ inst d hi hdg)
    refine hactive _ he.same.next (fun j hj => ?_)
    refine (congrFun he.same.instances j).trans (setInstance_get_ne c inst' ?_)
    rintro rfl
    exact hj ha
  | @safePoint c f rest kind cost poll hk =>
    have hother := fun j (hj : c.activeHostInstance ≠ some j) =>
      @raiseSafePoint_other c j f kind cost poll (by rintro rfl; exact hj h.active)
    refine hactive _ ?_ (fun j hj => (hother j hj).1)
    unfold raiseSafePoint
    split <;> rfl
  | @callbackBegin c stack ownerThread functionName adaptation poll =>
    have hother := fun j (hj : c.activeHostInstance ≠ some j) =>
      callbackBegin_other h ownerThread functionName adaptation poll hj
    obtain ⟨j, hj⟩ : ∃ j, c.activeHostInstance ≠ some j := by
      cases c.activeHostInstance with
      | none => exact ⟨0, by simp⟩
      | some a => exact ⟨a + 1, by simp⟩
    exact hactive _ (hother j hj).2 (fun j hj => (hother j hj).1)
  | @callbackEnd c active functionName rest r poll =>
    have hother := fun j (hj : c.activeHostInstance ≠ some j) => callbackEnd_other h r poll hj
    obtain ⟨j, hj⟩ : ∃ j, c.activeHostInstance ≠ some j := by
      cases c.activeHostInstance with
      | none => exact ⟨0, by simp⟩
      | some a => exact ⟨a + 1, by simp⟩
    exact hactive _ (hother j hj).2 (fun j hj => (hother j hj).1)
  | interruptBegin | interruptEnd => exact hactive _ rfl (fun _ _ => rfl)

def Instance.InCall (inst : Instance) : Prop :=
  inst.state = .calling ∨ inst.state = .callingHost

theorem Inv.inCall_iff (h : Inv s) (hi : s.ctx.instances i = some inst) :
    inst.InCall ↔ s.ctx.activeHostInstance = some i := by
  constructor
  · intro hin
    by_contra hact
    have hid := (h.idle i inst hi hact).state
    rcases hin with hin | hin <;> rw [hin] at hid <;> simp at hid
  · intro hact
    obtain ⟨f, inst', -, -, hi', hex⟩ := h.live hact
    rw [hi] at hi'
    cases hi'
    have hs := hex.state
    split at hs
    · exact .inl hs
    · exact .inr hs

/-! ## How calls end -/

/-- An admitted call that returns: it was on top of the stack, nothing executes any more, and
    its instance is READY or FAULTED by the status. -/
theorem callReturned_spec {i : Input} {a : Nat} {st : Status} {l : Ledger} (h : Inv s)
    (hs : step s i = some (s', .callReturned a st l)) :
    (∃ f, s.stack = .call f :: s'.stack ∧ f.inst = a) ∧ s'.ctx.activeHostInstance = none ∧
      s'.ctx.hostCallbackDepth = 0 ∧
      ∃ inst, s'.ctx.instances a = some inst ∧ inst.state = if st = .ok then .ready else .faulted := by
  cases step_moves h hs with
  | quiet _ hret => exact absurd rfl (hret a st l)
  | @callEnd c f rest o =>
    obtain ⟨ha, hd, hatt, inst, b, hi, hst, hb, -⟩ := h.top
    obtain ⟨⟨inst', he⟩, -⟩ := instanceCallEnd_spec ha hd hatt o hi hst hb
      (fun d hdg => h.diagnostic _ inst d hi hdg)
    refine ⟨⟨f, rfl, rfl⟩, he.same.active, he.same.depth.trans hd, inst', ?_, he.state⟩
    exact (congrFun he.same.instances f.inst).trans (setInstance_get c f.inst inst')

theorem callRejected_spec {i : Input} {a : Option Nat} {st : Status} (h : Inv s)
    (hs : step s i = some (s', .callRejected a st)) :
    st ≠ .ok ∧ s'.stack = s.stack ∧ s.ctx.Same s'.ctx := by
  cases step_moves h hs with
  | quiet hc _ hrej => exact ⟨hrej a st rfl, rfl, hc⟩

theorem callAdmitted_spec {ownerThread : Bool} {a : Nat} {q : CallRequest} {result : ResultArg}
    {stored : Status} (h : Inv s)
    (hs : step s (.call ownerThread (some a) q result stored) = some (s', .done)) :
    ∃ f, s'.stack = .call f :: s.stack ∧ f.inst = a ∧ s'.ctx.activeHostInstance = some a := by
  obtain ⟨c, stack⟩ := s
  have hstep : hostStep ⟨c, stack⟩ (.call ownerThread (some a) q result stored) = some (s', .done) := by
    cases stack with
    | nil => exact hs
    | cons fr rest =>
      cases fr with
      | callback | interrupt => exact hs
      | call | create => cases hs
  simp only [hostStep] at hstep
  split at hstep
  · cases hstep
  rename_i inst hi
  rcases @instanceCallBegin_spec c a inst ownerThread q result stored
    (fun hready => h.idle_of_ready hi hready) with
    ⟨st, c', heq, -, -⟩ | ⟨f, c', inst', heq, had⟩
  · rw [heq] at hstep
    cases hstep
  · rw [heq] at hstep
    cases hstep
    exact ⟨f, rfl, had.frame, had.same.active⟩

/-- **The host call state machine.** In every state that a history of API operations reaches:
    the instances inside a call are exactly the active one, the callback depth is the number
    of callbacks on the stack, FAULTED lasts until destruction, at the top level nothing is
    active, and every call ends in the state its outcome names. -/
theorem host_call_state_machine (is : List Input) (s : HostState)
    (hrun : Lib.run step HostState.initial is = some s) :
    (∀ i inst, s.ctx.instances i = some inst → (inst.InCall ↔ s.ctx.activeHostInstance = some i)) ∧
    (∀ i, s.ctx.activeHostInstance = some i → ∃ inst, s.ctx.instances i = some inst) ∧
    (∀ i j inst inst', s.ctx.instances i = some inst → s.ctx.instances j = some inst' →
      inst.InCall → inst'.InCall → i = j) ∧
    s.ctx.hostCallbackDepth = callbacks s.stack ∧
    (∀ is' t, Lib.run step s is' = some t → Persists s t) ∧
    (s.stack = [] → s.ctx.activeHostInstance = none ∧ s.ctx.hostCallbackDepth = 0) ∧
    (∀ ownerThread a q result stored s',
      step s (.call ownerThread (some a) q result stored) = some (s', .done) →
      ∃ f, s'.stack = .call f :: s.stack ∧ f.inst = a ∧ s'.ctx.activeHostInstance = some a) ∧
    (∀ i s' a st l, step s i = some (s', .callReturned a st l) →
      (∃ f, s.stack = .call f :: s'.stack ∧ f.inst = a) ∧ s'.ctx.activeHostInstance = none ∧
        s'.ctx.hostCallbackDepth = 0 ∧
        ∃ inst, s'.ctx.instances a = some inst ∧ inst.state = if st = .ok then .ready else .faulted) ∧
    (∀ i s' a st, step s i = some (s', .callRejected a st) →
      st ≠ .ok ∧ s'.stack = s.stack ∧ s'.ctx.instances = s.ctx.instances ∧
        s'.ctx.activeHostInstance = s.ctx.activeHostInstance ∧
        s'.ctx.hostCallbackDepth = s.ctx.hostCallbackDepth) := by
  have h : Inv s := Reachable.inv ⟨is, hrun⟩
  refine ⟨fun i inst hi => h.inCall_iff hi, ?_, ?_, h.depth, ?_, ?_, ?_, ?_, ?_⟩
  · intro i ha
    obtain ⟨f, inst, -, -, hi, -⟩ := h.live ha
    exact ⟨inst, hi⟩
  · intro i j inst inst' hi hj hin hin'
    have hai := (h.inCall_iff hi).mp hin
    rw [(h.inCall_iff hj).mp hin'] at hai
    exact (Option.some.inj hai).symm
  · intro is' t ht
    exact Lib.run_relates Persists.refl (fun _ _ _ => Persists.trans)
      (fun _ _ _ _ hp hs => step_inv hp hs) (fun _ _ _ _ hp hs => step_persists hp hs) is' s t h ht
  · intro hnil
    have ha := h.active
    have hd := h.depth
    rw [hnil] at ha hd
    exact ⟨ha, hd⟩
  · exact fun _ _ _ _ _ _ hs => callAdmitted_spec h hs
  · exact fun _ _ _ _ _ hs => callReturned_spec h hs
  · intro i s' a st hs
    obtain ⟨hne, hstack, hc⟩ := callRejected_spec h hs
    exact ⟨hne, hstack, hc.instances, hc.active, hc.depth⟩

/-- A module with one export, an instance of it, a call, and inside the call a callback that
    tries to call the same instance again. -/
def nestedHistory : List Input :=
  let options : InstanceOptions := ⟨true, true, false, 1000, 1000, 8, 8, 8, true, 8, 100⟩
  let q : CallRequest :=
    ⟨2 ^ 32 + 1, false, 0, some ⟨true, 8, 100, 100, 8, true, 100, false⟩, .ok, .ok⟩
  [.create true ⟨"m", [⟨"f", 0⟩], true⟩ (some options) (.own 0) true true .ok .ok,
   .initializerReturn ⟨.ok, .ok, 10, .ok⟩,
   .call true (some 0) q (.own 0) .ok,
   .safePoint .step 1 false,
   .callback true "host" .adapted false,
   .call true (some 0) q (.own 1) .ok]

theorem host_call_state_machine_nested : ∃ s, Lib.run step HostState.initial nestedHistory = some s ∧
      s.ctx.activeHostInstance = some 0 ∧ s.ctx.hostCallbackDepth = 1 := by
  refine ⟨_, rfl, rfl, ?_⟩
  exact (host_call_state_machine nestedHistory _ rfl).2.2.2.1

end TurboScript.Host
