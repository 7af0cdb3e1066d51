import Mathlib.Algebra.Order.Ring.Int
import Mathlib.Data.List.Basic

/- The per-call budget and its safe points (`host/turbo_script_host_limits.c`).

   A C `int` result is a `Bool`: `true` for 0 (the safe point is accepted), `false`
   for -1. The interrupt hook is host code: `poll` is the answer it gives if the safe
   point asks it. The counters are Nats; every C subtraction is behind its guard. -/
namespace TurboScript.Host

/-- `turbo_script_status_t`. -/
inductive Status
  | ok | invalidArgument | outOfMemory | wrongThread | invalidState | contextMismatch
  | parseError | validationError | limitExceeded | invalidUtf8 | duplicateRecordKey | notFound
  | invalidExportHandle | unsupportedBackendSemantic | runtimeError | hostError | reentrantCall
  | interrupted
  deriving DecidableEq, Repr

/-- `turbo_script_error_phase_t`. -/
inductive Phase
  | none | compile | instantiate | resolve | call | hostCallback | interrupt
  deriving DecidableEq, Repr

/-- `turbo_script_error_code_t`, as far as the host layer writes it. -/
inductive ErrorCode
  | none | argument | oom | state | runtime | cancelled
  deriving DecidableEq, Repr

/-- `exprtk_safe_point_kind_t`; `other` is any value outside the enumeration. -/
inductive SafePointKind
  | step | loop | callbackBefore | callbackAfter | functionEnter | functionLeave | retainedBytes
  | other
  deriving DecidableEq, Repr

def u32Max : Nat := 2 ^ 32 - 1

def hardStepLimit : Nat := 100000
def hardLoopLimit : Nat := 10000
def hardCallbackLimit : Nat := 1024
def hardRecursionLimit : Nat := 100
def interruptStepInterval : Nat := 256

/-- `turbo_script_instance_options_t`. -/
structure InstanceOptions where
  structSizeValid : Bool
  modeValid : Bool
  jit : Bool
  maxRetainedBytes : Nat
  maxStackBytes : Nat
  maxRecursion : Nat
  maxGlobals : Nat
  maxValueDepth : Nat
  reservedZero : Bool
  maxValueNodes : Nat
  maxResultBytes : Nat
  deriving DecidableEq, Repr

/-- `turbo_script_call_options_t`; `interrupt` says whether a hook is installed. -/
structure CallOptions where
  structSizeValid : Bool
  maxRecursion : Nat
  maxSteps : Nat
  maxLoopIterations : Nat
  maxHostCallbacks : Nat
  reservedZero : Bool
  maxResultBytes : Nat
  interrupt : Bool
  deriving DecidableEq, Repr

/-- `ts_host_call_budget_t`. -/
structure CallBudget where
  stepsLeft : Nat
  loopsLeft : Nat
  callbacksLeft : Nat
  recursionLeft : Nat
  recursionLimit : Nat
  interruptStepAccumulator : Nat
  stackBytesLeft : Nat
  stackBytesLimit : Nat
  resultBytesLeft : Nat
  retainedBytesLimit : Nat
  interrupt : Bool
  failureStatus : Status
  failurePhase : Phase
  failureMessage : Option String
  deriving DecidableEq, Repr

def callBudgetInit (limits : InstanceOptions) (options : CallOptions) : CallBudget where
  stepsLeft := min options.maxSteps hardStepLimit
  loopsLeft := min options.maxLoopIterations hardLoopLimit
  callbacksLeft := min options.maxHostCallbacks hardCallbackLimit
  recursionLeft := min (min options.maxRecursion limits.maxRecursion) hardRecursionLimit
  recursionLimit := min (min options.maxRecursion limits.maxRecursion) hardRecursionLimit
  interruptStepAccumulator := 0
  stackBytesLeft := limits.maxStackBytes
  stackBytesLimit := limits.maxStackBytes
  resultBytesLeft := min options.maxResultBytes limits.maxResultBytes
  retainedBytesLimit := limits.maxRetainedBytes
  interrupt := options.interrupt
  failureStatus := .ok
  failurePhase := .none
  failureMessage := none

/-- Latch the first failure; the call always reports -1. -/
def budgetFail (b : CallBudget) (status : Status) (phase : Phase) (message : String) : Bool × CallBudget :=
  if b.failureStatus = .ok then
    (false, { b with failureStatus := status, failurePhase := phase
                     failureMessage := some message })
  else (false, b)

def budgetPollInterrupt (b : CallBudget) (poll : Bool) : Bool × CallBudget :=
  if !b.interrupt then (true, b)
  else if !poll then (true, b)
  else budgetFail b .interrupted .interrupt "call interrupted"

/-- `remaining` is the counter the C code passes by address, `commit` writes it back. -/
def budgetChargeU32 (b : CallBudget) (remaining : Nat) (commit : Nat → CallBudget) (cost : Nat)
    (message : String) : Bool × CallBudget :=
  if cost > u32Max ∨ remaining < cost then budgetFail b .limitExceeded .call message
  else (true, commit (remaining - cost))

/-- The accumulator of charged steps: it saturates at the interval, and asking the hook
    resets it. -/
def pollAfterSteps (b : CallBudget) (cost : Nat) (poll : Bool) : Bool × CallBudget :=
  let acc :=
    if b.interruptStepAccumulator > u32Max - cost then interruptStepInterval
    else b.interruptStepAccumulator + cost
  if acc ≥ interruptStepInterval then
    budgetPollInterrupt { b with interruptStepAccumulator := 0 } poll
  else (true, { b with interruptStepAccumulator := acc })

/-- The switch of `ts_host_safe_point` on a budget without a latched failure. -/
def budgetCharge (b : CallBudget) (kind : SafePointKind) (cost : Nat) (poll : Bool) : Bool × CallBudget :=
  match kind with
  | .step =>
    match budgetChargeU32 b b.stepsLeft (fun n => { b with stepsLeft := n }) cost
      "call step quota exceeded" with
    | (true, b) => pollAfterSteps b cost poll
    | r => r
  | .loop =>
    match budgetChargeU32 b b.loopsLeft (fun n => { b with loopsLeft := n }) cost
      "call loop quota exceeded" with
    | (true, b) => budgetPollInterrupt b poll
    | r => r
  | .callbackBefore =>
    match budgetChargeU32 b b.callbacksLeft (fun n => { b with callbacksLeft := n }) cost
      "call callback quota exceeded" with
    | (true, b) => budgetPollInterrupt b poll
    | r => r
  | .callbackAfter => budgetPollInterrupt b poll
  | .functionEnter =>
    if b.recursionLeft = 0 then
      budgetFail b .limitExceeded .call "call recursion quota exceeded"
    else if b.stackBytesLeft < cost then
      budgetFail b .limitExceeded .call "call stack quota exceeded"
    else
      -- the frame is charged before the hook is asked
      budgetPollInterrupt
        { b with recursionLeft := b.recursionLeft - 1, stackBytesLeft := b.stackBytesLeft - cost }
        poll
  | .functionLeave =>
    if cost > b.stackBytesLimit ∨ b.recursionLeft ≥ b.recursionLimit ∨
        b.stackBytesLeft > b.stackBytesLimit - cost then
      budgetFail b .invalidState .call "call frame accounting is inconsistent"
    else
      (true, { b with recursionLeft := b.recursionLeft + 1
                      stackBytesLeft := b.stackBytesLeft + cost })
  | .retainedBytes =>
    if cost > b.retainedBytesLimit then
      budgetFail b .limitExceeded .call "call retained memory quota exceeded"
    else (true, b)
  | .other => budgetFail b .invalidState .call "invalid call safe point"

/-- A latched failure rejects every safe point before the switch. -/
def budgetSafePoint (b : CallBudget) (kind : SafePointKind) (cost : Nat) (poll : Bool) :
    Bool × CallBudget :=
  if b.failureStatus ≠ .ok then (false, b) else budgetCharge b kind cost poll

/-- The fields of an instance's runtime context and its environment that the host call
    boundary reads or writes. -/
structure RuntimeCtx where
  activeHostBudget : Option CallBudget
  safePointInstalled : Bool
  aborted : Bool
  errorCode : ErrorCode
  errorMsg : String
  envErrorMsg : String
  maxRecursion : Nat
  maxNodes : Nat
  maxLoopIterations : Nat
  deriving DecidableEq, Repr

def callBudgetAttach (rt : RuntimeCtx) (b : CallBudget) : Status × RuntimeCtx :=
  if rt.activeHostBudget.isSome ∨ rt.safePointInstalled then (.invalidState, rt)
  else (.ok, { rt with activeHostBudget := some b, safePointInstalled := true })

def callBudgetDetach (rt : RuntimeCtx) : RuntimeCtx :=
  { rt with activeHostBudget := none, safePointInstalled := false }

/-- A rejected safe point also aborts the environment and copies the latched message. -/
def markAborted (rt : RuntimeCtx) (b : CallBudget) : RuntimeCtx :=
  let message := b.failureMessage.getD "call budget failed"
  { rt with aborted := true
            errorCode := if b.failureStatus = .interrupted then .cancelled else .runtime
            envErrorMsg := message
            errorMsg := message }

def safePoint (rt : RuntimeCtx) (kind : SafePointKind) (cost : Nat) (poll : Bool) : Bool × RuntimeCtx :=
  match rt.activeHostBudget with
  | none => (true, rt)
  | some b =>
    -- the early return on a latched failure does not write the context again
    if b.failureStatus ≠ .ok then (false, rt)
    else
      match budgetCharge b kind cost poll with
      | (true, b') => (true, { rt with activeHostBudget := some b' })
      | (false, b') => (false, markAborted { rt with activeHostBudget := some b' } b')

/-! ## One safe point -/

variable {b c : CallBudget} {status : Status} {poll : Bool} {cost : Nat} {message : String}
  {kind : SafePointKind}

theorem budgetSafePoint_latched (h : b.failureStatus ≠ .ok) (kind : SafePointKind) (cost : Nat)
    (poll : Bool) :
    budgetSafePoint b kind cost poll = (false, b) := by
  simp only [budgetSafePoint, ne_eq, h, not_false_eq_true, if_true]

/-- `ts_host_safe_point` acts on the attached budget as `budgetSafePoint`. -/
theorem safePoint_budget {rt : RuntimeCtx} (h : rt.activeHostBudget = some b)
    (kind : SafePointKind) (cost : Nat) (poll : Bool) :
    (safePoint rt kind cost poll).1 = (budgetSafePoint b kind cost poll).1 ∧
      (safePoint rt kind cost poll).2.activeHostBudget = some (budgetSafePoint b kind cost poll).2 := by
  simp only [safePoint, h, budgetSafePoint]
  split
  · exact ⟨rfl, h⟩
  · rcases budgetCharge b kind cost poll with ⟨_ | _, b'⟩
    · exact ⟨rfl, rfl⟩
    · exact ⟨rfl, rfl⟩

theorem budgetFail_latches (b : CallBudget) (h : status ≠ .ok) (phase : Phase) (message : String) :
    (budgetFail b status phase message).2.failureStatus ≠ .ok := by
  unfold budgetFail
  split
  · exact h
  · assumption

theorem budgetPollInterrupt_latches (h : (budgetPollInterrupt b poll).1 = false) :
    (budgetPollInterrupt b poll).2.failureStatus ≠ .ok := by
  unfold budgetPollInterrupt at h ⊢
  split
  · simp_all
  · split
    · simp_all
    · exact budgetFail_latches _ (by decide) _ _

theorem pollAfterSteps_latches (h : (pollAfterSteps b cost poll).1 = false) :
    (pollAfterSteps b cost poll).2.failureStatus ≠ .ok := by
  unfold pollAfterSteps at h ⊢
  dsimp only at h ⊢
  generalize (if b.interruptStepAccumulator > u32Max - cost then interruptStepInterval
    else b.interruptStepAccumulator + cost) = acc at h ⊢
  by_cases hacc : acc ≥ interruptStepInterval
  · rw [if_pos hacc] at h ⊢
    exact budgetPollInterrupt_latches h
  · rw [if_neg hacc] at h
    cases h

theorem budgetChargeU32_latches {remaining : Nat} {commit : Nat → CallBudget} {b' : CallBudget}
    (h : budgetChargeU32 b remaining commit cost message = (false, b')) :
    b'.failureStatus ≠ .ok := by
  unfold budgetChargeU32 at h
  split at h
  · rw [← show (budgetFail b .limitExceeded .call message).2 = b' by rw [h]]
    exact budgetFail_latches _ (by decide) _ _
  · cases h

theorem budgetCharge_latches (h : (budgetCharge b kind cost poll).1 = false) :
    (budgetCharge b kind cost poll).2.failureStatus ≠ .ok := by
  cases kind with
  | step =>
    simp only [budgetCharge] at h ⊢
    rcases hc : budgetChargeU32 b b.stepsLeft (fun n => { b with stepsLeft := n }) cost
      "call step quota exceeded" with ⟨_ | _, b'⟩
    · exact budgetChargeU32_latches hc
    · rw [hc] at h
      exact pollAfterSteps_latches h
  | loop =>
    simp only [budgetCharge] at h ⊢
    rcases hc : budgetChargeU32 b b.loopsLeft (fun n => { b with loopsLeft := n }) cost
      "call loop quota exceeded" with ⟨_ | _, b'⟩
    · exact budgetChargeU32_latches hc
    · rw [hc] at h
      exact budgetPollInterrupt_latches h
  | callbackBefore =>
    simp only [budgetCharge] at h ⊢
    rcases hc : budgetChargeU32 b b.callbacksLeft (fun n => { b with callbacksLeft := n }) cost
      "call callback quota exceeded" with ⟨_ | _, b'⟩
    · exact budgetChargeU32_latches hc
    · rw [hc] at h
      exact budgetPollInterrupt_latches h
  | callbackAfter => exact budgetPollInterrupt_latches h
  | functionEnter =>
    simp only [budgetCharge] at h ⊢
    split
    · exact budgetFail_latches _ (by decide) _ _
    · split
      · exact budgetFail_latches _ (by decide) _ _
      · rename_i hr hs
        rw [if_neg hr, if_neg hs] at h
        exact budgetPollInterrupt_latches h
  | functionLeave | retainedBytes =>
    simp only [budgetCharge] at h ⊢
    split
    · exact budgetFail_latches _ (by decide) _ _
    · rename_i hn
      rw [if_neg hn] at h
      cases h
  | other => exact budgetFail_latches _ (by decide) _ _

theorem safePoint_latches {rt rt' : RuntimeCtx} (h : safePoint rt kind cost poll = (false, rt')) :
    ∃ b, rt'.activeHostBudget = some b ∧ b.failureStatus ≠ .ok := by
  unfold safePoint at h
  split at h
  · cases h
  · rename_i b hb
    split at h
    · rename_i hf
      cases h
      exact ⟨b, hb, hf⟩
    · have hl := @budgetCharge_latches b poll cost kind
      revert h hl
      rcases budgetCharge b kind cost poll with ⟨_ | _, b'⟩
      · intro h hl
        cases h
        exact ⟨b', rfl, hl rfl⟩
      · intro h
        cases h

/-! ## The ledger of a call

The ledger is what an observer of the engine writes down: the costs of the accepted safe
points, the frames that are open, and whether a safe point has been rejected. -/

structure Ledger where
  initial : CallBudget
  steps : Nat
  loops : Nat
  callbacks : Nat
  frames : List Nat
  failed : Bool
  deriving DecidableEq, Repr

def Ledger.start (b : CallBudget) : Ledger where
  initial := b
  steps := 0
  loops := 0
  callbacks := 0
  frames := []
  failed := false

/-- A rejected LEAVE still closes its frame: the engine function returns all the same. -/
def Ledger.record (l : Ledger) (kind : SafePointKind) (cost : Nat) (accepted : Bool) : Ledger :=
  match accepted, kind with
  | true, .step => { l with steps := l.steps + cost }
  | true, .loop => { l with loops := l.loops + cost }
  | true, .callbackBefore => { l with callbacks := l.callbacks + cost }
  | true, .functionEnter => { l with frames := cost :: l.frames }
  | true, .functionLeave => { l with frames := l.frames.tail }
  | true, _ => l
  | false, .functionLeave => { l with frames := l.frames.tail, failed := true }
  | false, _ => { l with failed := true }

/-- The engine raises FUNCTION_LEAVE only for its innermost open frame, with that frame's cost. -/
def Ledger.Allows (l : Ledger) (kind : SafePointKind) (cost : Nat) : Prop :=
  kind = .functionLeave → l.frames.head? = some cost

structure Accounts (l : Ledger) (b : CallBudget) : Prop where
  steps : l.steps + b.stepsLeft ≤ l.initial.stepsLeft
  loops : l.loops + b.loopsLeft ≤ l.initial.loopsLeft
  callbacks : l.callbacks + b.callbacksLeft ≤ l.initial.callbacksLeft
  stackLimit : b.stackBytesLimit = l.initial.stackBytesLimit
  recursionLimit : b.recursionLimit = l.initial.recursionLimit
  failed : l.failed = true ↔ b.failureStatus ≠ .ok
  stack : l.failed = false → l.frames.sum + b.stackBytesLeft = b.stackBytesLimit
  recursion : l.failed = false → b.recursionLeft + l.frames.length = b.recursionLimit
  consistent : b.failureMessage ≠ some "call frame accounting is inconsistent"

theorem Accounts.start (limits : InstanceOptions) (options : CallOptions) :
    Accounts (Ledger.start (callBudgetInit limits options)) (callBudgetInit limits options) where
  steps := by simp [Ledger.start]
  loops := by simp [Ledger.start]
  callbacks := by simp [Ledger.start]
  stackLimit := rfl
  recursionLimit := rfl
  failed := by simp [Ledger.start, callBudgetInit]
  stack := by simp [Ledger.start, callBudgetInit]
  recursion := by simp [Ledger.start, callBudgetInit]
  consistent := by simp [callBudgetInit]

/-- A rejection that latches a status other than OK and leaves the counters no higher
    than they were. -/
structure Rejects (b b' : CallBudget) : Prop where
  steps : b'.stepsLeft ≤ b.stepsLeft
  loops : b'.loopsLeft ≤ b.loopsLeft
  callbacks : b'.callbacksLeft ≤ b.callbacksLeft
  stackLimit : b'.stackBytesLimit = b.stackBytesLimit
  recursionLimit : b'.recursionLimit = b.recursionLimit
  status : b'.failureStatus ≠ .ok
  message : b'.failureMessage ≠ some "call frame accounting is inconsistent"

theorem Rejects.of_fail {phase : Phase} (hs : c.stepsLeft ≤ b.stepsLeft)
    (hl : c.loopsLeft ≤ b.loopsLeft) (hc : c.callbacksLeft ≤ b.callbacksLeft)
    (hk : c.stackBytesLimit = b.stackBytesLimit) (hr : c.recursionLimit = b.recursionLimit)
    (hok : c.failureStatus = .ok) (hst : status ≠ .ok)
    (hm : message ≠ "call frame accounting is inconsistent") :
    Rejects b (budgetFail c status phase message).2 := by
  simp only [budgetFail, hok, if_true]
  exact ⟨hs, hl, hc, hk, hr, hst, by simpa using hm⟩

variable {l : Ledger}

theorem Accounts.reject {b' : CallBudget} (h : Accounts l b) (hr : Rejects b b')
    (kind : SafePointKind) (cost : Nat) : Accounts (l.record kind cost false) b' := by
  have hrec : (l.record kind cost false).failed = true ∧
      (l.record kind cost false).steps = l.steps ∧ (l.record kind cost false).loops = l.loops ∧
      (l.record kind cost false).callbacks = l.callbacks ∧
      (l.record kind cost false).initial = l.initial := by
    cases kind <;> simp [Ledger.record]
  obtain ⟨hf, h1, h2, h3, h4⟩ := hrec
  constructor
  · rw [h1, h4]; have := h.steps; have := hr.steps; omega
  · rw [h2, h4]; have := h.loops; have := hr.loops; omega
  · rw [h3, h4]; have := h.callbacks; have := hr.callbacks; omega
  · rw [h4, hr.stackLimit]; exact h.stackLimit
  · rw [h4, hr.recursionLimit]; exact h.recursionLimit
  · exact ⟨fun _ => hr.status, fun _ => hf⟩
  · intro h'; rw [hf] at h'; cases h'
  · intro h'; rw [hf] at h'; cases h'
  · exact hr.message

theorem poll_cases (poll : Bool) (hs : c.stepsLeft ≤ b.stepsLeft) (hl : c.loopsLeft ≤ b.loopsLeft)
    (hc : c.callbacksLeft ≤ b.callbacksLeft) (hk : c.stackBytesLimit = b.stackBytesLimit)
    (hr : c.recursionLimit = b.recursionLimit) (hok : c.failureStatus = .ok) :
    budgetPollInterrupt c poll = (true, c) ∨
      ∃ b', budgetPollInterrupt c poll = (false, b') ∧ Rejects b b' := by
  unfold budgetPollInterrupt
  split
  · exact .inl rfl
  · split
    · exact .inl rfl
    · refine .inr ⟨(budgetFail c .interrupted .interrupt "call interrupted").2, ?_, ?_⟩
      · simp [budgetFail, hok]
      · exact Rejects.of_fail hs hl hc hk hr hok (by decide) (by decide)

theorem charge_cases (remaining cost : Nat) (commit : Nat → CallBudget)
    (hok : b.failureStatus = .ok) (hm : message ≠ "call frame accounting is inconsistent") :
    (cost ≤ remaining ∧ budgetChargeU32 b remaining commit cost message
        = (true, commit (remaining - cost))) ∨
      ∃ b', budgetChargeU32 b remaining commit cost message = (false, b') ∧ Rejects b b' := by
  unfold budgetChargeU32
  split
  · refine .inr ⟨(budgetFail b .limitExceeded .call message).2, ?_, ?_⟩
    · simp [budgetFail, hok]
    · exact Rejects.of_fail (Nat.le_refl _) (Nat.le_refl _) (Nat.le_refl _) rfl rfl hok (by decide) hm
  · rename_i hn
    exact .inl ⟨by omega, rfl⟩

theorem pollAfterSteps_cases (cost : Nat) (poll : Bool) (hs : c.stepsLeft ≤ b.stepsLeft)
    (hl : c.loopsLeft ≤ b.loopsLeft) (hc : c.callbacksLeft ≤ b.callbacksLeft)
    (hk : c.stackBytesLimit = b.stackBytesLimit) (hr : c.recursionLimit = b.recursionLimit)
    (hok : c.failureStatus = .ok) :
    (∃ acc, pollAfterSteps c cost poll = (true, { c with interruptStepAccumulator := acc })) ∨
      ∃ b', pollAfterSteps c cost poll = (false, b') ∧ Rejects b b' := by
  unfold pollAfterSteps
  dsimp only
  generalize (if c.interruptStepAccumulator > u32Max - cost then interruptStepInterval
    else c.interruptStepAccumulator + cost) = acc
  split
  · rcases poll_cases (b := b) (c := { c with interruptStepAccumulator := 0 }) poll
      hs hl hc hk hr hok with h | h
    · exact .inl ⟨0, h⟩
    · exact .inr h
  · exact .inl ⟨acc, rfl⟩

/-- Whatever a safe point does to a budget without a latched failure: it is accepted and
    its charge is the one its kind names, or it is rejected. -/
inductive Charged (l : Ledger) (b : CallBudget) (kind : SafePointKind) (cost : Nat) :
    Bool → CallBudget → Prop
  | accepted {b'} (h : Accounts (l.record kind cost true) b') : Charged l b kind cost true b'
  | rejected {b'} (h : Rejects b b') : Charged l b kind cost false b'

theorem charged_counter (hs : c.stepsLeft ≤ b.stepsLeft) (hl : c.loopsLeft ≤ b.loopsLeft)
    (hc : c.callbacksLeft ≤ b.callbacksLeft) (hk : c.stackBytesLimit = b.stackBytesLimit)
    (hr : c.recursionLimit = b.recursionLimit) (hok : c.failureStatus = .ok)
    (hacc : Accounts (l.record kind cost true) c) :
    Charged l b kind cost (budgetPollInterrupt c poll).1 (budgetPollInterrupt c poll).2 := by
  rcases poll_cases (b := b) poll hs hl hc hk hr hok with h | ⟨b', h, hrej⟩
  · rw [h]; exact .accepted hacc
  · rw [h]; exact .rejected hrej

theorem Rejects.failed (hok : b.failureStatus = .ok) {phase : Phase} (hst : status ≠ .ok)
    (hm : message ≠ "call frame accounting is inconsistent") :
    Rejects b (budgetFail b status phase message).2 :=
  .of_fail (Nat.le_refl _) (Nat.le_refl _) (Nat.le_refl _) rfl rfl hok hst hm

theorem budgetFail_fst (b : CallBudget) (status : Status) (phase : Phase) (message : String) :
    (budgetFail b status phase message).1 = false := by
  unfold budgetFail
  split <;> rfl

theorem charged_fail (hok : b.failureStatus = .ok) {phase : Phase} (hst : status ≠ .ok)
    (hm : message ≠ "call frame accounting is inconsistent") :
    Charged l b kind cost (budgetFail b status phase message).1 (budgetFail b status phase message).2 := by
  rw [budgetFail_fst]
  exact .rejected (Rejects.failed hok hst hm)

section charge

variable {l : Ledger} {b : CallBudget} {cost : Nat} (poll : Bool)
  (h : Accounts l b) (hok : b.failureStatus = .ok) (hopen : l.failed = false)

include h hok

theorem charged_step : Charged l b .step cost (budgetCharge b .step cost poll).1
      (budgetCharge b .step cost poll).2 := by
  simp only [budgetCharge]
  rcases charge_cases b.stepsLeft cost (fun n => { b with stepsLeft := n }) hok
      (show "call step quota exceeded" ≠ _ by decide) with ⟨hle, heq⟩ | ⟨b', heq, hrej⟩
  · rw [heq]
    dsimp only
    have hc : ∀ acc, Accounts (l.record .step cost true)
        { b with stepsLeft := b.stepsLeft - cost, interruptStepAccumulator := acc } := by
      intro acc
      exact { h with steps := by simp only [Ledger.record]; have := h.steps; omega }
    rcases pollAfterSteps_cases (b := b) (c := { b with stepsLeft := b.stepsLeft - cost }) cost poll
      (Nat.sub_le _ _) (Nat.le_refl _) (Nat.le_refl _) rfl rfl hok with ⟨acc, hp⟩ | ⟨b', hp, hrej⟩
    · rw [hp]; exact .accepted (hc acc)
    · rw [hp]; exact .rejected hrej
  · rw [heq]; exact .rejected hrej

theorem charged_loop : Charged l b .loop cost (budgetCharge b .loop cost poll).1
      (budgetCharge b .loop cost poll).2 := by
  simp only [budgetCharge]
  rcases charge_cases b.loopsLeft cost (fun n => { b with loopsLeft := n }) hok
      (show "call loop quota exceeded" ≠ _ by decide) with ⟨hle, heq⟩ | ⟨b', heq, hrej⟩
  · rw [heq]
    exact charged_counter (Nat.le_refl _) (Nat.sub_le _ _) (Nat.le_refl _) rfl rfl hok
      { h with loops := by simp only [Ledger.record]; have := h.loops; omega }
  · rw [heq]; exact .rejected hrej

theorem charged_callbackBefore :
    Charged l b .callbackBefore cost (budgetCharge b .callbackBefore cost poll).1
      (budgetCharge b .callbackBefore cost poll).2 := by
  simp only [budgetCharge]
  rcases charge_cases b.callbacksLeft cost (fun n => { b with callbacksLeft := n }) hok
      (show "call callback quota exceeded" ≠ _ by decide) with ⟨hle, heq⟩ | ⟨b', heq, hrej⟩
  · rw [heq]
    exact charged_counter (Nat.le_refl _) (Nat.le_refl _) (Nat.sub_le _ _) rfl rfl hok
      { h with callbacks := by simp only [Ledger.record]; have := h.callbacks; omega }
  · rw [heq]; exact .rejected hrej

include hopen

theorem charged_functionEnter : Charged l b .functionEnter cost (budgetCharge b .functionEnter cost poll).1
      (budgetCharge b .functionEnter cost poll).2 := by
  simp only [budgetCharge]
  split
  · exact charged_fail hok (by decide) (by decide)
  · split
    · exact charged_fail hok (by decide) (by decide)
    · rename_i hrec hstack
      have hst := h.stack hopen
      have hre := h.recursion hopen
      refine charged_counter (Nat.le_refl _) (Nat.le_refl _) (Nat.le_refl _) rfl rfl hok
        { h with stack := fun _ => ?_, recursion := fun _ => ?_ }
      · simp only [Ledger.record, List.sum_cons]; omega
      · simp only [Ledger.record, List.length_cons]; omega

omit hok in
theorem functionLeave_accepted (hf : l.frames.head? = some cost) : budgetCharge b .functionLeave cost poll =
      (true, { b with recursionLeft := b.recursionLeft + 1
                      stackBytesLeft := b.stackBytesLeft + cost }) := by
  have hst := h.stack hopen
  have hre := h.recursion hopen
  obtain ⟨rest, hfr⟩ := List.head?_eq_some_iff.mp hf
  rw [hfr, List.sum_cons] at hst
  rw [hfr, List.length_cons] at hre
  simp only [budgetCharge]
  rw [if_neg (by omega)]

omit hok in
theorem charged_functionLeave (hf : l.frames.head? = some cost) :
    Charged l b .functionLeave cost (budgetCharge b .functionLeave cost poll).1
      (budgetCharge b .functionLeave cost poll).2 := by
  rw [functionLeave_accepted poll h hopen hf]
  have hst := h.stack hopen
  have hre := h.recursion hopen
  obtain ⟨rest, hfr⟩ := List.head?_eq_some_iff.mp hf
  rw [hfr, List.sum_cons] at hst
  rw [hfr, List.length_cons] at hre
  refine .accepted { h with stack := fun _ => ?_, recursion := fun _ => ?_ }
  · simp only [Ledger.record, hfr, List.tail_cons]; omega
  · simp only [Ledger.record, hfr, List.tail_cons]; omega

theorem charged_of_ok {kind : SafePointKind} (hk : l.Allows kind cost) :
    Charged l b kind cost (budgetCharge b kind cost poll).1 (budgetCharge b kind cost poll).2 := by
  cases kind with
  | step => exact charged_step poll h hok
  | loop => exact charged_loop poll h hok
  | callbackBefore => exact charged_callbackBefore poll h hok
  | callbackAfter =>
    exact charged_counter (Nat.le_refl _) (Nat.le_refl _) (Nat.le_refl _) rfl rfl hok { h with }
  | functionEnter => exact charged_functionEnter poll h hok hopen
  | functionLeave => exact charged_functionLeave poll h hopen (hk rfl)
  | retainedBytes =>
    simp only [budgetCharge]
    split
    · exact charged_fail hok (by decide) (by decide)
    · exact .accepted { h with }
  | other => exact charged_fail hok (by decide) (by decide)

end charge

/-- **One safe point keeps the accounts.** -/
theorem Accounts.safePoint (h : Accounts l b) (hk : l.Allows kind cost) (poll : Bool) :
    Accounts (l.record kind cost (budgetSafePoint b kind cost poll).1)
      (budgetSafePoint b kind cost poll).2 := by
  by_cases hok : b.failureStatus = .ok
  · have hopen : l.failed = false := by
      cases hf : l.failed with
      | false => rfl
      | true => exact absurd hok (h.failed.mp hf)
    simp only [budgetSafePoint, hok, ne_eq, not_true, if_false]
    have hch := charged_of_ok poll h hok hopen hk
    revert hch
    rcases budgetCharge b kind cost poll with ⟨_ | _, b'⟩
    · rintro (_ | hrej)
      exact h.reject hrej kind cost
    · rintro (hacc | _)
      exact hacc
  · rw [budgetSafePoint_latched hok]
    exact h.reject ⟨Nat.le_refl _, Nat.le_refl _, Nat.le_refl _, rfl, rfl, hok, h.consistent⟩ kind cost

end TurboScript.Host
