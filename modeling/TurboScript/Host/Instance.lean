import TurboScript.Host.Limits
import Mathlib.Logic.Function.Basic

/- Instances, results and the call boundary (`host/turbo_script_host_instance.c`,
   the result writers of `host/turbo_script_host_result.c`, and the callback adapter of
   `host/turbo_script_host_registry.c`).

   A routine that hands control to foreign code (the backend, the initializer, the
   callback) is split where it does so. Instances and results are named by addresses.
   The value conversions, the allocator and the copy of an error text are not modelled:
   their outcomes are arguments, so every statement holds for all of them. -/
namespace TurboScript.Host

def sizeMax : Nat := 2 ^ 64 - 1

inductive InstanceState
  | ready | calling | callingHost | faulted | destroyed
  deriving DecidableEq, Repr

structure ExportEntry where
  name : String
  arity : Nat
  deriving DecidableEq, Repr

structure Module where
  moduleName : String
  exports : List ExportEntry
  acceptingInstances : Bool
  deriving DecidableEq, Repr

/-- `ts_host_runtime_diagnostic_t`; an absent diagnostic is `none` in the instance. -/
structure Diagnostic where
  status : Status
  errorCode : ErrorCode
  phase : Phase
  functionName : String
  message : String
  deriving DecidableEq, Repr

structure Instance where
  module : Module
  runtime : RuntimeCtx
  limits : InstanceOptions
  generation : Nat
  state : InstanceState
  diagnostic : Option Diagnostic
  deriving DecidableEq, Repr

/-- `turbo_script_error_info_t` without its source span. -/
structure ErrorInfo where
  status : Status
  errorCode : ErrorCode
  phase : Phase
  moduleName : String
  functionName : String
  message : String
  deriving DecidableEq, Repr

structure ResultObj where
  hasValue : Bool
  error : Option ErrorInfo
  deriving DecidableEq, Repr

/-- The host fields of the context, the live instances and the result objects. -/
structure Ctx where
  instances : Nat → Option Instance
  results : Nat → ResultObj
  nextInstance : Nat
  nextInstanceGeneration : Nat
  activeHostInstance : Option Nat
  hostCallbackDepth : Nat
  closing : Bool

/-- The result pointer a host passes: NULL, one of another context, or one of this context. -/
inductive ResultArg
  | null
  | foreign
  | own (r : Nat)
  deriving DecidableEq, Repr

def Ctx.setInstance (c : Ctx) (i : Nat) (inst : Instance) : Ctx :=
  { c with instances := Function.update c.instances i (some inst) }

def Ctx.setResult (c : Ctx) (r : Nat) (o : ResultObj) : Ctx :=
  { c with results := Function.update c.results r o }

/-! ## Results -/

def resultClear : ResultObj := { hasValue := false, error := none }

/-- `ts_host_result_set_error`: the result is cleared first; `stored` is the outcome of
    validating and copying the error. -/
def resultSetError (c : Ctx) (r : Nat) (e : ErrorInfo) (stored : Status) : Status × Ctx :=
  if stored = .ok then (.ok, c.setResult r { hasValue := false, error := some e })
  else (stored, c.setResult r resultClear)

/-- `ts_host_result_store_exprtk`; `stored` is the outcome of converting the value. -/
def resultStore (c : Ctx) (r : Nat) (stored : Status) : Status × Ctx :=
  if stored = .ok then (.ok, c.setResult r { hasValue := true, error := none })
  else (stored, c.setResult r resultClear)

def failErrorCode (status : Status) : ErrorCode :=
  match status with
  | .invalidArgument | .validationError | .invalidUtf8 | .duplicateRecordKey
  | .invalidExportHandle | .notFound => .argument
  | .outOfMemory => .oom
  | .invalidState | .reentrantCall | .contextMismatch | .wrongThread => .state
  | .interrupted => .cancelled
  | _ => .runtime

/-- `ts_host_instance_fail`: the status is returned whether or not the error was stored. -/
def instanceFail (c : Ctx) (r : Nat) (m : Module) (status : Status) (phase : Phase)
    (functionName message : String) (stored : Status) : Status × Ctx :=
  let e : ErrorInfo :=
    { status, errorCode := failErrorCode status, phase, moduleName := m.moduleName
      functionName, message }
  (status, (resultSetError c r e stored).2)

/-! ## The four transitions of the call boundary -/

/-- `clear_diagnostic` and the reset of the runtime's error fields. -/
def Instance.clearForCall (inst : Instance) : Instance :=
  { inst with
    diagnostic := none
    runtime := { inst.runtime with errorCode := .none, errorMsg := "", envErrorMsg := "" } }

def beginCall (c : Ctx) (i : Nat) : Status × Ctx :=
  match c.instances i with
  | none => (.invalidArgument, c)
  | some inst =>
    if inst.state = .faulted then (.invalidState, c)
    else if inst.state ≠ .ready ∨ c.hostCallbackDepth ≠ 0 ∨ c.activeHostInstance ≠ none then
      (.reentrantCall, c)
    else
      (.ok, { c.setInstance i { inst.clearForCall with state := .calling } with
              activeHostInstance := some i })

/-- The instance returned is the one that was active, whose state becomes CALLING_HOST. -/
def enterCallback (c : Ctx) : Status × Option Nat × Ctx :=
  if c.hostCallbackDepth = sizeMax then (.limitExceeded, none, c)
  else
    match c.activeHostInstance with
    | none => (.ok, none, { c with hostCallbackDepth := c.hostCallbackDepth + 1 })
    | some i =>
      match c.instances i with
      | none => (.ok, none, { c with hostCallbackDepth := c.hostCallbackDepth + 1 })
      | some inst =>
        if inst.state ≠ .calling then (.reentrantCall, none, c)
        else
          (.ok, some i, { c.setInstance i { inst with state := .callingHost } with
                          hostCallbackDepth := c.hostCallbackDepth + 1 })

def leaveCallback (c : Ctx) (active : Option Nat) : Ctx :=
  if c.hostCallbackDepth = 0 then c
  else
    match active with
    | none => { c with hostCallbackDepth := c.hostCallbackDepth - 1 }
    | some i =>
      match c.instances i with
      | none => { c with hostCallbackDepth := c.hostCallbackDepth - 1 }
      | some inst =>
        if c.activeHostInstance = some i ∧ inst.state = .callingHost then
          { c.setInstance i { inst with state := .calling } with
            hostCallbackDepth := c.hostCallbackDepth - 1 }
        else { c with hostCallbackDepth := c.hostCallbackDepth - 1 }

def finishCall (c : Ctx) (i : Nat) (status : Status) : Status × Ctx :=
  match c.instances i with
  | none => (.invalidArgument, c)
  | some inst =>
    if c.activeHostInstance ≠ some i ∨ inst.state ≠ .calling ∨ c.hostCallbackDepth ≠ 0 then
      let c' := if c.activeHostInstance = some i then { c with activeHostInstance := none } else c
      (.invalidState, c'.setInstance i { inst with state := .faulted })
    else
      (status, { c.setInstance i { inst with state := if status = .ok then .ready else .faulted } with
                 activeHostInstance := none })

/-- `ts_host_instance_record_callback_error`: whatever the callback reported, the
    diagnostic's own status is HOST_ERROR. -/
def recordCallbackError (inst : Instance) (status : Status) (functionName message : String) : Instance :=
  { inst with
    diagnostic := some
      { status := .hostError
        errorCode :=
          if status = .outOfMemory then .oom
          else if status = .interrupted then .cancelled else .runtime
        phase := .hostCallback
        functionName
        message } }

/-- `ts_host_runtime_throw`, as far as the host layer sees it: the active instance gets the
    diagnostic. -/
def runtimeThrow (c : Ctx) (status : Status) (functionName message : String) : Ctx :=
  match c.activeHostInstance with
  | none => c
  | some i =>
    match c.instances i with
    | none => c
    | some inst => c.setInstance i (recordCallbackError inst status functionName message)

/-! ## The public operations -/

/-- `ts_host_instance_begin`. The caller's thread is checked before the result. -/
def instanceBegin (c : Ctx) (ownerThread : Bool) (m : Module) (result : ResultArg) (phase : Phase)
    (stored : Status) : Status × Ctx :=
  if !ownerThread then (.wrongThread, c)
  else
    match result with
    | .null => (.invalidArgument, c)
    | .foreign => (.contextMismatch, c)
    | .own r =>
      let c := c.setResult r resultClear
      if c.closing ∧ phase ≠ .none then
        instanceFail c r m .invalidState phase "" "context is closing" stored
      else (.ok, c)

def instanceOptionsValid (o : InstanceOptions) : Bool :=
  o.structSizeValid && o.modeValid && o.maxRetainedBytes != 0 && o.maxStackBytes != 0 &&
    o.maxRecursion != 0 && o.maxGlobals != 0 && o.maxValueDepth != 0 && o.reservedZero &&
    o.maxValueNodes != 0 && o.maxResultBytes != 0

def callOptionsValid (o : CallOptions) : Bool :=
  o.structSizeValid && o.maxRecursion != 0 && o.maxSteps != 0 && o.maxLoopIterations != 0 &&
    o.maxHostCallbacks != 0 && o.reservedZero && o.maxResultBytes != 0

/-- A handle packs the instance generation above the export slot plus one. -/
def decodeHandle (inst : Instance) (handle : Nat) : Except Status Nat :=
  if handle = 0 then .error .invalidExportHandle
  else
    let generation := handle / 2 ^ 32 % 2 ^ 32
    let encodedSlot := handle % 2 ^ 32
    if generation = 0 ∨ encodedSlot = 0 ∨ generation ≠ inst.generation ∨
        encodedSlot - 1 ≥ inst.module.exports.length then
      .error .invalidExportHandle
    else .ok (encodedSlot - 1)

def exportHandle (generation slot : Nat) : Nat := generation * 2 ^ 32 + (slot + 1)

/-- What a host passes to `turbo_script_instance_call`, with the outcomes of checking and
    converting the arguments. -/
structure CallRequest where
  handle : Nat
  argsPresent : Bool
  argCount : Nat
  options : Option CallOptions
  validated : Status
  converted : Status
  deriving DecidableEq, Repr

structure Admission where
  slot : Nat
  functionName : String
  budget : CallBudget
  deriving DecidableEq, Repr

/-- The checks of `turbo_script_instance_call` before it touches the instance: a status,
    the function name known so far and the message on failure. -/
def callPreflight (c : Ctx) (inst : Instance) (q : CallRequest) :
    Except (Status × String × String) Admission :=
  if inst.state = .faulted then
    .error (.invalidState, "", "faulted instance rejects future calls")
  else if inst.state ≠ .ready ∨ c.hostCallbackDepth ≠ 0 ∨ c.activeHostInstance ≠ none then
    .error (.reentrantCall, "", "instance call is not reentrant")
  else
    match q.options with
    | none => .error (.invalidArgument, "", "invalid call options")
    | some options =>
      if !callOptionsValid options then .error (.invalidArgument, "", "invalid call options")
      else if (!q.argsPresent ∧ q.argCount ≠ 0) ∨ q.argCount > 16 then
        .error (.invalidArgument, "", "invalid call arguments")
      else
        match decodeHandle inst q.handle with
        | .error status => .error (status, "", "invalid export handle")
        | .ok slot =>
          match inst.module.exports[slot]? with
          | none => .error (.invalidState, "", "export metadata is unavailable")
          | some entry =>
            if q.argCount ≠ entry.arity then
              .error (.invalidArgument, entry.name, "export arity mismatch")
            else if q.validated ≠ .ok then
              .error (q.validated, entry.name, "call argument validation failed")
            else if q.converted ≠ .ok then
              .error (q.converted, entry.name, "call value conversion failed")
            else
              .ok { slot, functionName := entry.name
                    budget := callBudgetInit inst.limits options }

/-- The locals of an admitted call that live across the backend run. The ledger is not in
    the code: it records what the engine sees of the safe points. -/
structure CallFrame where
  inst : Nat
  result : Nat
  slot : Nat
  functionName : String
  savedMaxRecursion : Nat
  savedMaxNodes : Nat
  savedMaxLoopIterations : Nat
  budgetAttached : Bool
  ledger : Ledger
  deriving DecidableEq, Repr

def Instance.applyLimits (inst : Instance) (b : CallBudget) : Instance :=
  { inst with
    runtime := { inst.runtime with
                 maxRecursion := b.recursionLeft
                 maxNodes := b.stepsLeft
                 maxLoopIterations := b.loopsLeft } }

def Instance.restoreLimits (inst : Instance) (f : CallFrame) : Instance :=
  { inst with
    runtime := { inst.runtime with
                 maxRecursion := f.savedMaxRecursion
                 maxNodes := f.savedMaxNodes
                 maxLoopIterations := f.savedMaxLoopIterations } }

/-- How the first part of a call ends: rejected before execution, admitted but finished at
    once, or admitted with the backend about to run. -/
inductive CallOutcome
  | rejected (status : Status)
  | finished (status : Status)
  | running (f : CallFrame)
  deriving DecidableEq, Repr

/-- `ts_host_instance_publish_execution_error`. -/
def publishExecutionError (c : Ctx) (f : CallFrame) (status : Status) (phase : Phase)
    (defaultMessage : String) (stored : Status) : Status × Ctx :=
  match c.instances f.inst with
  | none => (status, c)
  | some inst =>
    let e : ErrorInfo :=
      match inst.diagnostic with
      | some d =>
        { status := d.status, errorCode := d.errorCode, phase := d.phase
          moduleName := inst.module.moduleName, functionName := d.functionName
          message := d.message }
      | none =>
        { status, phase, moduleName := inst.module.moduleName, functionName := f.functionName
          errorCode := if status = .interrupted then .cancelled else .runtime
          message :=
            if inst.runtime.envErrorMsg ≠ "" then inst.runtime.envErrorMsg else defaultMessage }
    let (storeStatus, c) := resultSetError c f.result e stored
    (if storeStatus = .ok then e.status else storeStatus,
      c.setInstance f.inst { inst with diagnostic := none })

/-- The label `finish` of `turbo_script_instance_call`. -/
def callFinish (c : Ctx) (f : CallFrame) (status : Status) (phase : Phase) (message : String)
    (stored : Status) : Status × Ctx :=
  match c.instances f.inst with
  | none => (.invalidArgument, c)
  | some inst =>
    let inst :=
      if f.budgetAttached then { inst with runtime := callBudgetDetach inst.runtime } else inst
    let c := c.setInstance f.inst (inst.restoreLimits f)
    let (finishStatus, c) := finishCall c f.inst status
    let status := if finishStatus ≠ status then finishStatus else status
    if status = .ok then
      match c.instances f.inst with
      | none => (.ok, c)
      | some inst => (.ok, c.setInstance f.inst { inst with diagnostic := none })
    else publishExecutionError c f status phase message stored

/-- The part of `turbo_script_instance_call` that touches the instance before the backend
    runs: the limits, the call state, the budget. -/
def admitCall (c : Ctx) (i r : Nat) (inst : Instance) (a : Admission) (stored : Status) :
    CallOutcome × Ctx :=
  let c := c.setInstance i (inst.applyLimits a.budget)
  let f : CallFrame :=
    { inst := i, result := r, slot := a.slot, functionName := a.functionName
      savedMaxRecursion := inst.runtime.maxRecursion
      savedMaxNodes := inst.runtime.maxNodes
      savedMaxLoopIterations := inst.runtime.maxLoopIterations
      budgetAttached := false
      ledger := Ledger.start a.budget }
  match beginCall c i with
  | (.ok, c) =>
    match c.instances i with
    | none => (.finished .invalidArgument, c)
    | some inst' =>
      match callBudgetAttach inst'.runtime a.budget with
      | (.ok, rt) =>
        (.running { f with budgetAttached := true }, c.setInstance i { inst' with runtime := rt })
      | (status, _) =>
        let (status, c) := callFinish c f status .call "call budget attachment failed" stored
        (.finished status, c)
  | (status, c) =>
    -- `preflight_fail`: the limits go back, the instance is otherwise untouched
    let c := c.setInstance i inst
    let (status, c) := instanceFail c r inst.module status .call a.functionName
      "call value conversion failed" stored
    (.rejected status, c)

/-- `turbo_script_instance_call` up to the backend. `stored` is the outcome of storing an
    error in the result, should one be reported. -/
def instanceCallBegin (c : Ctx) (ownerThread : Bool) (i : Nat) (inst : Instance)
    (q : CallRequest) (result : ResultArg) (stored : Status) : CallOutcome × Ctx :=
  match instanceBegin c ownerThread inst.module result .call stored, result with
  | (.ok, c), .own r =>
    match callPreflight c inst q with
    | .error (status, functionName, message) =>
      let (status, c) := instanceFail c r inst.module status .call functionName message stored
      (.rejected status, c)
    | .ok a => admitCall c i r inst a stored
  | (status, c), _ => (.rejected status, c)

/-- What the backend leaves behind: its status, whether the value converts, the bytes the
    runtime retains and the text in the environment's error buffer. -/
structure BackendOutcome where
  succeeded : Bool
  valueStored : Status
  retainedBytes : Nat
  envErrorMsg : String
  errorStored : Status
  deriving DecidableEq, Repr

/-- `turbo_script_instance_call` after the backend. -/
def instanceCallEnd (c : Ctx) (f : CallFrame) (o : BackendOutcome) : Status × Ctx :=
  match c.instances f.inst with
  | none => (.invalidArgument, c)
  | some inst =>
    let inst := { inst with runtime := { inst.runtime with envErrorMsg := o.envErrorMsg } }
    let c := c.setInstance f.inst inst
    let budget := inst.runtime.activeHostBudget.getD f.ledger.initial
    if !o.succeeded then
      if budget.failureStatus ≠ .ok then
        callFinish c f budget.failureStatus budget.failurePhase
          (budget.failureMessage.getD "call budget failed") o.errorStored
      else
        match inst.diagnostic with
        | some d =>
          callFinish c f d.status d.phase "export execution failed: recursion or runtime error"
            o.errorStored
        | none =>
          callFinish c f .runtimeError .call "export execution failed: recursion or runtime error"
            o.errorStored
    else
      match resultStore c f.result o.valueStored with
      | (.ok, c) =>
        match safePoint inst.runtime .retainedBytes o.retainedBytes false with
        | (true, rt) =>
          callFinish (c.setInstance f.inst { inst with runtime := rt }) f .ok .call
            "call value conversion failed" o.errorStored
        | (false, rt) =>
          let budget := rt.activeHostBudget.getD f.ledger.initial
          callFinish (c.setInstance f.inst { inst with runtime := rt }) f budget.failureStatus
            budget.failurePhase (budget.failureMessage.getD "call budget failed") o.errorStored
      | (status, c) =>
        callFinish c f status .call
          (if status = .limitExceeded then "call result quota exceeded"
           else "call result conversion failed") o.errorStored

def instanceDestroy (c : Ctx) (ownerThread : Bool) (i : Nat) (inst : Instance)
    (result : ResultArg) (stored : Status) : Status × Ctx :=
  match instanceBegin c ownerThread inst.module result .none stored, result with
  | (.ok, c), .own r =>
    if inst.state ≠ .ready ∧ inst.state ≠ .faulted then
      instanceFail c r inst.module .invalidState .none ""
        "instance cannot be destroyed while executing" stored
    else (.ok, { c with instances := Function.update c.instances i none })
  | (status, c), _ => (status, c)

/-- `ts_host_instance_validate_name` on a name that is a Lean string (so valid UTF-8). -/
def validateName (name : String) : Status :=
  if name.utf8ByteSize > 4 * 1024 * 1024 then .limitExceeded
  else if name = "" ∨ name.contains (Char.ofNat 0) then .validationError
  else .ok

/-- The status, the handle written to the output (0 if none) and the context. -/
def instanceResolveExport (c : Ctx) (ownerThread : Bool) (inst : Instance) (name : String)
    (result : ResultArg) (outPresent : Bool) (stored : Status) : Status × Nat × Ctx :=
  match instanceBegin c ownerThread inst.module result .resolve stored, result with
  | (.ok, c), .own r =>
    if !outPresent then
      let (s, c) := instanceFail c r inst.module .invalidArgument .resolve name
        "export handle output is required" stored
      (s, 0, c)
    else if validateName name ≠ .ok then
      let (s, c) := instanceFail c r inst.module (validateName name) .resolve name
        "invalid export name" stored
      (s, 0, c)
    else
      match inst.module.exports.findIdx? (fun e => e.name == name) with
      | none =>
        let (s, c) := instanceFail c r inst.module .notFound .resolve name
          "export was not found" stored
        (s, 0, c)
      | some slot =>
        if slot ≥ u32Max then
          let (s, c) := instanceFail c r inst.module .limitExceeded .resolve name
            "export slot cannot be encoded" stored
          (s, 0, c)
        else (.ok, exportHandle inst.generation slot, c)
  | (status, c), _ => (status, 0, c)

/-! ## Creation -/

def freshRuntime (o : InstanceOptions) : RuntimeCtx where
  activeHostBudget := none
  safePointInstalled := false
  aborted := false
  errorCode := .none
  errorMsg := ""
  envErrorMsg := ""
  maxRecursion := o.maxRecursion
  maxNodes := min o.maxValueNodes u32Max
  maxLoopIterations := 10000

/-- The locals of `turbo_script_instance_create` that live across the initializer. The new
    instance has no address the host could know before the routine succeeds. -/
structure CreateFrame where
  result : Nat
  pending : Instance
  deriving DecidableEq, Repr

inductive CreateOutcome
  | returned (status : Status)
  | running (f : CreateFrame)
  deriving DecidableEq, Repr

/-- The label `fail` of `turbo_script_instance_create`. -/
def instanceCreateFail (c : Ctx) (r : Nat) (m : Module) (status : Status) (stored : Status) :
    Status × Ctx :=
  instanceFail c r m status .instantiate ""
    (if status = .limitExceeded then "instance retained memory limit exceeded"
     else "instance initialization failed") stored

/-- `turbo_script_instance_create` up to the initializer; `allocated` is whether `calloc`
    succeeds, `runtimeCreated` the outcome of creating the runtime. -/
def instanceCreateBegin (c : Ctx) (ownerThread : Bool) (m : Module)
    (options : Option InstanceOptions) (result : ResultArg) (outPresent allocated : Bool)
    (runtimeCreated stored : Status) : CreateOutcome × Ctx :=
  if !ownerThread then (.returned .wrongThread, c)
  else
    match result with
    | .null => (.returned .invalidArgument, c)
    | .foreign => (.returned .contextMismatch, c)
    | .own r =>
      let c := c.setResult r resultClear
      let fail := fun (status : Status) (message : String) =>
        let (s, c) := instanceFail c r m status .instantiate "" message stored
        (CreateOutcome.returned s, c)
      if !outPresent then fail .invalidArgument "instance output is required"
      else if c.closing ∨ !m.acceptingInstances then
        fail .invalidState "module context is closing"
      else
        match options with
        | none => fail .invalidArgument "invalid instance options"
        | some o =>
          if !instanceOptionsValid o then fail .invalidArgument "invalid instance options"
          else if c.nextInstanceGeneration = 0 ∨ c.nextInstanceGeneration > u32Max then
            fail .limitExceeded "instance generation exhausted"
          else if !allocated then fail .outOfMemory "instance allocation failed"
          else if runtimeCreated ≠ .ok then
            let (s, c) := instanceCreateFail c r m runtimeCreated stored
            (.returned s, c)
          else
            (.running
              { result := r
                pending :=
                  { module := m, runtime := freshRuntime o, limits := o, generation := 0
                    state := .ready, diagnostic := none } }, c)

structure InitOutcome where
  initialized : Status
  exportsBound : Status
  retainedBytes : Nat
  stored : Status
  deriving DecidableEq, Repr

/-- `turbo_script_instance_create` after the initializer: the new instance is published
    under a fresh address and the next generation. -/
def instanceCreateEnd (c : Ctx) (f : CreateFrame) (o : InitOutcome) : Status × Ctx :=
  if o.initialized ≠ .ok then instanceCreateFail c f.result f.pending.module o.initialized o.stored
  else if o.exportsBound ≠ .ok then
    instanceCreateFail c f.result f.pending.module o.exportsBound o.stored
  else if o.retainedBytes > f.pending.limits.maxRetainedBytes then
    instanceCreateFail c f.result f.pending.module .limitExceeded o.stored
  else
    (.ok, { c.setInstance c.nextInstance
          { f.pending with generation := c.nextInstanceGeneration % 2 ^ 32 } with
        nextInstance := c.nextInstance + 1
        nextInstanceGeneration := c.nextInstanceGeneration + 1 })

end TurboScript.Host
