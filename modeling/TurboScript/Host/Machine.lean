import TurboScript.Host.Instance
import TurboScript.Lib.Transition

/- The host boundary as one machine.

   Control alternates between the host (at the top level, inside a callback, inside the
   interrupt hook) and the engine (running the backend of a call or the initializer of a
   new instance). The stack of frames says who has it. A step is one input of the side in
   control: the host calls an operation of the public API or returns; the engine raises a
   safe point, invokes a callback or the interrupt hook, or returns to the routine that
   started it. What foreign code decides is in the inputs, so a list of inputs is one
   history of API operations at any nesting. -/
namespace TurboScript.Host

/-! ## The callback adapter -/

inductive BuilderState
  | empty | value | error
  deriving DecidableEq, Repr

/-- What a host callback reports: its own status and the state of the result builder. -/
structure CallbackResult where
  status : Status
  builder : BuilderState
  terminalStatus : Status
  message : String
  deriving DecidableEq, Repr

/-- The checks of the adapter before it charges the callback: arity, argument storage, the
    view arena, and the conversion of the arguments. -/
inductive Adaptation
  | adapted
  | arityMismatch
  | noStorage
  | noArena
  | rejected (status : Status)
  deriving DecidableEq, Repr

def Adaptation.failure : Adaptation → Option (Status × String)
  | .adapted => none
  | .arityMismatch => some (.hostError, "host function arity mismatch")
  | .noStorage => some (.invalidArgument, "host arguments have no backing storage")
  | .noArena => some (.outOfMemory, "failed to initialize host argument arena")
  | .rejected status => some (status, "failed to adapt host arguments")

inductive Frame
  | call (f : CallFrame)
  | create (f : CreateFrame)
  /-- A callback running inside the adapter, with the instance `enterCallback` returned. -/
  | callback (active : Option Nat) (functionName : String)
  | interrupt
  deriving DecidableEq, Repr

/-- A safe point raised by the engine of the call `f`, with its entry in the ledger. -/
def raiseSafePoint (c : Ctx) (f : CallFrame) (kind : SafePointKind) (cost : Nat) (poll : Bool) :
    Bool × Ctx × CallFrame :=
  match c.instances f.inst with
  | none => (true, c, f)
  | some inst =>
    let (accepted, rt) := safePoint inst.runtime kind cost poll
    (accepted, c.setInstance f.inst { inst with runtime := rt },
      { f with ledger := f.ledger.record kind cost accepted })

/-- A safe point of whatever engine is on top of the stack: an initializer has none. -/
def raiseOnTop (c : Ctx) (stack : List Frame) (kind : SafePointKind) (cost : Nat) (poll : Bool) :
    Bool × Ctx × List Frame :=
  match stack with
  | .call f :: rest =>
    let (accepted, c, f) := raiseSafePoint c f kind cost poll
    (accepted, c, .call f :: rest)
  | stack => (true, c, stack)

/-- `ts_host_registry_callback_adapter` up to the callback. -/
def callbackBegin (c : Ctx) (stack : List Frame) (ownerThread : Bool) (functionName : String)
    (adaptation : Adaptation) (poll : Bool) : Ctx × List Frame :=
  if !ownerThread then
    (runtimeThrow c .wrongThread functionName "host callback ran outside its owner thread", stack)
  else
    match adaptation.failure with
    | some (status, message) => (runtimeThrow c status functionName message, stack)
    | none =>
      match raiseOnTop c stack .callbackBefore 1 poll with
      | (false, c, stack) => (c, stack)
      | (true, c, stack) =>
        match enterCallback c with
        | (.ok, active, c) => (c, .callback active functionName :: stack)
        | (status, _, c) =>
          (runtimeThrow c status functionName "host callback state transition failed", stack)

def callbackEnd (c : Ctx) (active : Option Nat) (stack : List Frame) (functionName : String)
    (r : CallbackResult) (poll : Bool) : Ctx × List Frame :=
  let c := leaveCallback c active
  let message := if r.message = "" then "host callback failed" else r.message
  if r.status = .ok ∧ r.terminalStatus = .ok ∧ r.builder = .value then
    let (_, c, stack) := raiseOnTop c stack .callbackAfter 0 poll
    (c, stack)
  else if r.status = .ok ∧ r.builder = .empty then
    (runtimeThrow c .hostError functionName "callback returned success without a result", stack)
  else if r.terminalStatus ≠ .ok then
    (runtimeThrow c r.terminalStatus functionName
      "host result builder rejected its terminal write", stack)
  else if r.status ≠ .ok then (runtimeThrow c r.status functionName message, stack)
  else (runtimeThrow c .hostError functionName message, stack)

/-! ## The machine -/

structure HostState where
  ctx : Ctx
  stack : List Frame

inductive Input
  | create (ownerThread : Bool) (m : Module) (options : Option InstanceOptions)
      (result : ResultArg) (outPresent allocated : Bool) (runtimeCreated stored : Status)
  | destroy (ownerThread : Bool) (inst : Option Nat) (result : ResultArg) (stored : Status)
  | resolve (ownerThread : Bool) (inst : Option Nat) (name : String) (result : ResultArg)
      (outPresent : Bool) (stored : Status)
  | call (ownerThread : Bool) (inst : Option Nat) (q : CallRequest) (result : ResultArg)
      (stored : Status)
  | close
  | callbackReturn (r : CallbackResult) (poll : Bool)
  | interruptReturn
  | safePoint (kind : SafePointKind) (cost : Nat) (poll : Bool)
  | interruptPoll
  | callback (ownerThread : Bool) (functionName : String) (adaptation : Adaptation)
      (poll : Bool)
  | backendReturn (o : BackendOutcome)
  | initializerReturn (o : InitOutcome)
  deriving DecidableEq, Repr

inductive Response
  | done
  | status (s : Status)
  | resolved (s : Status) (handle : Nat)
  | verdict (accepted : Bool)
  /-- A call that was turned down before execution. -/
  | callRejected (inst : Option Nat) (s : Status)
  /-- A call that was admitted, with the ledger of its safe points. -/
  | callReturned (inst : Nat) (s : Status) (l : Ledger)
  deriving DecidableEq, Repr

/-- The engine closes only the innermost frame it opened; it raises RETAINED_BYTES and
    unknown kinds like any other. -/
def engineAllows (l : Ledger) (kind : SafePointKind) (cost : Nat) : Bool :=
  match kind with
  | .functionLeave => l.frames.head? = some cost
  | _ => true

/-- The public API. A dangling instance pointer is not an input. -/
def hostStep (s : HostState) (i : Input) : Option (HostState × Response) :=
  match i with
  | .create ownerThread m options result outPresent allocated runtimeCreated stored =>
    match instanceCreateBegin s.ctx ownerThread m options result outPresent allocated
        runtimeCreated stored with
    | (.returned status, c) => some ({ s with ctx := c }, .status status)
    | (.running f, c) => some ({ ctx := c, stack := .create f :: s.stack }, .done)
  | .destroy ownerThread inst result stored =>
    match inst with
    | none => some (s, .status .invalidArgument)
    | some a =>
      match s.ctx.instances a with
      | none => none
      | some inst =>
        let (status, c) := instanceDestroy s.ctx ownerThread a inst result stored
        some ({ s with ctx := c }, .status status)
  | .resolve ownerThread inst name result outPresent stored =>
    match inst with
    | none => some (s, .resolved .invalidArgument 0)
    | some a =>
      match s.ctx.instances a with
      | none => none
      | some inst =>
        let (status, handle, c) :=
          instanceResolveExport s.ctx ownerThread inst name result outPresent stored
        some ({ s with ctx := c }, .resolved status handle)
  | .call ownerThread inst q result stored =>
    match inst with
    | none => some (s, .callRejected none .invalidArgument)
    | some a =>
      match s.ctx.instances a with
      | none => none
      | some inst =>
        match instanceCallBegin s.ctx ownerThread a inst q result stored with
        | (.rejected status, c) => some ({ s with ctx := c }, .callRejected (some a) status)
        | (.finished status, c) =>
          some ({ s with ctx := c }, .callReturned a status (Ledger.start (callBudgetInit inst.limits
              (q.options.getD ⟨false, 0, 0, 0, 0, false, 0, false⟩))))
        | (.running f, c) => some ({ ctx := c, stack := .call f :: s.stack }, .done)
  | .close => some ({ s with ctx := { s.ctx with closing := true } }, .done)
  | _ => none

/-- The last safe point of a call, raised by `turbo_script_instance_call` itself. -/
def finalLedger (c : Ctx) (f : CallFrame) (o : BackendOutcome) : Ledger :=
  match c.instances f.inst with
  | none => f.ledger
  | some inst =>
    if o.succeeded ∧ o.valueStored = .ok then
      f.ledger.record .retainedBytes o.retainedBytes
        (safePoint inst.runtime .retainedBytes o.retainedBytes false).1
    else f.ledger

def step (s : HostState) (i : Input) : Option (HostState × Response) :=
  match s.stack with
  | [] => hostStep s i
  | .callback active functionName :: rest =>
    match i with
    | .callbackReturn r poll =>
      let (c, stack) := callbackEnd s.ctx active rest functionName r poll
      some ({ ctx := c, stack }, .done)
    | i => hostStep s i
  | .interrupt :: rest =>
    match i with
    | .interruptReturn => some ({ s with stack := rest }, .done)
    | i => hostStep s i
  | .call f :: rest =>
    match i with
    | .safePoint kind cost poll =>
      if engineAllows f.ledger kind cost then
        let (accepted, c, f) := raiseSafePoint s.ctx f kind cost poll
        some ({ ctx := c, stack := .call f :: rest }, .verdict accepted)
      else none
    | .interruptPoll => some ({ s with stack := .interrupt :: s.stack }, .done)
    | .callback ownerThread functionName adaptation poll =>
      let (c, stack) := callbackBegin s.ctx s.stack ownerThread functionName adaptation poll
      some ({ ctx := c, stack }, .done)
    | .backendReturn o =>
      let (status, c) := instanceCallEnd s.ctx f o
      some ({ ctx := c, stack := rest }, .callReturned f.inst status (finalLedger s.ctx f o))
    | _ => none
  | .create f :: rest =>
    match i with
    | .callback ownerThread functionName adaptation poll =>
      let (c, stack) := callbackBegin s.ctx s.stack ownerThread functionName adaptation poll
      some ({ ctx := c, stack }, .done)
    | .initializerReturn o =>
      let (status, c) := instanceCreateEnd s.ctx f o
      some ({ ctx := c, stack := rest }, .status status)
    | _ => none

def HostState.initial : HostState where
  ctx :=
    { instances := fun _ => none
      results := fun _ => resultClear
      nextInstance := 0
      nextInstanceGeneration := 1
      activeHostInstance := none
      hostCallbackDepth := 0
      closing := false }
  stack := []

/-- Some history of API operations leads from the initial state to `s`. -/
def Reachable (s : HostState) : Prop := ∃ is, Lib.run step HostState.initial is = some s

end TurboScript.Host
