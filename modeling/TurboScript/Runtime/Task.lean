import Mathlib.Algebra.Order.Ring.Int
import TurboScript.Lib.Transition
import Mathlib.Logic.Function.Basic
import Mathlib.Data.List.Basic

/- The task scheduler (`turbo_script_task.c`): a registry of job slots, and one coroutine of the
   context's executor for each task that was accepted. The executor has one worker, so all the
   coroutines run on one thread, whose `ts_task_current_job` is `current`.

   1. Jobs, coroutines, and the critical sections.
   2. The native functions `task.*`, before and after they suspend the coroutine.
   3. The machine: the executor starts, drops and resumes coroutines in any order, callbacks and
      other threads call `task.*`. What the executor answers is part of the input.
   4. What holds in every run (`Live`): a slot is not reset and not taken again while its
      coroutine has not ended. -/
namespace TurboScript.Runtime.Task
open Lib

variable {V : Type}

inductive TState
  | empty | reserved | scheduled | running | waiting | cancelling | completed | failed | cancelled
  deriving DecidableEq, Repr

def TState.terminal : TState → Bool
  | .completed | .failed | .cancelled => true
  | _ => false

/-- `state_name`. -/
def TState.name : TState → String
  | .empty => "invalid" | .reserved => "reserved" | .scheduled => "scheduled"
  | .running => "running" | .waiting => "waiting" | .cancelling => "cancelling"
  | .completed => "completed" | .failed => "failed" | .cancelled => "cancelled"

inductive Rc
  | ok | ecanceled | enomem | enobufs | other
  deriving DecidableEq, Repr

inductive ErrorCode
  | argument | state | cancelled | runtime | oom
  deriving DecidableEq, Repr

/-- A value of the script. Those the scheduler does not make itself are in `V`. -/
inductive Value (V : Type)
  | number (n : Int)
  | integer (n : Int)
  | boolean (b : Bool)
  | string (s : String)
  | script (v : V)
  deriving DecidableEq, Repr

structure Env where
  aborted : Bool := false
  flowNormal : Bool := true
  errorMsg : String := ""
  deriving DecidableEq, Repr

structure Job (V : Type) where
  id : Int := 0
  state : TState := .empty
  active : Bool := false
  cancelled : Bool := false
  awaitActive : Bool := false
  nativeFailed : Bool := false
  autoRelease : Bool := false
  envInitialized : Bool := false
  result : Value V := .number 0
  env : Env := {}
  completion : Bool := false
  error : String := ""
  deriving DecidableEq, Repr

/-- Where in a native function a coroutine is suspended, and the job that function took for its
own when it was called. `nap` is `task.sleep(0)`. -/
inductive Wait
  | yield (self : Nat)
  | nap (self : Nat)
  | sleep (self : Nat)
  | join (self : Nat) (id : Int)
  deriving DecidableEq, Repr

def Wait.self : Wait → Nat
  | .yield j | .nap j | .sleep j | .join j _ => j

inductive Phase
  | queued
  | inCallback
  | suspended (w : Wait)
  deriving DecidableEq, Repr

/-- A coroutine of `run_task` that has not ended; its argument is the slot. -/
structure Coroutine where
  slot : Nat
  phase : Phase
  deriving DecidableEq, Repr

structure Scheduler (V : Type) where
  jobs : Nat → Job V
  capacity : Nat
  activeCount : Nat
  nextId : Int
  closing : Bool
  ctxClosing : Bool
  ctxEnv : Env
  ctxError : Option (ErrorCode × String)
  current : Option Nat
  running : Option Nat
  coros : Nat → Option Coroutine
  nextCoro : Nat

/-- What a native function does in the end: it returns a value (`cloned` also says into whose
environment, `none` being the context's), it fails, or it suspends the coroutine. -/
inductive Reply (V : Type)
  | answered (v : Value V)
  | cloned (v : Value V) (into : Option Nat)
  | failed (code : ErrorCode) (msg : String)
  | suspended (w : Wait)
  deriving DecidableEq, Repr

inductive Event (V : Type)
  | began (slot : Nat)
  | dropped (slot : Nat) (here : Bool)
  | ended (slot : Nat)
  | done (slot : Nat) (cancelled : Bool) (error : String)
  | reply (r : Reply V)
  deriving DecidableEq, Repr

def init (capacity : Nat) : Scheduler V where
  jobs _ := {}
  capacity := capacity
  activeCount := 0
  nextId := 0
  closing := false
  ctxClosing := false
  ctxEnv := {}
  ctxError := none
  current := none
  running := none
  coros _ := none
  nextCoro := 0

def maxSleepMs : Int := 2 ^ 32 - 2

namespace Scheduler

def setJob (s : Scheduler V) (i : Nat) (j : Job V) : Scheduler V :=
  { s with jobs := Function.update s.jobs i j }

def setCoro (s : Scheduler V) (c : Nat) (co : Option Coroutine) : Scheduler V :=
  { s with coros := Function.update s.coros c co }

/-- `find_locked`. -/
def find (s : Scheduler V) (id : Int) : Option Nat :=
  (List.range s.capacity).find? fun i => (s.jobs i).id == id && (s.jobs i).state != .empty

/-- The slot `spawn` takes: the first that is empty. -/
def freeSlot (s : Scheduler V) : Option Nat :=
  (List.range s.capacity).find? fun i => (s.jobs i).state == .empty

/-- `ts_task_execution_env`; `none` is the context's own environment. -/
def executionEnv (s : Scheduler V) (cur : Option Nat) : Option Nat :=
  cur.filter fun j => (s.jobs j).envInitialized

/-- The part of `fail` that stops an environment. -/
def abort (s : Scheduler V) (env : Option Nat) (msg : String) : Scheduler V :=
  match env with
  | some j =>
    s.setJob j { s.jobs j with env := { (s.jobs j).env with aborted := true, errorMsg := msg } }
  | none => { s with ctxEnv := { s.ctxEnv with aborted := true, errorMsg := msg } }

/-- The part of `fail` that notes the error: in the current job, else in the context. -/
def blame (s : Scheduler V) (cur : Option Nat) (code : ErrorCode) (msg : String) : Scheduler V :=
  match cur with
  | some j => s.setJob j { s.jobs j with nativeFailed := true, error := msg }
  | none => { s with ctxError := some (code, msg) }

def fail (s : Scheduler V) (cur : Option Nat) (code : ErrorCode) (msg : String) : Scheduler V × Reply V :=
  ((s.blame cur code msg).abort (s.executionEnv cur) msg, .failed code msg)

/-- `deactivate_locked`: the counter's part of it. -/
def countDown (active : Bool) (n : Nat) : Nat := if active then n - 1 else n

def resetJob (s : Scheduler V) (i : Nat) : Scheduler V := s.setJob i {}

/-- `request_cancel`; `false` is `SALTS_EALREADY`. -/
def requestCancel (s : Scheduler V) (i : Nat) : Bool × Scheduler V :=
  let j := s.jobs i
  if j.state.terminal || j.cancelled then (false, s)
  else (true, s.setJob i { j with cancelled := true, state := .cancelling })

def captureError (e : Env) : String :=
  if e.errorMsg ≠ "" then e.errorMsg else "task callback failed"

def finish (s : Scheduler V) (i : Nat) (forced : Bool) : Scheduler V × List (Event V) :=
  let j := s.jobs i
  let cancelled := forced || j.cancelled
  let failed := j.nativeFailed || j.env.aborted || !j.env.flowNormal
  let error :=
    if cancelled then "task was cancelled"
    else if failed ∧ j.error = "" then captureError j.env else j.error
  let j' : Job V :=
    { j with
      awaitActive := false
      state := if cancelled then .cancelled else if failed then .failed else .completed
      active := false
      error := error }
  let s' := { s.setJob i j' with activeCount := countDown j.active s.activeCount }
  (if j.autoRelease then s'.resetJob i else s',
    if j.completion then [.done i cancelled error] else [])

/-- `run_task` up to the call of the callback, or to its end if the task must not run. -/
def runTask (s : Scheduler V) (c i : Nat) : Scheduler V × List (Event V) :=
  let j := s.jobs i
  if s.closing || s.ctxClosing || j.cancelled || j.state != .scheduled then
    let out := (s.setJob i { j with cancelled := true }).finish i true
    ({ out.1.setCoro c none with current := none }, .began i :: out.2 ++ [.ended i])
  else
    ({ (s.setJob i { j with state := .running, env := {} }).setCoro c (some ⟨i, .inCallback⟩) with
        current := some i, running := some c }, [.began i])

/-- The rest of `run_task`: the callback has returned `v` and left its environment as `env`. -/
def callbackEnd (s : Scheduler V) (c i : Nat) (v : Value V) (env : Env) (overQuota : Bool) :
    Scheduler V × List (Event V) :=
  let j := { s.jobs i with result := v, env := env }
  let j' :=
    if overQuota then
      { j with
        nativeFailed := true
        env := { env with aborted := true }
        error := "task result exceeded the configured memory quota" }
    else j
  let out := (s.setJob i j').finish i false
  ({ out.1.setCoro c none with current := none, running := none }, out.2 ++ [.ended i])

/-- `cancel_task`, which the executor calls for a queued coroutine it gives up, on its own thread
(`here`) or on another. -/
def cancelTask (s : Scheduler V) (c i : Nat) (here : Bool) : Scheduler V × List (Event V) :=
  let out := (s.setJob i { s.jobs i with cancelled := true }).finish i true
  ({ out.1.setCoro c none with current := if here then none else s.current }, out.2 ++ [.dropped i here])

/-- `++s->next_id`, which starts over at 1 when it is not positive. -/
def newId (s : Scheduler V) : Int :=
  if s.nextId + 1 < 2 ^ 63 then s.nextId + 1 else 1

/-- The job as `spawn` submits it. `managed` is a call of `ts_task_spawn_managed`. -/
def spawned (s : Scheduler V) (i : Nat) (managed : Bool) : Job V :=
  { s.jobs i with
    id := s.newId
    completion := managed
    autoRelease := managed
    result := .number 0
    active := true
    state := .scheduled
    env := {}
    envInitialized := true }

/-- `spawn`; `rc` is the answer of `coro_executor_try_submit_to`. -/
def spawn (s : Scheduler V) (cur : Option Nat) (managed : Bool) (rc : Rc) : Scheduler V × Reply V :=
  if s.closing || s.ctxClosing then s.fail cur .state "task.spawn: context is closing"
  else
    match s.freeSlot with
    | none =>
      s.fail cur .state "task.spawn: registry capacity exhausted; release completed tasks"
    | some i =>
      let s' := { s.setJob i (s.spawned i managed) with nextId := s.newId }
      if rc = .ok then
        ({ s'.setCoro s.nextCoro (some ⟨i, .queued⟩) with
            activeCount := s.activeCount + 1, nextCoro := s.nextCoro + 1 },
          .answered (.integer s.newId))
      else
        (s'.resetJob i).fail cur (if rc = .enomem then .oom else .state)
          (if rc = .enobufs then "task.spawn: executor queue is full"
            else "task.spawn: executor rejected the task")

/-! ## The native functions -/

def asId (arg : Option Int) : Option Int := arg.filter fun n => 0 < n ∧ n < 2 ^ 63

/-- What `wait_for` does between `await_begin` and the suspension. -/
def awaitBegin (s : Scheduler V) (j : Nat) : Scheduler V :=
  s.setJob j { s.jobs j with
    awaitActive := true
    state := if (s.jobs j).cancelled then .cancelling else .waiting }

/-- What `wait_for` does after the suspension. -/
def awaitEnd (s : Scheduler V) (j : Nat) : Scheduler V :=
  s.setJob j { s.jobs j with
    awaitActive := false
    state :=
      if !(s.jobs j).state.terminal && !(s.jobs j).cancelled then .running else (s.jobs j).state }

/-- The result of `wait_for`. -/
def awaitRc (s : Scheduler V) (j : Nat) (rc status : Rc) : Rc :=
  if rc ≠ .ok then rc
  else if (s.jobs j).cancelled ∨ status = .ecanceled then .ecanceled else .ok

/-- How `task.sleep` and `task.join` fail when `wait_for` does. -/
def awaitFailed (s : Scheduler V) (cur : Option Nat) (rc : Rc) (msg : String) : Scheduler V × Reply V :=
  if rc = .ecanceled then s.fail cur .cancelled "task was cancelled" else s.fail cur .state msg

/-- `fn_yield` up to `coro_executor_yield`. -/
def fnYield (s : Scheduler V) (cur : Option Nat) (argc : Nat) : Scheduler V × Reply V :=
  if argc ≠ 0 then s.fail cur .argument "task.yield: expected no arguments"
  else
    match cur with
    | none => s.fail cur .state "task.yield: may only be called from task.spawn callback"
    | some j =>
      if (s.jobs j).cancelled then s.fail cur .cancelled "task was cancelled"
      else (s, .suspended (.yield j))

/-- `fn_yield` from there on. -/
def yieldBack (s : Scheduler V) (cur : Option Nat) (j : Nat) (rc : Rc) : Scheduler V × Reply V :=
  if rc ≠ .ok then s.fail cur .state "task.yield: executor yield failed"
  else if (s.jobs j).cancelled then s.fail cur .cancelled "task was cancelled"
  else (s, .answered (.number 0))

/-- The end of `fn_sleep`. -/
def sleepBack (s : Scheduler V) (cur : Option Nat) (rc : Rc) : Scheduler V × Reply V :=
  if rc = .ok then (s, .answered (.number 0))
  else s.awaitFailed cur rc "task.sleep: executor await failed"

/-- `fn_sleep` up to the suspension in `wait_for`. The argument is the one it was given, if it is
a whole number; `opened` is the answer of `coro_executor_await_begin`. -/
def fnSleep (s : Scheduler V) (cur : Option Nat) (arg : Option Int) (opened : Rc) : Scheduler V × Reply V :=
  match arg.filter fun ms => 0 ≤ ms ∧ ms ≤ maxSleepMs with
  | none =>
    s.fail cur .argument "task.sleep: expected milliseconds between 0 and 4294967294"
  | some ms =>
    match cur with
    | none => s.fail cur .state "task.sleep: may only be called from task.spawn callback"
    | some j =>
      if ms = 0 then (s, .suspended (.nap j))
      else if opened ≠ .ok then s.sleepBack cur opened
      else (s.awaitBegin j, .suspended (.sleep j))

/-- One round of the loop of `fn_join`. -/
def joinRound (s : Scheduler V) (cur : Option Nat) (self : Nat) (id : Int) (opened : Rc) :
    Scheduler V × Reply V :=
  match s.find id with
  | none => s.fail cur .argument "task.join: invalid task id"
  | some i =>
    let j := s.jobs i
    if i = self then s.fail cur .argument "task.join: invalid task id"
    else if j.state.terminal then
      if j.state = .completed then (s, .cloned j.result (some self))
      else
        s.fail cur (if j.state = .cancelled then .cancelled else .runtime)
          (if j.error ≠ "" then j.error else "task was cancelled")
    else if opened ≠ .ok then s.awaitFailed cur opened "task.join: executor await failed"
    else (s.awaitBegin self, .suspended (.join self id))

/-- `fn_join` up to the first suspension. -/
def fnJoin (s : Scheduler V) (cur : Option Nat) (arg : Option Int) (opened : Rc) : Scheduler V × Reply V :=
  match asId arg with
  | none => s.fail cur .argument "task.join: expected a positive task id"
  | some id =>
    match cur with
    | none => s.fail cur .state "task.join: may only be called from task.spawn callback"
    | some self => s.joinRound cur self id opened

/-- A native function from its suspension on. `self` is the job it took for its own when it was
called, `cur` what the thread-local holds now. -/
def back (s : Scheduler V) (cur : Option Nat) (w : Wait) (rc status opened : Rc) : Scheduler V × Reply V :=
  match w with
  | .yield self => s.yieldBack cur self rc
  | .nap _ => s.sleepBack cur rc
  | .sleep self => (s.awaitEnd self).sleepBack cur (s.awaitRc self rc status)
  | .join self id =>
    if s.awaitRc self rc status ≠ .ok then
      (s.awaitEnd self).awaitFailed cur (s.awaitRc self rc status)
        "task.join: executor await failed"
    else (s.awaitEnd self).joinRound cur self id opened

def fnStatus (s : Scheduler V) (cur : Option Nat) (arg : Option Int) : Scheduler V × Reply V :=
  match asId arg with
  | none => s.fail cur .argument "task.status: expected a positive task id"
  | some id =>
    (s, .answered (.string (match s.find id with
      | some i => (s.jobs i).state.name
      | none => "invalid")))

def fnResult (s : Scheduler V) (cur : Option Nat) (arg : Option Int) : Scheduler V × Reply V :=
  match asId arg with
  | none => s.fail cur .argument "task.result: expected a positive task id"
  | some id =>
    match (s.find id).filter fun i => (s.jobs i).state = .completed with
    | none => s.fail cur .state "task.result: task is not complete"
    | some i => (s, .cloned (s.jobs i).result (s.executionEnv cur))

def fnCancel (s : Scheduler V) (cur : Option Nat) (arg : Option Int) : Scheduler V × Reply V :=
  match asId arg with
  | none => s.fail cur .argument "task.cancel: expected a positive task id"
  | some id =>
    match s.find id with
    | none => (s, .answered (.boolean false))
    | some i => ((s.requestCancel i).2, .answered (.boolean (s.requestCancel i).1))

def fnRelease (s : Scheduler V) (cur : Option Nat) (arg : Option Int) : Scheduler V × Reply V :=
  match asId arg with
  | none => s.fail cur .argument "task.release: expected a positive task id"
  | some id =>
    match (s.find id).filter fun i => (s.jobs i).state.terminal with
    | none => (s, .answered (.boolean false))
    | some i => (s.resetJob i, .answered (.boolean true))

def fnActive (s : Scheduler V) (cur : Option Nat) (argc : Nat) : Scheduler V × Reply V :=
  if argc ≠ 0 then s.fail cur .argument "task.active_count: expected no arguments"
  else (s, .answered (.integer s.activeCount))

def fnSpawn (s : Scheduler V) (cur : Option Nat) (isFunction : Bool) (rc : Rc) : Scheduler V × Reply V :=
  if isFunction then s.spawn cur false rc
  else s.fail cur .argument "task.spawn: expected one function argument"

end Scheduler

/-- A call of one of the functions of `ts_task_register_functions`, with what the executor answers
while it runs. -/
inductive Native
  | spawn (isFunction : Bool) (rc : Rc)
  | yield (argc : Nat)
  | sleep (arg : Option Int) (opened : Rc)
  | join (arg : Option Int) (opened : Rc)
  | status (arg : Option Int)
  | result (arg : Option Int)
  | cancel (arg : Option Int)
  | release (arg : Option Int)
  | activeCount (argc : Nat)
  deriving DecidableEq, Repr

def Scheduler.native (s : Scheduler V) (cur : Option Nat) : Native → Scheduler V × Reply V
  | .spawn isFunction rc => s.fnSpawn cur isFunction rc
  | .yield argc => s.fnYield cur argc
  | .sleep arg opened => s.fnSleep cur arg opened
  | .join arg opened => s.fnJoin cur arg opened
  | .status arg => s.fnStatus cur arg
  | .result arg => s.fnResult cur arg
  | .cancel arg => s.fnCancel cur arg
  | .release arg => s.fnRelease cur arg
  | .activeCount argc => s.fnActive cur argc

/-! ## The machine -/

/-- `start`, `drop` and `resume` are moves of the executor, `call` and `ret` of the callback that
runs. `host` and what follows it come from other threads, whose thread-local holds no job. -/
inductive Op (V : Type)
  | start (c : Nat)
  | drop (c : Nat) (here : Bool)
  | resume (c : Nat) (rc status opened : Rc)
  | call (n : Native)
  | ret (v : Value V) (env : Env) (overQuota : Bool)
  | host (n : Native)
  | spawnManaged (rc : Rc)
  | close
  | closeContext
  | closeSlot (i : Nat)
  deriving DecidableEq, Repr

namespace Scheduler

/-- The coroutine `c` if the executor may switch to it, which needs an idle thread. -/
def ready (s : Scheduler V) (c : Nat) : Option Coroutine :=
  if s.running.isSome then none else s.coros c

/-- The number of the coroutine whose callback runs, and its slot. -/
def busy (s : Scheduler V) : Option (Nat × Nat) :=
  s.running.bind fun c => (s.coros c).map fun co => (c, co.slot)

/-- The coroutine `c` goes on after a native function, or is suspended in it. -/
def settle (out : Scheduler V × Reply V) (c i : Nat) : Scheduler V × List (Event V) :=
  match out.2 with
  | .suspended w =>
    ({ out.1.setCoro c (some ⟨i, .suspended w⟩) with running := none }, [.reply out.2])
  | _ => ({ out.1.setCoro c (some ⟨i, .inCallback⟩) with running := some c }, [.reply out.2])

end Scheduler

/-- One step. `close` and `closeSlot` are the parts of `ts_task_scheduler_shutdown`. -/
def step (s : Scheduler V) : Op V → Option (Scheduler V × List (Event V))
  | .start c =>
    match s.ready c with
    | some ⟨i, .queued⟩ => some (s.runTask c i)
    | _ => none
  | .drop c here =>
    match if here then s.ready c else s.coros c with
    | some ⟨i, .queued⟩ => some (s.cancelTask c i here)
    | _ => none
  | .resume c rc status opened =>
    match s.ready c with
    | some ⟨i, .suspended w⟩ =>
      some (Scheduler.settle (s.back s.current w rc status opened) c i)
    | _ => none
  | .call n => s.busy.map fun ci => Scheduler.settle (s.native s.current n) ci.1 ci.2
  | .ret v env overQuota => s.busy.map fun ci => s.callbackEnd ci.1 ci.2 v env overQuota
  | .host n => some ((s.native none n).1, [.reply (s.native none n).2])
  | .spawnManaged rc => some ((s.spawn none true rc).1, [.reply (s.spawn none true rc).2])
  | .close => some ({ s with closing := true }, [])
  | .closeContext => some ({ s with ctxClosing := true }, [])
  | .closeSlot i => if i < s.capacity then some ((s.requestCancel i).2, []) else none

/-! ## The coroutines and their slots -/

@[simp] theorem setJob_jobs (s : Scheduler V) (i k : Nat) (j : Job V) :
    (s.setJob i j).jobs k = if k = i then j else s.jobs k := by
  simp [Scheduler.setJob, Function.update_apply]

@[simp] theorem setJob_coros (s : Scheduler V) (i : Nat) (j : Job V) : (s.setJob i j).coros = s.coros := rfl

@[simp] theorem setJob_nextCoro (s : Scheduler V) (i : Nat) (j : Job V) :
    (s.setJob i j).nextCoro = s.nextCoro := rfl

@[simp] theorem setJob_running (s : Scheduler V) (i : Nat) (j : Job V) :
    (s.setJob i j).running = s.running := rfl

@[simp] theorem setJob_current (s : Scheduler V) (i : Nat) (j : Job V) :
    (s.setJob i j).current = s.current := rfl

@[simp] theorem setCoro_coros (s : Scheduler V) (c d : Nat) (co : Option Coroutine) :
    (s.setCoro c co).coros d = if d = c then co else s.coros d := by
  simp [Scheduler.setCoro, Function.update_apply]

@[simp] theorem setCoro_jobs (s : Scheduler V) (c : Nat) (co : Option Coroutine) :
    (s.setCoro c co).jobs = s.jobs := rfl

@[simp] theorem setCoro_nextCoro (s : Scheduler V) (c : Nat) (co : Option Coroutine) :
    (s.setCoro c co).nextCoro = s.nextCoro := rfl

structure Job.Alive (j : Job V) : Prop where
  env : j.envInitialized = true
  open' : j.state.terminal = false
  taken : j.state ≠ .empty

structure Tame (s s' : Scheduler V) : Prop where
  coros : s'.coros = s.coros
  nextCoro : s'.nextCoro = s.nextCoro
  running : s'.running = s.running
  current : s'.current = s.current
  alive : ∀ i, (s.jobs i).Alive → (s'.jobs i).Alive

namespace Tame

theorem refl (s : Scheduler V) : Tame s s := ⟨rfl, rfl, rfl, rfl, fun _ h => h⟩

theorem trans {s t u : Scheduler V} (h : Tame s t) (k : Tame t u) : Tame s u where
  coros := k.coros.trans h.coros
  nextCoro := k.nextCoro.trans h.nextCoro
  running := k.running.trans h.running
  current := k.current.trans h.current
  alive i hi := k.alive i (h.alive i hi)

theorem setJob {s : Scheduler V} {i : Nat} {j : Job V} (h : (s.jobs i).Alive → j.Alive) :
    Tame s (s.setJob i j) := by
  refine ⟨rfl, rfl, rfl, rfl, ?_⟩
  intro k hk
  by_cases hki : k = i
  · subst hki
    simpa using h hk
  · simpa [hki] using hk

theorem blame (s : Scheduler V) (cur : Option Nat) (code : ErrorCode) (msg : String) :
    Tame s (s.blame cur code msg) := by
  cases cur with
  | none => exact ⟨rfl, rfl, rfl, rfl, fun _ h => h⟩
  | some j => exact setJob fun h => ⟨h.env, h.open', h.taken⟩

theorem abort (s : Scheduler V) (env : Option Nat) (msg : String) : Tame s (s.abort env msg) := by
  cases env with
  | none => exact ⟨rfl, rfl, rfl, rfl, fun _ h => h⟩
  | some j => exact setJob fun h => ⟨h.env, h.open', h.taken⟩

theorem fail (s : Scheduler V) (cur : Option Nat) (code : ErrorCode) (msg : String) :
    Tame s (s.fail cur code msg).1 :=
  (blame s cur code msg).trans (abort _ _ _)

theorem resetJob {s : Scheduler V} {i : Nat} (h : ¬ (s.jobs i).Alive) : Tame s (s.resetJob i) :=
  setJob fun hi => absurd hi h

theorem requestCancel (s : Scheduler V) (i : Nat) : Tame s (s.requestCancel i).2 := by
  simp only [Scheduler.requestCancel]
  split
  · exact refl s
  · exact setJob fun h => ⟨h.env, rfl, by simp⟩

theorem awaitBegin (s : Scheduler V) (j : Nat) : Tame s (s.awaitBegin j) := by
  apply setJob
  intro h
  cases hc : (s.jobs j).cancelled <;>
    exact ⟨h.env, by simp [TState.terminal], by simp⟩

theorem awaitEnd (s : Scheduler V) (j : Nat) : Tame s (s.awaitEnd j) := by
  apply setJob
  intro h
  refine ⟨h.env, ?_, ?_⟩
  · simp only
    split
    · rfl
    · exact h.open'
  · simp only
    split
    · simp
    · exact h.taken

theorem awaitFailed (s : Scheduler V) (cur : Option Nat) (rc : Rc) (msg : String) :
    Tame s (s.awaitFailed cur rc msg).1 := by
  unfold Scheduler.awaitFailed
  split
  · exact fail s cur _ _
  · exact fail s cur _ _

theorem sleepBack (s : Scheduler V) (cur : Option Nat) (rc : Rc) : Tame s (s.sleepBack cur rc).1 := by
  unfold Scheduler.sleepBack
  split
  · exact refl s
  · exact awaitFailed s cur _ _

theorem joinRound (s : Scheduler V) (cur : Option Nat) (self : Nat) (id : Int) (opened : Rc) :
    Tame s (s.joinRound cur self id opened).1 := by
  unfold Scheduler.joinRound
  split
  · exact fail s cur _ _
  · simp only
    split
    · exact fail s cur _ _
    · split
      · split
        · exact refl s
        · exact fail s cur _ _
      · split
        · exact awaitFailed s cur _ _
        · exact awaitBegin s self

theorem back (s : Scheduler V) (cur : Option Nat) (w : Wait) (rc status opened : Rc) :
    Tame s (s.back cur w rc status opened).1 := by
  cases w with
  | yield j =>
    simp only [Scheduler.back, Scheduler.yieldBack]
    split_ifs
    · exact fail s cur _ _
    · exact fail s cur _ _
    · exact refl s
  | nap j => exact sleepBack s cur rc
  | sleep j => exact (awaitEnd s j).trans (sleepBack _ cur _)
  | join j id =>
    simp only [Scheduler.back]
    split_ifs
    · exact (awaitEnd s j).trans (awaitFailed _ cur _ _)
    · exact (awaitEnd s j).trans (joinRound _ cur j id opened)

theorem fnYield (s : Scheduler V) (cur : Option Nat) (argc : Nat) : Tame s (s.fnYield cur argc).1 := by
  unfold Scheduler.fnYield
  split_ifs
  · exact fail s cur _ _
  · cases cur with
    | none => exact fail s none _ _
    | some j =>
      simp only
      split_ifs
      · exact fail s (some j) _ _
      · exact refl s

theorem fnSleep (s : Scheduler V) (cur : Option Nat) (arg : Option Int) (opened : Rc) :
    Tame s (s.fnSleep cur arg opened).1 := by
  unfold Scheduler.fnSleep
  split
  · exact fail s cur _ _
  · cases cur with
    | none => exact fail s none _ _
    | some j =>
      simp only
      split_ifs
      · exact refl s
      · exact sleepBack s (some j) opened
      · exact awaitBegin s j

theorem fnJoin (s : Scheduler V) (cur : Option Nat) (arg : Option Int) (opened : Rc) :
    Tame s (s.fnJoin cur arg opened).1 := by
  unfold Scheduler.fnJoin
  split
  · exact fail s cur _ _
  · cases cur with
    | none => exact fail s none _ _
    | some j => exact joinRound s (some j) j _ opened

theorem fnStatus (s : Scheduler V) (cur : Option Nat) (arg : Option Int) :
    Tame s (s.fnStatus cur arg).1 := by
  unfold Scheduler.fnStatus
  split
  · exact fail s cur _ _
  · exact refl s

theorem fnResult (s : Scheduler V) (cur : Option Nat) (arg : Option Int) :
    Tame s (s.fnResult cur arg).1 := by
  unfold Scheduler.fnResult
  split
  · exact fail s cur _ _
  · split
    · exact fail s cur _ _
    · exact refl s

theorem fnCancel (s : Scheduler V) (cur : Option Nat) (arg : Option Int) :
    Tame s (s.fnCancel cur arg).1 := by
  unfold Scheduler.fnCancel
  split
  · exact fail s cur _ _
  · split
    · exact refl s
    · exact requestCancel s _

theorem fnRelease (s : Scheduler V) (cur : Option Nat) (arg : Option Int) :
    Tame s (s.fnRelease cur arg).1 := by
  unfold Scheduler.fnRelease
  split
  · exact fail s cur _ _
  · split
    · exact refl s
    · rename_i i hi
      apply resetJob
      intro h
      have hterm : (s.jobs i).state.terminal = true := by
        simpa using (Option.filter_eq_some_iff.mp hi).2
      rw [h.open'] at hterm
      cases hterm

theorem fnActive (s : Scheduler V) (cur : Option Nat) (argc : Nat) : Tame s (s.fnActive cur argc).1 := by
  unfold Scheduler.fnActive
  split_ifs
  · exact fail s cur _ _
  · exact refl s

end Tame

/-- A step that also puts a new coroutine into the queue, for a slot that was not alive. -/
structure Queued (s s' : Scheduler V) (i : Nat) : Prop where
  coros : s'.coros = Function.update s.coros s.nextCoro (some ⟨i, .queued⟩)
  nextCoro : s'.nextCoro = s.nextCoro + 1
  running : s'.running = s.running
  current : s'.current = s.current
  alive : ∀ k, (s.jobs k).Alive → (s'.jobs k).Alive
  free : ¬ (s.jobs i).Alive
  fresh : (s'.jobs i).Alive

/-- What a native function can do, on whatever thread it is called. -/
def Move (s s' : Scheduler V) : Prop := Tame s s' ∨ ∃ i, Queued s s' i

theorem Move.current {s s' : Scheduler V} (h : Move s s') : s'.current = s.current := by
  obtain h | ⟨i, h⟩ := h
  · exact h.current
  · exact h.current

theorem Move.running {s s' : Scheduler V} (h : Move s s') : s'.running = s.running := by
  obtain h | ⟨i, h⟩ := h
  · exact h.running
  · exact h.running

theorem freeSlot_not_alive {s : Scheduler V} {i : Nat} (h : s.freeSlot = some i) : ¬ (s.jobs i).Alive := by
  have he : (s.jobs i).state = .empty := by
    simpa using List.find?_some h
  exact fun ha => ha.taken he

theorem spawn_move (s : Scheduler V) (cur : Option Nat) (managed : Bool) (rc : Rc) :
    Move s (s.spawn cur managed rc).1 := by
  unfold Scheduler.spawn
  split
  · exact .inl (Tame.fail s cur _ _)
  · split
    · exact .inl (Tame.fail s cur _ _)
    · rename_i i hi
      have hfree := freeSlot_not_alive hi
      have hother : ∀ k, (s.jobs k).Alive → k ≠ i := fun k hk he => hfree (he ▸ hk)
      simp only
      split
      · refine .inr ⟨i, rfl, rfl, rfl, rfl, ?_, hfree, ?_⟩
        · intro k hk
          simpa [Scheduler.setCoro, hother k hk] using hk
        · simp only [Scheduler.setCoro, setJob_jobs, if_true]
          exact ⟨rfl, rfl, by simp [Scheduler.spawned]⟩
      · have hreset : Tame s (({ s.setJob i (s.spawned i managed) with
            nextId := s.newId } : Scheduler V).resetJob i) := by
          refine ⟨rfl, rfl, rfl, rfl, ?_⟩
          intro k hk
          simpa [Scheduler.resetJob, hother k hk] using hk
        exact .inl (hreset.trans (Tame.fail _ cur _ _))

theorem native_move (s : Scheduler V) (cur : Option Nat) (n : Native) : Move s (s.native cur n).1 := by
  cases n with
  | spawn isFunction rc =>
    simp only [Scheduler.native, Scheduler.fnSpawn]
    split
    · exact spawn_move s cur false rc
    · exact .inl (Tame.fail s cur _ _)
  | yield argc => exact .inl (Tame.fnYield s cur argc)
  | sleep arg opened => exact .inl (Tame.fnSleep s cur arg opened)
  | join arg opened => exact .inl (Tame.fnJoin s cur arg opened)
  | status arg => exact .inl (Tame.fnStatus s cur arg)
  | result arg => exact .inl (Tame.fnResult s cur arg)
  | cancel arg => exact .inl (Tame.fnCancel s cur arg)
  | release arg => exact .inl (Tame.fnRelease s cur arg)
  | activeCount argc => exact .inl (Tame.fnActive s cur argc)

/-- What holds of the coroutines in every run: each has a job of its own, which is alive, and the
thread runs one callback at most. -/
structure Live (s : Scheduler V) : Prop where
  fresh : ∀ c, s.nextCoro ≤ c → s.coros c = none
  job : ∀ c co, s.coros c = some co → (s.jobs co.slot).Alive
  apart : ∀ c d co co', s.coros c = some co → s.coros d = some co' → co.slot = co'.slot → c = d
  runs : ∀ c, s.running = some c → ∃ i, s.coros c = some ⟨i, .inCallback⟩
  alone : ∀ c i, s.coros c = some ⟨i, .inCallback⟩ → s.running = some c

namespace Live

theorem init (capacity : Nat) : Live (init capacity : Scheduler V) where
  fresh _ _ := rfl
  job _ _ h := by cases h
  apart _ _ _ _ h := by cases h
  runs _ h := by cases h
  alone _ _ h := by cases h

variable {s s' : Scheduler V}

theorem lt (h : Live s) {c : Nat} {co : Coroutine} (hc : s.coros c = some co) : c < s.nextCoro := by
  by_contra hlt
  rw [h.fresh c (by omega)] at hc
  cases hc

theorem tame (h : Live s) (k : Tame s s') : Live s' where
  fresh c hc := by
    rw [k.coros]
    exact h.fresh c (k.nextCoro ▸ hc)
  job c co hc := k.alive _ (h.job c co (k.coros ▸ hc))
  apart c d co co' hc hd := h.apart c d co co' (k.coros ▸ hc) (k.coros ▸ hd)
  runs c hc := by
    rw [k.coros]
    exact h.runs c (k.running ▸ hc)
  alone c i hc := by
    rw [k.running]
    exact h.alone c i (k.coros ▸ hc)

theorem queued {i : Nat} (h : Live s) (k : Queued s s' i) : Live s' := by
  have hnew : ∀ c, c = s.nextCoro ∨ (c ≠ s.nextCoro ∧ s'.coros c = s.coros c) := by
    intro c
    by_cases hc : c = s.nextCoro
    · exact .inl hc
    · exact .inr ⟨hc, by simp [k.coros, hc]⟩
  have hat : s'.coros s.nextCoro = some ⟨i, .queued⟩ := by simp [k.coros]
  have hslot : ∀ c co, s.coros c = some co → co.slot ≠ i :=
    fun c co hc he => k.free (he ▸ h.job c co hc)
  refine ⟨?_, ?_, ?_, ?_, ?_⟩
  · intro c hc
    rw [k.nextCoro] at hc
    obtain rfl | ⟨_, he⟩ := hnew c
    · omega
    · rw [he]
      exact h.fresh c (by omega)
  · intro c co hc
    obtain rfl | ⟨_, he⟩ := hnew c
    · obtain rfl : Coroutine.mk i .queued = co := by simpa [hat] using hc
      exact k.fresh
    · exact k.alive _ (h.job c co (he ▸ hc))
  · intro c d co co' hc hd hs
    obtain rfl | ⟨_, he⟩ := hnew c
    · obtain rfl : Coroutine.mk i .queued = co := by simpa [hat] using hc
      obtain rfl | ⟨_, he'⟩ := hnew d
      · rfl
      · exact absurd hs.symm (hslot d co' (he' ▸ hd))
    · obtain rfl | ⟨_, he'⟩ := hnew d
      · obtain rfl : Coroutine.mk i .queued = co' := by simpa [hat] using hd
        exact absurd hs (hslot c co (he ▸ hc))
      · exact h.apart c d co co' (he ▸ hc) (he' ▸ hd) hs
  · intro c hc
    obtain ⟨j, hj⟩ := h.runs c (k.running ▸ hc)
    obtain rfl | ⟨_, he⟩ := hnew c
    · exact absurd (h.lt hj) (by omega)
    · exact ⟨j, he.trans hj⟩
  · intro c j hc
    rw [k.running]
    obtain rfl | ⟨_, he⟩ := hnew c
    · rw [hat] at hc
      cases hc
    · exact h.alone c j (he ▸ hc)

theorem move (h : Live s) (k : Move s s') : Live s' := by
  obtain k | ⟨i, k⟩ := k
  · exact h.tame k
  · exact h.queued k

theorem phase {c i : Nat} {p q : Phase} (h : Live s) (hc : s.coros c = some ⟨i, p⟩)
    (hidle : s.running = none ∨ s.running = some c)
    (hcoros : s'.coros = Function.update s.coros c (some ⟨i, q⟩))
    (hnext : s'.nextCoro = s.nextCoro) (halive : ∀ k, (s.jobs k).Alive → (s'.jobs k).Alive)
    (hrun : s'.running = if q = .inCallback then some c else none) : Live s' := by
  have hold : ∀ d co, s'.coros d = some co →
      ∃ co', s.coros d = some co' ∧ co'.slot = co.slot ∧ (d = c → co = ⟨i, q⟩) ∧ (d ≠ c → co' = co) := by
    intro d co hd
    by_cases hdc : d = c
    · subst hdc
      obtain rfl : Coroutine.mk i q = co := by simpa [hcoros] using hd
      exact ⟨_, hc, rfl, fun _ => rfl, fun hne => absurd rfl hne⟩
    · refine ⟨co, ?_, rfl, fun he => absurd he hdc, fun _ => rfl⟩
      simpa [hcoros, hdc] using hd
  refine ⟨?_, ?_, ?_, ?_, ?_⟩
  · intro d hd
    rw [hnext] at hd
    have hdc : d ≠ c := fun he => absurd (h.lt hc) (by omega)
    simpa [hcoros, hdc] using h.fresh d hd
  · intro d co hd
    obtain ⟨co', hd', hs, _⟩ := hold d co hd
    exact halive _ (hs ▸ h.job d co' hd')
  · intro d e co co' hd he hs
    obtain ⟨co₁, hd', hs₁, _⟩ := hold d co hd
    obtain ⟨co₂, he', hs₂, _⟩ := hold e co' he
    exact h.apart d e co₁ co₂ hd' he' (by rw [hs₁, hs₂, hs])
  · intro d hd
    by_cases hq : q = .inCallback
    · obtain rfl : c = d := by simpa [hrun, hq] using hd
      exact ⟨i, by simp [hcoros, hq]⟩
    · simp [hrun, hq] at hd
  · intro d j hd
    obtain ⟨co', hd', _, hsame, hoff⟩ := hold d _ hd
    by_cases hdc : d = c
    · have hq : q = .inCallback := by
        have := hsame hdc
        cases this
        rfl
      simp [hrun, hq, hdc]
    · -- another callback would run on the thread already
      have hrun' := h.alone d j (hoff hdc ▸ hd')
      obtain hn | hn := hidle
      · rw [hn] at hrun'
        cases hrun'
      · rw [hn] at hrun'
        exact absurd (Option.some.inj hrun').symm hdc

theorem ends {c i : Nat} {p : Phase} (h : Live s) (hc : s.coros c = some ⟨i, p⟩)
    (hcoros : s'.coros = Function.update s.coros c none) (hnext : s'.nextCoro = s.nextCoro)
    (hjobs : ∀ k, k ≠ i → s'.jobs k = s.jobs k)
    (hrun : s'.running = if s.running = some c then none else s.running) : Live s' := by
  have hold : ∀ d co, s'.coros d = some co → d ≠ c ∧ s.coros d = some co := by
    intro d co hd
    by_cases hdc : d = c
    · simp [hcoros, hdc] at hd
    · exact ⟨hdc, by simpa [hcoros, hdc] using hd⟩
  refine ⟨?_, ?_, ?_, ?_, ?_⟩
  · intro d hd
    rw [hnext] at hd
    by_cases hdc : d = c
    · simp [hcoros, hdc]
    · simpa [hcoros, hdc] using h.fresh d hd
  · intro d co hd
    obtain ⟨hdc, hd'⟩ := hold d co hd
    have hslot : co.slot ≠ i := fun he => hdc (h.apart d c co _ hd' hc he)
    rw [hjobs _ hslot]
    exact h.job d co hd'
  · intro d e co co' hd he hs
    exact h.apart d e co co' (hold d co hd).2 (hold e co' he).2 hs
  · intro d hd
    by_cases hr : s.running = some c
    · simp [hrun, hr] at hd
    · rw [hrun, if_neg hr] at hd
      have hdc : d ≠ c := fun he => hr (he ▸ hd)
      obtain ⟨j, hj⟩ := h.runs d hd
      exact ⟨j, by simpa [hcoros, hdc] using hj⟩
  · intro d j hd
    obtain ⟨hdc, hd'⟩ := hold d _ hd
    have hr := h.alone d j hd'
    have hne : s.running ≠ some c := by
      rw [hr]
      exact fun he => hdc (Option.some.inj he)
    rw [hrun, if_neg hne, hr]

end Live

theorem finish_frame (s : Scheduler V) (i : Nat) (forced : Bool) :
    (s.finish i forced).1.coros = s.coros ∧ (s.finish i forced).1.nextCoro = s.nextCoro ∧
      (s.finish i forced).1.running = s.running ∧ (s.finish i forced).1.current = s.current ∧
      ∀ k, k ≠ i → (s.finish i forced).1.jobs k = s.jobs k := by
  simp only [Scheduler.finish]
  split
  · refine ⟨rfl, rfl, rfl, rfl, ?_⟩
    intro k hk
    simp [Scheduler.resetJob, Scheduler.setJob, hk]
  · refine ⟨rfl, rfl, rfl, rfl, ?_⟩
    intro k hk
    simp [hk]

theorem ready_some {s : Scheduler V} {c : Nat} {co : Coroutine} (h : s.ready c = some co) :
    s.running = none ∧ s.coros c = some co := by
  unfold Scheduler.ready at h
  split at h
  · cases h
  · rename_i hr
    exact ⟨by simpa using hr, h⟩

theorem busy_some {s : Scheduler V} {ci : Nat × Nat} (h : s.busy = some ci) :
    s.running = some ci.1 ∧ ∃ p, s.coros ci.1 = some ⟨ci.2, p⟩ := by
  obtain ⟨c, hc, h⟩ := Option.bind_eq_some_iff.mp h
  obtain ⟨co, hco, rfl⟩ := Option.map_eq_some_iff.mp h
  exact ⟨hc, co.phase, hco⟩

theorem settle_spec (out : Scheduler V × Reply V) (c i : Nat) : ∃ q, (Scheduler.settle out c i).1 =
        { out.1.setCoro c (some ⟨i, q⟩) with
          running := if q = .inCallback then some c else none } ∧
      (Scheduler.settle out c i).2 = [.reply out.2] ∧
      ∀ w, q = .suspended w → out.2 = .suspended w := by
  unfold Scheduler.settle
  split
  · rename_i w hw
    exact ⟨.suspended w, by simp, rfl, fun w' h => by cases h; exact hw⟩
  · exact ⟨.inCallback, by simp, rfl, fun w' h => by cases h⟩

namespace Live

variable {s : Scheduler V} {c i : Nat}

theorem runTask (h : Live s) (hc : s.coros c = some ⟨i, .queued⟩) (hr : s.running = none) :
    Live (s.runTask c i).1 := by
  simp only [Scheduler.runTask]
  split
  · obtain ⟨hcoros, hnext, hrun, _, hjobs⟩ :=
      finish_frame (s.setJob i { s.jobs i with cancelled := true }) i true
    refine h.ends hc ?_ hnext ?_ ?_
    · simp [Scheduler.setCoro, hcoros]
    · intro k hk
      simpa [hk] using hjobs k hk
    · simpa [Scheduler.setCoro, hr] using hrun
  · refine h.phase (q := .inCallback) hc (.inl hr) rfl rfl ?_ (by simp)
    intro k hk
    by_cases hki : k = i
    · subst hki
      have hj : ({ s.jobs k with state := .running, env := {} } : Job V).Alive :=
        ⟨hk.env, rfl, by simp⟩
      simpa [Scheduler.setCoro] using hj
    · simpa [Scheduler.setCoro, hki] using hk

theorem callbackEnd {p : Phase} (h : Live s) (hc : s.coros c = some ⟨i, p⟩)
    (hr : s.running = some c) (v : Value V) (env : Env) (overQuota : Bool) :
    Live (s.callbackEnd c i v env overQuota).1 := by
  simp only [Scheduler.callbackEnd]
  generalize hj : (if overQuota then _ else _ : Job V) = j
  obtain ⟨hcoros, hnext, _, _, hjobs⟩ := finish_frame (s.setJob i j) i false
  refine h.ends hc ?_ hnext ?_ ?_
  · simp [Scheduler.setCoro, hcoros]
  · intro k hk
    simpa [hk] using hjobs k hk
  · simp [hr]

theorem cancelTask (h : Live s) (hc : s.coros c = some ⟨i, .queued⟩) (here : Bool) :
    Live (s.cancelTask c i here).1 := by
  simp only [Scheduler.cancelTask]
  obtain ⟨hcoros, hnext, hrun, _, hjobs⟩ :=
    finish_frame (s.setJob i { s.jobs i with cancelled := true }) i true
  have hne : s.running ≠ some c := by
    intro hr
    obtain ⟨j, hj⟩ := h.runs c hr
    rw [hc] at hj
    cases hj
  refine h.ends hc ?_ hnext ?_ ?_
  · simp [Scheduler.setCoro, hcoros]
  · intro k hk
    simpa [hk] using hjobs k hk
  · simpa [Scheduler.setCoro, hne] using hrun

theorem settle {out : Scheduler V × Reply V} {p : Phase} (h : Live out.1)
    (hc : out.1.coros c = some ⟨i, p⟩) (hr : out.1.running = none ∨ out.1.running = some c) :
    Live (Scheduler.settle out c i).1 := by
  obtain ⟨q, hq, _⟩ := settle_spec out c i
  rw [hq]
  exact h.phase hc hr rfl rfl (fun _ hk => hk) rfl

theorem moved {s' : Scheduler V} {co : Coroutine} (h : Live s) (k : Move s s')
    (hc : s.coros c = some co) : s'.coros c = some co := by
  obtain k | ⟨i, k⟩ := k
  · rw [k.coros, hc]
  · have hne : c ≠ s.nextCoro := fun he => absurd (h.lt hc) (by omega)
    simpa [k.coros, hne] using hc

theorem step {s s' : Scheduler V} {op : Op V} {evs : List (Event V)} (h : Live s)
    (hs : step s op = some (s', evs)) : Live s' := by
  cases op with
  | start c =>
    simp only [Task.step] at hs
    split at hs
    · rename_i i hc
      obtain ⟨hr, hc⟩ := ready_some hc
      obtain rfl := congrArg Prod.fst (Option.some.inj hs)
      exact h.runTask hc hr
    · cases hs
  | drop c here =>
    simp only [Task.step] at hs
    split at hs
    · rename_i i hc
      have hc : s.coros c = some ⟨i, .queued⟩ := by
        cases here
        · simpa using hc
        · exact (ready_some (by simpa using hc)).2
      obtain rfl := congrArg Prod.fst (Option.some.inj hs)
      exact h.cancelTask hc here
    · cases hs
  | resume c rc status opened =>
    simp only [Task.step] at hs
    split at hs
    · rename_i i w hc
      obtain ⟨hr, hc⟩ := ready_some hc
      obtain rfl := congrArg Prod.fst (Option.some.inj hs)
      have hmove : Move s (s.back s.current w rc status opened).1 :=
        .inl (Tame.back s s.current w rc status opened)
      exact settle (h.move hmove) (h.moved hmove hc) (.inl (hmove.running.trans hr))
    · cases hs
  | call n =>
    obtain ⟨ci, hb, he⟩ := Option.map_eq_some_iff.mp hs
    obtain ⟨hr, p, hc⟩ := busy_some hb
    obtain rfl := congrArg Prod.fst he
    have hmove := native_move s s.current n
    exact settle (h.move hmove) (h.moved hmove hc) (.inr (hmove.running.trans hr))
  | ret v env overQuota =>
    obtain ⟨ci, hb, he⟩ := Option.map_eq_some_iff.mp hs
    obtain ⟨hr, p, hc⟩ := busy_some hb
    obtain rfl := congrArg Prod.fst he
    exact h.callbackEnd hc hr v env overQuota
  | host n =>
    obtain rfl := congrArg Prod.fst (Option.some.inj hs)
    exact h.move (native_move s none n)
  | spawnManaged rc =>
    obtain rfl := congrArg Prod.fst (Option.some.inj hs)
    exact h.move (spawn_move s none true rc)
  | close | closeContext =>
    obtain rfl := congrArg Prod.fst (Option.some.inj hs)
    exact ⟨h.fresh, h.job, h.apart, h.runs, h.alone⟩
  | closeSlot i =>
    simp only [Task.step] at hs
    split at hs
    · obtain rfl := congrArg Prod.fst (Option.some.inj hs)
      exact h.tame (Tame.requestCancel s i)
    · cases hs

theorem reaches {ops rest : List (Op V)} {capacity : Nat} {os : List (List (Event V))}
    (h : ComesTo Task.step (Task.init capacity) ops s os rest) :
    Live s :=
  h.rule (P := fun s _ => Live s) (Live.init capacity) fun _ _ _ _ _ _ _ hs h => h.step hs

end Live

end TurboScript.Runtime.Task
