import Mathlib.Algebra.Order.Ring.Int
import TurboScript.Lib.Transition
import Mathlib.Logic.Function.Basic
import Mathlib.Data.List.Basic

/- The timer scheduler (`turbo_script_timer.c`): a table of job slots, and one coroutine of the
   executor for each timer that was admitted. A coroutine keeps nothing but the slot.

   1. Jobs, coroutines, and the critical sections `request`, `done`, `ts_timer_wait` and `start`.
   2. The machine: calls of `timer.*` and steps of the executor in any order; while a callback
      runs anything else may happen. What the executor answers is part of the input.
   3. The runs in which no slot is taken from a coroutine, and what holds of them
      (`timers_isolated`). `cancel` marks the job terminal while its coroutine is still suspended,
      and `start` takes any terminal slot. -/
namespace TurboScript.Runtime.Timer
open Lib Function

inductive TState
  | empty | reserved | scheduled | pending | running | completed | cancelled | failed
  deriving DecidableEq, Repr

inductive TKind
  | after | every | cron
  deriving DecidableEq, Repr

def TState.term : TState → Bool
  | .completed | .cancelled | .failed | .empty => true
  | _ => false

def TState.name : TState → String
  | .empty => "invalid" | .reserved => "reserved" | .scheduled => "scheduled"
  | .pending => "pending" | .running => "running" | .completed => "completed"
  | .cancelled => "cancelled" | .failed => "failed"

structure Callback where
  closureEnv : Option Nat
  owned : Bool
  deriving DecidableEq, Repr

structure Job where
  id : Int := 0
  kind : TKind := .after
  state : TState := .empty
  active : Bool := false
  cancelled : Bool := false
  awaitActive : Bool := false
  await : Nat := 0
  interval : Nat := 0
  cron : String := ""
  due : Int := 0
  callback : Callback := ⟨none, false⟩
  error : String := ""
  deriving DecidableEq, Repr

inductive Phase
  | queued
  | waiting
  | inCallback
  deriving DecidableEq, Repr

/-- A coroutine of `timer_run` that has not ended. Its argument is the slot; `timer` is the id its
job had when it was submitted, which the code does not keep. -/
structure Coroutine where
  slot : Nat
  timer : Int
  phase : Phase
  deriving DecidableEq, Repr

structure Scheduler where
  jobs : Nat → Job
  capacity : Nat
  activeCount : Nat
  nextId : Int
  closing : Bool
  coros : Nat → Option Coroutine
  nextCoro : Nat

/-- What a step does that others can see: retains and releases of closures, callbacks run, and
the answers to scripts. -/
inductive Event
  | retained (id : Int) (env : Nat)
  | released (id : Int) (env : Nat)
  | ran (id : Int)
  | started (id : Int) (kind : TKind) (closureEnv : Option Nat)
  | cancelled (id : Int)
  | notCancelled (id : Int)
  | status (id : Int) (name : String)
  | refused (msg : String)
  | awaiting (handle ms : Nat)
  | awaitCompleted (handle : Nat)
  deriving DecidableEq, Repr

def init (capacity : Nat) : Scheduler where
  jobs _ := {}
  capacity := capacity
  activeCount := 0
  nextId := 0
  closing := false
  coros _ := none
  nextCoro := 0

def maxDelayMs : Nat := 2 ^ 32 - 2

def Scheduler.setJob (s : Scheduler) (i : Nat) (j : Job) : Scheduler :=
  { s with jobs := update s.jobs i j }

def Scheduler.setCoro (s : Scheduler) (c : Nat) (co : Option Coroutine) : Scheduler :=
  { s with coros := update s.coros c co }

def Scheduler.find (s : Scheduler) (id : Int) : Option Nat :=
  (List.range s.capacity).find? fun i => (s.jobs i).id == id && (s.jobs i).state != .empty

/-- The slot `start` takes: the first that is terminal. -/
def Scheduler.freeSlot (s : Scheduler) : Option Nat :=
  (List.range s.capacity).find? fun i => (s.jobs i).state.term

/-- `inactive`: the job's part of it and the counter's. -/
def countDown (active : Bool) (n : Nat) : Nat := if active then n - 1 else n

/-- `keepcb`. -/
def Callback.keep (cb : Callback) : Callback :=
  if cb.closureEnv.isSome then { cb with owned := true } else cb

/-- `dropcb`. -/
def Callback.drop (cb : Callback) : Callback :=
  if cb.owned && cb.closureEnv.isSome then ⟨none, false⟩ else cb

def Callback.retains (id : Int) (cb : Callback) : List Event :=
  match cb.closureEnv with
  | some env => [.retained id env]
  | none => []

def Callback.releases (id : Int) (cb : Callback) : List Event :=
  match cb.closureEnv with
  | some env => if cb.owned then [.released id env] else []
  | none => []

/-- `request`; `false` is `SALTS_EALREADY`. An await in progress is completed. -/
def Scheduler.request (s : Scheduler) (i : Nat) : Bool × Scheduler × List Event :=
  let j := s.jobs i
  if j.state.term || j.cancelled then (false, s, [])
  else
    (true, { s.setJob i { j with cancelled := true, state := .cancelled, active := false } with
        activeCount := countDown j.active s.activeCount },
      if j.awaitActive then [.awaitCompleted j.await] else [])

/-- `done`, and the end of the coroutine. -/
def Scheduler.done (s : Scheduler) (c i : Nat) (state : TState) (err : Option String) :
    Scheduler × List Event :=
  let j := s.jobs i
  let j' : Job :=
    { j with
      awaitActive := false
      state := state
      error := err.getD j.error
      active := false
      callback := j.callback.drop }
  ({ (s.setJob i j').setCoro c none with activeCount := countDown j.active s.activeCount },
    j.callback.releases j.id)

def dueMs (due now : Int) : Nat :=
  if due ≤ now then 1
  else if (maxDelayMs / 1000 : Int) < due - now then maxDelayMs
  else ((due - now) * 1000).toNat

/-- What a coroutine finds when it goes to wait: the clock, and the await it is given if there
is one. -/
structure Begin where
  now : Int
  handle : Option Nat
  deriving DecidableEq, Repr

/-- The head of the loop in `timer_run`, up to the suspension in `ts_timer_wait`. -/
def Scheduler.loopHead (s : Scheduler) (c : Nat) (co : Coroutine) (b : Begin) : Scheduler × List Event :=
  let j := s.jobs co.slot
  if j.cancelled || s.closing then s.done c co.slot .cancelled (some "timer was cancelled")
  else
    let ms := if j.kind = .cron then dueMs j.due b.now else j.interval
    match b.handle with
    | none => s.done c co.slot .cancelled (some "timer was cancelled")
    | some h =>
      let j' := { j with
        await := h
        awaitActive := true
        state := if j.cancelled then .cancelled else .scheduled }
      ((s.setJob co.slot j').setCoro c (some { co with phase := .waiting }),
        [.awaiting h (if ms = 0 then 1 else ms)])

/-- From the end of the await to the call of the callback. -/
def Scheduler.wake (s : Scheduler) (c : Nat) (co : Coroutine) (rcOk statusCancelled : Bool) :
    Scheduler × List Event :=
  let j := s.jobs co.slot
  let j' := { j with
    awaitActive := false
    state := if j.state.term then j.state else .pending }
  if !rcOk || j.cancelled || statusCancelled then
    (s.setJob co.slot j').done c co.slot .cancelled (some "timer was cancelled")
  else
    ((s.setJob co.slot { j' with state := .running }).setCoro c (some { co with phase := .inCallback }),
      [.ran j.id])

/-- From the end of the callback to the next await or the end. `failure` is the text of the error
the callback left, `next` the next occurrence of the cron expression. -/
def Scheduler.finish (s : Scheduler) (c : Nat) (co : Coroutine) (failure : Option String)
    (next : Option Int) (b : Begin) : Scheduler × List Event :=
  let j := s.jobs co.slot
  match failure with
  | some e => s.done c co.slot .failed (some e)
  | none =>
    match j.kind, next with
    | .after, _ => s.done c co.slot .completed none
    | .every, _ => s.loopHead c co b
    | .cron, none => s.done c co.slot .failed (some "timer: no next cron occurrence")
    | .cron, some due => (s.setJob co.slot { j with due := due }).loopHead c co b

/-- `++s->next_id`, which starts over at 1 when it is not positive. -/
def Scheduler.newId (s : Scheduler) : Int :=
  if s.nextId + 1 < 2 ^ 63 then s.nextId + 1 else 1

/-- `start`; `admitted` is the answer of the executor. -/
def Scheduler.start (s : Scheduler) (kind : TKind) (interval : Nat) (cron : String) (due : Int)
    (cb : Callback) (admitted : Bool) : Scheduler × List Event :=
  if s.closing then (s, [.refused "timer: context is closing"])
  else
    match s.freeSlot with
    | none => (s, [.refused "timer: job capacity exhausted"])
    | some i =>
      let id := s.newId
      let j : Job :=
        { id, kind, interval, due, cron
          callback := cb.keep
          active := true
          state := .scheduled }
      if admitted then
        ({ (s.setJob i j).setCoro s.nextCoro (some ⟨i, id, .queued⟩) with
            nextId := id, activeCount := s.activeCount + 1, nextCoro := s.nextCoro + 1 },
          cb.retains id ++ [.started id kind cb.closureEnv])
      else
        ({ s.setJob i { j with
              active := false
              state := .failed
              error := "timer: executor rejected callback"
              callback := j.callback.drop } with
            nextId := id },
          cb.retains id ++ j.callback.releases id ++ [.refused "timer: executor queue is full"])

inductive Op
  | after (ms : Nat) (cb : Callback) (admitted : Bool)
  | every (ms : Nat) (cb : Callback) (admitted : Bool)
  | cron (text : String) (due : Option Int) (cb : Callback) (admitted : Bool)
  | cancel (id : Int)
  | status (id : Int)
  | resume (c : Nat) (b : Begin)
  | wake (c : Nat) (rcOk statusCancelled : Bool)
  | finish (c : Nat) (failure : Option String) (next : Option Int) (b : Begin)
  | drop (c : Nat)
  | close
  | closeSlot (i : Nat)
  deriving DecidableEq, Repr

/-- The state `timer.status` reports. -/
def Scheduler.statusOf (s : Scheduler) (id : Int) : String :=
  match s.find id with
  | some i => (s.jobs i).state.name
  | none => "invalid"

def Scheduler.inPhase (s : Scheduler) (c : Nat) (p : Phase) : Option Coroutine :=
  (s.coros c).filter fun co => co.phase = p

/-- One step. The cron expression of `timer.cron` has no next occurrence, or does not parse, when
`due` is `none`; `close` and `closeSlot` are the parts of the shutdown. -/
def step (s : Scheduler) : Op → Option (Scheduler × List Event)
  | .after ms cb admitted =>
    if maxDelayMs < ms then
      some (s, [.refused "timer.after: expected (integer milliseconds, function)"])
    else some (s.start .after ms "" 0 cb admitted)
  | .every ms cb admitted =>
    if ms = 0 ∨ maxDelayMs < ms then
      some (s, [.refused "timer.every: expected (positive integer milliseconds, function)"])
    else some (s.start .every ms "" 0 cb admitted)
  | .cron text due cb admitted =>
    match due with
    | none => some (s, [.refused "timer.cron: invalid expression"])
    | some due => some (s.start .cron 0 text due cb admitted)
  | .cancel id =>
    if id ≤ 0 then some (s, [.refused "timer.cancel: expected a positive timer id"])
    else
      match s.find id with
      | none => some (s, [.notCancelled id])
      | some i =>
        match s.request i with
        | (true, s', evs) => some (s', evs ++ [.cancelled id])
        | (false, s', evs) => some (s', evs ++ [.notCancelled id])
  | .status id =>
    if id ≤ 0 then some (s, [.refused "timer.status: expected a positive timer id"])
    else some (s, [.status id (s.statusOf id)])
  | .resume c b => (s.inPhase c .queued).map fun co => s.loopHead c co b
  | .wake c rcOk statusCancelled =>
    (s.inPhase c .waiting).map fun co => s.wake c co rcOk statusCancelled
  | .finish c failure next b =>
    (s.inPhase c .inCallback).map fun co => s.finish c co failure next b
  | .drop c =>
    (s.inPhase c .queued).map fun co => s.done c co.slot .cancelled (some "timer was cancelled")
  | .close => some ({ s with closing := true }, [])
  | .closeSlot i => if i < s.capacity then some (s.request i).2 else none

/-! The runs in which no slot is taken from a coroutine. -/

/-- The slot `start` would take is not that of a cancelled timer whose coroutine has still to end,
and the ids do not start over. -/
def SlotIsFree (s : Scheduler) : Prop :=
  s.nextId + 1 < 2 ^ 63 ∧ ∀ i ∈ s.freeSlot, ∀ c < s.nextCoro, ∀ co ∈ s.coros c,
      co.slot = i → (s.jobs i).cancelled = false

instance (s : Scheduler) : Decidable (SlotIsFree s) :=
  inferInstanceAs (Decidable (_ ∧ ∀ i ∈ s.freeSlot, ∀ c < s.nextCoro, ∀ co ∈ s.coros c, _ → _))

def Safe (s : Scheduler) : Op → Prop
  | .after _ _ _ | .every _ _ _ | .cron _ _ _ _ => SlotIsFree s
  | _ => True

def AllSafe : Scheduler → List Op → Prop
  | _, [] => True
  | s, op :: ops => Safe s op ∧ ∀ r ∈ step s op, AllSafe r.1 ops

instance (s : Scheduler) : (op : Op) → Decidable (Safe s op)
  | .after _ _ _ | .every _ _ _ | .cron _ _ _ _ => inferInstanceAs (Decidable (SlotIsFree s))
  | .cancel _ | .status _ | .resume _ _ | .wake _ _ _ | .finish _ _ _ _ | .drop _ | .close
  | .closeSlot _ => inferInstanceAs (Decidable True)

instance decidableAllSafe : (s : Scheduler) → (ops : List Op) → Decidable (AllSafe s ops)
  | _, [] => inferInstanceAs (Decidable True)
  | s, op :: ops =>
    have := fun s => decidableAllSafe s ops
    inferInstanceAs (Decidable (Safe s op ∧ ∀ r ∈ step s op, AllSafe r.1 ops))

def Event.timer : Event → Option Int
  | .retained id _ | .released id _ | .ran id | .started id _ _ | .cancelled id => some id
  | _ => none

inductive Move (s : Scheduler) : Scheduler → List Event → Prop
  | quiet {s' evs} (hjobs : s'.jobs = s.jobs) (hcoros : s'.coros = s.coros)
      (hid : s'.nextId = s.nextId) (hcoro : s'.nextCoro = s.nextCoro)
      (hevs : ∀ e ∈ evs, e.timer = none) : Move s s' evs
  | start {s' evs} {i : Nat} {j : Job} {cb : Callback} (hsafe : SlotIsFree s)
      (hfree : s.freeSlot = some i)
      (hjobs : s'.jobs = update s.jobs i j)
      (hcoros : s'.coros = update s.coros s.nextCoro (some ⟨i, s.newId, .queued⟩))
      (hid : s'.nextId = s.newId) (hcoro : s'.nextCoro = s.nextCoro + 1)
      (hevs : evs = cb.retains s.newId ++ [.started s.newId j.kind cb.closureEnv])
      (hjob : j.id = s.newId ∧ j.callback = cb.keep ∧ j.state = .scheduled) : Move s s' evs
  | refuse {s' evs} {i : Nat} {j : Job} {cb : Callback} {msg : String}
      (hsafe : SlotIsFree s) (hfree : s.freeSlot = some i) (hjobs : s'.jobs = update s.jobs i j)
      (hcoros : s'.coros = s.coros) (hid : s'.nextId = s.newId) (hcoro : s'.nextCoro = s.nextCoro)
      (hevs : evs = cb.retains s.newId ++ cb.keep.releases s.newId ++ [.refused msg])
      (hjob : j.id = s.newId ∧ j.state = .failed) : Move s s' evs
  | cancel {s' evs} {i : Nat} {j : Job} (hstate : (s.jobs i).state.term = false)
      (hjobs : s'.jobs = update s.jobs i j) (hcoros : s'.coros = s.coros)
      (hid : s'.nextId = s.nextId) (hcoro : s'.nextCoro = s.nextCoro)
      (hevs : ∀ e ∈ evs, e.timer = none ∨ e = .cancelled (s.jobs i).id)
      (hjob : j = { s.jobs i with cancelled := true, state := .cancelled, active := false }) :
      Move s s' evs
  | wait {s' evs} {c : Nat} {co : Coroutine} {j : Job} (hco : s.coros c = some co)
      (hkind : (s.jobs co.slot).kind = .after → co.phase = .queued)
      (hjobs : s'.jobs = update s.jobs co.slot j)
      (hcoros : s'.coros = update s.coros c (some { co with phase := .waiting }))
      (hid : s'.nextId = s.nextId) (hcoro : s'.nextCoro = s.nextCoro)
      (hevs : ∀ e ∈ evs, e.timer = none)
      (hjob : j.id = (s.jobs co.slot).id ∧ j.kind = (s.jobs co.slot).kind ∧
        j.callback = (s.jobs co.slot).callback ∧ j.cancelled = (s.jobs co.slot).cancelled ∧
        j.state = .scheduled) : Move s s' evs
  | run {s' evs} {c : Nat} {co : Coroutine} {j : Job} (hco : s.coros c = some co)
      (hphase : co.phase = .waiting) (hlive : (s.jobs co.slot).cancelled = false)
      (hjobs : s'.jobs = update s.jobs co.slot j)
      (hcoros : s'.coros = update s.coros c (some { co with phase := .inCallback }))
      (hid : s'.nextId = s.nextId) (hcoro : s'.nextCoro = s.nextCoro)
      (hevs : evs = [.ran (s.jobs co.slot).id])
      (hjob : j.id = (s.jobs co.slot).id ∧ j.kind = (s.jobs co.slot).kind ∧
        j.callback = (s.jobs co.slot).callback ∧ j.cancelled = (s.jobs co.slot).cancelled ∧
        j.state = .running) : Move s s' evs
  | done {s' evs} {c : Nat} {co : Coroutine} {j : Job} (hco : s.coros c = some co)
      (hjobs : s'.jobs = update s.jobs co.slot j)
      (hcoros : s'.coros = update s.coros c none)
      (hid : s'.nextId = s.nextId) (hcoro : s'.nextCoro = s.nextCoro)
      (hevs : evs = (s.jobs co.slot).callback.releases (s.jobs co.slot).id)
      (hjob : j.id = (s.jobs co.slot).id ∧ j.state ≠ .empty) : Move s s' evs

variable {s s' : Scheduler} {evs : List Event} {op : Op} {c : Nat} {co : Coroutine}

variable {cb : Callback} {b : Begin} {p : Phase}

theorem start_move {kind : TKind} {interval : Nat} {cron : String} {due : Int} {admitted : Bool}
    (hsafe : SlotIsFree s) (h : s.start kind interval cron due cb admitted = (s', evs)) :
    Move s s' evs := by
  unfold Scheduler.start at h
  split at h
  · cases h
    exact .quiet rfl rfl rfl rfl (by simp [Event.timer])
  · split at h
    · cases h
      exact .quiet rfl rfl rfl rfl (by simp [Event.timer])
    · rename_i i hfree
      dsimp only at h
      split at h
      · cases h
        exact .start hsafe hfree rfl rfl rfl rfl rfl ⟨rfl, rfl, rfl⟩
      · cases h
        exact .refuse hsafe hfree rfl rfl rfl rfl rfl ⟨rfl, rfl⟩

theorem request_cases (s : Scheduler) (i : Nat) : s.request i = (false, s, []) ∨
    ∃ evs, (∀ e ∈ evs, e.timer = none) ∧ (s.jobs i).state.term = false ∧ s.request i = (true,
        { s.setJob i { s.jobs i with cancelled := true, state := .cancelled, active := false } with
          activeCount := countDown (s.jobs i).active s.activeCount }, evs) := by
  unfold Scheduler.request
  by_cases h : ((s.jobs i).state.term || (s.jobs i).cancelled) = true
  · exact .inl (if_pos h)
  · refine .inr ⟨_, ?_, ?_, if_neg h⟩
    · intro e he
      split at he
      · rw [List.mem_singleton.mp he]
        rfl
      · cases he
    · simp only [Bool.or_eq_true, not_or, Bool.not_eq_true] at h
      exact h.1

/-- A coroutine has written to fields of its job that say nothing about whose job it is. -/
structure Staged (s : Scheduler) (co : Coroutine) (t : Scheduler) : Prop where
  job : (t.jobs co.slot).id = (s.jobs co.slot).id ∧ (t.jobs co.slot).kind = (s.jobs co.slot).kind ∧
    (t.jobs co.slot).callback = (s.jobs co.slot).callback ∧
    (t.jobs co.slot).cancelled = (s.jobs co.slot).cancelled
  jobs : ∀ j, update t.jobs co.slot j = update s.jobs co.slot j
  coros : t.coros = s.coros
  nextId : t.nextId = s.nextId
  nextCoro : t.nextCoro = s.nextCoro

theorem Staged.refl (s : Scheduler) (co : Coroutine) : Staged s co s :=
  ⟨⟨rfl, rfl, rfl, rfl⟩, fun _ => rfl, rfl, rfl, rfl⟩

theorem Staged.setJob {j : Job} (hid : j.id = (s.jobs co.slot).id)
    (hkind : j.kind = (s.jobs co.slot).kind) (hcb : j.callback = (s.jobs co.slot).callback)
    (hc : j.cancelled = (s.jobs co.slot).cancelled) : Staged s co (s.setJob co.slot j) where
  job := by
    have hj : (s.setJob co.slot j).jobs co.slot = j := update_self ..
    rw [hj]
    exact ⟨hid, hkind, hcb, hc⟩
  jobs _ := update_idem ..
  coros := rfl
  nextId := rfl
  nextCoro := rfl

variable {t : Scheduler}

theorem done_move {state : TState} {err : Option String} (ht : Staged s co t)
    (hco : s.coros c = some co) (hstate : state ≠ .empty)
    (h : t.done c co.slot state err = (s', evs)) : Move s s' evs := by
  cases h
  refine .done hco (ht.jobs _) ?_ ht.nextId ht.nextCoro ?_ ⟨ht.job.1, hstate⟩
  · exact congrArg (fun coros => update coros c none) ht.coros
  · rw [ht.job.1, ht.job.2.2.1]

theorem loopHead_move (ht : Staged s co t) (hco : s.coros c = some co)
    (hkind : (s.jobs co.slot).kind = .after → co.phase = .queued)
    (h : t.loopHead c co b = (s', evs)) : Move s s' evs := by
  unfold Scheduler.loopHead at h
  dsimp only at h
  split at h
  · exact done_move ht hco (by decide) h
  · rename_i hrun
    have hlive : (t.jobs co.slot).cancelled = false := by
      simp only [Bool.or_eq_true, not_or, Bool.not_eq_true] at hrun
      exact hrun.1
    split at h
    · exact done_move ht hco (by decide) h
    · cases h
      refine .wait hco hkind (ht.jobs _) ?_ ht.nextId ht.nextCoro (by simp [Event.timer]) ?_
      · exact congrArg (fun coros => update coros c _) ht.coros
      · exact ⟨ht.job.1, ht.job.2.1, ht.job.2.2.1, ht.job.2.2.2, by simp [hlive]⟩

theorem wake_move {rcOk statusCancelled : Bool} (hco : s.coros c = some co)
    (hphase : co.phase = .waiting) (h : s.wake c co rcOk statusCancelled = (s', evs)) :
    Move s s' evs := by
  unfold Scheduler.wake at h
  dsimp only at h
  split at h
  · refine done_move ?_ hco ?_ h
    · exact .setJob rfl rfl rfl rfl
    · decide
  · rename_i hrun
    have hlive : (s.jobs co.slot).cancelled = false := by
      simp only [Bool.or_eq_true, not_or, Bool.not_eq_true] at hrun
      exact hrun.1.2
    cases h
    exact .run hco hphase hlive rfl rfl rfl rfl rfl ⟨rfl, rfl, rfl, rfl, rfl⟩

theorem finish_move {failure : Option String} {next : Option Int} (hco : s.coros c = some co)
    (h : s.finish c co failure next b = (s', evs)) : Move s s' evs := by
  unfold Scheduler.finish at h
  dsimp only at h
  split at h
  · exact done_move (.refl s co) hco (by decide) h
  · split at h
    · exact done_move (.refl s co) hco (by decide) h
    · rename_i hkind
      exact loopHead_move (.refl s co) hco (fun hafter => nomatch hkind.symm.trans hafter) h
    · exact done_move (.refl s co) hco (by decide) h
    · rename_i hkind
      refine loopHead_move ?_ hco (fun hafter => nomatch hkind.symm.trans hafter) h
      exact .setJob rfl rfl rfl rfl

theorem inPhase_some (h : s.inPhase c p = some co) : s.coros c = some co ∧ co.phase = p := by
  obtain ⟨hco, hp⟩ := Option.filter_eq_some_iff.mp h
  exact ⟨hco, of_decide_eq_true hp⟩

theorem step_move (hsafe : Safe s op) (h : step s op = some (s', evs)) : Move s s' evs := by
  match op with
  | .after _ _ _ | .every _ _ _ | .cron _ _ _ _ =>
    simp only [step] at h
    split at h
    · cases h
      exact .quiet rfl rfl rfl rfl (by simp [Event.timer])
    · exact start_move hsafe (Option.some.inj h)
  | .cancel id =>
    simp only [step] at h
    split at h
    · cases h
      exact .quiet rfl rfl rfl rfl (by simp [Event.timer])
    · split at h
      · cases h
        exact .quiet rfl rfl rfl rfl (by simp [Event.timer])
      · rename_i i hfind
        have hid : (s.jobs i).id = id := by
          have hp := List.find?_some hfind
          simp only [Bool.and_eq_true, beq_iff_eq] at hp
          exact hp.1
        obtain hreq | ⟨revs, hquiet, hstate, hreq⟩ := request_cases s i
        · rw [hreq] at h
          cases h
          exact .quiet rfl rfl rfl rfl (by simp [Event.timer])
        · rw [hreq] at h
          cases h
          refine .cancel (i := i) hstate rfl rfl rfl rfl (fun e he => ?_) rfl
          obtain he | he := List.mem_append.mp he
          · exact .inl (hquiet e he)
          · exact .inr (by rw [List.mem_singleton.mp he, hid])
  | .status id =>
    simp only [step] at h
    split at h
    · cases h
      exact .quiet rfl rfl rfl rfl (by simp [Event.timer])
    · cases h
      exact .quiet rfl rfl rfl rfl (by simp [Event.timer])
  | .resume c b =>
    obtain ⟨co, hco, h⟩ := Option.map_eq_some_iff.mp h
    obtain ⟨hco, hphase⟩ := inPhase_some hco
    exact loopHead_move (.refl s co) hco (fun _ => hphase) h
  | .wake c rcOk statusCancelled =>
    obtain ⟨co, hco, h⟩ := Option.map_eq_some_iff.mp h
    obtain ⟨hco, hphase⟩ := inPhase_some hco
    exact wake_move hco hphase h
  | .finish c failure next b =>
    obtain ⟨co, hco, h⟩ := Option.map_eq_some_iff.mp h
    exact finish_move (inPhase_some hco).1 h
  | .drop c =>
    obtain ⟨co, hco, h⟩ := Option.map_eq_some_iff.mp h
    exact done_move (.refl s co) (inPhase_some hco).1 (by decide) h
  | .close =>
    cases h
    exact .quiet rfl rfl rfl rfl (by simp)
  | .closeSlot i =>
    simp only [step] at h
    split at h
    · have h := Option.some.inj h
      obtain hreq | ⟨revs, hquiet, hstate, hreq⟩ := request_cases s i
      · rw [hreq] at h
        cases h
        exact .quiet rfl rfl rfl rfl (by simp)
      · rw [hreq] at h
        cases h
        exact .cancel hstate rfl rfl rfl rfl (fun e he => .inl (hquiet e he)) rfl
    · cases h

/-! The invariant of the slots. -/

structure Ids (jobs : Nat → Job) (nextId : Int) : Prop where
  nonneg : 0 ≤ nextId
  range : ∀ i, (jobs i).state ≠ .empty → 0 < (jobs i).id ∧ (jobs i).id ≤ nextId
  inj : ∀ i k, (jobs i).state ≠ .empty → (jobs k).state ≠ .empty → (jobs i).id = (jobs k).id → i = k

/-- Every coroutine has its slot for itself, the job there is still its own, and while the
coroutine lives nothing but a cancel makes the job terminal. -/
structure Owners (s : Scheduler) : Prop where
  fresh : ∀ c co, s.coros c = some co → c < s.nextCoro
  slot_inj : ∀ c d co cd, s.coros c = some co → s.coros d = some cd → co.slot = cd.slot → c = d
  own : ∀ c co, s.coros c = some co →
    (s.jobs co.slot).id = co.timer ∧ (s.jobs co.slot).state ≠ .empty
  term : ∀ c co, s.coros c = some co → (s.jobs co.slot).state.term = true →
    (s.jobs co.slot).cancelled = true

structure Inv (s : Scheduler) : Prop where
  ids : Ids s.jobs s.nextId
  owners : Owners s

variable {i : Nat} {j : Job} {jobs : Nat → Job} {n : Int}

theorem Ids.update_same (h : Ids jobs n) (hi : (jobs i).state ≠ .empty) (hid : j.id = (jobs i).id) :
    Ids (update jobs i j) n := by
  have hsame : ∀ k, (update jobs i j k).id = (jobs k).id := by
    intro k
    by_cases hk : k = i
    · rw [hk, update_self, hid]
    · rw [update_of_ne hk]
  have hlive : ∀ k, (update jobs i j k).state ≠ .empty → (jobs k).state ≠ .empty := by
    intro k hstate
    by_cases hk : k = i
    · rw [hk]
      exact hi
    · rwa [update_of_ne hk] at hstate
  refine ⟨h.nonneg, fun k hk => ?_, fun k l hk hl heq => ?_⟩
  · rw [hsame]
    exact h.range k (hlive k hk)
  · rw [hsame, hsame] at heq
    exact h.inj k l (hlive k hk) (hlive l hl) heq

theorem Ids.update_new (h : Ids jobs n) (hid : j.id = n + 1) : Ids (update jobs i j) (n + 1) := by
  have hold : ∀ k, k ≠ i → (update jobs i j k).state ≠ .empty →
      0 < (update jobs i j k).id ∧ (update jobs i j k).id ≤ n := by
    intro k hk hstate
    rw [update_of_ne hk] at hstate ⊢
    exact h.range k hstate
  have hnew : (update jobs i j i).id = n + 1 := by rw [update_self, hid]
  have hn := h.nonneg
  refine ⟨by omega, fun k hk => ?_, fun k l hk hl heq => ?_⟩
  · by_cases hki : k = i
    · rw [hki, hnew]
      omega
    · have := hold k hki hk
      omega
  · by_cases hki : k = i
    · by_cases hli : l = i
      · rw [hki, hli]
      · have := hold l hli hl
        rw [hki, hnew] at heq
        omega
    · by_cases hli : l = i
      · have := hold k hki hk
        rw [hli, hnew] at heq
        omega
      · rw [update_of_ne hki] at hk heq
        rw [update_of_ne hli] at hl heq
        exact h.inj k l hk hl heq

theorem inv_init (capacity : Nat) : Inv (init capacity) := by
  have hnone : ∀ c co, (init capacity).coros c ≠ some co := by
    intro c co h
    cases h
  refine ⟨⟨Int.le_refl 0, fun i h => absurd rfl h, fun i k h => absurd rfl h⟩, ?_⟩
  exact ⟨fun c co h => absurd h (hnone c co), fun c d co cd h => absurd h (hnone c co),
    fun c co h => absurd h (hnone c co), fun c co h => absurd h (hnone c co)⟩

theorem newId_eq (h : SlotIsFree s) : s.newId = s.nextId + 1 := if_pos h.1

theorem freeSlot_term (h : s.freeSlot = some i) : (s.jobs i).state.term = true :=
  List.find?_some (p := fun i => (s.jobs i).state.term) h

theorem Owners.not_in_freeSlot (h : Owners s) (hsafe : SlotIsFree s) (hfree : s.freeSlot = some i)
    (hco : s.coros c = some co) : co.slot ≠ i := by
  intro hslot
  have hlive : (s.jobs i).cancelled = false :=
    hsafe.2 i hfree c (h.fresh c co hco) co hco hslot
  have hterm : (s.jobs co.slot).cancelled = true :=
    h.term c co hco (by rw [hslot]; exact freeSlot_term hfree)
  rw [hslot, hlive] at hterm
  cases hterm

/-- A step puts `j` into slot `i`. `c` is the only coroutine that may be there, before the step and
after it, and `o` is what the step makes of it. -/
structure Puts (s s' : Scheduler) (i : Nat) (j : Job) (c : Nat) (o : Option Coroutine) : Prop where
  jobs : s'.jobs = update s.jobs i j
  coros : s'.coros = update s.coros c o
  tenant : ∀ d cd, s.coros d = some cd → (cd.slot = i ↔ d = c)
  slot : ∀ co ∈ o, co.slot = i
  nextCoro : s.nextCoro ≤ s'.nextCoro

variable {o : Option Coroutine} {d : Nat} {cd : Coroutine}

theorem Puts.after (h : Puts s s' i j c o) (hd : s'.coros d = some cd) :
    (d = c ∧ o = some cd ∧ s'.jobs cd.slot = j) ∨
      (d ≠ c ∧ cd.slot ≠ i ∧ s.coros d = some cd ∧ s'.jobs cd.slot = s.jobs cd.slot) := by
  rw [h.coros] at hd
  by_cases hdc : d = c
  · rw [hdc, update_self] at hd
    rw [h.jobs, h.slot cd hd, update_self]
    exact .inl ⟨hdc, hd, rfl⟩
  · rw [update_of_ne hdc] at hd
    have hslot : cd.slot ≠ i := fun heq => hdc ((h.tenant d cd hd).mp heq)
    rw [h.jobs, update_of_ne hslot]
    exact .inr ⟨hdc, hslot, hd, rfl⟩

theorem Owners.next_none (h : Owners s) : s.coros s.nextCoro = none :=
  Option.eq_none_iff_forall_ne_some.mpr fun co hco => Nat.lt_irrefl _ (h.fresh _ co hco)

theorem Owners.next_tenant (h : Owners s) (hfree : ∀ d cd, s.coros d = some cd → cd.slot ≠ i) :
    ∀ d cd, s.coros d = some cd → (cd.slot = i ↔ d = s.nextCoro) :=
  fun d cd hd =>
    iff_of_false (hfree d cd hd) (Nat.ne_of_lt (h.fresh d cd hd))

theorem Owners.tenant (h : Owners s) (hco : s.coros c = some co) :
    ∀ d cd, s.coros d = some cd → (cd.slot = co.slot ↔ d = c) := by
  intro d cd hd
  refine ⟨h.slot_inj d c cd co hd hco, fun heq => ?_⟩
  rw [heq, hco] at hd
  rw [Option.some.inj hd]

theorem Owners.exists_tenant (h : Owners s) (i : Nat) :
    ∃ c, ∀ d cd, s.coros d = some cd → (cd.slot = i ↔ d = c) := by
  by_cases hex : ∃ c co, s.coros c = some co ∧ co.slot = i
  · obtain ⟨c, co, hco, rfl⟩ := hex
    exact ⟨c, h.tenant hco⟩
  · exact ⟨s.nextCoro, h.next_tenant fun d cd hd hslot => hex ⟨d, cd, hd, hslot⟩⟩

theorem Owners.puts (h : Owners s) (hp : Puts s s' i j c o)
    (hmine : ∀ co ∈ o, c < s'.nextCoro ∧ j.id = co.timer ∧ j.state ≠ .empty ∧
      (j.state.term = true → j.cancelled = true)) : Owners s' := by
  refine ⟨fun d cd hd => ?_, fun d f cd cf hd hf hslot => ?_, fun d cd hd => ?_, fun d cd hd => ?_⟩
  · obtain ⟨rfl, ho, -⟩ | ⟨-, -, hd, -⟩ := hp.after hd
    · exact (hmine cd ho).1
    · exact Nat.lt_of_lt_of_le (h.fresh d cd hd) hp.nextCoro
  · obtain ⟨hdc, ho, -⟩ | ⟨-, hdi, hd, -⟩ := hp.after hd
    · obtain ⟨hfc, -, -⟩ | ⟨-, hfi, -, -⟩ := hp.after hf
      · rw [hdc, hfc]
      · exact absurd (hslot.symm.trans (hp.slot cd ho)) hfi
    · obtain ⟨-, ho, -⟩ | ⟨-, -, hf, -⟩ := hp.after hf
      · exact absurd (hslot.trans (hp.slot cf ho)) hdi
      · exact h.slot_inj d f cd cf hd hf hslot
  · obtain ⟨-, ho, hjob⟩ | ⟨-, -, hd, hjob⟩ := hp.after hd
    · rw [hjob]
      exact ⟨(hmine cd ho).2.1, (hmine cd ho).2.2.1⟩
    · rw [hjob]
      exact h.own d cd hd
  · obtain ⟨-, ho, hjob⟩ | ⟨-, -, hd, hjob⟩ := hp.after hd
    · rw [hjob]
      exact (hmine cd ho).2.2.2
    · rw [hjob]
      exact h.term d cd hd

theorem ne_empty_of_not_term {st : TState} (h : st.term = false) : st ≠ .empty := by
  intro heq
  rw [heq] at h
  cases h

theorem start_puts (h : Owners s) (hsafe : SlotIsFree s) (hfree : s.freeSlot = some i)
    (hjobs : s'.jobs = update s.jobs i j)
    (hcoros : s'.coros = update s.coros s.nextCoro (some ⟨i, s.newId, .queued⟩))
    (hcoro : s'.nextCoro = s.nextCoro + 1) :
    Puts s s' i j s.nextCoro (some ⟨i, s.newId, .queued⟩) where
  jobs := hjobs
  coros := hcoros
  tenant := h.next_tenant fun _ _ => h.not_in_freeSlot hsafe hfree
  slot co hco := by rw [← Option.some.inj hco]
  nextCoro := by omega

theorem refuse_puts (h : Owners s) (hsafe : SlotIsFree s) (hfree : s.freeSlot = some i)
    (hjobs : s'.jobs = update s.jobs i j) (hcoros : s'.coros = s.coros)
    (hcoro : s'.nextCoro = s.nextCoro) : Puts s s' i j s.nextCoro none where
  jobs := hjobs
  coros := by rw [hcoros, ← h.next_none, update_eq_self]
  tenant := h.next_tenant fun _ _ => h.not_in_freeSlot hsafe hfree
  slot _ hco := by cases hco
  nextCoro := Nat.le_of_eq hcoro.symm

theorem cancel_puts (hc : ∀ d cd, s.coros d = some cd → (cd.slot = i ↔ d = c))
    (hjobs : s'.jobs = update s.jobs i j) (hcoros : s'.coros = s.coros)
    (hcoro : s'.nextCoro = s.nextCoro) : Puts s s' i j c (s.coros c) where
  jobs := hjobs
  coros := by rw [hcoros, update_eq_self]
  tenant := hc
  slot co hco := (hc c co hco).mpr rfl
  nextCoro := Nat.le_of_eq hcoro.symm

theorem goOn_puts (h : Owners s) (hco : s.coros c = some co)
    (hjobs : s'.jobs = update s.jobs co.slot j)
    (hcoros : s'.coros = update s.coros c (some { co with phase := p }))
    (hcoro : s'.nextCoro = s.nextCoro) : Puts s s' co.slot j c (some { co with phase := p }) where
  jobs := hjobs
  coros := hcoros
  tenant := h.tenant hco
  slot cd hcd := by rw [← Option.some.inj hcd]
  nextCoro := Nat.le_of_eq hcoro.symm

theorem done_puts (h : Owners s) (hco : s.coros c = some co)
    (hjobs : s'.jobs = update s.jobs co.slot j)
    (hcoros : s'.coros = update s.coros c none) (hcoro : s'.nextCoro = s.nextCoro) :
    Puts s s' co.slot j c none where
  jobs := hjobs
  coros := hcoros
  tenant := h.tenant hco
  slot _ hcd := by cases hcd
  nextCoro := Nat.le_of_eq hcoro.symm

theorem Inv.goOn (h : Inv s) (hco : s.coros c = some co)
    (hjobs : s'.jobs = update s.jobs co.slot j)
    (hcoros : s'.coros = update s.coros c (some { co with phase := p }))
    (hid : s'.nextId = s.nextId) (hcoro : s'.nextCoro = s.nextCoro)
    (hown : j.id = (s.jobs co.slot).id) (hrun : j.state.term = false) : Inv s' := by
  obtain ⟨hmine, hstate⟩ := h.owners.own c co hco
  refine ⟨?_, h.owners.puts (goOn_puts h.owners hco hjobs hcoros hcoro) fun cd hcd => ?_⟩
  · rw [hjobs, hid]
    exact h.ids.update_same hstate hown
  · cases hcd
    refine ⟨?_, hown.trans hmine, ne_empty_of_not_term hrun, fun hterm => ?_⟩
    · rw [hcoro]
      exact h.owners.fresh c co hco
    · rw [hrun] at hterm
      cases hterm

theorem Inv.move (h : Inv s) (hm : Move s s' evs) : Inv s' := by
  cases hm with
  | quiet hjobs hcoros hid hcoro hevs =>
    refine ⟨?_, ⟨?_, ?_, ?_, ?_⟩⟩
    · rw [hjobs, hid]
      exact h.ids
    · rw [hcoros, hcoro]
      exact h.owners.fresh
    · rw [hcoros]
      exact h.owners.slot_inj
    · rw [hcoros, hjobs]
      exact h.owners.own
    · rw [hcoros, hjobs]
      exact h.owners.term
  | start hsafe hfree hjobs hcoros hid hcoro hevs hjob =>
    refine ⟨?_, h.owners.puts (start_puts h.owners hsafe hfree hjobs hcoros hcoro) fun co hco => ?_⟩
    · rw [hjobs, hid, newId_eq hsafe]
      exact h.ids.update_new (by rw [hjob.1, newId_eq hsafe])
    · cases hco
      rw [hjob.2.2, hcoro]
      exact ⟨Nat.lt_succ_self _, hjob.1, TState.noConfusion, fun hterm => by cases hterm⟩
  | refuse hsafe hfree hjobs hcoros hid hcoro hevs hjob =>
    refine ⟨?_, h.owners.puts (refuse_puts h.owners hsafe hfree hjobs hcoros hcoro) fun co hco => ?_⟩
    · rw [hjobs, hid, newId_eq hsafe]
      exact h.ids.update_new (by rw [hjob.1, newId_eq hsafe])
    · cases hco
  | cancel hstate hjobs hcoros hid hcoro hevs hjob =>
    rename_i i j
    obtain ⟨c, hc⟩ := h.owners.exists_tenant i
    refine ⟨?_, h.owners.puts (cancel_puts hc hjobs hcoros hcoro) fun co hco => ?_⟩
    · rw [hjobs, hid]
      exact h.ids.update_same (ne_empty_of_not_term hstate) (by rw [hjob])
    · have hown := (h.owners.own c co hco).1
      rw [(hc c co hco).mpr rfl] at hown
      rw [hjob, hcoro]
      exact ⟨h.owners.fresh c co hco, hown, TState.noConfusion, fun _ => rfl⟩
  | wait hco _ hjobs hcoros hid hcoro _ hjob | run hco _ _ hjobs hcoros hid hcoro _ hjob =>
    exact h.goOn hco hjobs hcoros hid hcoro hjob.1 (by rw [hjob.2.2.2.2]; rfl)
  | done hco hjobs hcoros hid hcoro hevs hjob =>
    refine ⟨?_, h.owners.puts (done_puts h.owners hco hjobs hcoros hcoro) fun cd hcd => ?_⟩
    · rw [hjobs, hid]
      exact h.ids.update_same (h.owners.own _ _ hco).2 hjob.1
    · cases hcd

/-! The trace of a run. -/

def Alive (s : Scheduler) (id : Int) : Prop := ∃ c co, s.coros c = some co ∧ co.timer = id

structure Track (j : Job) (co : Coroutine) (tr : List Event) : Prop where
  kind : ∀ k e, .started co.timer k e ∈ tr → j.kind = k
  notYet : j.kind = .after → co.phase ≠ .inCallback → .ran co.timer ∉ tr
  cancelled : .cancelled co.timer ∈ tr → j.cancelled = true
  held : ∀ k e, .started co.timer k (some e) ∈ tr → j.callback = ⟨some e, true⟩
  unreleased : ∀ e, .released co.timer e ∉ tr

structure Record (tr : List Event) (id : Int) (alive : Prop) : Prop where
  once : ∀ e, .started id .after e ∈ tr → tr.count (.ran id) ≤ 1
  retained : ∀ k e, .started id k (some e) ∈ tr → tr.count (.retained id e) = 1
  released : ∀ k e, .started id k (some e) ∈ tr → ¬alive → tr.count (.released id e) = 1

/-- No callback of a timer runs after a cancel of it. -/
def CancelStops (tr : List Event) : Prop :=
  tr.Pairwise fun a b => ∀ id, a = .cancelled id → b ≠ .ran id

structure Hist (s : Scheduler) (tr : List Event) : Prop where
  past : ∀ e ∈ tr, ∀ id, e.timer = some id → id ≤ s.nextId
  stops : CancelStops tr
  live : ∀ c co, s.coros c = some co → Track (s.jobs co.slot) co tr
  record : ∀ id, Record tr id (Alive s id)

theorem hist_init (capacity : Nat) : Hist (init capacity) [] := by
  refine ⟨?_, List.Pairwise.nil, ?_, fun id => ⟨?_, ?_, ?_⟩⟩
  · intro e he
    cases he
  · intro c co h
    cases h
  · intro e he
    cases he
  · intro k e he
    cases he
  · intro k e he
    cases he

variable {tr : List Event} {id : Int} {x : Event} {alive alive' : Prop}

theorem mem_other (hevs : ∀ e ∈ evs, e.timer ≠ some id) (hx : x.timer = some id) :
    x ∈ tr ++ evs ↔ x ∈ tr := by
  rw [List.mem_append, or_iff_left]
  exact fun hmem => hevs x hmem hx

theorem count_other (hx : x ∉ evs) : (tr ++ evs).count x = tr.count x := by
  rw [List.count_append, List.count_eq_zero_of_not_mem hx, Nat.add_zero]

theorem Track.other (h : Track j co tr) (hevs : ∀ e ∈ evs, e.timer ≠ some co.timer) :
    Track j co (tr ++ evs) where
  kind k e he := h.kind k e ((mem_other hevs rfl).mp he)
  notYet hk hp := fun he => h.notYet hk hp ((mem_other hevs rfl).mp he)
  cancelled he := h.cancelled ((mem_other hevs rfl).mp he)
  held k e he := h.held k e ((mem_other hevs rfl).mp he)
  unreleased e := fun he => h.unreleased e ((mem_other hevs rfl).mp he)

theorem Record.other (h : Record tr id alive) (hevs : ∀ e ∈ evs, e.timer = some id → e = .cancelled id)
    (halive : alive → alive') : Record (tr ++ evs) id alive' := by
  have hstart : ∀ k e, .started id k e ∈ tr ++ evs → .started id k e ∈ tr := by
    intro k e he
    obtain he | he := List.mem_append.mp he
    · exact he
    · cases hevs _ he rfl
  have hran : Event.ran id ∉ evs := fun hmem => nomatch hevs _ hmem rfl
  have hretained : ∀ e, Event.retained id e ∉ evs := fun e hmem => nomatch hevs _ hmem rfl
  have hreleased : ∀ e, Event.released id e ∉ evs := fun e hmem => nomatch hevs _ hmem rfl
  refine ⟨fun e he => ?_, fun k e he => ?_, fun k e he hdead => ?_⟩
  · rw [count_other hran]
    exact h.once e (hstart _ e he)
  · rw [count_other (hretained e)]
    exact h.retained k e (hstart k e he)
  · rw [count_other (hreleased e)]
    exact h.released k e (hstart k e he) fun ha => hdead (halive ha)

theorem CancelStops.append (h : CancelStops tr)
    (hevs : ∀ id, .ran id ∈ evs → .cancelled id ∉ tr ∧ .cancelled id ∉ evs) :
    CancelStops (tr ++ evs) := by
  refine List.pairwise_append.mpr ⟨h, ?_, fun a ha b hb id hid hran => ?_⟩
  · refine List.pairwise_iff_forall_sublist.mpr fun {a b} hsub id hid hran => ?_
    have ha : a ∈ evs := hsub.subset (List.mem_cons_self ..)
    have hb : b ∈ evs := hsub.subset (List.mem_cons_of_mem _ (List.mem_cons_self ..))
    rw [hid] at ha
    rw [hran] at hb
    exact (hevs id hb).2 ha
  · rw [hid] at ha
    rw [hran] at hb
    exact (hevs id hb).1 ha

theorem mem_retains : x ∈ cb.retains id ↔ ∃ env, cb.closureEnv = some env ∧ x = .retained id env := by
  unfold Callback.retains
  cases cb.closureEnv with
  | none | some => simp

theorem mem_releases : x ∈ cb.releases id ↔
      cb.owned = true ∧ ∃ env, cb.closureEnv = some env ∧ x = .released id env := by
  unfold Callback.releases
  cases cb.closureEnv with
  | none => simp
  | some env => cases cb.owned <;> simp

theorem Hist.past_append (h : ∀ e ∈ tr, ∀ id, e.timer = some id → id ≤ n)
    (hevs : ∀ e ∈ evs, ∀ id, e.timer = some id → id ≤ n) :
    ∀ e ∈ tr ++ evs, ∀ id, e.timer = some id → id ≤ n := by
  intro e he
  obtain he | he := List.mem_append.mp he
  · exact h e he
  · exact hevs e he

theorem Hist.quiet (h : Hist s tr) (hjobs : s'.jobs = s.jobs) (hcoros : s'.coros = s.coros)
    (hid : s'.nextId = s.nextId) (hevs : ∀ e ∈ evs, e.timer = none) : Hist s' (tr ++ evs) := by
  have hnone : ∀ id, ∀ e ∈ evs, e.timer ≠ some id := by
    intro id e he heq
    rw [hevs e he] at heq
    cases heq
  refine ⟨?_, ?_, ?_, ?_⟩
  · rw [hid]
    exact Hist.past_append h.past fun e he id heq => absurd heq (hnone id e he)
  · exact h.stops.append fun id hran => absurd rfl (hnone id _ hran)
  · intro c co hco
    rw [hcoros] at hco
    rw [hjobs]
    exact (h.live c co hco).other (hnone co.timer)
  · intro id
    refine (h.record id).other (fun e he heq => absurd heq (hnone id e he)) ?_
    rw [Alive, Alive, hcoros]
    exact fun ha => ha

/-- A step whose events are about the timer `j.id`: the trace of every other timer is as it was, and
`hstops`, `htrack` and `hrecord` are what is left to see for its own. -/
theorem Hist.puts (hinv' : Inv s') (h : Hist s tr) (hp : Puts s s' i j c o)
    (hstate : j.state ≠ .empty) (hid : s.nextId ≤ s'.nextId)
    (hold : ∀ co ∈ s.coros c, co.timer = j.id)
    (hevs : ∀ e ∈ evs, e.timer = none ∨ e.timer = some j.id) (hstops : CancelStops (tr ++ evs))
    (htrack : ∀ co ∈ o, co.timer = j.id → Track j co (tr ++ evs))
    (hrecord : Record (tr ++ evs) j.id (o.isSome = true)) : Hist s' (tr ++ evs) := by
  have hi : s'.jobs i = j := by rw [hp.jobs, update_self]
  have hother : ∀ id, id ≠ j.id → ∀ e ∈ evs, e.timer ≠ some id := by
    intro id hne e he heq
    obtain hnone | hmine := hevs e he
    · rw [hnone] at heq
      cases heq
    · rw [hmine] at heq
      exact hne (Option.some.inj heq).symm
  have hrange := hinv'.ids.range i (by rw [hi]; exact hstate)
  refine ⟨Hist.past_append (fun e he id heq => Int.le_trans (h.past e he id heq) hid) ?_, hstops, ?_,
    fun id => ?_⟩
  · intro e he id heq
    by_cases hne : id = j.id
    · rw [hne, ← hi]
      exact hrange.2
    · exact absurd heq (hother id hne e he)
  · intro d cd hd
    have hown := hinv'.owners.own d cd hd
    obtain ⟨-, ho, hjob⟩ | ⟨-, hslot, hd, hjob⟩ := hp.after hd
    · rw [hjob] at hown ⊢
      exact htrack cd ho hown.1.symm
    · have hne : cd.timer ≠ j.id := by
        intro heq
        refine hslot (hinv'.ids.inj _ _ hown.2 (by rw [hi]; exact hstate) ?_)
        rw [hown.1, heq, hi]
      rw [hjob]
      exact (h.live d cd hd).other (hother cd.timer hne)
  · by_cases hne : id = j.id
    · rw [hne]
      refine ⟨hrecord.once, hrecord.retained, fun k e he hdead => hrecord.released k e he ?_⟩
      intro hsome
      obtain ⟨co, ho⟩ := Option.isSome_iff_exists.mp hsome
      have hco : s'.coros c = some co := by rw [hp.coros, update_self, ho]
      have hown := (hinv'.owners.own c co hco).1
      rw [hp.slot co ho, hi] at hown
      exact hdead ⟨c, co, hco, hown.symm⟩
    · refine (h.record id).other (fun e he heq => absurd heq (hother id hne e he)) ?_
      intro ⟨d, cd, hd, htimer⟩
      refine ⟨d, cd, ?_, htimer⟩
      have hdc : d ≠ c := by
        intro hdc
        rw [hdc] at hd
        exact hne (htimer.symm.trans (hold cd hd))
      rw [hp.coros, update_of_ne hdc, hd]

theorem Hist.new_not_past (h : Hist s tr) (hsafe : SlotIsFree s) (hx : x.timer = some s.newId) :
    x ∉ tr := by
  intro hmem
  have hle := h.past x hmem s.newId hx
  rw [newId_eq hsafe] at hle
  omega

theorem mem_startEvents {kind : TKind} : x ∈ cb.retains id ++ [.started id kind cb.closureEnv] ↔
      (∃ env, cb.closureEnv = some env ∧ x = .retained id env) ∨ x = .started id kind cb.closureEnv := by
  rw [List.mem_append, mem_retains, List.mem_singleton]

theorem Hist.start (hinv : Inv s) (hinv' : Inv s') (h : Hist s tr) (hsafe : SlotIsFree s)
    (hp : Puts s s' i j s.nextCoro (some ⟨i, s.newId, .queued⟩)) (hid : s'.nextId = s.newId)
    (hjob : j.id = s.newId ∧ j.callback = cb.keep ∧ j.state = .scheduled) :
    Hist s' (tr ++ (cb.retains s.newId ++ [.started s.newId j.kind cb.closureEnv])) := by
  -- Of the new timer there is nothing in the trace but the new events.
  have hnew : ∀ x, x.timer = some s.newId →
      x ∈ tr ++ (cb.retains s.newId ++ [.started s.newId j.kind cb.closureEnv]) →
        (∃ env, cb.closureEnv = some env ∧ x = .retained s.newId env) ∨
          x = .started s.newId j.kind cb.closureEnv := by
    intro x hx hmem
    obtain hmem | hmem := List.mem_append.mp hmem
    · exact absurd hmem (h.new_not_past hsafe hx)
    · exact mem_startEvents.mp hmem
  have hnever : ∀ x, x.timer = some s.newId → (∀ env, x ≠ .retained s.newId env) →
      (∀ k e, x ≠ .started s.newId k e) →
      x ∉ tr ++ (cb.retains s.newId ++ [.started s.newId j.kind cb.closureEnv]) := by
    intro x hx hretained hstarted hmem
    obtain ⟨env, -, heq⟩ | heq := hnew x hx hmem
    · exact hretained env heq
    · exact hstarted _ _ heq
  have hstarted : ∀ k e, Event.started s.newId k e ∈
      tr ++ (cb.retains s.newId ++ [.started s.newId j.kind cb.closureEnv]) →
        j.kind = k ∧ cb.closureEnv = e := by
    intro k e he
    obtain ⟨env, -, heq⟩ | heq := hnew _ rfl he
    · cases heq
    · exact ⟨(Event.started.inj heq).2.1.symm, (Event.started.inj heq).2.2.symm⟩
  refine h.puts hinv' hp ?_ ?_ ?_ ?_ ?_ ?_ ?_
  · rw [hjob.2.2]
    exact TState.noConfusion
  · rw [hid, newId_eq hsafe]
    omega
  · intro co hco
    rw [hinv.owners.next_none] at hco
    cases hco
  · intro e he
    rw [hjob.1]
    obtain ⟨env, -, rfl⟩ | rfl := mem_startEvents.mp he
    · exact .inr rfl
    · exact .inr rfl
  · refine h.stops.append fun id hran => ?_
    obtain ⟨env, -, heq⟩ | heq := mem_startEvents.mp hran
    · cases heq
    · cases heq
  · intro co hco _
    cases hco
    refine ⟨fun k e he => (hstarted k e he).1, fun _ _ => ?_, fun he => ?_, fun k e he => ?_, fun e => ?_⟩
    · exact hnever _ rfl (fun _ => Event.noConfusion) fun _ _ => Event.noConfusion
    · exact absurd he (hnever _ rfl (fun _ => Event.noConfusion) fun _ _ => Event.noConfusion)
    · rw [hjob.2.1, Callback.keep, (hstarted k _ he).2]
      rfl
    · exact hnever _ rfl (fun _ => Event.noConfusion) fun _ _ => Event.noConfusion
  · rw [hjob.1]
    refine ⟨fun e he => ?_, fun k e he => ?_, fun k e he hdead => absurd rfl hdead⟩
    · have hran := hnever (.ran s.newId) rfl (fun _ => Event.noConfusion) fun _ _ =>
        Event.noConfusion
      rw [List.count_eq_zero_of_not_mem hran]
      exact Nat.zero_le _
    · have hold : Event.retained s.newId e ∉ tr := h.new_not_past hsafe rfl
      rw [List.count_append, List.count_eq_zero_of_not_mem hold, Callback.retains, (hstarted k _ he).2]
      simp

theorem Hist.refuse (hinv : Inv s) (hinv' : Inv s') (h : Hist s tr) {msg : String}
    (hsafe : SlotIsFree s) (hp : Puts s s' i j s.nextCoro none) (hid : s'.nextId = s.newId)
    (hjob : j.id = s.newId ∧ j.state = .failed) :
    Hist s' (tr ++ (cb.retains s.newId ++ cb.keep.releases s.newId ++ [.refused msg])) := by
  have hmem : ∀ x ∈ cb.retains s.newId ++ cb.keep.releases s.newId ++ [.refused msg],
      (∃ env, x = .retained s.newId env ∨ x = .released s.newId env) ∨ x = .refused msg := by
    intro x hx
    simp only [List.mem_append, mem_retains, mem_releases, List.mem_singleton] at hx
    obtain (⟨env, -, rfl⟩ | ⟨-, env, -, rfl⟩) | rfl := hx
    · exact .inl ⟨env, .inl rfl⟩
    · exact .inl ⟨env, .inr rfl⟩
    · exact .inr rfl
  refine h.puts hinv' hp ?_ ?_ ?_ ?_ ?_ ?_ ?_
  · rw [hjob.2]
    exact TState.noConfusion
  · rw [hid, newId_eq hsafe]
    omega
  · intro co hco
    rw [hinv.owners.next_none] at hco
    cases hco
  · intro e he
    rw [hjob.1]
    obtain ⟨env, rfl | rfl⟩ | rfl := hmem e he
    · exact .inr rfl
    · exact .inr rfl
    · exact .inl rfl
  · refine h.stops.append fun id hran => ?_
    obtain ⟨env, heq | heq⟩ | heq := hmem _ hran <;> cases heq
  · intro co hco
    cases hco
  · have hstart : ∀ k e, Event.started s.newId k e ∉
        tr ++ (cb.retains s.newId ++ cb.keep.releases s.newId ++ [.refused msg]) := by
      intro k e he
      obtain he | he := List.mem_append.mp he
      · exact h.new_not_past hsafe rfl he
      · obtain ⟨env, heq | heq⟩ | heq := hmem _ he <;> cases heq
    rw [hjob.1]
    exact ⟨fun e he => absurd he (hstart _ e), fun k e he => absurd he (hstart k e),
      fun k e he => absurd he (hstart k e)⟩

theorem Hist.cancel (hinv : Inv s) (hinv' : Inv s') (h : Hist s tr)
    (hp : Puts s s' i j c (s.coros c)) (hstate : (s.jobs i).state ≠ .empty)
    (hid : s'.nextId = s.nextId)
    (hevs : ∀ e ∈ evs, e.timer = none ∨ e = .cancelled (s.jobs i).id)
    (hjob : j = { s.jobs i with cancelled := true, state := .cancelled, active := false }) :
    Hist s' (tr ++ evs) := by
  have hjid : j.id = (s.jobs i).id := by rw [hjob]
  have hcancel : ∀ id, ∀ e ∈ evs, e.timer = some id → e = .cancelled id ∧ id = (s.jobs i).id := by
    intro id e he heq
    obtain hnone | rfl := hevs e he
    · rw [hnone] at heq
      cases heq
    · cases heq
      exact ⟨rfl, rfl⟩
  refine h.puts hinv' hp ?_ (Int.le_of_eq hid.symm) ?_ ?_ ?_ ?_ ?_
  · rw [hjob]
    exact TState.noConfusion
  · intro co hco
    rw [hjid, ← hp.slot co hco]
    exact (hinv.owners.own c co hco).1.symm
  · intro e he
    rw [hjid]
    obtain hnone | rfl := hevs e he
    · exact .inl hnone
    · exact .inr rfl
  · exact h.stops.append fun id hran => nomatch (hcancel id _ hran rfl).1
  · intro co hco _
    have hlive := h.live c co hco
    have hold : ∀ x, x.timer = some co.timer → x ≠ .cancelled co.timer → x ∈ tr ++ evs → x ∈ tr := by
      intro x hx hxc hmem
      obtain hmem | hmem := List.mem_append.mp hmem
      · exact hmem
      · exact absurd (hcancel _ x hmem hx).1 hxc
    rw [hjob, ← hp.slot co hco]
    refine ⟨fun k e he => ?_, fun hk hp he => ?_, fun _ => rfl, fun k e he => ?_, fun e he => ?_⟩
    · exact hlive.kind k e (hold _ rfl Event.noConfusion he)
    · exact hlive.notYet hk hp (hold _ rfl Event.noConfusion he)
    · exact hlive.held k e (hold _ rfl Event.noConfusion he)
    · exact hlive.unreleased e (hold _ rfl Event.noConfusion he)
  · refine (h.record j.id).other (fun e he heq => (hcancel _ e he heq).1) ?_
    intro ⟨d, cd, hd, htimer⟩
    obtain ⟨hown, hne⟩ := hinv.owners.own d cd hd
    have hslot := hinv.ids.inj cd.slot i hne hstate (by rw [hown, htimer, hjid])
    rw [← (hp.tenant d cd hd).mp hslot, hd]
    rfl

theorem Hist.goOn (hinv : Inv s) (hinv' : Inv s') (h : Hist s tr) (hco : s.coros c = some co)
    (hp : Puts s s' co.slot j c (some { co with phase := p })) (hid : s'.nextId = s.nextId)
    (hown : j.id = (s.jobs co.slot).id) (hrun : j.state.term = false)
    (hstops : CancelStops (tr ++ evs))
    (hevs : ∀ e ∈ evs, e.timer = none ∨ e.timer = some co.timer)
    (htrack : Track j { co with phase := p } (tr ++ evs))
    (hrecord : Record (tr ++ evs) co.timer True) : Hist s' (tr ++ evs) := by
  have hmine : j.id = co.timer := hown.trans (hinv.owners.own c co hco).1
  refine h.puts hinv' hp (ne_empty_of_not_term hrun) (Int.le_of_eq hid.symm) ?_ ?_ hstops ?_ ?_
  · intro cd hcd
    rw [hco] at hcd
    rw [hmine, Option.some.inj hcd]
  · rw [hmine]
    exact hevs
  · intro cd hcd _
    rw [← Option.some.inj hcd]
    exact htrack
  · rw [hmine]
    exact ⟨hrecord.once, hrecord.retained, fun k e he hdead => absurd rfl hdead⟩

theorem Hist.wait (hinv : Inv s) (hinv' : Inv s') (h : Hist s tr) (hco : s.coros c = some co)
    (hkind : (s.jobs co.slot).kind = .after → co.phase = .queued)
    (hp : Puts s s' co.slot j c (some { co with phase := .waiting })) (hid : s'.nextId = s.nextId)
    (hevs : ∀ e ∈ evs, e.timer = none)
    (hjob : j.id = (s.jobs co.slot).id ∧ j.kind = (s.jobs co.slot).kind ∧
      j.callback = (s.jobs co.slot).callback ∧ j.cancelled = (s.jobs co.slot).cancelled ∧
      j.state = .scheduled) : Hist s' (tr ++ evs) := by
  obtain ⟨hown, hk, hcb, hc, hstate⟩ := hjob
  have hnone : ∀ id, ∀ e ∈ evs, e.timer ≠ some id := by
    intro id e he heq
    rw [hevs e he] at heq
    cases heq
  have hlive := (h.live c co hco).other (hnone co.timer)
  refine h.goOn hinv hinv' hco hp hid hown ?_ ?_ (fun e he => .inl (hevs e he)) ?_ ?_
  · rw [hstate]
    rfl
  · exact h.stops.append fun id hran => absurd rfl (hnone id _ hran)
  · refine ⟨?_, ?_, ?_, ?_, hlive.unreleased⟩
    · rw [hk]
      exact hlive.kind
    · rw [hk]
      intro hafter _
      exact hlive.notYet hafter (by rw [hkind hafter]; exact Phase.noConfusion)
    · rw [hc]
      exact hlive.cancelled
    · rw [hcb]
      exact hlive.held
  · exact (h.record co.timer).other (fun e he heq => absurd heq (hnone _ e he)) fun _ => trivial

theorem Hist.run (hinv : Inv s) (hinv' : Inv s') (h : Hist s tr) (hco : s.coros c = some co)
    (hphase : co.phase = .waiting) (hrun : (s.jobs co.slot).cancelled = false)
    (hp : Puts s s' co.slot j c (some { co with phase := .inCallback })) (hid : s'.nextId = s.nextId)
    (hjob : j.id = (s.jobs co.slot).id ∧ j.kind = (s.jobs co.slot).kind ∧
      j.callback = (s.jobs co.slot).callback ∧ j.cancelled = (s.jobs co.slot).cancelled ∧
      j.state = .running) : Hist s' (tr ++ [.ran (s.jobs co.slot).id]) := by
  obtain ⟨hown, hk, hcb, hc, hstate⟩ := hjob
  have hlive := h.live c co hco
  rw [(hinv.owners.own c co hco).1]
  have hmem : ∀ x, x ≠ .ran co.timer → x ∈ tr ++ [.ran co.timer] → x ∈ tr := by
    intro x hx hx'
    obtain hx' | hx' := List.mem_append.mp hx'
    · exact hx'
    · exact absurd (List.mem_singleton.mp hx') hx
  have hnot : Event.cancelled co.timer ∉ tr := by
    intro hcancelled
    rw [hlive.cancelled hcancelled] at hrun
    cases hrun
  refine h.goOn hinv hinv' hco hp hid hown ?_ ?_ ?_ ?_ ?_
  · rw [hstate]
    rfl
  · refine h.stops.append fun id hran => ?_
    cases List.mem_singleton.mp hran
    exact ⟨hnot, fun hc => nomatch List.mem_singleton.mp hc⟩
  · intro e he
    rw [List.mem_singleton.mp he]
    exact .inr rfl
  · refine ⟨?_, fun _ hp => absurd rfl hp, ?_, ?_, ?_⟩
    · rw [hk]
      exact fun k e he => hlive.kind k e (hmem _ Event.noConfusion he)
    · rw [hc]
      exact fun he => hlive.cancelled (hmem _ Event.noConfusion he)
    · rw [hcb]
      exact fun k e he => hlive.held k e (hmem _ Event.noConfusion he)
    · exact fun e he => hlive.unreleased e (hmem _ Event.noConfusion he)
  · have hcount : ∀ e, Event.retained co.timer e ∉ [Event.ran co.timer] :=
      fun e hx => nomatch List.mem_singleton.mp hx
    refine ⟨fun e he => ?_, fun k e he => ?_, fun k e _ hdead => absurd trivial hdead⟩
    · have hafter := hlive.kind _ e (hmem _ Event.noConfusion he)
      have hnotYet : Event.ran co.timer ∉ tr :=
        hlive.notYet hafter (by rw [hphase]; exact Phase.noConfusion)
      refine Nat.le_of_eq ?_
      rw [List.count_append, List.count_eq_zero_of_not_mem hnotYet, List.count_singleton_self]
    · rw [count_other (hcount e)]
      exact (h.record co.timer).retained k e (hmem _ Event.noConfusion he)

theorem Hist.done (hinv : Inv s) (hinv' : Inv s') (h : Hist s tr) (hco : s.coros c = some co)
    (hp : Puts s s' co.slot j c none) (hid : s'.nextId = s.nextId)
    (hjob : j.id = (s.jobs co.slot).id ∧ j.state ≠ .empty) :
    Hist s' (tr ++ (s.jobs co.slot).callback.releases (s.jobs co.slot).id) := by
  have hlive := h.live c co hco
  have hown := (hinv.owners.own c co hco).1
  rw [hown]
  have hrel : ∀ x ∈ (s.jobs co.slot).callback.releases co.timer, ∃ env, x = .released co.timer env := by
    intro x hx
    obtain ⟨-, env, -, rfl⟩ := mem_releases.mp hx
    exact ⟨env, rfl⟩
  have hnot : ∀ x, (∀ env, x ≠ .released co.timer env) →
      x ∉ (s.jobs co.slot).callback.releases co.timer := by
    intro x hx hmem
    obtain ⟨env, heq⟩ := hrel x hmem
    exact hx env heq
  refine h.puts hinv' hp hjob.2 (Int.le_of_eq hid.symm) ?_ ?_ ?_ ?_ ?_
  · intro cd hcd
    rw [hco] at hcd
    rw [hjob.1, hown, Option.some.inj hcd]
  · intro e he
    obtain ⟨env, rfl⟩ := hrel e he
    rw [hjob.1, hown]
    exact .inr rfl
  · exact h.stops.append fun id hran => absurd hran (hnot _ fun _ => Event.noConfusion)
  · intro cd hcd
    cases hcd
  · rw [hjob.1, hown]
    have hmem : ∀ k e, Event.started co.timer k e ∈
        tr ++ (s.jobs co.slot).callback.releases co.timer → .started co.timer k e ∈ tr := by
      intro k e he
      exact (List.mem_append.mp he).resolve_right (hnot _ fun _ => Event.noConfusion)
    have hold := h.record co.timer
    refine ⟨fun e he => ?_, fun k e he => ?_, fun k e he _ => ?_⟩
    · rw [count_other (hnot _ fun _ => Event.noConfusion)]
      exact hold.once e (hmem _ e he)
    · rw [count_other (hnot _ fun _ => Event.noConfusion)]
      exact hold.retained k e (hmem k e he)
    · rw [hlive.held k e (hmem k e he), List.count_append,
        List.count_eq_zero_of_not_mem (hlive.unreleased e), Callback.releases]
      simp

theorem Hist.move (hinv : Inv s) (h : Hist s tr) (hm : Move s s' evs) : Hist s' (tr ++ evs) := by
  have hinv' := hinv.move hm
  have ho := hinv.owners
  cases hm with
  | quiet hjobs hcoros hid hcoro hevs => exact h.quiet hjobs hcoros hid hevs
  | start hsafe hfree hjobs hcoros hid hcoro hevs hjob =>
    rw [hevs]
    exact h.start hinv hinv' hsafe (start_puts ho hsafe hfree hjobs hcoros hcoro) hid hjob
  | refuse hsafe hfree hjobs hcoros hid hcoro hevs hjob =>
    rw [hevs]
    exact h.refuse hinv hinv' hsafe (refuse_puts ho hsafe hfree hjobs hcoros hcoro) hid hjob
  | cancel hstate hjobs hcoros hid hcoro hevs hjob =>
    obtain ⟨c, hc⟩ := ho.exists_tenant _
    exact h.cancel hinv hinv' (cancel_puts hc hjobs hcoros hcoro) (ne_empty_of_not_term hstate) hid
      hevs hjob
  | wait hco hkind hjobs hcoros hid hcoro hevs hjob =>
    exact h.wait hinv hinv' hco hkind (goOn_puts ho hco hjobs hcoros hcoro) hid hevs hjob
  | run hco hphase hlive hjobs hcoros hid hcoro hevs hjob =>
    rw [hevs]
    exact h.run hinv hinv' hco hphase hlive (goOn_puts ho hco hjobs hcoros hcoro) hid hjob
  | done hco hjobs hcoros hid hcoro hevs hjob =>
    rw [hevs]
    exact h.done hinv hinv' hco (done_puts ho hco hjobs hcoros hcoro) hid hjob

theorem inv_run {ops : List Op} {os : List (List Event)} (hinv : Inv s) (h : Hist s tr)
    (hsafe : AllSafe s ops) (hr : runOut step s ops = some (s', os)) :
    Inv s' ∧ Hist s' (tr ++ os.flatten) := by
  induction ops generalizing s tr os with
  | nil =>
    cases hr
    rw [List.flatten_nil, List.append_nil]
    exact ⟨hinv, h⟩
  | cons op ops ih =>
    obtain ⟨t, evs, os', hs, hr', rfl⟩ := runOut_cons hr
    obtain ⟨hop, hrest⟩ := hsafe
    have hm : Move s t evs := step_move hop hs
    rw [List.flatten_cons, ← List.append_assoc]
    exact ih (hinv.move hm) (h.move hinv hm) (hrest (t, evs) hs) hr'

/-! A step of one timer and the state of the others. -/

def Op.timer (s : Scheduler) : Op → Option Int
  | .cancel id => some id
  | .resume c _ | .wake c _ _ | .finish c _ _ _ | .drop c => (s.coros c).map Coroutine.timer
  | _ => none

structure Touches (s s' : Scheduler) (id : Int) : Prop where
  capacity : s'.capacity = s.capacity
  jobs : ∀ i, s'.jobs i = s.jobs i ∨ ((s.jobs i).id = id ∧ (s'.jobs i).id = id)

theorem Touches.refl (s : Scheduler) (id : Int) : Touches s s id := ⟨rfl, fun _ => .inl rfl⟩

theorem Touches.statusOf (h : Touches s s' id) {id' : Int} (hne : id' ≠ id) :
    s'.statusOf id' = s.statusOf id' := by
  have hmatch : ∀ i, ((s'.jobs i).id == id' && (s'.jobs i).state != .empty) =
      ((s.jobs i).id == id' && (s.jobs i).state != .empty) := by
    intro i
    obtain hi | ⟨hold, hnew⟩ := h.jobs i
    · rw [hi]
    · rw [hold, hnew, beq_false_of_ne hne.symm, Bool.false_and, Bool.false_and]
  have hfind : s'.find id' = s.find id' := by
    unfold Scheduler.find
    rw [h.capacity]
    exact congrArg (List.find? · _) (funext hmatch)
  unfold Scheduler.statusOf
  rw [hfind]
  cases hf : s.find id' with
  | none => rfl
  | some i =>
    have hp := List.find?_some (p := fun i => (s.jobs i).id == id' && (s.jobs i).state != .empty) hf
    simp only [Bool.and_eq_true, beq_iff_eq] at hp
    obtain hi | ⟨hold, -⟩ := h.jobs i
    · show (s'.jobs i).state.name = (s.jobs i).state.name
      rw [hi]
    · exact absurd (hp.1.symm.trans hold) hne

theorem touches_of_slot (hcap : s'.capacity = s.capacity)
    (hjobs : ∃ j, s'.jobs = update s.jobs i j ∧ j.id = (s.jobs i).id)
    (hid : (s.jobs i).id = id) : Touches s s' id := by
  obtain ⟨j, hj, hkeep⟩ := hjobs
  refine ⟨hcap, fun k => ?_⟩
  rw [hj]
  by_cases hk : k = i
  · rw [hk, update_self, hkeep]
    exact .inr ⟨hid, hid⟩
  · rw [update_of_ne hk]
    exact .inl rfl

theorem Touches.trans {s'' : Scheduler} (h : Touches s s' id) (h' : Touches s' s'' id) :
    Touches s s'' id := by
  refine ⟨h'.capacity.trans h.capacity, fun i => ?_⟩
  obtain hi | ⟨hold, hnew⟩ := h.jobs i
  · rw [← hi]
    exact h'.jobs i
  · obtain hi' | ⟨-, hnew'⟩ := h'.jobs i
    · exact .inr ⟨hold, by rw [hi', hnew]⟩
    · exact .inr ⟨hold, hnew'⟩

theorem done_touches {state : TState} {err : Option String} (hid : (s.jobs i).id = id)
    (h : s.done c i state err = (s', evs)) : Touches s s' id := by
  cases h
  exact touches_of_slot rfl ⟨_, rfl, rfl⟩ hid

theorem loopHead_touches (hid : (s.jobs co.slot).id = id) (h : s.loopHead c co b = (s', evs)) :
    Touches s s' id := by
  unfold Scheduler.loopHead at h
  dsimp only at h
  split at h
  · exact done_touches hid h
  · split at h
    · exact done_touches hid h
    · cases h
      exact touches_of_slot rfl ⟨_, rfl, rfl⟩ hid

theorem setJob_touches (hid : (s.jobs i).id = id) (hkeep : j.id = (s.jobs i).id) :
    Touches s (s.setJob i j) id ∧ ((s.setJob i j).jobs i).id = id := by
  refine ⟨touches_of_slot rfl ⟨j, rfl, hkeep⟩ hid, ?_⟩
  show (update s.jobs i j i).id = id
  rw [update_self, hkeep, hid]

theorem wake_touches {rcOk statusCancelled : Bool} (hid : (s.jobs co.slot).id = id)
    (h : s.wake c co rcOk statusCancelled = (s', evs)) : Touches s s' id := by
  unfold Scheduler.wake at h
  dsimp only at h
  split at h
  · obtain ⟨hset, hid'⟩ := setJob_touches (j := { s.jobs co.slot with
      awaitActive := false
      state := if (s.jobs co.slot).state.term then (s.jobs co.slot).state else .pending }) hid rfl
    exact hset.trans (done_touches hid' h)
  · cases h
    exact touches_of_slot rfl ⟨_, rfl, rfl⟩ hid

theorem finish_touches {failure : Option String} {next : Option Int}
    (hid : (s.jobs co.slot).id = id) (h : s.finish c co failure next b = (s', evs)) :
    Touches s s' id := by
  unfold Scheduler.finish at h
  dsimp only at h
  split at h
  · exact done_touches hid h
  · split at h
    · exact done_touches hid h
    · exact loopHead_touches hid h
    · exact done_touches hid h
    · rename_i due _
      obtain ⟨hset, hid'⟩ := setJob_touches (j := { s.jobs co.slot with due := due }) hid rfl
      exact hset.trans (loopHead_touches hid' h)

theorem Inv.id_of_inPhase (hinv : Inv s) (hco : s.inPhase c p = some co)
    (htimer : (s.coros c).map Coroutine.timer = some id) : (s.jobs co.slot).id = id := by
  have hsome := (inPhase_some hco).1
  rw [hsome] at htimer
  rw [(hinv.owners.own c co hsome).1]
  exact Option.some.inj htimer

theorem step_touches (hinv : Inv s) (htimer : op.timer s = some id)
    (h : step s op = some (s', evs)) : Touches s s' id := by
  match op with
  | .cancel id' =>
    cases htimer
    simp only [step] at h
    split at h
    · cases h
      exact .refl s id
    · split at h
      · cases h
        exact .refl s id
      · rename_i i hfind
        have hp := List.find?_some hfind
        simp only [Bool.and_eq_true, beq_iff_eq] at hp
        obtain hreq | ⟨revs, -, -, hreq⟩ := request_cases s i
        · rw [hreq] at h
          cases h
          exact .refl s id
        · rw [hreq] at h
          cases h
          exact touches_of_slot rfl ⟨_, rfl, rfl⟩ hp.1
  | .resume c b =>
    obtain ⟨co, hco, h⟩ := Option.map_eq_some_iff.mp h
    exact loopHead_touches (hinv.id_of_inPhase hco htimer) h
  | .wake c rcOk statusCancelled =>
    obtain ⟨co, hco, h⟩ := Option.map_eq_some_iff.mp h
    exact wake_touches (hinv.id_of_inPhase hco htimer) h
  | .finish c failure next b =>
    obtain ⟨co, hco, h⟩ := Option.map_eq_some_iff.mp h
    exact finish_touches (hinv.id_of_inPhase hco htimer) h
  | .drop c =>
    obtain ⟨co, hco, h⟩ := Option.map_eq_some_iff.mp h
    exact done_touches (hinv.id_of_inPhase hco htimer) h
  | .after .. | .every .. | .cron .. | .status _ | .close | .closeSlot _ => cases htimer

/-! What the scheduler promises. -/

/-- The timers of a run that has got to `s` with this trace. -/
structure Isolated (s : Scheduler) (tr : List Event) : Prop where
  slots : ∀ c d co cd, s.coros c = some co → s.coros d = some cd → co.slot = cd.slot → c = d
  once : ∀ id e, .started id .after e ∈ tr → tr.count (.ran id) ≤ 1
  stops : CancelStops tr
  others : ∀ op s' evs id, op.timer s = some id → step s op = some (s', evs) →
    ∀ id', id' ≠ id → s'.statusOf id' = s.statusOf id'
  retained : ∀ id k e, .started id k (some e) ∈ tr → tr.count (.retained id e) = 1
  released : ∀ id k e, .started id k (some e) ∈ tr →
    tr.count (.released id e) = 0 ∧ Alive s id ∨ tr.count (.released id e) = 1 ∧ ¬Alive s id

/-- In every run in which no start takes the slot of a cancelled timer before its coroutine has
ended, the timers are isolated. -/
theorem timers_isolated (capacity : Nat) (ops : List Op) (s : Scheduler) (os : List (List Event))
    (hsafe : AllSafe (init capacity) ops) (hr : runOut step (init capacity) ops = some (s, os)) :
    Isolated s os.flatten := by
  obtain ⟨hinv, h⟩ := inv_run (inv_init capacity) (hist_init capacity) hsafe hr
  rw [List.nil_append] at h
  refine ⟨hinv.owners.slot_inj, fun id => (h.record id).once, h.stops, ?_,
    fun id => (h.record id).retained, ?_⟩
  · intro op s' evs id htimer hs id' hne
    exact (step_touches hinv htimer hs).statusOf hne
  · intro id k e he
    by_cases halive : Alive s id
    · obtain ⟨c, co, hco, rfl⟩ := halive
      exact .inl ⟨List.count_eq_zero_of_not_mem ((h.live c co hco).unreleased e), c, co, hco, rfl⟩
    · exact .inr ⟨(h.record id).released k e he halive, halive⟩

/-- A timer that fires while another one is cancelled. -/
theorem timers_isolated_cancel : ∃ s os, runOut step (init 2)
      [.after 10 ⟨some 7, false⟩ true, .every 20 ⟨some 8, false⟩ true, .resume 0 ⟨0, some 1⟩,
        .resume 1 ⟨0, some 2⟩, .cancel 2, .wake 0 true false, .wake 1 true true,
        .finish 0 none none ⟨0, none⟩, .after 5 ⟨none, false⟩ true] = some (s, os) ∧
    Isolated s os.flatten := by
  have hruns : (runOut step (init 2)
      [.after 10 ⟨some 7, false⟩ true, .every 20 ⟨some 8, false⟩ true, .resume 0 ⟨0, some 1⟩,
        .resume 1 ⟨0, some 2⟩, .cancel 2, .wake 0 true false, .wake 1 true true,
        .finish 0 none none ⟨0, none⟩, .after 5 ⟨none, false⟩ true]).isSome := by
    decide +kernel
  have hr := (Option.some_get hruns).symm
  exact ⟨_, _, hr, timers_isolated 2 _ _ _ (by decide +kernel) hr⟩

/-- `id = timer.after(10, f); timer.cancel(id); timer.after(20, g);`: the second timer gets the slot
while the first one's coroutine is still queued. Both coroutines wait for it, and `g` runs
twice. -/
theorem slot_taken : ¬∀ (capacity : Nat) (ops : List Op) (s : Scheduler) (os : List (List Event)),
    runOut step (init capacity) ops = some (s, os) → Isolated s os.flatten := by
  intro h
  have hruns : (runOut step (init 64)
      [.after 10 ⟨some 7, false⟩ true, .cancel 1, .after 20 ⟨some 8, false⟩ true,
        .resume 0 ⟨0, some 1⟩, .resume 1 ⟨0, some 2⟩, .wake 0 true false,
        .finish 0 none none ⟨0, none⟩, .wake 1 true false]).map
      (fun r => decide (.started 2 .after (some 8) ∈ r.2.flatten ∧
        r.2.flatten.count (.ran 2) = 2)) = some true := by
    decide +kernel
  obtain ⟨⟨s, os⟩, hr, htwice⟩ := Option.map_eq_some_iff.mp hruns
  obtain ⟨hstarted, hcount⟩ := of_decide_eq_true htwice
  have honce := (h 64 _ s os hr).once 2 (some 8) hstarted
  have htwo : os.flatten.count (.ran 2) = 2 := hcount
  rw [htwo] at honce
  exact absurd honce (by decide)

end TurboScript.Runtime.Timer
